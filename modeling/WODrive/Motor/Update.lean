import WODrive.Motor.PowerStage

/-!
# A cycle of motor control in single precision (motor.cpp, utils.hpp)

`Motor::update` turns a torque into a current command, and the command into timings, on the
power stage of its axis. All of its inputs are arbitrary numbers of the machine, with infinities
and NaN among them: the setpoint and the phase, what is measured, and what is configured.

- `limitOf_currentLimit`: the current limit is a number between 0 and the configured one, at
  most what the hardware and the thermistors allow;
- `focCurrent_accepted`, `focVoltage_accepted`: NaN does not get as far as the timer;
- `update_safe`: a cycle ends with a command within the limits, or with the motor disarmed.
-/

namespace WODrive.LowLevel

def MotorError.ERROR_NOT_IMPLEMENTED_MOTOR_TYPE : MotorError := 0x20

end WODrive.LowLevel

namespace WODrive.Motor

open LowLevel Binary32

namespace Functions

/-- `fmodf_pos` -/
def fmodfPos (f : Functions Float32) (x y : Float32) : Float32 :=
  let out := f.fmodf x y
  if out < 0 then out + y else out

/-- `wrap_pm` -/
def wrapPm (f : Functions Float32) (x pmRange : Float32) : Float32 :=
  f.fmodfPos (x + pmRange) (2 * pmRange) - pmRange

/-- `wrap_pm_pi` -/
def wrapPmPi (f : Functions Float32) (theta : Float32) : Float32 :=
  f.wrapPm theta 3.14159265358979323846

end Functions

namespace Drive

/-! ## `update` -/

/-- A current command, and the phases to measure and to apply it in. -/
structure Command where
  Id : Float32
  Iq : Float32
  phase : Float32
  pwmPhase : Float32

/-- `current_setpoint` -/
def currentSetpoint (torqueSetpoint : Float32) (d : Drive Float32) : Float32 :=
  let setpoint :=
    if d.config.motorType = some .ACIM then
      torqueSetpoint /
        (d.config.torqueConstant * fmax d.ictrl.acimRotorFlux d.config.acimGainMinFlux)
    else torqueSetpoint / d.config.torqueConstant
  setpoint * Float32.ofInt d.config.direction.toInt

/-- The flux of an induction motor follows the torque. -/
def autoflux (ilim id iq : Float32) (d : Drive Float32) : Float32 :=
  let absIq := iq.abs
  let gain :=
    if id < absIq then d.config.acimAutofluxAttackGain else d.config.acimAutofluxDecayGain
  stdClamp (id + gain * (absIq - id) * currentMeasPeriod) d.config.acimAutofluxMinId ilim

/-- The rotor of an induction motor slips behind the field. -/
def slip (f : Functions Float32) (ilim id iq phase phaseVel : Float32) (d : Drive Float32) :
    Float32 × Float32 × Float32 × Drive Float32 :=
  let id := if d.config.acimAutofluxEnable then d.autoflux ilim id iq else id
  let d :=
    if d.config.acimAutofluxEnable then { d with ictrl := { d.ictrl with IdSetpoint := id } }
    else d
  let dfluxByDt := d.config.acimSlipVelocity * (id - d.ictrl.acimRotorFlux)
  let acimRotorFlux := d.ictrl.acimRotorFlux + dfluxByDt * currentMeasPeriod
  let slipVelocity := d.config.acimSlipVelocity * (iq / acimRotorFlux)
  -- issues with a small denominator, and NaN
  let slipVelocity := if ¬slipVelocity.abs ≤ 0.1 * 8000 then 0 else slipVelocity
  let asyncPhaseOffset :=
    f.wrapPmPi (d.ictrl.asyncPhaseOffset + slipVelocity * currentMeasPeriod)
  let ictrl := { d.ictrl with acimRotorFlux, asyncPhaseVel := slipVelocity, asyncPhaseOffset }
  (id, f.wrapPmPi (phase + asyncPhaseOffset), phaseVel + slipVelocity, { d with ictrl })

/-- `Motor::update` up to the current command. -/
def command (f : Functions Float32) (torqueSetpoint phase phaseVel : Float32) (d : Drive Float32) :
    Command × Drive Float32 :=
  let direction := Float32.ofInt d.config.direction.toInt
  let phase := phase * direction
  let phaseVel := phaseVel * direction
  let currentSetpoint := d.currentSetpoint torqueSetpoint
  let d := d.storeCurrentLimit sqrt3f
  let ilim := d.effectiveCurrentLim
  let id := stdClamp d.ictrl.IdSetpoint (-ilim) ilim
  let iq := stdClamp currentSetpoint (-ilim) ilim
  let (id, phase, phaseVel, d) :=
    if d.config.motorType = some .ACIM then d.slip f ilim id iq phase phaseVel
    else (id, phase, phaseVel, d)
  ({ Id := id, Iq := iq, phase, pwmPhase := phase + 1.5 * currentMeasPeriod * phaseVel }, d)

/-- The current command is executed. -/
def execute (f : Functions Float32) (c : Command) (d : Drive Float32) : Bool × Drive Float32 :=
  match d.config.motorType with
  | some .HIGH_CURRENT => d.focCurrent sqrt3f f c.Id c.Iq c.phase c.pwmPhase
  | some .ACIM => d.focCurrent sqrt3f f c.Id c.Iq c.phase c.pwmPhase
  | some .GIMBAL => d.focVoltage sqrt3f f c.Id c.Iq c.pwmPhase
  | none => (false, d.setError .ERROR_NOT_IMPLEMENTED_MOTOR_TYPE)

/-- `Motor::update` -/
def update (f : Functions Float32) (torqueSetpoint phase phaseVel : Float32) (d : Drive Float32) :
    Bool × Drive Float32 :=
  let (c, d) := d.command f torqueSetpoint phase phaseVel
  d.execute f c

/-! ## The current limit -/

variable {f : Functions Float32} {d : Drive Float32} {m : Fin axisCount}

/-- The smallest of several limits. -/
theorem foldl_stdMin {α : Type} {limit : α → Float32} (hlimit : ∀ a, 0 ≤ limit a) (as : List α)
    {x : Float32} (hx : 0 ≤ x) :
    0 ≤ as.foldl (fun x a => stdMin x (limit a)) x ∧
      as.foldl (fun x a => stdMin x (limit a)) x ≤ x ∧
      ∀ a ∈ as, as.foldl (fun x a => stdMin x (limit a)) x ≤ limit a := by
  induction as generalizing x with
  | nil => exact ⟨hx, le_rfl_of_not_isNaN (not_isNaN_of_le hx).2, nofun⟩
  | cons a as ih =>
    have hnumber := (not_isNaN_of_le hx).2
    have hnumber' := (not_isNaN_of_le (hlimit a)).2
    obtain ⟨hnonneg, hle, hall⟩ := ih (le_stdMin hx (hlimit a))
    refine ⟨hnonneg, le_trans_float hle (stdMin_le_left hnumber), ?_⟩
    intro b hb
    obtain rfl | hb := List.mem_cons.mp hb
    · exact le_trans_float hle (stdMin_le_right hnumber hnumber')
    · exact hall b hb

/-- What the limit is made of does not ask for a current the other way. -/
structure Limited (d : Drive Float32) : Prop where
  configured : 0 ≤ d.config.currentLim
  hardware : ¬d.hardwareLimit sqrt3f < 0
  /-- `std::clamp` is only called with limits in their order. -/
  autoflux : d.config.motorType = some .ACIM → d.config.acimAutofluxEnable = true →
    0 ≤ d.config.acimAutofluxMinId ∧ d.config.acimAutofluxMinId ≤ d.currentLimit sqrt3f

/-- A current limit that is a number, and that everything which limits it allows. -/
structure LimitOf (d : Drive Float32) (ilim : Float32) : Prop where
  nonneg : 0 ≤ ilim
  configured : ilim ≤ d.config.currentLim
  hardware : (d.hardwareLimit sqrt3f).isNaN = false → ilim ≤ d.hardwareLimit sqrt3f
  /-- Nothing is left with a thermistor that is too hot, or that gives no temperature. -/
  thermal : ∀ t ∈ d.currentLimiters, t.enabled = true → t.tempLimitLower < t.tempLimitUpper →
    ¬t.temperature < t.tempLimitUpper → ¬0 < ilim

theorem limitOf_currentLimit (h : d.Limited) : d.LimitOf (d.currentLimit sqrt3f) := by
  have hnumber := (not_isNaN_of_le h.configured).2
  have hstart : 0 ≤ stdMin d.config.currentLim (d.hardwareLimit sqrt3f) := by
    unfold stdMin
    split
    next hlt =>
      exact le_of_not_lt (not_isNaN_of_lt hlt).1 (not_isNaN_of_le h.configured).1 h.hardware
    next => exact h.configured
  obtain ⟨hnonneg, hle, hall⟩ :=
    foldl_stdMin (fun t : Thermistor Float32 => (t.currentLimit_mem h.configured).1)
      d.currentLimiters hstart
  refine ⟨hnonneg, le_trans_float hle (stdMin_le_left hnumber), ?_, ?_⟩
  · intro hhardware
    exact le_trans_float hle (stdMin_le_right hnumber hhardware)
  · intro t ht henabled hrange hhot hpos
    exact Thermistor.currentLimit_hot h.configured henabled hrange hhot
      (lt_of_lt_of_le_float hpos (hall t ht))

/-! ## NaN -/

/-- Timings that are accepted are made of numbers. -/
theorem not_isNaN_of_svm {k : Sqrt3 Float32} {alpha beta : Float32}
    (h : (svm k alpha beta).1 = 0) : alpha.isNaN = false ∧ beta.isNaN = false := by
  have hvalid : (pwmTimings k alpha beta (sextant k alpha beta)).Valid :=
    (svm_eq_zero_iff k alpha beta).mp h
  obtain ⟨hA, hB, hC⟩ := hvalid
  have hA' := (not_isNaN_of_le hA.1).2
  have hB' := (not_isNaN_of_le hB.1).2
  have hC' := (not_isNaN_of_le hC.1).2
  generalize sextant k alpha beta = sector at hA' hB' hC'
  -- one of the three has both coordinates in it
  cases sector with
  | v1v2 =>
    obtain ⟨halpha, hbeta⟩ := not_isNaN_of_sub (not_isNaN_of_add hB').2
    exact ⟨halpha, (not_isNaN_of_mul hbeta).2⟩
  | v2v3 =>
    obtain ⟨halpha, hbeta⟩ := not_isNaN_of_add (not_isNaN_of_add hC').2
    exact ⟨halpha, (not_isNaN_of_mul hbeta).2⟩
  | v3v4 =>
    obtain ⟨halpha, hbeta⟩ := not_isNaN_of_sub (not_isNaN_of_add hA').2
    exact ⟨not_isNaN_of_neg halpha, (not_isNaN_of_mul hbeta).2⟩
  | v4v5 =>
    obtain ⟨halpha, hbeta⟩ := not_isNaN_of_add (not_isNaN_of_add hA').2
    exact ⟨not_isNaN_of_neg halpha, (not_isNaN_of_mul hbeta).2⟩
  | v5v6 =>
    obtain ⟨halpha, hbeta⟩ := not_isNaN_of_sub (not_isNaN_of_add hA').2
    exact ⟨not_isNaN_of_neg halpha, (not_isNaN_of_mul hbeta).2⟩
  | v6v1 =>
    obtain ⟨halpha, hbeta⟩ := not_isNaN_of_add (not_isNaN_of_add hC').2
    exact ⟨halpha, (not_isNaN_of_mul hbeta).2⟩

/-- Timings within the period wait for the next one. -/
structure Enqueued (m : Fin axisCount) (d : Drive Float32) : Prop where
  valid : (d.power.control.next m).valid = true
  timings : WithinPeriod (d.power.control.next m).timings

theorem Enqueued.congr {d' : Drive Float32} (h : d.Enqueued m) (hpower : d'.power = d.power) :
    d'.Enqueued m := by
  refine ⟨?_, ?_⟩
  · rw [hpower]
    exact h.valid
  · rw [hpower]
    exact h.timings

theorem enqueueModulationTimings_accepted {modAlpha modBeta : Float32}
    (h : (d.enqueueModulationTimings sqrt3f modAlpha modBeta).1 = true) :
    modAlpha.isNaN = false ∧ modBeta.isNaN = false ∧
      (d.enqueueModulationTimings sqrt3f modAlpha modBeta).2.Enqueued d.axisNum := by
  have hsvm : (svm sqrt3f modAlpha modBeta).1 = 0 := by
    by_contra hrefused
    rw [enqueueModulationTimings, if_pos hrefused] at h
    cases h
  obtain ⟨halpha, hbeta⟩ := not_isNaN_of_svm hsvm
  have hresult :
      (d.enqueueModulationTimings sqrt3f modAlpha modBeta).2.power.control.next d.axisNum =
      { timings := (svm sqrt3f modAlpha modBeta).2.toTimings, valid := true } := by
    rw [enqueueModulationTimings, if_neg (not_not.mpr hsvm)]
    show (d.power.enqueueModulationTimings sqrt3f d.axisNum modAlpha modBeta).control.next
      d.axisNum = _
    rw [Power.enqueueModulationTimings]
    simp [hsvm]
  refine ⟨halpha, hbeta, ?_, ?_⟩
  · rw [hresult]
  · rw [hresult]
    exact toTimings_withinPeriod hsvm

/-- The rotation passes NaN on from its operands. -/
theorem not_isNaN_of_inversePark {c s x y : Float32} (h : (inversePark c s x y).1.isNaN = false) :
    x.isNaN = false ∧ y.isNaN = false := by
  obtain ⟨hx, hy⟩ := not_isNaN_of_sub h
  exact ⟨(not_isNaN_of_mul hx).2, (not_isNaN_of_mul hy).2⟩

theorem not_isNaN_of_saturate {k : Sqrt3 Float32} {sqrtf : Float32 → Float32}
    {vbusVoltage Vd Vq : Float32}
    (hd : (saturate k sqrtf vbusVoltage Vd Vq).2.1.isNaN = false)
    (hq : (saturate k sqrtf vbusVoltage Vd Vq).2.2.isNaN = false) :
    vbusVoltage.isNaN = false ∧ Vd.isNaN = false ∧ Vq.isNaN = false := by
  have hmod : (CFloat.ofNat 1 / modToV vbusVoltage * Vd).isNaN = false ∧
      (CFloat.ofNat 1 / modToV vbusVoltage * Vq).isNaN = false := by
    unfold saturate at hd hq
    dsimp only at hd hq
    split at hd
    next hscale =>
      rw [if_pos hscale] at hq
      exact ⟨(not_isNaN_of_mul hd).1, (not_isNaN_of_mul hq).1⟩
    next hscale =>
      rw [if_neg hscale] at hq
      exact ⟨hd, hq⟩
  obtain ⟨hvfactor, hVd⟩ := not_isNaN_of_mul hmod.1
  have hmodToV := (not_isNaN_of_div hvfactor).2
  exact ⟨(not_isNaN_of_mul hmodToV).2, hVd, (not_isNaN_of_mul hmod.2).2⟩

/-- The scale factor of a zero vector is infinite, so that `saturate` need not look for one. -/
example :
    ¬0.80 * sqrt3f.sqrt3By2 * CFloat.ofNat 1 / CFloat.ofNat 0 < (CFloat.ofNat 1 : Float32) := by
  decide +kernel

/-- A voltage command that is executed is one of numbers. -/
theorem focVoltage_accepted {vD vQ pwmPhase : Float32}
    (h : (d.focVoltage sqrt3f f vD vQ pwmPhase).1 = true) :
    vD.isNaN = false ∧ vQ.isNaN = false ∧
      (d.focVoltage sqrt3f f vD vQ pwmPhase).2.Enqueued d.axisNum := by
  unfold focVoltage enqueueVoltageTimings at h ⊢
  rw [fst_of_enqueued] at h
  obtain ⟨halpha, -, henqueued⟩ := enqueueModulationTimings_accepted h
  obtain ⟨hD, hQ⟩ := not_isNaN_of_inversePark (not_isNaN_of_mul halpha).2
  refine ⟨hD, hQ, ?_⟩
  rw [snd_of_enqueued h]
  exact henqueued.congr (logTiming_power _ _)

/-- What a current controller has to read in order to be heard. -/
structure Numbers (d : Drive Float32) : Prop where
  phB : d.currentMeas.phB.isNaN = false
  phC : d.currentMeas.phC.isNaN = false
  vbusVoltage : d.power.bus.vbusVoltage.isNaN = false
  pGain : d.ictrl.pGain.isNaN = false
  integralD : d.ictrl.vCurrentControlIntegralD.isNaN = false
  integralQ : d.ictrl.vCurrentControlIntegralQ.isNaN = false

/-- Both measured currents are numbers if their rotation is. -/
theorem not_isNaN_of_park {IPhase : Float32} (h : (d.park sqrt3f f IPhase).1.isNaN = false) :
    d.currentMeas.phB.isNaN = false ∧ d.currentMeas.phC.isNaN = false := by
  obtain ⟨halpha, -⟩ := not_isNaN_of_add h
  obtain ⟨hB, hC⟩ := not_isNaN_of_sub (not_isNaN_of_mul halpha).2
  exact ⟨not_isNaN_of_neg hB, hC⟩

theorem applyCurrentControl_accepted {IPhase IdDes IqDes pwmPhase : Float32}
    (h : (d.applyCurrentControl sqrt3f f (d.park sqrt3f f IPhase) IdDes IqDes pwmPhase).1 =
      true) :
    d.Numbers ∧ IdDes.isNaN = false ∧ IqDes.isNaN = false ∧
      (d.applyCurrentControl sqrt3f f (d.park sqrt3f f IPhase) IdDes IqDes pwmPhase).2.Enqueued
        d.axisNum := by
  unfold applyCurrentControl at h ⊢
  dsimp only at h ⊢
  rw [fst_of_enqueued] at h
  obtain ⟨halpha, -, henqueued⟩ := enqueueModulationTimings_accepted h
  obtain ⟨hd, hq⟩ := not_isNaN_of_inversePark halpha
  obtain ⟨hvbusVoltage, hVd, hVq⟩ := not_isNaN_of_saturate hd hq
  obtain ⟨hintegralD, hproductD⟩ := not_isNaN_of_add hVd
  obtain ⟨hintegralQ, hproductQ⟩ := not_isNaN_of_add hVq
  obtain ⟨hIerrD, hpGain⟩ := not_isNaN_of_mul hproductD
  obtain ⟨hIdDes, hId⟩ := not_isNaN_of_sub hIerrD
  have hIqDes := (not_isNaN_of_sub (not_isNaN_of_mul hproductQ).1).1
  obtain ⟨hphB, hphC⟩ := not_isNaN_of_park hId
  refine ⟨⟨hphB, hphC, hvbusVoltage, hpGain, hintegralD, hintegralQ⟩, hIdDes, hIqDes, ?_⟩
  rw [snd_of_enqueued h]
  rw [storeModulation_axisNum] at henqueued
  exact henqueued.congr (report_power _ _)

/-- The currents that are measured are within their limits. -/
structure Measured (f : Functions Float32) (IPhase : Float32) (d : Drive Float32) : Prop
    extends d.Numbers where
  phBTrip : ¬d.ictrl.overcurrentTripLevel < CFloat.abs d.currentMeas.phB
  phCTrip : ¬d.ictrl.overcurrentTripLevel < CFloat.abs d.currentMeas.phC
  currentLimit :
    let I := d.park sqrt3f f IPhase
    let Itrip := d.currentLimit sqrt3f + d.config.currentLimMargin
    ¬Itrip * Itrip < I.1 * I.1 + I.2 * I.2

/-- A current command that is executed is one of numbers, as is what it is executed with. -/
theorem focCurrent_accepted {IdDes IqDes IPhase pwmPhase : Float32}
    (h : (d.focCurrent sqrt3f f IdDes IqDes IPhase pwmPhase).1 = true) :
    d.Measured f IPhase ∧ IdDes.isNaN = false ∧ IqDes.isNaN = false ∧
      (d.focCurrent sqrt3f f IdDes IqDes IPhase pwmPhase).2.Enqueued d.axisNum := by
  unfold focCurrent at h ⊢
  dsimp only at h ⊢
  split at h
  next => cases h
  next htrip =>
    split at h
    next => cases h
    next hlimit =>
      rw [if_neg htrip, if_neg hlimit]
      obtain ⟨hnumbers, hIdDes, hIqDes, henqueued⟩ := applyCurrentControl_accepted h
      have hnumbers' : d.Numbers := ⟨hnumbers.phB, hnumbers.phC, hnumbers.vbusVoltage,
        hnumbers.pGain, hnumbers.integralD, hnumbers.integralQ⟩
      obtain ⟨hphB, hphC⟩ := not_or.mp htrip
      exact ⟨⟨hnumbers', hphB, hphC, hlimit⟩, hIdDes, hIqDes, henqueued⟩

/-! ## Disarming -/

/-- The motor is off, and the axis says why. -/
structure Stopped (m : Fin axisCount) (d : Drive Float32) : Prop where
  disarmed : (d.power.control.low.motors m).armedState = .DISARMED
  moe : (d.power.control.low.motors m).moe = false
  motorError : (d.power.control.low.motors m).error ≠ 0
  axisError : d.axisError &&& Axis.ERROR_MOTOR_FAILED = Axis.ERROR_MOTOR_FAILED

theorem setError_stopped (error : MotorError) (herror : error ≠ 0) (hm : d.axisNum = m) :
    (d.setError error).Stopped m := by
  subst hm
  obtain ⟨brake, -, hcontrol⟩ := d.power.setError_control d.axisNum error
  have hpower : (d.setError error).power.control =
      LowLevel.setError d.axisNum error brake d.power.control := hcontrol
  have hdisarmed :
      ((safetyCriticalDisarmMotorPwm d.axisNum
        (setMotorError d.axisNum error d.power.control.low)).2.motors d.axisNum) =
      { d.power.control.low.motors d.axisNum with
        armedState := .DISARMED
        moe := false
        error := (d.power.control.low.motors d.axisNum).error ||| error } := by
    simp [safetyCriticalDisarmMotorPwm, setMotorError]
  have hor : ∀ e : MotorError, e ||| error ≠ 0 := by
    intro e hzero
    exact herror (BitVec.or_eq_zero_iff.mp hzero).2
  have haxis : (d.setError error).axisError &&& Axis.ERROR_MOTOR_FAILED =
      Axis.ERROR_MOTOR_FAILED := by
    show (d.axisError ||| Axis.ERROR_MOTOR_FAILED) &&& Axis.ERROR_MOTOR_FAILED = _
    ext i hi
    simp only [BitVec.getElem_and, BitVec.getElem_or]
    cases Axis.ERROR_MOTOR_FAILED[i] <;> simp
  have hkept := updateBrakeCurrent_kept brake
    (safetyCriticalDisarmMotorPwm d.axisNum
      (setMotorError d.axisNum error d.power.control.low)).2 d.axisNum
  rw [hdisarmed] at hkept
  have hmotor : (d.setError error).power.control.low.motors d.axisNum =
      (updateBrakeCurrent brake (safetyCriticalDisarmMotorPwm d.axisNum
        (setMotorError d.axisNum error d.power.control.low)).2).motors d.axisNum := by
    rw [hpower]
    rfl
  obtain hsame | ⟨fault, -, hfault⟩ := hkept
  · rw [← hmotor] at hsame
    exact ⟨by rw [hsame], by rw [hsame], by rw [hsame]; exact hor _, haxis⟩
  · rw [← hmotor] at hfault
    refine ⟨by rw [hfault], by rw [hfault], ?_, haxis⟩
    rw [hfault]
    intro hzero
    exact hor _ (BitVec.or_eq_zero_iff.mp hzero).1

theorem enqueueModulationTimings_refused {modAlpha modBeta : Float32}
    (h : (d.enqueueModulationTimings sqrt3f modAlpha modBeta).1 = false) :
    (d.enqueueModulationTimings sqrt3f modAlpha modBeta).2.Stopped d.axisNum := by
  by_cases hsvm : (svm sqrt3f modAlpha modBeta).1 ≠ 0
  · rw [enqueueModulationTimings, if_pos hsvm]
    exact setError_stopped .ERROR_MODULATION_MAGNITUDE (by decide) rfl
  · rw [enqueueModulationTimings, if_neg hsvm] at h
    cases h

theorem applyCurrentControl_refused {I : Float32 × Float32} {IdDes IqDes pwmPhase : Float32}
    (h : (d.applyCurrentControl sqrt3f f I IdDes IqDes pwmPhase).1 = false) :
    (d.applyCurrentControl sqrt3f f I IdDes IqDes pwmPhase).2.Stopped d.axisNum := by
  unfold applyCurrentControl at h ⊢
  dsimp only at h ⊢
  rw [fst_of_enqueued] at h
  rw [eq_of_refused h]
  have hstopped := enqueueModulationTimings_refused h
  rw [storeModulation_axisNum] at hstopped
  exact hstopped

theorem focVoltage_refused {vD vQ pwmPhase : Float32}
    (h : (d.focVoltage sqrt3f f vD vQ pwmPhase).1 = false) :
    (d.focVoltage sqrt3f f vD vQ pwmPhase).2.Stopped d.axisNum := by
  unfold focVoltage enqueueVoltageTimings at h ⊢
  rw [fst_of_enqueued] at h
  rw [eq_of_refused h]
  exact enqueueModulationTimings_refused h

theorem focCurrent_refused {IdDes IqDes IPhase pwmPhase : Float32}
    (h : (d.focCurrent sqrt3f f IdDes IqDes IPhase pwmPhase).1 = false) :
    (d.focCurrent sqrt3f f IdDes IqDes IPhase pwmPhase).2.Stopped d.axisNum := by
  unfold focCurrent at h ⊢
  dsimp only at h ⊢
  split
  next => exact setError_stopped .ERROR_CURRENT_SENSE_SATURATION (by decide) rfl
  next htrip =>
    rw [if_neg htrip] at h
    split
    next => exact setError_stopped .ERROR_CURRENT_LIMIT_VIOLATION (by decide) rfl
    next hlimit =>
      rw [if_neg hlimit] at h
      have hstopped := applyCurrentControl_refused h
      exact hstopped

/-- What is not executed stops the motor. -/
theorem execute_refused {c : Command} (h : (d.execute f c).1 = false) :
    (d.execute f c).2.Stopped d.axisNum := by
  unfold execute at h ⊢
  split
  next htype =>
    simp only [htype] at h
    exact focCurrent_refused h
  next htype =>
    simp only [htype] at h
    exact focCurrent_refused h
  next htype =>
    simp only [htype] at h
    exact focVoltage_refused h
  next => exact setError_stopped .ERROR_NOT_IMPLEMENTED_MOTOR_TYPE (by decide) rfl

/-! ## The command -/

/-- A current command within the limit. -/
structure Commanded (d : Drive Float32) (c : Command) : Prop where
  Id : -d.currentLimit sqrt3f ≤ c.Id ∧ c.Id ≤ d.currentLimit sqrt3f
  Iq : -d.currentLimit sqrt3f ≤ c.Iq ∧ c.Iq ≤ d.currentLimit sqrt3f

section

variable (f : Functions Float32) (torqueSetpoint phase phaseVel : Float32) (d : Drive Float32)

theorem command_Iq :
    (d.command f torqueSetpoint phase phaseVel).1.Iq =
      stdClamp (d.currentSetpoint torqueSetpoint) (-d.currentLimit sqrt3f)
        (d.currentLimit sqrt3f) := rfl

/-- The flux current is clamped once, or a second time as the flux follows the torque. -/
theorem command_Id (h : d.Limited) :
    ∃ x lo,
      (d.command f torqueSetpoint phase phaseVel).1.Id = stdClamp x lo (d.currentLimit sqrt3f) ∧
      -d.currentLimit sqrt3f ≤ lo ∧ lo ≤ d.currentLimit sqrt3f := by
  have hnonneg := (limitOf_currentLimit h).nonneg
  have hneg := neg_le_zero hnonneg
  have hself := le_rfl_of_not_isNaN (not_isNaN_of_le hneg).1
  unfold command
  dsimp only
  split
  next htype =>
    unfold slip
    dsimp only
    split
    next hauto =>
      obtain ⟨hmin, hle⟩ := h.autoflux htype hauto
      exact ⟨_, _, rfl, le_trans_float hneg hmin, hle⟩
    next => exact ⟨_, _, rfl, hself, neg_le_self_of_nonneg hnonneg⟩
  next => exact ⟨_, _, rfl, hself, neg_le_self_of_nonneg hnonneg⟩

/-- The command is found without a look at what is measured. -/
theorem measured_of_command {IPhase : Float32}
    (h : (d.command f torqueSetpoint phase phaseVel).2.Measured f IPhase) :
    d.Measured f IPhase := by
  unfold command slip at h
  dsimp only at h
  split at h
  · split at h
    · exact ⟨⟨h.phB, h.phC, h.vbusVoltage, h.pGain, h.integralD, h.integralQ⟩, h.phBTrip,
        h.phCTrip, h.currentLimit⟩
    · exact ⟨⟨h.phB, h.phC, h.vbusVoltage, h.pGain, h.integralD, h.integralQ⟩, h.phBTrip,
        h.phCTrip, h.currentLimit⟩
  · exact ⟨⟨h.phB, h.phC, h.vbusVoltage, h.pGain, h.integralD, h.integralQ⟩, h.phBTrip,
      h.phCTrip, h.currentLimit⟩

theorem command_axisNum :
    (d.command f torqueSetpoint phase phaseVel).2.axisNum = d.axisNum := by
  unfold command slip
  dsimp only
  split
  · split
    · rfl
    · rfl
  · rfl

theorem command_config : (d.command f torqueSetpoint phase phaseVel).2.config = d.config := by
  unfold command slip
  dsimp only
  split
  · split
    · rfl
    · rfl
  · rfl

end

/-- What is executed is a command of numbers, and on numbers if currents are measured for it. -/
theorem execute_accepted {c : Command} (h : (d.execute f c).1 = true) :
    c.Id.isNaN = false ∧ c.Iq.isNaN = false ∧
      (d.config.motorType ≠ some .GIMBAL → d.Measured f c.phase) ∧
      (d.execute f c).2.Enqueued d.axisNum := by
  unfold execute at h ⊢
  split
  next htype =>
    simp only [htype] at h
    obtain ⟨hmeasured, hId, hIq, henqueued⟩ := focCurrent_accepted h
    exact ⟨hId, hIq, fun _ => hmeasured, henqueued⟩
  next htype =>
    simp only [htype] at h
    obtain ⟨hmeasured, hId, hIq, henqueued⟩ := focCurrent_accepted h
    exact ⟨hId, hIq, fun _ => hmeasured, henqueued⟩
  next htype =>
    simp only [htype] at h
    obtain ⟨hId, hIq, henqueued⟩ := focVoltage_accepted h
    exact ⟨hId, hIq, fun hgimbal => absurd htype hgimbal, henqueued⟩
  next htype =>
    simp only [htype] at h
    cases h

/-- **A cycle of motor control is safe.** Whatever is asked for, measured and configured,
infinities and NaN included, the current limit is a number that the configuration, the hardware
and the thermistors allow. A cycle that succeeds has enqueued timings within the period, for
currents within that limit, and has measured currents that are numbers and do not trip. A cycle
that fails leaves the motor disarmed, with an error. -/
theorem update_safe (f : Functions Float32) (torqueSetpoint phase phaseVel : Float32)
    (d : Drive Float32) (h : d.Limited) :
    let c := (d.command f torqueSetpoint phase phaseVel).1
    let r := d.update f torqueSetpoint phase phaseVel
    d.LimitOf (d.currentLimit sqrt3f) ∧
      (r.1 = true → d.Commanded c ∧
        (d.config.motorType ≠ some .GIMBAL → d.Measured f c.phase) ∧
        r.2.Enqueued d.axisNum) ∧
      (r.1 = false → r.2.Stopped d.axisNum) := by
  intro c r
  have haxis := command_axisNum f torqueSetpoint phase phaseVel d
  have hconfig := command_config f torqueSetpoint phase phaseVel d
  refine ⟨limitOf_currentLimit h, fun haccepted => ?_, fun hrefused => ?_⟩
  · have hexecute : ((d.command f torqueSetpoint phase phaseVel).2.execute f c).1 = true :=
      haccepted
    obtain ⟨hId, hIq, hmeasured, henqueued⟩ := execute_accepted hexecute
    rw [hconfig] at hmeasured
    rw [haxis] at henqueued
    refine ⟨⟨?_, ?_⟩, fun htype => ?_, henqueued⟩
    · obtain ⟨x, lo, hclamp, hlo, hle⟩ := command_Id f torqueSetpoint phase phaseVel d h
      rw [hclamp] at hId
      obtain ⟨hge, hle'⟩ := clamp_le_le hle (isNaN_of_isNaN_clamp hId)
      rw [← hclamp] at hge hle'
      exact ⟨le_trans_float hlo hge, hle'⟩
    · have hclamp := command_Iq f torqueSetpoint phase phaseVel d
      rw [hclamp] at hIq
      have hle := neg_le_self_of_nonneg (limitOf_currentLimit h).nonneg
      have hbetween := clamp_le_le hle (isNaN_of_isNaN_clamp hIq)
      rw [← hclamp] at hbetween
      exact hbetween
    · exact measured_of_command f torqueSetpoint phase phaseVel d (hmeasured htype)
  · have hexecute : ((d.command f torqueSetpoint phase phaseVel).2.execute f c).1 = false :=
      hrefused
    have hstopped := execute_refused hexecute
    rw [haxis] at hstopped
    exact hstopped

/-- Those of a motor that does not turn. -/
def unturned : Functions Float32 where
  ourArmCosF32 _ := 1
  ourArmSinF32 _ := 0
  fmodf x _ := x
  sqrtf := Float32.sqrt

/-- A motor of which one current is not a number. -/
def unmeasured : Drive Float32 where
  axisNum := axis0
  power := .powerUp
    ⟨⟨0, 2, false, 0, 0, 10, -10⟩, 1, 24, 0, false, fun _ => 0⟩
  axisError := 0
  config := ⟨some .HIGH_CURRENT, 10, 8, 0.04, 1, 14.706, 10, 10, false, 10, 1⟩
  currentMeas := ⟨0 / 0, 0⟩
  ictrl := ⟨1, 1, 0, 0, 0, 0, 0, 0, 0, 0, 1, 60, 66, 0, 0, 0⟩
  effectiveCurrentLim := 10
  currentLimiters := []
  timingLog := fun _ => 0
  htim13Cnt := 0
  capture := ⟨false, false, fun _ => 0, 0⟩

theorem update_safe_unmeasured :
    (unmeasured.update unturned 1 0 0).2.Stopped axis0 := by
  obtain ⟨-, haccepted, hrefused⟩ :=
    update_safe unturned 1 0 0 unmeasured ⟨by decide +kernel, by decide +kernel, nofun⟩
  cases h : (unmeasured.update unturned 1 0 0).1 with
  | true =>
    obtain ⟨-, hmeasured, -⟩ := haccepted h
    have hphB : (0 / 0 : Float32).isNaN = false := (hmeasured (by decide)).phB
    exact absurd hphB (by decide +kernel)
  | false => exact hrefused h

end Drive

end WODrive.Motor
