import WODrive.Axis.ControlLoop
import WODrive.LowLevel.BrakeCurrent
import WODrive.Motor.Svm

/-!
# Current control (motor.cpp)

`FOC_current` measures the motor's current in a frame that turns with the rotor, lets two
PI controllers ask for a voltage, limits the voltage to what the modulator can do and
hands the switching times on. `FOC_voltage` asks for a voltage itself.

They are written here for any number type `F`, down to the duty of the brake resistor that an
error leads to, and used at two: in exact arithmetic, where the modulator accepts whatever the
current controllers ask for; and in single precision, where what is read may be infinite or NaN.
-/

namespace WODrive.LowLevel.MotorError

def ERROR_CURRENT_SENSE_SATURATION : MotorError := 0x400
def ERROR_CURRENT_LIMIT_VIOLATION : MotorError := 0x1000

end WODrive.LowLevel.MotorError

namespace WODrive.Motor

open LowLevel
open Axis (AxisError)

universe u

/-! ## The motor -/

/-- `Iph_BC_t` -/
structure IphBC (F : Type u) where
  phB : F
  phC : F
deriving Repr

/-- `Motor::MotorType` -/
inductive MotorType where
  | HIGH_CURRENT
  | GIMBAL
  | ACIM
deriving DecidableEq, Repr

/-- What motor control uses of `Config_t`. -/
structure Config (F : Type u) where
  /-- none, if it is none of the types that there are -/
  motorType : Option MotorType
  currentLim : F
  currentLimMargin : F
  torqueConstant : F
  direction : BitVec 32
  acimSlipVelocity : F
  acimGainMinFlux : F
  acimAutofluxMinId : F
  acimAutofluxEnable : Bool
  acimAutofluxAttackGain : F
  acimAutofluxDecayGain : F

/-- `CurrentControl_t`, but for `Ibus`, which is among the numbers of the bus. -/
structure CurrentControl (F : Type u) where
  pGain : F
  iGain : F
  vCurrentControlIntegralD : F
  vCurrentControlIntegralQ : F
  finalVAlpha : F
  finalVBeta : F
  IdSetpoint : F
  IqSetpoint : F
  IqMeasured : F
  IdMeasured : F
  IMeasuredReportFilterK : F
  maxAllowedCurrent : F
  overcurrentTripLevel : F
  acimRotorFlux : F
  asyncPhaseVel : F
  asyncPhaseOffset : F

/-- The slots of `timing_log_` that motor control writes to. -/
inductive TimingLog where
  | FOC_VOLTAGE
  | FOC_CURRENT
deriving DecidableEq, Repr

/-- The oscilloscope, and the trigger that starts it. -/
structure Capture (F : Type u) where
  ready : Bool
  capturing : Bool
  oscilloscope : Nat → F
  oscilloscopePos : Nat

/-- `OSCILLOSCOPE_SIZE` -/
def oscilloscopeSize : Nat := 4096

/-- The safety critical section, the slots of the motors, and the numbers of the DC bus. -/
structure Power (F : Type u) where
  control : Control
  bus : Bus F

/-- A motor, with its axis and the power stage. -/
structure Drive (F : Type u) where
  axisNum : Fin axisCount
  power : Power F
  axisError : AxisError
  config : Config F
  currentMeas : IphBC F
  ictrl : CurrentControl F
  /-- `effective_current_lim_` -/
  effectiveCurrentLim : F
  /-- `axis_->current_limiters_` -/
  currentLimiters : List (Thermistor F)
  /-- `timing_log_` -/
  timingLog : TimingLog → BitVec 16
  /-- `htim13.Instance->CNT` -/
  htim13Cnt : BitVec 16
  capture : Capture F

/-- What is called for a sine, a cosine, a remainder and a root. -/
structure Functions (F : Type u) where
  ourArmCosF32 : F → F
  ourArmSinF32 : F → F
  fmodf : F → F → F
  sqrtf : F → F

section

variable {F : Type u} [Add F] [Sub F] [Mul F] [Div F] [Neg F] [LT F] [LE F] [DecidableLT F]
  [DecidableLE F] [BEq F] [OfScientific F] [CFloat F]

/-- `CURRENT_MEAS_PERIOD` -/
def currentMeasPeriod : F :=
  CFloat.ofNat 2 * CFloat.ofNat 3500 * CFloat.ofNat 3 / CFloat.ofNat 168000000

/-! ## Timings -/

/-- `Motor::set_error` -/
def Power.setError (m : Fin axisCount) (error : MotorError) (p : Power F) : Power F :=
  let low := (safetyCriticalDisarmMotorPwm m (setMotorError m error p.control.low)).2
  let (bus, brake) := p.bus.brakeCurrent low
  { bus, control := LowLevel.setError m error brake p.control }

/-- `Motor::enqueue_modulation_timings` -/
def Power.enqueueModulationTimings (k : Sqrt3 F) (m : Fin axisCount) (modAlpha modBeta : F)
    (p : Power F) : Power F :=
  let sv := svm k modAlpha modBeta
  if sv.1 ≠ 0 then p.setError m .ERROR_MODULATION_MAGNITUDE
  else
    { p with
      control := p.control.setNext m fun _ => { timings := sv.2.toTimings, valid := true } }

/-- What is captured of axis 0. -/
def Capture.sample (triggerData sampleData : F) (c : Capture F) : Capture F :=
  let triggerThreshold : F := 0.5
  let c := if triggerData < triggerThreshold then { c with ready := true } else c
  let c :=
    if c.ready = true ∧ triggerThreshold ≤ triggerData then
      { c with capturing := true, ready := false }
    else c
  if c.capturing then
    let c := { c with
      oscilloscope := Function.update c.oscilloscope c.oscilloscopePos sampleData
      oscilloscopePos := c.oscilloscopePos + 1 }
    if c.oscilloscopePos ≥ oscilloscopeSize then
      { c with oscilloscopePos := 0, capturing := false }
    else c
  else c

/-- `mod_to_V` -/
def modToV (vbusVoltage : F) : F := CFloat.ofNat 2 / CFloat.ofNat 3 * vbusVoltage

/-- `mod_d` and `mod_q` for a voltage, and whether they are saturated. -/
def saturate (k : Sqrt3 F) (sqrtf : F → F) (vbusVoltage Vd Vq : F) : Bool × F × F :=
  let vToMod := CFloat.ofNat 1 / modToV vbusVoltage
  let modD := vToMod * Vd
  let modQ := vToMod * Vq
  let norm := sqrtf (modD * modD + modQ * modQ)
  let modScalefactor := 0.80 * k.sqrt3By2 * CFloat.ofNat 1 / norm
  -- the scale factor of a zero vector is infinite, where there is an infinity
  if norm != CFloat.ofNat 0 ∧ modScalefactor < CFloat.ofNat 1 then
    (true, modD * modScalefactor, modQ * modScalefactor)
  else (false, modD, modQ)

/-- The inverse Park transform, with a cosine and a sine. -/
def inversePark (c s d q : F) : F × F := (c * d - s * q, c * q + s * d)

namespace Drive

/-- `Motor::set_error`, for the axis too. -/
def setError (error : MotorError) (d : Drive F) : Drive F :=
  { d with
    axisError := d.axisError ||| Axis.ERROR_MOTOR_FAILED
    power := d.power.setError d.axisNum error }

/-- `Motor::log_timing` -/
def logTiming (logIdx : TimingLog) (d : Drive F) : Drive F :=
  -- `TIM_1_8_CLOCK_HZ / TIM_APB1_CLOCK_HZ`
  let clocksPerCnt : BitVec 16 := 2
  { d with timingLog := Function.update d.timingLog logIdx (clocksPerCnt * d.htim13Cnt) }

/-- `Motor::enqueue_modulation_timings` -/
def enqueueModulationTimings (k : Sqrt3 F) (modAlpha modBeta : F) (d : Drive F) :
    Bool × Drive F :=
  if (svm k modAlpha modBeta).1 ≠ 0 then (false, d.setError .ERROR_MODULATION_MAGNITUDE)
  else
    (true, { d with power := d.power.enqueueModulationTimings k d.axisNum modAlpha modBeta })

/-- `Motor::enqueue_voltage_timings` -/
def enqueueVoltageTimings (k : Sqrt3 F) (vAlpha vBeta : F) (d : Drive F) : Bool × Drive F :=
  let vfactor := CFloat.ofNat 1 / modToV d.power.bus.vbusVoltage
  let enqueued := d.enqueueModulationTimings k (vfactor * vAlpha) (vfactor * vBeta)
  if !enqueued.1 then enqueued else (true, enqueued.2.logTiming .FOC_VOLTAGE)

/-! ## Limits -/

/-- The limit that the hardware sets. -/
def hardwareLimit (k : Sqrt3 F) (d : Drive F) : F :=
  -- a gimbal motor is voltage control
  if d.config.motorType = some .GIMBAL then 0.98 * k.oneBySqrt3 * d.power.bus.vbusVoltage
  else d.ictrl.maxAllowedCurrent

/-- `Motor::effective_current_lim` -/
def currentLimit (k : Sqrt3 F) (d : Drive F) : F :=
  d.currentLimiters.foldl
    (fun currentLim limiter => stdMin currentLim (limiter.getCurrentLimit d.config.currentLim))
    (stdMin d.config.currentLim (d.hardwareLimit k))

/-- `Motor::effective_current_lim`, with what it stores. -/
def storeCurrentLimit (k : Sqrt3 F) (d : Drive F) : Drive F :=
  { d with effectiveCurrentLim := d.currentLimit k }

/-! ## `FOC_voltage` and `FOC_current` -/

/-- `Motor::FOC_voltage` -/
def focVoltage (k : Sqrt3 F) (f : Functions F) (vD vQ pwmPhase : F) (d : Drive F) :
    Bool × Drive F :=
  let v := inversePark (f.ourArmCosF32 pwmPhase) (f.ourArmSinF32 pwmPhase) vD vQ
  d.enqueueVoltageTimings k v.1 v.2

/-- `Ialpha` and `Ibeta`, by the Clarke transform. -/
def clarke (k : Sqrt3 F) (d : Drive F) : F × F :=
  (-d.currentMeas.phB - d.currentMeas.phC,
    k.oneBySqrt3 * (d.currentMeas.phB - d.currentMeas.phC))

/-- `Id` and `Iq`, by the Park transform. -/
def park (k : Sqrt3 F) (f : Functions F) (IPhase : F) (d : Drive F) : F × F :=
  let I := d.clarke k
  let c := f.ourArmCosF32 IPhase
  let s := f.ourArmSinF32 IPhase
  (c * I.1 + s * I.2, c * I.2 - s * I.1)

/-- `mod_d` and `mod_q`, by PI control, and whether they are saturated. -/
def modulation (k : Sqrt3 F) (f : Functions F) (Ierr : F × F) (d : Drive F) : Bool × F × F :=
  let Vd := d.ictrl.vCurrentControlIntegralD + Ierr.1 * d.ictrl.pGain
  let Vq := d.ictrl.vCurrentControlIntegralQ + Ierr.2 * d.ictrl.pGain
  saturate k f.sqrtf d.power.bus.vbusVoltage Vd Vq

/-- What is stored of a modulation vector: the integrals, the current that the motor takes from
the bus, and the voltage that is applied in the frame of the stator. -/
def storeModulation (I Ierr : F × F) (mod : Bool × F × F) (stator : F × F) (d : Drive F) :
    Drive F :=
  let integralD := d.ictrl.vCurrentControlIntegralD
  let integralQ := d.ictrl.vCurrentControlIntegralQ
  -- the integrator is locked if saturated
  let ictrl :=
    if mod.1 then
      { d.ictrl with
        vCurrentControlIntegralD := integralD * 0.99
        vCurrentControlIntegralQ := integralQ * 0.99 }
    else
      { d.ictrl with
        vCurrentControlIntegralD := integralD + Ierr.1 * (d.ictrl.iGain * currentMeasPeriod)
        vCurrentControlIntegralQ := integralQ + Ierr.2 * (d.ictrl.iGain * currentMeasPeriod) }
  let bus := d.power.bus
  let Ibus := mod.2.1 * I.1 + mod.2.2 * I.2
  { d with
    power := { d.power with
      bus := { bus with motorIbus := Function.update bus.motorIbus d.axisNum Ibus } }
    ictrl := { ictrl with
      finalVAlpha := modToV bus.vbusVoltage * stator.1
      finalVBeta := modToV bus.vbusVoltage * stator.2 } }

/-- What is left to do when timings have been enqueued. -/
def report (k : Sqrt3 F) (d : Drive F) : Drive F :=
  let d := d.logTiming .FOC_CURRENT
  if d.axisNum = axis0 then
    let triggerData := d.ictrl.vCurrentControlIntegralD
    let sampleData := (d.clarke k).1
    { d with capture := d.capture.sample triggerData sampleData }
  else d

/-- `Motor::FOC_current` from the current error on. -/
def applyCurrentControl (k : Sqrt3 F) (f : Functions F) (I : F × F) (IdDes IqDes pwmPhase : F)
    (d : Drive F) : Bool × Drive F :=
  let Ierr := (IdDes - I.1, IqDes - I.2)
  let mod := d.modulation k f Ierr
  let stator :=
    inversePark (f.ourArmCosF32 pwmPhase) (f.ourArmSinF32 pwmPhase) mod.2.1 mod.2.2
  let d := d.storeModulation I Ierr mod stator
  let enqueued := d.enqueueModulationTimings k stator.1 stator.2
  if !enqueued.1 then enqueued else (true, enqueued.2.report k)

/-- `Motor::FOC_current` -/
def focCurrent (k : Sqrt3 F) (f : Functions F) (IdDes IqDes IPhase pwmPhase : F) (d : Drive F) :
    Bool × Drive F :=
  let d := { d with ictrl := { d.ictrl with IqSetpoint := IqDes } }
  let tripLevel := d.ictrl.overcurrentTripLevel
  if tripLevel < CFloat.abs d.currentMeas.phB ∨ tripLevel < CFloat.abs d.currentMeas.phC then
    (false, d.setError .ERROR_CURRENT_SENSE_SATURATION)
  else
    let I := d.park k f IPhase
    let filterK := d.ictrl.IMeasuredReportFilterK
    let d := { d with
      ictrl := { d.ictrl with
        IqMeasured := d.ictrl.IqMeasured + filterK * (I.2 - d.ictrl.IqMeasured)
        IdMeasured := d.ictrl.IdMeasured + filterK * (I.1 - d.ictrl.IdMeasured) } }
    let d := d.storeCurrentLimit k
    let Itrip := d.effectiveCurrentLim + d.config.currentLimMargin
    if Itrip * Itrip < I.1 * I.1 + I.2 * I.2 then
      (false, d.setError .ERROR_CURRENT_LIMIT_VIOLATION)
    else d.applyCurrentControl k f I IdDes IqDes pwmPhase

/-! ## What a call leads to -/

section

omit [Add F] [Sub F] [Mul F] [Div F] [Neg F] [LT F] [LE F] [DecidableLT F] [DecidableLE F]
  [BEq F] [OfScientific F] [CFloat F]

variable {r : Bool × Drive F} {g : Drive F → Drive F}

/-- What is done after timings have been enqueued does not change what is returned. -/
theorem fst_of_enqueued : (if !r.1 then r else (true, g r.2)).1 = r.1 := by
  cases h : r.1 with
  | true => rfl
  | false => exact h

theorem snd_of_enqueued (h : r.1 = true) :
    (if !r.1 then r else (true, g r.2)).2 = g r.2 := by
  rw [h]
  rfl

theorem eq_of_refused (h : r.1 = false) : (if !r.1 then r else (true, g r.2)) = r := by
  rw [h]
  rfl

end

section

variable (k : Sqrt3 F) (I Ierr : F × F) (mod : Bool × F × F) (stator : F × F) (d : Drive F)

omit [Sub F] [Neg F] [LT F] [LE F] [DecidableLT F] [DecidableLE F] [BEq F] in
@[simp] theorem storeModulation_control :
    (d.storeModulation I Ierr mod stator).power.control = d.power.control := rfl

omit [Sub F] [Neg F] [LT F] [LE F] [DecidableLT F] [DecidableLE F] [BEq F] in
@[simp] theorem storeModulation_axisNum :
    (d.storeModulation I Ierr mod stator).axisNum = d.axisNum := rfl

omit [Add F] [Sub F] [Mul F] [Div F] [Neg F] [LT F] [LE F] [DecidableLT F] [DecidableLE F]
  [BEq F] [OfScientific F] [CFloat F] in
@[simp] theorem logTiming_power (logIdx : TimingLog) : (d.logTiming logIdx).power = d.power := rfl

omit [Add F] [Div F] [BEq F] [CFloat F] in
@[simp] theorem report_power : (d.report k).power = d.power := by
  unfold report
  dsimp only
  split
  · rfl
  · rfl

end

end Drive

end

end WODrive.Motor
