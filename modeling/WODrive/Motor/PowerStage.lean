import WODrive.LowLevel.BrakeCurrent
import WODrive.LowLevel.Freshness
import WODrive.Motor.CurrentControl
import WODrive.Motor.Modulation

/-!
# The power stage in single precision (motor.cpp, low_level.cpp)

The calls that reach the timers of the motors and of the brake resistor, with the arithmetic
that decides what is written there: the modulator's and that of `update_brake_current`. All
numbers are those of the machine. What is asked for, measured and configured is arbitrary, so
that it may be infinite or NaN at any time.

- `exists_control_run`: a run is one of `Control`, where the numbers are not looked at;
- `powerStage_safe`: in every run the two sides of the brake resistor stay apart, no pair that
  the code computes is ever refused for being too close, and every compare value is within the
  period of its timer.
-/

namespace WODrive.LowLevel

variable {low : State} {s : Control} {m : Fin axisCount}

/-! ## States without a violation -/

/-- `ERROR_BRAKE_DEADTIME_VIOLATION` is among the flags. -/
def MotorError.deadTimeViolation (error : MotorError) : Bool := error.getLsbD 8

@[simp] theorem deadTimeViolation_or (e f : MotorError) :
    MotorError.deadTimeViolation (e ||| f) = (e.deadTimeViolation || f.deadTimeViolation) :=
  BitVec.getLsbD_or

/-- The dead time is kept, and has not been found violated. -/
structure Unviolated (low : State) : Prop where
  deadTime : DeadTime low
  unviolated : ∀ m, (low.motors m).error.deadTimeViolation = false

/-- Changes to a motor that do not add the flag. -/
theorem Unviolated.updateMotor (h : Unviolated low) {f : Motor → Motor}
    (hf : ∀ motor, motor.error.deadTimeViolation = false →
      (f motor).error.deadTimeViolation = false) (i : Fin axisCount) :
    Unviolated (low.updateMotor i f) := by
  refine ⟨h.deadTime.congr rfl rfl rfl, fun m => ?_⟩
  by_cases him : m = i
  · rw [him, updateMotor_self]
    exact hf _ (h.unviolated i)
  · rw [updateMotor_other f him]
    exact h.unviolated m

/-- Changes that leave the flags alone. -/
theorem Unviolated.updateError (h : Unviolated low) {f : Motor → Motor}
    (hf : ∀ motor, (f motor).error = motor.error) (i : Fin axisCount) :
    Unviolated (low.updateMotor i f) :=
  h.updateMotor (fun motor hmotor => by rw [hf, hmotor]) i

theorem Unviolated.setMotorError (h : Unviolated low) {error : MotorError}
    (herror : error.deadTimeViolation = false) (i : Fin axisCount) :
    Unviolated (setMotorError i error low) :=
  h.updateMotor (fun motor hmotor => by simp [hmotor, herror]) i

theorem Unviolated.disarm (h : Unviolated low) (i : Fin axisCount) :
    Unviolated (safetyCriticalDisarmMotorPwm i low).2 := by
  simp only [safetyCriticalDisarmMotorPwm]
  refine h.updateError ?_ i
  exact fun _ => rfl

theorem Unviolated.arm (h : Unviolated low) (i : Fin axisCount) :
    Unviolated (safetyCriticalArmMotorPwm i low) := by
  unfold safetyCriticalArmMotorPwm
  split
  · refine h.updateError ?_ i
    exact fun _ => rfl
  · exact h

theorem Unviolated.applyTimings (h : Unviolated low) (i : Fin axisCount) (timings : Timings) :
    Unviolated (safetyCriticalApplyMotorPwmTimings i timings low) := by
  unfold safetyCriticalApplyMotorPwmTimings
  have hload : Unviolated
      ((if !low.brakeResistorArmed then
          low.updateMotor i fun motor => { motor with armedState := .DISARMED }
        else low).updateMotor i fun motor => { motor with ccr := timings }) := by
    refine Unviolated.updateError ?_ ?_ i
    · split
      · refine h.updateError ?_ i
        exact fun _ => rfl
      · exact h
    · exact fun _ => rfl
  dsimp only
  split
  · refine hload.updateError ?_ i
    exact fun _ => rfl
  · refine hload.updateError ?_ i
    exact fun _ => rfl
  · exact hload
  · exact hload.disarm i

theorem Unviolated.disarmBrakeResistor (h : Unviolated low) :
    Unviolated (safetyCriticalDisarmBrakeResistor low) := by
  refine ⟨deadTime_of_disarmed (disarmBrakeResistor_brake low), fun m => ?_⟩
  rw [disarmBrakeResistor_motors]
  exact h.unviolated m

theorem Unviolated.lowLevelFault (h : Unviolated low) {error : MotorError}
    (herror : error.deadTimeViolation = false) : Unviolated (lowLevelFault error low) := by
  refine ⟨deadTime_of_disarmed (allDisarmed_lowLevelFault error low).brake, fun m => ?_⟩
  rw [lowLevelFault_motors_eq]
  simp [h.unviolated m, herror]

/-- Safe clocks are applied without a fault. -/
theorem Unviolated.updateBrakeCurrent (h : Unviolated low) {brake : BrakeCurrent}
    (hbrake : brake.Safe) : Unviolated (updateBrakeCurrent brake low) := by
  have hnan : MotorError.ERROR_BRAKE_DUTY_CYCLE_NAN.deadTimeViolation = false := by
    decide +kernel
  have hover : MotorError.ERROR_DC_BUS_OVER_CURRENT.deadTimeViolation = false := by
    decide +kernel
  have hregen : MotorError.ERROR_DC_BUS_OVER_REGEN_CURRENT.deadTimeViolation = false := by
    decide +kernel
  cases brake with
  | dutyNan =>
    rw [LowLevel.updateBrakeCurrent]
    exact h.lowLevelFault hnan
  | overCurrent =>
    rw [LowLevel.updateBrakeCurrent]
    exact h.lowLevelFault hover
  | overRegenCurrent =>
    rw [LowLevel.updateBrakeCurrent]
    exact h.lowLevelFault hregen
  | highOn clocks =>
    obtain ⟨hge, hle⟩ : timApb1DeadtimeClocks ≤ clocks ∧ clocks ≤ timApb1PeriodClocks := hbrake
    have hle' : clocks ≤ timApb1PeriodClocks + 1 := BitVec.le_trans hle (by decide)
    obtain ⟨hsep, hupdate⟩ := updateBrakeCurrent_separated hge hle' low
    rw [hupdate]
    refine ⟨h.deadTime.writeBrakeResistorTimings hsep, fun m => ?_⟩
    rw [writeBrakeResistorTimings_motors]
    exact h.unviolated m

/-! ## Sound states -/

/-- What is handed to a call is what the code computes. -/
def ControlEvent.Computed : ControlEvent → Prop
  | .enqueueModulationTimings _ svm brake =>
    brake.Safe ∧ ∀ timings, svm = some timings → WithinPeriod timings
  | .setError _ error brake => error.deadTimeViolation = false ∧ brake.Safe
  | .pwmTrigAdcCb _ _ _ brake => brake.Safe
  | .lowLevelFault error => error.deadTimeViolation = false
  | _ => True

/-- The dead time is kept, and the compare values, those of the next period included, are
within the period. -/
structure Sound (s : Control) : Prop where
  low : Unviolated s.low
  ccr : ∀ m, WithinPeriod (s.low.motors m).ccr
  next : ∀ m, WithinPeriod (s.next m).timings

theorem Unviolated.setError (h : Unviolated s.low) {error : MotorError}
    (herror : error.deadTimeViolation = false) {brake : BrakeCurrent} (hbrake : brake.Safe)
    (i : Fin axisCount) : Unviolated (setError i error brake s).low :=
  ((h.setMotorError herror i).disarm i).updateBrakeCurrent hbrake

theorem Unviolated.updateTimings (h : Unviolated s.low) {brake : BrakeCurrent} (hbrake : brake.Safe)
    (i : Fin axisCount) : Unviolated (updateTimings i brake s).low := by
  have hmissed : MotorError.ERROR_CONTROL_DEADLINE_MISSED.deadTimeViolation = false := by
    decide +kernel
  cases hvalid : (s.next i).valid with
  | false =>
    rw [updateTimings_empty brake hvalid]
    refine Unviolated.updateBrakeCurrent ?_ hbrake
    split
    · exact (h.disarm i).setMotorError hmissed i
    · exact h.disarm i
  | true =>
    rw [updateTimings_full brake hvalid]
    exact (h.applyTimings i _).updateBrakeCurrent hbrake

theorem Unviolated.step (h : Unviolated s.low) {e : ControlEvent} (he : e.Computed) :
    Unviolated (s.step e).low := by
  cases e with
  | enqueueModulationTimings i svm brake =>
    cases svm with
    | none =>
      have hmagnitude : MotorError.ERROR_MODULATION_MAGNITUDE.deadTimeViolation = false := by
        decide +kernel
      exact h.setError hmagnitude he.1 i
    | some timings => exact h
  | arm i measured =>
    cases measured with
    | false => exact h
    | true => exact h.arm i
  | disarm i => exact h.disarm i
  | setError i error brake => exact h.setError he.1 he.2 i
  | pwmTrigAdcCb hadc injected countingDown brake =>
    have hadcFailed : MotorError.ERROR_ADC_FAILED.deadTimeViolation = false := by
      decide +kernel
    simp only [Control.step, pwmTrigAdcCb]
    split
    · exact h.lowLevelFault hadcFailed
    · split
      · exact h.updateTimings he _
      · exact h
  | armBrakeResistor => exact ⟨fun _ => (by decide : 0 + 40 ≤ 4097), h.unviolated⟩
  | disarmBrakeResistor => exact h.disarmBrakeResistor
  | lowLevelFault error => exact h.lowLevelFault he

theorem Sound.step (h : Sound s) {e : ControlEvent} (he : e.Computed) : Sound (s.step e) := by
  refine ⟨h.low.step he, fun m => ?_, fun m => ?_⟩
  · rw [step_ccr]
    cases hloads : s.loads m e with
    | none => exact h.ccr m
    | some timings =>
      have hslot : (s.next m).timings = timings := by
        cases e with
        | pwmTrigAdcCb hadc injected countingDown brake =>
          simp only [Control.loads] at hloads
          split at hloads
          · exact Option.some.inj hloads
          · cases hloads
        | _ => cases hloads
      rw [Option.getD_some, ← hslot]
      exact h.next m
  · obtain ⟨timings, henqueues, hstep⟩ | ⟨-, hstep⟩ | ⟨-, -, hstep⟩ := step_next s e m
    · rw [hstep]
      cases e with
      | enqueueModulationTimings i svm brake =>
        simp only [ControlEvent.enqueues] at henqueues
        split at henqueues
        · exact he.2 timings henqueues
        · cases henqueues
      | _ => cases henqueues
    · rw [hstep]
      exact h.next m
    · rw [hstep]
      exact h.next m

theorem Sound.run (h : Sound s) {es : List ControlEvent} (hes : ∀ e ∈ es, e.Computed) :
    Sound (s.run es) := by
  induction es generalizing s with
  | nil => exact h
  | cons e es ih =>
    exact ih (h.step (hes e List.mem_cons_self)) fun f hf => hes f (List.mem_cons_of_mem e hf)

end WODrive.LowLevel

namespace WODrive.Motor

open LowLevel

/-! ## The power stage -/

/-- `VBUS_S_DIVIDER_RATIO` of the 48 V boards -/
def vbusSDividerRatio : Float32 := 19

/-- The timings that `pwm_trig_adc_cb` applies, or that there were none. -/
def takeTimings (m : Fin axisCount) (s : Control) : LowLevel.State :=
  if !(s.next m).valid then
    let (wasArmed, low) := safetyCriticalDisarmMotorPwm m s.low
    if wasArmed then setMotorError m .ERROR_CONTROL_DEADLINE_MISSED low else low
  else safetyCriticalApplyMotorPwmTimings m (s.next m).timings s.low

/-- `pwm_trig_adc_cb`, up to the evaluation of the sample. -/
def Power.pwmTrigAdcCb (hadc : Adc) (injected countingDown : Bool) (p : Power Float32) :
    Power Float32 :=
  match updatedMotor hadc injected countingDown with
  | some m =>
    let (bus, brake) := p.bus.brakeCurrent (takeTimings m p.control)
    { bus, control := LowLevel.pwmTrigAdcCb hadc injected countingDown brake p.control }
  | none =>
    { p with control := if hadc = .other then
        { p.control with low := lowLevelFault .ERROR_ADC_FAILED p.control.low }
      else p.control }

/-- `vbus_sense_adc_cb` -/
def Power.vbusSenseAdcCb (adcValue : UInt32) (p : Power Float32) : Power Float32 :=
  let voltageScale := (3.3 : Float32) * vbusSDividerRatio / 4096
  { p with bus := { p.bus with vbusVoltage := adcValue.toFloat32 * voltageScale } }

inductive PowerEvent where
  | enqueueModulationTimings (m : Fin axisCount) (modAlpha modBeta : Float32)
  | arm (m : Fin axisCount) (measured : Bool)
  | disarm (m : Fin axisCount)
  | setError (m : Fin axisCount) (error : MotorError)
  /-- `run_control_loop` has waited in vain: the motor is disarmed, and the brake current
  updated. -/
  | currentMeasTimeout (m : Fin axisCount)
  | pwmTrigAdcCb (hadc : Adc) (injected countingDown : Bool)
  | armBrakeResistor
  | disarmBrakeResistor
  | lowLevelFault (error : MotorError)
  | vbusSenseAdcCb (adcValue : UInt32)
  /-- Current control has found out what the motor takes from the bus. -/
  | setIbus (m : Fin axisCount) (Ibus : Float32)
  /-- The configuration is changed by a host. -/
  | configure (config : BusConfig Float32)

def Power.step (p : Power Float32) : PowerEvent → Power Float32
  | .enqueueModulationTimings m modAlpha modBeta =>
    p.enqueueModulationTimings sqrt3f m modAlpha modBeta
  | .arm m measured => { p with control := LowLevel.arm m measured p.control }
  | .disarm m => { p with control := p.control.step (.disarm m) }
  | .setError m error => p.setError m error
  | .currentMeasTimeout m => p.setError m 0
  | .pwmTrigAdcCb hadc injected countingDown => p.pwmTrigAdcCb hadc injected countingDown
  | .armBrakeResistor => { p with control := p.control.step .armBrakeResistor }
  | .disarmBrakeResistor => { p with control := p.control.step .disarmBrakeResistor }
  | .lowLevelFault error => { p with control := p.control.step (.lowLevelFault error) }
  | .vbusSenseAdcCb adcValue => p.vbusSenseAdcCb adcValue
  | .setIbus m Ibus =>
    { p with bus := { p.bus with motorIbus := Function.update p.bus.motorIbus m Ibus } }
  | .configure config => { p with bus := { p.bus with config } }

def Power.run (p : Power Float32) (es : List PowerEvent) : Power Float32 := es.foldl Power.step p

/-- The event does not report a violated dead time by itself: nothing but the check of the
brake resistor's timings does. -/
def PowerEvent.ReportsOther : PowerEvent → Prop
  | .setError _ error | .lowLevelFault error => error.deadTimeViolation = false
  | _ => True

/-! ## Runs -/

theorem updateTimings_eq (m : Fin axisCount) (brake : BrakeCurrent) (s : Control) :
    (updateTimings m brake s).low = updateBrakeCurrent brake (takeTimings m s) := by
  cases hvalid : (s.next m).valid with
  | false =>
    rw [updateTimings_empty brake hvalid]
    simp [takeTimings, hvalid]
  | true =>
    rw [updateTimings_full brake hvalid]
    simp [takeTimings, hvalid]

theorem Power.setError_control (p : Power Float32) (m : Fin axisCount) (error : MotorError) :
    ∃ brake : BrakeCurrent, brake.Safe ∧
      (p.setError m error).control = LowLevel.setError m error brake p.control :=
  ⟨_, brakeCurrent_safe _ _, rfl⟩

/-- Timings are enqueued if `SVM` accepts the vector. -/
theorem Power.enqueueModulationTimings_control (p : Power Float32) (m : Fin axisCount)
    (modAlpha modBeta : Float32) :
    ∃ svm brake, (ControlEvent.enqueueModulationTimings m svm brake).Computed ∧
      (p.enqueueModulationTimings sqrt3f m modAlpha modBeta).control =
        LowLevel.enqueueModulationTimings m svm brake p.control := by
  unfold Power.enqueueModulationTimings
  dsimp only
  split
  next hrefused =>
    obtain ⟨brake, hsafe, hcontrol⟩ := p.setError_control m .ERROR_MODULATION_MAGNITUDE
    exact ⟨none, brake, ⟨hsafe, fun _ h => nomatch h⟩, hcontrol⟩
  next haccepted =>
    have hwithin := toTimings_withinPeriod (not_not.mp haccepted)
    refine ⟨some ((svm sqrt3f modAlpha modBeta).2.toTimings), .dutyNan,
      ⟨trivial, ?_⟩, ?_⟩
    · rintro timings ⟨rfl⟩
      exact hwithin
    · simp [LowLevel.enqueueModulationTimings, Control.setNext]

theorem Power.pwmTrigAdcCb_control (p : Power Float32) (hadc : Adc)
    (injected countingDown : Bool) :
    ∃ brake : BrakeCurrent, brake.Safe ∧
      (p.pwmTrigAdcCb hadc injected countingDown).control =
        LowLevel.pwmTrigAdcCb hadc injected countingDown brake p.control := by
  unfold Power.pwmTrigAdcCb
  cases hupdated : updatedMotor hadc injected countingDown with
  | some m => exact ⟨_, brakeCurrent_safe _ _, rfl⟩
  | none =>
    refine ⟨.dutyNan, trivial, ?_⟩
    simp only [LowLevel.pwmTrigAdcCb, hupdated]

/-- A call is one of those of `Control`, with what the code computes, or it leaves the state of
`Control` alone. -/
theorem exists_control_step (p : Power Float32) {e : PowerEvent} (he : e.ReportsOther) :
    (p.step e).control = p.control ∨
      ∃ f : ControlEvent, f.Computed ∧ (p.step e).control = p.control.step f := by
  cases e with
  | enqueueModulationTimings m modAlpha modBeta =>
    obtain ⟨svm, brake, hcomputed, hcontrol⟩ :=
      p.enqueueModulationTimings_control m modAlpha modBeta
    exact .inr ⟨_, hcomputed, hcontrol⟩
  | arm m measured => exact .inr ⟨.arm m measured, trivial, rfl⟩
  | disarm m => exact .inr ⟨.disarm m, trivial, rfl⟩
  | setError m error =>
    obtain ⟨brake, hsafe, hcontrol⟩ := p.setError_control m error
    exact .inr ⟨.setError m error brake, ⟨he, hsafe⟩, hcontrol⟩
  | currentMeasTimeout m =>
    obtain ⟨brake, hsafe, hcontrol⟩ := p.setError_control m 0
    exact .inr ⟨.setError m 0 brake, ⟨by decide +kernel, hsafe⟩, hcontrol⟩
  | pwmTrigAdcCb hadc injected countingDown =>
    obtain ⟨brake, hsafe, hcontrol⟩ := p.pwmTrigAdcCb_control hadc injected countingDown
    exact .inr ⟨.pwmTrigAdcCb hadc injected countingDown brake, hsafe, hcontrol⟩
  | armBrakeResistor => exact .inr ⟨.armBrakeResistor, trivial, rfl⟩
  | disarmBrakeResistor => exact .inr ⟨.disarmBrakeResistor, trivial, rfl⟩
  | lowLevelFault error => exact .inr ⟨.lowLevelFault error, he, rfl⟩
  | vbusSenseAdcCb adcValue => exact .inl rfl
  | setIbus m Ibus => exact .inl rfl
  | configure config => exact .inl rfl

/-- A run is one of `Control`. -/
theorem exists_control_run (p : Power Float32) {es : List PowerEvent}
    (hes : ∀ e ∈ es, e.ReportsOther) :
    ∃ fs : List ControlEvent, (∀ f ∈ fs, f.Computed) ∧
      (p.run es).control = p.control.run fs := by
  induction es generalizing p with
  | nil => exact ⟨[], nofun, rfl⟩
  | cons e es ih =>
    obtain ⟨fs, hfs, hrun⟩ := ih (p.step e) fun f hf => hes f (List.mem_cons_of_mem e hf)
    obtain hkept | ⟨f, hf, hstep⟩ := exists_control_step p (hes e List.mem_cons_self)
    · refine ⟨fs, hfs, ?_⟩
      rw [← hkept]
      exact hrun
    · refine ⟨f :: fs, List.forall_mem_cons.mpr ⟨hf, hfs⟩, ?_⟩
      show ((p.step e).run es).control = (p.control.step f).run fs
      rw [← hstep]
      exact hrun

/-- **The power stage is safe.** Whatever is asked for, measured and configured, infinities and
NaN included, in every run from a sound state the brake resistor's two sides keep their dead
time, no motor is stopped for a dead time too short, and what is loaded into the timers, now or
in the next period, is within the period. -/
theorem powerStage_safe (p : Power Float32) (h : Sound p.control) (es : List PowerEvent)
    (hes : ∀ e ∈ es, e.ReportsOther) : Sound (p.run es).control := by
  obtain ⟨fs, hfs, hrun⟩ := exists_control_run p hes
  rw [hrun]
  exact h.run hfs

/-- Everything is disarmed at power-up. -/
def Power.powerUp (bus : Bus Float32) : Power Float32 where
  control := .powerUp
    { brakeResistorArmed := false
      htim2Ccr3 := 0
      htim2Ccr4 := timApb1PeriodClocks + 1
      motors := fun _ =>
        { armedState := .DISARMED, error := 0, moe := false, ccr := ⟨0, 0, 0⟩ } }
  bus := bus

theorem sound_powerUp (bus : Bus Float32) : Sound (Power.powerUp bus).control := by
  have hcleared : MotorError.deadTimeViolation 0 = false := by decide +kernel
  have hzero : WithinPeriod ⟨0, 0, 0⟩ := ⟨by decide, by decide, by decide⟩
  have hhalf : WithinPeriod
      ⟨tim18PeriodClocks / 2, tim18PeriodClocks / 2, tim18PeriodClocks / 2⟩ :=
    ⟨by decide, by decide, by decide⟩
  exact ⟨⟨deadTime_of_disarmed rfl, fun _ => hcleared⟩, fun _ => hzero, fun _ => hhalf⟩

/-- A bus of which nothing that is read is a number. -/
theorem powerStage_safe_nan :
    let nan : Float32 := 0 / 0
    let config : BusConfig Float32 := ⟨nan, nan, true, nan, nan, nan, nan⟩
    let p := Power.powerUp ⟨config, nan, nan, nan, false, fun _ => nan⟩
    let es := [.armBrakeResistor, .arm axis0 true, .enqueueModulationTimings axis0 nan nan,
      .pwmTrigAdcCb .hadc2 false true, .vbusSenseAdcCb 0]
    Sound (p.run es).control := by
  intro nan config p es
  refine powerStage_safe p (sound_powerUp _) es fun e he => ?_
  simp only [es, List.mem_cons, List.not_mem_nil, or_false] at he
  obtain rfl | rfl | rfl | rfl | rfl := he <;> trivial

end WODrive.Motor
