import WODrive.LowLevel.Arming

/-!
# Timings from the control loop to the timers (motor.cpp, low_level.cpp)

The control thread of an axis hands the timings of the next PWM period to the
interrupt through a slot in the motor, `next_timings_` and `next_timings_valid_`. The
interrupt of one motor's conversion takes the other motor's timings over, or floats
its phases if there are none.

A `ControlEvent` is one atomic call of either side, for any motor. `step_next` says
what such a call does to the slot of a motor, `step_ccr` what it does to the motor's
timer registers, and `step_missed` what the interrupt does when the slot is empty.
-/

namespace WODrive.LowLevel

/-- `TIM_1_8_PERIOD_CLOCKS` -/
def tim18PeriodClocks : BitVec 16 := 3500

/-- Compare values within the period of the timer. -/
structure WithinPeriod (t : Timings) : Prop where
  phA : t.phA ≤ tim18PeriodClocks
  phB : t.phB ≤ tim18PeriodClocks
  phC : t.phC ≤ tim18PeriodClocks

namespace MotorError

def ERROR_ADC_FAILED : MotorError := 0x4
def ERROR_CONTROL_DEADLINE_MISSED : MotorError := 0x10
def ERROR_MODULATION_MAGNITUDE : MotorError := 0x80
def ERROR_BRAKE_DUTY_CYCLE_NAN : MotorError := 0x2000
def ERROR_DC_BUS_OVER_REGEN_CURRENT : MotorError := 0x4000
def ERROR_DC_BUS_OVER_CURRENT : MotorError := 0x8000

/-- `ERROR_CONTROL_DEADLINE_MISSED` is among the flags. -/
def deadlineMissed (error : MotorError) : Bool := error.getLsbD 4

@[simp] theorem deadlineMissed_or (e f : MotorError) :
    deadlineMissed (e ||| f) = (deadlineMissed e || deadlineMissed f) :=
  BitVec.getLsbD_or

end MotorError

/-! ## The brake resistor's duty -/

/-- What `update_brake_current` computes, in floating point, from the motor currents. -/
inductive BrakeCurrent where
  | dutyNan
  | overCurrent
  | overRegenCurrent
  /-- `(int)(TIM_APB1_PERIOD_CLOCKS * (1.0f - brake_duty))` -/
  | highOn (highOn : BitVec 32)
deriving DecidableEq, Repr

/-- `update_brake_current` -/
def updateBrakeCurrent (brake : BrakeCurrent) (s : State) : State :=
  match brake with
  | .dutyNan => lowLevelFault .ERROR_BRAKE_DUTY_CYCLE_NAN s
  | .overCurrent => lowLevelFault .ERROR_DC_BUS_OVER_CURRENT s
  | .overRegenCurrent => lowLevelFault .ERROR_DC_BUS_OVER_REGEN_CURRENT s
  | .highOn highOn =>
    let lowOff := highOn - timApb1DeadtimeClocks
    let lowOff := if lowOff.slt 0 then 0 else lowOff
    safetyCriticalApplyBrakeResistorTimings lowOff highOn s

/-! ## The slot -/

/-- `next_timings_` and `next_timings_valid_` -/
structure NextTimings where
  timings : Timings
  valid : Bool
deriving DecidableEq, Repr

/-- The safety critical section, and the slots of the motors. -/
structure Control where
  low : State
  next : Fin axisCount → NextTimings

def Control.setNext (s : Control) (m : Fin axisCount) (f : NextTimings → NextTimings) :
    Control :=
  { s with next := Function.update s.next m (f (s.next m)) }

/-- `Motor::set_error` -/
def setError (m : Fin axisCount) (error : MotorError) (brake : BrakeCurrent) (s : Control) :
    Control :=
  let low := setMotorError m error s.low
  let low := (safetyCriticalDisarmMotorPwm m low).2
  { s with low := updateBrakeCurrent brake low }

/-- `Motor::enqueue_modulation_timings`, after `SVM` has found the timings, or has found
that there are none. -/
def enqueueModulationTimings (m : Fin axisCount) (svm : Option Timings)
    (brake : BrakeCurrent) (s : Control) : Control :=
  match svm with
  | none => setError m .ERROR_MODULATION_MAGNITUDE brake s
  | some timings =>
    let s := s.setNext m fun next => { next with timings }
    s.setNext m fun next => { next with valid := true }

/-- `Motor::arm`, once the current measurements have come in or not. -/
def arm (m : Fin axisCount) (measured : Bool) (s : Control) : Control :=
  if !measured then s
  else
    let s := s.setNext m fun next => { next with valid := false }
    { s with low := safetyCriticalArmMotorPwm m s.low }

/-! ## The interrupt -/

/-- The converter that an interrupt of `pwm_trig_adc_cb` comes from. -/
inductive Adc where
  | hadc2
  | hadc3
  | other
deriving DecidableEq, Repr

/-- The motor whose timings an interrupt updates: the one that is not being sampled. -/
def updatedMotor (hadc : Adc) (injected countingDown : Bool) : Option (Fin axisCount) :=
  let axis := if injected then axis0 else axis1
  let otherAxis := if injected then axis1 else axis0
  if hadc = .hadc2 ∧ (axis = axis1 ∧ countingDown = true ∨ axis = axis0 ∧ countingDown = false)
  then some otherAxis
  else none

/-- The branch of `pwm_trig_adc_cb` under `update_timings`. -/
def updateTimings (m : Fin axisCount) (brake : BrakeCurrent) (s : Control) : Control :=
  let s :=
    if !(s.next m).valid then
      -- the control loop failed to update the timings in time: float all phases
      let (wasArmed, low) := safetyCriticalDisarmMotorPwm m s.low
      if wasArmed then { s with low := setMotorError m .ERROR_CONTROL_DEADLINE_MISSED low }
      else { s with low }
    else
      let s := s.setNext m fun next => { next with valid := false }
      { s with low := safetyCriticalApplyMotorPwmTimings m (s.next m).timings s.low }
  { s with low := updateBrakeCurrent brake s.low }

/-- `pwm_trig_adc_cb`, up to the evaluation of the sample. -/
def pwmTrigAdcCb (hadc : Adc) (injected countingDown : Bool) (brake : BrakeCurrent)
    (s : Control) : Control :=
  if hadc = .other then { s with low := lowLevelFault .ERROR_ADC_FAILED s.low }
  else
    match updatedMotor hadc injected countingDown with
    | some m => updateTimings m brake s
    | none => s

/-! ## Events -/

inductive ControlEvent where
  | enqueueModulationTimings (m : Fin axisCount) (svm : Option Timings) (brake : BrakeCurrent)
  | arm (m : Fin axisCount) (measured : Bool)
  | disarm (m : Fin axisCount)
  | setError (m : Fin axisCount) (error : MotorError) (brake : BrakeCurrent)
  | pwmTrigAdcCb (hadc : Adc) (injected countingDown : Bool) (brake : BrakeCurrent)
  | armBrakeResistor
  | disarmBrakeResistor
  | lowLevelFault (error : MotorError)
deriving DecidableEq, Repr

def Control.step (s : Control) : ControlEvent → Control
  | .enqueueModulationTimings m svm brake => LowLevel.enqueueModulationTimings m svm brake s
  | .arm m measured => LowLevel.arm m measured s
  | .disarm m => { s with low := (safetyCriticalDisarmMotorPwm m s.low).2 }
  | .setError m error brake => LowLevel.setError m error brake s
  | .pwmTrigAdcCb hadc injected countingDown brake =>
    LowLevel.pwmTrigAdcCb hadc injected countingDown brake s
  | .armBrakeResistor => { s with low := safetyCriticalArmBrakeResistor s.low }
  | .disarmBrakeResistor => { s with low := safetyCriticalDisarmBrakeResistor s.low }
  | .lowLevelFault error => { s with low := LowLevel.lowLevelFault error s.low }

/-- The timings that the event enqueues for the motor. -/
def ControlEvent.enqueues (m : Fin axisCount) : ControlEvent → Option Timings
  | .enqueueModulationTimings i svm _ => if i = m then svm else none
  | _ => none

/-- The event is a timing update interrupt of the motor. -/
def ControlEvent.Updates (m : Fin axisCount) : ControlEvent → Prop
  | .pwmTrigAdcCb hadc injected countingDown _ =>
    updatedMotor hadc injected countingDown = some m
  | _ => False

/-! ## What a call does to one motor's slot -/

variable {s : Control} {m : Fin axisCount} {e : ControlEvent}

@[simp] theorem setNext_low (f : NextTimings → NextTimings) (i : Fin axisCount) :
    (s.setNext i f).low = s.low := rfl

@[simp] theorem setNext_self (f : NextTimings → NextTimings) :
    (s.setNext m f).next m = f (s.next m) :=
  Function.update_self ..

theorem setNext_other (f : NextTimings → NextTimings) {i : Fin axisCount} (h : m ≠ i) :
    (s.setNext i f).next m = s.next m :=
  Function.update_of_ne h ..

@[simp] theorem setError_next (i : Fin axisCount) (error : MotorError) (brake : BrakeCurrent) :
    (setError i error brake s).next = s.next := rfl

/-- An update with an empty slot. -/
theorem updateTimings_empty (brake : BrakeCurrent) (h : (s.next m).valid = false) :
    updateTimings m brake s =
      { s with
        low := updateBrakeCurrent brake
          (if (safetyCriticalDisarmMotorPwm m s.low).1 then
            setMotorError m .ERROR_CONTROL_DEADLINE_MISSED (safetyCriticalDisarmMotorPwm m s.low).2
          else (safetyCriticalDisarmMotorPwm m s.low).2) } := by
  unfold updateTimings
  cases hstate : (safetyCriticalDisarmMotorPwm m s.low).1 <;> simp [h, hstate]

/-- An update with timings in the slot. -/
theorem updateTimings_full (brake : BrakeCurrent) (h : (s.next m).valid = true) :
    updateTimings m brake s =
      { s.setNext m (fun next => { next with valid := false }) with
        low := updateBrakeCurrent brake
          (safetyCriticalApplyMotorPwmTimings m (s.next m).timings s.low) } := by
  simp [updateTimings, h]

theorem updateTimings_next (i : Fin axisCount) (brake : BrakeCurrent) (s : Control)
    (m : Fin axisCount) :
    (updateTimings i brake s).next m =
      if i = m then { s.next m with valid := false } else s.next m := by
  by_cases him : i = m
  · subst him
    rw [if_pos rfl]
    cases hvalid : (s.next i).valid with
    | false =>
      rw [updateTimings_empty brake hvalid]
      simp [← hvalid]
    | true =>
      rw [updateTimings_full brake hvalid]
      simp
  · rw [if_neg him]
    cases hvalid : (s.next i).valid with
    | false => rw [updateTimings_empty brake hvalid]
    | true =>
      rw [updateTimings_full brake hvalid]
      simp [setNext_other _ (Ne.symm him)]

/-- The slot of a motor after a call: filled by an enqueue, emptied by an arm or by an
update, or as before. -/
theorem step_next (s : Control) (e : ControlEvent) (m : Fin axisCount) :
    (∃ timings, e.enqueues m = some timings ∧ (s.step e).next m = ⟨timings, true⟩) ∨
    (e.enqueues m = none ∧ (s.step e).next m = { s.next m with valid := false }) ∨
    (e.enqueues m = none ∧ ¬ e.Updates m ∧ (s.step e).next m = s.next m) := by
  cases e with
  | enqueueModulationTimings i svm brake =>
    by_cases him : i = m
    · subst him
      cases svm with
      | none => exact .inr (.inr ⟨by simp [ControlEvent.enqueues], id, rfl⟩)
      | some timings =>
        refine .inl ⟨timings, by simp [ControlEvent.enqueues], ?_⟩
        simp [Control.step, enqueueModulationTimings]
    · refine .inr (.inr ⟨by simp [ControlEvent.enqueues, him], id, ?_⟩)
      cases svm <;> simp [Control.step, enqueueModulationTimings, setNext_other _ (Ne.symm him)]
  | arm i measured =>
    by_cases him : i = m
    · subst him
      cases measured with
      | false => exact .inr (.inr ⟨rfl, id, rfl⟩)
      | true => exact .inr (.inl ⟨rfl, by simp [Control.step, arm]⟩)
    · refine .inr (.inr ⟨rfl, id, ?_⟩)
      cases measured <;> simp [Control.step, arm, setNext_other _ (Ne.symm him)]
  | pwmTrigAdcCb hadc injected countingDown brake =>
    simp only [Control.step, pwmTrigAdcCb, ControlEvent.Updates]
    split
    next hother => exact .inr (.inr ⟨rfl, by simp [updatedMotor, hother], rfl⟩)
    next =>
      cases hupdated : updatedMotor hadc injected countingDown with
      | none => exact .inr (.inr ⟨rfl, by simp, rfl⟩)
      | some i =>
        simp only [updateTimings_next, Option.some.injEq]
        by_cases him : i = m
        · exact .inr (.inl ⟨rfl, if_pos him⟩)
        · exact .inr (.inr ⟨rfl, him, if_neg him⟩)
  | _ => exact .inr (.inr ⟨rfl, id, rfl⟩)

/-- What an update of the motor does. -/
theorem step_of_updates (hupdates : e.Updates m) :
    ∃ brake, s.step e = updateTimings m brake s := by
  cases e with
  | pwmTrigAdcCb hadc injected countingDown brake =>
    have hm : updatedMotor hadc injected countingDown = some m := hupdates
    have hadc2 : hadc ≠ .other := by
      rintro rfl
      simp [updatedMotor] at hm
    exact ⟨brake, by simp only [Control.step, pwmTrigAdcCb, if_neg hadc2, hm]⟩
  | _ => exact hupdates.elim

/-- After an update the slot is empty. -/
theorem step_next_of_updates (hupdates : e.Updates m) : ((s.step e).next m).valid = false := by
  obtain ⟨brake, hstep⟩ := step_of_updates (s := s) hupdates
  rw [hstep, updateTimings_next, if_pos rfl]

end WODrive.LowLevel
