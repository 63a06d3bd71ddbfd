import Mathlib.Data.List.FinRange
import Mathlib.Logic.Function.Basic
import WODrive.Axes

/-!
# The safety critical section (MotorControl/low_level.cpp)

All accesses to the registers that can energise a motor phase or the brake resistor
go through a handful of functions, each of which runs in one critical section. The
state they share is the armed state of every motor, its timer's main output enable
bit (MOE), and the brake resistor's flag and timer.

An `Event` is one call of these functions. `low_level_fault` and the update of the
brake resistor's timings, which may call it, are not critical sections of their own:
their parts are events too, and `lowLevelFault_eq_run` and
`applyBrakeResistorTimings_eq_run` take the calls apart into them, so that a sequence
of events may interleave the parts with anything.
-/

namespace WODrive.LowLevel

/-- `TIM_APB1_PERIOD_CLOCKS` -/
def timApb1PeriodClocks : BitVec 32 := 4096

/-- `TIM_APB1_DEADTIME_CLOCKS` -/
def timApb1DeadtimeClocks : BitVec 32 := 40

/-- `Motor::ArmedState` -/
inductive ArmedState where
  | DISARMED
  | WAITING_FOR_TIMINGS
  | WAITING_FOR_UPDATE
  | ARMED
deriving DecidableEq, Repr

/-- `Motor::Error`, a set of flags. -/
abbrev MotorError := BitVec 32

def MotorError.ERROR_BRAKE_DEADTIME_VIOLATION : MotorError := 0x100

/-- The `timings` array of a motor. -/
structure Timings where
  phA : BitVec 16
  phB : BitVec 16
  phC : BitVec 16
deriving DecidableEq, Repr

/-- What the critical sections use of a `Motor` and of its timer. -/
structure Motor where
  armedState : ArmedState
  error : MotorError
  /-- `BDTR.MOE` of the motor's timer: the PWM outputs are enabled. -/
  moe : Bool
  /-- `CCR1`, `CCR2` and `CCR3` of the motor's timer. -/
  ccr : Timings
deriving DecidableEq, Repr

structure State where
  brakeResistorArmed : Bool
  /-- `htim2.Instance->CCR3`: the low side of the brake resistor's half bridge. -/
  htim2Ccr3 : BitVec 32
  /-- `htim2.Instance->CCR4`: the high side. -/
  htim2Ccr4 : BitVec 32
  /-- `axes[i]->motor_` -/
  motors : Fin axisCount → Motor

/-- Assign to fields of one motor. -/
def State.updateMotor (s : State) (m : Fin axisCount) (f : Motor → Motor) : State :=
  { s with motors := Function.update s.motors m (f (s.motors m)) }

/-! ## The critical sections -/

/-- `safety_critical_arm_motor_pwm` -/
def safetyCriticalArmMotorPwm (m : Fin axisCount) (s : State) : State :=
  if s.brakeResistorArmed then
    s.updateMotor m fun motor => { motor with armedState := .WAITING_FOR_TIMINGS }
  else s

/-- `safety_critical_disarm_motor_pwm`. Returns whether the motor was in a state
other than disarmed before. -/
def safetyCriticalDisarmMotorPwm (m : Fin axisCount) (s : State) : Bool × State :=
  let wasArmed := decide ((s.motors m).armedState ≠ .DISARMED)
  (wasArmed, s.updateMotor m fun motor =>
    { motor with armedState := .DISARMED, moe := false })

/-- `safety_critical_apply_motor_pwm_timings` -/
def safetyCriticalApplyMotorPwmTimings (m : Fin axisCount) (timings : Timings)
    (s : State) : State :=
  let s :=
    if !s.brakeResistorArmed then
      s.updateMotor m fun motor => { motor with armedState := .DISARMED }
    else s
  let s := s.updateMotor m fun motor => { motor with ccr := timings }
  match (s.motors m).armedState with
  | .WAITING_FOR_TIMINGS =>
    -- the timer registers are buffered: the output is not enabled just yet
    s.updateMotor m fun motor => { motor with armedState := .WAITING_FOR_UPDATE }
  | .WAITING_FOR_UPDATE =>
    s.updateMotor m fun motor => { motor with armedState := .ARMED, moe := true }
  | .ARMED => s
  | .DISARMED => (safetyCriticalDisarmMotorPwm m s).2

/-- `safety_critical_arm_brake_resistor` -/
def safetyCriticalArmBrakeResistor (s : State) : State :=
  { s with
    brakeResistorArmed := true
    htim2Ccr3 := 0
    htim2Ccr4 := timApb1PeriodClocks + 1 }

/-- `safety_critical_disarm_brake_resistor` -/
def safetyCriticalDisarmBrakeResistor (s : State) : State :=
  let s := { s with
    brakeResistorArmed := false
    htim2Ccr3 := 0
    htim2Ccr4 := timApb1PeriodClocks + 1 }
  (List.finRange axisCount).foldl (fun s i => (safetyCriticalDisarmMotorPwm i s).2) s

/-- `axes[i]->motor_.error_ |= error` -/
def setMotorError (m : Fin axisCount) (error : MotorError) (s : State) : State :=
  s.updateMotor m fun motor => { motor with error := motor.error ||| error }

/-- `low_level_fault` -/
def lowLevelFault (error : MotorError) (s : State) : State :=
  let s := (List.finRange axisCount).foldl
    (fun s i => setMotorError i error (safetyCriticalDisarmMotorPwm i s).2) s
  safetyCriticalDisarmBrakeResistor s

/-- The critical section of `safety_critical_apply_brake_resistor_timings`. -/
def writeBrakeResistorTimings (lowOff highOn : BitVec 32) (s : State) : State :=
  if s.brakeResistorArmed then
    -- first reset the timings to a safe state
    let s := { s with htim2Ccr3 := 0 }
    let s := { s with htim2Ccr4 := timApb1PeriodClocks + 1 }
    let s := { s with htim2Ccr3 := lowOff }
    { s with htim2Ccr4 := highOn }
  else s

/-- `safety_critical_apply_brake_resistor_timings` -/
def safetyCriticalApplyBrakeResistorTimings (lowOff highOn : BitVec 32)
    (s : State) : State :=
  let s :=
    if highOn - lowOff < timApb1DeadtimeClocks then
      lowLevelFault .ERROR_BRAKE_DEADTIME_VIOLATION s
    else s
  writeBrakeResistorTimings lowOff highOn s

/-! ## Events -/

/-- One call from outside of the section, or one part of a call that is not atomic. -/
inductive Event where
  | armMotorPwm (m : Fin axisCount)
  | disarmMotorPwm (m : Fin axisCount)
  | applyMotorPwmTimings (m : Fin axisCount) (timings : Timings)
  | armBrakeResistor
  | disarmBrakeResistor
  | applyBrakeResistorTimings (lowOff highOn : BitVec 32)
  | writeBrakeResistorTimings (lowOff highOn : BitVec 32)
  | lowLevelFault (error : MotorError)
  | setMotorError (m : Fin axisCount) (error : MotorError)
deriving DecidableEq, Repr

def step (s : State) : Event → State
  | .armMotorPwm m => safetyCriticalArmMotorPwm m s
  | .disarmMotorPwm m => (safetyCriticalDisarmMotorPwm m s).2
  | .applyMotorPwmTimings m timings => safetyCriticalApplyMotorPwmTimings m timings s
  | .armBrakeResistor => safetyCriticalArmBrakeResistor s
  | .disarmBrakeResistor => safetyCriticalDisarmBrakeResistor s
  | .applyBrakeResistorTimings lowOff highOn =>
    safetyCriticalApplyBrakeResistorTimings lowOff highOn s
  | .writeBrakeResistorTimings lowOff highOn => writeBrakeResistorTimings lowOff highOn s
  | .lowLevelFault error => lowLevelFault error s
  | .setMotorError m error => setMotorError m error s

/-- The state after a sequence of events. -/
def run (s : State) (es : List Event) : State := es.foldl step s

/-- The critical sections of `low_level_fault`, and what it does between them. -/
def faultSections (error : MotorError) : List Event :=
  (List.finRange axisCount).flatMap
      (fun i => [.disarmMotorPwm i, .setMotorError i error]) ++
    [.disarmBrakeResistor]

@[simp] theorem run_nil (s : State) : run s [] = s := rfl

@[simp] theorem run_cons (s : State) (e : Event) (es : List Event) :
    run s (e :: es) = run (step s e) es := rfl

@[simp] theorem run_append (s : State) (es fs : List Event) :
    run s (es ++ fs) = run (run s es) fs :=
  List.foldl_append

/-- A fault that nothing interrupts is the sequence of its parts. -/
theorem lowLevelFault_eq_run (error : MotorError) (s : State) :
    lowLevelFault error s = run s (faultSections error) := by
  unfold faultSections lowLevelFault
  rw [run_append]
  show _ = safetyCriticalDisarmBrakeResistor (run s _)
  unfold run
  rw [List.foldl_flatMap]
  rfl

theorem applyBrakeResistorTimings_eq_run (lowOff highOn : BitVec 32) (s : State) :
    safetyCriticalApplyBrakeResistorTimings lowOff highOn s =
      run s ((if highOn - lowOff < timApb1DeadtimeClocks then
          faultSections .ERROR_BRAKE_DEADTIME_VIOLATION
        else []) ++ [.writeBrakeResistorTimings lowOff highOn]) := by
  unfold safetyCriticalApplyBrakeResistorTimings
  rw [run_append]
  split
  · rw [lowLevelFault_eq_run]
    rfl
  · rfl

end WODrive.LowLevel
