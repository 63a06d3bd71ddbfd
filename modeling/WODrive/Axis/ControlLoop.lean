import WODrive.Axis.Homing
import WODrive.LowLevel.Freshness
import WODrive.Motor.Thermistor

/-!
# The thread of an axis (axis.hpp, axis.cpp)

The thread of an axis works off its states. The procedures of all states but idle go through
`run_control_loop`, each iteration of which checks the device, updates the estimators, checks
the watchdog, calls an update handler that asks the modulator for the next timings, and waits
for the next measurement. Interrupts, the other axis and the communication threads come in
between at any point: they load timings into the timers, raise errors, clear them, feed the
watchdog, ask for another state and change what is configured and measured.

An `AxisEvent` is a step of the thread or of one of the others. Which state comes next is left
open here, and so is what an update handler asks for.

- `doChecks_iff`: the checks succeed exactly on a healthy device without an error;
- `stepped`: what a step leads to, with the branches of the source apart.
-/

namespace WODrive.LowLevel

def MotorError.ERROR_DRV_FAULT : MotorError := 0x8

/-- What only the thread of the axis calls. -/
def ControlEvent.OfThread (m : Fin axisCount) : ControlEvent → Bool
  | .enqueueModulationTimings i _ _ => i = m
  | .arm i _ => i = m
  | _ => false

end WODrive.LowLevel

namespace WODrive.Axis

open LowLevel
open Motor (Thermistor)

universe u

variable {F : Type u}

def ERROR_DC_BUS_UNDER_VOLTAGE : AxisError := 0x2
def ERROR_DC_BUS_OVER_VOLTAGE : AxisError := 0x4
def ERROR_BRAKE_RESISTOR_DISARMED : AxisError := 0x10
def ERROR_MOTOR_DISARMED : AxisError := 0x20
def ERROR_MOTOR_FAILED : AxisError := 0x40
def ERROR_MAX_ENDSTOP_PRESSED : AxisError := 0x2000
def ERROR_OVER_TEMP : AxisError := 0x40000

/-! ## The thread -/

/-- Where the thread is. -/
inductive ThreadPoint where
  /-- It is about to call `motor_.arm()`. -/
  | arm
  /-- It is in the state machine, or in a procedure and not in a control loop. -/
  | procedure
  | whileCondition
  | doChecks
  | doUpdates (checksOk : Bool)
  | watchdogCheck (checksOk updatesOk : Bool)
  | updateHandler
  | waitForCurrentMeas (mainContinue : Bool)
deriving DecidableEq, Repr

/-- What `do_checks` reads besides the state of the axis and of the low level. -/
structure Readings (F : Type u) where
  vbusVoltage : F
  /-- `odrv.config_` -/
  dcBusUndervoltageTripLevel : F
  dcBusOvervoltageTripLevel : F
  fetThermistor : Thermistor F
  motorThermistor : Thermistor F
  /-- the level of the gate driver's `nFAULT` pin -/
  nFault : Bool
  /-- `config_.enabled` and `get_state()` of the endstops -/
  minEndstopEnabled : Bool
  minEndstopState : Bool
  maxEndstopEnabled : Bool
  maxEndstopState : Bool

/-- An axis with its thread, and the safety critical section that it shares. -/
structure Thread (F : Type u) where
  axisNum : Fin axisCount
  point : ThreadPoint
  currentState : AxisState
  requestedState : AxisState
  error : AxisError
  readings : Readings F
  /-- `config_.enable_watchdog` and `config_.watchdog_timeout` -/
  enableWatchdog : Bool
  watchdogTimeout : F
  watchdogCurrentValue : BitVec 32
  loopCounter : BitVec 32
  control : Control

namespace Thread

/-- `error_ |= errors` -/
def addError (errors : AxisError) (s : Thread F) : Thread F :=
  { s with error := s.error ||| errors }

def addErrorIf (condition : Prop) [Decidable condition] (errors : AxisError) (s : Thread F) :
    Thread F :=
  if condition then s.addError errors else s

/-- `Motor::set_error` -/
def setMotorError (error : MotorError) (brake : BrakeCurrent) (s : Thread F) : Thread F :=
  { s.addError ERROR_MOTOR_FAILED with
    control := LowLevel.setError s.axisNum error brake s.control }

section Checks

variable [Add F] [LE F] [DecidableLE F] [CFloat F]

/-- The checks of both thermistors. -/
def checkThermistors (s : Thread F) : Thread F :=
  let (fetOk, fetThermistor) := s.readings.fetThermistor.doChecks
  let (motorOk, motorThermistor) := s.readings.motorThermistor.doChecks
  { s with readings := { s.readings with fetThermistor, motorThermistor } }
    |>.addErrorIf (fetOk = false) ERROR_OVER_TEMP
    |>.addErrorIf (motorOk = false) ERROR_OVER_TEMP

/-- `Motor::do_checks` -/
def motorDoChecks (brake : BrakeCurrent) (s : Thread F) : Thread F :=
  if s.readings.nFault = false then s.setMotorError .ERROR_DRV_FAULT brake else s

/-- The checks for endstop presses. -/
def checkEndstops (s : Thread F) : Thread F :=
  let r := s.readings
  if r.minEndstopEnabled ∧ r.minEndstopState ∧ ¬s.currentState = .HOMING then
    s.addError ERROR_MIN_ENDSTOP_PRESSED
  else if r.maxEndstopEnabled ∧ r.maxEndstopState ∧ ¬s.currentState = .HOMING then
    s.addError ERROR_MAX_ENDSTOP_PRESSED
  else s

/-- `do_checks` -/
def doChecks (brake : BrakeCurrent) (s : Thread F) : Bool × Thread F :=
  let motor := s.control.low.motors s.axisNum
  let r := s.readings
  let s := s.addErrorIf (s.control.low.brakeResistorArmed = false) ERROR_BRAKE_RESISTOR_DISARMED
    |>.addErrorIf (s.currentState ≠ .IDLE ∧ motor.armedState = .DISARMED) ERROR_MOTOR_DISARMED
    -- the comparisons are negated, so that no voltage that is not a number passes
    |>.addErrorIf (¬r.vbusVoltage ≥ r.dcBusUndervoltageTripLevel) ERROR_DC_BUS_UNDER_VOLTAGE
    |>.addErrorIf (¬r.vbusVoltage ≤ r.dcBusOvervoltageTripLevel) ERROR_DC_BUS_OVER_VOLTAGE
    |>.checkThermistors
    |>.motorDoChecks brake
    |>.checkEndstops
  (decide (s.error = 0), s)

end Checks

/-- `do_updates`, in which the estimators and the endstops may raise errors. -/
def doUpdates (errors : AxisError) (s : Thread F) : Bool × Thread F :=
  let s := s.addError errors
  (decide (s.error = 0), s)

/-- `watchdog_check` -/
def watchdogCheck (s : Thread F) : Bool × Thread F :=
  if !s.enableWatchdog then (true, s)
  -- explicit check here to ensure that we don't underflow back to UINT32_MAX
  else if 0 < s.watchdogCurrentValue then
    (true, { s with watchdogCurrentValue := s.watchdogCurrentValue - 1 })
  else (false, s.addError ERROR_WATCHDOG_TIMER_EXPIRED)

/-- Where a control loop is left to: idling is followed by arming the motor. -/
def leave (s : Thread F) : Thread F :=
  { s with point := if s.currentState = .IDLE then .arm else .procedure }

/-- The end of an iteration: `wait_for_current_meas`, and what follows it. -/
def waitForCurrentMeas (mainContinue signalled : Bool) (brake : BrakeCurrent) (s : Thread F) :
    Thread F :=
  if !signalled then
    -- maybe the interrupt handler is dead
    let low := (safetyCriticalDisarmMotorPwm s.axisNum s.control.low).2
    leave ({ s with control := { s.control with low := updateBrakeCurrent brake low } }.addError
      ERROR_CURRENT_MEASUREMENT_TIMEOUT)
  else if !mainContinue then s.leave
  else { s with point := .whileCondition }

section Watchdog

variable [Mul F] [LT F] [DecidableLT F] [CFloat F]

/-- `current_meas_hz` -/
def currentMeasHz : Nat := 8000

/-- `get_watchdog_reset` -/
def getWatchdogReset (watchdogTimeout : F) : BitVec 32 :=
  BitVec.ofInt 32 (CFloat.toInt
    (stdClamp watchdogTimeout (CFloat.ofNat 0) (CFloat.ofNat ((2 ^ 32 - 1) / (currentMeasHz + 1)))
      * CFloat.ofNat currentMeasHz))

/-- `watchdog_feed` -/
def watchdogFeed (s : Thread F) : Thread F :=
  { s with watchdogCurrentValue := getWatchdogReset s.watchdogTimeout }

end Watchdog

/-- `clear_errors`, as far as it concerns the axis and its motor. -/
def clearErrors (s : Thread F) : Thread F :=
  { s with
    control := { s.control with
      low := s.control.low.updateMotor s.axisNum fun motor => { motor with error := 0 } }
    error := 0 }

end Thread

/-! ## Steps -/

/-- What happens at an axis: a step of its thread, or of somebody else. -/
inductive AxisEvent (F : Type u) where
  /-- `motor_.arm()`, which waits for a measurement -/
  | arm (measured : Bool)
  /-- The state machine accepts a request, which leads to a state. -/
  | accept (state : AxisState)
  /-- The state machine goes to a state, as the one before has ended. -/
  | advance (state : AxisState)
  /-- Homing has found the endstop. -/
  | leaveEndstop
  | runControlLoop
  | whileCondition
  | doChecks (brake : BrakeCurrent)
  | doUpdates (errors : AxisError)
  | watchdogCheck
  /-- An update handler calls `enqueue_modulation_timings`. -/
  | enqueueModulationTimings (svm : Option Timings) (brake : BrakeCurrent)
  /-- An update handler returns. -/
  | updateHandler (mainContinue : Bool)
  | waitForCurrentMeas (signalled : Bool) (brake : BrakeCurrent)
  /-- `motor_.set_error`, by a procedure or by an update handler -/
  | setMotorError (error : MotorError) (brake : BrakeCurrent)
  | raise (errors : AxisError)
  | clearErrors
  | request (state : AxisState)
  | watchdogFeed
  | measure (readings : Readings F)
  | configureWatchdog (enable : Bool) (timeout : F)
  /-- An interrupt, or the thread of the other axis. -/
  | interrupt (e : ControlEvent)

namespace Thread

variable [Add F] [Mul F] [LT F] [DecidableLT F] [LE F] [DecidableLE F] [CFloat F]

/-- A step, if it can be taken. -/
def step (s : Thread F) : AxisEvent F → Option (Thread F)
  | .arm measured =>
    if s.point = .arm then
      some { s.addErrorIf (measured = false) ERROR_CURRENT_MEASUREMENT_TIMEOUT with
        control := s.control.step (.arm s.axisNum measured)
        point := .procedure }
    else none
  | .accept state =>
    if s.point = .procedure ∧ s.requestedState ≠ .UNDEFINED then
      some { s with
        requestedState := .UNDEFINED
        error := s.error &&& ~~~ERROR_INVALID_STATE
        currentState := state }
    else none
  | .advance state =>
    if s.point = .procedure then some { s with currentState := state } else none
  | .leaveEndstop =>
    if s.point = .procedure then
      some { s with error := s.error &&& ~~~ERROR_MIN_ENDSTOP_PRESSED }
    else none
  | .runControlLoop =>
    if s.point = .procedure then
      some { s with
        -- `run_idle_loop` disarms the motor
        control := if s.currentState = .IDLE then s.control.step (.disarm s.axisNum) else s.control
        point := .whileCondition }
    else none
  | .whileCondition =>
    if s.point = .whileCondition then
      some (if s.requestedState = .UNDEFINED then { s with point := .doChecks } else s.leave)
    else none
  | .doChecks brake =>
    if s.point = .doChecks then
      some { (s.doChecks brake).2 with point := .doUpdates (s.doChecks brake).1 }
    else none
  | .doUpdates errors =>
    match s.point with
    | .doUpdates checksOk =>
      some { (s.doUpdates errors).2 with
        point := .watchdogCheck checksOk (s.doUpdates errors).1 }
    | _ => none
  | .watchdogCheck =>
    match s.point with
    | .watchdogCheck checksOk updatesOk =>
      let (watchdogOk, s) := s.watchdogCheck
      -- it's not useful to quit idle since that is the safe action
      some (if !(checksOk && updatesOk && watchdogOk) ∧ s.currentState ≠ .IDLE then s.leave
        else { s with point := .updateHandler })
    | _ => none
  | .enqueueModulationTimings svm brake =>
    -- the update handler of idle does nothing
    if s.point = .updateHandler ∧ s.currentState ≠ .IDLE then
      some { s.addErrorIf (svm = none) ERROR_MOTOR_FAILED with
        control := s.control.step (.enqueueModulationTimings s.axisNum svm brake) }
    else none
  | .updateHandler mainContinue =>
    if s.point = .updateHandler ∧ (s.currentState = .IDLE → mainContinue = true) then
      some { s with
        loopCounter := s.loopCounter + 1
        point := .waitForCurrentMeas mainContinue }
    else none
  | .waitForCurrentMeas signalled brake =>
    match s.point with
    | .waitForCurrentMeas mainContinue =>
      some (s.waitForCurrentMeas mainContinue signalled brake)
    | _ => none
  | .setMotorError error brake => some (s.setMotorError error brake)
  | .raise errors => some (s.addError errors)
  | .clearErrors => some s.clearErrors
  | .request state => some { s with requestedState := state }
  | .watchdogFeed => some s.watchdogFeed
  | .measure readings => some { s with readings }
  | .configureWatchdog enable timeout =>
    some { s with enableWatchdog := enable, watchdogTimeout := timeout }
  | .interrupt e =>
    if e.OfThread s.axisNum then none else some { s with control := s.control.step e }

abbrev Steps (s : Thread F) (e : AxisEvent F) (t : Thread F) : Prop := s.step e = some t

end Thread

/-! ## What the parts of an iteration leave alone -/

namespace Thread

section Parts

variable {s : Thread F} {errors : AxisError} {brake : BrakeCurrent} {b : Nat}

/-- What neither errors nor checks change. -/
def frame (s : Thread F) : Fin axisCount × ThreadPoint × AxisState × Bool × BitVec 32 :=
  (s.axisNum, s.point, s.currentState, s.enableWatchdog, s.watchdogCurrentValue)

@[simp] theorem frame_addError : (s.addError errors).frame = s.frame := rfl

@[simp] theorem frame_addErrorIf (condition : Prop) [Decidable condition] :
    (s.addErrorIf condition errors).frame = s.frame := by
  unfold addErrorIf
  split <;> rfl

@[simp] theorem frame_setMotorError (error : MotorError) (brake : BrakeCurrent) :
    (s.setMotorError error brake).frame = s.frame := rfl

@[simp] theorem readings_addErrorIf (condition : Prop) [Decidable condition] :
    (s.addErrorIf condition errors).readings = s.readings := by
  unfold addErrorIf
  split <;> rfl

@[simp] theorem control_addErrorIf (condition : Prop) [Decidable condition] :
    (s.addErrorIf condition errors).control = s.control := by
  unfold addErrorIf
  split <;> rfl

@[simp] theorem point_addErrorIf (condition : Prop) [Decidable condition] :
    (s.addErrorIf condition errors).point = s.point := by
  unfold addErrorIf
  split <;> rfl

@[simp] theorem currentState_addErrorIf (condition : Prop) [Decidable condition] :
    (s.addErrorIf condition errors).currentState = s.currentState := by
  unfold addErrorIf
  split <;> rfl

@[simp] theorem axisNum_addErrorIf (condition : Prop) [Decidable condition] :
    (s.addErrorIf condition errors).axisNum = s.axisNum := by
  unfold addErrorIf
  split <;> rfl

theorem hasError_addError (h : s.error.getLsbD b = true) :
    (s.addError errors).error.getLsbD b = true := by
  simp [addError, h]

theorem hasError_addErrorIf (h : s.error.getLsbD b = true) (condition : Prop)
    [Decidable condition] : (s.addErrorIf condition errors).error.getLsbD b = true := by
  unfold addErrorIf
  split
  · exact hasError_addError h
  · exact h

theorem addError_ne_zero (herrors : errors ≠ 0) : (s.addError errors).error ≠ 0 := fun hzero =>
  herrors (BitVec.or_eq_zero_iff.mp hzero).2

theorem addErrorIf_eq_zero {condition : Prop} [Decidable condition] (herrors : errors ≠ 0) :
    (s.addErrorIf condition errors).error = 0 ↔ s.error = 0 ∧ ¬condition := by
  unfold addErrorIf
  split_ifs with h
  · exact iff_of_false (addError_ne_zero herrors) fun hand => hand.2 h
  · exact (and_iff_left h).symm

@[simp] theorem frame_motorDoChecks : (s.motorDoChecks brake).frame = s.frame := by
  unfold motorDoChecks
  split
  · rfl
  · rfl

@[simp] theorem readings_motorDoChecks : (s.motorDoChecks brake).readings = s.readings := by
  unfold motorDoChecks
  split
  · rfl
  · rfl

@[simp] theorem currentState_motorDoChecks :
    (s.motorDoChecks brake).currentState = s.currentState := by
  have hframe : (s.motorDoChecks brake).frame = s.frame := frame_motorDoChecks
  exact congrArg (fun frame => frame.2.2.1) hframe

theorem hasError_motorDoChecks (h : s.error.getLsbD b = true) :
    (s.motorDoChecks brake).error.getLsbD b = true := by
  unfold motorDoChecks
  split
  · exact hasError_addError h
  · exact h

theorem motorDoChecks_eq_zero :
    (s.motorDoChecks brake).error = 0 ↔ s.error = 0 ∧ s.readings.nFault = true := by
  have hflag : ERROR_MOTOR_FAILED ≠ 0 := by decide
  unfold motorDoChecks
  split_ifs with h
  · refine iff_of_false (addError_ne_zero hflag) fun hand => ?_
    rw [hand.2] at h
    cases h
  · exact (and_iff_left (by simpa using h)).symm

@[simp] theorem frame_checkEndstops : s.checkEndstops.frame = s.frame := by
  unfold checkEndstops
  dsimp only
  split_ifs
  · rfl
  · rfl
  · rfl

@[simp] theorem control_checkEndstops : s.checkEndstops.control = s.control := by
  unfold checkEndstops
  dsimp only
  split_ifs
  · rfl
  · rfl
  · rfl

theorem hasError_checkEndstops (h : s.error.getLsbD b = true) :
    s.checkEndstops.error.getLsbD b = true := by
  unfold checkEndstops
  dsimp only
  split_ifs
  · exact hasError_addError h
  · exact hasError_addError h
  · exact h

/-- Neither endstop that is enabled is pressed. -/
def EndstopsReleased (r : Readings F) : Prop :=
  ¬(r.minEndstopEnabled ∧ r.minEndstopState) ∧ ¬(r.maxEndstopEnabled ∧ r.maxEndstopState)

theorem checkEndstops_eq_zero : s.checkEndstops.error = 0 ↔
    s.error = 0 ∧ (s.currentState ≠ .HOMING → EndstopsReleased s.readings) := by
  have hmin : ERROR_MIN_ENDSTOP_PRESSED ≠ 0 := by decide
  have hmax : ERROR_MAX_ENDSTOP_PRESSED ≠ 0 := by decide
  unfold checkEndstops EndstopsReleased
  dsimp only
  split_ifs with hpressed hpressed'
  · exact iff_of_false (addError_ne_zero hmin) fun hand =>
      (hand.2 hpressed.2.2).1 ⟨hpressed.1, hpressed.2.1⟩
  · exact iff_of_false (addError_ne_zero hmax) fun hand =>
      (hand.2 hpressed'.2.2).2 ⟨hpressed'.1, hpressed'.2.1⟩
  · refine (and_iff_left fun hstate => ⟨?_, ?_⟩).symm
    · exact fun h => hpressed ⟨h.1, h.2, hstate⟩
    · exact fun h => hpressed' ⟨h.1, h.2, hstate⟩

theorem leave_point (s : Thread F) : s.leave.point = .arm ∨ s.leave.point = .procedure := by
  unfold leave
  split_ifs
  · exact .inl rfl
  · exact .inr rfl

theorem control_watchdogCheck :
    s.watchdogCheck.2.axisNum = s.axisNum ∧ s.watchdogCheck.2.control = s.control := by
  unfold watchdogCheck
  split_ifs
  · exact ⟨rfl, rfl⟩
  · exact ⟨rfl, rfl⟩
  · exact ⟨rfl, rfl⟩

theorem currentState_watchdogCheck : s.watchdogCheck.2.currentState = s.currentState := by
  unfold watchdogCheck
  split_ifs
  · rfl
  · rfl
  · rfl

theorem hasError_watchdogCheck (herror : s.error.getLsbD b = true) :
    s.watchdogCheck.2.error.getLsbD b = true := by
  unfold watchdogCheck
  split_ifs
  · exact herror
  · exact herror
  · exact hasError_addError herror

end Parts

section Checks

variable [Add F] [LE F] [DecidableLE F] [CFloat F] {s : Thread F} {brake : BrakeCurrent} {b : Nat}

@[simp] theorem frame_checkThermistors : s.checkThermistors.frame = s.frame := by
  simp only [checkThermistors, frame_addErrorIf]
  rfl

@[simp] theorem currentState_checkThermistors :
    s.checkThermistors.currentState = s.currentState :=
  congrArg (fun frame => frame.2.2.1) (frame_checkThermistors (s := s))

@[simp] theorem nFault_checkThermistors :
    s.checkThermistors.readings.nFault = s.readings.nFault := by
  simp [checkThermistors]

@[simp] theorem endstopsReleased_checkThermistors :
    EndstopsReleased s.checkThermistors.readings ↔ EndstopsReleased s.readings := by
  simp [checkThermistors, EndstopsReleased]

theorem hasError_checkThermistors (h : s.error.getLsbD b = true) :
    s.checkThermistors.error.getLsbD b = true := by
  unfold checkThermistors
  dsimp only
  refine hasError_addErrorIf (hasError_addErrorIf ?_ _) _
  exact h

theorem thermistor_doChecks_eq_false {t : Thermistor F} : t.doChecks.1 = false ↔ t.TooHot := by
  by_cases h : t.TooHot
  · exact iff_of_true (congrArg Prod.fst (if_pos h)) h
  · refine iff_of_false (fun hfalse => ?_) h
    rw [Thermistor.doChecks, if_neg h] at hfalse
    cases hfalse

theorem checkThermistors_eq_zero : s.checkThermistors.error = 0 ↔
    s.error = 0 ∧ ¬s.readings.fetThermistor.TooHot ∧ ¬s.readings.motorThermistor.TooHot := by
  have hflag : ERROR_OVER_TEMP ≠ 0 := by decide
  simp only [checkThermistors, addErrorIf_eq_zero hflag, thermistor_doChecks_eq_false, and_assoc]

@[simp] theorem frame_doChecks : (s.doChecks brake).2.frame = s.frame := by
  simp [doChecks]

theorem axisNum_doChecks (brake : BrakeCurrent) : (s.doChecks brake).2.axisNum = s.axisNum := by
  have hframe : (s.doChecks brake).2.frame = s.frame := frame_doChecks
  exact congrArg Prod.fst hframe

@[simp] theorem control_checkThermistors : s.checkThermistors.control = s.control := by
  simp [checkThermistors]

@[simp] theorem axisNum_checkThermistors : s.checkThermistors.axisNum = s.axisNum :=
  congrArg Prod.fst (frame_checkThermistors (s := s))

/-- The checks only touch the motor if its gate driver reports a fault. -/
theorem control_doChecks (brake : BrakeCurrent) :
    (s.doChecks brake).2.control = s.control ∨
      (s.doChecks brake).2.control =
        s.control.step (.setError s.axisNum .ERROR_DRV_FAULT brake) := by
  simp only [doChecks, control_checkEndstops]
  unfold motorDoChecks
  split
  · right
    simp [setMotorError, Control.step]
  · left
    simp

theorem currentState_doChecks (brake : BrakeCurrent) :
    (s.doChecks brake).2.currentState = s.currentState := by
  have hframe : (s.doChecks brake).2.frame = s.frame := frame_doChecks
  exact congrArg (fun frame => frame.2.2.1) hframe

theorem hasError_doChecks (h : s.error.getLsbD b = true) :
    (s.doChecks brake).2.error.getLsbD b = true := by
  unfold doChecks
  dsimp only
  refine hasError_checkEndstops (hasError_motorDoChecks (hasError_checkThermistors ?_))
  exact hasError_addErrorIf (hasError_addErrorIf (hasError_addErrorIf
    (hasError_addErrorIf h _) _) _) _

/-- Nothing is wrong of what the checks look at. -/
structure Healthy (s : Thread F) : Prop where
  brakeResistor : s.control.low.brakeResistorArmed = true
  motor : s.currentState ≠ .IDLE → (s.control.low.motors s.axisNum).armedState ≠ .DISARMED
  undervoltage : s.readings.vbusVoltage ≥ s.readings.dcBusUndervoltageTripLevel
  overvoltage : s.readings.vbusVoltage ≤ s.readings.dcBusOvervoltageTripLevel
  fetThermistor : ¬s.readings.fetThermistor.TooHot
  motorThermistor : ¬s.readings.motorThermistor.TooHot
  gateDriver : s.readings.nFault = true
  endstops : s.currentState ≠ .HOMING → EndstopsReleased s.readings

/-- The checks succeed exactly on a healthy device without an error. -/
theorem doChecks_iff : (s.doChecks brake).1 = true ↔ s.error = 0 ∧ s.Healthy := by
  have hbrake : ERROR_BRAKE_RESISTOR_DISARMED ≠ 0 := by decide
  have hmotor : ERROR_MOTOR_DISARMED ≠ 0 := by decide
  have hunder : ERROR_DC_BUS_UNDER_VOLTAGE ≠ 0 := by decide
  have hover : ERROR_DC_BUS_OVER_VOLTAGE ≠ 0 := by decide
  simp only [doChecks, decide_eq_true_eq, checkEndstops_eq_zero, motorDoChecks_eq_zero,
    checkThermistors_eq_zero, addErrorIf_eq_zero hbrake, addErrorIf_eq_zero hmotor,
    addErrorIf_eq_zero hunder, addErrorIf_eq_zero hover, currentState_motorDoChecks,
    currentState_checkThermistors, currentState_addErrorIf, readings_motorDoChecks,
    nFault_checkThermistors, endstopsReleased_checkThermistors, readings_addErrorIf, not_not]
  constructor
  · rintro ⟨⟨⟨⟨⟨⟨⟨herror, h1⟩, h2⟩, h3⟩, h4⟩, h5, h6⟩, h7⟩, h8⟩
    exact ⟨herror, ⟨by simpa using h1, fun hstate hdisarmed => h2 ⟨hstate, hdisarmed⟩,
      h3, h4, h5, h6, h7, h8⟩⟩
  · rintro ⟨herror, h⟩
    exact ⟨⟨⟨⟨⟨⟨⟨herror, by simp [h.brakeResistor]⟩, fun hand => h.motor hand.1 hand.2⟩,
      h.undervoltage⟩, h.overvoltage⟩, h.fetThermistor, h.motorThermistor⟩, h.gateDriver⟩,
      h.endstops⟩

end Checks

/-! ## What a step does -/

section Stepped

variable [Add F] [Mul F] [LT F] [DecidableLT F] [LE F] [DecidableLE F] [CFloat F]
  {s t : Thread F} {e : AxisEvent F}

/-- What a step leads to, with the branches of the source apart. -/
inductive Stepped (s : Thread F) : AxisEvent F → Thread F → Prop where
  | arm {measured : Bool} :
      Stepped s (.arm measured)
        { s.addErrorIf (measured = false) ERROR_CURRENT_MEASUREMENT_TIMEOUT with
          control := s.control.step (.arm s.axisNum measured)
          point := .procedure }
  | accept {state : AxisState} (hpoint : s.point = .procedure) :
      Stepped s (.accept state)
        { s with
          requestedState := .UNDEFINED
          error := s.error &&& ~~~ERROR_INVALID_STATE
          currentState := state }
  | advance {state : AxisState} (hpoint : s.point = .procedure) :
      Stepped s (.advance state) { s with currentState := state }
  | leaveEndstop (hpoint : s.point = .procedure) :
      Stepped s .leaveEndstop { s with error := s.error &&& ~~~ERROR_MIN_ENDSTOP_PRESSED }
  | idles (hidle : s.currentState = .IDLE) :
      Stepped s .runControlLoop
        { s with control := s.control.step (.disarm s.axisNum), point := .whileCondition }
  | runs : Stepped s .runControlLoop { s with point := .whileCondition }
  | goesOn : Stepped s .whileCondition { s with point := .doChecks }
  | requested : Stepped s .whileCondition s.leave
  | doChecks {brake : BrakeCurrent} :
      Stepped s (.doChecks brake)
        { (s.doChecks brake).2 with point := .doUpdates (s.doChecks brake).1 }
  | doUpdates {errors : AxisError} {checksOk : Bool} (hpoint : s.point = .doUpdates checksOk) :
      Stepped s (.doUpdates errors)
        { (s.doUpdates errors).2 with point := .watchdogCheck checksOk (s.doUpdates errors).1 }
  | givesUp : Stepped s .watchdogCheck s.watchdogCheck.2.leave
  | passes {checksOk updatesOk : Bool} (hpoint : s.point = .watchdogCheck checksOk updatesOk)
      (hok : s.currentState ≠ .IDLE →
        checksOk = true ∧ updatesOk = true ∧ s.watchdogCheck.1 = true) :
      Stepped s .watchdogCheck { s.watchdogCheck.2 with point := .updateHandler }
  | enqueueModulationTimings {svm : Option Timings} {brake : BrakeCurrent}
      (hpoint : s.point = .updateHandler) (hidle : s.currentState ≠ .IDLE) :
      Stepped s (.enqueueModulationTimings svm brake)
        { s.addErrorIf (svm = none) ERROR_MOTOR_FAILED with
          control := s.control.step (.enqueueModulationTimings s.axisNum svm brake) }
  | updateHandler {mainContinue : Bool} :
      Stepped s (.updateHandler mainContinue)
        { s with loopCounter := s.loopCounter + 1, point := .waitForCurrentMeas mainContinue }
  | timesOut {brake : BrakeCurrent} :
      Stepped s (.waitForCurrentMeas false brake)
        (leave ({ s with
          control := { s.control with
            low :=
              updateBrakeCurrent brake (safetyCriticalDisarmMotorPwm s.axisNum s.control.low).2 }
          }.addError ERROR_CURRENT_MEASUREMENT_TIMEOUT))
  | ends {brake : BrakeCurrent} : Stepped s (.waitForCurrentMeas true brake) s.leave
  | repeats {brake : BrakeCurrent} :
      Stepped s (.waitForCurrentMeas true brake) { s with point := .whileCondition }
  | setMotorError {error : MotorError} {brake : BrakeCurrent} :
      Stepped s (.setMotorError error brake) (s.setMotorError error brake)
  | raise {errors : AxisError} : Stepped s (.raise errors) (s.addError errors)
  | clearErrors : Stepped s .clearErrors s.clearErrors
  | request {state : AxisState} : Stepped s (.request state) { s with requestedState := state }
  | watchdogFeed : Stepped s .watchdogFeed s.watchdogFeed
  | measure {readings : Readings F} : Stepped s (.measure readings) { s with readings }
  | configureWatchdog {enable : Bool} {timeout : F} :
      Stepped s (.configureWatchdog enable timeout)
        { s with enableWatchdog := enable, watchdogTimeout := timeout }
  | interrupt {e : ControlEvent} (hother : ¬e.OfThread s.axisNum) :
      Stepped s (.interrupt e) { s with control := s.control.step e }

theorem stepped (h : Steps s e t) : Stepped s e t := by
  cases e with
  | setMotorError | raise | clearErrors | request | watchdogFeed | measure | configureWatchdog =>
    cases h
    constructor
  | runControlLoop =>
    simp only [Steps, step] at h
    split at h
    · cases h
      split
      next hidle => exact .idles hidle
      next => exact .runs
    · cases h
  | whileCondition =>
    simp only [Steps, step] at h
    split at h
    · cases h
      split
      · exact .goesOn
      · exact .requested
    · cases h
  | watchdogCheck =>
    simp only [Steps, step] at h
    split at h
    next checksOk updatesOk hpoint =>
      cases h
      split
      · exact .givesUp
      next hok =>
        refine .passes hpoint ?_
        intro hidle
        rw [currentState_watchdogCheck] at hok
        simpa [hidle, and_assoc] using hok
    next => cases h
  | waitForCurrentMeas signalled brake =>
    simp only [Steps, step] at h
    split at h
    · cases h
      unfold waitForCurrentMeas
      cases signalled with
      | false => exact .timesOut
      | true =>
        rw [if_neg (by decide)]
        split
        · exact .ends
        · exact .repeats
    · cases h
  | doUpdates errors =>
    simp only [Steps, step] at h
    split at h
    next checksOk hpoint =>
      cases h
      exact .doUpdates hpoint
    next => cases h
  | enqueueModulationTimings svm brake =>
    simp only [Steps, step] at h
    split at h
    next hask =>
      cases h
      exact .enqueueModulationTimings hask.1 hask.2
    next => cases h
  | accept state =>
    simp only [Steps, step] at h
    split at h
    next hask =>
      cases h
      exact .accept hask.1
    next => cases h
  | advance | leaveEndstop =>
    simp only [Steps, step] at h
    split at h
    next hpoint =>
      cases h
      constructor
      exact hpoint
    next => cases h
  | arm | doChecks | updateHandler =>
    simp only [Steps, step] at h
    split at h
    · cases h
      constructor
    · cases h
  | interrupt e =>
    simp only [Steps, step] at h
    split at h
    · cases h
    next hother =>
      cases h
      exact .interrupt hother

end Stepped

end Thread

end WODrive.Axis
