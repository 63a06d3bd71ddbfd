import WODrive.Axis.StateMachine
import WODrive.Controller.Frame
import WODrive.Controller.Lookup
import WODrive.Library.EventLoop

/-!
# Homing (MotorControl/axis.cpp, axis.hpp)

`Axis::run_homing` drives towards the min endstop in one control loop and goes to the position
0 in another. `run_control_loop` is left for many reasons and does not tell which: `Exit`.
A `Sample` is what an iteration finds and what happens during it.

- `prepareSearch_cases`, `runHoming_of_ok`: how homing returns;
- `controlModes_restored_iff`: when it restores the modes of the controller;
- `homed_iff`: when it only claims to be homed if it is.
-/

namespace WODrive.Axis

universe u

variable {K : Type u} [Field K] [LinearOrder K] [FloorRing K]

def ERROR_CURRENT_MEASUREMENT_TIMEOUT : AxisError := 0x8
def ERROR_WATCHDOG_TIMER_EXPIRED : AxisError := 0x800
def ERROR_MIN_ENDSTOP_PRESSED : AxisError := 0x1000
def ERROR_HOMING_WITHOUT_ENDSTOP : AxisError := 0x20000

/-- What `run_homing` reads and writes of its axis. The `error_` of the axis is among the
variables of the controller. -/
structure Homing (K : Type u) where
  controller : Controller K
  /-- `min_endstop_.config_.enabled` and `min_endstop_.config_.offset` -/
  minEndstopEnabled : Bool
  minEndstopOffset : K
  isHomed : Bool
  /-- the last count that `encoder_.set_linear_count` was called with -/
  linearCount : Option (BitVec 32)

namespace Homing

omit [Field K] [LinearOrder K] [FloorRing K]

def error (a : Homing K) : AxisError := a.controller.axisError

/-- `error_ |= errors` -/
def addError (errors : AxisError) (a : Homing K) : Homing K :=
  { a with controller := { a.controller with axisError := a.controller.axisError ||| errors } }

@[simp] theorem addError_zero (a : Homing K) : a.addError 0 = a := by
  simp [addError]

@[simp] theorem error_addError (errors : AxisError) (a : Homing K) :
    (a.addError errors).error = a.error ||| errors := rfl

end Homing

/-- An iteration of a control loop: what it finds and what happens during it. -/
structure Sample (K : Type u) where
  requestedState : AxisState
  /-- the errors that `do_checks` and `do_updates` set -/
  checkErrors : AxisError
  updateErrors : AxisError
  /-- `watchdog_check` -/
  watchdogExpired : Bool
  /-- what `controller_.update` reads -/
  inputs : Inputs K
  /-- whether `motor_.update` returns true, and the errors that it sets -/
  motorOk : Bool
  motorErrors : AxisError
  /-- `min_endstop_.get_state()` -/
  endstopState : Bool
  /-- the errors that are set while it waits for the current measurement -/
  waitErrors : AxisError
  /-- the current measurement arrives in time -/
  currentMeas : Bool

/-- Why a control loop is left. -/
inductive Exit where
  | request
  /-- the checks, the updates or the watchdog -/
  | notOk
  | controllerFailed
  | motorFailed
  | currentMeasTimeout
  /-- the update handler has done what it is for -/
  | finished
deriving DecidableEq, Repr

/-! ## The control loops -/

/-- The update handler of a loop that is to run until `finished`: why it returns false, unless
it returns true. -/
def updateHandler (sqrtf : K → K) (finished : Sample K → Controller K → Bool) (s : Sample K)
    (a : Homing K) : Option Exit × Homing K :=
  match Controller.update sqrtf s.inputs a.controller with
  | .error c =>
    (some .controllerFailed,
      { a with controller := c }.addError Controller.ERROR_CONTROLLER_FAILED)
  | .ok (_, c) =>
    let a := { a with controller := c }.addError s.motorErrors
    if !s.motorOk then (some .motorFailed, a)
    else if finished s c then (some .finished, a)
    else (none, a)

/-- `do_checks`, `do_updates` and `watchdog_check`: whether all of them are well. -/
def checkAndUpdate (s : Sample K) (a : Homing K) : Bool × Homing K :=
  let a := a.addError s.checkErrors
  let checksOk := decide (a.error = 0)
  let a := a.addError s.updateErrors
  let updatesOk := decide (a.error = 0)
  let a := if s.watchdogExpired then a.addError ERROR_WATCHDOG_TIMER_EXPIRED else a
  (checksOk && updatesOk && !s.watchdogExpired, a)

/-- An iteration of `run_control_loop`. -/
def controlIteration (currentState : AxisState)
    (handler : Sample K → Homing K → Option Exit × Homing K) (s : Sample K) (a : Homing K) :
    Option Exit × Homing K :=
  if s.requestedState ≠ .UNDEFINED then (some .request, a)
  else
    let (ok, a) := checkAndUpdate s a
    -- it's not useful to quit idle
    if !ok ∧ currentState ≠ .IDLE then (some .notOk, a)
    else
      -- quitting is deferred until after the wait
      let (exit, a) := handler s a
      let a := a.addError s.waitErrors
      if !s.currentMeas then
        (some .currentMeasTimeout, a.addError ERROR_CURRENT_MEASUREMENT_TIMEOUT)
      else (exit, a)

/-- A control loop of `run_homing`, which runs in the state `AXIS_STATE_HOMING`. -/
def runControlLoop (sqrtf : K → K) (finished : Sample K → Controller K → Bool) :
    List (Sample K) → Homing K → Option (Exit × Homing K × List (Sample K)) :=
  eventLoop (controlIteration .HOMING (updateHandler sqrtf finished))

def endstopPressed (s : Sample K) (_ : Controller K) : Bool := s.endstopState

def trajectoryDone (_ : Sample K) (c : Controller K) : Bool := c.trajectoryDone

/-! ## Homing -/

/-- The modes and inputs to drive towards the endstop. -/
def startSearch (a : Homing K) : Homing K :=
  { a with
    controller := { a.controller with
      config := { a.controller.config with
        controlMode := .VELOCITY_CONTROL
        inputMode := .VEL_RAMP }
      inputPos := 0
      inputPosUpdated := true
      inputVel := -a.controller.config.homingSpeed
      inputTorque := 0 }
    isHomed := false }

/-- What the position setpoint is initialized to, unless its source is null. -/
def initialSetpoint (i : Inputs K) (c : Controller K) : Option K :=
  if c.config.circularSetpoints then
    c.posEstimateCircularSrc.map fun axis => (i.axes axis).posCircular
  else c.posEstimateLinearSrc.map fun axis => (i.axes axis).posEstimate

/-- What happens between the loops: the endstop becomes the origin, and the goal is 0. -/
def startReturn (i : Inputs K) (a : Homing K) : Homing K :=
  let a := { a with controller := { a.controller with
    -- we deliberately drove into the endstop
    axisError := a.controller.axisError &&& ~~~ERROR_MIN_ENDSTOP_PRESSED
    posSetpoint := a.minEndstopOffset
    velSetpoint := 0 } }
  { a with
    linearCount := some (BitVec.ofInt 32 (Controller.truncate (a.controller.posSetpoint * i.cpr)))
    controller := { a.controller with
      config := { a.controller.config with
        controlMode := .POSITION_CONTROL
        inputMode := .TRAP_TRAJ }
      inputPos := 0
      inputPosUpdated := true
      inputVel := 0
      inputTorque := 0 } }

/-- How `run_homing` returns. -/
structure Returned (K : Type u) where
  ok : Bool
  axis : Homing K
  /-- `is_homed` was set to true -/
  setHomed : Bool
  /-- why the loops were left, if they ran -/
  exits : Option (Exit × Exit)

/-- `return error_ |= errors, false` -/
def fail (errors : AxisError) (a : Homing K) : Returned K where
  ok := false
  axis := a.addError errors
  setHomed := false
  exits := none

/-- What follows the second loop. -/
def finish (storedControlMode : ControlMode) (storedInputMode : InputMode) (exits : Exit × Exit)
    (a : Homing K) : Returned K where
  ok := a.error = 0
  axis :=
    { a with
      controller := { a.controller with
        config := { a.controller.config with
          controlMode := storedControlMode
          inputMode := storedInputMode } }
      isHomed := true }
  setHomed := true
  exits := some exits

/-- `run_homing` before its loops, where the estimates are those of `i`: it returns, or enters
the first loop. -/
def prepareSearch (i : Inputs K) (a : Homing K) : Except (Returned K) (Homing K) :=
  if !a.minEndstopEnabled then .error (fail ERROR_HOMING_WITHOUT_ENDSTOP a)
  else
    let a := startSearch a
    let (selected, c) :=
      Controller.selectEncoder a.controller.config.loadEncoderAxis.toNat a.controller
    let a := { a with controller := c }
    if !selected then .error (fail Controller.ERROR_CONTROLLER_FAILED a)
    else
      match initialSetpoint i a.controller with
      | none => .error (fail Controller.ERROR_CONTROLLER_FAILED a)
      | some posSetpoint =>
        -- avoid any transient on startup, and integrator windup issues
        .ok { a with controller := { a.controller with
          posSetpoint := posSetpoint
          velIntegratorTorque := 0 } }

/-- `Axis::run_homing` with the iterations of its control loops, one loop after the other; `none`
if it has not returned after them. -/
def runHoming (sqrtf : K → K) (i : Inputs K) (samples : List (Sample K)) (a : Homing K) :
    Option (Returned K) :=
  let storedControlMode := a.controller.config.controlMode
  let storedInputMode := a.controller.config.inputMode
  match prepareSearch i a with
  | .error r => some r
  | .ok a => do
    let (searched, a, samples) ← runControlLoop sqrtf endstopPressed samples a
    let (returned, a, _) ← runControlLoop sqrtf trajectoryDone samples (startReturn i a)
    return finish storedControlMode storedInputMode (searched, returned) a

/-! ## How homing returns -/

section Returns

variable {sqrtf : K → K} {i : Inputs K} {samples : List (Sample K)} {a : Homing K}
  {r : Returned K}

omit [Field K] [LinearOrder K] [FloorRing K] in
/-- An encoder that can be selected has estimates to start from. -/
theorem selectEncoder_of_lt {encoderNum : Nat} (h : encoderNum < axisCount) (i : Inputs K)
    (c : Controller K) :
    ∃ c' posSetpoint, Controller.selectEncoder encoderNum c = (true, c') ∧
      initialSetpoint i c' = some posSetpoint := by
  refine ⟨_, if c.config.circularSetpoints then (i.axes ⟨encoderNum, h⟩).posCircular
    else (i.axes ⟨encoderNum, h⟩).posEstimate, dif_pos h, ?_⟩
  unfold initialSetpoint
  split
  · rfl
  · rfl

omit [LinearOrder K] [FloorRing K] in
theorem prepareSearch_cases (i : Inputs K) (a : Homing K) :
    a.minEndstopEnabled = false ∧
        prepareSearch i a = .error (fail ERROR_HOMING_WITHOUT_ENDSTOP a) ∨
      a.minEndstopEnabled = true ∧ axisCount ≤ a.controller.config.loadEncoderAxis.toNat ∧
        prepareSearch i a =
          .error (fail Controller.ERROR_CONTROLLER_FAILED
            { startSearch a with
              controller := Controller.setError Controller.ERROR_INVALID_LOAD_ENCODER
                (startSearch a).controller }) ∨
      a.minEndstopEnabled = true ∧ a.controller.config.loadEncoderAxis.toNat < axisCount ∧
        ∃ start, prepareSearch i a = .ok start := by
  have hload : (startSearch a).controller.config.loadEncoderAxis =
    a.controller.config.loadEncoderAxis := rfl
  unfold prepareSearch
  cases henabled : a.minEndstopEnabled with
  | false => exact .inl ⟨rfl, rfl⟩
  | true =>
    rcases Nat.lt_or_ge a.controller.config.loadEncoderAxis.toNat axisCount with haxis | haxis
    · obtain ⟨c, posSetpoint, hselect, hinitial⟩ :=
        selectEncoder_of_lt haxis i (startSearch a).controller
      refine .inr (.inr ⟨rfl, haxis, ?_⟩)
      simp only [hload, hselect, hinitial]
      exact ⟨_, rfl⟩
    · have hselect : Controller.selectEncoder a.controller.config.loadEncoderAxis.toNat
          (startSearch a).controller = (false, _) := dif_neg haxis.not_gt
      refine .inr (.inl ⟨rfl, haxis, ?_⟩)
      simp only [hload, hselect]
      rfl

theorem runHoming_of_error {returned : Returned K} (hstart : prepareSearch i a = .error returned)
    (h : runHoming sqrtf i samples a = some r) : r = returned := by
  rw [runHoming, hstart] at h
  exact (Option.some.inj h).symm

theorem runHoming_of_ok {start : Homing K} (hstart : prepareSearch i a = .ok start)
    (h : runHoming sqrtf i samples a = some r) :
    ∃ searched a₁ rest returned a₂ rest',
      runControlLoop sqrtf endstopPressed samples start = some (searched, a₁, rest) ∧
        runControlLoop sqrtf trajectoryDone rest (startReturn i a₁) = some (returned, a₂, rest') ∧
        r = finish a.controller.config.controlMode a.controller.config.inputMode
          (searched, returned) a₂ := by
  rw [runHoming, hstart] at h
  obtain ⟨⟨searched, a₁, rest⟩, hsearch, h⟩ := Option.bind_eq_some_iff.mp h
  obtain ⟨⟨returned, a₂, rest'⟩, hreturn, h⟩ := Option.bind_eq_some_iff.mp h
  exact ⟨searched, a₁, rest, returned, a₂, rest', hsearch, hreturn, (Option.some.inj h).symm⟩

/-- **Modes restored.** Homing leaves the controller in the modes it found it in exactly if it
finds the endstop disabled, the load encoder valid, or the modes those it drives towards the
endstop in. -/
theorem controlModes_restored_iff (h : runHoming sqrtf i samples a = some r) :
    (r.axis.controller.config.controlMode = a.controller.config.controlMode ∧
        r.axis.controller.config.inputMode = a.controller.config.inputMode) ↔
      (a.minEndstopEnabled = false ∨ a.controller.config.loadEncoderAxis.toNat < axisCount ∨
        (a.controller.config.controlMode = .VELOCITY_CONTROL ∧
          a.controller.config.inputMode = .VEL_RAMP)) := by
  rcases prepareSearch_cases i a with ⟨hdisabled, hstart⟩ | ⟨henabled, haxis, hstart⟩ |
    ⟨henabled, haxis, start, hstart⟩
  · rw [runHoming_of_error hstart h]
    exact iff_of_true ⟨rfl, rfl⟩ (.inl hdisabled)
  · rw [runHoming_of_error hstart h]
    have hvalid : ¬a.controller.config.loadEncoderAxis.toNat < axisCount := haxis.not_gt
    rw [henabled]
    simp only [hvalid, false_or, Bool.true_eq_false]
    change ControlMode.VELOCITY_CONTROL = _ ∧ InputMode.VEL_RAMP = _ ↔ _
    rw [eq_comm, eq_comm (a := InputMode.VEL_RAMP)]
  · obtain ⟨_, _, _, _, _, _, -, -, rfl⟩ := runHoming_of_ok hstart h
    exact iff_of_true ⟨rfl, rfl⟩ (.inr (.inl haxis))

end Returns

/-- An axis that holds half a turn, with an endstop, and which of the encoders its load has. -/
def unhomed (loadEncoderAxis : BitVec 8) : Homing ℚ where
  controller := { Controller.atHalfTurn with
    config := { Controller.atHalfTurn.config with loadEncoderAxis } }
  minEndstopEnabled := true
  minEndstopOffset := 0
  isHomed := false
  linearCount := none

/-- An iteration in which nothing happens but that the axis is at its endstop, at 0. -/
def atEndstop : Sample ℚ where
  requestedState := .UNDEFINED
  checkErrors := 0
  updateErrors := 0
  watchdogExpired := false
  inputs :=
    { Controller.halfTurnInputs with
      axes := fun _ =>
        { posEstimate := 0
          posCircular := 0
          velEstimate := 0
          posEstimateValid := true
          velEstimateValid := true } }
  motorOk := true
  motorErrors := 0
  endstopState := true
  waitErrors := 0
  currentMeas := true

/-- One iteration at the endstop ends the first loop, two more the second, and the modes are those
from before. -/
theorem controlModes_restored_iff_atEndstop :
    ∃ r, runHoming id Controller.halfTurnInputs [atEndstop, atEndstop, atEndstop] (unhomed 0) =
        some r ∧ r.setHomed = true ∧
      r.axis.controller.config.controlMode = .POSITION_CONTROL ∧
        r.axis.controller.config.inputMode = .TRAP_TRAJ := by
  have hreturns : (runHoming id Controller.halfTurnInputs [atEndstop, atEndstop, atEndstop]
      (unhomed 0)).map Returned.setHomed = some true := by decide +kernel
  obtain ⟨r, hr, hset⟩ := Option.map_eq_some_iff.mp hreturns
  exact ⟨r, hr, hset, (controlModes_restored_iff hr).mpr (.inr (.inl (by decide)))⟩

/-- Without a valid load encoder the controller stays in the mode it drives towards the endstop
in. -/
theorem not_controlModes_restored :
    ∃ r, runHoming id Controller.halfTurnInputs [] (unhomed 255) = some r ∧
      ¬(r.axis.controller.config.controlMode = (unhomed 255).controller.config.controlMode ∧
        r.axis.controller.config.inputMode = (unhomed 255).controller.config.inputMode) :=
  ⟨_, rfl, fun h => nomatch h.1⟩

/-! ## What an iteration takes to go on -/

/-- Nothing in an iteration interferes: no request, no error so far, and the updates of the
controller and of the motor succeed. -/
structure Quiet (sqrtf : K → K) (a : Homing K) (s : Sample K) : Prop where
  requestedState : s.requestedState = .UNDEFINED
  error : a.error = 0
  checkErrors : s.checkErrors = 0
  updateErrors : s.updateErrors = 0
  watchdog : s.watchdogExpired = false
  update : ∃ out c, Controller.update sqrtf s.inputs a.controller = .ok (out, c)
  motorOk : s.motorOk = true
  currentMeas : s.currentMeas = true

/-- The motor and others set no error in an iteration. -/
def NoLateError (_ : Homing K) (s : Sample K) : Prop := s.motorErrors = 0 ∧ s.waitErrors = 0

section Iteration

variable {sqrtf : K → K} {a : Homing K} {s : Sample K} {finished : Sample K → Controller K → Bool}

omit [Field K] [LinearOrder K] [FloorRing K] in
/-- All are well exactly if there is no error before or in them. -/
theorem checkAndUpdate_ok_iff :
    (checkAndUpdate s a).1 = true ↔
      a.error = 0 ∧ s.checkErrors = 0 ∧ s.updateErrors = 0 ∧ s.watchdogExpired = false := by
  simp only [checkAndUpdate, Homing.error_addError, Bool.and_eq_true, decide_eq_true_eq,
    Bool.not_eq_true', BitVec.ofNat_eq_ofNat, BitVec.or_eq_zero_iff]
  tauto

omit [Field K] [LinearOrder K] [FloorRing K] in
theorem checkAndUpdate_of_ok (h : (checkAndUpdate s a).1 = true) :
    checkAndUpdate s a = (true, a) := by
  obtain ⟨-, hcheck, hupdate, hwatchdog⟩ := checkAndUpdate_ok_iff.mp h
  refine Prod.ext h ?_
  simp only [checkAndUpdate, hcheck, hupdate, hwatchdog, Homing.addError_zero]
  exact if_neg Bool.false_ne_true

/-- A quiet iteration leaves the loop only if the update handler has done what it is for. -/
theorem controlIteration_of_quiet (finished : Sample K → Controller K → Bool)
    (h : Quiet sqrtf a s) :
    ∃ out c, Controller.update sqrtf s.inputs a.controller = .ok (out, c) ∧
      controlIteration .HOMING (updateHandler sqrtf finished) s a =
        (if finished s c then some .finished else none,
          ({ a with controller := c }.addError s.motorErrors).addError s.waitErrors) := by
  obtain ⟨out, c, hupdate⟩ := h.update
  refine ⟨out, c, hupdate, ?_⟩
  have hok : checkAndUpdate s a = (true, a) :=
    checkAndUpdate_of_ok (checkAndUpdate_ok_iff.mpr
      ⟨h.error, h.checkErrors, h.updateErrors, h.watchdog⟩)
  have hhandler : updateHandler sqrtf finished s a =
      (if finished s c then some .finished else none,
        { a with controller := c }.addError s.motorErrors) := by
    simp only [updateHandler, hupdate, h.motorOk]
    cases finished s c with
    | true => rfl
    | false => rfl
  simp [controlIteration, h.requestedState, hok, hhandler, h.currentMeas]

/-- Any other iteration leaves the loop early. -/
theorem controlIteration_of_not_quiet (finished : Sample K → Controller K → Bool)
    (h : ¬Quiet sqrtf a s) :
    ∃ reason t, controlIteration .HOMING (updateHandler sqrtf finished) s a = (some reason, t) ∧
      reason ≠ .finished := by
  by_cases hrequest : s.requestedState = .UNDEFINED
  · cases hok : (checkAndUpdate s a).1 with
    | false =>
      rcases hcheck : checkAndUpdate s a with ⟨ok, a'⟩
      rw [hcheck] at hok
      change ok = false at hok
      exact ⟨.notOk, a', by simp [controlIteration, hrequest, hcheck, hok], nofun⟩
    | true =>
      have hcheck := checkAndUpdate_of_ok hok
      cases hmeas : s.currentMeas with
      | false =>
        exact ⟨.currentMeasTimeout, _, by simp [controlIteration, hrequest, hcheck, hmeas]; rfl,
          nofun⟩
      | true =>
        suffices hhandler : ∃ reason t,
            updateHandler sqrtf finished s a = (some reason, t) ∧ reason ≠ .finished by
          obtain ⟨reason, t, hhandler, hreason⟩ := hhandler
          exact ⟨reason, _, by simp [controlIteration, hrequest, hcheck, hmeas, hhandler]; rfl,
            hreason⟩
        unfold updateHandler
        cases hupdate : Controller.update sqrtf s.inputs a.controller with
        | error c => exact ⟨_, _, rfl, nofun⟩
        | ok r =>
          have hmotor : s.motorOk = false := by
            rw [Bool.eq_false_iff]
            intro hmotor
            obtain ⟨herror, hcheckErrors, hupdateErrors, hwatchdog⟩ := checkAndUpdate_ok_iff.mp hok
            exact h ⟨hrequest, herror, hcheckErrors, hupdateErrors, hwatchdog, ⟨r.1, r.2, hupdate⟩,
              hmotor, hmeas⟩
          exact ⟨.motorFailed, _, by simp [hmotor]; rfl, nofun⟩
  · exact ⟨.request, a, by simp [controlIteration, hrequest], nofun⟩

theorem quiet_of_go {t : Homing K}
    (h : controlIteration .HOMING (updateHandler sqrtf finished) s a = (none, t)) :
    Quiet sqrtf a s := by
  by_contra hquiet
  obtain ⟨reason, t', hleave, -⟩ := controlIteration_of_not_quiet finished hquiet
  rw [h] at hleave
  cases hleave

theorem finished_iff {t : Homing K} {reason : Exit}
    (h : controlIteration .HOMING (updateHandler sqrtf finished) s a = (some reason, t)) :
    reason = .finished ↔ Quiet sqrtf a s := by
  by_cases hquiet : Quiet sqrtf a s
  · refine iff_of_true ?_ hquiet
    obtain ⟨out, c, -, hquiet⟩ := controlIteration_of_quiet finished hquiet
    rw [hquiet] at h
    cases hfinished : finished s c with
    | true =>
      rw [hfinished] at h
      cases h
      rfl
    | false =>
      rw [hfinished] at h
      cases h
  · refine iff_of_false ?_ hquiet
    obtain ⟨reason', t', hleave, hreason⟩ := controlIteration_of_not_quiet finished hquiet
    rw [h] at hleave
    cases hleave
    exact hreason

/-- What a quiet iteration that leaves the second loop leaves behind. -/
theorem returned_of_quiet {t : Homing K} {reason : Exit} (hquiet : Quiet sqrtf a s)
    (h : controlIteration .HOMING (updateHandler sqrtf trajectoryDone) s a = (some reason, t)) :
    t.controller.trajectoryDone = true ∧ t.error = s.motorErrors ||| s.waitErrors := by
  obtain ⟨out, c, hupdate, hleave⟩ := controlIteration_of_quiet trajectoryDone hquiet
  rw [h] at hleave
  cases hdone : trajectoryDone s c with
  | true =>
    rw [hdone] at hleave
    cases hleave
    refine ⟨hdone, ?_⟩
    have herror : c.axisError = 0 := (Controller.axisError_update hupdate).trans hquiet.error
    show c.axisError ||| s.motorErrors ||| s.waitErrors = _
    rw [herror]
    exact congrArg (· ||| s.waitErrors) BitVec.zero_or
  | false =>
    rw [hdone] at hleave
    cases hleave

end Iteration

/-! ## Being homed -/

/-- The endstop was reached, and the move to the position 0 was completed without an error. -/
structure Homed (r : Returned K) : Prop where
  exits : r.exits = some (.finished, .finished)
  trajectoryDone : r.axis.controller.trajectoryDone = true
  error : r.axis.error = 0

/-- Nothing interferes with either loop, and no error comes up as the second is left. -/
def Undisturbed (sqrtf : K → K) (i : Inputs K) (samples : List (Sample K)) (start : Homing K) :
    Prop :=
  Throughout (controlIteration .HOMING (updateHandler sqrtf endstopPressed)) (Quiet sqrtf)
      (fun _ _ => True) samples start ∧
    ∀ searched a rest,
      runControlLoop sqrtf endstopPressed samples start = some (searched, a, rest) →
      Throughout (controlIteration .HOMING (updateHandler sqrtf trajectoryDone)) (Quiet sqrtf)
        NoLateError rest (startReturn i a)

section Homed

variable {sqrtf : K → K} {i : Inputs K} {samples rest : List (Sample K)} {a t : Homing K}
  {r : Returned K} {reason : Exit}

theorem searched_iff
    (h : runControlLoop sqrtf endstopPressed samples a = some (reason, t, rest)) :
    reason = .finished ↔
      Throughout (controlIteration .HOMING (updateHandler sqrtf endstopPressed)) (Quiet sqrtf)
        (fun _ _ => True) samples a := by
  refine eventLoop_iff (R := fun reason _ => reason = .finished) (fun _ _ _ => quiet_of_go) ?_ h
  intro s a t reason hleave
  rw [finished_iff hleave, and_true]

theorem returned_iff
    (h : runControlLoop sqrtf trajectoryDone samples a = some (reason, t, rest)) :
    (reason = .finished ∧ t.controller.trajectoryDone = true ∧ t.error = 0) ↔
      Throughout (controlIteration .HOMING (updateHandler sqrtf trajectoryDone)) (Quiet sqrtf)
        NoLateError samples a := by
  refine eventLoop_iff
    (R := fun reason t => reason = .finished ∧ t.controller.trajectoryDone = true ∧ t.error = 0)
    (fun _ _ _ => quiet_of_go) ?_ h
  intro s a t reason hleave
  rw [finished_iff hleave]
  refine and_congr_right fun hquiet => ?_
  obtain ⟨hdone, herror⟩ := returned_of_quiet hquiet hleave
  rw [hdone, herror, eq_self, true_and]
  exact BitVec.or_eq_zero_iff

/-- The flag is what was last set, or as it was where homing is refused. -/
theorem isHomed_eq (h : runHoming sqrtf i samples a = some r) :
    r.axis.isHomed = (r.setHomed || (!a.minEndstopEnabled && a.isHomed)) := by
  rcases prepareSearch_cases i a with ⟨hdisabled, hstart⟩ | ⟨henabled, haxis, hstart⟩ |
    ⟨henabled, haxis, start, hstart⟩
  · rw [runHoming_of_error hstart h, hdisabled]
    rfl
  · rw [runHoming_of_error hstart h, henabled]
    rfl
  · obtain ⟨_, _, _, _, _, _, -, -, rfl⟩ := runHoming_of_ok hstart h
    rfl

/-- **Homed.** `is_homed` is only set if the axis is homed, in a run that returns, exactly if the
loops are not entered or nothing interferes with them. -/
theorem homed_iff (h : runHoming sqrtf i samples a = some r) :
    (r.setHomed = true → Homed r) ↔
      (a.minEndstopEnabled = false ∨ axisCount ≤ a.controller.config.loadEncoderAxis.toNat ∨
        ∃ start, prepareSearch i a = .ok start ∧ Undisturbed sqrtf i samples start) := by
  rcases prepareSearch_cases i a with ⟨hdisabled, hstart⟩ | ⟨henabled, haxis, hstart⟩ |
    ⟨henabled, haxis, start, hstart⟩
  · rw [runHoming_of_error hstart h]
    exact iff_of_true nofun (.inl hdisabled)
  · rw [runHoming_of_error hstart h]
    exact iff_of_true nofun (.inr (.inl haxis))
  · obtain ⟨searched, a₁, rest, returned, a₂, rest', hsearch, hreturn, rfl⟩ :=
      runHoming_of_ok hstart h
    have hhomed : Homed (finish a.controller.config.controlMode a.controller.config.inputMode
        (searched, returned) a₂) ↔
        searched = .finished ∧ returned = .finished ∧
          a₂.controller.trajectoryDone = true ∧ a₂.error = 0 := by
      constructor
      · rintro ⟨hexits, hdone, herror⟩
        cases hexits
        exact ⟨rfl, rfl, hdone, herror⟩
      · rintro ⟨rfl, rfl, hdone, herror⟩
        exact ⟨rfl, hdone, herror⟩
    have hundisturbed : Undisturbed sqrtf i samples start ↔
        searched = .finished ∧ returned = .finished ∧
          a₂.controller.trajectoryDone = true ∧ a₂.error = 0 := by
      rw [searched_iff hsearch, returned_iff hreturn]
      refine and_congr_right fun _ => ⟨fun hrest => hrest _ _ _ hsearch, fun hrest => ?_⟩
      rintro searched' a₁' rest₁ hsearch'
      rw [hsearch] at hsearch'
      cases hsearch'
      exact hrest
    rw [henabled, hstart]
    simp only [Bool.true_eq_false, haxis.not_ge, false_or, Except.ok.injEq, exists_eq_left']
    rw [hundisturbed, ← hhomed]
    exact ⟨fun himp => himp rfl, fun hhomed _ => hhomed⟩

end Homed

/-- One iteration at the endstop ends the first loop, two more the second. -/
theorem homed_iff_atEndstop :
    ∃ r, runHoming id Controller.halfTurnInputs [atEndstop, atEndstop, atEndstop] (unhomed 0) =
        some r ∧
      ((r.setHomed = true → Homed r) ↔
        (true = false ∨ axisCount ≤ (0 : BitVec 8).toNat ∨
          ∃ start, prepareSearch Controller.halfTurnInputs (unhomed 0) = .ok start ∧
            Undisturbed id Controller.halfTurnInputs [atEndstop, atEndstop, atEndstop] start)) := by
  have hreturns : (runHoming id Controller.halfTurnInputs [atEndstop, atEndstop, atEndstop]
      (unhomed 0)).isSome = true := by decide +kernel
  obtain ⟨r, hr⟩ := Option.isSome_iff_exists.mp hreturns
  exact ⟨r, hr, homed_iff hr⟩

/-- A request to go idle ends both loops, and the axis claims to be homed. -/
theorem not_homed :
    ∃ r, runHoming id Controller.halfTurnInputs
        [{ atEndstop with requestedState := .IDLE }, { atEndstop with requestedState := .IDLE }]
        (unhomed 0) = some r ∧
      r.setHomed = true ∧ ¬Homed r :=
  ⟨_, rfl, rfl, fun h => nomatch h.exits⟩

end WODrive.Axis
