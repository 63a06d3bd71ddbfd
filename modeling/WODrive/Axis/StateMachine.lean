import Mathlib.Data.List.Rotate

/-!
# The state machine of an axis (MotorControl/axis.cpp)

`Axis::run_state_machine_loop` works off a chain of states. A request replaces the
chain; each iteration then runs the procedure of the state at its front, and goes to
the next state if the procedure succeeds and to idle if it does not.

The procedures run for as long as they like, and everything but the chain can be
changed meanwhile, by them or by other threads: an `Input` says what the loop finds
at its top (`vars`) and what each procedure does to the variables it is started with.
`iterate` is one iteration and leaves a `Record` of what happened in it.
-/

namespace WODrive.Axis

/-- `Axis::AxisState`. Requests are written as integers, so there are others than the
named ones. -/
inductive AxisState where
  | UNDEFINED
  | IDLE
  | STARTUP_SEQUENCE
  | FULL_CALIBRATION_SEQUENCE
  | MOTOR_CALIBRATION
  | SENSORLESS_CONTROL
  | ENCODER_INDEX_SEARCH
  | ENCODER_OFFSET_CALIBRATION
  | CLOSED_LOOP_CONTROL
  | LOCKIN_SPIN
  | ENCODER_DIR_FIND
  | HOMING
  | unknown (code : Nat)
deriving DecidableEq, Repr

/-- `Axis::Error`, a set of flags. -/
abbrev AxisError := BitVec 32

def ERROR_INVALID_STATE : AxisError := 0x1

/-- The variables that `run_state_machine_loop` reads or writes, the chain aside. -/
structure AxisVars where
  requestedState : AxisState
  error : AxisError
  /-- `config_.startup_...` -/
  startupMotorCalibration : Bool
  startupEncoderIndexSearch : Bool
  startupEncoderOffsetCalibration : Bool
  startupHoming : Bool
  startupClosedLoopControl : Bool
  startupSensorlessControl : Bool
  /-- `encoder_.config_.use_index` and `encoder_.config_.idx_search_unidirectional` -/
  useIndex : Bool
  idxSearchUnidirectional : Bool
  /-- `encoder_.is_ready_` -/
  isReady : Bool
  /-- `motor_.is_calibrated_` and `motor_.config_.direction` -/
  isCalibrated : Bool
  direction : Int
deriving DecidableEq, Repr

/-- What the states run. -/
inductive Procedure where
  | runCalibration
  | runIndexSearch
  | runDirectionFind
  | runHoming
  | runOffsetCalibration
  /-- `run_lockin_spin(config_.general_lockin)` -/
  | runLockinSpin
  /-- `run_lockin_spin(config_.sensorless_ramp)` -/
  | runSensorlessRamp
  | runSensorlessControlLoop
  | runClosedLoopControlLoop
  | runIdleLoop
  /-- `motor_.arm()` -/
  | arm
deriving DecidableEq, Repr

/-- What a procedure returns and leaves in the variables it was started with. -/
abbrev Oracle := Procedure → AxisVars → Bool × AxisVars

/-! ## Loading the chain -/

/-- The size of `task_chain_`. -/
abbrev taskChainSize : Nat := 10

abbrev TaskChain := Vector AxisState taskChainSize

/-- The chain while a request is being loaded, and the indices written to so far. -/
structure Loading where
  chain : TaskChain
  pos : Nat
  writes : List Nat

/-- `task_chain_[pos++] = state` -/
def Loading.push (state : AxisState) (l : Loading) : Loading where
  chain := l.chain.setIfInBounds l.pos state
  pos := l.pos + 1
  writes := l.writes ++ [l.pos]

def Loading.pushIf (condition : Bool) (state : AxisState) (l : Loading) : Loading :=
  if condition then l.push state else l

/-- Load the task chain for the pending request. -/
def loadTaskChain (v : AxisVars) (chain : TaskChain) : Loading :=
  let l : Loading := ⟨chain, 0, []⟩
  let l :=
    match v.requestedState with
    | .STARTUP_SEQUENCE =>
      let l := l.pushIf v.startupMotorCalibration .MOTOR_CALIBRATION
      let l := l.pushIf (v.startupEncoderIndexSearch && v.useIndex) .ENCODER_INDEX_SEARCH
      let l := l.pushIf v.startupEncoderOffsetCalibration .ENCODER_OFFSET_CALIBRATION
      let l := l.pushIf v.startupHoming .HOMING
      let l :=
        if v.startupClosedLoopControl then l.push .CLOSED_LOOP_CONTROL
        else l.pushIf v.startupSensorlessControl .SENSORLESS_CONTROL
      l.push .IDLE
    | .FULL_CALIBRATION_SEQUENCE =>
      let l := l.push .MOTOR_CALIBRATION
      let l := l.pushIf v.useIndex .ENCODER_INDEX_SEARCH
      let l := l.push .ENCODER_OFFSET_CALIBRATION
      l.push .IDLE
    | state => (l.push state).push .IDLE
  l.push .UNDEFINED

/-! ## Running a state -/

/-- What running a state leads to: its status, the variables, and the procedures that
were started with the variables they were started with. -/
structure Outcome where
  status : Bool
  vars : AxisVars
  started : List (Procedure × AxisVars)

/-- `invalid_state_label` -/
def invalidState (v : AxisVars) : Outcome where
  status := false
  vars := { v with error := v.error ||| ERROR_INVALID_STATE }
  started := []

def start (oracle : Oracle) (p : Procedure) (v : AxisVars) : Outcome where
  status := (oracle p v).1
  vars := (oracle p v).2
  started := [(p, v)]

/-- Start another procedure after what was run before. -/
def Outcome.andStart (o : Outcome) (oracle : Oracle) (p : Procedure) : Outcome :=
  { start oracle p o.vars with started := o.started ++ [(p, o.vars)] }

/-- The `switch` over `current_state_`. -/
def runState (oracle : Oracle) (state : AxisState) (v : AxisVars) : Outcome :=
  match state with
  | .MOTOR_CALIBRATION => start oracle .runCalibration v
  | .ENCODER_INDEX_SEARCH =>
    if !v.isCalibrated then invalidState v
    else if v.idxSearchUnidirectional && v.direction == 0 then invalidState v
    else start oracle .runIndexSearch v
  | .ENCODER_DIR_FIND =>
    if !v.isCalibrated then invalidState v else start oracle .runDirectionFind v
  | .HOMING => start oracle .runHoming v
  | .ENCODER_OFFSET_CALIBRATION =>
    if !v.isCalibrated then invalidState v else start oracle .runOffsetCalibration v
  | .LOCKIN_SPIN =>
    if !v.isCalibrated || v.direction == 0 then invalidState v
    else start oracle .runLockinSpin v
  | .SENSORLESS_CONTROL =>
    if !v.isCalibrated || v.direction == 0 then invalidState v
    else
      let ramp := start oracle .runSensorlessRamp v
      if ramp.status then ramp.andStart oracle .runSensorlessControlLoop else ramp
  | .CLOSED_LOOP_CONTROL =>
    if !v.isCalibrated || v.direction == 0 then invalidState v
    else if !v.isReady then invalidState v
    else start oracle .runClosedLoopControlLoop v
  | .IDLE => (start oracle .runIdleLoop v).andStart oracle .arm
  | _ => invalidState v

/-- `std::rotate` by one, and the last entry cleared. -/
def rotate (chain : TaskChain) : TaskChain :=
  Vector.setIfInBounds ⟨(chain.toList.rotate 1).toArray, by simp⟩ (taskChainSize - 1)
    .UNDEFINED

/-- If the state failed go to idle, else advance the chain. -/
def advance (status : Bool) (chain : TaskChain) : TaskChain :=
  if !status then (Vector.replicate taskChainSize .UNDEFINED).setIfInBounds 0 .IDLE
  else rotate chain

/-- A failed state leads to idle. -/
theorem advance_false_head (chain : TaskChain) : (advance false chain).head = .IDLE := rfl

/-! ## The loop -/

structure Input where
  /-- the variables at the top of the loop -/
  vars : AxisVars
  oracle : Oracle

/-- What happened in one iteration. -/
structure Record where
  /-- `requested_state_` at the top of the iteration -/
  requested : AxisState
  /-- the entries of the chain loaded for a request, if one was accepted, without the
  `UNDEFINED` that ends it -/
  accepted : Option (List AxisState)
  /-- the indices of `task_chain_` written to -/
  writes : List Nat
  /-- `current_state_` at the `switch` -/
  executed : AxisState
  /-- the variables at the `switch` -/
  vars : AxisVars
  outcome : Outcome
  /-- `task_chain_` at the end of the iteration -/
  chain : TaskChain

/-- One iteration of `run_state_machine_loop`. -/
def iterate (i : Input) (chain : TaskChain) : Record :=
  let l := loadTaskChain i.vars chain
  let pending := i.vars.requestedState ≠ .UNDEFINED
  let chain := if pending then l.chain else chain
  let vars :=
    if pending then
      { i.vars with
        requestedState := .UNDEFINED
        error := i.vars.error &&& ~~~ERROR_INVALID_STATE }
    else i.vars
  let outcome := runState i.oracle chain.head vars
  { requested := i.vars.requestedState
    accepted := if pending then some (l.chain.toList.take (l.pos - 1)) else none
    writes := if pending then l.writes else []
    executed := chain.head
    vars := vars
    outcome := outcome
    chain := advance outcome.status chain }

/-- The records of a run of the loop. -/
def run (chain : TaskChain) : List Input → List Record
  | [] => []
  | i :: is => iterate i chain :: run (iterate i chain).chain is

/-- `task_chain_` as the constructor leaves it. -/
def initialChain : TaskChain := Vector.replicate taskChainSize .UNDEFINED

end WODrive.Axis
