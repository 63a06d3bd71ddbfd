import Mathlib.Algebra.Order.Floor.Ring
import WODrive.Axes
import WODrive.Axis.Endstop
import WODrive.Encoder.Model
import WODrive.Trajectory.Model

/-!
# The controller of an axis (MotorControl/controller.cpp)

`Controller::update` turns the inputs of the user into setpoints, as the input mode says, and
the setpoints and estimates into a torque, as the control mode says. While the calibration
of the anticogging is active, it also commands one position after the other and records the
torque that holds it.

A function that returns false leaves the controller in `Except.error`. What `update` reads of
other objects is in `Inputs`. The arithmetic is exact.
-/

namespace WODrive

universe u

/-- `Controller::ControlMode`, from the lowest level of control to the highest. The mode is
written as an integer, so there are others than the named ones. -/
inductive ControlMode where
  | VOLTAGE_CONTROL
  | TORQUE_CONTROL
  | VELOCITY_CONTROL
  | POSITION_CONTROL
  | unknown (code : Int)
deriving DecidableEq, Repr

/-- What the modes are compared by. -/
def ControlMode.level : ControlMode → Int
  | VOLTAGE_CONTROL => 0
  | TORQUE_CONTROL => 1
  | VELOCITY_CONTROL => 2
  | POSITION_CONTROL => 3
  | unknown code => code

/-- `Controller::InputMode` -/
inductive InputMode where
  | INACTIVE
  | PASSTHROUGH
  | VEL_RAMP
  | POS_FILTER
  | MIX_CHANNELS
  | TRAP_TRAJ
  | TORQUE_RAMP
  | MIRROR
  | unknown (code : Int)
deriving DecidableEq, Repr

/-- The number of entries of `cogging_map`. -/
abbrev coggingMapSize : Nat := 3600

/-- What the controller uses of `Anticogging_t`. -/
structure Anticogging (K : Type u) where
  index : BitVec 32
  coggingMap : Vector K coggingMapSize
  calibAnticogging : Bool
  calibPosThreshold : K
  calibVelThreshold : K
  anticoggingEnabled : Bool

/-- What the functions of the controller use of its `Config_t`. -/
structure Controller.Config (K : Type u) where
  controlMode : ControlMode
  inputMode : InputMode
  posGain : K
  velGain : K
  velIntegratorGain : K
  velLimit : K
  velLimitTolerance : K
  velRampRate : K
  torqueRampRate : K
  circularSetpoints : Bool
  circularSetpointRange : K
  inertia : K
  homingSpeed : K
  anticogging : Anticogging K
  gainSchedulingWidth : K
  enableGainScheduling : Bool
  enableVelLimit : Bool
  enableOverspeedError : Bool
  enableCurrentModeVelLimit : Bool
  axisToMirror : BitVec 8
  mirrorRatio : K
  loadEncoderAxis : BitVec 8

/-- What a pointer to a velocity estimate, or to its validity, points to. -/
inductive VelSource where
  | encoder (axis : Fin axisCount)
  | sensorless
deriving DecidableEq, Repr

/-- The variables of a `Controller`, the `error_` of its axis and the trajectory of its axis.
The pointers to position estimates point to an encoder, that of the axis given. -/
structure Controller (K : Type u) where
  config : Controller.Config K
  error : BitVec 32
  axisError : BitVec 32
  posEstimateLinearSrc : Option (Fin axisCount)
  posEstimateCircularSrc : Option (Fin axisCount)
  posEstimateValidSrc : Option (Fin axisCount)
  velEstimateSrc : Option VelSource
  velEstimateValidSrc : Option VelSource
  posSetpoint : K
  velSetpoint : K
  velIntegratorTorque : K
  torqueSetpoint : K
  inputPos : K
  inputVel : K
  inputTorque : K
  inputFilterKp : K
  inputFilterKi : K
  inputPosUpdated : Bool
  trajectoryDone : Bool
  anticoggingValid : Bool
  /-- `axis_->trap_traj_` and its `t_` -/
  trapTraj : Trajectory.TrapezoidalTrajectory K
  trapTrajT : K

/-- The estimates of an encoder. -/
structure Estimates (K : Type u) where
  posEstimate : K
  posCircular : K
  velEstimate : K
  posEstimateValid : Bool
  velEstimateValid : Bool

/-- What the controller reads of other objects. -/
structure Inputs (K : Type u) where
  axes : Fin axisCount → Estimates K
  /-- which of them is its own -/
  axis : Fin axisCount
  sensorlessVelEstimate : K
  sensorlessVelEstimateValid : Bool
  /-- `axis_->encoder_.config_.cpr` -/
  cpr : Int
  /-- `axis_->trap_traj_.config_` -/
  trapVelLimit : K
  trapAccelLimit : K
  trapDecelLimit : K
  /-- `motor_type == MOTOR_TYPE_ACIM` -/
  isAcim : Bool
  acimRotorFlux : K
  acimGainMinFlux : K
  maxAvailableTorque : K

/-- The estimates of the own encoder. -/
def Inputs.encoder {K : Type u} (i : Inputs K) : Estimates K := i.axes i.axis

/-- The torque that `update` sets, and the entry of the cogging map that is in it. -/
structure Output (K : Type u) where
  torque : K
  cogged : Option Nat

namespace Controller

variable {K : Type u} [Field K] [LinearOrder K] [FloorRing K]

def ERROR_OVERSPEED : BitVec 32 := 0x1
def ERROR_INVALID_INPUT_MODE : BitVec 32 := 0x2
def ERROR_INVALID_MIRROR_AXIS : BitVec 32 := 0x8
def ERROR_INVALID_LOAD_ENCODER : BitVec 32 := 0x10
def ERROR_INVALID_ESTIMATE : BitVec 32 := 0x20

/-- `Axis::ERROR_CONTROLLER_FAILED` -/
def ERROR_CONTROLLER_FAILED : BitVec 32 := 0x200

/-! ## Arithmetic -/

/-- The conversion to an integer. -/
def truncate (x : K) : Int := if x < 0 then ⌈x⌉ else ⌊x⌋

def fmodf (x y : K) : K := x - y * truncate (x / y)

def fmodfPos (x y : K) : K :=
  let out := fmodf x y
  if out < 0 then out + y else out

def wrapPm (x pmRange : K) : K := fmodfPos (x + pmRange) (2 * pmRange) - pmRange

/-- `std::clamp` -/
def clamp (v lo hi : K) : K := if v < lo then lo else if hi < v then hi else v

/-- `Encoder::getCoggingRatio` -/
def coggingRatio : K := 1 / (coggingMapSize : Nat)

def limitVel (velLimit velEstimate velGain torque : K) : K :=
  clamp torque ((-velLimit - velEstimate) * velGain) ((velLimit - velEstimate) * velGain)

/-! ## Commands -/

def setError (error : BitVec 32) (c : Controller K) : Controller K :=
  { c with
    error := c.error ||| error
    axisError := c.axisError ||| ERROR_CONTROLLER_FAILED }

def selectEncoder (encoderNum : Nat) (c : Controller K) : Bool × Controller K :=
  if h : encoderNum < axisCount then
    (true,
      { c with
        posEstimateCircularSrc := some ⟨encoderNum, h⟩
        posEstimateLinearSrc := some ⟨encoderNum, h⟩
        posEstimateValidSrc := some ⟨encoderNum, h⟩
        velEstimateSrc := some (.encoder ⟨encoderNum, h⟩)
        velEstimateValidSrc := some (.encoder ⟨encoderNum, h⟩) })
  else (false, setError ERROR_INVALID_LOAD_ENCODER c)

def moveToPos (sqrtf : K → K) (i : Inputs K) (goalPoint : K) (c : Controller K) :
    Controller K :=
  { c with
    trapTraj := Trajectory.planTrapezoidal sqrtf goalPoint c.posSetpoint c.velSetpoint
      i.trapVelLimit i.trapAccelLimit i.trapDecelLimit
    trapTrajT := 0
    trajectoryDone := false }

def startAnticoggingCalibration (c : Controller K) : Controller K :=
  if c.axisError = 0 then
    { c with
      config := { c.config with
        anticogging := { c.config.anticogging with calibAnticogging := true } } }
  else c

/-! ## The calibration of the anticogging -/

/-- The motor holds the position: it is within the thresholds. -/
def settled (i : Inputs K) (c : Controller K) : Bool :=
  |c.inputPos - i.encoder.posEstimate| ≤ c.config.anticogging.calibPosThreshold / i.cpr &&
    |i.encoder.velEstimate| < c.config.anticogging.calibVelThreshold / i.cpr

/-- `std::clamp<uint32_t>(config_.anticogging.index, 0, 3600)` -/
def clampedIndex (c : Controller K) : Nat := min c.config.anticogging.index.toNat coggingMapSize

/-- `cogging_map[std::clamp<uint32_t>(config_.anticogging.index++, 0, 3600)] =
vel_integrator_torque_` -/
def storeTorque (c : Controller K) : Controller K :=
  { c with
    config := { c.config with
      anticogging := { c.config.anticogging with
        index := c.config.anticogging.index + 1
        coggingMap :=
          c.config.anticogging.coggingMap.setIfInBounds c.clampedIndex c.velIntegratorTorque } } }

/-- Go to a position and hold it. -/
def commandPos (inputPos : K) (c : Controller K) : Controller K :=
  { c with
    config := { c.config with controlMode := .POSITION_CONTROL }
    inputPos := inputPos
    inputVel := 0
    inputTorque := 0
    inputPosUpdated := true }

def anticoggingCalibration (i : Inputs K) (c : Controller K) : Bool × Controller K :=
  let c := if settled i c then storeTorque c else c
  if c.config.anticogging.index.toNat < coggingMapSize then
    (false, commandPos (c.config.anticogging.index.toNat * coggingRatio) c)
  else
    -- send the motor home
    let c := commandPos 0 c
    (true,
      { c with
        config := { c.config with
          anticogging := { c.config.anticogging with index := 0, calibAnticogging := false } }
        anticoggingValid := true })

/-- The part of `update` that runs the calibration. -/
def calibrate (i : Inputs K) (c : Controller K) : Except (Controller K) (Controller K) :=
  if c.config.anticogging.calibAnticogging then
    if !i.encoder.posEstimateValid || !i.encoder.velEstimateValid then
      .error (setError ERROR_INVALID_ESTIMATE c)
    else .ok (anticoggingCalibration i c).2
  else .ok c

/-! ## Update -/

/-- Keep the position from drifting. -/
def wrapInputPos (c : Controller K) : Controller K :=
  if c.config.circularSetpoints then
    { c with inputPos := fmodfPos c.inputPos c.config.circularSetpointRange }
  else c

/-- `if(input_pos_updated_) { move_to_pos(input_pos_); input_pos_updated_ = false; }` -/
def planInputPos (sqrtf : K → K) (i : Inputs K) (c : Controller K) : Controller K :=
  if c.inputPosUpdated then { moveToPos sqrtf i c.inputPos c with inputPosUpdated := false }
  else c

/-- The setpoints of a trajectory that is not done. -/
def followTrajectory (c : Controller K) : Controller K :=
  if c.trapTrajT > c.trapTraj.Tf then
    -- drop into position control mode when done
    { c with
      config := { c.config with controlMode := .POSITION_CONTROL }
      posSetpoint := c.inputPos
      velSetpoint := 0
      torqueSetpoint := 0
      trajectoryDone := true }
  else
    let trajStep := Trajectory.eval c.trapTraj c.trapTrajT
    { c with
      posSetpoint := trajStep.Y
      velSetpoint := trajStep.Yd
      torqueSetpoint := trajStep.Ydd * c.config.inertia
      trapTrajT := c.trapTrajT + currentMeasPeriod }

/-- The inputs, by the input mode, and the position of the anticogging. -/
def updateInputs (sqrtf : K → K) (i : Inputs K) (anticoggingPos : K) (c : Controller K) :
    Except (Controller K) (K × Controller K) :=
  match c.config.inputMode with
  | .INACTIVE => .ok (anticoggingPos, c)
  | .PASSTHROUGH =>
    .ok (anticoggingPos,
      { c with
        posSetpoint := c.inputPos
        velSetpoint := c.inputVel
        torqueSetpoint := c.inputTorque })
  | .VEL_RAMP =>
    let maxStepSize := |currentMeasPeriod * c.config.velRampRate|
    let step := clamp (c.inputVel - c.velSetpoint) (-maxStepSize) maxStepSize
    .ok (anticoggingPos,
      { c with
        velSetpoint := c.velSetpoint + step
        torqueSetpoint := step / currentMeasPeriod * c.config.inertia })
  | .TORQUE_RAMP =>
    let maxStepSize := |currentMeasPeriod * c.config.torqueRampRate|
    let step := clamp (c.inputTorque - c.torqueSetpoint) (-maxStepSize) maxStepSize
    .ok (anticoggingPos, { c with torqueSetpoint := c.torqueSetpoint + step })
  | .POS_FILTER =>
    -- 2nd order position tracking filter
    let accel := c.inputFilterKp * (c.inputPos - c.posSetpoint) +
      c.inputFilterKi * (c.inputVel - c.velSetpoint)
    let velSetpoint := c.velSetpoint + currentMeasPeriod * accel
    .ok (anticoggingPos,
      { c with
        torqueSetpoint := accel * c.config.inertia
        velSetpoint := velSetpoint
        posSetpoint := c.posSetpoint + currentMeasPeriod * velSetpoint })
  | .MIRROR =>
    if h : c.config.axisToMirror.toNat < axisCount then
      let mirrored := i.axes ⟨c.config.axisToMirror.toNat, h⟩
      .ok (anticoggingPos,
        { c with
          posSetpoint := mirrored.posEstimate * c.config.mirrorRatio
          velSetpoint := mirrored.velEstimate * c.config.mirrorRatio })
    else .error (setError ERROR_INVALID_MIRROR_AXIS c)
  | .TRAP_TRAJ =>
    let c := planInputPos sqrtf i c
    -- avoid updating an uninitialized trajectory
    if c.trajectoryDone then .ok (anticoggingPos, c)
    else
      let c := followTrajectory c
      .ok (c.posSetpoint, c)
  | .MIX_CHANNELS => .error (setError ERROR_INVALID_INPUT_MODE c)
  | .unknown _ => .error (setError ERROR_INVALID_INPUT_MODE c)

/-- Whether `*pos_estimate_valid_src_`. -/
def posValid (i : Inputs K) (c : Controller K) : Bool :=
  match c.posEstimateValidSrc with
  | some axis => (i.axes axis).posEstimateValid
  | none => false

/-- `pos_estimate_linear`, unless it is null -/
def posEstimateLinear (i : Inputs K) (c : Controller K) : Option K :=
  if posValid i c then c.posEstimateLinearSrc.map fun axis => (i.axes axis).posEstimate
  else none

/-- `pos_estimate_circular`, unless it is null -/
def posEstimateCircular (i : Inputs K) (c : Controller K) : Option K :=
  if posValid i c then c.posEstimateCircularSrc.map fun axis => (i.axes axis).posCircular
  else none

/-- `vel_estimate_src`, unless it is null -/
def velEstimate (i : Inputs K) (c : Controller K) : Option K :=
  let valid := match c.velEstimateValidSrc with
    | some (.encoder axis) => (i.axes axis).velEstimateValid
    | some .sensorless => i.sensorlessVelEstimateValid
    | none => false
  if valid then
    c.velEstimateSrc.map fun src => match src with
      | .encoder axis => (i.axes axis).velEstimate
      | .sensorless => i.sensorlessVelEstimate
  else none

/-- Position control: the velocity, the multiplier of the gain scheduling, and the controller. -/
def positionControl (i : Inputs K) (c : Controller K) :
    Except (Controller K) (K × K × Controller K) :=
  if c.config.controlMode.level ≥ ControlMode.POSITION_CONTROL.level then
    let posErr : Except (Controller K) (K × Controller K) :=
      if c.config.circularSetpoints then
        match posEstimateCircular i c with
        | none => .error (setError ERROR_INVALID_ESTIMATE c)
        | some estimate =>
          -- keep the setpoint from drifting
          let c := { c with posSetpoint := fmodfPos c.posSetpoint c.config.circularSetpointRange }
          .ok (wrapPm (c.posSetpoint - estimate) (1 / 2 * c.config.circularSetpointRange), c)
      else
        match posEstimateLinear i c with
        | none => .error (setError ERROR_INVALID_ESTIMATE c)
        | some estimate => .ok (c.posSetpoint - estimate, c)
    posErr.map fun (posErr, c) =>
      -- V-shaped gain schedule based on position error
      let multiplier :=
        if c.config.enableGainScheduling ∧ |posErr| ≤ c.config.gainSchedulingWidth then
          |posErr| / c.config.gainSchedulingWidth
        else 1
      (c.velSetpoint + c.config.posGain * posErr, multiplier, c)
  else .ok (c.velSetpoint, 1, c)

/-- Check for an overspeed fault. -/
def checkOverspeed (i : Inputs K) (c : Controller K) : Except (Controller K) (Controller K) :=
  if c.config.enableOverspeedError then
    match velEstimate i c with
    | none => .error (setError ERROR_INVALID_ESTIMATE c)
    | some estimate =>
      if |estimate| > c.config.velLimitTolerance * c.config.velLimit then
        .error (setError ERROR_OVERSPEED c)
      else .ok c
  else .ok c

/-- The divisor of the gains: the flux of the rotor for an ACIM. -/
def effectiveFlux (i : Inputs K) : K :=
  if i.isAcim then
    if |i.acimRotorFlux| < i.acimGainMinFlux then
      Trajectory.copysign i.acimGainMinFlux i.acimRotorFlux
    else i.acimRotorFlux
  else 1

/-- `std::clamp(mod((int)anticogging_pos, 3600), 0, 3600)` -/
def coggingIndex (anticoggingPos : K) : Nat :=
  let i := (Encoder.mod (BitVec.ofInt 32 (truncate anticoggingPos)) coggingMapSize).toInt
  (max 0 (min i coggingMapSize)).toNat

/-- The entry of the cogging map that is added, after calibration. -/
def coggedEntry (anticoggingPos : K) (c : Controller K) : Option Nat :=
  if c.anticoggingValid ∧ c.config.anticogging.anticoggingEnabled then
    some (coggingIndex anticoggingPos)
  else none

/-- The torque of the setpoint and of the cogging map. -/
def feedForward (anticoggingPos : K) (c : Controller K) : K :=
  match coggedEntry anticoggingPos c with
  | some entry => c.torqueSetpoint + c.config.anticogging.coggingMap.toList.getD entry 0
  | none => c.torqueSetpoint

/-- Velocity control: the error of the velocity and the torque. -/
def velocityControl (i : Inputs K) (velDes gain torque : K) (c : Controller K) :
    Except (Controller K) (K × K) :=
  if c.config.controlMode.level ≥ ControlMode.VELOCITY_CONTROL.level then
    match velEstimate i c with
    | none => .error (setError ERROR_INVALID_ESTIMATE c)
    | some estimate =>
      let vErr := velDes - estimate
      -- velocity integral action before limiting
      .ok (vErr, torque + gain * vErr + c.velIntegratorTorque)
  else .ok (0, torque)

/-- Velocity limiting in current mode. -/
def limitTorqueMode (i : Inputs K) (velGain torque : K) (c : Controller K) :
    Except (Controller K) K :=
  if c.config.controlMode.level < ControlMode.VELOCITY_CONTROL.level ∧
      c.config.enableCurrentModeVelLimit then
    match velEstimate i c with
    | none => .error (setError ERROR_INVALID_ESTIMATE c)
    | some estimate => .ok (limitVel c.config.velLimit estimate velGain torque)
  else .ok torque

/-- Torque limiting, and whether it was necessary. -/
def limitTorque (Tlim torque : K) : Bool × K :=
  let (limited, torque) := if torque > Tlim then (true, Tlim) else (false, torque)
  if torque < -Tlim then (true, -Tlim) else (limited, torque)

/-- The integrator of the velocity, which depends on limiting. -/
def integrate (limited : Bool) (gain vErr : K) (c : Controller K) : Controller K :=
  if c.config.controlMode.level < ControlMode.VELOCITY_CONTROL.level then
    -- reset the integral if not in use
    { c with velIntegratorTorque := 0 }
  else if limited then
    { c with velIntegratorTorque := c.velIntegratorTorque * ((99 : Nat) / (100 : Nat)) }
  else
    { c with velIntegratorTorque := c.velIntegratorTorque + gain * currentMeasPeriod * vErr }

/-- `Controller::update` -/
def update (sqrtf : K → K) (i : Inputs K) (c : Controller K) :
    Except (Controller K) (Output K × Controller K) := do
  let c ← calibrate i c
  let (anticoggingPos, c) ←
    updateInputs sqrtf i (i.encoder.posEstimate / coggingRatio) (wrapInputPos c)
  let (velDes, multiplier, c) ← positionControl i c
  let velDes :=
    if c.config.enableVelLimit then clamp velDes (-c.config.velLimit) c.config.velLimit
    else velDes
  let c ← checkOverspeed i c
  let velGain := c.config.velGain / effectiveFlux i
  let velIntegratorGain := c.config.velIntegratorGain / effectiveFlux i
  let (vErr, torque) ←
    velocityControl i velDes (velGain * multiplier) (feedForward anticoggingPos c) c
  let torque ← limitTorqueMode i velGain torque c
  let (limited, torque) := limitTorque i.maxAvailableTorque torque
  return ({ torque, cogged := coggedEntry anticoggingPos c },
    integrate limited (velIntegratorGain * multiplier) vErr c)

end Controller

end WODrive
