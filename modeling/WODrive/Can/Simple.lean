import Mathlib.Data.BitVec
import Mathlib.Data.List.FinRange
import Mathlib.Logic.Function.Basic
import WODrive.Axes

/-!
# The simple CAN protocol (communication/can_simple.cpp)

A message is for the one axis whose node id and frame format are those of its
identifier. The callbacks either answer a remote frame with two words of the axis, or
change the axis. Of an axis the model has what the answers report and what the
callbacks below change; the setpoints and limits of its controller, which no answer
reports, are left out, and so are the watchdog and the contents of floating point
words.
-/

namespace WODrive.Can

/-- `NUM_NODE_ID_BITS` and `NUM_CMD_ID_BITS` -/
def numNodeIdBits : Nat := 6
def numCmdIdBits : Nat := 11 - numNodeIdBits

/-- `can_Message_t` -/
structure Message where
  id : BitVec 32
  isExt : Bool
  rtr : Bool
  len : BitVec 8
  buf : Vector (BitVec 8) 8
deriving DecidableEq

def MSG_CO_NMT_CTRL : BitVec 32 := 0x000
def MSG_ODRIVE_HEARTBEAT : BitVec 32 := 0x001
def MSG_ODRIVE_ESTOP : BitVec 32 := 0x002
def MSG_GET_MOTOR_ERROR : BitVec 32 := 0x003
def MSG_GET_ENCODER_ERROR : BitVec 32 := 0x004
def MSG_GET_SENSORLESS_ERROR : BitVec 32 := 0x005
def MSG_SET_AXIS_NODE_ID : BitVec 32 := 0x006
def MSG_SET_AXIS_REQUESTED_STATE : BitVec 32 := 0x007
def MSG_GET_ENCODER_ESTIMATES : BitVec 32 := 0x009
def MSG_GET_ENCODER_COUNT : BitVec 32 := 0x00A
def MSG_GET_IQ : BitVec 32 := 0x014
def MSG_GET_SENSORLESS_ESTIMATES : BitVec 32 := 0x015
def MSG_RESET_ODRIVE : BitVec 32 := 0x016
def MSG_GET_VBUS_VOLTAGE : BitVec 32 := 0x017
def MSG_CLEAR_ERRORS : BitVec 32 := 0x018

/-- `Axis::ERROR_ESTOP_REQUESTED` -/
def ERROR_ESTOP_REQUESTED : BitVec 32 := 0x4000

/-- What the protocol uses of an axis. -/
structure Axis where
  /-- `config_.can_node_id` -/
  canNodeId : BitVec 32
  /-- `config_.can_node_id_extended` -/
  canNodeIdExtended : Bool
  error : BitVec 32
  currentState : BitVec 32
  requestedState : BitVec 32
  /-- `motor_.error_` -/
  motorError : BitVec 32
  /-- `encoder_.error_` -/
  encoderError : BitVec 32
  /-- `sensorless_estimator_.error_` -/
  sensorlessError : BitVec 32
  /-- `controller_.error_` -/
  controllerError : BitVec 32
  /-- The bits of `encoder_.pos_estimate_` and `encoder_.vel_estimate_`. -/
  posEstimate : BitVec 32
  velEstimate : BitVec 32
  /-- The bits of `sensorless_estimator_.pll_pos_` and `vel_estimate_`. -/
  pllPos : BitVec 32
  sensorlessVelEstimate : BitVec 32
  /-- `encoder_.shadow_count_` and `encoder_.count_in_cpr_` -/
  shadowCount : BitVec 32
  countInCpr : BitVec 32
  /-- The bits of `motor_.current_control_.Iq_setpoint` and `Iq_measured`. -/
  iqSetpoint : BitVec 32
  iqMeasured : BitVec 32
deriving DecidableEq

structure State where
  axes : Fin axisCount → Axis
  /-- The bits of `vbus_voltage`. -/
  vbusVoltage : BitVec 32
  /-- `odCAN` has `ERROR_DUPLICATE_CAN_IDS`. -/
  duplicateCanIds : Bool

/-- A message passed to `odCAN->write`: by which axis, in answer to or as which command. -/
structure Sent where
  axis : Fin axisCount
  cmd : BitVec 32
  msg : Message
deriving DecidableEq

/-! ## Identifiers and signals -/

/-- `get_node_id` -/
def getNodeId (msgId : BitVec 32) : BitVec 32 := msgId >>> numCmdIdBits

/-- `get_cmd_id` -/
def getCmdId (msgId : BitVec 32) : BitVec 8 := (msgId &&& 0x01F).setWidth 8

/-- The message's bytes as `memcpy` puts them into a 64-bit word. -/
def Message.data (msg : Message) : BitVec 64 :=
  (List.finRange 8).foldr (fun i (w : BitVec 64) => w <<< 8 ||| (msg.buf.get i).setWidth 64) 0

/-- `can_getSignal<uint32_t>` with Intel byte order. -/
def canGetSignal (msg : Message) (startBit length : Nat) : BitVec 32 :=
  ((msg.data >>> startBit) &&& (1 <<< length - 1)).setWidth 32

/-- Two words, as the bytes of a message, the lowest byte first. -/
def wordBytes (lo hi : BitVec 32) : Vector (BitVec 8) 8 :=
  Vector.ofFn fun i => if i.val < 4 then lo.extractLsb' (8 * i.val) 8
    else hi.extractLsb' (8 * (i.val - 4)) 8

/-- The frame of an axis for a command. -/
def frame (axis : Axis) (cmd lo hi : BitVec 32) : Message where
  id := axis.canNodeId <<< numCmdIdBits + cmd
  isExt := axis.canNodeIdExtended
  rtr := false
  len := 8
  buf := wordBytes lo hi

/-! ## Callbacks -/

/-- The callbacks that answer: with two words, if the message is a remote frame. -/
def getCallback (cmd : BitVec 32) (lo hi : Axis → BitVec 32) (axis : Axis) (msg : Message) :
    Option (BitVec 32 × Message) :=
  if msg.rtr then some (cmd, frame axis cmd (lo axis) (hi axis)) else none

def getMotorErrorCallback := getCallback MSG_GET_MOTOR_ERROR Axis.motorError fun _ => 0

def getEncoderErrorCallback := getCallback MSG_GET_ENCODER_ERROR Axis.encoderError fun _ => 0

def getSensorlessErrorCallback :=
  getCallback MSG_GET_SENSORLESS_ERROR Axis.sensorlessError fun _ => 0

def getEncoderEstimatesCallback :=
  getCallback MSG_GET_ENCODER_ESTIMATES Axis.posEstimate Axis.velEstimate

def getSensorlessEstimatesCallback :=
  getCallback MSG_GET_SENSORLESS_ESTIMATES Axis.pllPos Axis.sensorlessVelEstimate

def getEncoderCountCallback :=
  getCallback MSG_GET_ENCODER_COUNT Axis.shadowCount Axis.countInCpr

def getIqCallback := getCallback MSG_GET_IQ Axis.iqSetpoint Axis.iqMeasured

def getVbusVoltageCallback (vbusVoltage : BitVec 32) :=
  getCallback MSG_GET_VBUS_VOLTAGE (fun _ => vbusVoltage) fun _ => 0

def estopCallback (axis : Axis) : Axis :=
  { axis with error := axis.error ||| ERROR_ESTOP_REQUESTED }

def setAxisNodeidCallback (axis : Axis) (msg : Message) : Axis :=
  { axis with canNodeId := canGetSignal msg 0 32 }

def setAxisRequestedStateCallback (axis : Axis) (msg : Message) : Axis :=
  { axis with requestedState := canGetSignal msg 0 16 }

/-- `clear_errors` -/
def clearErrorsCallback (axis : Axis) : Axis :=
  { axis with motorError := 0, controllerError := 0, sensorlessError := 0, encoderError := 0,
              error := 0 }

/-! ## Dispatch -/

/-- The loop over the axes: the one axis with this id and format, and whether a second
one was found. -/
def findAxis (axes : Fin axisCount → Axis) (nodeId : BitVec 32) (isExt : Bool) :
    List (Fin axisCount) → Option (Fin axisCount) → Option (Fin axisCount) × Bool
  | [], found => (found, false)
  | i :: is, found =>
    if (axes i).canNodeId = nodeId ∧ (axes i).canNodeIdExtended = isExt then
      match found with
      | none => findAxis axes nodeId isExt is (some i)
      -- duplicate can ids, don't assign to any axis
      | some _ => (none, true)
    else findAxis axes nodeId isExt is found

/-- What a command does to its axis: the answer, and the axis, or that the controller
resets. -/
def command (vbusVoltage : BitVec 32) (axis : Axis) (msg : Message) :
    Option (Option (BitVec 32 × Message) × Axis) :=
  let cmd : BitVec 32 := (getCmdId msg.id).setWidth 32
  if cmd = MSG_ODRIVE_ESTOP then some (none, estopCallback axis)
  else if cmd = MSG_GET_MOTOR_ERROR then some (getMotorErrorCallback axis msg, axis)
  else if cmd = MSG_GET_ENCODER_ERROR then some (getEncoderErrorCallback axis msg, axis)
  else if cmd = MSG_GET_SENSORLESS_ERROR then some (getSensorlessErrorCallback axis msg, axis)
  else if cmd = MSG_SET_AXIS_NODE_ID then some (none, setAxisNodeidCallback axis msg)
  else if cmd = MSG_SET_AXIS_REQUESTED_STATE then
    some (none, setAxisRequestedStateCallback axis msg)
  else if cmd = MSG_GET_ENCODER_ESTIMATES then
    some (getEncoderEstimatesCallback axis msg, axis)
  else if cmd = MSG_GET_ENCODER_COUNT then some (getEncoderCountCallback axis msg, axis)
  else if cmd = MSG_GET_IQ then some (getIqCallback axis msg, axis)
  else if cmd = MSG_GET_SENSORLESS_ESTIMATES then
    some (getSensorlessEstimatesCallback axis msg, axis)
  else if cmd = MSG_RESET_ODRIVE then none
  else if cmd = MSG_GET_VBUS_VOLTAGE then some (getVbusVoltageCallback vbusVoltage axis msg, axis)
  else if cmd = MSG_CLEAR_ERRORS then some (none, clearErrorsCallback axis)
  -- the commands that do nothing, and the setpoints and limits
  else some (none, axis)

/-- `handle_can_message`: the messages written, and the state; none if it does not
return, because the controller resets. -/
def handleCanMessage (msg : Message) (s : State) : Option (List Sent × State) :=
  let (found, duplicate) :=
    findAxis s.axes (getNodeId msg.id) msg.isExt (List.finRange axisCount) none
  let s := if duplicate then { s with duplicateCanIds := true } else s
  match found with
  | none => some ([], s)
  | some i =>
    (command s.vbusVoltage (s.axes i) msg).map fun (answer, axis) =>
      (answer.toList.map fun (cmd, msg) => ⟨i, cmd, msg⟩,
        { s with axes := Function.update s.axes i axis })

/-- `send_heartbeat` -/
def sendHeartbeat (i : Fin axisCount) (s : State) : List Sent :=
  [⟨i, MSG_ODRIVE_HEARTBEAT,
    frame (s.axes i) MSG_ODRIVE_HEARTBEAT (s.axes i).error (s.axes i).currentState⟩]

end WODrive.Can
