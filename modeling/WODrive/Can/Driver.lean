import WODrive.Can.Addressing

/-!
# The CAN driver (stm32f4xx_hal_can.c)

The calls of the driver that the firmware makes once the peripheral has been set up. A request
that the peripheral does not acknowledge in time leaves the driver in `HAL_CAN_STATE_ERROR`. There
every call but `HAL_CAN_Init` is refused, and sets one more bit of the error code.
-/

namespace WODrive.Can

def HAL_CAN_ERROR_NONE : BitVec 32 := 0
def HAL_CAN_ERROR_TIMEOUT : BitVec 32 := 0x00020000
def HAL_CAN_ERROR_NOT_INITIALIZED : BitVec 32 := 0x00040000
def HAL_CAN_ERROR_NOT_READY : BitVec 32 := 0x00080000
def HAL_CAN_ERROR_NOT_STARTED : BitVec 32 := 0x00100000
def HAL_CAN_ERROR_PARAM : BitVec 32 := 0x00200000

/-- `HAL_CAN_StateTypeDef`. The driver has been initialized, and is never asked to sleep. -/
inductive HalState where
  | ready
  | listening
  | error
deriving DecidableEq

/-- `HAL_StatusTypeDef` -/
inductive HalStatus where
  | ok
  | error
deriving DecidableEq

/-- `hcan1` and its registers. -/
structure Hal where
  state : HalState
  errorCode : BitVec 32
  fifo0 : List Message
  fifo1 : List Message
  /-- `CAN_IT_RX_FIFO0_MSG_PENDING` is enabled. -/
  notification : Bool
  /-- What the transmit mailboxes hold. -/
  mailboxes : List Message
  /-- The peripheral acknowledges a request within `CAN_TIMEOUT_VALUE`. -/
  acknowledges : Bool

namespace Hal

/-- A call returns `HAL_ERROR`. -/
def fail (code : BitVec 32) (hal : Hal) : Hal := { hal with errorCode := hal.errorCode ||| code }

/-- The time is up before the peripheral has acknowledged. -/
def timeOut (hal : Hal) : Hal := { hal.fail HAL_CAN_ERROR_TIMEOUT with state := .error }

/-- `HAL_CAN_Init` -/
def init (hal : Hal) : Hal :=
  if hal.acknowledges then { hal with state := .ready, errorCode := HAL_CAN_ERROR_NONE }
  else hal.timeOut

/-- `HAL_CAN_Start` -/
def start (hal : Hal) : HalStatus × Hal :=
  if hal.state = .ready then
    if hal.acknowledges then
      (.ok, { hal with state := .listening, errorCode := HAL_CAN_ERROR_NONE })
    else (.error, hal.timeOut)
  else (.error, hal.fail HAL_CAN_ERROR_NOT_READY)

/-- `HAL_CAN_Stop` -/
def stop (hal : Hal) : Hal :=
  if hal.state = .listening then
    if hal.acknowledges then { hal with state := .ready } else hal.timeOut
  else hal.fail HAL_CAN_ERROR_NOT_STARTED

/-- `HAL_CAN_ResetError` -/
def resetError (hal : Hal) : Hal :=
  if hal.state = .error then hal.fail HAL_CAN_ERROR_NOT_INITIALIZED
  else { hal with errorCode := HAL_CAN_ERROR_NONE }

/-- `HAL_CAN_ActivateNotification` -/
def activateNotification (hal : Hal) : Hal :=
  if hal.state = .error then hal.fail HAL_CAN_ERROR_NOT_INITIALIZED
  else { hal with notification := true }

/-- `HAL_CAN_DeactivateNotification` -/
def deactivateNotification (hal : Hal) : Hal :=
  if hal.state = .error then hal.fail HAL_CAN_ERROR_NOT_INITIALIZED
  else { hal with notification := false }

/-- `HAL_CAN_GetTxMailboxesFreeLevel` -/
def getTxMailboxesFreeLevel (hal : Hal) : Nat :=
  if hal.state = .error then 0 else 3 - hal.mailboxes.length

/-- `HAL_CAN_AddTxMessage` -/
def addTxMessage (msg : Message) (hal : Hal) : Hal :=
  if hal.state = .error then hal.fail HAL_CAN_ERROR_NOT_INITIALIZED
  else if hal.mailboxes.length < 3 then { hal with mailboxes := hal.mailboxes ++ [msg] }
  else hal.fail HAL_CAN_ERROR_PARAM

/-- `HAL_CAN_GetRxFifoFillLevel` -/
def getRxFifoFillLevel (fifo : List Message) (hal : Hal) : Nat :=
  if hal.state = .error then 0 else fifo.length

/-- A frame arrives. The filter assigns it to the first FIFO, and overwrites the last one there
if there are three (`ReceiveFifoLocked` is not set). -/
def receive (msg : Message) (hal : Hal) : Hal :=
  if hal.fifo0.length < 3 then { hal with fifo0 := hal.fifo0 ++ [msg] }
  else { hal with fifo0 := hal.fifo0.dropLast ++ [msg] }

end Hal

variable {hal hal' : Hal} {msg : Message} {code : BitVec 32}

/-! ## The frames that have arrived -/

/-- They are still there, and the interrupt is as it was. -/
structure SameReception (hal hal' : Hal) : Prop where
  fifo0 : hal'.fifo0 = hal.fifo0
  fifo1 : hal'.fifo1 = hal.fifo1
  notification : hal'.notification = hal.notification

theorem SameReception.refl (hal : Hal) : SameReception hal hal := ⟨rfl, rfl, rfl⟩

theorem sameReception_init (hal : Hal) : SameReception hal hal.init := by
  unfold Hal.init
  split <;> exact ⟨rfl, rfl, rfl⟩

theorem sameReception_start (hal : Hal) : SameReception hal hal.start.2 := by
  unfold Hal.start
  split_ifs <;> exact ⟨rfl, rfl, rfl⟩

theorem sameReception_stop (hal : Hal) : SameReception hal hal.stop := by
  unfold Hal.stop
  split_ifs <;> exact ⟨rfl, rfl, rfl⟩

theorem sameReception_resetError (hal : Hal) : SameReception hal hal.resetError := by
  unfold Hal.resetError
  split <;> exact ⟨rfl, rfl, rfl⟩

theorem sameReception_addTxMessage (msg : Message) (hal : Hal) :
    SameReception hal (hal.addTxMessage msg) := by
  unfold Hal.addTxMessage
  split_ifs <;> exact ⟨rfl, rfl, rfl⟩

/-! ## The error state -/

/-- The driver is in its error state as long as the code tells that a request has timed out. -/
def Hal.Coherent (hal : Hal) : Prop :=
  hal.errorCode.getLsbD 17 = true ↔ hal.state = .error

namespace Hal.Coherent

theorem congr (h : hal.Coherent) (hcode : hal'.errorCode = hal.errorCode)
    (hstate : hal'.state = hal.state) : hal'.Coherent := by
  unfold Coherent
  rw [hcode, hstate]
  exact h

theorem none (hcode : hal.errorCode = HAL_CAN_ERROR_NONE) (hstate : hal.state ≠ .error) :
    hal.Coherent := by
  unfold Coherent
  simp [hcode, hstate, HAL_CAN_ERROR_NONE]

theorem fail (h : hal.Coherent) (hcode : code.getLsbD 17 = false) : (hal.fail code).Coherent := by
  unfold Coherent Hal.fail
  rw [BitVec.getLsbD_or, hcode, Bool.or_false]
  exact h

theorem timeOut (hal : Hal) : hal.timeOut.Coherent := by
  unfold Coherent Hal.timeOut Hal.fail
  simp [HAL_CAN_ERROR_TIMEOUT]

theorem init (hal : Hal) : hal.init.Coherent := by
  unfold Hal.init
  split
  · exact .none rfl nofun
  · exact .timeOut hal

theorem start (h : hal.Coherent) : hal.start.2.Coherent := by
  unfold Hal.start
  split_ifs
  · exact .none rfl nofun
  · exact .timeOut hal
  · exact h.fail rfl

theorem stop (h : hal.Coherent) : hal.stop.Coherent := by
  unfold Hal.stop
  split_ifs with hlistening
  · unfold Coherent at h ⊢
    rw [h, hlistening]
    simp
  · exact .timeOut hal
  · exact h.fail rfl

theorem resetError (h : hal.Coherent) : hal.resetError.Coherent := by
  unfold Hal.resetError
  split
  next => exact h.fail rfl
  next herror => exact .none rfl herror

theorem activateNotification (h : hal.Coherent) : hal.activateNotification.Coherent := by
  unfold Hal.activateNotification
  split
  · exact h.fail rfl
  · exact h.congr rfl rfl

theorem deactivateNotification (h : hal.Coherent) : hal.deactivateNotification.Coherent := by
  unfold Hal.deactivateNotification
  split
  · exact h.fail rfl
  · exact h.congr rfl rfl

theorem addTxMessage (h : hal.Coherent) (msg : Message) : (hal.addTxMessage msg).Coherent := by
  unfold Hal.addTxMessage
  split_ifs
  · exact h.fail rfl
  · exact h.congr rfl rfl
  · exact h.fail rfl

theorem receive (h : hal.Coherent) (msg : Message) : (hal.receive msg).Coherent := by
  unfold Hal.receive
  split <;> exact h.congr rfl rfl

/-- Without an error there has been no timeout. -/
theorem ne_error (h : hal.Coherent) (hnone : hal.errorCode = HAL_CAN_ERROR_NONE) :
    hal.state ≠ .error := by
  intro herror
  have htimeout := h.mpr herror
  rw [hnone] at htimeout
  exact absurd htimeout (by decide)

/-- A timeout is told only where it has left the driver. -/
theorem error_of_timeout (h : hal.Coherent) (hcode : hal.errorCode = HAL_CAN_ERROR_TIMEOUT) :
    hal.state = .error := by
  refine h.mp ?_
  rw [hcode]
  decide

end Hal.Coherent

end WODrive.Can
