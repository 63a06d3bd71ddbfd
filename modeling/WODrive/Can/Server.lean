import WODrive.Can.Driver

/-!
# The CAN server (communication/interface_can.cpp)

Frames arrive in a FIFO of the peripheral. Its interrupt releases a semaphore and switches
itself off; the server thread takes the semaphore, or has waited 10 ms, empties the FIFO and
switches the interrupt on again. Answers and the heartbeats of the axes, which are threads of
their own, go to the three transmit mailboxes. Hosts that set the baud rate stop the peripheral
and start it again. The steps of the threads, of the interrupt and of the peripheral come in any
order. The calls of the driver are atomic.

`server_inOrder`: every frame that is not overwritten in the FIFO is handled once, in the order
of arrival, and unless the driver has refused to switch the interrupt on, the server does not
wait for a frame that has arrived without being woken.
-/

namespace WODrive.Can

/-! ## The threads -/

namespace Hal

/-- `ODriveCAN::available` -/
def available (hal : Hal) : Nat :=
  hal.getRxFifoFillLevel hal.fifo0 + hal.getRxFifoFillLevel hal.fifo1

/-- `ODriveCAN::read`, unless there is nothing to read, which leaves the header indeterminate. -/
def read (hal : Hal) : Option (Message × Hal) :=
  if hal.state = .error then none
  else
    match hal.fifo0, hal.fifo1 with
    | rxmsg :: fifo0, _ => some (rxmsg, { hal with fifo0 })
    | [], rxmsg :: fifo1 => some (rxmsg, { hal with fifo1 })
    | [], [] => none

end Hal

/-- The calls of the driver in `ODriveCAN::write`. -/
inductive WritePoint where
  | getError
  | getTxMailboxesFreeLevel
  | addTxMessage
deriving DecidableEq

/-- One call of `ODriveCAN::write`, and which is next. -/
def Hal.write (msg : Message) (hal : Hal) : WritePoint → Hal × Option WritePoint
  | .getError =>
    (hal, if hal.errorCode = HAL_CAN_ERROR_NONE then some .getTxMailboxesFreeLevel else none)
  | .getTxMailboxesFreeLevel =>
    (hal, if 0 < hal.getTxMailboxesFreeLevel then some .addTxMessage else none)
  | .addTxMessage => (hal.addTxMessage msg, none)

/-- The calls of the driver in `ODriveCAN::reinit_can`. -/
inductive ReinitPoint where
  | stop
  | init
  | start
  | activateNotification
deriving DecidableEq

/-- One call of `ODriveCAN::reinit_can`, and which is next. -/
def Hal.reinitCan (hal : Hal) : ReinitPoint → Hal × Option ReinitPoint
  | .stop => (hal.stop, some .init)
  | .init => (hal.init, some .start)
  | .start => (hal.start.2, if hal.start.1 = .ok then some .activateNotification else none)
  | .activateNotification => (hal.activateNotification, none)

/-- What `can_server_thread` does next. -/
inductive ServerPoint where
  | getError
  | resetError
  | start
  /-- `rt_sem_take`, until there is a token or the time is up. -/
  | take
  | available
  | read
  | handle (rxmsg : Message)
  /-- The answers to be written. -/
  | write (point : WritePoint) (sent : List Sent)
  | activateNotification
deriving DecidableEq

/-- What the thread of an axis does next: `send_heartbeat`, or the rest of it. -/
inductive AxisPoint where
  | sendHeartbeat
  | write (now : BitVec 32) (point : WritePoint) (sent : List Sent)

/-- The threads that serve the hosts, each of which may set the baud rate. -/
inductive Host where
  | usb
  | uart
deriving DecidableEq

structure Server where
  hal : Hal
  /-- `sem_can` -/
  semCan : Nat
  state : State
  point : ServerPoint
  axes : Fin axisCount → AxisPoint
  /-- What is left of `reinit_can`. -/
  hosts : Host → Option ReinitPoint
  /-- `axes[i]->config_.can_heartbeat_rate_ms` -/
  heartbeatRateMs : Fin axisCount → BitVec 32
  /-- `axes[i]->last_heartbeat_` -/
  lastHeartbeat : Fin axisCount → BitVec 32
  /-- The milliseconds since power-up, of which `rt_tick_get` has the lower 32 bits. -/
  time : Nat
  /-- The frames that have arrived and have not been overwritten. -/
  received : List Message
  handled : List Message
  /-- How often the peripheral has been set up again, by a host or by the server itself. -/
  reinits : Nat
  /-- How often the driver has refused to switch the interrupt off. -/
  storms : Nat
  /-- The driver has refused to switch the interrupt on when it was last asked to. -/
  refused : Bool
  /-- When the heartbeats of each axis were due, in order. -/
  heartbeats : Fin axisCount → List Nat

/-- What a thread does after a call of `ODriveCAN::write`: the next one, or the next message. -/
def goOn (sent : Sent) (rest : List Sent) : Option WritePoint → WritePoint × List Sent
  | some point => (point, sent :: rest)
  | none => (.getError, rest)

/-- One step of `can_server_thread`, unless the controller resets or the message to be handled
is indeterminate. -/
def Server.serve (s : Server) : Option Server :=
  match s.point with
  | .getError =>
    some { s with
      point :=
        if s.hal.errorCode = HAL_CAN_ERROR_NONE then .take
        else if s.hal.errorCode = HAL_CAN_ERROR_TIMEOUT then .resetError
        else .getError }
  | .resetError => some { s with hal := s.hal.resetError, point := .start }
  | .start =>
    let (status, hal) := s.hal.start
    if status = .ok then
      some { s with hal, point := .activateNotification, reinits := s.reinits + 1 }
    else some { s with hal, point := .getError }
  | .take => some { s with semCan := s.semCan - 1, point := .available }
  | .available =>
    some { s with point := if 0 < s.hal.available then .read else .activateNotification }
  | .read => s.hal.read.map fun (rxmsg, hal) => { s with hal, point := .handle rxmsg }
  | .handle rxmsg =>
    (handleCanMessage rxmsg s.state).map fun (sent, state) =>
      { s with state, point := .write .getError sent, handled := s.handled ++ [rxmsg] }
  | .write _ [] => some { s with point := .available }
  | .write point (sent :: rest) =>
    let (hal, next) := s.hal.write sent.msg point
    let (point, sent) := goOn sent rest next
    some { s with hal, point := .write point sent }
  | .activateNotification =>
    some { s with
      hal := s.hal.activateNotification
      point := .getError
      refused := decide (s.hal.state = .error) }

/-- One step of `send_heartbeat`. -/
def Server.sendHeartbeat (i : Fin axisCount) (s : Server) : Server :=
  match s.axes i with
  | .sendHeartbeat =>
    let now := BitVec.ofNat 32 s.time
    if 0 < s.heartbeatRateMs i ∧ s.heartbeatRateMs i ≤ now - s.lastHeartbeat i then
      { s with
        axes := Function.update s.axes i (.write now .getError (Can.sendHeartbeat i s.state))
        heartbeats := Function.update s.heartbeats i (s.heartbeats i ++ [s.time]) }
    else s
  | .write now _ [] =>
    { s with
      axes := Function.update s.axes i .sendHeartbeat
      lastHeartbeat := Function.update s.lastHeartbeat i now }
  | .write now point (sent :: rest) =>
    let (hal, next) := s.hal.write sent.msg point
    let (point, sent) := goOn sent rest next
    { s with hal, axes := Function.update s.axes i (.write now point sent) }

/-- One step of `set_baud_rate`, with one of the rates there are. -/
def Server.setBaudRate (host : Host) (s : Server) : Server :=
  match s.hosts host with
  | none => { s with hosts := Function.update s.hosts host (some .stop) }
  | some point =>
    let (hal, next) := s.hal.reinitCan point
    let s := { s with hal, hosts := Function.update s.hosts host next }
    if point = .activateNotification then
      { s with reinits := s.reinits + 1, refused := decide (s.hal.state = .error) }
    else s

inductive ServerEvent where
  | serve
  | sendHeartbeat (i : Fin axisCount)
  | setBaudRate (host : Host)
  /-- A millisecond is over. -/
  | tick
  | receive (msg : Message)
  /-- A mailbox is empty again. -/
  | transmit (mailbox : Nat)
  /-- From now on the peripheral acknowledges requests in time, or does not. -/
  | acknowledge (inTime : Bool)
  /-- The interrupt, which is not there unless it is enabled and a frame is pending. -/
  | rxFifo0MsgPending
  /-- Whatever else the firmware does to the axes. -/
  | update (state : State)

def Server.step (s : Server) : ServerEvent → Option Server
  | .serve => s.serve
  | .sendHeartbeat i => some (s.sendHeartbeat i)
  | .setBaudRate host => some (s.setBaudRate host)
  | .tick => some { s with time := s.time + 1 }
  | .receive msg =>
    some { s with
      hal := s.hal.receive msg
      received :=
        (if s.hal.fifo0.length < 3 then s.received else s.received.dropLast) ++ [msg] }
  | .transmit mailbox =>
    some { s with hal := { s.hal with mailboxes := s.hal.mailboxes.eraseIdx mailbox } }
  | .acknowledge inTime => some { s with hal := { s.hal with acknowledges := inTime } }
  | .rxFifo0MsgPending =>
    if s.hal.notification = true ∧ s.hal.fifo0 ≠ [] then
      some { s with
        hal := s.hal.deactivateNotification
        semCan := s.semCan + 1
        storms := if s.hal.state = .error then s.storms + 1 else s.storms }
    else some s
  | .update state => some { s with state }

abbrev Server.Steps (s : Server) (e : ServerEvent) (t : Server) : Prop := s.step e = some t

/-- `start_can_server` has succeeded. -/
def Server.start (state : State) (heartbeatRateMs : Fin axisCount → BitVec 32) : Server where
  hal :=
    { state := .listening
      errorCode := HAL_CAN_ERROR_NONE
      fifo0 := []
      fifo1 := []
      notification := true
      mailboxes := []
      acknowledges := true }
  semCan := 0
  state := state
  point := .getError
  axes := fun _ => .sendHeartbeat
  hosts := fun _ => none
  heartbeatRateMs := heartbeatRateMs
  lastHeartbeat := fun _ => 0
  time := 0
  received := []
  handled := []
  reinits := 0
  storms := 0
  refused := false
  heartbeats := fun _ => []

variable {s t : Server} {e : ServerEvent} {es : List ServerEvent} {hal : Hal} {msg : Message}
  {i : Fin axisCount}

/-! ## The order of the frames -/

/-- The server is at a point at which its loop may wait. -/
def ServerPoint.Waits : ServerPoint → Prop
  | .getError | .resetError | .start | .take => True
  | _ => False

instance (point : ServerPoint) : Decidable point.Waits := by
  cases point <;> unfold ServerPoint.Waits <;> infer_instance

/-- The frame that has been read and not yet handled. -/
def ServerPoint.unhandled : ServerPoint → List Message
  | .handle rxmsg => [rxmsg]
  | _ => []

/-- The frames, the interrupt and the semaphore. -/
structure Ordered (s : Server) : Prop where
  /-- Frames are handled in the order of arrival, and none is lost. -/
  order : s.handled ++ s.point.unhandled ++ s.hal.fifo0 = s.received
  /-- Nothing waits for the 10 ms to be over: the interrupt is on, or it has been there. -/
  awake : s.point.Waits → s.refused = false → s.hal.notification = true ∨ 0 < s.semCan
  /-- Tokens do not pile up. -/
  tokens : s.semCan + (if s.hal.notification then 1 else 0) ≤
    (if s.point.Waits then 2 else 1) + s.reinits + s.storms
  fifo1 : s.hal.fifo1 = []
  pending : s.point = .read → s.hal.fifo0 ≠ []

/-- Nothing that `Ordered` is about has changed. -/
structure SameOrder (s t : Server) : Prop where
  reception : SameReception s.hal t.hal
  point : t.point = s.point
  semCan : t.semCan = s.semCan
  received : t.received = s.received
  handled : t.handled = s.handled
  reinits : t.reinits = s.reinits
  storms : t.storms = s.storms
  refused : t.refused = s.refused

theorem Ordered.congr (h : Ordered s) (hst : SameOrder s t) : Ordered t where
  order := by
    rw [hst.handled, hst.point, hst.reception.fifo0, hst.received]
    exact h.order
  awake := by
    rw [hst.point, hst.refused, hst.reception.notification, hst.semCan]
    exact h.awake
  tokens := by
    rw [hst.point, hst.reception.notification, hst.semCan, hst.reinits, hst.storms]
    exact h.tokens
  fifo1 := hst.reception.fifo1.trans h.fifo1
  pending := by
    rw [hst.point, hst.reception.fifo0]
    exact h.pending

theorem sameReception_write (msg : Message) (hal : Hal) (point : WritePoint) :
    SameReception hal (hal.write msg point).1 := by
  cases point with
  | getError => exact .refl hal
  | getTxMailboxesFreeLevel => exact .refl hal
  | addTxMessage => exact sameReception_addTxMessage msg hal

theorem sameOrder_sendHeartbeat (i : Fin axisCount) (s : Server) :
    SameOrder s (s.sendHeartbeat i) := by
  unfold Server.sendHeartbeat
  split
  · dsimp only
    split <;> exact ⟨.refl _, rfl, rfl, rfl, rfl, rfl, rfl, rfl⟩
  · exact ⟨.refl _, rfl, rfl, rfl, rfl, rfl, rfl, rfl⟩
  next now point sent rest haxis =>
    exact ⟨sameReception_write sent.msg s.hal point, rfl, rfl, rfl, rfl, rfl, rfl, rfl⟩

/-- The server goes on without a frame, a token or the interrupt. -/
theorem Ordered.goOn (h : Ordered s) {before point : ServerPoint} (hpoint : s.point = before)
    (hwaits : point.Waits ↔ before.Waits) (hunhandled : point.unhandled = before.unhandled)
    (hread : point = .read → s.hal.fifo0 ≠ []) (hhal : SameReception s.hal hal) :
    Ordered { s with hal, point } := by
  obtain ⟨hfifo0, hfifo1, hnotification⟩ := hhal
  rw [← hpoint] at hwaits hunhandled
  refine ⟨?_, ?_, ?_, hfifo1.trans h.fifo1, ?_⟩
  · rw [hunhandled, hfifo0]
    exact h.order
  · rw [hwaits, hnotification]
    exact h.awake
  · simp only [hwaits, hnotification]
    exact h.tokens
  · rw [hfifo0]
    exact hread

/-- The server starts the peripheral again, after a timeout. -/
theorem Ordered.start (h : Ordered s) (hpoint : s.point = .start) :
    Ordered { s with
      hal := s.hal.start.2, point := .activateNotification, reinits := s.reinits + 1 } := by
  obtain ⟨hfifo0, hfifo1, hnotification⟩ := sameReception_start s.hal
  have htokens := h.tokens
  rw [hpoint] at htokens
  refine ⟨?_, False.elim, ?_, hfifo1.trans h.fifo1, nofun⟩
  · rw [hfifo0, ← h.order, hpoint]
    rfl
  · rw [hnotification]
    show _ ≤ 1 + (s.reinits + 1) + s.storms
    exact htokens.trans (by simp [ServerPoint.Waits]; omega)

theorem Ordered.take (h : Ordered s) (hpoint : s.point = .take) :
    Ordered { s with semCan := s.semCan - 1, point := .available } := by
  obtain ⟨horder, hawake, htokens, hfifo1, -⟩ := h
  rw [hpoint] at horder hawake
  have htokens' : s.semCan + (if s.hal.notification then 1 else 0) ≤
      2 + s.reinits + s.storms :=
    htokens.trans (by split <;> omega)
  refine ⟨horder, False.elim, ?_, hfifo1, nofun⟩
  show s.semCan - 1 + (if s.hal.notification then 1 else 0) ≤ 1 + s.reinits + s.storms
  cases hnotification : s.hal.notification with
  | true =>
    rw [hnotification, if_pos rfl] at htokens'
    simp only [if_true]
    omega
  | false =>
    rw [hnotification] at htokens'
    simp only [Bool.false_eq_true, if_false, add_zero] at htokens' ⊢
    omega

theorem Ordered.read (h : Ordered s) (hpoint : s.point = .read) {rxmsg : Message} {hal : Hal}
    (hread : s.hal.read = some (rxmsg, hal)) :
    Ordered { s with hal, point := .handle rxmsg } := by
  obtain ⟨horder, -, htokens, hfifo1, hpending⟩ := h
  rw [hpoint] at horder htokens
  unfold Hal.read at hread
  split at hread
  · cases hread
  · cases hfifo0 : s.hal.fifo0 with
    | nil => exact absurd hfifo0 (hpending hpoint)
    | cons msg fifo0 =>
      simp only [hfifo0, Option.some.injEq, Prod.mk.injEq] at hread
      obtain ⟨rfl, rfl⟩ := hread
      refine ⟨?_, False.elim, htokens, hfifo1, nofun⟩
      rw [← horder, hfifo0]
      simp [ServerPoint.unhandled]

theorem Ordered.handle (h : Ordered s) {rxmsg : Message} (hpoint : s.point = .handle rxmsg)
    (sent : List Sent) (state : State) :
    Ordered { s with
      state, point := .write .getError sent, handled := s.handled ++ [rxmsg] } := by
  obtain ⟨horder, -, htokens, hfifo1, -⟩ := h
  rw [hpoint] at horder htokens
  refine ⟨?_, False.elim, htokens, hfifo1, nofun⟩
  rw [← horder]
  simp [ServerPoint.unhandled]

/-- What there is to wait for after the interrupt has been switched on. -/
theorem activateNotification_awake (hal : Hal) (hrefused : decide (hal.state = .error) = false) :
    hal.activateNotification.notification = true := by
  unfold Hal.activateNotification
  rw [if_neg (of_decide_eq_false hrefused)]

theorem activateNotification_fifo (hal : Hal) :
    hal.activateNotification.fifo0 = hal.fifo0 ∧ hal.activateNotification.fifo1 = hal.fifo1 := by
  unfold Hal.activateNotification
  split <;> exact ⟨rfl, rfl⟩

theorem Ordered.activateNotification (h : Ordered s) (hpoint : s.point = .activateNotification) :
    Ordered { s with
      hal := s.hal.activateNotification
      point := .getError
      refused := decide (s.hal.state = .error) } := by
  obtain ⟨horder, -, htokens, hfifo1, -⟩ := h
  obtain ⟨hfifo0', hfifo1'⟩ := activateNotification_fifo s.hal
  rw [hpoint] at horder htokens
  refine ⟨?_, fun _ hrefused => .inl (activateNotification_awake s.hal hrefused), ?_,
    hfifo1'.trans hfifo1, nofun⟩
  · rw [hfifo0']
    exact horder
  · have htoken : s.semCan ≤ 1 + s.reinits + s.storms := (Nat.le_add_right _ _).trans htokens
    show s.semCan + (if s.hal.activateNotification.notification then 1 else 0) ≤
      2 + s.reinits + s.storms
    split <;> omega

/-- One step of the server thread. -/
theorem Ordered.serve (h : Ordered s) (ht : s.serve = some t) : Ordered t := by
  unfold Server.serve at ht
  cases hpoint : s.point with
  | getError =>
    simp only [hpoint, Option.some.injEq] at ht
    subst ht
    split_ifs <;> exact h.goOn hpoint Iff.rfl rfl nofun (.refl _)
  | resetError =>
    simp only [hpoint, Option.some.injEq] at ht
    subst ht
    exact h.goOn hpoint Iff.rfl rfl nofun (sameReception_resetError _)
  | start =>
    simp only [hpoint] at ht
    split at ht
    · cases ht
      exact h.start hpoint
    · cases ht
      exact h.goOn hpoint Iff.rfl rfl nofun (sameReception_start _)
  | take =>
    simp only [hpoint, Option.some.injEq] at ht
    subst ht
    exact h.take hpoint
  | available =>
    simp only [hpoint, Option.some.injEq] at ht
    subst ht
    split_ifs with havailable
    · refine h.goOn hpoint Iff.rfl rfl (fun _ hnil => ?_) (.refl _)
      simp [Hal.available, Hal.getRxFifoFillLevel, hnil, h.fifo1] at havailable
    · exact h.goOn hpoint Iff.rfl rfl nofun (.refl _)
  | read =>
    simp only [hpoint, Option.map_eq_some_iff] at ht
    obtain ⟨⟨rxmsg, hal⟩, hread, rfl⟩ := ht
    exact h.read hpoint hread
  | handle rxmsg =>
    simp only [hpoint, Option.map_eq_some_iff] at ht
    obtain ⟨⟨sent, state⟩, -, rfl⟩ := ht
    exact h.handle hpoint sent state
  | write point sent =>
    cases sent with
    | nil =>
      simp only [hpoint, Option.some.injEq] at ht
      subst ht
      exact h.goOn hpoint Iff.rfl rfl nofun (.refl _)
    | cons sent rest =>
      simp only [hpoint, Option.some.injEq] at ht
      subst ht
      exact h.goOn hpoint Iff.rfl rfl nofun (sameReception_write sent.msg s.hal point)
  | activateNotification =>
    simp only [hpoint, Option.some.injEq] at ht
    subst ht
    exact h.activateNotification hpoint

/-- One step of a host that sets the baud rate. -/
theorem Ordered.setBaudRate (h : Ordered s) (host : Host) : Ordered (s.setBaudRate host) := by
  have hcall {hal : Hal} (hosts : Host → Option ReinitPoint) (hhal : SameReception s.hal hal) :
      Ordered { s with hal, hosts } :=
    h.congr ⟨hhal, rfl, rfl, rfl, rfl, rfl, rfl, rfl⟩
  unfold Server.setBaudRate
  cases s.hosts host with
  | none => exact hcall _ (.refl _)
  | some point =>
    cases point with
    | stop => exact hcall _ (sameReception_stop _)
    | init => exact hcall _ (sameReception_init _)
    | start => exact hcall _ (sameReception_start _)
    | activateNotification =>
      obtain ⟨horder, -, htokens, hfifo1, hpending⟩ := h
      obtain ⟨hfifo0', hfifo1'⟩ := activateNotification_fifo s.hal
      simp only [Hal.reinitCan, if_true]
      refine ⟨?_, fun _ hrefused => .inl ?_, ?_, hfifo1'.trans hfifo1, ?_⟩
      · rw [hfifo0']
        exact horder
      · refine activateNotification_awake s.hal ?_
        rw [← hrefused]
        unfold Hal.activateNotification
        split <;> rfl
      · have htoken := (Nat.le_add_right _ _).trans htokens
        show s.semCan + (if s.hal.activateNotification.notification then 1 else 0) ≤
          (if s.point.Waits then 2 else 1) + (s.reinits + 1) + s.storms
        split <;> omega
      · rw [hfifo0']
        exact hpending

/-- A frame arrives. -/
theorem Ordered.receive (h : Ordered s) (ht : s.step (.receive msg) = some t) : Ordered t := by
  obtain ⟨horder, hawake, htokens, hfifo1, hpending⟩ := h
  cases ht
  by_cases hroom : s.hal.fifo0.length < 3
  · simp only [Hal.receive, if_pos hroom]
    refine ⟨?_, hawake, htokens, hfifo1, fun _ => by simp⟩
    show s.handled ++ s.point.unhandled ++ (s.hal.fifo0 ++ [msg]) = s.received ++ [msg]
    rw [← horder, ← List.append_assoc]
  · have hne : s.hal.fifo0 ≠ [] := by
      rintro hnil
      simp [hnil] at hroom
    simp only [Hal.receive, if_neg hroom]
    refine ⟨?_, hawake, htokens, hfifo1, fun _ => by simp⟩
    show s.handled ++ s.point.unhandled ++ (s.hal.fifo0.dropLast ++ [msg]) =
      s.received.dropLast ++ [msg]
    rw [← horder, List.dropLast_append_of_ne_nil hne, ← List.append_assoc]

/-- The interrupt, if there is one. -/
theorem rxFifo0MsgPending_cases (ht : s.Steps .rxFifo0MsgPending t) :
    t = s ∨ s.hal.notification = true ∧
      t = { s with
        hal := s.hal.deactivateNotification
        semCan := s.semCan + 1
        storms := if s.hal.state = .error then s.storms + 1 else s.storms } := by
  change s.step .rxFifo0MsgPending = some t at ht
  simp only [Server.step] at ht
  split at ht
  next hinterrupt => exact .inr ⟨hinterrupt.1, (Option.some.inj ht).symm⟩
  next => exact .inl (Option.some.inj ht).symm

theorem Ordered.rxFifo0MsgPending (h : Ordered s) (ht : s.Steps .rxFifo0MsgPending t) :
    Ordered t := by
  obtain rfl | ⟨hnotification, rfl⟩ := rxFifo0MsgPending_cases ht
  · exact h
  · obtain ⟨horder, -, htokens, hfifo1, hpending⟩ := h
    rw [hnotification, if_pos rfl] at htokens
    unfold Hal.deactivateNotification
    by_cases herror : s.hal.state = .error
    · simp only [if_pos herror]
      refine ⟨horder, fun _ _ => .inr (Nat.succ_pos _), ?_, hfifo1, hpending⟩
      simp only [Hal.fail, hnotification, if_true]
      omega
    · simp only [if_neg herror]
      refine ⟨horder, fun _ _ => .inr (Nat.succ_pos _), ?_, hfifo1, hpending⟩
      simpa using htokens

theorem Ordered.step (h : Ordered s) (ht : s.Steps e t) : Ordered t := by
  cases e with
  | serve => exact h.serve ht
  | sendHeartbeat i =>
    cases ht
    exact h.congr (sameOrder_sendHeartbeat i s)
  | setBaudRate host =>
    cases ht
    exact h.setBaudRate host
  | receive msg => exact h.receive ht
  | rxFifo0MsgPending => exact h.rxFifo0MsgPending ht
  | tick | transmit | acknowledge | update =>
    cases ht
    exact h.congr ⟨⟨rfl, rfl, rfl⟩, rfl, rfl, rfl, rfl, rfl, rfl, rfl⟩

theorem ordered_start (state : State) (heartbeatRateMs : Fin axisCount → BitVec 32) :
    Ordered (.start state heartbeatRateMs) where
  order := rfl
  awake := fun _ _ => .inl rfl
  tokens := by simp [Server.start, ServerPoint.Waits]
  fifo1 := rfl
  pending := nofun

/-- **Frames are handled in order**, whatever the order of the steps. -/
theorem server_inOrder {state : State} {heartbeatRateMs : Fin axisCount → BitVec 32}
    (hrun : Run Server.Steps (.start state heartbeatRateMs) es s) : Ordered s :=
  hrun.invariant (ordered_start state heartbeatRateMs) fun _ _ _ h ht => h.step ht

/-- The controller at power-up, with a heartbeat of each axis every millisecond. -/
def Server.powerUp : Server := .start Bus.powerUp.state fun _ => 1

/-- A message to the second axis, which it does not answer, and one that it does. -/
def estop : Message := ⟨0x022, false, false, 0, .replicate 8 0⟩
def getMotorError : Message := ⟨0x023, false, true, 0, .replicate 8 0⟩

/-- Two messages arrive while the interrupt is off. -/
theorem server_inOrder_two :
    ∃ s, Run Server.Steps .powerUp
      [.receive estop, .rxFifo0MsgPending, .serve, .receive getMotorError, .serve, .serve, .serve,
        .serve] s ∧ s.handled = [estop] ∧ Ordered s := by
  have hcomputes : ([.receive estop, .rxFifo0MsgPending, .serve, .receive getMotorError, .serve,
      .serve, .serve, .serve].foldlM Server.step .powerUp).map Server.handled = some [estop] := by
    decide +kernel
  obtain ⟨s, hrun, hhandled⟩ := Run.exists_foldlM hcomputes
  exact ⟨s, hrun, hhandled, server_inOrder hrun⟩

end WODrive.Can
