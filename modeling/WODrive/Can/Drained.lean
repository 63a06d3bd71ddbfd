import WODrive.Can.Overtaken

/-!
# An emptied FIFO

`server_drains`: left to run, the server handles all that has arrived, and answers as long as there
are mailboxes for the answers.
-/

namespace WODrive.Can

variable {s t : Server} {e : ServerEvent} {es : List ServerEvent} {hal : Hal} {msg : Message}
  {state : State} {heartbeatRateMs : Fin axisCount → BitVec 32}

/-! ## The mailboxes -/

theorem addTxMessage_mailboxes (h : hal.mailboxes.length ≤ 3) (msg : Message) :
    (hal.addTxMessage msg).mailboxes.length ≤ 3 := by
  unfold Hal.addTxMessage
  split_ifs with herror hfree
  · exact h
  · rw [List.length_append, List.length_singleton]
    exact hfree
  · exact h

theorem activateNotification_mailboxes (hal : Hal) :
    hal.activateNotification.mailboxes = hal.mailboxes := by
  unfold Hal.activateNotification
  split <;> rfl

theorem Server.Drives.mailboxes (h : s.Drives e hal) (hs : s.hal.mailboxes.length ≤ 3) :
    hal.mailboxes.length ≤ 3 := by
  cases h with
  | nothing | acknowledge => exact hs
  | resetError =>
    unfold Hal.resetError
    split <;> exact hs
  | start =>
    unfold Hal.start
    split_ifs <;> exact hs
  | read hread =>
    rw [(read_state hread).2.2]
    exact hs
  | answer => exact addTxMessage_mailboxes hs _
  | activateNotification => exact (activateNotification_mailboxes _).symm ▸ hs
  | heartbeat => exact addTxMessage_mailboxes hs _
  | reinitCan host point =>
    cases point with
    | stop =>
      simp only [Hal.reinitCan, Hal.stop]
      split_ifs <;> exact hs
    | init =>
      simp only [Hal.reinitCan, Hal.init]
      split <;> exact hs
    | start =>
      simp only [Hal.reinitCan, Hal.start]
      split_ifs <;> exact hs
    | activateNotification => exact (activateNotification_mailboxes _).symm ▸ hs
  | receive msg =>
    unfold Hal.receive
    split <;> exact hs
  | transmit mailbox => exact (List.length_eraseIdx_le ..).trans hs
  | deactivateNotification =>
    unfold Hal.deactivateNotification
    split <;> exact hs

theorem mailboxes_run (hrun : Run Server.Steps (.start state heartbeatRateMs) es s) :
    s.hal.mailboxes.length ≤ 3 :=
  hrun.invariant (I := fun s => s.hal.mailboxes.length ≤ 3) (Nat.zero_le 3)
    fun _ _ _ h ht => (step_drives ht).mailboxes h

/-! ## The server thread on its own -/

/-- The server thread alone gets from one state to the other. -/
def Serves (s t : Server) : Prop := ∃ n, Run Server.Steps s (List.replicate n .serve) t

theorem Serves.refl (s : Server) : Serves s s := ⟨0, .nil⟩

theorem Serves.head {u : Server} (hst : s.serve = some t) (htu : Serves t u) : Serves s u := by
  obtain ⟨n, hrun⟩ := htu
  exact ⟨n + 1, .cons hst hrun⟩

theorem Serves.trans {u : Server} (hst : Serves s t) (htu : Serves t u) : Serves s u := by
  obtain ⟨n, hrun⟩ := hst
  obtain ⟨k, hrun'⟩ := htu
  refine ⟨n + k, ?_⟩
  rw [List.replicate_add]
  exact hrun.append hrun'

/-- The frames of the state are handled one after the other: all answers, and the state. -/
def handleAll : List Message → State → Option (List Sent × State)
  | [], state => some ([], state)
  | msg :: msgs, state => do
    let (sent, state) ← handleCanMessage msg state
    let (rest, state) ← handleAll msgs state
    return (sent ++ rest, state)

/-- Messages are put into the mailboxes that are empty, and dropped when there are none. -/
def Hal.sends (sent : List Sent) (hal : Hal) : Hal :=
  { hal with mailboxes := (hal.mailboxes ++ sent.map Sent.msg).take 3 }

theorem sends_append (sent rest : List Sent) (hal : Hal) :
    (hal.sends sent).sends rest = hal.sends (sent ++ rest) := by
  have htake (msgs rest : List Message) :
      (msgs.take 3 ++ rest).take 3 = (msgs ++ rest).take 3 := by
    rw [List.take_append, List.take_append, List.take_take, List.length_take]
    congr 2
    omega
  simp only [Hal.sends, List.map_append, htake, List.append_assoc]

/-- The driver is without an error. -/
structure Hal.Works (hal : Hal) : Prop where
  errorCode : hal.errorCode = HAL_CAN_ERROR_NONE
  state : hal.state ≠ .error
  mailboxes : hal.mailboxes.length ≤ 3

theorem Hal.Works.sends (h : hal.Works) (sent : List Sent) : (hal.sends sent).Works :=
  ⟨h.errorCode, h.state, List.length_take_le ..⟩

theorem addTxMessage_eq_sends (h : hal.Works) (hfree : 0 < hal.getTxMailboxesFreeLevel)
    (sent : Sent) : hal.addTxMessage sent.msg = hal.sends [sent] := by
  rw [Hal.getTxMailboxesFreeLevel, if_neg h.state] at hfree
  rw [Hal.addTxMessage, if_neg h.state, if_pos (by omega), Hal.sends, List.take_of_length_le]
  · rfl
  · simp
    omega

theorem sends_of_full (h : hal.Works) (hfull : ¬0 < hal.getTxMailboxesFreeLevel)
    (sent : List Sent) : hal.sends sent = hal := by
  rw [Hal.getTxMailboxesFreeLevel, if_neg h.state] at hfull
  have hlength : hal.mailboxes.length = 3 := by
    have := h.mailboxes
    omega
  rw [Hal.sends, ← hlength, List.take_left]

theorem sends_nil (h : hal.Works) : hal.sends [] = hal := by
  rw [Hal.sends, List.map_nil, List.append_nil, List.take_of_length_le h.mailboxes]

/-- One answer is written, or there is no mailbox for it. -/
theorem serves_answer {sent : Sent} {rest : List Sent}
    (hpoint : s.point = .write .getError (sent :: rest)) (hworks : s.hal.Works) :
    Serves s { s with hal := s.hal.sends [sent], point := .write .getError rest } := by
  have hchecked : s.serve =
      some { s with point := .write .getTxMailboxesFreeLevel (sent :: rest) } := by
    simp [Server.serve, hpoint, Hal.write, hworks.errorCode, goOn]
  by_cases hfree : 0 < s.hal.getTxMailboxesFreeLevel
  · rw [← addTxMessage_eq_sends hworks hfree]
    refine .head hchecked (.head (t := { s with point := .write .addTxMessage (sent :: rest) }) ?_
      (.head ?_ (.refl _)))
    · simp [Server.serve, Hal.write, hfree, goOn]
    · simp [Server.serve, Hal.write, goOn]
  · rw [sends_of_full hworks hfree]
    refine .head hchecked (.head ?_ (.refl _))
    simp [Server.serve, Hal.write, hfree, goOn]

theorem serves_answers {sent : List Sent} (hpoint : s.point = .write .getError sent)
    (hworks : s.hal.Works) :
    Serves s { s with hal := s.hal.sends sent, point := .available } := by
  induction sent generalizing s with
  | nil =>
    rw [sends_nil hworks]
    refine .head ?_ (.refl _)
    simp [Server.serve, hpoint]
  | cons sent rest ih =>
    have hrest := ih (s := { s with hal := s.hal.sends [sent], point := .write .getError rest })
      rfl (hworks.sends [sent])
    rw [sends_append] at hrest
    exact (serves_answer hpoint hworks).trans hrest

/-- The message is not the command to reset the controller. -/
def Message.Returns (msg : Message) : Prop :=
  (getCmdId msg.id).setWidth 32 ≠ MSG_RESET_ODRIVE

instance (msg : Message) : Decidable msg.Returns := inferInstanceAs (Decidable (_ ≠ _))

theorem isSome_ite {α : Type} {p : Prop} [Decidable p] {r r' : Option α} (h : r.isSome = true)
    (h' : r'.isSome = true) : (if p then r else r').isSome = true := by
  split
  · exact h
  · exact h'

theorem Message.Returns.command {vbusVoltage : BitVec 32} {axis : Axis} (h : msg.Returns) :
    ∃ r, command vbusVoltage axis msg = some r := by
  unfold Can.command
  refine Option.isSome_iff_exists.mp ?_
  simp only [if_neg (show ¬(getCmdId msg.id).setWidth 32 = MSG_RESET_ODRIVE from h)]
  repeat refine isSome_ite rfl ?_
  rfl

theorem Message.Returns.handle (h : msg.Returns) (state : State) :
    ∃ sent state', handleCanMessage msg state = some (sent, state') := by
  unfold handleCanMessage
  dsimp only
  split
  · exact ⟨_, _, rfl⟩
  · obtain ⟨r, hr⟩ := h.command
    rw [hr]
    exact ⟨_, _, rfl⟩

/-- The loop over the frames. -/
theorem serves_frames {fifo0 : List Message} (hfifo0 : s.hal.fifo0 = fifo0)
    (hpoint : s.point = .available) (hfifo1 : s.hal.fifo1 = []) (hworks : s.hal.Works)
    (hreturns : ∀ msg ∈ fifo0, msg.Returns) :
    ∃ sent state', handleAll fifo0 s.state = some (sent, state') ∧
      Serves s { s with
        hal := { s.hal.sends sent with fifo0 := [] }
        state := state'
        point := .activateNotification
        handled := s.handled ++ fifo0 } := by
  induction fifo0 generalizing s with
  | nil =>
    have hempty : { s.hal with fifo0 := [] } = s.hal := by rw [← hfifo0]
    refine ⟨[], s.state, rfl, ?_⟩
    rw [sends_nil hworks, hempty, List.append_nil]
    refine .head ?_ (.refl _)
    simp [Server.serve, hpoint, Hal.available, Hal.getRxFifoFillLevel, hfifo0, hfifo1]
  | cons msg fifo0 ih =>
    obtain ⟨hmsg, hrest⟩ := List.forall_mem_cons.mp hreturns
    obtain ⟨sent, state', hhandle⟩ := hmsg.handle s.state
    have havailable : s.serve = some { s with point := .read } := by
      simp [Server.serve, hpoint, Hal.available, Hal.getRxFifoFillLevel, hfifo0, hworks.state]
    have hread : { s with point := .read }.serve =
        some { s with hal := { s.hal with fifo0 }, point := .handle msg } := by
      simp [Server.serve, Hal.read, hfifo0, hworks.state]
    set answering : Server :=
      { s with
        hal := { s.hal with fifo0 }
        state := state'
        point := .write .getError sent
        handled := s.handled ++ [msg] } with hanswering
    have hhandle' : { s with hal := { s.hal with fifo0 }, point := .handle msg }.serve =
        some answering := by
      simp [Server.serve, hhandle, hanswering]
    have hworks' : answering.hal.Works := ⟨hworks.errorCode, hworks.state, hworks.mailboxes⟩
    have hanswers := serves_answers (s := answering) rfl hworks'
    obtain ⟨rest, state'', hall, hserves⟩ :=
      ih (s := { answering with hal := answering.hal.sends sent, point := .available }) rfl rfl
        hfifo1 (hworks'.sends sent) hrest
    refine ⟨sent ++ rest, state'', ?_, ?_⟩
    · simp only [handleAll, hhandle, Option.bind_eq_bind, Option.bind_some]
      change handleAll fifo0 state' = some (rest, state'') at hall
      rw [hall]
      rfl
    · rw [sends_append] at hserves
      have hloop := Serves.head havailable (.head hread (.head hhandle' (hanswers.trans hserves)))
      simpa [hanswering, Hal.sends] using hloop

/-- **Left to run, the server handles all that has arrived**, and its answers are in the mailboxes
as far as there are any left, as long as there is no error and no frame resets the controller. -/
theorem server_drains (hrun : Run Server.Steps (.start state heartbeatRateMs) es s)
    (herror : s.hal.errorCode = HAL_CAN_ERROR_NONE) (hpoint : s.point = .getError)
    (hreturns : ∀ msg ∈ s.hal.fifo0, msg.Returns) :
    ∃ sent state', handleAll s.hal.fifo0 s.state = some (sent, state') ∧
      ∃ t, Serves s t ∧ t.point = .getError ∧ t.handled = s.received ∧ t.state = state' ∧
        t.hal.mailboxes = (s.hal.mailboxes ++ sent.map Sent.msg).take 3 := by
  have hordered := hrun.invariant (ordered_start state heartbeatRateMs) fun _ _ _ h ht => h.step ht
  have horder := hordered.order
  rw [hpoint] at horder
  simp only [ServerPoint.unhandled, List.append_nil] at horder
  have hworks : s.hal.Works :=
    ⟨herror, (coherent_run hrun).ne_error herror, mailboxes_run hrun⟩
  have hchecked : s.serve = some { s with point := .take } := by
    simp [Server.serve, hpoint, herror]
  set draining : Server := { s with semCan := s.semCan - 1, point := .available } with hdraining
  have htaken : { s with point := .take }.serve = some draining := by
    simp [Server.serve, hdraining]
  obtain ⟨sent, state', hall, hserves⟩ := serves_frames (s := draining) rfl rfl hordered.fifo1
    hworks hreturns
  refine ⟨sent, state', hall, _, .head hchecked (.head htaken (hserves.trans (.head rfl
    (.refl _)))), rfl, horder, rfl, activateNotification_mailboxes _⟩

/-- Both frames are handled, one of which is answered. -/
theorem server_drains_two :
    ∃ s, Run Server.Steps .powerUp [.receive estop, .receive getMotorError] s ∧
      ∃ sent state', handleAll s.hal.fifo0 s.state = some (sent, state') ∧
        ∃ t, Serves s t ∧ t.point = .getError ∧ t.handled = s.received ∧ t.state = state' ∧
          t.hal.mailboxes = (s.hal.mailboxes ++ sent.map Sent.msg).take 3 := by
  have hcomputes : ([.receive estop, .receive getMotorError].foldlM Server.step .powerUp).map
      (fun s => (s.hal.errorCode, s.point, s.hal.fifo0)) =
        some (HAL_CAN_ERROR_NONE, .getError, [estop, getMotorError]) := by
    decide +kernel
  obtain ⟨s, hrun, heq⟩ := Run.exists_foldlM hcomputes
  obtain ⟨herror, heq⟩ := Prod.mk.inj heq
  obtain ⟨hpoint, hfifo0⟩ := Prod.mk.inj heq
  refine ⟨s, hrun, server_drains hrun herror hpoint ?_⟩
  rw [hfifo0]
  decide

end WODrive.Can
