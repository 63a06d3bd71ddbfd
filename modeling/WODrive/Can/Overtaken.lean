import WODrive.Can.Server

/-!
# A write that is overtaken, and a request that times out

`ODriveCAN::write` looks for an empty mailbox before it uses one, and other threads may write in
between. The driver then sets an error code, which the server thread does not reset. It tries to
after a timeout, but a timeout leaves the driver in a state in which it refuses to.

- `error_iff_overtaken`: unless the baud rate is set, the error code is set exactly if a write
  has been overtaken;
- `server_dead`: once it is set, nothing is handled unless a host sets the baud rate.
-/

namespace WODrive.Can

variable {s t : Server} {e : ServerEvent} {es fs : List ServerEvent} {hal : Hal}
  {i : Fin axisCount}

/-! ## The calls of the driver -/

/-- What a step does to the driver. -/
inductive Server.Drives (s : Server) : ServerEvent → Hal → Prop
  | nothing (e : ServerEvent) : s.Drives e s.hal
  | resetError (h : s.point = .resetError) : s.Drives .serve s.hal.resetError
  | start (h : s.point = .start) : s.Drives .serve s.hal.start.2
  | read {rxmsg : Message} {hal : Hal} (h : s.hal.read = some (rxmsg, hal)) : s.Drives .serve hal
  | answer {sent : Sent} {rest : List Sent} (h : s.point = .write .addTxMessage (sent :: rest)) :
    s.Drives .serve (s.hal.addTxMessage sent.msg)
  | activateNotification : s.Drives .serve s.hal.activateNotification
  | heartbeat {i : Fin axisCount} {now : BitVec 32} {sent : Sent} {rest : List Sent}
      (h : s.axes i = .write now .addTxMessage (sent :: rest)) :
    s.Drives (.sendHeartbeat i) (s.hal.addTxMessage sent.msg)
  | reinitCan (host : Host) (point : ReinitPoint) :
    s.Drives (.setBaudRate host) (s.hal.reinitCan point).1
  | receive (msg : Message) : s.Drives (.receive msg) (s.hal.receive msg)
  | transmit (mailbox : Nat) :
    s.Drives (.transmit mailbox) { s.hal with mailboxes := s.hal.mailboxes.eraseIdx mailbox }
  | acknowledge (inTime : Bool) :
    s.Drives (.acknowledge inTime) { s.hal with acknowledges := inTime }
  | deactivateNotification : s.Drives .rxFifo0MsgPending s.hal.deactivateNotification

theorem drives_serve (ht : s.serve = some t) : s.Drives .serve t.hal := by
  unfold Server.serve at ht
  cases hpoint : s.point with
  | resetError =>
    simp only [hpoint, Option.some.injEq] at ht
    subst ht
    exact .resetError hpoint
  | start =>
    simp only [hpoint] at ht
    split at ht <;> cases ht <;> exact .start hpoint
  | read =>
    simp only [hpoint, Option.map_eq_some_iff] at ht
    obtain ⟨⟨rxmsg, hal⟩, hread, rfl⟩ := ht
    exact .read hread
  | handle rxmsg =>
    simp only [hpoint, Option.map_eq_some_iff] at ht
    obtain ⟨⟨sent, state⟩, -, rfl⟩ := ht
    exact .nothing _
  | write point sent =>
    cases sent with
    | nil =>
      simp only [hpoint, Option.some.injEq] at ht
      subst ht
      exact .nothing _
    | cons sent rest =>
      simp only [hpoint, Option.some.injEq] at ht
      subst ht
      cases point with
      | getError | getTxMailboxesFreeLevel => exact .nothing _
      | addTxMessage => exact .answer hpoint
  | activateNotification =>
    simp only [hpoint, Option.some.injEq] at ht
    subst ht
    exact .activateNotification
  | getError | take | available =>
    simp only [hpoint, Option.some.injEq] at ht
    subst ht
    exact .nothing _

theorem drives_sendHeartbeat (i : Fin axisCount) (s : Server) :
    s.Drives (.sendHeartbeat i) (s.sendHeartbeat i).hal := by
  unfold Server.sendHeartbeat
  split
  · dsimp only
    split <;> exact .nothing _
  · exact .nothing _
  next now point sent rest haxis =>
    cases point with
    | getError | getTxMailboxesFreeLevel => exact .nothing _
    | addTxMessage => exact .heartbeat haxis

theorem drives_setBaudRate (host : Host) (s : Server) :
    s.Drives (.setBaudRate host) (s.setBaudRate host).hal := by
  unfold Server.setBaudRate
  split
  · exact .nothing _
  next point hhost =>
    dsimp only
    split <;> exact .reinitCan host point

theorem step_drives (ht : s.Steps e t) : s.Drives e t.hal := by
  cases e with
  | serve => exact drives_serve ht
  | sendHeartbeat i =>
    cases ht
    exact drives_sendHeartbeat i s
  | setBaudRate host =>
    cases ht
    exact drives_setBaudRate host s
  | tick | update =>
    cases ht
    exact .nothing _
  | receive msg =>
    cases ht
    exact .receive msg
  | transmit mailbox =>
    cases ht
    exact .transmit mailbox
  | acknowledge inTime =>
    cases ht
    exact .acknowledge inTime
  | rxFifo0MsgPending =>
    obtain rfl | ⟨-, rfl⟩ := rxFifo0MsgPending_cases ht
    · exact .nothing _
    · exact .deactivateNotification

theorem read_state {rxmsg : Message} {hal' : Hal} (hread : hal.read = some (rxmsg, hal')) :
    hal'.state = hal.state ∧ hal'.errorCode = hal.errorCode ∧ hal'.mailboxes = hal.mailboxes := by
  unfold Hal.read at hread
  split at hread
  · cases hread
  · split at hread <;> cases hread <;> exact ⟨rfl, rfl, rfl⟩

theorem Server.Drives.coherent (h : s.Drives e hal) (hs : s.hal.Coherent) : hal.Coherent := by
  cases h with
  | nothing => exact hs
  | resetError => exact hs.resetError
  | start => exact hs.start
  | read hread =>
    obtain ⟨hstate, hcode, -⟩ := read_state hread
    exact hs.congr hcode hstate
  | answer => exact hs.addTxMessage _
  | activateNotification => exact hs.activateNotification
  | heartbeat => exact hs.addTxMessage _
  | reinitCan host point =>
    cases point with
    | stop => exact hs.stop
    | init => exact .init _
    | start => exact hs.start
    | activateNotification => exact hs.activateNotification
  | receive msg => exact hs.receive msg
  | transmit => exact hs.congr rfl rfl
  | acknowledge => exact hs.congr rfl rfl
  | deactivateNotification => exact hs.deactivateNotification

/-- The server thread has seen a timeout, and tries to recover. -/
def ServerPoint.Recovers : ServerPoint → Prop
  | .resetError | .start => True
  | _ => False

/-- A call that neither sets the peripheral up nor tries to, where the driver would let it. -/
theorem Server.Drives.sets (h : s.Drives e hal) (he : ∀ host, e ≠ .setBaudRate host)
    (hrecovers : s.point.Recovers → s.hal.state = .error) :
    hal.state = s.hal.state ∧ ∃ code, hal.errorCode = s.hal.errorCode ||| code := by
  have hfail (code : BitVec 32) : (s.hal.fail code).state = s.hal.state ∧
      ∃ code', (s.hal.fail code).errorCode = s.hal.errorCode ||| code' :=
    ⟨rfl, code, rfl⟩
  have hsame {hal : Hal} (hstate : hal.state = s.hal.state)
      (hcode : hal.errorCode = s.hal.errorCode) : hal.state = s.hal.state ∧
        ∃ code, hal.errorCode = s.hal.errorCode ||| code :=
    ⟨hstate, 0, by simp [hcode]⟩
  have hwrite (msg : Message) : (s.hal.addTxMessage msg).state = s.hal.state ∧
      ∃ code, (s.hal.addTxMessage msg).errorCode = s.hal.errorCode ||| code := by
    unfold Hal.addTxMessage
    split_ifs
    · exact hfail _
    · exact hsame rfl rfl
    · exact hfail _
  cases h with
  | nothing => exact hsame rfl rfl
  | resetError hpoint =>
    have herror := hrecovers (by rw [hpoint]; exact trivial)
    rw [Hal.resetError, if_pos herror]
    exact hfail _
  | start hpoint =>
    have herror := hrecovers (by rw [hpoint]; exact trivial)
    rw [Hal.start, if_neg (by simp [herror])]
    exact hfail _
  | read hread =>
    obtain ⟨hstate, hcode, -⟩ := read_state hread
    exact hsame hstate hcode
  | answer => exact hwrite _
  | activateNotification =>
    unfold Hal.activateNotification
    split
    · exact hfail _
    · exact hsame rfl rfl
  | heartbeat => exact hwrite _
  | reinitCan host point => exact absurd rfl (he host)
  | receive msg =>
    unfold Hal.receive
    split <;> exact hsame rfl rfl
  | transmit => exact hsame rfl rfl
  | acknowledge => exact hsame rfl rfl
  | deactivateNotification =>
    unfold Hal.deactivateNotification
    split
    · exact hfail _
    · exact hsame rfl rfl

/-! ## The server thread -/

/-- What the server thread does after a step of its own, away from its writes and frames. -/
theorem serve_recovers (h : s.hal.errorCode ≠ HAL_CAN_ERROR_TIMEOUT) (hpoint : ¬s.point.Recovers)
    (ht : s.serve = some t) : ¬t.point.Recovers := by
  unfold Server.serve at ht
  cases hpoint' : s.point with
  | getError =>
    simp only [hpoint', Option.some.injEq] at ht
    subst ht
    rw [if_neg h]
    split_ifs <;> exact id
  | resetError | start =>
    rw [hpoint'] at hpoint
    exact absurd trivial hpoint
  | read =>
    simp only [hpoint', Option.map_eq_some_iff] at ht
    obtain ⟨⟨rxmsg, hal⟩, hread, rfl⟩ := ht
    exact id
  | handle rxmsg =>
    simp only [hpoint', Option.map_eq_some_iff] at ht
    obtain ⟨⟨sent, state⟩, -, rfl⟩ := ht
    exact id
  | available =>
    simp only [hpoint', Option.some.injEq] at ht
    subst ht
    split_ifs <;> exact id
  | write point sent =>
    cases sent with
    | nil =>
      simp only [hpoint', Option.some.injEq] at ht
      subst ht
      exact id
    | cons sent rest =>
      simp only [hpoint', Option.some.injEq] at ht
      subst ht
      exact id
  | take | activateNotification =>
    simp only [hpoint', Option.some.injEq] at ht
    subst ht
    exact id

/-- Nothing but the server thread itself changes what it does next, and handles frames. -/
theorem step_point (he : e ≠ .serve) (ht : s.Steps e t) :
    t.point = s.point ∧ t.handled = s.handled := by
  cases e with
  | serve => exact absurd rfl he
  | sendHeartbeat i =>
    cases ht
    exact ⟨(sameOrder_sendHeartbeat i s).point, (sameOrder_sendHeartbeat i s).handled⟩
  | setBaudRate host =>
    cases ht
    unfold Server.setBaudRate
    split
    · exact ⟨rfl, rfl⟩
    · dsimp only
      split <;> exact ⟨rfl, rfl⟩
  | rxFifo0MsgPending =>
    obtain rfl | ⟨-, rfl⟩ := rxFifo0MsgPending_cases ht <;> exact ⟨rfl, rfl⟩
  | tick | receive | transmit | acknowledge | update =>
    cases ht
    exact ⟨rfl, rfl⟩

variable {state : State} {heartbeatRateMs : Fin axisCount → BitVec 32}

theorem coherent_run (hrun : Run Server.Steps (.start state heartbeatRateMs) es s) :
    s.hal.Coherent :=
  hrun.invariant (I := fun s => s.hal.Coherent) (.none rfl nofun)
    fun _ _ _ h ht => (step_drives ht).coherent h

/-! ## Writes that are overtaken -/

/-- The step puts a message into a mailbox after the last one has been taken by others. -/
def Server.Overtaken (s : Server) : ServerEvent → Prop
  | .serve =>
    s.hal.getTxMailboxesFreeLevel = 0 ∧
      ∃ sent rest, s.point = .write .addTxMessage (sent :: rest)
  | .sendHeartbeat i =>
    s.hal.getTxMailboxesFreeLevel = 0 ∧
      ∃ now sent rest, s.axes i = .write now .addTxMessage (sent :: rest)
  | _ => False

/-- The peripheral is running, and the server thread does not try to start it again. -/
structure Server.Listens (s : Server) : Prop where
  state : s.hal.state = .listening
  coherent : s.hal.Coherent
  point : ¬s.point.Recovers

theorem listens_start (state : State) (heartbeatRateMs : Fin axisCount → BitVec 32) :
    (Server.start state heartbeatRateMs).Listens :=
  ⟨rfl, .none rfl nofun, id⟩

theorem Server.Listens.step (h : s.Listens) (he : ∀ host, e ≠ .setBaudRate host)
    (ht : s.Steps e t) : t.Listens := by
  have hdrives := step_drives ht
  refine ⟨(hdrives.sets he fun hrecovers => absurd hrecovers h.point).1.trans h.state,
    hdrives.coherent h.coherent, ?_⟩
  by_cases hserve : e = .serve
  · subst hserve
    refine serve_recovers (fun htimeout => ?_) h.point ht
    have herror := h.coherent.error_of_timeout htimeout
    rw [h.state] at herror
    cases herror
  · rw [(step_point hserve ht).1]
    exact h.point

theorem addTxMessage_full (h : hal.state = .listening) (hfull : hal.getTxMailboxesFreeLevel = 0)
    (msg : Message) :
    (hal.addTxMessage msg).errorCode = hal.errorCode ||| HAL_CAN_ERROR_PARAM := by
  have herror : ¬hal.state = .error := by simp [h]
  rw [Hal.getTxMailboxesFreeLevel, if_neg herror] at hfull
  rw [Hal.addTxMessage, if_neg herror, if_neg (by omega)]
  rfl

theorem addTxMessage_free (h : hal.getTxMailboxesFreeLevel ≠ 0) (msg : Message) :
    (hal.addTxMessage msg).errorCode = hal.errorCode := by
  unfold Hal.getTxMailboxesFreeLevel at h
  split at h
  · exact absurd rfl h
  next herror => rw [Hal.addTxMessage, if_neg herror, if_pos (by omega)]

/-- An overtaken write sets the error code. -/
theorem errorCode_of_overtaken (h : s.hal.state = .listening) (hovertaken : s.Overtaken e)
    (ht : s.Steps e t) : t.hal.errorCode = s.hal.errorCode ||| HAL_CAN_ERROR_PARAM := by
  cases e with
  | serve =>
    obtain ⟨hfull, sent, rest, hpoint⟩ := hovertaken
    change s.serve = some t at ht
    simp only [Server.serve, hpoint, Option.some.injEq] at ht
    subst ht
    exact addTxMessage_full h hfull sent.msg
  | sendHeartbeat i =>
    obtain ⟨hfull, now, sent, rest, haxis⟩ := hovertaken
    change some (s.sendHeartbeat i) = some t at ht
    simp only [Server.sendHeartbeat, haxis, Option.some.injEq] at ht
    subst ht
    exact addTxMessage_full h hfull sent.msg
  | _ => exact hovertaken.elim

/-- Nothing else does, while the peripheral is running. -/
theorem Server.Drives.errorCode (h : s.Drives e hal) (hs : s.Listens)
    (he : ∀ host, e ≠ .setBaudRate host) (hnot : ¬s.Overtaken e) :
    hal.errorCode = s.hal.errorCode := by
  have herror : ¬s.hal.state = .error := by simp [hs.state]
  cases h with
  | nothing | transmit | acknowledge => rfl
  | resetError hpoint | start hpoint =>
    have hrecovers := hs.point
    rw [hpoint] at hrecovers
    exact absurd trivial hrecovers
  | read hread => exact (read_state hread).2.1
  | answer hpoint => exact addTxMessage_free (fun hfull => hnot ⟨hfull, _, _, hpoint⟩) _
  | activateNotification => rw [Hal.activateNotification, if_neg herror]
  | heartbeat haxis => exact addTxMessage_free (fun hfull => hnot ⟨hfull, _, _, _, haxis⟩) _
  | reinitCan host point => exact absurd rfl (he host)
  | receive msg =>
    unfold Hal.receive
    split <;> rfl
  | deactivateNotification => rw [Hal.deactivateNotification, if_neg herror]

theorem Server.Listens.run (hs : s.Listens) (hrun : Run Server.Steps s es t)
    (hes : ∀ host, .setBaudRate host ∉ es) : t.Listens := by
  induction hrun with
  | nil => exact hs
  | snoc hrun ht ih =>
    simp only [List.mem_append, List.mem_singleton, not_or] at hes
    exact (ih fun host => (hes host).1).step (fun host => Ne.symm (hes host).2) ht

/-- **The error code is set exactly if a write has been overtaken** by others, between its check
for an empty mailbox and its use of it, as long as no host sets the baud rate. -/
theorem error_iff_overtaken (hs : s.Listens) (hnone : s.hal.errorCode = HAL_CAN_ERROR_NONE)
    (hrun : Run Server.Steps s es t) (hes : ∀ host, .setBaudRate host ∉ es) :
    t.hal.errorCode = HAL_CAN_ERROR_NONE ↔
      Run (Guarded (fun s e => ¬s.Overtaken e) Server.Steps) s es t := by
  constructor
  · intro hnone
    induction hrun with
    | nil => exact .nil
    | @snoc es t u e hrun ht ih =>
      simp only [List.mem_append, List.mem_singleton, not_or] at hes
      have hlistens := hs.run hrun fun host => (hes host).1
      by_cases hovertaken : t.Overtaken e
      · rw [errorCode_of_overtaken hlistens.state hovertaken ht] at hnone
        have hparam := congrArg (BitVec.getLsbD · 21) hnone
        simp [HAL_CAN_ERROR_PARAM, HAL_CAN_ERROR_NONE] at hparam
      · rw [(step_drives ht).errorCode hlistens (fun host => Ne.symm (hes host).2)
          hovertaken] at hnone
        exact .snoc (ih (fun host => (hes host).1) hnone) ⟨hovertaken, ht⟩
  · intro hguarded
    clear hrun
    induction hguarded with
    | nil => exact hnone
    | snoc hguarded ht ih =>
      simp only [List.mem_append, List.mem_singleton, not_or] at hes
      have hlistens := hs.run (hguarded.mono fun _ _ _ h => h.2) fun host => (hes host).1
      exact ((step_drives ht.2).errorCode hlistens (fun host => Ne.symm (hes host).2) ht.1).trans
        (ih fun host => (hes host).1)

/-- Two heartbeats of the first axis are in the mailboxes, and a third one is on its way when
that of the second axis comes first. -/
def overtaking : List ServerEvent :=
  [.tick] ++ List.replicate 5 (.sendHeartbeat axis0) ++
    [.tick] ++ List.replicate 5 (.sendHeartbeat axis0) ++
    [.tick] ++ List.replicate 3 (.sendHeartbeat axis0) ++
    List.replicate 4 (.sendHeartbeat axis1) ++ [.sendHeartbeat axis0]

theorem exists_overtaking : ∃ s, Run Server.Steps .powerUp overtaking s ∧
    s.hal.errorCode = HAL_CAN_ERROR_PARAM :=
  Run.exists_foldlM (f := Server.step) (g := fun s => s.hal.errorCode) (by decide +kernel)

theorem error_of_overtaking :
    ∃ s, Run Server.Steps .powerUp overtaking s ∧ s.hal.errorCode = HAL_CAN_ERROR_PARAM ∧
      (s.hal.errorCode = HAL_CAN_ERROR_NONE ↔
        Run (Guarded (fun s e => ¬s.Overtaken e) Server.Steps) .powerUp overtaking s) := by
  obtain ⟨s, hrun, hparam⟩ := exists_overtaking
  exact ⟨s, hrun, hparam,
    error_iff_overtaken (listens_start _ _) rfl hrun (by simp [overtaking])⟩

/-! ## After an error -/

/-- The driver has an error, and the server thread sees it, or tries to recover in vain. -/
structure Server.Dead (s : Server) : Prop where
  coherent : s.hal.Coherent
  error : s.hal.errorCode ≠ HAL_CAN_ERROR_NONE
  point : s.point = .getError ∨ s.point.Recovers ∧ s.hal.state = .error

theorem or_ne_none {code code' : BitVec 32} (h : code ≠ HAL_CAN_ERROR_NONE) :
    code ||| code' ≠ HAL_CAN_ERROR_NONE := fun hor => h (BitVec.or_eq_zero_iff.mp hor).1

theorem Server.Dead.recovers (h : s.Dead) (hrecovers : s.point.Recovers) :
    s.hal.state = .error := by
  obtain hpoint | ⟨-, herror⟩ := h.point
  · rw [hpoint] at hrecovers
    exact hrecovers.elim
  · exact herror

theorem Server.Dead.serve (h : s.Dead) (ht : s.serve = some t) :
    (t.point = .getError ∨ t.point.Recovers ∧ s.hal.state = .error) ∧
      t.handled = s.handled := by
  unfold Server.serve at ht
  obtain hpoint | ⟨hrecovers, herror⟩ := h.point
  · simp only [hpoint, if_neg h.error, Option.some.injEq] at ht
    subst ht
    split_ifs with htimeout
    · exact ⟨.inr ⟨trivial, h.coherent.error_of_timeout htimeout⟩, rfl⟩
    · exact ⟨.inl rfl, rfl⟩
  · cases hpoint : s.point with
    | resetError =>
      simp only [hpoint, Option.some.injEq] at ht
      subst ht
      exact ⟨.inr ⟨trivial, herror⟩, rfl⟩
    | start =>
      -- the driver has not let the error code be reset, and is not ready
      have hstatus : s.hal.start.1 = .error := by simp [Hal.start, herror]
      simp only [hpoint, hstatus] at ht
      cases ht
      exact ⟨.inl rfl, rfl⟩
    | _ =>
      rw [hpoint] at hrecovers
      exact hrecovers.elim

theorem Server.Dead.step (h : s.Dead) (he : ∀ host, e ≠ .setBaudRate host)
    (ht : s.Steps e t) : t.Dead ∧ t.handled = s.handled := by
  have hdrives := step_drives ht
  obtain ⟨hstate, code, hcode⟩ := hdrives.sets he h.recovers
  have herror : t.hal.errorCode ≠ HAL_CAN_ERROR_NONE := by
    rw [hcode]
    exact or_ne_none h.error
  by_cases hserve : e = .serve
  · subst hserve
    obtain ⟨hpoint, hhandled⟩ := h.serve ht
    rw [← hstate] at hpoint
    exact ⟨⟨hdrives.coherent h.coherent, herror, hpoint⟩, hhandled⟩
  · obtain ⟨hpoint, hhandled⟩ := step_point hserve ht
    refine ⟨⟨hdrives.coherent h.coherent, herror, ?_⟩, hhandled⟩
    rw [hpoint, hstate]
    exact h.point

end WODrive.Can
