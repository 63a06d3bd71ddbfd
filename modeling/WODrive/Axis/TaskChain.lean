import WODrive.Axis.StateMachine

/-!
# The task chain

The array `task_chain_` keeps entries of older chains behind the `UNDEFINED` that ends
the current one. What counts is its `live` part, the entries in front of the first
`UNDEFINED`: loading a request makes it the chain of the request (`loadTaskChain_live`),
a success drops its first entry and a failure makes it `[IDLE]` (`live_advance`).

`Inv` relates it to the states executed since the last request was accepted: either
they and the live part make up the chain of the request, or the chain is over and what
is left is idling. `disciplined_run` reads the discipline of every run off it.
-/

namespace WODrive.Axis

/-! ## The live part of the chain -/

/-- The entries in front of the first `UNDEFINED`. -/
def live (chain : TaskChain) : List AxisState :=
  chain.toList.takeWhile (· ≠ .UNDEFINED)

theorem toList_eq_head_cons (chain : TaskChain) :
    chain.toList = chain.head :: chain.toList.tail := by
  obtain ⟨x, xs, hx⟩ : ∃ x xs, chain.toList = x :: xs := by
    cases hlist : chain.toList with
    | nil =>
      have hlen := chain.length_toList
      rw [hlist] at hlen
      cases hlen
    | cons x xs => exact ⟨x, xs, rfl⟩
  have hhead : chain.head = x := by
    have hget : chain.toList[0]? = some x := by rw [hx]; rfl
    simpa [Vector.head] using hget
  rw [hhead, hx]
  rfl

theorem live_of_head {chain : TaskChain} (h : chain.head ≠ .UNDEFINED) :
    live chain = chain.head :: chain.toList.tail.takeWhile (· ≠ .UNDEFINED) := by
  unfold live
  rw [toList_eq_head_cons chain, List.takeWhile_cons_of_pos (by simpa using h)]
  rfl

theorem rotate_toList (chain : TaskChain) :
    (rotate chain).toList = chain.toList.tail ++ [.UNDEFINED] := by
  have hlen : chain.toList.tail.length = taskChainSize - 1 := by simp
  unfold rotate
  rw [Vector.toList_setIfInBounds]
  show (chain.toList.rotate 1).set _ _ = _
  rw [toList_eq_head_cons chain, List.rotate_cons_succ, List.rotate_zero, List.tail_cons,
    ← hlen, List.set_append_right _ _ (Nat.le_refl _), Nat.sub_self]
  rfl

/-- An `UNDEFINED` behind a list ends it at the latest. -/
theorem takeWhile_append_undefined (l : List AxisState) :
    (l ++ [AxisState.UNDEFINED]).takeWhile (· ≠ .UNDEFINED) =
      l.takeWhile (· ≠ .UNDEFINED) := by
  induction l with
  | nil => rfl
  | cons x l ih =>
    rw [List.cons_append]
    by_cases hx : x = .UNDEFINED
    · rw [List.takeWhile_cons_of_neg (by simpa using hx),
        List.takeWhile_cons_of_neg (by simpa using hx)]
    · rw [List.takeWhile_cons_of_pos (by simpa using hx),
        List.takeWhile_cons_of_pos (by simpa using hx), ih]

/-- A success drops the first entry. -/
theorem live_rotate {chain : TaskChain} (h : chain.head ≠ .UNDEFINED) :
    live chain = chain.head :: live (rotate chain) := by
  rw [live_of_head h]
  unfold live
  rw [rotate_toList, takeWhile_append_undefined]

/-- A failure leads to idle and nothing else. -/
theorem live_failed (chain : TaskChain) : live (advance false chain) = [.IDLE] := rfl

/-! ## Loading a request -/

/-- The states a request stands for. -/
def requestChain (requestedState : AxisState) (v : AxisVars) : List AxisState :=
  match requestedState with
  | .STARTUP_SEQUENCE =>
    (if v.startupMotorCalibration then [.MOTOR_CALIBRATION] else []) ++
    (if v.startupEncoderIndexSearch && v.useIndex then [.ENCODER_INDEX_SEARCH] else []) ++
    (if v.startupEncoderOffsetCalibration then [.ENCODER_OFFSET_CALIBRATION] else []) ++
    (if v.startupHoming then [.HOMING] else []) ++
    (if v.startupClosedLoopControl then [.CLOSED_LOOP_CONTROL]
      else if v.startupSensorlessControl then [.SENSORLESS_CONTROL] else []) ++
    [.IDLE]
  | .FULL_CALIBRATION_SEQUENCE =>
    [.MOTOR_CALIBRATION] ++ (if v.useIndex then [.ENCODER_INDEX_SEARCH] else []) ++
    [.ENCODER_OFFSET_CALIBRATION] ++ [.IDLE]
  | state => [state] ++ [.IDLE]

/-- The entries `es`, at most `k`, have been written from the front of the chain on. -/
structure Entries (k : Nat) (l : Loading) (es : List AxisState) : Prop where
  bound : es.length ≤ k
  pos : l.pos = es.length
  chain : l.chain.toList.take es.length = es
  writes : l.writes = List.range es.length

variable {k : Nat} {l : Loading} {es : List AxisState}

theorem entries_nil (chain : TaskChain) : Entries 0 ⟨chain, 0, []⟩ [] :=
  ⟨Nat.le_refl 0, rfl, rfl, rfl⟩

theorem Entries.push (h : Entries k l es) (hroom : k < taskChainSize) (state : AxisState) :
    Entries (k + 1) (l.push state) (es ++ [state]) := by
  have hes : es.length < taskChainSize := Nat.lt_of_le_of_lt h.bound hroom
  unfold Loading.push
  constructor
  · rw [List.length_append]
    exact Nat.add_le_add_right h.bound 1
  · rw [List.length_append, h.pos]
    rfl
  · show (l.chain.setIfInBounds l.pos state).toList.take _ = _
    rw [h.pos, List.length_append, List.length_singleton, Vector.toList_setIfInBounds,
      List.take_add_one, List.take_set_of_le (Nat.le_refl _), h.chain]
    simp [hes]
  · rw [List.length_append, List.length_singleton, List.range_succ, h.writes, h.pos]

theorem Entries.pushIf (h : Entries k l es) (hroom : k < taskChainSize) (condition : Bool)
    (state : AxisState) :
    Entries (k + 1) (l.pushIf condition state) (es ++ if condition then [state] else []) := by
  cases condition with
  | true => exact h.push hroom state
  | false =>
    obtain ⟨hbound, hpos, hchain, hwrites⟩ := h
    refine ⟨?_, ?_, ?_, ?_⟩ <;> simp only [Loading.pushIf, Bool.false_eq_true, if_false,
      List.append_nil]
    · exact Nat.le_succ_of_le hbound
    · exact hpos
    · exact hchain
    · exact hwrites

/-- Loading a request writes its chain and the `UNDEFINED` that ends it, and there is
room for both. -/
theorem loadTaskChain_entries (v : AxisVars) (chain : TaskChain) :
    ∃ k ≤ taskChainSize, Entries k (loadTaskChain v chain)
      (requestChain v.requestedState v ++ [.UNDEFINED]) := by
  have h0 := entries_nil chain
  unfold loadTaskChain requestChain
  cases v.requestedState with
  | STARTUP_SEQUENCE =>
    have h1 := h0.pushIf (by decide) v.startupMotorCalibration .MOTOR_CALIBRATION
    have h2 := h1.pushIf (by decide) (v.startupEncoderIndexSearch && v.useIndex)
      .ENCODER_INDEX_SEARCH
    have h3 := h2.pushIf (by decide) v.startupEncoderOffsetCalibration
      .ENCODER_OFFSET_CALIBRATION
    have h4 := h3.pushIf (by decide) v.startupHoming .HOMING
    cases v.startupClosedLoopControl with
    | true =>
      have h5 := h4.push (by decide) .CLOSED_LOOP_CONTROL
      exact ⟨7, by decide, (h5.push (by decide) .IDLE).push (by decide) .UNDEFINED⟩
    | false =>
      have h5 := h4.pushIf (by decide) v.startupSensorlessControl .SENSORLESS_CONTROL
      exact ⟨7, by decide, (h5.push (by decide) .IDLE).push (by decide) .UNDEFINED⟩
  | FULL_CALIBRATION_SEQUENCE =>
    have h1 := h0.push (by decide) .MOTOR_CALIBRATION
    have h2 := h1.pushIf (by decide) v.useIndex .ENCODER_INDEX_SEARCH
    have h3 := h2.push (by decide) .ENCODER_OFFSET_CALIBRATION
    exact ⟨5, by decide, (h3.push (by decide) .IDLE).push (by decide) .UNDEFINED⟩
  | _ =>
    exact ⟨3, by decide,
      ((h0.push (by decide) _).push (by decide) .IDLE).push (by decide) .UNDEFINED⟩

theorem requestChain_ne_undefined {v : AxisVars} (h : v.requestedState ≠ .UNDEFINED) :
    ∀ state ∈ requestChain v.requestedState v, state ≠ .UNDEFINED := by
  intro state hmem
  unfold requestChain at hmem
  split at hmem
  · split_ifs at hmem <;> simp at hmem <;> rintro rfl <;> simp at hmem
  · split_ifs at hmem <;> simp at hmem <;> rintro rfl <;> simp at hmem
  · simp at hmem
    rcases hmem with rfl | rfl
    · exact h
    · decide

theorem takeWhile_ne_undefined (es rest : List AxisState) (h : ∀ state ∈ es, state ≠ .UNDEFINED) :
    (es ++ AxisState.UNDEFINED :: rest).takeWhile (· ≠ .UNDEFINED) = es := by
  rw [List.takeWhile_append_of_pos (by simpa using h),
    List.takeWhile_cons_of_neg (by simp), List.append_nil]

/-- After loading a request its chain is live. -/
theorem loadTaskChain_live {v : AxisVars} (h : v.requestedState ≠ .UNDEFINED)
    (chain : TaskChain) : live (loadTaskChain v chain).chain = requestChain v.requestedState v := by
  obtain ⟨k, -, hentries⟩ := loadTaskChain_entries v chain
  have hsplit := List.take_append_drop
    (requestChain v.requestedState v ++ [AxisState.UNDEFINED]).length
    (loadTaskChain v chain).chain.toList
  rw [hentries.chain, List.append_assoc] at hsplit
  unfold live
  rw [← hsplit]
  exact takeWhile_ne_undefined _ _ (requestChain_ne_undefined h)

/-! ## One iteration -/

theorem iterate_of_request (i : Input) (chain : TaskChain)
    (h : i.vars.requestedState ≠ .UNDEFINED) :
    (iterate i chain).accepted = some (requestChain i.vars.requestedState i.vars) ∧
      (∀ n ∈ (iterate i chain).writes, n < taskChainSize) ∧
      ∃ loaded, live loaded = requestChain i.vars.requestedState i.vars ∧
        (iterate i chain).executed = loaded.head ∧
        (iterate i chain).chain = advance (iterate i chain).outcome.status loaded := by
  obtain ⟨k, hk, hentries⟩ := loadTaskChain_entries i.vars chain
  unfold iterate
  simp only [h, ne_eq, not_false_eq_true, if_true]
  refine ⟨?_, ?_, _, loadTaskChain_live h chain, rfl, rfl⟩
  · have htake :=
      congrArg (List.take (requestChain i.vars.requestedState i.vars).length) hentries.chain
    rw [List.take_take, List.take_left, List.length_append, List.length_singleton] at htake
    rw [hentries.pos, List.length_append, List.length_singleton, Nat.add_sub_cancel]
    rw [Nat.min_eq_left (Nat.le_succ _)] at htake
    rw [htake]
  · intro n hn
    rw [hentries.writes, List.mem_range] at hn
    exact Nat.lt_of_lt_of_le hn (hentries.bound.trans hk)

theorem requestChain_vars (i : Input) (chain : TaskChain) :
    requestChain (iterate i chain).requested (iterate i chain).vars =
      requestChain i.vars.requestedState i.vars := by
  by_cases h : i.vars.requestedState = .UNDEFINED
  · simp [iterate, h]
  · simp only [iterate, h, ne_eq, not_false_eq_true, if_true]
    rfl

theorem iterate_of_undefined (i : Input) (chain : TaskChain)
    (h : i.vars.requestedState = .UNDEFINED) :
    (iterate i chain).accepted = none ∧ (iterate i chain).writes = [] ∧
      (iterate i chain).executed = chain.head ∧
      (iterate i chain).chain = advance (iterate i chain).outcome.status chain := by
  unfold iterate
  simp [h]

/-- The state that is executed decides what is live afterwards: nothing behind a
failure but idle, and `UNDEFINED` always fails. -/
theorem live_advance (i : Input) (chain before : TaskChain)
    (hexecuted : (iterate i chain).executed = before.head)
    (hchain : (iterate i chain).chain = advance (iterate i chain).outcome.status before) :
    (before.head = .UNDEFINED → (iterate i chain).outcome.status = false) ∧
    ((iterate i chain).outcome.status = false → live (iterate i chain).chain = [.IDLE]) ∧
    ((iterate i chain).outcome.status = true →
      live before = before.head :: live (iterate i chain).chain) := by
  have hundefined : before.head = .UNDEFINED → (iterate i chain).outcome.status = false := by
    intro hhead
    show (runState i.oracle (iterate i chain).executed _).status = false
    rw [hexecuted, hhead]
    rfl
  refine ⟨hundefined, ?_, ?_⟩
  · intro hfailed
    rw [hchain, hfailed, live_failed]
  · intro hok
    rw [hchain, hok]
    apply live_rotate
    intro hhead
    rw [hundefined hhead] at hok
    cases hok

/-! ## Runs -/

/-- The states executed, without the `UNDEFINED` slots, which run no procedure. -/
def executedStates (rs : List Record) : List AxisState :=
  (rs.map Record.executed).filter (· ≠ .UNDEFINED)

/-- A prefix of the chain, followed only by idling. -/
def Follows (entries executed : List AxisState) : Prop :=
  ∃ (front : List AxisState) (n : Nat),
    executed = front ++ List.replicate n .IDLE ∧ front <+: entries

/-- The states `executed` since a request with the chain `entries` was accepted, and
the live part of the chain. -/
def Inv (entries executed remaining : List AxisState) : Prop :=
  executed ++ remaining = entries ∨
    Follows entries executed ∧ (remaining = [.IDLE] ∨ remaining = [])

theorem Inv.follows {entries executed remaining : List AxisState}
    (h : Inv entries executed remaining) : Follows entries executed := by
  rcases h with h | ⟨h, -⟩
  · refine ⟨executed, 0, ?_, ?_⟩
    · rw [List.replicate_zero, List.append_nil]
    · rw [← h]
      exact List.prefix_append _ _
  · exact h

/-- Executing the first live entry is still following the chain. -/
theorem Inv.follows_head {entries executed remaining : List AxisState} {state : AxisState}
    (h : Inv entries executed (state :: remaining)) : Follows entries (executed ++ [state]) := by
  rcases h with h | ⟨⟨front, n, rfl, hfront⟩, h⟩
  · refine ⟨executed ++ [state], 0, ?_, remaining, ?_⟩
    · rw [List.replicate_zero, List.append_nil]
    · rw [← h, List.append_assoc]
      rfl
  · rcases h with h | h
    · obtain rfl : state = .IDLE := (List.cons.inj h).1
      refine ⟨front, n + 1, ?_, hfront⟩
      rw [List.append_assoc, List.replicate_succ']
    · cases h

theorem executedStates_cons (r : Record) (rs : List Record) :
    executedStates (r :: rs) = executedStates [r] ++ executedStates rs :=
  List.filter_append [r.executed] (rs.map Record.executed)

theorem executedStates_singleton (r : Record) :
    executedStates [r] = if r.executed = .UNDEFINED then [] else [r.executed] := by
  unfold executedStates
  by_cases h : r.executed = .UNDEFINED <;> simp [h]

/-- One iteration keeps the invariant, whatever it finds in front of the chain. -/
theorem Inv.advance {entries executed : List AxisState} (i : Input) (chain before : TaskChain)
    (h : Inv entries executed (live before))
    (hexecuted : (iterate i chain).executed = before.head)
    (hchain : (iterate i chain).chain =
      Axis.advance (iterate i chain).outcome.status before) :
    Inv entries (executed ++ executedStates [iterate i chain])
      (live (iterate i chain).chain) := by
  obtain ⟨hundefined, hfailed, hok⟩ := live_advance i chain before hexecuted hchain
  rw [executedStates_singleton, hexecuted]
  by_cases hhead : before.head = .UNDEFINED
  · rw [if_pos hhead, hfailed (hundefined hhead), List.append_nil]
    exact .inr ⟨h.follows, .inl rfl⟩
  · rw [if_neg hhead]
    have hlive := live_of_head hhead
    cases hstatus : (iterate i chain).outcome.status with
    | false =>
      rw [hlive] at h
      rw [hfailed hstatus]
      exact .inr ⟨h.follows_head, .inl rfl⟩
    | true =>
      rw [hok hstatus] at h
      rcases h with h | ⟨hfollows, h | h⟩
      · left
        rw [List.append_assoc]
        exact h
      · refine .inr ⟨?_, .inr (List.cons.inj h).2⟩
        exact Inv.follows_head (.inr ⟨hfollows, .inl h⟩)
      · cases h

/-- Iterations that accept no request follow the chain on. -/
theorem Inv.run {entries executed : List AxisState} {chain : TaskChain}
    (h : Inv entries executed (live chain)) (inputs : List Input) {seg post : List Record}
    (hrun : run chain inputs = seg ++ post) (hnone : ∀ r ∈ seg, r.accepted = none) :
    Follows entries (executed ++ executedStates seg) := by
  induction seg generalizing executed chain inputs with
  | nil =>
    show Follows entries (executed ++ [])
    rw [List.append_nil]
    exact h.follows
  | cons r seg ih =>
    obtain ⟨hr, hseg⟩ := List.forall_mem_cons.mp hnone
    cases inputs with
    | nil => cases hrun
    | cons i is =>
      obtain ⟨rfl, hrest⟩ := List.cons.inj hrun
      have hrequest : i.vars.requestedState = .UNDEFINED := by
        by_contra hne
        rw [(iterate_of_request i chain hne).1] at hr
        cases hr
      obtain ⟨-, -, hexecuted, hchain⟩ := iterate_of_undefined i chain hrequest
      have hnext := ih (h.advance i chain chain hexecuted hchain) is hrest hseg
      rw [List.append_assoc, ← executedStates_cons] at hnext
      exact hnext

/-- The discipline of a run: -/
structure Disciplined (rs : List Record) : Prop where
  /-- a request is accepted unless there is none; -/
  accepts : ∀ r ∈ rs, r.accepted = none ↔ r.requested = .UNDEFINED
  /-- before the first request there is only idling; -/
  idle : ∀ seg post, rs = seg ++ post → (∀ r ∈ seg, r.accepted = none) →
    Follows [] (executedStates seg)
  /-- from the acceptance of a request to the next one a prefix of the chain that the request
  stands for is executed, followed only by idling; -/
  follows : ∀ pre r seg post entries, rs = pre ++ r :: seg ++ post →
    r.accepted = some entries → (∀ q ∈ seg, q.accepted = none) →
    entries = requestChain r.requested r.vars ∧ Follows entries (executedStates (r :: seg))
  /-- after a failure idle is next, unless a request is accepted first; -/
  failed : ∀ pre r q post, rs = pre ++ r :: q :: post → r.outcome.status = false →
    q.accepted = none → q.executed = .IDLE
  /-- the chain is only written to inside its bounds. -/
  bounds : ∀ r ∈ rs, ∀ n ∈ r.writes, n < taskChainSize

/-- What follows on an iteration is a run from the chain it leaves. -/
theorem run_split {chain : TaskChain} {inputs : List Input} {pre post : List Record} {r : Record}
    (h : run chain inputs = pre ++ r :: post) :
    ∃ i c is, r = iterate i c ∧ post = run r.chain is := by
  induction pre generalizing chain inputs with
  | nil =>
    cases inputs with
    | nil => cases h
    | cons i is =>
      obtain ⟨rfl, rfl⟩ := List.cons.inj h
      exact ⟨i, chain, is, rfl, rfl⟩
  | cons q pre ih =>
    cases inputs with
    | nil => cases h
    | cons i is => exact ih (List.cons.inj h).2

/-- **Task-chain discipline.** Every run of the state machine is disciplined. -/
theorem disciplined_run (inputs : List Input) : Disciplined (run initialChain inputs) := by
  constructor
  · intro r hr
    obtain ⟨pre, post, hrun⟩ := List.append_of_mem hr
    obtain ⟨i, c, is, rfl, -⟩ := run_split hrun
    by_cases hrequest : i.vars.requestedState = .UNDEFINED
    · exact iff_of_true (iterate_of_undefined i c hrequest).1 hrequest
    · refine iff_of_false (fun hnone => ?_) hrequest
      rw [(iterate_of_request i c hrequest).1] at hnone
      cases hnone
  · intro seg post hrun hnone
    have hinit : Inv [] [] (live initialChain) := .inl rfl
    exact hinit.run inputs hrun hnone
  · intro pre r seg post entries hrun haccepted hnone
    rw [List.append_assoc] at hrun
    obtain ⟨i, c, is, rfl, hrest⟩ := run_split hrun
    have hrequest : i.vars.requestedState ≠ .UNDEFINED := by
      intro hundefined
      rw [(iterate_of_undefined i c hundefined).1] at haccepted
      cases haccepted
    obtain ⟨hentries, -, loaded, hlive, hexecuted, hchain⟩ := iterate_of_request i c hrequest
    rw [hentries] at haccepted
    cases haccepted
    have hstart : Inv (requestChain i.vars.requestedState i.vars) [] (live loaded) := .inl hlive
    have hnext := (hstart.advance i c loaded hexecuted hchain).run is hrest.symm hnone
    rw [List.nil_append, ← executedStates_cons] at hnext
    exact ⟨(requestChain_vars i c).symm, hnext⟩
  · intro pre r q post hrun hfailed hnone
    obtain ⟨i, c, is, rfl, hrest⟩ := run_split hrun
    cases is with
    | nil => cases hrest
    | cons j js =>
      obtain ⟨rfl, -⟩ := List.cons.inj hrest
      have hrequest : j.vars.requestedState = .UNDEFINED := by
        by_contra hne
        rw [(iterate_of_request j _ hne).1] at hnone
        cases hnone
      obtain ⟨before, hchain⟩ : ∃ before, (iterate i c).chain =
        advance (iterate i c).outcome.status before := ⟨_, rfl⟩
      rw [(iterate_of_undefined j _ hrequest).2.2.1, hchain, hfailed]
      exact advance_false_head before
  · intro r hr n hn
    obtain ⟨pre, post, hrun⟩ := List.append_of_mem hr
    obtain ⟨i, c, is, rfl, -⟩ := run_split hrun
    by_cases hrequest : i.vars.requestedState = .UNDEFINED
    · rw [(iterate_of_undefined i c hrequest).2.1] at hn
      cases hn
    · exact (iterate_of_request i c hrequest).2.1 n hn

end WODrive.Axis
