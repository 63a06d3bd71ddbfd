import WODrive.Can.Simple
import WODrive.Library.Runs

/-!
# Node ids and identifiers

A node id takes the upper bits of an identifier, 6 of 11 or 24 of 29, but it is stored
and set as a word of 32 bits. `addressable_iff` says which ids an axis can be given and
still be addressed, and addressed under its own name: those that fit. `Bus` follows the
ids that the axes are given by commands, which `set_axis_nodeid_callback` takes over as
they are (`addressable_of_set_iff`).
-/

namespace WODrive.Can

variable {s : State} {i : Fin axisCount}

/-! ## Formats -/

/-- The largest identifiers of the two frame formats. -/
def maxId (isExt : Bool) : Nat := if isExt then 0x1FFFFFFF else 0x7FF

/-- The identifier is one of the format. -/
def Fits (isExt : Bool) (id : BitVec 32) : Prop := id.toNat ≤ maxId isExt

/-- The node id leaves the bits of the command free. -/
def NodeIdFits (isExt : Bool) (nodeId : BitVec 32) : Prop :=
  nodeId.toNat < if isExt then 2 ^ 24 else 2 ^ numNodeIdBits

instance (isExt : Bool) (nodeId : BitVec 32) : Decidable (NodeIdFits isExt nodeId) :=
  inferInstanceAs (Decidable (_ < _))

theorem toNat_getNodeId (id : BitVec 32) : (getNodeId id).toNat = id.toNat / 32 := by
  simp [getNodeId, numCmdIdBits, numNodeIdBits, Nat.shiftRight_eq_div_pow]

theorem toNat_getCmdId (id : BitVec 32) : (getCmdId id).toNat = id.toNat % 32 := by
  have hmask : id.toNat &&& 31 = id.toNat % 32 := Nat.and_two_pow_sub_one_eq_mod _ 5
  have hbits : (0x01F : BitVec 32).toNat = 31 := rfl
  unfold getCmdId
  rw [BitVec.toNat_setWidth, BitVec.toNat_and, hbits, hmask]
  omega

/-- The identifier that a frame should have, where the node id has the room. -/
theorem frame_id {axis : Axis} (hfits : NodeIdFits axis.canNodeIdExtended axis.canNodeId)
    {cmd : BitVec 32} (hcmd : cmd.toNat < 32) (lo hi : BitVec 32) :
    (frame axis cmd lo hi).id.toNat = axis.canNodeId.toNat * 32 + cmd.toNat := by
  have hsmall : axis.canNodeId.toNat < 2 ^ 24 := by
    unfold NodeIdFits numNodeIdBits at hfits
    split at hfits <;> omega
  simp only [frame, numCmdIdBits, numNodeIdBits, BitVec.toNat_add, BitVec.toNat_shiftLeft,
    Nat.shiftLeft_eq]
  omega

/-- What a frame should say of its sender. -/
structure Names (axis : Axis) (cmd : BitVec 32) (msg : Message) : Prop where
  format : msg.isExt = axis.canNodeIdExtended
  fits : Fits msg.isExt msg.id
  node : getNodeId msg.id = axis.canNodeId
  cmd : (getCmdId msg.id).setWidth 32 = cmd

theorem names_frame {axis : Axis} (hfits : NodeIdFits axis.canNodeIdExtended axis.canNodeId)
    {cmd : BitVec 32} (hcmd : cmd.toNat < 32) (lo hi : BitVec 32) :
    Names axis cmd (frame axis cmd lo hi) where
  format := rfl
  fits := by
    show (frame axis cmd lo hi).id.toNat ≤ maxId axis.canNodeIdExtended
    rw [frame_id hfits hcmd]
    unfold NodeIdFits numNodeIdBits at hfits
    unfold maxId
    split at hfits <;> simp_all <;> omega
  node := by
    apply BitVec.eq_of_toNat_eq
    rw [toNat_getNodeId, frame_id hfits hcmd]
    omega
  cmd := by
    apply BitVec.eq_of_toNat_eq
    rw [BitVec.toNat_setWidth, toNat_getCmdId, frame_id hfits hcmd]
    omega

/-- A frame that names its sender shows that the node id fits. -/
theorem Names.nodeIdFits {axis : Axis} {cmd : BitVec 32} {msg : Message}
    (h : Names axis cmd msg) : NodeIdFits axis.canNodeIdExtended axis.canNodeId := by
  have hfits := h.fits
  rw [h.format] at hfits
  unfold Fits maxId at hfits
  unfold NodeIdFits numNodeIdBits
  rw [← h.node, toNat_getNodeId]
  split at hfits <;> simp_all <;> omega

/-! ## Messages to an axis -/

/-- The axis has this node id and format. -/
def Matches (axes : Fin axisCount → Axis) (nodeId : BitVec 32) (isExt : Bool)
    (i : Fin axisCount) : Prop :=
  (axes i).canNodeId = nodeId ∧ (axes i).canNodeIdExtended = isExt

theorem findAxis_skip {axes : Fin axisCount → Axis} {nodeId : BitVec 32} {isExt : Bool}
    (h : ¬ Matches axes nodeId isExt i) (is : List (Fin axisCount))
    (found : Option (Fin axisCount)) :
    findAxis axes nodeId isExt (i :: is) found = findAxis axes nodeId isExt is found := by
  unfold Matches at h
  cases found <;> simp only [findAxis, if_neg h]

theorem findAxis_first {axes : Fin axisCount → Axis} {nodeId : BitVec 32} {isExt : Bool}
    (h : Matches axes nodeId isExt i) (is : List (Fin axisCount)) :
    findAxis axes nodeId isExt (i :: is) none = findAxis axes nodeId isExt is (some i) := by
  unfold Matches at h
  simp only [findAxis, if_pos h]

theorem findAxis_of_none {axes : Fin axisCount → Axis} {nodeId : BitVec 32} {isExt : Bool}
    {is : List (Fin axisCount)} (h : ∀ i ∈ is, ¬ Matches axes nodeId isExt i)
    (found : Option (Fin axisCount)) : findAxis axes nodeId isExt is found = (found, false) := by
  induction is with
  | nil => rfl
  | cons i is ih =>
    rw [findAxis_skip (h i (by simp)), ih fun j hj => h j (by simp [hj])]

/-- The only axis of its id and format is found. -/
theorem findAxis_of_unique {axes : Fin axisCount → Axis} {nodeId : BitVec 32} {isExt : Bool}
    (hi : Matches axes nodeId isExt i) (hother : ∀ j, j ≠ i → ¬ Matches axes nodeId isExt j)
    {is : List (Fin axisCount)} (hnodup : is.Nodup) (hmem : i ∈ is) :
    findAxis axes nodeId isExt is none = (some i, false) := by
  induction is with
  | nil => cases hmem
  | cons j is ih =>
    obtain ⟨hj, hnodup⟩ := List.nodup_cons.mp hnodup
    by_cases hji : j = i
    · subst hji
      rw [findAxis_first hi]
      refine findAxis_of_none (fun k hk => hother k ?_) _
      rintro rfl
      exact hj hk
    · have hmem' : i ∈ is := by simpa [Ne.symm hji] using hmem
      rw [findAxis_skip (hother j hji), ih hnodup hmem']

/-- The message is for the axis: the loop of `handle_can_message` finds it. -/
def IsFor (s : State) (msg : Message) (i : Fin axisCount) : Prop :=
  (findAxis s.axes (getNodeId msg.id) msg.isExt (List.finRange axisCount) none).1 = some i

instance (s : State) (msg : Message) (i : Fin axisCount) : Decidable (IsFor s msg i) :=
  inferInstanceAs (Decidable (_ = _))

/-- The result of a command: an answer is a frame of the axis, which it leaves alone. -/
def Answers (axis : Axis) (r : Option (Option (BitVec 32 × Message) × Axis)) : Prop :=
  ∀ cmd m axis', r = some (some (cmd, m), axis') →
    axis' = axis ∧ cmd.toNat < 32 ∧ ∃ lo hi, m = frame axis cmd lo hi

theorem answers_none (axis axis' : Axis) : Answers axis (some (none, axis')) := by
  intro cmd m axis' h
  cases h

theorem answers_reset (axis : Axis) : Answers axis none := by
  intro cmd m axis' h
  cases h

theorem answers_get (axis : Axis) (msg : Message) {cmd : BitVec 32} (hcmd : cmd.toNat < 32)
    (lo hi : Axis → BitVec 32) : Answers axis (some (getCallback cmd lo hi axis msg, axis)) := by
  intro cmd' m axis' h
  unfold getCallback at h
  split at h
  · cases h
    exact ⟨rfl, hcmd, _, _, rfl⟩
  · cases h

theorem answers_ite {axis : Axis} {p : Prop} [Decidable p]
    {r r' : Option (Option (BitVec 32 × Message) × Axis)} (h : Answers axis r)
    (h' : Answers axis r') : Answers axis (if p then r else r') := by
  split
  · exact h
  · exact h'

theorem answers_command (vbusVoltage : BitVec 32) (axis : Axis) (msg : Message) :
    Answers axis (command vbusVoltage axis msg) := by
  unfold command
  refine answers_ite (answers_none _ _) ?_
  refine answers_ite (answers_get _ _ (by decide) _ _) ?_
  refine answers_ite (answers_get _ _ (by decide) _ _) ?_
  refine answers_ite (answers_get _ _ (by decide) _ _) ?_
  refine answers_ite (answers_none _ _) ?_
  refine answers_ite (answers_none _ _) ?_
  refine answers_ite (answers_get _ _ (by decide) _ _) ?_
  refine answers_ite (answers_get _ _ (by decide) _ _) ?_
  refine answers_ite (answers_get _ _ (by decide) _ _) ?_
  refine answers_ite (answers_get _ _ (by decide) _ _) ?_
  refine answers_ite (answers_reset _) ?_
  refine answers_ite (answers_get _ _ (by decide) _ _) ?_
  exact answers_ite (answers_none _ _) (answers_none _ _)

/-- What a message does: nothing to the axes, if it is for none of them, or its command
to the one that it is for. -/
theorem handleCanMessage_cases {msg : Message} {s s' : State} {sent : List Sent}
    (h : handleCanMessage msg s = some (sent, s')) :
    ((∀ i, ¬ IsFor s msg i) ∧ sent = [] ∧ s'.axes = s.axes) ∨
    ∃ k answer axis', IsFor s msg k ∧
      command s.vbusVoltage (s.axes k) msg = some (answer, axis') ∧
      sent = answer.toList.map (fun p => ⟨k, p.1, p.2⟩) ∧
      s'.axes = Function.update s.axes k axis' := by
  unfold handleCanMessage at h
  rcases hfind : findAxis s.axes (getNodeId msg.id) msg.isExt (List.finRange axisCount) none
    with ⟨found, duplicate⟩
  rw [hfind] at h
  have haxes : (if duplicate = true then { s with duplicateCanIds := true } else s).axes =
      s.axes := by split <;> rfl
  have hvbus : (if duplicate = true then { s with duplicateCanIds := true }
      else s).vbusVoltage = s.vbusVoltage := by split <;> rfl
  cases found with
  | none =>
    cases h
    refine .inl ⟨fun i hi => ?_, rfl, haxes⟩
    unfold IsFor at hi
    rw [hfind] at hi
    cases hi
  | some k =>
    obtain ⟨⟨answer, axis'⟩, hcommand, heq⟩ := Option.map_eq_some_iff.mp h
    cases heq
    simp only [haxes, hvbus] at hcommand ⊢
    refine .inr ⟨k, answer, axis', ?_, hcommand, rfl, rfl⟩
    unfold IsFor
    rw [hfind]

theorem IsFor.unique {s : State} {msg : Message} {i k : Fin axisCount} (hi : IsFor s msg i)
    (hk : IsFor s msg k) : i = k :=
  Option.some.inj (hi.symm.trans hk)

/-! ## The bus -/

/-- The controller, and the node id that a command gave each axis last. -/
structure Bus where
  state : State
  assigned : Fin axisCount → Option (BitVec 32)

inductive Event where
  | message (msg : Message)
  | heartbeat (i : Fin axisCount)

/-- The message is a SET_AXIS_NODE_ID command that the axis applies. -/
def Sets (s : State) (msg : Message) (i : Fin axisCount) : Prop :=
  IsFor s msg i ∧ (getCmdId msg.id).setWidth 32 = MSG_SET_AXIS_NODE_ID

instance (s : State) (msg : Message) (i : Fin axisCount) : Decidable (Sets s msg i) :=
  inferInstanceAs (Decidable (_ ∧ _))

/-- One event: the messages written, and the bus, unless the controller resets. -/
def Bus.step (b : Bus) : Event → Option (List Sent × Bus)
  | .message msg =>
    (handleCanMessage msg b.state).map fun (sent, s) =>
      (sent, ⟨s, fun i => if Sets b.state msg i then some (canGetSignal msg 0 32)
        else b.assigned i⟩)
  | .heartbeat i => some (sendHeartbeat i b.state, b)

abbrev Bus.Steps (b : Bus) (e : Event) (c : Bus) : Prop := ∃ sent, b.step e = some (sent, c)

/-- Every frame that the axis sends next names it, in the format that it is configured
for; and unless another axis has the same id and format, some frame of the format is
for it. -/
structure Addressable (b : Bus) (i : Fin axisCount) : Prop where
  frames : ∀ e sent c, b.step e = some (sent, c) → ∀ f ∈ sent, f.axis = i →
    Names (b.state.axes i) f.cmd f.msg
  reachable :
    (∀ j, j ≠ i → ¬ Matches b.state.axes (b.state.axes i).canNodeId
      (b.state.axes i).canNodeIdExtended j) →
    ∃ msg : Message, msg.isExt = (b.state.axes i).canNodeIdExtended ∧ Fits msg.isExt msg.id ∧
      IsFor b.state msg i

theorem frames_of_fits {b : Bus}
    (hfits : NodeIdFits (b.state.axes i).canNodeIdExtended (b.state.axes i).canNodeId)
    {e : Event} {sent : List Sent} {c : Bus} (hstep : b.step e = some (sent, c)) {f : Sent}
    (hf : f ∈ sent) (hi : f.axis = i) : Names (b.state.axes i) f.cmd f.msg := by
  cases e with
  | heartbeat j =>
    cases hstep
    obtain rfl := List.mem_singleton.mp hf
    obtain rfl : j = i := hi
    exact names_frame hfits (show MSG_ODRIVE_HEARTBEAT.toNat < 32 by decide) _ _
  | message msg =>
    obtain ⟨⟨sent', s'⟩, hhandle, heq⟩ := Option.map_eq_some_iff.mp hstep
    cases heq
    obtain ⟨-, rfl, -⟩ | ⟨k, answer, axis', -, hcommand, rfl, -⟩ := handleCanMessage_cases hhandle
    · cases hf
    · obtain ⟨⟨cmd, m⟩, hanswer, rfl⟩ := List.mem_map.mp hf
      obtain rfl : answer = some (cmd, m) := by simpa using hanswer
      obtain rfl : k = i := hi
      obtain ⟨-, hcmd, lo, hi, rfl⟩ := answers_command _ _ _ _ _ _ hcommand
      exact names_frame hfits hcmd lo hi

/-- A node id is one that an axis can be addressed with exactly if it fits. -/
theorem addressable_iff (b : Bus) (i : Fin axisCount) :
    Addressable b i ↔
      NodeIdFits (b.state.axes i).canNodeIdExtended (b.state.axes i).canNodeId := by
  constructor
  · intro h
    exact (h.frames (.heartbeat i) _ b rfl _ (List.mem_singleton_self _) rfl).nodeIdFits
  · intro hfits
    refine ⟨fun e sent c hstep f hf hi => frames_of_fits hfits hstep hf hi, fun hunique => ?_⟩
    have hnames : Names (b.state.axes i) MSG_CO_NMT_CTRL _ :=
      names_frame hfits (show MSG_CO_NMT_CTRL.toNat < 32 by decide) 0 0
    refine ⟨_, hnames.format, hnames.fits, ?_⟩
    unfold IsFor
    rw [hnames.node, hnames.format, findAxis_of_unique ⟨rfl, rfl⟩ hunique
      (List.nodup_finRange _) (List.mem_finRange _)]

/-! ## Assigned node ids -/

theorem command_set {msg : Message}
    (hcmd : (getCmdId msg.id).setWidth 32 = MSG_SET_AXIS_NODE_ID) (vbusVoltage : BitVec 32)
    (axis : Axis) :
    command vbusVoltage axis msg = some (none, setAxisNodeidCallback axis msg) := by
  unfold command
  rw [hcmd]
  dsimp only
  rw [if_neg (by decide), if_neg (by decide), if_neg (by decide), if_neg (by decide), if_pos rfl]

/-- The result of a command, if there is one, has the node id of the axis. -/
def Keeps (axis : Axis) (r : Option (Option (BitVec 32 × Message) × Axis)) : Prop :=
  ∀ answer axis', r = some (answer, axis') → axis'.canNodeId = axis.canNodeId

theorem keeps_some {axis axis' : Axis} (h : axis'.canNodeId = axis.canNodeId)
    (answer : Option (BitVec 32 × Message)) : Keeps axis (some (answer, axis')) := by
  intro _ _ heq
  cases heq
  exact h

theorem keeps_ite {axis : Axis} {p : Prop} [Decidable p]
    {r r' : Option (Option (BitVec 32 × Message) × Axis)} (h : p → Keeps axis r)
    (h' : Keeps axis r') : Keeps axis (if p then r else r') := by
  split
  next hp => exact h hp
  next => exact h'

theorem keeps_command {msg : Message}
    (hcmd : (getCmdId msg.id).setWidth 32 ≠ MSG_SET_AXIS_NODE_ID) (vbusVoltage : BitVec 32)
    (axis : Axis) : Keeps axis (command vbusVoltage axis msg) := by
  unfold command
  refine keeps_ite (fun _ => keeps_some rfl _) ?_
  refine keeps_ite (fun _ => keeps_some rfl _) ?_
  refine keeps_ite (fun _ => keeps_some rfl _) ?_
  refine keeps_ite (fun _ => keeps_some rfl _) ?_
  refine keeps_ite (fun h => absurd h hcmd) ?_
  refine keeps_ite (fun _ => keeps_some rfl _) ?_
  refine keeps_ite (fun _ => keeps_some rfl _) ?_
  refine keeps_ite (fun _ => keeps_some rfl _) ?_
  refine keeps_ite (fun _ => keeps_some rfl _) ?_
  refine keeps_ite (fun _ => keeps_some rfl _) ?_
  refine keeps_ite (fun _ => fun _ _ h => by cases h) ?_
  refine keeps_ite (fun _ => keeps_some rfl _) ?_
  exact keeps_ite (fun _ => keeps_some rfl _) (keeps_some rfl _)

/-- An axis's node id changes when the axis applies a SET_AXIS_NODE_ID command. -/
theorem handleCanMessage_nodeId {msg : Message} {s s' : State} {sent : List Sent}
    (h : handleCanMessage msg s = some (sent, s')) (i : Fin axisCount) :
    (s'.axes i).canNodeId =
      if Sets s msg i then canGetSignal msg 0 32 else (s.axes i).canNodeId := by
  obtain ⟨hnone, -, haxes⟩ | ⟨k, answer, axis', hk, hcommand, -, haxes⟩ :=
    handleCanMessage_cases h
  · rw [haxes, if_neg fun hsets => hnone i hsets.1]
  · rw [haxes]
    by_cases hki : i = k
    · subst hki
      rw [Function.update_self]
      by_cases hcmd : (getCmdId msg.id).setWidth 32 = MSG_SET_AXIS_NODE_ID
      · rw [if_pos ⟨hk, hcmd⟩]
        rw [command_set hcmd] at hcommand
        cases hcommand
        rfl
      · rw [if_neg fun hsets => hcmd hsets.2]
        exact keeps_command hcmd _ _ _ _ hcommand
    · rw [Function.update_of_ne hki, if_neg fun hsets => hki (hsets.1.unique hk)]

/-- The invariant: an axis has the id that it was given last. -/
def Assigned (b : Bus) : Prop :=
  ∀ i id, b.assigned i = some id → (b.state.axes i).canNodeId = id

theorem Assigned.step {b c : Bus} {e : Event} (h : Assigned b) (he : b.Steps e c) :
    Assigned c := by
  obtain ⟨sent, hstep⟩ := he
  cases e with
  | heartbeat j =>
    cases hstep
    exact h
  | message msg =>
    obtain ⟨⟨sent', s'⟩, hhandle, heq⟩ := Option.map_eq_some_iff.mp hstep
    cases heq
    intro i id hassigned
    rw [handleCanMessage_nodeId hhandle i]
    split
    next hsets => simpa [hsets] using hassigned
    next hsets => exact h i id (by simpa [hsets] using hassigned)

/-- In every state that a run of messages and heartbeats reaches, an axis that has been
given node ids by commands can be addressed exactly if the last one fits its format. -/
theorem addressable_of_set_iff {start b : Bus} {es : List Event}
    (hstart : ∀ i, start.assigned i = none) (hrun : Run Bus.Steps start es b)
    (i : Fin axisCount) (id : BitVec 32) (hset : b.assigned i = some id) :
    Addressable b i ↔ NodeIdFits (b.state.axes i).canNodeIdExtended id := by
  have hassigned : Assigned b :=
    hrun.invariant (fun i id h => by simp [hstart i] at h) fun _ _ _ h he => h.step he
  rw [addressable_iff, hassigned i id hset]

/-! ## An id that does not fit -/

/-- An axis of the default configuration. -/
def Axis.powerUp (nodeId : BitVec 32) : Axis where
  canNodeId := nodeId
  canNodeIdExtended := false
  error := 0
  currentState := 0
  requestedState := 0
  motorError := 0
  encoderError := 0
  sensorlessError := 0
  controllerError := 0
  posEstimate := 0
  velEstimate := 0
  pllPos := 0
  sensorlessVelEstimate := 0
  shadowCount := 0
  countInCpr := 0
  iqSetpoint := 0
  iqMeasured := 0

def Bus.powerUp : Bus where
  state := ⟨fun i => .powerUp (BitVec.ofNat 32 i.val), 0, false⟩
  assigned := fun _ => none

/-- A SET_AXIS_NODE_ID command to the axis with the node id 0. -/
def setNodeId (nodeId : BitVec 32) : Message :=
  ⟨MSG_SET_AXIS_NODE_ID, false, false, 8, wordBytes nodeId 0⟩

/-- The step that the command makes at power-up, from what it computes to. -/
theorem exists_step (nodeId : BitVec 32)
    (h : (Bus.powerUp.step (.message (setNodeId nodeId))).map (fun p =>
      (p.2.assigned axis0, (p.2.state.axes axis0).canNodeIdExtended)) =
        some (some nodeId, false)) :
    ∃ b, Bus.powerUp.Steps (.message (setNodeId nodeId)) b ∧ b.assigned axis0 = some nodeId ∧
      (b.state.axes axis0).canNodeIdExtended = false := by
  obtain ⟨⟨sent, b⟩, hstep, heq⟩ := Option.map_eq_some_iff.mp h
  obtain ⟨hassigned, hformat⟩ := Prod.mk.inj heq
  exact ⟨b, ⟨sent, hstep⟩, hassigned, hformat⟩

theorem addressable_of_set_five :
    ∃ b, Run Bus.Steps .powerUp [.message (setNodeId 5)] b ∧ b.assigned axis0 = some 5 ∧
      Addressable b axis0 := by
  obtain ⟨b, hstep, hassigned, hformat⟩ := exists_step 5 (by decide +kernel)
  refine ⟨b, .single hstep, hassigned, ?_⟩
  refine (addressable_of_set_iff (fun _ => rfl) (.single hstep) axis0 5 hassigned).mpr ?_
  rw [hformat]
  decide

/-- The id 64 has seven bits. -/
theorem not_addressable_of_set :
    ∃ b, Run Bus.Steps .powerUp [.message (setNodeId 64)] b ∧ b.assigned axis0 = some 64 ∧
      ¬ Addressable b axis0 := by
  obtain ⟨b, hstep, hassigned, hformat⟩ := exists_step 64 (by decide +kernel)
  refine ⟨b, .single hstep, hassigned, fun h => ?_⟩
  have hid : Assigned b := Assigned.step (b := .powerUp) (fun i id h => by cases h) hstep
  have hfits := (addressable_iff b axis0).mp h
  rw [hid axis0 64 hassigned, hformat] at hfits
  revert hfits
  decide

end WODrive.Can
