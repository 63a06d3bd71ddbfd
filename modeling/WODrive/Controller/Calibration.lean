import WODrive.Controller.Frame
import WODrive.Controller.Lookup
import WODrive.Library.Runs

/-!
# The calibration of the anticogging (MotorControl/controller.cpp)

While it is active, each call of `update` checks whether the motor holds the commanded
position, records the torque at the index if so, and commands the position of the index.

- `Call.after_of_commands`: what a call does to the calibration;
- `Calibrating.snoc`: the entries are written one after the other, and the position that a
  call finds is that of the last command before it;
- `CalibrationRun.written`: the entry that a call writes, and its position;
- `calibration_complete_iff`: when every entry belongs to its position.
-/

namespace WODrive.Controller

universe u

variable {K : Type u} [Field K] [LinearOrder K] [FloorRing K]

variable {sqrtf : K → K}

/-! ## One call -/

/-- A call of `update`: what it reads of other objects, and the controller that it finds. -/
structure Call (K : Type u) where
  inputs : Inputs K
  controller : Controller K

namespace Call

variable (sqrtf) (call : Call K)

def index : Nat := call.controller.config.anticogging.index.toNat

/-- The calibration is active. -/
def active : Bool := call.controller.config.anticogging.calibAnticogging

/-- `anticogging_calibration` is called. -/
def commands : Bool :=
  call.active && call.inputs.encoder.posEstimateValid && call.inputs.encoder.velEstimateValid

/-- The entry of the cogging map that is written. -/
def written : Option Nat :=
  if call.commands && settled call.inputs call.controller then some call.controller.clampedIndex
  else none

/-- The controller after the call. -/
def after : Controller K :=
  match update sqrtf call.inputs call.controller with
  | .error c => c
  | .ok (_, c) => c

/-- The call ends the calibration, or makes the cogging map valid. -/
def finishes : Prop :=
  call.active = true ∧ (call.after sqrtf).config.anticogging.calibAnticogging = false ∨
    call.controller.anticoggingValid = false ∧ (call.after sqrtf).anticoggingValid = true

/-- The position of the index after the call, as the call leaves it in `input_pos_`. -/
def wrapped (inputPos : K) : K :=
  if call.controller.config.circularSetpoints then
    fmodfPos inputPos call.controller.config.circularSetpointRange
  else inputPos

variable {sqrtf} {call}

variable (sqrtf) in
theorem after_keeps {c₁ : Controller K}
    (hcalibrate : calibrate call.inputs call.controller = .ok c₁) :
    Keeps (wrapInputPos c₁) (call.after sqrtf) := by
  have h := update_keeps sqrtf hcalibrate
  unfold after
  cases hupdate : update sqrtf call.inputs call.controller with
  | error c =>
    rw [hupdate] at h
    exact h
  | ok r =>
    rw [hupdate] at h
    exact h.toKeeps

variable (sqrtf) in
/-- A call that does not run the calibration leaves it as it is. -/
theorem after_of_not_commands (h : call.commands = false) :
    (call.after sqrtf).config.anticogging = call.controller.config.anticogging ∧
      (call.after sqrtf).anticoggingValid = call.controller.anticoggingValid ∧
      (call.active = true → (call.after sqrtf).inputPos = call.controller.inputPos) := by
  cases hactive : call.active with
  | true =>
    have hinvalid : (!call.inputs.encoder.posEstimateValid ||
        !call.inputs.encoder.velEstimateValid) = true := by
      rw [← Bool.not_and, Bool.not_eq_true']
      simpa [commands, hactive] using h
    have herror : update sqrtf call.inputs call.controller =
        .error (setError ERROR_INVALID_ESTIMATE call.controller) := by
      have hcalibrate : calibrate call.inputs call.controller =
          .error (setError ERROR_INVALID_ESTIMATE call.controller) := by
        have hcalib : call.controller.config.anticogging.calibAnticogging = true := hactive
        unfold calibrate
        rw [if_pos hcalib, if_pos hinvalid]
      unfold update
      rw [hcalibrate]
      rfl
    unfold after
    rw [herror]
    exact ⟨rfl, rfl, fun _ => rfl⟩
  | false =>
    have hcalibrate : calibrate call.inputs call.controller = .ok call.controller := by
      unfold calibrate
      rw [if_neg]
      exact Bool.eq_false_iff.mp hactive
    have hkeeps := after_keeps sqrtf hcalibrate
    have hwrap := wrapInputPos_anticogging call.controller
    exact ⟨hkeeps.anticogging.trans hwrap.1, hkeeps.anticoggingValid.trans hwrap.2, nofun⟩

omit [FloorRing K] in
theorem written_of_not_commands (h : call.commands = false) : call.written = none := by
  unfold written
  rw [h, Bool.false_and]
  exact if_neg Bool.false_ne_true

/-- The index after a call that runs the calibration. -/
def next : Nat := if settled call.inputs call.controller then call.index + 1 else call.index

/-- The controller when the torque is recorded, if it is. -/
def stored : Controller K :=
  if settled call.inputs call.controller then storeTorque call.controller else call.controller

omit [FloorRing K] in
theorem anticoggingCalibration_eq :
    anticoggingCalibration call.inputs call.controller =
      if call.stored.config.anticogging.index.toNat < coggingMapSize then
        (false,
          commandPos (call.stored.config.anticogging.index.toNat * coggingRatio : K) call.stored)
      else
        (true,
          { commandPos 0 call.stored with
            config := { (commandPos 0 call.stored).config with
              anticogging := { call.stored.config.anticogging with
                index := 0, calibAnticogging := false } }
            anticoggingValid := true }) := rfl

omit [FloorRing K] in
theorem stored_index (hindex : call.index < coggingMapSize) :
    call.stored.config.anticogging.index.toNat = call.next := by
  unfold stored next
  split
  · show (call.controller.config.anticogging.index + 1).toNat = _
    have hlt : call.controller.config.anticogging.index.toNat < 3600 := hindex
    rw [BitVec.toNat_add]
    exact Nat.mod_eq_of_lt (by simp; omega)
  · rfl

omit [FloorRing K] in
theorem stored_config : call.stored.anticoggingValid = call.controller.anticoggingValid ∧
    call.stored.config.anticogging.calibAnticogging = call.active ∧
    call.stored.config.circularSetpoints = call.controller.config.circularSetpoints ∧
    call.stored.config.circularSetpointRange = call.controller.config.circularSetpointRange := by
  unfold stored
  split
  · exact ⟨rfl, rfl, rfl, rfl⟩
  · exact ⟨rfl, rfl, rfl, rfl⟩

omit [Field K] [LinearOrder K] [FloorRing K] in
theorem active_of_commands (h : call.commands = true) : call.active = true := by
  simp only [commands, Bool.and_eq_true] at h
  exact h.1.1

omit [FloorRing K] in
theorem calibrate_of_commands (h : call.commands = true) :
    calibrate call.inputs call.controller =
      .ok (anticoggingCalibration call.inputs call.controller).2 := by
  have hcalib : call.controller.config.anticogging.calibAnticogging = true :=
    active_of_commands h
  simp only [commands, Bool.and_eq_true] at h
  unfold calibrate
  rw [if_pos hcalib, if_neg]
  simp [h.1.2, h.2]

variable (sqrtf)

/-- A call that runs the calibration and is not yet at the end of the map. -/
theorem after_of_commands (h : call.commands = true) (hindex : call.index < coggingMapSize)
    (hnext : call.next < coggingMapSize) :
    (call.after sqrtf).config.anticogging.index.toNat = call.next ∧
      (call.after sqrtf).config.anticogging.calibAnticogging = true ∧
      (call.after sqrtf).anticoggingValid = call.controller.anticoggingValid ∧
      (call.after sqrtf).inputPos = call.wrapped (call.next * coggingRatio) := by
  have hkeeps := after_keeps sqrtf (calibrate_of_commands h)
  have hc₁ : (anticoggingCalibration call.inputs call.controller).2 =
      commandPos (call.next * coggingRatio : K) call.stored := by
    rw [anticoggingCalibration_eq, stored_index hindex, if_pos hnext]
  rw [hc₁] at hkeeps
  obtain ⟨hanticogging, hvalid⟩ :=
    wrapInputPos_anticogging (commandPos (call.next * coggingRatio : K) call.stored)
  obtain ⟨hvalid', hcalib, hcircular, hrange⟩ := call.stored_config
  rw [hkeeps.anticogging, hkeeps.anticoggingValid, hkeeps.inputPos, hanticogging, hvalid]
  refine ⟨stored_index hindex, hcalib.trans (active_of_commands h), hvalid', ?_⟩
  rw [wrapInputPos_inputPos, wrapped, ← hcircular, ← hrange]
  rfl

/-- A call at the end of the map. -/
theorem after_of_last (h : call.commands = true) (hindex : call.index < coggingMapSize)
    (hnext : ¬call.next < coggingMapSize) :
    (call.after sqrtf).config.anticogging.calibAnticogging = false := by
  have hkeeps := after_keeps sqrtf (calibrate_of_commands h)
  have hc₁ : ((anticoggingCalibration call.inputs call.controller).2).config.anticogging =
      { call.stored.config.anticogging with index := 0, calibAnticogging := false } := by
    rw [anticoggingCalibration_eq, stored_index hindex, if_neg hnext]
  rw [hkeeps.anticogging, (wrapInputPos_anticogging _).1, hc₁]

variable (call) in
/-- The torque is stored in the entry that is written, and no other entry changes. -/
theorem after_coggingMap :
    (call.after sqrtf).config.anticogging.coggingMap =
      match call.written with
      | some entry => call.controller.config.anticogging.coggingMap.setIfInBounds entry
          call.controller.velIntegratorTorque
      | none => call.controller.config.anticogging.coggingMap := by
  cases hcommands : call.commands with
  | false =>
    rw [(after_of_not_commands sqrtf hcommands).1, written_of_not_commands hcommands]
  | true =>
    have hkeeps := after_keeps sqrtf (calibrate_of_commands hcommands)
    have hstored :
        (anticoggingCalibration call.inputs call.controller).2.config.anticogging.coggingMap =
          call.stored.config.anticogging.coggingMap := by
      rw [anticoggingCalibration_eq]
      split
      · rfl
      · rfl
    rw [hkeeps.anticogging, (wrapInputPos_anticogging _).1, hstored, written, hcommands,
      Bool.true_and]
    unfold stored
    split
    · rfl
    · rfl

omit [FloorRing K] in
theorem range_written (h : call.commands = true) (hindex : call.index < coggingMapSize) :
    List.range call.index ++ call.written.toList = List.range call.next := by
  unfold written next
  rw [h, Bool.true_and]
  split
  · rw [List.range_succ]
    show _ ++ [min call.index coggingMapSize] = _
    rw [Nat.min_eq_left hindex.le]
  · exact List.append_nil _

/-- What a call does, in a calibration that is not at the end of the map. -/
inductive Effect (call : Call K) (c : Controller K) : Prop where
  /-- The calibration is not run. -/
  | idle (hcommands : call.commands = false)
      (hanticogging : c.config.anticogging = call.controller.config.anticogging)
      (hvalid : c.anticoggingValid = call.controller.anticoggingValid)
      (hpos : call.active = true → c.inputPos = call.controller.inputPos)
  /-- The next position is commanded. -/
  | advance (hcommands : call.commands = true)
      (hwritten : List.range call.index ++ call.written.toList = List.range call.next)
      (hlt : call.next < coggingMapSize)
      (hindex : c.config.anticogging.index.toNat = call.next)
      (hactive : c.config.anticogging.calibAnticogging = true)
      (hvalid : c.anticoggingValid = call.controller.anticoggingValid)
      (hpos : c.inputPos = call.wrapped (call.next * coggingRatio))
  /-- The last entry is written. -/
  | finish (hcommands : call.commands = true)
      (hwritten : List.range call.index ++ call.written.toList = List.range coggingMapSize)
      (hactive : c.config.anticogging.calibAnticogging = false)

theorem effect (hindex : call.active = true → call.index < coggingMapSize) :
    Effect call (call.after sqrtf) := by
  cases hcommands : call.commands with
  | false =>
    obtain ⟨hanticogging, hvalid, hpos⟩ := after_of_not_commands sqrtf hcommands
    exact .idle hcommands hanticogging hvalid hpos
  | true =>
    have hlt := hindex (active_of_commands hcommands)
    have hwritten := range_written hcommands hlt
    by_cases hnext : call.next < coggingMapSize
    · obtain ⟨hindex', hactive, hvalid, hpos⟩ := after_of_commands sqrtf hcommands hlt hnext
      exact .advance hcommands hwritten hnext hindex' hactive hvalid hpos
    · have hlast : call.next = coggingMapSize := by
        have hle : call.next ≤ call.index + 1 := by
          unfold next
          split
          · exact Nat.le_refl _
          · exact Nat.le_succ _
        omega
      rw [hlast] at hwritten
      exact .finish hcommands hwritten (after_of_last sqrtf hcommands hlt hnext)

end Call

/-! ## The calls of a calibration -/

/-- No command meanwhile changes the position, the index or whether the calibration is
active. -/
structure Undisturbed (c c' : Controller K) : Prop where
  inputPos : c'.inputPos = c.inputPos
  index : c'.config.anticogging.index = c.config.anticogging.index
  calibAnticogging : c'.config.anticogging.calibAnticogging =
    c.config.anticogging.calibAnticogging

/-- The next call of `update`, after whatever else has happened. -/
def nextCall (sqrtf : K → K) (c : Controller K) (call : Call K) (c' : Controller K) : Prop :=
  Undisturbed c call.controller ∧ c' = call.after sqrtf

/-- The calls from the start of a calibration on, with anything else changed between them. -/
abbrev CalibrationRun (sqrtf : K → K) (start : Controller K) :
    List (Call K) → Controller K → Prop :=
  Run (nextCall sqrtf) (startAnticoggingCalibration start)

/-- The entries that calls write, one after the other. -/
def entries (calls : List (Call K)) : List Nat := calls.filterMap Call.written

/-- The last call that commanded a position. -/
def lastCommand (calls : List (Call K)) : Option (Call K) :=
  (calls.filter Call.commands).getLast?

/-- The position of an index, as the calls before leave it in `input_pos_`. -/
def commandedPos (start : Controller K) (calls : List (Call K)) (index : Nat) : K :=
  match lastCommand calls with
  | some call => call.wrapped (index * coggingRatio)
  | none => start.inputPos

/-- What holds between two calls of a calibration. -/
structure Calibrating (sqrtf : K → K) (start : Controller K) (calls : List (Call K))
    (c : Controller K) : Prop where
  /-- It has not ended. -/
  index : c.config.anticogging.calibAnticogging = true →
    c.config.anticogging.index.toNat < coggingMapSize ∧
      entries calls = List.range c.config.anticogging.index.toNat ∧
      c.inputPos = commandedPos start calls c.config.anticogging.index.toNat
  /-- The entries are below the end of the map. -/
  below : ∀ entry ∈ entries calls, entry < coggingMapSize
  /-- It has ended. -/
  finished : (∃ call ∈ calls, call.finishes sqrtf) →
    c.config.anticogging.calibAnticogging = false ∧ entries calls = List.range coggingMapSize

variable {start c' : Controller K} {calls : List (Call K)} {call : Call K}

omit [FloorRing K] in
theorem entries_concat : entries (calls ++ [call]) = entries calls ++ call.written.toList := by
  unfold entries
  rw [List.filterMap_append]
  cases hwritten : call.written <;> simp [hwritten]

theorem commandedPos_concat_of_commands (h : call.commands = true) (index : Nat) :
    commandedPos start (calls ++ [call]) index = call.wrapped (index * coggingRatio) := by
  simp [commandedPos, lastCommand, List.filter_append, h]

theorem commandedPos_concat_of_not_commands (h : call.commands = false) (index : Nat) :
    commandedPos start (calls ++ [call]) index = commandedPos start calls index := by
  simp [commandedPos, lastCommand, List.filter_append, h]

theorem calibrating_start (hindex : start.config.anticogging.index = 0) :
    Calibrating sqrtf start [] (startAnticoggingCalibration start) where
  index _ := by
    have hsame : (startAnticoggingCalibration start).config.anticogging.index = 0 ∧
        (startAnticoggingCalibration start).inputPos = start.inputPos := by
      unfold startAnticoggingCalibration
      split
      · exact ⟨hindex, rfl⟩
      · exact ⟨hindex, rfl⟩
    rw [hsame.1, hsame.2]
    exact ⟨by decide, rfl, rfl⟩
  below := nofun
  finished := fun ⟨_, hmem, _⟩ => absurd hmem List.not_mem_nil

/-- A call that neither ends the calibration nor makes the map valid. -/
theorem Call.not_finishes
    (hcalib : call.active = true →
      (call.after sqrtf).config.anticogging.calibAnticogging = true)
    (hvalid : (call.after sqrtf).anticoggingValid = call.controller.anticoggingValid) :
    ¬call.finishes sqrtf := by
  rintro (⟨hactive, hended⟩ | ⟨hinvalid, hmade⟩)
  · rw [hcalib hactive] at hended
    cases hended
  · rw [hvalid, hinvalid] at hmade
    cases hmade

theorem exists_finishes_of_concat (hnot : ¬call.finishes sqrtf)
    (h : ∃ other ∈ calls ++ [call], other.finishes sqrtf) :
    ∃ other ∈ calls, other.finishes sqrtf := by
  obtain ⟨other, hmem, hfinishes⟩ := h
  rcases List.mem_append.mp hmem with hmem | hmem
  · exact ⟨other, hmem, hfinishes⟩
  · obtain rfl := List.mem_singleton.mp hmem
    exact absurd hfinishes hnot

/-- **One call.** -/
theorem Calibrating.snoc (h : Calibrating sqrtf start calls c) (hnext : nextCall sqrtf c call c') :
    Calibrating sqrtf start (calls ++ [call]) c' := by
  obtain ⟨hundisturbed, rfl⟩ := hnext
  have hactive : call.active = c.config.anticogging.calibAnticogging :=
    hundisturbed.calibAnticogging
  have hindex : call.index = c.config.anticogging.index.toNat :=
    congrArg BitVec.toNat hundisturbed.index
  have heffect : Call.Effect call (call.after sqrtf) := Call.effect sqrtf fun hcalib => by
    rw [hindex]
    exact (h.index (hactive ▸ hcalib)).1
  cases heffect with
  | idle hcommands hanticogging hvalid hpos =>
    have hentries : entries (calls ++ [call]) = entries calls := by
      rw [entries_concat, Call.written_of_not_commands hcommands]
      exact List.append_nil _
    have hindex' : (call.after sqrtf).config.anticogging.index = c.config.anticogging.index := by
      rw [hanticogging, hundisturbed.index]
    have hcalib' : (call.after sqrtf).config.anticogging.calibAnticogging =
        c.config.anticogging.calibAnticogging := by
      rw [hanticogging, hundisturbed.calibAnticogging]
    refine ⟨fun hcalib => ?_, fun entry hentry => ?_, fun hfinished => ?_⟩
    · rw [hcalib'] at hcalib
      obtain ⟨hlt, hwritten, hinput⟩ := h.index hcalib
      rw [hentries, hindex', commandedPos_concat_of_not_commands hcommands,
        hpos (hactive.trans hcalib), hundisturbed.inputPos]
      exact ⟨hlt, hwritten, hinput⟩
    · exact h.below entry (hentries ▸ hentry)
    · have hnot : ¬call.finishes sqrtf := Call.not_finishes (fun hcalib => by
        rw [hcalib', ← hactive, hcalib]) hvalid
      rw [hcalib', hentries]
      exact h.finished (exists_finishes_of_concat hnot hfinished)
  | advance hcommands hwritten hlt hindex' hcalib' hvalid hpos =>
    have hcalib := hactive ▸ Call.active_of_commands hcommands
    have hentries : entries (calls ++ [call]) = List.range call.next := by
      rw [entries_concat, (h.index hcalib).2.1, ← hindex, hwritten]
    refine ⟨fun _ => ?_, fun entry hentry => ?_, fun hfinished => ?_⟩
    · rw [hindex', commandedPos_concat_of_commands hcommands]
      exact ⟨hlt, hentries, hpos⟩
    · rw [hentries, List.mem_range] at hentry
      exact hentry.trans hlt
    · have hnot : ¬call.finishes sqrtf := Call.not_finishes (fun _ => hcalib') hvalid
      have hended := (h.finished (exists_finishes_of_concat hnot hfinished)).1
      rw [hcalib] at hended
      cases hended
  | finish hcommands hwritten hcalib' =>
    have hcalib := hactive ▸ Call.active_of_commands hcommands
    have hentries : entries (calls ++ [call]) = List.range coggingMapSize := by
      rw [entries_concat, (h.index hcalib).2.1, ← hindex, hwritten]
    refine ⟨fun hcalib => ?_, fun entry hentry => ?_, fun _ => ⟨hcalib', hentries⟩⟩
    · rw [hcalib'] at hcalib
      cases hcalib
    · rw [hentries] at hentry
      exact List.mem_range.mp hentry

/-- **All calls.** -/
theorem CalibrationRun.calibrating (hrun : CalibrationRun sqrtf start calls c)
    (hindex : start.config.anticogging.index = 0) : Calibrating sqrtf start calls c := by
  induction hrun with
  | nil => exact calibrating_start hindex
  | snoc _ hnext ih => exact ih.snoc hnext

/-- Each entry is written at its position, below the end of the map, and when the calibration
ends, or the map becomes valid, each of them has been written once. -/
structure Complete (sqrtf : K → K) (calls : List (Call K)) : Prop where
  /-- A call stores the torque in the entry that it writes, and leaves the others alone. -/
  stores : ∀ call ∈ calls, (call.after sqrtf).config.anticogging.coggingMap =
    match call.written with
    | some entry => call.controller.config.anticogging.coggingMap.setIfInBounds entry
        call.controller.velIntegratorTorque
    | none => call.controller.config.anticogging.coggingMap
  positions : ∀ call ∈ calls, ∀ entry, call.written = some entry →
    call.controller.inputPos = entry * coggingRatio
  below : ∀ call ∈ calls, ∀ entry, call.written = some entry → entry < coggingMapSize
  once : ∀ before call after, calls = before ++ call :: after → call.finishes sqrtf →
    ∀ entry < coggingMapSize, (entries (before ++ [call])).count entry = 1

/-- A call that writes before any position was commanded starts at the position 0, and the
position commanded last before any other call that writes was not wrapped to another one. -/
def Commanded (start : Controller K) (calls : List (Call K)) : Prop :=
  ∀ (before : List (Call K)) (call : Call K) (after : List (Call K)),
    calls = before ++ call :: after → call.written ≠ none →
      match lastCommand before with
      | none => start.inputPos = 0
      | some last => last.wrapped (call.index * coggingRatio) = call.index * coggingRatio

omit [FloorRing K] in
theorem entries_of_lastCommand (h : lastCommand calls = none) : entries calls = [] := by
  rw [lastCommand, List.getLast?_eq_none_iff, List.filter_eq_nil_iff] at h
  rw [entries, List.filterMap_eq_nil_iff]
  intro call hcall
  exact Call.written_of_not_commands (Bool.eq_false_iff.mpr (h call hcall))

/-- The calls up to one of them. -/
theorem CalibrationRun.upTo {before after : List (Call K)}
    (hrun : CalibrationRun sqrtf start (before ++ call :: after) c) :
    ∃ c₁ c₂, CalibrationRun sqrtf start before c₁ ∧ nextCall sqrtf c₁ call c₂ := by
  have hsplit : before ++ call :: after = (before ++ [call]) ++ after := by
    rw [List.append_assoc, List.singleton_append]
  rw [hsplit] at hrun
  obtain ⟨c₂, hupTo, -⟩ := hrun.split
  obtain ⟨c₁, hbefore, hnext⟩ := hupTo.of_snoc
  exact ⟨c₁, c₂, hbefore, hnext⟩

/-- A call that writes: the entry is the index, and the position that it finds is that of the
last command. -/
theorem CalibrationRun.written {before after : List (Call K)} {entry : Nat}
    (hrun : CalibrationRun sqrtf start (before ++ call :: after) c)
    (hindex : start.config.anticogging.index = 0) (hwritten : call.written = some entry) :
    entry = call.index ∧ entry < coggingMapSize ∧
      call.controller.inputPos = commandedPos start before entry ∧
      (lastCommand before = none → entry = 0) := by
  obtain ⟨c₁, c₂, hbefore, hundisturbed, -⟩ := hrun.upTo
  have hcommands : call.commands = true := by
    by_contra hnot
    rw [Call.written_of_not_commands (Bool.eq_false_iff.mpr hnot)] at hwritten
    cases hwritten
  have hcalib : c₁.config.anticogging.calibAnticogging = true :=
    hundisturbed.calibAnticogging.symm.trans (Call.active_of_commands hcommands)
  obtain ⟨hlt, hentries, hpos⟩ := (hbefore.calibrating hindex).index hcalib
  have hsame : call.index = c₁.config.anticogging.index.toNat :=
    congrArg BitVec.toNat hundisturbed.index
  rw [← hsame] at hlt hentries hpos
  have hentry : entry = call.index := by
    unfold Call.written at hwritten
    split at hwritten
    · rw [← Option.some.inj hwritten]
      exact Nat.min_eq_left hlt.le
    · cases hwritten
  refine ⟨hentry, hentry ▸ hlt, ?_, fun hnone => ?_⟩
  · rw [hundisturbed.inputPos, hpos, hentry]
  · rw [entries_of_lastCommand hnone] at hentries
    rw [hentry]
    exact (List.range_eq_nil.mp hentries.symm)

/-- **Anticogging calibration.** Each entry is written once and at its position exactly if the
first position was commanded before its torque was recorded, and no position was wrapped. -/
theorem calibration_complete_iff (hrun : CalibrationRun sqrtf start calls c)
    (hindex : start.config.anticogging.index = 0) :
    Complete sqrtf calls ↔ Commanded start calls := by
  constructor
  · rintro hcomplete before call after rfl hwritten
    obtain ⟨entry, hentry⟩ := Option.ne_none_iff_exists'.mp hwritten
    obtain ⟨hat, -, hpos, hfirst⟩ := hrun.written hindex hentry
    have hposition := hcomplete.positions call (by simp) entry hentry
    rw [hpos, commandedPos] at hposition
    cases hlast : lastCommand before with
    | none =>
      simp only [hlast] at hposition
      rw [hposition, hfirst hlast, Nat.cast_zero, zero_mul]
    | some last =>
      simp only [hlast] at hposition
      rw [hat] at hposition
      exact hposition
  · intro hcommanded
    refine ⟨fun call _ => call.after_coggingMap sqrtf, fun call hcall entry hentry => ?_,
      fun call hcall entry hentry => ?_, fun before call after hcalls hfinishes entry hlt => ?_⟩
    · obtain ⟨before, after, rfl⟩ := List.append_of_mem hcall
      obtain ⟨hat, -, hpos, hfirst⟩ := hrun.written hindex hentry
      have hright := hcommanded before call after rfl (by rw [hentry]; exact Option.some_ne_none _)
      rw [hpos, commandedPos]
      cases hlast : lastCommand before with
      | none =>
        simp only [hlast] at hright
        rw [hright, hfirst hlast, Nat.cast_zero, zero_mul]
      | some last =>
        simp only [hlast] at hright
        rw [hat]
        exact hright
    · obtain ⟨before, after, rfl⟩ := List.append_of_mem hcall
      exact (hrun.written hindex hentry).2.1
    · subst hcalls
      obtain ⟨c₁, c₂, hbefore, hnext⟩ := hrun.upTo
      have hdone := ((hbefore.calibrating hindex).snoc hnext).finished
        ⟨call, by simp, hfinishes⟩
      rw [hdone.2]
      exact List.count_eq_one_of_mem List.nodup_range (List.mem_range.mpr hlt)

/-! ## A calibration that is started away from the position 0 -/

/-- The first call of a calibration that is started where the motor holds half a turn. -/
def firstCall : Call ℚ where
  inputs := halfTurnInputs
  controller := startAnticoggingCalibration atHalfTurn

theorem run_firstCall :
    CalibrationRun id atHalfTurn [firstCall] (firstCall.after id) :=
  Run.single ⟨⟨rfl, rfl, rfl⟩, rfl⟩

theorem calibration_complete_iff_firstCall :
    Complete id [firstCall] ↔ Commanded atHalfTurn [firstCall] :=
  calibration_complete_iff run_firstCall rfl

/-- The torque that holds half a turn is recorded as that of the position 0. -/
theorem not_complete :
    CalibrationRun id atHalfTurn [firstCall] (firstCall.after id) ∧
      atHalfTurn.config.anticogging.index = 0 ∧ ¬Complete id [firstCall] := by
  refine ⟨run_firstCall, rfl, fun hcomplete => ?_⟩
  have hwritten : firstCall.written = some 0 := by decide +kernel
  have hpos := hcomplete.positions firstCall (List.mem_singleton.mpr rfl) 0 hwritten
  rw [Nat.cast_zero, zero_mul] at hpos
  have hhalf : firstCall.controller.inputPos = 1 / 2 := by decide +kernel
  rw [hhalf] at hpos
  exact absurd hpos (by decide +kernel)

end WODrive.Controller
