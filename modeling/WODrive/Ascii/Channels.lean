import WODrive.Ascii.Lines
import WODrive.Library.Runs

/-!
# Two channels, one parser

The UART and the USB thread both call `ASCII_protocol_parse_stream`, whose variables
exist once. `Shared` runs the calls of any number of channels on these, in any order,
and `alone` one channel's bytes by themselves.

A call is `Unmixed` when it finds the parser at the start of a line, or continues the
line of its own channel. In the runs of such calls every channel gets the lines that it
would get alone (`independent_run`). A call that is not can always be told from
outside: end the lines of both channels, and one of them has got other lines than it
would have alone (`mixed_dependent`).
-/

namespace WODrive.Ascii

variable {κ : Type} [DecidableEq κ]

/-- A call for a channel: its bytes. -/
abbrev Call (κ : Type) := κ × List (BitVec 8)

/-- The parser, and what its calls have done. -/
structure Shared (κ : Type) where
  parser : LineState
  /-- The lines processed, each with its response channel. -/
  processed : List (κ × List (BitVec 8))
  /-- The channel of the last bytes. -/
  last : Option κ

def Shared.start : Shared κ := ⟨.start, [], none⟩

/-- One call of `ASCII_protocol_parse_stream`. -/
def Shared.step (s : Shared κ) (call : Call κ) : Shared κ where
  parser := (parseStream call.2 s.parser).2
  processed := s.processed ++ (parseStream call.2 s.parser).1.map (call.1, ·)
  last := if call.2 = [] then s.last else some call.1

def Shared.run (s : Shared κ) (calls : List (Call κ)) : Shared κ := calls.foldl Shared.step s

/-- The lines processed for a channel. -/
def Shared.lines (s : Shared κ) (c : κ) : List (List (BitVec 8)) :=
  (s.processed.filter (·.1 = c)).map (·.2)

/-- The bytes of a channel. -/
def bytes (c : κ) (calls : List (Call κ)) : List (BitVec 8) :=
  (calls.filter (·.1 = c)).flatMap (·.2)

/-- The lines of a channel whose calls are the only ones, and the parser after them. -/
def alone (c : κ) (calls : List (Call κ)) : List (List (BitVec 8)) × LineState :=
  parseStream (bytes c calls) .start

/-- Every channel gets the lines that it would get alone. -/
def Independent (calls : List (Call κ)) : Prop :=
  ∀ c, (Shared.start.run calls).lines c = (alone c calls).1

/-- The call finds the start of a line, or goes on with the line of its own channel. -/
def Unmixed (s : Shared κ) (call : Call κ) : Prop :=
  call.2 = [] ∨ s.parser = .start ∨ s.last = some call.1

/-! ## Calls one by one -/

omit [DecidableEq κ] in
theorem run_snoc (calls : List (Call κ)) (call : Call κ) (s : Shared κ) :
    s.run (calls ++ [call]) = (s.run calls).step call := by
  simp [Shared.run]

theorem bytes_snoc (c : κ) (calls : List (Call κ)) (call : Call κ) :
    bytes c (calls ++ [call]) = bytes c calls ++ if call.1 = c then call.2 else [] := by
  by_cases h : call.1 = c <;> simp [bytes, h]

theorem alone_self (calls : List (Call κ)) (call : Call κ) :
    alone call.1 (calls ++ [call]) =
      ((alone call.1 calls).1 ++ (parseStream call.2 (alone call.1 calls).2).1,
        (parseStream call.2 (alone call.1 calls).2).2) := by
  simp [alone, bytes_snoc, parseStream_append]

theorem alone_other {c : κ} (calls : List (Call κ)) {call : Call κ} (h : call.1 ≠ c) :
    alone c (calls ++ [call]) = alone c calls := by
  simp [alone, bytes_snoc, h]

theorem lines_step (s : Shared κ) (call : Call κ) (c : κ) :
    (s.step call).lines c =
      s.lines c ++ if call.1 = c then (parseStream call.2 s.parser).1 else [] := by
  by_cases h : call.1 = c
  · have hall : ∀ p ∈ (parseStream call.2 s.parser).1.map (call.1, ·),
        decide (p.1 = c) = true := by
      simp [h]
    simp only [Shared.lines, Shared.step, List.filter_append, List.filter_eq_self.mpr hall,
      List.map_append, List.map_map, Function.comp_def, List.map_id', if_pos h]
  · simp [Shared.lines, Shared.step, h]

/-! ## Unmixed runs -/

/-- The invariant: the lines so far are those of the channels alone, and the parser is
that of the channel it was last called for, while those of the others are at the start
of a line. -/
structure Separate (calls : List (Call κ)) (s : Shared κ) : Prop where
  lines : ∀ c, s.lines c = (alone c calls).1
  parser : ∀ c, (alone c calls).2 = if s.last = some c then s.parser else .start
  first : s.last = none → s.parser = .start

theorem separate_start : Separate [] (Shared.start : Shared κ) where
  lines := fun _ => rfl
  parser := fun _ => rfl
  first := fun _ => rfl

/-- The parser of the calling channel is the shared one. -/
theorem Separate.parser_self {calls : List (Call κ)} {s : Shared κ} (h : Separate calls s)
    {call : Call κ} (hok : s.parser = .start ∨ s.last = some call.1) :
    (alone call.1 calls).2 = s.parser := by
  rw [h.parser call.1]
  split
  next => rfl
  next hother =>
    rcases hok with hstart | hlast
    · exact hstart.symm
    · exact absurd hlast hother

theorem Separate.step {calls : List (Call κ)} {s : Shared κ} (h : Separate calls s)
    {call : Call κ} (hok : Unmixed s call) : Separate (calls ++ [call]) (s.step call) := by
  by_cases hnil : call.2 = []
  · have hstep : s.step call = s := by simp [Shared.step, hnil]
    have halone : ∀ c, alone c (calls ++ [call]) = alone c calls := by
      intro c
      simp [alone, bytes_snoc, hnil]
    rw [hstep]
    exact ⟨fun c => by rw [halone]; exact h.lines c, fun c => by rw [halone]; exact h.parser c,
      h.first⟩
  · have hok' : s.parser = .start ∨ s.last = some call.1 := hok.resolve_left hnil
    have hself := h.parser_self hok'
    have hlast : (s.step call).last = some call.1 := if_neg hnil
    refine ⟨fun c => ?_, fun c => ?_, fun hnone => ?_⟩
    · rw [lines_step, h.lines c]
      by_cases hc : call.1 = c
      · subst hc
        rw [if_pos rfl, alone_self, hself]
      · rw [if_neg hc, alone_other calls hc, List.append_nil]
    · rw [hlast]
      by_cases hc : call.1 = c
      · subst hc
        rw [if_pos rfl, alone_self, hself]
        rfl
      · rw [if_neg (by simp [hc]), alone_other calls hc, h.parser c]
        -- the line of another channel, if there is one, has ended
        split
        next hlastc =>
          refine hok'.resolve_right ?_
          rw [hlastc]
          simpa using Ne.symm hc
        next => rfl
    · rw [hlast] at hnone
      cases hnone

theorem separate_run {calls : List (Call κ)} {s : Shared κ}
    (hrun : Run (Guarded Unmixed fun s call t => t = s.step call) Shared.start calls s) :
    Separate calls s := by
  induction hrun with
  | nil => exact separate_start
  | snoc _ he ih =>
    obtain ⟨hok, rfl⟩ := he
    exact ih.step hok

omit [DecidableEq κ] in
theorem run_eq {calls : List (Call κ)} {s t : Shared κ}
    (hrun : Run (Guarded Unmixed fun s call t => t = s.step call) s calls t) :
    t = s.run calls := by
  induction hrun with
  | nil => rfl
  | snoc _ he ih =>
    obtain ⟨-, rfl⟩ := he
    rw [run_snoc, ih]

/-- In every run of unmixed calls every channel gets the lines that it gets alone. -/
theorem independent_run {calls : List (Call κ)} {s : Shared κ}
    (hrun : Run (Guarded Unmixed fun s call t => t = s.step call) Shared.start calls s) :
    Independent calls := by
  intro c
  rw [← run_eq hrun]
  exact (separate_run hrun).lines c

/-! ## Mixed calls -/

/-- The end of a line, as a call. -/
def endLine (c : κ) : Call κ := (c, [13])

/-- Only at the start of a line does the end of a line give an empty one. -/
theorem eq_start_of_endLine {s : LineState} (hs : s.Bounded)
    (h : (parseStream [13] s).1 = [[]]) : s = .start := by
  obtain ⟨buffer, active⟩ := s
  cases active with
  | true =>
    have hline : parseStream ([] ++ [13]) ⟨buffer, true⟩ = _ :=
      parseStream_line buffer hs.length_le (by simp) rfl
    rw [List.nil_append] at hline
    rw [hline] at h
    split at h
    next =>
      obtain rfl : buffer = [] := by simpa using h
      rfl
    next => cases h
  | false =>
    obtain rfl : buffer = [] := hs.skipped rfl
    have hskip : parseStream ([] ++ [13]) ⟨[], false⟩ = _ := parseStream_skip (by simp) rfl
    rw [List.nil_append] at hskip
    rw [hskip] at h
    cases h

/-- After a call that is not unmixed, the ends of the two lines tell. -/
theorem mixed_dependent {calls : List (Call κ)} {s : Shared κ}
    (hrun : Run (Guarded Unmixed fun s call t => t = s.step call) Shared.start calls s)
    {call : Call κ} (hmixed : ¬ Unmixed s call) :
    ∃ d, ¬ Independent (calls ++ [call] ++ [endLine call.1] ++ [endLine d]) := by
  have hsep := separate_run hrun
  obtain ⟨-, hparser, hlast⟩ : call.2 ≠ [] ∧ s.parser ≠ .start ∧ s.last ≠ some call.1 := by
    simpa [Unmixed] using hmixed
  obtain ⟨d, hd⟩ := Option.ne_none_iff_exists'.mp fun hnone => hparser (hsep.first hnone)
  have hne : call.1 ≠ d := by
    rintro rfl
    exact hlast hd
  have hbefore : (alone d calls).2 = s.parser := by rw [hsep.parser d, if_pos hd]
  refine ⟨d, fun hindep => hparser ?_⟩
  have hbounded : s.parser.Bounded := hbefore ▸ LineState.bounded_start.parseStream _
  apply eq_start_of_endLine hbounded
  -- the shared parser has nothing left of the line, alone it would still be there
  have hshared : (Shared.start.run
      (calls ++ [call] ++ [endLine call.1] ++ [endLine d])).lines d = s.lines d ++ [[]] := by
    rw [run_snoc, run_snoc, run_snoc, ← run_eq hrun, lines_step, lines_step, lines_step,
      if_neg hne, if_neg (show ¬ (endLine call.1).1 = d from hne),
      if_pos (show (endLine d).1 = d from rfl)]
    simp [Shared.step, endLine, parseStream, parseByte, isEndOfLine,
      LineState.start, maxLineLength]
  have halone : alone d (calls ++ [call] ++ [endLine call.1]) = alone d calls := by
    rw [alone_other _ (show (endLine call.1).1 ≠ d from hne), alone_other _ hne]
  have hlines := hindep d
  rw [hshared, show alone d _ = _ from alone_self _ (endLine d)] at hlines
  simp only [endLine] at hlines halone
  rw [halone, hsep.lines d, hbefore] at hlines
  exact (List.append_cancel_left hlines).symm

/-- Every channel gets the lines that it gets alone, in every run of unmixed calls; and
these are exactly the runs in which this stays so if the lines are ended at any point. -/
theorem independent_of_unmixed (calls : List (Call κ)) :
    ((∃ s, Run (Guarded Unmixed fun s call t => t = s.step call) Shared.start calls s) →
      Independent calls) ∧
    ((∃ s, Run (Guarded Unmixed fun s call t => t = s.step call) Shared.start calls s) ↔
      ∀ before call after, calls = before ++ [call] ++ after → call.2 ≠ [] →
        ∀ d, Independent (before ++ [call] ++ [endLine call.1] ++ [endLine d])) := by
  refine ⟨fun ⟨s, hrun⟩ => independent_run hrun, ?_, ?_⟩
  · rintro ⟨s, hrun⟩ before call after rfl hbytes d
    obtain ⟨t, hrun, -⟩ := hrun.split
    obtain ⟨r, -, -, rfl⟩ := hrun.of_snoc
    have hlast : (r.step call).last = some call.1 := if_neg hbytes
    exact independent_run (.snoc (.snoc hrun ⟨.inr (.inr hlast), rfl⟩) ⟨.inr (.inl rfl), rfl⟩)
  · intro hall
    induction calls using List.reverseRecOn with
    | nil => exact ⟨_, .nil⟩
    | append_singleton calls call ih =>
      obtain ⟨s, hrun⟩ := ih fun before c after heq hbytes d =>
        hall before c (after ++ [call]) (by rw [heq]; simp) hbytes d
      refine ⟨_, .snoc hrun ⟨?_, rfl⟩⟩
      by_contra hmixed
      obtain ⟨d, hdep⟩ := mixed_dependent hrun hmixed
      exact hdep (hall calls call [] (by simp) (fun hnil => hmixed (.inl hnil)) d)

/-- The two channels of the firmware. -/
inductive Channel where
  | uart
  | usb
deriving DecidableEq, Repr

/-- A line of each channel, one call after the other. -/
theorem independent_two_lines :
    Independent ([(.uart, [112, 10]), (.usb, [118]), (.usb, [10])] : List (Call Channel)) :=
  (independent_of_unmixed _).1 ⟨_, .cons ⟨.inr (.inl rfl), rfl⟩
    (.cons ⟨.inr (.inl rfl), rfl⟩ (.cons ⟨.inr (.inr rfl), rfl⟩ .nil))⟩

/-- The UART ends the line that USB has begun, and is answered for it. -/
theorem not_independent :
    ¬ Independent ([(.usb, [112]), (.uart, [10]), (.usb, [10])] : List (Call Channel)) := by
  intro h
  have huart := h .uart
  revert huart
  decide

end WODrive.Ascii
