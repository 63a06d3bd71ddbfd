import WODrive.Ascii.ProcessLine

/-!
# Checksums of lines

What becomes of a line with a `*` that is not in its comment. `validate_eq` has the scan
of the line in closed form: the exclusive or of the bytes before the first `*`, and the
text between it and the comment.

- `checksum_enforced_iff`: such a line is only executed with a right checksum, unless the
  `*` is the last character before the comment or the end. The checksum would then start
  where the line ends, which is how the code tells that there is none.
-/

namespace WODrive.Ascii

open Scan Fibre

variable {F P S : Type}

/-- Neither a comment nor a checksum starts here. -/
def IsPlain (text : List Char8) : Prop := ∀ c ∈ text, c ≠ ch ';' ∧ c ≠ ch '*'

/-- The text up to a comment. -/
def uncommented (text : List Char8) : List Char8 := text.takeWhile (· ≠ ch ';')

/-- The exclusive or of the bytes. -/
def xorAll (text : List Char8) : BitVec 8 := text.foldl (· ^^^ ·) 0

/-! ## The scan of the line -/

/-- Before a checksum. -/
theorem scanLine_plain {before : List Char8} (hbefore : IsPlain before) (rest : List Char8)
    (i : Nat) (scan : LineScan) (hscan : scan.checksumStart = SIZE_MAX)
    (hi : i + before.length ≤ SIZE_MAX) :
    scanLine i (before ++ rest) scan =
      scanLine (i + before.length) rest
        { scan with checksum := before.foldl (· ^^^ ·) scan.checksum } := by
  induction before generalizing i scan with
  | nil => rfl
  | cons c before ih =>
    obtain ⟨hcomment, hstar⟩ := hbefore c List.mem_cons_self
    rw [List.length_cons] at hi
    rw [List.cons_append, scanLine, if_neg hcomment, if_pos (by omega), if_neg hstar]
    rw [ih (fun c hc => hbefore c (List.mem_cons_of_mem _ hc)) (i + 1)
      { scan with checksum := scan.checksum ^^^ c } hscan (by omega), List.length_cons,
      Nat.add_assoc, Nat.add_comm 1]
    rfl

/-- Behind the start of a checksum only a comment is looked for. -/
theorem scanLine_checksum (rest : List Char8) (i : Nat) (scan : LineScan)
    (hscan : scan.checksumStart ≤ i) (hlen : scan.len = i + rest.length) :
    scanLine i rest scan = { scan with len := i + (uncommented rest).length } := by
  induction rest generalizing i with
  | nil =>
    rw [scanLine, uncommented, List.takeWhile_nil, ← hlen]
  | cons c rest ih =>
    rw [List.length_cons] at hlen
    rw [scanLine]
    by_cases hcomment : c = ch ';'
    · rw [if_pos hcomment, uncommented, List.takeWhile_cons_of_neg (by simp [hcomment])]
      rfl
    · rw [if_neg hcomment, if_neg (by omega), ih (i + 1) (by omega) (by omega), uncommented,
        uncommented, List.takeWhile_cons_of_pos (by simp [hcomment]), List.length_cons,
        Nat.add_assoc, Nat.add_comm 1]

/-- The whole line. -/
theorem scanLine_eq {before : List Char8} (hbefore : IsPlain before) (after : List Char8)
    (hlen : (before ++ ch '*' :: after).length ≤ maxLineLength) :
    scanLine 0 (before ++ ch '*' :: after)
        ⟨0, SIZE_MAX, (before ++ ch '*' :: after).length⟩ =
      ⟨xorAll before, before.length + 1, before.length + 1 + (uncommented after).length⟩ := by
  have hmax : maxLineLength = 256 := rfl
  have hsize : SIZE_MAX = 4294967295 := rfl
  rw [List.length_append, List.length_cons] at hlen
  rw [scanLine_plain hbefore _ 0 _ rfl (by omega), Nat.zero_add, scanLine, if_neg (by decide),
    if_pos (by dsimp only; omega), if_pos rfl,
    scanLine_checksum after (before.length + 1) _ (Nat.le_refl _)
      (by dsimp only; rw [List.length_append, List.length_cons]; omega)]
  rfl

/-- What is left of a line up to its comment. -/
theorem take_uncommented (before after : List Char8) :
    (before ++ ch '*' :: after).take (before.length + 1 + (uncommented after).length) =
      before ++ ch '*' :: uncommented after := by
  have htake : after.take (uncommented after).length = uncommented after :=
    List.prefix_iff_eq_take.mp (List.takeWhile_prefix _) |>.symm
  rw [List.take_append, List.take_of_length_le (by omega),
    show before.length + 1 + (uncommented after).length - before.length =
      (uncommented after).length + 1 by omega, List.take_succ_cons, htake]

/-- The check of the checksum. With nothing behind the `*` there is none. -/
theorem validate_eq (scanFloat : List Char8 → Option (F × List Char8)) {before : List Char8}
    (hbefore : IsPlain before) (after : List Char8)
    (hlen : (before ++ ch '*' :: after).length ≤ maxLineLength) :
    validate scanFloat (before ++ ch '*' :: after) =
      if uncommented after = [] then some (cString (before ++ [ch '*']), false)
      else
        match sscanf scanFloat [.unsigned] (cString (uncommented after)) with
        | .unsigned x :: _ =>
          if x ≠ (xorAll before).setWidth 32 then none else some (cString before, true)
        | _ => none := by
  have hle : (uncommented after).length ≤ after.length := (List.takeWhile_prefix _).length_le
  have hmin : min (before.length + 1 + (uncommented after).length) maxLineLength =
      before.length + 1 + (uncommented after).length := by
    rw [List.length_append, List.length_cons] at hlen
    omega
  have hdrop : (before ++ ch '*' :: uncommented after).drop (before.length + 1) =
      uncommented after := by
    rw [List.drop_append, List.drop_eq_nil_of_le (Nat.le_succ _), Nat.add_sub_cancel_left]
    rfl
  unfold validate
  simp only [scanLine_eq hbefore after hlen, hmin, take_uncommented, hdrop, Nat.add_sub_cancel,
    List.take_left]
  by_cases hnil : uncommented after = []
  · rw [if_pos hnil, hnil, if_neg (by simp)]
  · have hpos := List.length_pos_iff.mpr hnil
    rw [if_neg hnil]
    exact if_pos (by simpa using hpos)

/-! ## Enforcement -/

/-- The text behind the `*` scans to the exclusive or of the bytes before it. -/
def ChecksumMatches (scanFloat : List Char8 → Option (F × List Char8))
    (before after : List Char8) : Prop :=
  ∃ x, sscanf scanFloat [.unsigned] (cString (uncommented after)) = [.unsigned x] ∧
    x.toNat = (xorAll before).toNat

/-- A line is executed only if its checksum matches, and has no effect otherwise. -/
structure ChecksumEnforced (env : Env F P S) (before after : List Char8) : Prop where
  executed : validate env.floatText.scan (before ++ ch '*' :: after) ≠ none →
    ChecksumMatches env.floatText.scan before after
  inert : ¬ ChecksumMatches env.floatText.scan before after →
    ∀ g, (processLine env g (before ++ ch '*' :: after)).1 = []

/-- `%u` stores at most one value. -/
theorem sscanf_unsigned (scanFloat : List Char8 → Option (F × List Char8))
    (text : List Char8) :
    sscanf scanFloat [.unsigned] text = [] ∨
      ∃ x, sscanf scanFloat [.unsigned] text = [.unsigned x] := by
  rw [sscanf]
  cases scanNumeral text with
  | none => exact .inl rfl
  | some r => exact .inr ⟨_, rfl⟩

/-- With a text behind the `*` the check decides. -/
theorem matches_of_validate (scanFloat : List Char8 → Option (F × List Char8))
    {before : List Char8} (hbefore : IsPlain before) {after : List Char8}
    (hlen : (before ++ ch '*' :: after).length ≤ maxLineLength)
    (hafter : uncommented after ≠ [])
    (h : validate scanFloat (before ++ ch '*' :: after) ≠ none) :
    ChecksumMatches scanFloat before after := by
  rw [validate_eq scanFloat hbefore after hlen, if_neg hafter] at h
  rcases sscanf_unsigned scanFloat (cString (uncommented after)) with hnone | ⟨x, hx⟩
  · rw [hnone] at h
    exact absurd rfl h
  · rw [hx] at h
    dsimp only at h
    split at h
    next => exact absurd rfl h
    next heq =>
      refine ⟨x, hx, ?_⟩
      rw [not_not.mp heq, BitVec.toNat_setWidth]
      exact Nat.mod_eq_of_lt ((xorAll before).isLt.trans (by decide))

/-- An empty text does not scan. -/
theorem not_matches_nil (scanFloat : List Char8 → Option (F × List Char8))
    (before : List Char8) {after : List Char8} (hafter : uncommented after = []) :
    ¬ ChecksumMatches scanFloat before after := by
  rintro ⟨x, hx, -⟩
  rw [hafter] at hx
  exact absurd hx (by simp [cString, sscanf, scanNumeral, scanSign, skipSpace])

/-- **When the checksum is enforced**: if there is any text between the `*` and the comment
or the end of the line. -/
theorem checksum_enforced_iff (env : Env F P S) {before : List Char8}
    (hbefore : IsPlain before) (after : List Char8)
    (hlen : (before ++ ch '*' :: after).length ≤ maxLineLength) :
    ChecksumEnforced env before after ↔ uncommented after ≠ [] := by
  constructor
  · intro h hnil
    refine not_matches_nil env.floatText.scan before hnil (h.executed ?_)
    rw [validate_eq _ hbefore after hlen, if_pos hnil]
    exact Option.some_ne_none _
  · intro hafter
    refine ⟨matches_of_validate _ hbefore hlen hafter, fun hnot g => ?_⟩
    have hnone : validate env.floatText.scan (before ++ ch '*' :: after) = none := by
      by_contra h
      exact hnot (matches_of_validate _ hbefore hlen hafter h)
    rw [processLine, hnone]

/-- A device without properties, with floating-point numbers that never scan. -/
def bareEnv : Env Unit Unit Unit where
  types := ⟨fun _ => [], fun _ _ _ => (), by simp, by simp⟩
  root := ⟨(), some ()⟩
  garbageStorage := ()
  stringConvertible _ := none
  floatText := ⟨fun _ => none, fun _ => []⟩
  posEstimate _ := ()
  velEstimate _ := ()
  hwVersion := (3, 6, 56)
  fwVersion := (0, 5, 1)
  serialNumber := []

/-- `vs*5` is the line `vs` with its checksum. -/
theorem checksum_enforced_vs :
    ChecksumEnforced bareEnv [ch 'v', ch 's'] [ch '5'] ↔ uncommented [ch '5'] ≠ [] :=
  checksum_enforced_iff bareEnv
    (by
      intro c hc
      rcases List.mem_pair.mp hc with rfl | rfl <;> exact ⟨by decide, by decide⟩)
    [ch '5'] (by decide)

/-- `ss*` saves the configuration. -/
theorem checksum_not_enforced :
    (∀ g, (processLine bareEnv g [ch 's', ch 's', ch '*']).1 = [.saveConfiguration]) ∧
      ¬ ChecksumEnforced bareEnv [ch 's', ch 's'] [] := by
  have hline : validate bareEnv.floatText.scan [ch 's', ch 's', ch '*'] =
      some ([ch 's', ch 's', ch '*'], false) := by decide
  refine ⟨fun g => ?_, fun h => ?_⟩
  · rw [processLine, hline]
    rfl
  · refine not_matches_nil bareEnv.floatText.scan [ch 's', ch 's'] rfl (h.executed ?_)
    show validate bareEnv.floatText.scan [ch 's', ch 's', ch '*'] ≠ none
    rw [hline]
    exact Option.some_ne_none _

end WODrive.Ascii
