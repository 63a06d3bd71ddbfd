import WODrive.Ascii.Checksum
import WODrive.Ascii.Malformed

/-!
# Properties as text

A property is read with the line `r path`, and what this returns is sent back with the line
`w path text`. Both lines are plain: neither has a comment or a checksum, and words without
spaces stand behind their letter (`processLine_plain`, `sscanf_word`).

- `processLine_read`: the answer is the numeral of the value with the suffix of its format,
  cut off where the buffer of ten characters ends;
- `processLine_write`: the numeral of a value stores the value;
- `propertyRoundTrip_iff`: a value comes back in its numeral, if this has at most nine
  characters, and exactly nine if the format has a suffix.
-/

namespace WODrive.Ascii

open Scan Fibre

variable {F P S : Type}

/-! ## Words -/

/-- A text that neither ends a line nor starts a comment or a checksum. -/
def IsCommand (text : List Char8) : Prop := ∀ c ∈ text, (c ≠ ch ';' ∧ c ≠ ch '*') ∧ c ≠ 0

/-- A word of a command. -/
structure IsWord (word : List Char8) : Prop where
  ne_nil : word ≠ []
  not_space : ∀ c ∈ word, isSpace c = false
  command : IsCommand word

theorem isWord_numeral (x : Int) : IsWord (numeral x) := by
  have hdigit : ∀ c, isDigit c = true →
      isSpace c = false ∧ (c ≠ ch ';' ∧ c ≠ ch '*') ∧ c ≠ 0 := by
    intro c hc
    refine ⟨(digit_cases hc).1, ⟨?_, ?_⟩, ?_⟩
    all_goals
      rintro rfl
      exact absurd hc (by decide)
  have hchar : ∀ c ∈ numeral x, isSpace c = false ∧ (c ≠ ch ';' ∧ c ≠ ch '*') ∧ c ≠ 0 := by
    intro c hc
    unfold numeral at hc
    split at hc
    next =>
      rcases List.mem_cons.mp hc with rfl | hc
      · decide
      · exact hdigit c (decimal_isDigit _ c hc)
    next => exact hdigit c (decimal_isDigit _ c hc)
  obtain ⟨c, text, hcons, -⟩ := numeral_cons x
  refine ⟨?_, fun c hc => (hchar c hc).1, fun c hc => (hchar c hc).2⟩
  rw [hcons]
  exact List.cons_ne_nil _ _

/-- `%255s` stores the next word of the line. -/
theorem sscanf_word (scanFloat : List Char8 → Option (F × List Char8))
    (format : List Directive) {word : List Char8} (hword : IsWord word)
    (hlength : word.length ≤ 255) (rest : List Char8) (hrest : ∀ c ∈ rest.head?, isSpace c = true) :
    sscanf scanFloat (.space :: .string 255 :: format) (32 :: (word ++ rest)) =
      .string word :: sscanf scanFloat format rest := by
  obtain ⟨c, tail, rfl⟩ := List.exists_cons_of_ne_nil hword.ne_nil
  have hc := hword.not_space c List.mem_cons_self
  have hskip : skipSpace (c :: tail ++ rest) = c :: tail ++ rest := by
    rw [skipSpace, List.cons_append, List.dropWhile_cons_of_neg (by simp [hc])]
  have hspace : skipSpace (32 :: (c :: tail ++ rest)) = c :: tail ++ rest := by
    rw [skipSpace, List.dropWhile_cons_of_pos (by decide)]
    exact hskip
  have hstop : rest.takeWhile (fun c => !isSpace c) = [] := by
    cases rest with
    | nil => rfl
    | cons d rest => exact List.takeWhile_cons_of_neg (by simp [hrest d rfl])
  have htake : ((c :: tail ++ rest).takeWhile fun c => !isSpace c).take 255 = c :: tail := by
    rw [List.takeWhile_append_of_pos (fun d hd => by simp [hword.not_space d hd]), hstop,
      List.append_nil, List.take_of_length_le hlength]
  rw [sscanf, sscanf, hspace, hskip, htake, if_neg (List.cons_ne_nil _ _), List.drop_left]

/-! ## Plain lines -/

/-- A line without a comment and a checksum is executed as it is. -/
theorem processLine_plain (env : Env F P S) (g : Locals F) {line : List Char8}
    (hline : IsCommand line) (hlen : line.length ≤ maxLineLength) :
    processLine env g line =
      ((processCommand env g line).effects,
        (processCommand env g line).responses.flatMap (respond false)) := by
  have hmax : maxLineLength = 256 := rfl
  have hsize : SIZE_MAX = 4294967295 := rfl
  have hscan := scanLine_plain (fun c hc => (hline c hc).1) [] 0 ⟨0, SIZE_MAX, line.length⟩ rfl
    (by omega)
  rw [List.append_nil, scanLine] at hscan
  have hstring : cString line = line := by
    rw [cString, List.takeWhile_eq_self_iff]
    exact fun c hc => decide_eq_true (hline c hc).2
  have hvalidate : validate env.floatText.scan line = some (line, false) := by
    unfold validate
    simp only [hscan, min_eq_left hlen, List.take_length]
    rw [if_neg (by rw [decide_eq_true_eq]; omega), hstring]
  rw [processLine, hvalidate]

/-- `r path` -/
def readLine (path : List Char8) : List Char8 := ch 'r' :: 32 :: path

/-- `w path text` -/
def writeLine (path text : List Char8) : List Char8 := ch 'w' :: 32 :: (path ++ 32 :: text)

theorem readLine_isCommand {path : List Char8} (hpath : IsWord path) :
    IsCommand (readLine path) := by
  rw [IsCommand, readLine, List.forall_mem_cons, List.forall_mem_cons]
  exact ⟨by decide, by decide, hpath.command⟩

theorem writeLine_isCommand {path text : List Char8} (hpath : IsWord path)
    (htext : IsWord text) : IsCommand (writeLine path text) := by
  rw [IsCommand, writeLine, List.forall_mem_cons, List.forall_mem_cons, List.forall_mem_append,
    List.forall_mem_cons]
  exact ⟨by decide, by decide, hpath.command, by decide, htext.command⟩

/-! ## Reading and writing -/

/-- An answer that fits the buffer of `respond`. -/
theorem respond_short {text : List Char8} (hlength : text.length < 64) :
    respond false text = text ++ [13, 10] := by
  rw [respond, if_pos hlength]
  simp

section Property

variable {env : Env F P S} {path : List Char8} {storage : S} {access : PropertyAccess F S}

/-- The line `r path` is answered with the text of the value, and has no effect. -/
theorem processLine_read (g : Locals F) (hpath : IsWord path)
    (hproperty : convertible env path = some (storage, access))
    (hdiscrete : access.type.isDiscrete = true)
    (hlen : (readLine path).length ≤ maxLineLength) :
    processLine env g (readLine path) =
      ([], snprintf 10 (valueNumeral access.type (access.read storage) ++ access.type.suffix) ++
        [13, 10]) := by
  have hmax : maxLineLength = 256 := rfl
  have hlength : path.length ≤ 255 := by
    rw [readLine, List.length_cons, List.length_cons] at hlen
    omega
  have hvalues : sscanf env.floatText.scan (stringFormat (ch 'r') 1) (readLine path) =
      [.string path] := by
    have hword := sscanf_word env.floatText.scan [] hpath hlength [] (by simp)
    rw [List.append_nil] at hword
    exact hword
  have hname : (g.store [Value.string path]).name = path := rfl
  have hscanned : ¬ [Value.string (F := F) path].length < 1 := Nat.lt_irrefl 1
  have houtput : processCommand env g (readLine path) =
      answer (snprintf 10 (valueNumeral access.type (access.read storage) ++
        access.type.suffix)) := by
    show readProperty env g (readLine path) = _
    rw [readProperty, hvalues, if_neg hscanned, hname, hproperty]
    dsimp only
    rw [toString_eq env.floatText (by decide) hdiscrete]
  have hshort : (snprintf 10 (valueNumeral access.type (access.read storage) ++
      access.type.suffix)).length < 64 :=
    Nat.lt_of_le_of_lt (List.length_take_le _ _) (by decide)
  rw [processLine_plain env g (readLine_isCommand hpath) hlen, houtput, answer,
    List.flatMap_singleton, respond_short hshort]

/-- The line `w path text` stores the value of the text. -/
theorem processLine_write (g : Locals F) {text : List Char8} (hpath : IsWord path)
    (htext : IsWord text) (hproperty : convertible env path = some (storage, access))
    (hlen : (writeLine path text).length ≤ maxLineLength) :
    (processLine env g (writeLine path text)).1 = (setString env storage access text).toList := by
  have hmax : maxLineLength = 256 := rfl
  have hlength : path.length ≤ 255 ∧ text.length ≤ 255 := by
    rw [writeLine, List.length_cons, List.length_cons, List.length_append,
      List.length_cons] at hlen
    omega
  have hvalues : sscanf env.floatText.scan (stringFormat (ch 'w') 2) (writeLine path text) =
      [.string path, .string text] := by
    have htail := sscanf_word env.floatText.scan [] htext hlength.2 [] (by simp)
    rw [List.append_nil] at htail
    have hword := sscanf_word env.floatText.scan [.space, .string 255] hpath hlength.1
      (32 :: text) (by simp [isSpace])
    rw [htail] at hword
    exact hword
  rw [processLine_plain env g (writeLine_isCommand hpath htext) hlen, process_w rfl,
    writeProperty_value hvalues, hproperty]

end Property

/-! ## There and back -/

/-- The text that a property is read as is the numeral of its value, and written back it
stores this value. -/
def RoundTrips (env : Env F P S) (g g' : Locals F) (path : List Char8) (storage : S)
    (access : PropertyAccess F S) : Prop :=
  ∃ text, processLine env g (readLine path) = ([], text ++ [13, 10]) ∧
    text = valueNumeral access.type (access.read storage) ∧
    (processLine env g' (writeLine path text)).1 =
      [.exchange storage access.type (access.read storage)]

/-- The response buffer holds the numeral of a value, and none of the suffix that the format
of `unsigned int` has. -/
def ResponseHolds (t : PropType) (value : t.Val F) : Prop :=
  (valueNumeral t value).length ≤ 9 ∧
    (t = .num .unsignedInt ∨ t = .enum .unsignedInt → (valueNumeral t value).length = 9)

/-- The only suffix of a format is that of `unsigned int`. -/
theorem suffix_eq_nil_iff (t : PropType) :
    t.suffix = [] ↔ ¬ (t = .num .unsignedInt ∨ t = .enum .unsignedInt) := by
  match t with
  | .num t => cases t <;> decide
  | .enum t => cases t <;> decide
  | .bool | .float | .other => decide

/-- What of a text and a suffix is the text. -/
theorem take_append_eq_iff {n : Nat} (text suffix : List Char8) :
    (text ++ suffix).take n = text ↔ text.length ≤ n ∧ (suffix = [] ∨ text.length = n) := by
  constructor
  · intro h
    have hlength := congrArg List.length h
    rw [List.length_take, List.length_append] at hlength
    refine ⟨by omega, ?_⟩
    by_cases hsuffix : suffix = []
    · exact Or.inl hsuffix
    · have := List.length_pos_iff.mpr hsuffix
      exact Or.inr (by omega)
  · rintro ⟨hle, rfl | rfl⟩
    · rw [List.append_nil, List.take_of_length_le hle]
    · exact List.take_left

theorem isWord_valueNumeral {t : PropType} (ht : t.isDiscrete = true) (value : t.Val F) :
    IsWord (valueNumeral t value) := by
  cases t with
  | num | enum | bool => exact isWord_numeral _
  | float | other => exact absurd ht (by decide)

/-- **When a property comes back** from its text: if the response buffer holds its
numeral, and nothing else. -/
theorem propertyRoundTrip_iff (env : Env F P S) (g g' : Locals F) {path : List Char8}
    (hpath : IsWord path) {storage : S} {access : PropertyAccess F S}
    (hproperty : convertible env path = some (storage, access))
    (hwritable : access.writable = true) (hdiscrete : access.type.isDiscrete = true)
    (hlen : (writeLine path (valueNumeral access.type (access.read storage))).length ≤
      maxLineLength) :
    RoundTrips env g g' path storage access ↔
      ResponseHolds access.type (access.read storage) := by
  have hshorter : (readLine path).length ≤ maxLineLength := by
    rw [writeLine, List.length_cons, List.length_cons, List.length_append] at hlen
    rw [readLine, List.length_cons, List.length_cons]
    omega
  have hread := processLine_read g hpath hproperty hdiscrete hshorter
  have hholds : ResponseHolds access.type (access.read storage) ↔
      snprintf 10 (valueNumeral access.type (access.read storage) ++ access.type.suffix) =
        valueNumeral access.type (access.read storage) := by
    rw [snprintf, take_append_eq_iff, suffix_eq_nil_iff, ResponseHolds, Decidable.imp_iff_not_or]
  rw [hholds]
  constructor
  · rintro ⟨text, htext, rfl, -⟩
    rw [hread] at htext
    exact List.append_cancel_right (Prod.mk.inj htext).2
  · intro htext
    rw [htext] at hread
    refine ⟨_, hread, rfl, ?_⟩
    have hend : ∀ c ∈ ([] : List Char8).head?, isDigit c = false := by simp
    have hvalue := fromString_numeral env.floatText hdiscrete (access.read storage) hend
    rw [List.append_nil] at hvalue
    rw [processLine_write g' hpath (isWord_valueNumeral hdiscrete _) hproperty hlen, setString,
      if_pos hwritable, hvalue]
    rfl

theorem isWord_x : IsWord (str "x") := ⟨by decide, by decide, by unfold IsCommand; decide⟩

/-- Local variables that happen to contain nothing. -/
def noLocals : Locals Unit := ⟨0, fun _ => (), [], []⟩

/-- A property with the value 5 comes back. -/
theorem propertyRoundTrip_five :
    RoundTrips (counterEnv 5) noLocals noLocals (str "x") 5 ⟨.num .uint32, true, id⟩ ↔
      ResponseHolds (F := Unit) (.num .uint32) 5#32 :=
  propertyRoundTrip_iff (counterEnv 5) noLocals noLocals isWord_x (convertible_counterEnv 5)
    rfl rfl (by decide)

/-- The largest value does not: it is read as 429496729, and this is what is stored. -/
theorem largest_cut_off :
    processLine (counterEnv 4294967295) noLocals (str "r x") =
        ([], str "429496729" ++ [13, 10]) ∧
      (processLine (counterEnv 4294967295) noLocals (str "w x 429496729")).1 =
        [.exchange 4294967295 (.num .uint32) 429496729#32] ∧
      ¬ RoundTrips (counterEnv 4294967295) noLocals noLocals (str "x") 4294967295
        ⟨.num .uint32, true, id⟩ := by
  have hproperty := convertible_counterEnv 4294967295
  have hread := processLine_read noLocals isWord_x hproperty rfl (by decide)
  have hcut : snprintf 10 (valueNumeral (F := Unit) (.num .uint32) 4294967295#32 ++
      PropType.suffix (.num .uint32)) = str "429496729" := by
    decide
  have htext : IsWord (str "429496729") := ⟨by decide, by decide, by unfold IsCommand; decide⟩
  have hwrite := processLine_write noLocals isWord_x htext hproperty (by decide)
  refine ⟨hread.trans (by rw [← hcut]; rfl), hwrite.trans rfl, ?_⟩
  rintro ⟨text, htext, rfl, -⟩
  have hequal := List.append_cancel_right (Prod.mk.inj (hread.symm.trans htext)).2
  exact absurd (hcut.symm.trans hequal) (by decide)

end WODrive.Ascii
