import Mathlib.Data.BitVec
import Mathlib.Data.List.TakeWhile
import Mathlib.Data.Nat.Digits.Lemmas

/-!
# Formatted text

What the C library makes of numbers and text, on lists of characters: `sscanf` for formats
of white space, literal characters and the conversions `%u`, `%f` and `%Ns`, the conversion
of integers of any size, and their decimal numerals as `printf` writes them. How a
floating-point number is read is a parameter.

A string is given up to its terminating zero. `sscanf` returns the values that it stores,
so that the number of these is its result. (The end of the text before the first
conversion counts as none.)

- `scanNumeral_numeral`: a numeral is scanned to its number;
- `strtol_numeralOf`, `strtoul_numeralOf`: a number that the type can represent is converted
  to it.
-/

namespace WODrive.Scan

/-- A character. -/
abbrev Char8 := BitVec 8

/-- `isspace` -/
def isSpace (c : Char8) : Bool := c == 32 || decide (9 ≤ c.toNat ∧ c.toNat ≤ 13)

/-- `isdigit` -/
def isDigit (c : Char8) : Bool := decide (48 ≤ c.toNat ∧ c.toNat ≤ 57)

def skipSpace (text : List Char8) : List Char8 := text.dropWhile isSpace

/-! ## Integers -/

/-- An integer as it is written: a sign and a number. -/
structure Numeral where
  negative : Bool
  magnitude : Nat
deriving DecidableEq, Repr

/-- An integer as its sign and number. -/
def numeralOf (x : Int) : Numeral := ⟨decide (x < 0), x.natAbs⟩

/-- The number with these digits. -/
def digitsValue (digits : List Char8) : Nat :=
  Nat.ofDigits 10 (digits.reverse.map fun c => c.toNat - 48)

/-- An optional sign. -/
def scanSign : List Char8 → Bool × List Char8
  | c :: text => if c = 45 then (true, text) else if c = 43 then (false, text)
    else (false, c :: text)
  | [] => (false, [])

/-- The text of an integer conversion, and what follows it. -/
def scanNumeral (text : List Char8) : Option (Numeral × List Char8) :=
  let (negative, text) := scanSign (skipSpace text)
  let digits := text.takeWhile isDigit
  if digits = [] then none
  else some (⟨negative, digitsValue digits⟩, text.dropWhile isDigit)

/-- `strtoul`: numbers that are too large become the largest, and a sign negates. -/
def Numeral.strtoul (w : Nat) (x : Numeral) : BitVec w :=
  if 2 ^ w ≤ x.magnitude then BitVec.allOnes w
  else if x.negative then -BitVec.ofNat w x.magnitude
  else BitVec.ofNat w x.magnitude

/-- `strtol`: numbers that are too large become the largest and the smallest. -/
def Numeral.strtol (w : Nat) (x : Numeral) : BitVec w :=
  if x.negative then BitVec.ofInt w (max (-2 ^ (w - 1)) (-x.magnitude))
  else BitVec.ofInt w (min (2 ^ (w - 1) - 1) x.magnitude)

/-! ## Formats -/

/-- A directive of a format. -/
inductive Directive where
  | space
  | literal (c : Char8)
  /-- `%u` -/
  | unsigned
  /-- `%f` -/
  | float
  /-- `%Ns` -/
  | string (width : Nat)
deriving DecidableEq, Repr

/-- The directive stores a value. -/
def Directive.converts : Directive → Bool
  | space | literal _ => false
  | unsigned | float | string _ => true

/-- A value that a conversion has stored. -/
inductive Value (F : Type) where
  | unsigned (value : BitVec 32)
  | float (value : F)
  | string (value : List Char8)
deriving DecidableEq, Repr

variable {F : Type}

def Value.unsigned? : Value F → Option (BitVec 32)
  | unsigned value => some value
  | _ => none

def Value.float? : Value F → Option F
  | float value => some value
  | _ => none

def Value.string? : Value F → Option (List Char8)
  | string value => some value
  | _ => none

/-- `sscanf`: the values stored before a directive fails. -/
def sscanf (scanFloat : List Char8 → Option (F × List Char8)) :
    List Directive → List Char8 → List (Value F)
  | [], _ => []
  | .space :: format, text => sscanf scanFloat format (skipSpace text)
  | .literal c :: format, text =>
    match text with
    | [] => []
    | d :: text => if c = d then sscanf scanFloat format text else []
  | .unsigned :: format, text =>
    match scanNumeral text with
    | none => []
    | some (x, text) => .unsigned (x.strtoul 32) :: sscanf scanFloat format text
  | .float :: format, text =>
    match scanFloat (skipSpace text) with
    | none => []
    | some (x, text) => .float x :: sscanf scanFloat format text
  | .string width :: format, text =>
    let word := ((skipSpace text).takeWhile fun c => !isSpace c).take width
    if word = [] then []
    else .string word :: sscanf scanFloat format ((skipSpace text).drop word.length)

/-! ## Numerals -/

/-- `%u`: the digits of a number. -/
def decimal (n : Nat) : List Char8 :=
  if n = 0 then [48] else ((Nat.digits 10 n).map fun d => BitVec.ofNat 8 (48 + d)).reverse

/-- `%d`: a sign and the digits of an integer. -/
def numeral (x : Int) : List Char8 :=
  if x < 0 then 45 :: decimal x.natAbs else decimal x.natAbs

/-- `snprintf`: what fits before the terminating zero. -/
def snprintf (size : Nat) (text : List Char8) : List Char8 := text.take (size - 1)

/-- A digit, and the character of a digit. -/
theorem isDigit_ofNat {d : Nat} (hd : d < 10) :
    isDigit (BitVec.ofNat 8 (48 + d)) = true ∧ (BitVec.ofNat 8 (48 + d)).toNat - 48 = d := by
  rw [isDigit, BitVec.toNat_ofNat, Nat.mod_eq_of_lt (by omega)]
  exact ⟨decide_eq_true (by omega), by omega⟩

theorem decimal_isDigit (n : Nat) : ∀ c ∈ decimal n, isDigit c = true := by
  intro c hc
  unfold decimal at hc
  split at hc
  next => rw [List.mem_singleton.mp hc]; decide
  next =>
    obtain ⟨d, hd, rfl⟩ := List.mem_map.mp (List.mem_reverse.mp hc)
    exact (isDigit_ofNat (Nat.digits_lt_base (by decide) hd)).1

theorem decimal_ne_nil (n : Nat) : decimal n ≠ [] := by
  unfold decimal
  split
  next => exact List.cons_ne_nil _ _
  next h => simpa [Nat.digits_ne_nil_iff_ne_zero] using h

/-- The digits of a number have its value. -/
theorem digitsValue_decimal (n : Nat) : digitsValue (decimal n) = n := by
  unfold decimal
  split
  next h =>
    rw [h]
    rfl
  next =>
    have hdigits : ((Nat.digits 10 n).map fun d => BitVec.ofNat 8 (48 + d)).map
        (fun c : Char8 => c.toNat - 48) = Nat.digits 10 n := by
      rw [List.map_map]
      conv_rhs => rw [← List.map_id (Nat.digits 10 n)]
      exact List.map_congr_left fun d hd =>
        (isDigit_ofNat (Nat.digits_lt_base (by decide) hd)).2
    rw [digitsValue, List.reverse_reverse, hdigits, Nat.ofDigits_digits]

/-- A digit is neither a space nor a sign, nor is a sign a space. -/
theorem digit_cases {c : Char8} (hc : isDigit c = true) :
    isSpace c = false ∧ c ≠ 45 ∧ c ≠ 43 := by
  have hrange : 48 ≤ c.toNat ∧ c.toNat ≤ 57 := of_decide_eq_true hc
  refine ⟨?_, ?_, ?_⟩
  · have hne : c ≠ 32 := by
      rintro rfl
      exact absurd hrange (by decide)
    simp only [isSpace, Bool.or_eq_false_iff, beq_eq_false_iff_ne]
    exact ⟨hne, decide_eq_false (by omega)⟩
  · rintro rfl
    exact absurd hrange (by decide)
  · rintro rfl
    exact absurd hrange (by decide)

theorem numeral_cons (x : Int) : ∃ c text, numeral x = c :: text ∧ isSpace c = false := by
  obtain ⟨c, text, hcons⟩ := List.exists_cons_of_ne_nil (decimal_ne_nil x.natAbs)
  unfold numeral
  split
  next => exact ⟨45, decimal x.natAbs, rfl, by decide⟩
  next =>
    refine ⟨c, text, hcons, (digit_cases (decimal_isDigit x.natAbs c ?_)).1⟩
    rw [hcons]
    exact List.mem_cons_self

/-- The digits of a number are scanned as far as they go. -/
theorem takeWhile_decimal (n : Nat) {rest : List Char8}
    (hrest : ∀ c ∈ rest.head?, isDigit c = false) :
    (decimal n ++ rest).takeWhile isDigit = decimal n ∧
      (decimal n ++ rest).dropWhile isDigit = rest := by
  have htake : rest.takeWhile isDigit = [] ∧ rest.dropWhile isDigit = rest := by
    cases rest with
    | nil => exact ⟨rfl, rfl⟩
    | cons c rest =>
      have hc := hrest c rfl
      exact ⟨List.takeWhile_cons_of_neg (by simp [hc]), List.dropWhile_cons_of_neg (by simp [hc])⟩
  rw [List.takeWhile_append_of_pos (decimal_isDigit n),
    List.dropWhile_append_of_pos (decimal_isDigit n), htake.1, htake.2, List.append_nil]
  exact ⟨rfl, rfl⟩

/-- **A numeral is scanned** to its number, and what follows is left. -/
theorem scanNumeral_numeral (x : Int) {rest : List Char8}
    (hrest : ∀ c ∈ rest.head?, isDigit c = false) :
    scanNumeral (numeral x ++ rest) = some (numeralOf x, rest) := by
  obtain ⟨c, text, hcons⟩ := List.exists_cons_of_ne_nil (decimal_ne_nil x.natAbs)
  have hc := digit_cases (decimal_isDigit x.natAbs c (by rw [hcons]; exact List.mem_cons_self))
  obtain ⟨htake, hdrop⟩ := takeWhile_decimal x.natAbs hrest
  have hsign : scanSign (skipSpace (numeral x ++ rest)) =
      (decide (x < 0), decimal x.natAbs ++ rest) := by
    unfold numeral
    by_cases hx : x < 0
    · rw [if_pos hx, List.cons_append, skipSpace, List.dropWhile_cons_of_neg (by decide),
        scanSign, if_pos rfl, decide_eq_true hx]
    · rw [if_neg hx, hcons, List.cons_append, skipSpace,
        List.dropWhile_cons_of_neg (by simp [hc.1]), scanSign, if_neg hc.2.1, if_neg hc.2.2,
        decide_eq_false hx]
  unfold scanNumeral
  rw [hsign]
  simp only [htake, hdrop]
  rw [if_neg (decimal_ne_nil _), digitsValue_decimal]
  rfl

/-- A number that the type can represent. -/
theorem strtol_numeralOf {w : Nat} {x : Int} (hle : -2 ^ (w - 1) ≤ x)
    (hlt : x < 2 ^ (w - 1)) : (numeralOf x).strtol w = BitVec.ofInt w x := by
  unfold Numeral.strtol numeralOf
  simp only [decide_eq_true_eq]
  by_cases hneg : x < 0
  · rw [if_pos hneg, max_eq_right (by omega), show -(x.natAbs : Int) = x by omega]
  · rw [if_neg hneg, min_eq_right (by omega), show (x.natAbs : Int) = x by omega]

/-- The same of an unsigned type. -/
theorem strtoul_numeralOf {w : Nat} {x : Int} (hle : 0 ≤ x) (hlt : x < 2 ^ w) :
    (numeralOf x).strtoul w = BitVec.ofInt w x := by
  obtain ⟨n, rfl⟩ := Int.eq_ofNat_of_zero_le hle
  have hn : n < 2 ^ w := by exact_mod_cast hlt
  unfold Numeral.strtoul numeralOf
  rw [Int.natAbs_natCast]
  dsimp only
  rw [if_neg (by omega)]
  simp

/-- A conversion to a smaller type. -/
theorem setWidth_ofInt {v w : Nat} (hle : v ≤ w) (x : Int) :
    (BitVec.ofInt w x).setWidth v = BitVec.ofInt v x := by
  have hdvd : ((2 ^ v : Nat) : Int) ∣ ((2 ^ w : Nat) : Int) :=
    Int.natCast_dvd_natCast.mpr (Nat.pow_dvd_pow 2 hle)
  have hw : 0 ≤ x % ((2 ^ w : Nat) : Int) :=
    Int.emod_nonneg _ (Int.natCast_ne_zero.mpr (Nat.two_pow_pos w).ne')
  have hv : 0 ≤ x % ((2 ^ v : Nat) : Int) :=
    Int.emod_nonneg _ (Int.natCast_ne_zero.mpr (Nat.two_pow_pos v).ne')
  apply BitVec.eq_of_toNat_eq
  apply Int.natCast_inj.mp
  rw [BitVec.toNat_setWidth, BitVec.toNat_ofInt, BitVec.toNat_ofInt, Int.natCast_emod,
    Int.toNat_of_nonneg hw, Int.toNat_of_nonneg hv, Int.emod_emod_of_dvd x hdvd]

end WODrive.Scan
