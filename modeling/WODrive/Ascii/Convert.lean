import WODrive.Library.Scan

/-!
# Values as text (fibre/cpp/include/fibre/protocol.hpp, introspection.hpp)

`to_string` and `from_string` of the types that properties have, each with its own
formats for `snprintf` and `sscanf`. On the target `int` and `long` have 32 bits, and are
different types: `int32_t` and `uint32_t` are long, and an enumeration may be of type
`unsigned int`, whose formats have a letter behind the conversion.

The formats are those of ISO C. The firmware is linked with the nano variant of newlib
(rtconfig.py), which need not have those for 8 and 64 bits (`hh`, `ll`).

`FloatText` is how a floating-point number is read and written with `%f`.

- `fromString_numeral`: the numeral of a value is converted back to the value;
- `toString_eq`: the text of a value is its numeral, as far as the buffer holds it.
-/

namespace WODrive.Ascii

open Scan

/-- The integral types with format traits. -/
inductive NumType where
  | int8 | uint8 | int16 | uint16 | int32 | uint32 | int64 | uint64
  /-- `unsigned int` -/
  | unsignedInt
deriving DecidableEq, Repr

namespace NumType

def bits : NumType → Nat
  | int8 | uint8 => 8
  | int16 | uint16 => 16
  | int32 | uint32 | unsignedInt => 32
  | int64 | uint64 => 64

def signed : NumType → Bool
  | int8 | int16 | int32 | int64 => true
  | uint8 | uint16 | uint32 | uint64 | unsignedInt => false

/-- The number that a value stands for. -/
def toInt {t : NumType} (value : BitVec t.bits) : Int :=
  if t.signed then value.toInt else value.toNat

end NumType

/-- The length modifier of a conversion. -/
inductive Size where
  | hh | h | none | l | ll
deriving DecidableEq, Repr

/-- The bits of the type that a conversion is for. -/
def Size.bits : Size → Nat
  | hh => 8
  | h => 16
  | none | l => 32
  | ll => 64

/-- A format of one integer conversion, `d` or `u`, and what follows it. -/
structure Format where
  size : Size
  signed : Bool
  suffix : List Char8 := []
deriving DecidableEq, Repr

namespace Format

/-- What `printf` makes of an argument. -/
def print (fmt : Format) (x : Int) : List Char8 :=
  let value := BitVec.ofInt fmt.size.bits x
  numeral (if fmt.signed then value.toInt else value.toNat) ++ fmt.suffix

/-- What `sscanf` stores. It reads a `long`, or a `long long`, and stores a part of it. -/
def scan (fmt : Format) (text : List Char8) : Option (BitVec fmt.size.bits) :=
  let width := if fmt.size = .ll then 64 else 32
  match scanNumeral text with
  | .none => .none
  | some (x, _) =>
    some ((if fmt.signed then x.strtol width else x.strtoul width).setWidth fmt.size.bits)

end Format

/-- `format_traits_t` -/
structure FormatTraits where
  fmt : Format
  fmtp : Format

/-- The specializations of `format_traits_t`. -/
def formatTraits : NumType → FormatTraits
  | .int64 => ⟨⟨.ll, true, []⟩, ⟨.ll, true, []⟩⟩
  | .uint64 => ⟨⟨.ll, false, []⟩, ⟨.ll, false, []⟩⟩
  | .int32 => ⟨⟨.l, true, []⟩, ⟨.l, true, []⟩⟩
  | .uint32 => ⟨⟨.l, false, []⟩, ⟨.l, false, []⟩⟩
  -- "%ud"
  | .unsignedInt => ⟨⟨.none, false, [100]⟩, ⟨.none, false, [100]⟩⟩
  | .int16 => ⟨⟨.h, true, []⟩, ⟨.h, true, []⟩⟩
  | .uint16 => ⟨⟨.h, false, []⟩, ⟨.h, false, []⟩⟩
  | .int8 => ⟨⟨.hh, true, []⟩, ⟨.none, true, []⟩⟩
  | .uint8 => ⟨⟨.hh, false, []⟩, ⟨.none, false, []⟩⟩

/-- The types of properties. -/
inductive PropType where
  | num (t : NumType)
  | bool
  | float
  /-- An enumeration with its underlying type. -/
  | enum (underlying : NumType)
  /-- A type without conversions. -/
  | other
deriving DecidableEq, Repr

variable {F : Type}

/-- The values of a type. -/
abbrev PropType.Val (F : Type) : PropType → Type
  | num t | enum t => BitVec t.bits
  | bool => Bool
  | float => F
  | other => Unit

/-- `%f` -/
structure FloatText (F : Type) where
  scan : List Char8 → Option (F × List Char8)
  print : F → List Char8

/-- `to_string` to a buffer of this length, after the conversion to the underlying type. -/
def toString (io : FloatText F) (length : Nat) :
    (t : PropType) → t.Val F → Option (List Char8)
  | .num t, value => some (snprintf length ((formatTraits t).fmtp.print (t.toInt value)))
  | .enum t, value => some (snprintf length ((formatTraits t).fmtp.print (t.toInt value)))
  | .bool, value => some [if value then 49 else 48]
  | .float, value => some (snprintf length (io.print value))
  | .other, _ => none

/-- `from_string`, and the conversion from the underlying type. -/
def fromString (io : FloatText F) (text : List Char8) : (t : PropType) → Option (t.Val F)
  | .num t => ((formatTraits t).fmt.scan text).map (BitVec.setWidth t.bits)
  | .enum t => ((formatTraits t).fmt.scan text).map (BitVec.setWidth t.bits)
  | .bool => ((⟨.none, true, []⟩ : Format).scan text).map (· != 0)
  | .float => (io.scan (skipSpace text)).map (·.1)
  | .other => none

/-! ## Numerals of values -/

/-- The decimal numeral of a value of an integral type, a `bool` or an enumeration. -/
def valueNumeral : (t : PropType) → t.Val F → List Char8
  | .num t, value => numeral (t.toInt value)
  | .enum t, value => numeral (t.toInt value)
  | .bool, value => numeral (if value then 1 else 0)
  | .float, _ => []
  | .other, _ => []

/-- The values of a type as a range of numbers. -/
theorem toInt_range {t : NumType} (value : BitVec t.bits) :
    if t.signed then -2 ^ (t.bits - 1) ≤ t.toInt value ∧ t.toInt value < 2 ^ (t.bits - 1)
    else 0 ≤ t.toInt value ∧ t.toInt value < 2 ^ t.bits := by
  unfold NumType.toInt
  split
  next => exact ⟨value.le_toInt, value.toInt_lt⟩
  next => exact ⟨Int.natCast_nonneg _, by exact_mod_cast value.isLt⟩

/-- A value is the number it stands for. -/
theorem ofInt_toInt {t : NumType} (value : BitVec t.bits) :
    BitVec.ofInt t.bits (t.toInt value) = value := by
  unfold NumType.toInt
  split
  next => exact BitVec.ofInt_toInt
  next => rw [BitVec.ofInt_natCast, BitVec.ofNat_toNat, BitVec.setWidth_eq]

/-- A format of the type's own sign that can hold its values prints their numerals. -/
theorem print_of_range {fmt : Format} {t : NumType} (hsigned : fmt.signed = t.signed)
    (hbits : t.bits ≤ fmt.size.bits) (value : BitVec t.bits) :
    fmt.print (t.toInt value) = numeral (t.toInt value) ++ fmt.suffix := by
  have hrange := toInt_range value
  unfold Format.print
  simp only [hsigned]
  cases hs : t.signed with
  | true =>
    rw [hs, if_pos rfl] at hrange
    have hpow : (2 : Int) ^ (t.bits - 1) ≤ 2 ^ (fmt.size.bits - 1) :=
      pow_le_pow_right₀ (by decide) (by omega)
    have hpos : 0 < fmt.size.bits := by cases fmt.size <;> decide
    rw [if_pos rfl, BitVec.toInt_ofInt_eq_self hpos (by omega) (by omega)]
  | false =>
    rw [hs, if_neg (by decide)] at hrange
    have hpow : (2 : Int) ^ t.bits ≤ 2 ^ fmt.size.bits :=
      pow_le_pow_right₀ (by decide) hbits
    have hmod : ((BitVec.ofInt fmt.size.bits (t.toInt value)).toNat : Int) = t.toInt value := by
      rw [BitVec.toNat_ofInt, Int.toNat_of_nonneg (Int.emod_nonneg _ (by positivity))]
      refine Int.emod_eq_of_lt hrange.1 ?_
      push_cast
      omega
    rw [if_neg (by decide), hmod]

/-- A format of the type's own sign scans the numerals of its values. -/
theorem scan_numeral {fmt : Format} {t : NumType} (hsigned : fmt.signed = t.signed)
    (hbits : t.bits ≤ fmt.size.bits) (value : BitVec t.bits) {rest : List Char8}
    (hrest : ∀ c ∈ rest.head?, isDigit c = false) :
    (fmt.scan (numeral (t.toInt value) ++ rest)).map (BitVec.setWidth t.bits) = some value := by
  have hrange := toInt_range value
  have hwidth : fmt.size.bits ≤ (if fmt.size = .ll then 64 else 32) := by
    cases fmt.size <;> decide
  unfold Format.scan
  simp only [scanNumeral_numeral _ hrest, hsigned, Option.map_some]
  generalize (if fmt.size = .ll then 64 else 32) = width at hwidth
  have hconvert : (if t.signed = true then (numeralOf (t.toInt value)).strtol width
      else (numeralOf (t.toInt value)).strtoul width) = BitVec.ofInt width (t.toInt value) := by
    cases hs : t.signed with
    | true =>
      rw [hs, if_pos rfl] at hrange
      have hpow : (2 : Int) ^ (t.bits - 1) ≤ 2 ^ (width - 1) :=
        pow_le_pow_right₀ (by decide) (by omega)
      rw [if_pos rfl, strtol_numeralOf (by omega) (by omega)]
    | false =>
      rw [hs, if_neg (by decide)] at hrange
      have hpow : (2 : Int) ^ t.bits ≤ 2 ^ width := pow_le_pow_right₀ (by decide) (by omega)
      rw [if_neg (by decide), strtoul_numeralOf hrange.1 (by omega)]
  rw [hconvert, setWidth_ofInt hwidth, setWidth_ofInt hbits, ofInt_toInt]

/-- The formats are of the sign of their types, and can hold their values. -/
theorem formatTraits_fit (t : NumType) :
    ((formatTraits t).fmt.signed = t.signed ∧ t.bits ≤ (formatTraits t).fmt.size.bits) ∧
      (formatTraits t).fmtp.signed = t.signed ∧ t.bits ≤ (formatTraits t).fmtp.size.bits := by
  cases t <;> decide

/-- The types of numbers that are not floating-point. -/
def PropType.isDiscrete : PropType → Bool
  | num _ | bool | enum _ => true
  | float | other => false

/-- What follows the conversion in the text of a value. -/
def PropType.suffix : PropType → List Char8
  | num t | enum t => (formatTraits t).fmtp.suffix
  | bool | float | other => []

/-- **The numeral of a value is converted back**, whatever follows it. -/
theorem fromString_numeral (io : FloatText F) {t : PropType} (ht : t.isDiscrete = true)
    (value : t.Val F) {rest : List Char8} (hrest : ∀ c ∈ rest.head?, isDigit c = false) :
    fromString io (valueNumeral t value ++ rest) t = some value := by
  cases t with
  | num t =>
    obtain ⟨⟨hsigned, hbits⟩, -⟩ := formatTraits_fit t
    exact scan_numeral hsigned hbits value hrest
  | enum t =>
    obtain ⟨⟨hsigned, hbits⟩, -⟩ := formatTraits_fit t
    exact scan_numeral hsigned hbits value hrest
  | bool =>
    simp only [fromString, Format.scan, valueNumeral, scanNumeral_numeral _ hrest]
    cases value <;> rfl
  | float => exact absurd ht (by decide)
  | other => exact absurd ht (by decide)

/-- **The text of a value** is its numeral and what the format has behind it, as far as the
buffer holds them. -/
theorem toString_eq (io : FloatText F) {length : Nat} (hlength : 2 ≤ length) {t : PropType}
    (ht : t.isDiscrete = true) (value : t.Val F) :
    toString io length t value = some (snprintf length (valueNumeral t value ++ t.suffix)) := by
  cases t with
  | num t =>
    obtain ⟨-, hsigned, hbits⟩ := formatTraits_fit t
    exact congrArg (fun text => some (snprintf length text)) (print_of_range hsigned hbits value)
  | enum t =>
    obtain ⟨-, hsigned, hbits⟩ := formatTraits_fit t
    exact congrArg (fun text => some (snprintf length text)) (print_of_range hsigned hbits value)
  | bool =>
    have htake : ∀ c : Char8, snprintf length [c] = [c] := fun c =>
      List.take_of_length_le (by rw [List.length_singleton]; omega)
    cases value
    · exact congrArg some (htake 48).symm
    · have hone : valueNumeral .bool (F := F) true = [49] := by
        simp [valueNumeral, numeral, decimal]
      rw [hone]
      exact congrArg some (htake 49).symm
  | float => exact absurd ht (by decide)
  | other => exact absurd ht (by decide)

end WODrive.Ascii
