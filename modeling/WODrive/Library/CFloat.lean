import WODrive.Library.SinglePrecision

/-!
# Programs over C's float

A program in C is written once, for a type `F` with the operators of `float` and `CFloat`, and
used at two types: at `Float32`, which rounds and has infinities and NaN, for what has to hold
of every reading; and at a field, where arithmetic is exact, for what the program computes.

- `clamp_between`: what `std::clamp` returns in single precision unless it is given NaN;
- `clamp_exact`: what it returns in a field.
-/

namespace WODrive

universe u

/-- What C's `float` has besides its operators. -/
class CFloat (F : Type u) where
  ofNat : Nat → F
  isnan : F → Bool
  /-- `(int)x` -/
  toInt : F → Int
  /-- `std::abs` -/
  abs : F → F

section Functions

variable {F : Type u} [CFloat F] [LT F] [DecidableLT F]

/-- `std::fmax` -/
def fmax (x y : F) : F :=
  if CFloat.isnan x then y else if CFloat.isnan y then x else if x < y then y else x

/-- `std::min` -/
def stdMin (x y : F) : F := if y < x then y else x

/-- `std::clamp` -/
def stdClamp (v lo hi : F) : F := if v < lo then lo else if hi < v then hi else v

end Functions

/-! ## Single precision -/

instance : CFloat Float32 where
  ofNat := Float32.ofNat
  isnan := Float32.isNaN
  toInt := Binary32.truncate
  abs := Float32.abs

namespace Binary32

open Float.Model.UnpackedFloat

/-- The number of a constant, from what it is unpacked to. -/
theorem toRat_of_unpack {x : Float32} {m : Nat} {e : Int} {h₀ : 0 < m}
    (h : x.toModel.unpack = .finite .positive m e h₀) : toRat x = m * 2 ^ e := by
  rw [toRat, h]
  rfl

@[simp] theorem toRat_zero : toRat (CFloat.ofNat 0) = 0 := rfl

@[simp] theorem toRat_one : toRat (CFloat.ofNat 1) = 1 := by
  rw [toRat_of_unpack (m := 2 ^ 23) (e := -23) rfl]
  norm_num

/-- What is not NaN is clamped to between two numbers. -/
theorem clamp_between {v lo hi : Float32} (hlo : lo.isFinite = true) (hhi : hi.isFinite = true)
    (hle : toRat lo ≤ toRat hi) (hv : v.isNaN = false) : Between lo hi (stdClamp v lo hi) := by
  unfold stdClamp
  split_ifs with hlow hhigh
  · exact ⟨hlo, le_refl _, hle⟩
  · exact ⟨hhi, hle, le_refl _⟩
  · have hge := le_of_not_lt hv (isNaN_of_isFinite hlo) hlow
    have hle' := le_of_not_lt (isNaN_of_isFinite hhi) hv hhigh
    have hfinite := isFinite_of_le_of_le hlo hhi hge hle'
    exact ⟨hfinite, (le_iff hlo hfinite).mp hge, (le_iff hfinite hhi).mp hle'⟩

end Binary32

/-! ## Exact arithmetic -/

section Exact

variable {K : Type u} [Field K] [LinearOrder K] [FloorRing K]

/-- A field has no NaN. -/
abbrev CFloat.exact : CFloat K where
  ofNat n := n
  isnan _ := false
  toInt x := if x < 0 then ⌈x⌉ else ⌊x⌋
  abs x := |x|

attribute [local instance] CFloat.exact

@[simp] theorem ofNat_zero_exact : (CFloat.ofNat 0 : K) = 0 := Nat.cast_zero

@[simp] theorem ofNat_one_exact : (CFloat.ofNat 1 : K) = 1 := Nat.cast_one

omit [Field K] [FloorRing K] in
theorem clamp_exact {v lo hi : K} (h : lo ≤ hi) : stdClamp v lo hi = max lo (min hi v) := by
  unfold stdClamp
  split_ifs with hlow hhigh
  · rw [min_eq_right (hlow.le.trans h), max_eq_left hlow.le]
  · rw [min_eq_left hhigh.le, max_eq_right h]
  · rw [min_eq_right (not_lt.mp hhigh), max_eq_right (not_lt.mp hlow)]

end Exact

end WODrive
