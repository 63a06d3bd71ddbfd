import Mathlib

/-!
# Single precision numbers

`Float32` is defined by a logical model: a pattern of 32 bits is unpacked into a sign, a
mantissa and an exponent, the operation rounds to nearest, and the result is packed again.
What unpacking gives is in canonical form (`canonical_unpack`).

- `sub_zero`, `div_one`: subtracting 0 and dividing by 1 are exact, for every number,
  infinity or NaN;
- `truncate`: the integer that is left without the fraction.
-/

namespace WODrive.Binary32

open Float.Model (Format UnpackedFloat totalExponent)
open Float.Model.UnpackedFloat

/-! ## Canonical form -/

/-- A mantissa and an exponent as rounding leaves them: with all bits, or subnormal. -/
def Canonical : UnpackedFloat → Prop
  | .finite _ m e _ => Format.binary32.targetExponent (totalExponent m e) = e
  | _ => True

theorem canonical_iff {m : Nat} {e : Int} :
    Format.binary32.targetExponent (totalExponent m e) = e ↔
      m.log2 = 23 ∧ -149 ≤ e ∨ m.log2 ≤ 23 ∧ e = -149 := by
  simp only [Format.targetExponent, Format.minExponent, Format.mantissaBits, totalExponent]
  omega

/-- A mantissa with its implicit bit has all bits. -/
theorem log2_mantissa (v : BitVec 23) : (1#1 ++ v).toNat.log2 = 23 := by
  have hmantissa : (1#1 ++ v).toNat = 2 ^ 23 + v.toNat := by
    rw [BitVec.toNat_append, ← Nat.shiftLeft_add_eq_or_of_lt v.isLt]
    rfl
  have hlt : v.toNat < 2 ^ 23 := v.isLt
  rw [hmantissa]
  exact (Nat.log2_eq_iff (by omega)).mpr ⟨by omega, by omega⟩

theorem canonical_unpack_bits (b : BitVec 32) : Canonical (unpack .binary32 b) := by
  fun_cases unpack with
  | case1 => trivial
  | case2 => trivial
  | case3 => trivial
  | case4 mvec evec e svec s _ hzero hne =>
    have hlt : mvec.toNat < 2 ^ 23 := mvec.isLt
    have hne' : mvec.toNat ≠ 0 := by
      simpa [← BitVec.toNat_inj] using hne
    have hlog := (Nat.log2_lt hne').mpr hlt
    refine canonical_iff.mpr (.inr ⟨by omega, ?_⟩)
    show (evec.toNat : Int) - (127 + 23) + 1 = -149
    rw [hzero]
    rfl
  | case5 mvec evec e svec s hinf hzero =>
    have hpos : 0 < evec.toNat := Nat.pos_of_ne_zero fun h => hzero (BitVec.eq_of_toNat_eq h)
    refine canonical_iff.mpr (.inl ⟨log2_mantissa mvec, ?_⟩)
    show (-149 : Int) ≤ _ - (127 + 23)
    omega

theorem canonical_unpack (x : Float32.Model) : Canonical x.unpack :=
  canonical_unpack_bits _

/-- Every number is packed from what it is unpacked to. -/
theorem pack_unpack_model (x : Float32.Model) : Float32.Model.pack x.unpack = x := by
  obtain ⟨⟨b⟩, hvalid⟩ := x
  simp only [Float32.Model.pack, Float32.Model.unpack, pack_unpack_of_valid hvalid]

/-! ## Exact operations -/

theorem sub_zero (x : Float32) : x - 0 = x := by
  have hzero : (0 : Float32).toModel.unpack = .zero .positive := by rfl
  show Float32.ofModel (.pack (sub .binary32 x.toModel.unpack (0 : Float32).toModel.unpack)) = x
  have hsub : ∀ u : UnpackedFloat, sub .binary32 u (.zero .positive) = u := by
    intro u
    cases u with
    | zero s => cases s <;> rfl
    | _ => rfl
  rw [hzero, hsub, pack_unpack_model]

/-- Shifting back what was shifted up loses no bits. -/
theorem shiftRight_shiftLeft (m k : Nat) :
    (⟨m <<< k, false, false⟩ : ExtendedMantissa) >>> k = ⟨m, false, false⟩ := by
  show Nat.repeat ExtendedMantissa.shiftRightOne k _ = _
  induction k generalizing m with
  | zero => rfl
  | succ k ih =>
    have hdouble : ExtendedMantissa.shiftRightOne ⟨2 * m, false, false⟩ = ⟨m, false, false⟩ := by
      simp [ExtendedMantissa.shiftRightOne]
    rw [Nat.repeat, Nat.shiftLeft_succ_inside, ih, hdouble]

theorem totalExponent_shiftLeft {m : Nat} (hm : 0 < m) (e : Int) (k : Nat) :
    totalExponent (m <<< k) (e - k) = totalExponent m e := by
  have hlog : (m <<< k).log2 = m.log2 + k := by
    induction k with
    | zero => rfl
    | succ k ih =>
      rw [Nat.shiftLeft_succ, Nat.log2_two_mul (Nat.pos_iff_ne_zero.mp ?_), ih]
      · rfl
      · rw [Nat.shiftLeft_eq]
        positivity
  unfold totalExponent
  rw [hlog]
  omega

/-- Shifting a canonical number with zeros behind its mantissa to where it belongs. -/
theorem shiftToTargetExponent_exact {m : Nat} {e : Int} (hm : 0 < m)
    (h : Format.binary32.targetExponent (totalExponent m e) = e) (k : Nat) :
    shiftToTargetExponent .binary32 (m <<< k) (e - k) .exact = (⟨m, false, false⟩, e) := by
  have hk : (e - (e - k)).toNat = k := by omega
  simp only [shiftToTargetExponent, shiftToExponent, totalExponent_shiftLeft hm, h, hk,
    ExtendedMantissa.ofMantissaAndAccuracy, shiftRight_shiftLeft, Prod.mk.injEq, true_and]
  omega

/-- Rounding a canonical number with zeros behind its mantissa. -/
theorem roundWithAccuracy_exact (s : Sign) {m : Nat} {e : Int} (hm : 0 < m)
    (h : Format.binary32.targetExponent (totalExponent m e) = e) (k : Nat) :
    roundWithAccuracy .binary32 s (m <<< k) (e - k) .exact = .finite s m e hm := by
  have hagain := shiftToTargetExponent_exact hm h 0
  simp only [Nat.shiftLeft_zero, Nat.cast_zero, Int.sub_zero] at hagain
  simp only [roundWithAccuracy, shiftToTargetExponent_exact hm h k,
    ExtendedMantissa.roundedMantissa, ExtendedMantissa.accuracy, Accuracy.roundToNearestEven,
    hagain, dif_neg (Nat.pos_iff_ne_zero.mp hm)]

/-- The quotient by 1 has zeros behind the mantissa, as far as the exponent allows. -/
theorem divCore_one {m : Nat} {e : Int}
    (h : Format.binary32.targetExponent (totalExponent m e) = e) :
    ∃ k : Nat, divCore .binary32 m e (2 ^ 23) (-23) = (m <<< k, e - k, .exact) := by
  have hcases := canonical_iff.mp h
  have hlog : (2 ^ 23).log2 = 23 := by decide
  let target : Int := min (e - (-23)) (Format.binary32.targetExponent
    (totalExponent m e - totalExponent (2 ^ 23) (-23)))
  have htarget : target ≤ e ∧ -149 ≤ target := by
    simp only [target, Format.targetExponent, Format.minExponent, Format.mantissaBits,
      totalExponent, hlog]
    omega
  have hk : e - target = ((e - target).toNat : Int) := by omega
  have hshift : (e - (-23) - target).toNat = (e - target).toNat + 23 := by omega
  refine ⟨(e - target).toNat, ?_⟩
  show (m <<< (e - (-23) - target).toNat / 2 ^ 23, target,
    accuracyOfFraction (m <<< (e - (-23) - target).toNat % 2 ^ 23) (2 ^ 23)) = _
  rw [hshift, Nat.shiftLeft_add, Nat.shiftLeft_eq _ 23, Nat.mul_div_cancel _ (by decide),
    Nat.mul_mod_left, ← hk]
  simp only [accuracyOfFraction, if_pos, Prod.mk.injEq, true_and, and_true]
  omega

theorem div_one (x : Float32) : x / 1 = x := by
  have hone : (1 : Float32).toModel.unpack = .finite .positive (2 ^ 23) (-23) (by decide) := by rfl
  have hdiv : ∀ u : UnpackedFloat, Canonical u →
      div .binary32 u (.finite .positive (2 ^ 23) (-23) (by decide)) = u := by
    intro u hu
    cases u with
    | notANumber => rfl
    | infinity s => cases s <;> rfl
    | zero s => cases s <;> rfl
    | finite s m e hm =>
      obtain ⟨k, hcore⟩ := divCore_one hu
      have hsign : s / Sign.positive = s := by cases s <;> rfl
      simp only [div, hcore, hsign]
      exact roundWithAccuracy_exact s hm hu k
  show Float32.ofModel (.pack (div .binary32 x.toModel.unpack (1 : Float32).toModel.unpack)) = x
  rw [hone, hdiv _ (canonical_unpack _), pack_unpack_model]

/-! ## Integers -/

/-- What is left of a number without its fraction (of an infinity or NaN, nothing). -/
def truncate (x : Float32) : Int := x.toModel.unpack.toInt 0 0

/-- An integer that single precision holds: it survives there and back. -/
def Represents (n : Int) : Prop := truncate (Float32.ofInt n) = n

instance (n : Int) : Decidable (Represents n) := inferInstanceAs (Decidable (_ = _))

example : Represents (-16777216) ∧ ¬ Represents 16777217 := by decide

end WODrive.Binary32
