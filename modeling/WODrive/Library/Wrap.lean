import Mathlib.Data.BitVec
import Mathlib.Tactic.Ring

/-!
# Counters in registers

A register of `w` bits holds an integer count modulo `2 ^ w`: `BitVec.ofInt w`, which
commutes with sums, differences and narrower registers.

- `toInt_ofInt_of_fits`: a difference of counts that fits is read back exactly, even
  where the counts themselves have wrapped around;
- `signExtend_ofInt`: the sign extension of a narrow difference is the difference that
  is nearest to zero among those of the same residue;
- `ofInt_eq_ofInt_iff`: registers agree when the counts are congruent.
-/

namespace WODrive.Wrap

variable {v w : Nat} (x y : Int)

theorem eq_zero_iff_toNat (a : BitVec w) : a = 0 ↔ a.toNat = 0 := by
  rw [← BitVec.toNat_inj]
  exact Iff.of_eq (congrArg _ BitVec.toNat_zero)

theorem ofInt_sub : BitVec.ofInt w (x - y) = BitVec.ofInt w x - BitVec.ofInt w y := by
  rw [Int.sub_eq_add_neg, BitVec.ofInt_add, BitVec.ofInt_neg, BitVec.sub_eq_add_neg]

/-- Two counts are in the same register exactly when they are congruent. -/
theorem ofInt_eq_ofInt_iff :
    BitVec.ofInt w x = BitVec.ofInt w y ↔ ((2 ^ w : Nat) : Int) ∣ x - y := by
  rw [← BitVec.toInt_inj, BitVec.toInt_ofInt, BitVec.toInt_ofInt]
  constructor
  · intro h
    have h' : x % ((2 ^ w : Nat) : Int) = y % ((2 ^ w : Nat) : Int) := by
      rw [← Int.bmod_emod, h, Int.bmod_emod]
    exact Int.dvd_of_emod_eq_zero (Int.emod_eq_emod_iff_emod_sub_eq_zero.mp h')
  · intro h
    have h' := Int.emod_eq_emod_iff_emod_sub_eq_zero.mpr (Int.emod_eq_zero_of_dvd h)
    rw [← Int.emod_bmod, h', Int.emod_bmod]

/-- The low bits of a register are the register of the same count. -/
theorem setWidth_ofInt (h : v ≤ w) : (BitVec.ofInt w x).setWidth v = BitVec.ofInt v x := by
  have hdvd : ((2 ^ v : Nat) : Int) ∣ ((2 ^ w : Nat) : Int) :=
    Int.natCast_dvd_natCast.mpr (Nat.pow_dvd_pow 2 h)
  have hpos : ((2 ^ w : Nat) : Int) ≠ 0 := Int.natCast_ne_zero.mpr (Nat.two_pow_pos w).ne'
  apply BitVec.eq_of_toInt_eq
  rw [BitVec.toInt_setWidth, BitVec.toInt_ofInt, BitVec.toNat_ofInt,
    Int.toNat_of_nonneg (Int.emod_nonneg _ hpos), ← Int.emod_bmod,
    Int.emod_emod_of_dvd _ hdvd, Int.emod_bmod]

theorem setWidth_eq_ofInt (a : BitVec w) (h : v ≤ w) : a.setWidth v = BitVec.ofInt v a.toInt := by
  rw [← setWidth_ofInt _ h, BitVec.ofInt_toInt]

/-- A register does not tell a count from the nearest one to zero of its class. -/
theorem ofInt_bmod : BitVec.ofInt w (x.bmod (2 ^ w)) = BitVec.ofInt w x :=
  (ofInt_eq_ofInt_iff _ _).mpr Int.dvd_bmod_sub_self

/-- A count that fits is read back. -/
theorem toInt_ofInt_of_fits (hlo : -(2 ^ w : Int) ≤ 2 * x) (hhi : 2 * x < 2 ^ w) :
    (BitVec.ofInt w x).toInt = x := by
  rw [BitVec.toInt_ofInt]
  exact Int.bmod_eq_of_le_mul_two (by push_cast; omega) (by push_cast; omega)

/-- Sums and differences of signed registers, where they fit. -/
theorem toInt_add_of_fits {a b : BitVec w} (hlo : -(2 ^ w : Int) ≤ 2 * (a.toInt + b.toInt))
    (hhi : 2 * (a.toInt + b.toInt) < 2 ^ w) : (a + b).toInt = a.toInt + b.toInt := by
  rw [BitVec.toInt_add, ← BitVec.toInt_ofInt]
  exact toInt_ofInt_of_fits _ hlo hhi

theorem toInt_sub_of_fits {a b : BitVec w} (hlo : -(2 ^ w : Int) ≤ 2 * (a.toInt - b.toInt))
    (hhi : 2 * (a.toInt - b.toInt) < 2 ^ w) : (a - b).toInt = a.toInt - b.toInt := by
  rw [BitVec.toInt_sub, ← BitVec.toInt_ofInt]
  exact toInt_ofInt_of_fits _ hlo hhi

/-- The count in a narrow register, sign extended. -/
theorem signExtend_ofInt :
    (BitVec.ofInt v x).signExtend w = BitVec.ofInt w (x.bmod (2 ^ v)) := by
  rw [BitVec.signExtend, BitVec.toInt_ofInt]

end WODrive.Wrap
