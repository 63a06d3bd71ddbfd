import Mathlib.Analysis.Real.Sqrt
import WODrive.Library.CFloat
import WODrive.Library.Centred
import WODrive.Library.Numerals
import WODrive.LowLevel.NextTimings

/-!
# Space vector modulation (utils.cpp, motor.cpp)

`SVM` turns a voltage vector into the switching times of three half bridges. It picks one
of six sextants by the signs of the vector's components, and computes the times from the
on-times of the two vectors at the sextant's borders. It is written here for any number type
`F`, as is the conversion to the clocks of a period.

In exact arithmetic, whatever the sextant is, the times are centred in the period and have the
same differences (`svm_centred`, `pwmTimings_sub`), which determines them: they are one function
of the vector, and it is continuous.
-/

namespace WODrive.Motor

open LowLevel

universe u

/-- The constants of utils.hpp. -/
structure Sqrt3 (F : Type u) where
  oneBySqrt3 : F
  twoBySqrt3 : F
  sqrt3By2 : F
deriving Repr

/-- `tA`, `tB` and `tC` -/
structure SwitchTimes (F : Type u) where
  tA : F
  tB : F
  tC : F
deriving DecidableEq, Repr

/-- `Sextant`, 1 to 6 -/
inductive Sextant where
  | v1v2
  | v2v3
  | v3v4
  | v4v5
  | v5v6
  | v6v1
deriving DecidableEq, Repr

/-! ## `SVM` -/

section Function

variable {F : Type u} [Add F] [Sub F] [Mul F] [Neg F] [LT F] [LE F] [DecidableLT F]
  [DecidableLE F] [OfScientific F] [CFloat F]

/-- The first half of `SVM`. -/
def sextant (k : Sqrt3 F) (alpha beta : F) : Sextant :=
  if CFloat.ofNat 0 ≤ beta then
    if CFloat.ofNat 0 ≤ alpha then
      -- quadrant I
      if alpha < k.oneBySqrt3 * beta then .v2v3 else .v1v2
    else
      -- quadrant II
      if alpha < -k.oneBySqrt3 * beta then .v3v4 else .v2v3
  else
    if CFloat.ofNat 0 ≤ alpha then
      -- quadrant IV
      if alpha < -k.oneBySqrt3 * beta then .v5v6 else .v6v1
    else
      -- quadrant III
      if alpha < k.oneBySqrt3 * beta then .v4v5 else .v5v6

/-- The second half of `SVM`. -/
def pwmTimings (k : Sqrt3 F) (alpha beta : F) : Sextant → SwitchTimes F
  | .v1v2 =>
    let t1 := alpha - k.oneBySqrt3 * beta
    let t2 := k.twoBySqrt3 * beta
    let tA := (CFloat.ofNat 1 - t1 - t2) * 0.5
    let tB := tA + t1
    let tC := tB + t2
    { tA, tB, tC }
  | .v2v3 =>
    let t2 := alpha + k.oneBySqrt3 * beta
    let t3 := -alpha + k.oneBySqrt3 * beta
    let tB := (CFloat.ofNat 1 - t2 - t3) * 0.5
    let tA := tB + t3
    let tC := tA + t2
    { tA, tB, tC }
  | .v3v4 =>
    let t3 := k.twoBySqrt3 * beta
    let t4 := -alpha - k.oneBySqrt3 * beta
    let tB := (CFloat.ofNat 1 - t3 - t4) * 0.5
    let tC := tB + t3
    let tA := tC + t4
    { tA, tB, tC }
  | .v4v5 =>
    let t4 := -alpha + k.oneBySqrt3 * beta
    let t5 := -k.twoBySqrt3 * beta
    let tC := (CFloat.ofNat 1 - t4 - t5) * 0.5
    let tB := tC + t5
    let tA := tB + t4
    { tA, tB, tC }
  | .v5v6 =>
    let t5 := -alpha - k.oneBySqrt3 * beta
    let t6 := alpha - k.oneBySqrt3 * beta
    let tC := (CFloat.ofNat 1 - t5 - t6) * 0.5
    let tA := tC + t5
    let tB := tA + t6
    { tA, tB, tC }
  | .v6v1 =>
    let t6 := -k.twoBySqrt3 * beta
    let t1 := alpha + k.oneBySqrt3 * beta
    let tA := (CFloat.ofNat 1 - t6 - t1) * 0.5
    let tC := tA + t1
    let tB := tC + t6
    { tA, tB, tC }

/-- `result_valid`, which is false if any of the timings is NaN. -/
def SwitchTimes.Valid (t : SwitchTimes F) : Prop :=
  (CFloat.ofNat 0 ≤ t.tA ∧ t.tA ≤ CFloat.ofNat 1) ∧
    (CFloat.ofNat 0 ≤ t.tB ∧ t.tB ≤ CFloat.ofNat 1) ∧
    (CFloat.ofNat 0 ≤ t.tC ∧ t.tC ≤ CFloat.ofNat 1)

instance (t : SwitchTimes F) : Decidable t.Valid := inferInstanceAs (Decidable (_ ∧ _ ∧ _))

/-- `SVM`: what it returns, and the timings. -/
def svm (k : Sqrt3 F) (alpha beta : F) : Int × SwitchTimes F :=
  let t := pwmTimings k alpha beta (sextant k alpha beta)
  (if t.Valid then 0 else -1, t)

theorem svm_eq_zero_iff (k : Sqrt3 F) (alpha beta : F) :
    (svm k alpha beta).1 = 0 ↔ (svm k alpha beta).2.Valid := by
  show (if (svm k alpha beta).2.Valid then (0 : Int) else -1) = 0 ↔ _
  split
  next h => exact iff_of_true rfl h
  next h => exact iff_of_false (by decide) h

/-! ## The clocks of a period -/

/-- `(uint16_t)(t * (float)TIM_1_8_PERIOD_CLOCKS)` -/
def toClocks (t : F) : BitVec 16 :=
  BitVec.ofInt 16 (CFloat.toInt (t * CFloat.ofNat tim18PeriodClocks.toNat))

def SwitchTimes.toTimings (t : SwitchTimes F) : Timings where
  phA := toClocks t.tA
  phB := toClocks t.tB
  phC := toClocks t.tC

end Function

/-! ## Exact arithmetic -/

section Exact

variable {K : Type u} [Field K] [LinearOrder K] [FloorRing K]

attribute [local instance] CFloat.exact

@[simp] theorem svm_snd (k : Sqrt3 K) (alpha beta : K) :
    (svm k alpha beta).2 = pwmTimings k alpha beta (sextant k alpha beta) := rfl

theorem valid_exact {t : SwitchTimes K} :
    t.Valid ↔ t.tA ∈ Set.Icc 0 1 ∧ t.tB ∈ Set.Icc 0 1 ∧ t.tC ∈ Set.Icc 0 1 := by
  simp only [SwitchTimes.Valid, ofNat_zero_exact, ofNat_one_exact, Set.mem_Icc]

/-- The on-times of the vectors at the borders of a sextant. -/
def onTimes (k : Sqrt3 K) (alpha beta : K) : Sextant → K × K
  | .v1v2 => (alpha - k.oneBySqrt3 * beta, 2 * (k.oneBySqrt3 * beta))
  | .v2v3 => (alpha + k.oneBySqrt3 * beta, -alpha + k.oneBySqrt3 * beta)
  | .v3v4 => (2 * (k.oneBySqrt3 * beta), -alpha - k.oneBySqrt3 * beta)
  | .v4v5 => (-alpha + k.oneBySqrt3 * beta, -(2 * (k.oneBySqrt3 * beta)))
  | .v5v6 => (-alpha - k.oneBySqrt3 * beta, alpha - k.oneBySqrt3 * beta)
  | .v6v1 => (-(2 * (k.oneBySqrt3 * beta)), alpha + k.oneBySqrt3 * beta)

section

variable [IsStrictOrderedRing K] {k : Sqrt3 K} (hpos : 0 < k.oneBySqrt3)
  (htwo : k.twoBySqrt3 = 2 * k.oneBySqrt3)

omit [IsStrictOrderedRing K] in
include htwo in
/-- The differences do not depend on the sextant. -/
theorem pwmTimings_sub (alpha beta : K) (s : Sextant) :
    (pwmTimings k alpha beta s).tB - (pwmTimings k alpha beta s).tA =
        alpha - k.oneBySqrt3 * beta ∧
      (pwmTimings k alpha beta s).tC - (pwmTimings k alpha beta s).tB =
        2 * k.oneBySqrt3 * beta := by
  cases s <;> simp only [pwmTimings, htwo] <;> constructor <;> ring

omit [IsStrictOrderedRing K] in
theorem half_exact : (0.5 : K) = 1 / 2 := by
  norm_num

include hpos in
/-- The sextant that is picked is the one whose on-times are at least 0. -/
theorem onTimes_nonneg (alpha beta : K) :
    0 ≤ (onTimes k alpha beta (sextant k alpha beta)).1 ∧
      0 ≤ (onTimes k alpha beta (sextant k alpha beta)).2 := by
  have hup : 0 ≤ beta → 0 ≤ k.oneBySqrt3 * beta := mul_nonneg hpos.le
  have hdown : ¬ 0 ≤ beta → k.oneBySqrt3 * beta < 0 := fun h =>
    mul_neg_of_pos_of_neg hpos (not_le.mp h)
  unfold sextant
  simp only [neg_mul, ofNat_zero_exact]
  split
  next hbeta =>
    have hk := hup hbeta
    split <;> split <;> constructor <;> simp only [onTimes] <;> linarith
  next hbeta =>
    have hk := hdown hbeta
    split <;> split <;> constructor <;> simp only [onTimes] <;> linarith

include htwo in
theorem pwmTimings_centred {alpha beta : K} {s : Sextant}
    (h : 0 ≤ (onTimes k alpha beta s).1 ∧ 0 ≤ (onTimes k alpha beta s).2) :
    Centred (pwmTimings k alpha beta s).tA (pwmTimings k alpha beta s).tB
      (pwmTimings k alpha beta s).tC := by
  obtain ⟨hfirst, hsecond⟩ := h
  -- the order of the half bridges depends on the sextant
  cases s <;> simp only [onTimes] at hfirst hsecond <;>
    simp only [pwmTimings, htwo, half_exact, ofNat_one_exact]
  case v1v2 => exact Centred.of_sorted (by linarith) (by linarith) (by ring)
  case v2v3 => exact (Centred.of_sorted (by linarith) (by linarith) (by ring)).swap
  case v3v4 => exact (Centred.of_sorted (by linarith) (by linarith) (by ring)).rotate.rotate
  case v4v5 =>
    exact (Centred.of_sorted (by linarith) (by linarith) (by ring)).swap.rotate.rotate
  case v5v6 => exact (Centred.of_sorted (by linarith) (by linarith) (by ring)).rotate
  case v6v1 => exact (Centred.of_sorted (by linarith) (by linarith) (by ring)).swap.rotate

include hpos htwo in
theorem svm_centred (alpha beta : K) :
    Centred (svm k alpha beta).2.tA (svm k alpha beta).2.tB (svm k alpha beta).2.tC :=
  pwmTimings_centred htwo (onTimes_nonneg hpos alpha beta)

include hpos htwo in
/-- The vectors that `SVM` accepts. -/
theorem svm_eq_zero_iff_max (alpha beta : K) :
    (svm k alpha beta).1 = 0 ↔
      max (max |alpha - k.oneBySqrt3 * beta| |alpha + k.oneBySqrt3 * beta|)
        |2 * k.oneBySqrt3 * beta| ≤ 1 := by
  obtain ⟨hba, hcb⟩ := pwmTimings_sub htwo alpha beta (sextant k alpha beta)
  have hca : (pwmTimings k alpha beta (sextant k alpha beta)).tC -
      (pwmTimings k alpha beta (sextant k alpha beta)).tA = alpha + k.oneBySqrt3 * beta := by
    linarith
  have hiff := (svm_centred hpos htwo alpha beta).mem_Icc_iff
  rw [svm_eq_zero_iff, valid_exact]
  refine hiff.trans ?_
  rw [svm_snd, hba, hcb, hca, max_assoc]

end

/-! ## The exact constants -/

/-- What the constants of utils.hpp stand for. -/
noncomputable def sqrt3 : Sqrt3 ℝ where
  oneBySqrt3 := 1 / √3
  twoBySqrt3 := 2 / √3
  sqrt3By2 := √3 / 2

theorem oneBySqrt3_pos : 0 < sqrt3.oneBySqrt3 := by
  show 0 < 1 / √3
  positivity

theorem three_mul_oneBySqrt3_sq : 3 * sqrt3.oneBySqrt3 ^ 2 = 1 := by
  show 3 * (1 / √3) ^ 2 = 1
  rw [div_pow, Real.sq_sqrt (by norm_num)]
  norm_num

theorem twoBySqrt3_eq : sqrt3.twoBySqrt3 = 2 * sqrt3.oneBySqrt3 := by
  show 2 / √3 = 2 * (1 / √3)
  ring

theorem continuous_svm :
    Continuous fun v : ℝ × ℝ => ((svm sqrt3 v.1 v.2).2.tA, (svm sqrt3 v.1 v.2).2.tB,
      (svm sqrt3 v.1 v.2).2.tC) := by
  have hsub := fun v : ℝ × ℝ => pwmTimings_sub twoBySqrt3_eq v.1 v.2 (sextant sqrt3 v.1 v.2)
  have hBA : Continuous fun v : ℝ × ℝ =>
      (svm sqrt3 v.1 v.2).2.tB - (svm sqrt3 v.1 v.2).2.tA := by
    simp only [svm_snd, (hsub _).1]
    fun_prop
  have hCB : Continuous fun v : ℝ × ℝ =>
      (svm sqrt3 v.1 v.2).2.tC - (svm sqrt3 v.1 v.2).2.tB := by
    simp only [svm_snd, (hsub _).2]
    fun_prop
  obtain ⟨hA, hB, hC⟩ := Centred.continuous
    (fun v : ℝ × ℝ => svm_centred oneBySqrt3_pos twoBySqrt3_eq v.1 v.2) hBA hCB
  exact hA.prodMk (hB.prodMk hC)

/-- **Space vector modulation.** The timings have the same differences and the same
centre in all sextants, they are continuous, and the vectors that are accepted are those
of a hexagon, where all timings are within the period. -/
theorem svm_continuous_and_valid :
    (3 * sqrt3.oneBySqrt3 ^ 2 = 1 ∧ sqrt3.twoBySqrt3 = 2 * sqrt3.oneBySqrt3) ∧
      (∀ alpha beta : ℝ,
        (svm sqrt3 alpha beta).2.tB - (svm sqrt3 alpha beta).2.tA =
            alpha - sqrt3.oneBySqrt3 * beta ∧
          (svm sqrt3 alpha beta).2.tC - (svm sqrt3 alpha beta).2.tB =
            2 * sqrt3.oneBySqrt3 * beta ∧
          min (svm sqrt3 alpha beta).2.tA
              (min (svm sqrt3 alpha beta).2.tB (svm sqrt3 alpha beta).2.tC) +
            max (svm sqrt3 alpha beta).2.tA
              (max (svm sqrt3 alpha beta).2.tB (svm sqrt3 alpha beta).2.tC) = 1) ∧
      (Continuous fun v : ℝ × ℝ => ((svm sqrt3 v.1 v.2).2.tA, (svm sqrt3 v.1 v.2).2.tB,
        (svm sqrt3 v.1 v.2).2.tC)) ∧
      ∀ alpha beta : ℝ,
        ((svm sqrt3 alpha beta).1 = 0 ↔
          max (max |alpha - sqrt3.oneBySqrt3 * beta| |alpha + sqrt3.oneBySqrt3 * beta|)
            |2 * sqrt3.oneBySqrt3 * beta| ≤ 1) ∧
        ((svm sqrt3 alpha beta).1 = 0 →
          (svm sqrt3 alpha beta).2.tA ∈ Set.Icc 0 1 ∧
            (svm sqrt3 alpha beta).2.tB ∈ Set.Icc 0 1 ∧
            (svm sqrt3 alpha beta).2.tC ∈ Set.Icc 0 1) := by
  refine ⟨⟨three_mul_oneBySqrt3_sq, twoBySqrt3_eq⟩, fun alpha beta => ?_, continuous_svm,
    fun alpha beta => ?_⟩
  · obtain ⟨hba, hcb⟩ := pwmTimings_sub twoBySqrt3_eq alpha beta (sextant sqrt3 alpha beta)
    exact ⟨hba, hcb, svm_centred oneBySqrt3_pos twoBySqrt3_eq alpha beta⟩
  · exact ⟨svm_eq_zero_iff_max oneBySqrt3_pos twoBySqrt3_eq alpha beta,
      fun haccepted => valid_exact.mp ((svm_eq_zero_iff sqrt3 alpha beta).mp haccepted)⟩

end Exact

end WODrive.Motor
