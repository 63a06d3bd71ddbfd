import WODrive.Motor.Svm

/-!
# Space vector modulation in single precision (utils.cpp, motor.cpp)

Whatever vector `SVM` accepts, the compare values are within the period of the timer
(`toTimings_withinPeriod`), since it checks the timings that it returns.
-/

namespace WODrive.Motor

open LowLevel Binary32

/-- The constants of utils.hpp. -/
def sqrt3f : Sqrt3 Float32 where
  oneBySqrt3 := 0.57735026919
  twoBySqrt3 := 1.15470053838
  sqrt3By2 := 0.86602540378

/-- A timing that is between 0 and 1 is one of the clocks of a period. -/
theorem toClocks_le {t : Float32} (hge : CFloat.ofNat 0 ≤ t) (hle : t ≤ CFloat.ofNat 1) :
    toClocks t ≤ tim18PeriodClocks := by
  have hperiod : toRat (CFloat.ofNat tim18PeriodClocks.toNat) = 3500 := by
    rw [toRat_of_unpack (m := 14336000) (e := -12) rfl]
    norm_num
  have hfinite : t.isFinite = true := isFinite_of_le_of_le rfl rfl hge hle
  have hge' := (le_iff rfl hfinite).mp hge
  have hle' := (le_iff hfinite rfl).mp hle
  rw [toRat_zero] at hge'
  rw [toRat_one] at hle'
  have hclocks : Between (CFloat.ofNat 0) (CFloat.ofNat tim18PeriodClocks.toNat)
      (t * CFloat.ofNat tim18PeriodClocks.toNat) := by
    refine mul_mem rfl rfl hfinite rfl ?_ ?_
    · rw [toRat_zero, hperiod]
      linarith
    · rw [hperiod]
      linarith
  obtain ⟨hfrom, hto⟩ := truncate_mem (n := 0) (k := 3500) hclocks (by norm_num)
    (by rw [toRat_zero]; norm_num) (by rw [hperiod]; norm_num)
  have htoInt : (toClocks t).toNat =
      (truncate (t * CFloat.ofNat tim18PeriodClocks.toNat) % (2 ^ 16 : Nat)).toNat :=
    BitVec.toNat_ofInt ..
  rw [BitVec.le_def, htoInt]
  generalize truncate _ = n at hfrom hto
  show (n % (2 ^ 16 : Nat)).toNat ≤ 3500
  omega

/-- **Whatever the vector**, if `SVM` accepts it, its timings are within the period. -/
theorem toTimings_withinPeriod {k : Sqrt3 Float32} {alpha beta : Float32}
    (h : (svm k alpha beta).1 = 0) : WithinPeriod (svm k alpha beta).2.toTimings := by
  obtain ⟨hA, hB, hC⟩ := (svm_eq_zero_iff k alpha beta).mp h
  exact ⟨toClocks_le hA.1 hA.2, toClocks_le hB.1 hB.2, toClocks_le hC.1 hC.2⟩

end WODrive.Motor
