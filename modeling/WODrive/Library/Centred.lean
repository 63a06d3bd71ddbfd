import Mathlib.Algebra.Order.Field.Basic
import Mathlib.Tactic.Linarith
import Mathlib.Topology.Order.Lattice
import Mathlib.Topology.Algebra.Field
import Mathlib.Topology.Order.Basic

/-!
# Three numbers centred in the unit interval

Three numbers are centred when the least and the greatest of them are as far from the
ends of the unit interval.

- `Centred.left_eq`: centred numbers are given by their differences, and continuous
  where these are (`Centred.continuous`);
- `Centred.mem_Icc_iff`: they are all in the unit interval exactly when no two of them
  are more than 1 apart.
-/

namespace WODrive

variable {K : Type*} [Field K] [LinearOrder K]

/-- The least and the greatest of the three are symmetric about 1/2. -/
def Centred (a b c : K) : Prop := min a (min b c) + max a (max b c) = 1

namespace Centred

variable {a b c : K}

theorem of_sorted (hab : a ≤ b) (hbc : b ≤ c) (h : a + c = 1) : Centred a b c := by
  unfold Centred
  rw [min_eq_left hbc, min_eq_left hab, max_eq_right hbc, max_eq_right (hab.trans hbc), h]

theorem rotate (h : Centred a b c) : Centred b c a := by
  unfold Centred at h ⊢
  rw [← h, min_comm a, min_assoc, max_comm a, max_assoc]

theorem swap (h : Centred a b c) : Centred b a c := by
  unfold Centred at h ⊢
  rw [← h, min_left_comm, max_left_comm]

variable [IsStrictOrderedRing K]

/-- The first number, by the differences of the others to it. -/
theorem left_eq (h : Centred a b c) :
    a = (1 - min 0 (min (b - a) (c - a)) - max 0 (max (b - a) (c - a))) / 2 := by
  have hmin : min a (min b c) = a + min 0 (min (b - a) (c - a)) := by
    rw [← min_add_add_left, ← min_add_add_left]
    simp
  have hmax : max a (max b c) = a + max 0 (max (b - a) (c - a)) := by
    rw [← max_add_add_left, ← max_add_add_left]
    simp
  unfold Centred at h
  rw [hmin, hmax] at h
  linarith

/-- What is in the unit interval, and how far apart it is. -/
theorem mem_Icc_iff (h : Centred a b c) :
    (a ∈ Set.Icc 0 1 ∧ b ∈ Set.Icc 0 1 ∧ c ∈ Set.Icc 0 1) ↔
      max |b - a| (max |c - a| |c - b|) ≤ 1 := by
  have hmin : ∀ x, x ≤ min a (min b c) ↔ x ≤ a ∧ x ≤ b ∧ x ≤ c := by simp
  have hmax : ∀ x, max a (max b c) ≤ x ↔ a ≤ x ∧ b ≤ x ∧ c ≤ x := by simp
  unfold Centred at h
  constructor
  · rintro ⟨⟨ha, ha'⟩, ⟨hb, hb'⟩, hc, hc'⟩
    simp only [max_le_iff, abs_le]
    refine ⟨⟨?_, ?_⟩, ⟨?_, ?_⟩, ?_, ?_⟩ <;> linarith
  · intro hspread
    simp only [max_le_iff, abs_le] at hspread
    obtain ⟨⟨hba, hba'⟩, ⟨hca, hca'⟩, hcb, hcb'⟩ := hspread
    -- each number is within 1 of the least and of the greatest
    have hlow : max a (max b c) ≤ 1 + min a (min b c) := by
      rw [← sub_le_iff_le_add', hmin]
      refine ⟨?_, ?_, ?_⟩ <;> rw [sub_le_iff_le_add', hmax] <;>
        refine ⟨?_, ?_, ?_⟩ <;> linarith
    obtain ⟨ha, hb, hc⟩ := (hmin 0).mp (by linarith)
    obtain ⟨ha', hb', hc'⟩ := (hmax 1).mp (by linarith)
    exact ⟨⟨ha, ha'⟩, ⟨hb, hb'⟩, hc, hc'⟩

/-- Numbers that are centred at each point are continuous where their differences are. -/
theorem continuous {X : Type*} [TopologicalSpace X] [TopologicalSpace K] [OrderTopology K]
    [IsTopologicalRing K] {f g k : X → K} (h : ∀ x, Centred (f x) (g x) (k x))
    (hgf : Continuous fun x => g x - f x) (hkg : Continuous fun x => k x - g x) :
    Continuous f ∧ Continuous g ∧ Continuous k := by
  have hkf : Continuous fun x => k x - f x :=
    (hkg.add hgf).congr fun x => sub_add_sub_cancel (k x) (g x) (f x)
  have hf : Continuous f := by
    have heq : f = fun x => (1 - min 0 (min (g x - f x) (k x - f x)) -
        max 0 (max (g x - f x) (k x - f x))) / 2 := funext fun x => (h x).left_eq
    rw [heq]
    refine Continuous.div_const ?_ 2
    exact (continuous_const.sub (continuous_const.min (hgf.min hkf))).sub
      (continuous_const.max (hgf.max hkf))
  exact ⟨hf, (hgf.add hf).congr fun x => sub_add_cancel (g x) (f x),
    (hkf.add hf).congr fun x => sub_add_cancel (k x) (f x)⟩

end Centred

end WODrive
