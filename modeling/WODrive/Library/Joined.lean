import Mathlib.Analysis.Real.Sqrt
import Mathlib.Topology.Order.DenselyOrdered
import Mathlib.Topology.Order.OrderClosed
import Mathlib.Tactic.Linarith

/-!
# Curves in pieces

`join c f g` is `f` before `c` and `g` from there on.

- `continuous_join`: it is continuous when the pieces meet, and `join_of_le` says where a
  second border lies that is not before the first;
- `eq_of_continuousOn`: a curve that is continuous at the border has pieces that meet;
- `abs_ramp_le`: a ramp is not further from 0 than at its ends.
-/

namespace WODrive

universe u

variable {α : Type u}

/-- `f` before `c`, `g` from there on. -/
noncomputable def join (c : ℝ) (f g : ℝ → α) (t : ℝ) : α := if t < c then f t else g t

theorem join_of_lt {c t : ℝ} (f g : ℝ → α) (h : t < c) : join c f g t = f t := if_pos h

theorem join_of_ge {c t : ℝ} (f g : ℝ → α) (h : c ≤ t) : join c f g t = g t :=
  if_neg (not_lt.mpr h)

/-- Up to its border, a curve whose pieces meet is its first piece. -/
theorem join_of_le {c t : ℝ} {f g : ℝ → α} (hmeet : f c = g c) (h : t ≤ c) :
    join c f g t = f t := by
  rcases eq_or_lt_of_le h with rfl | hlt
  · rw [join_of_ge f g le_rfl, hmeet]
  · exact join_of_lt f g hlt

variable [TopologicalSpace α]

theorem continuous_join {c : ℝ} {f g : ℝ → α} (hf : Continuous f) (hg : Continuous g)
    (hmeet : f c = g c) : Continuous (join c f g) := by
  have heq : join c f g = fun t => if c ≤ t then g t else f t := by
    funext t
    rcases lt_or_ge t c with h | h
    · rw [join_of_lt f g h, if_neg (not_le.mpr h)]
    · rw [join_of_ge f g h, if_pos h]
  rw [heq]
  refine Continuous.if_le hg hf continuous_const continuous_id fun t ht => ?_
  obtain rfl : c = t := ht
  exact hmeet.symm

/-- The value at a border is the limit of what is before it. -/
theorem eq_of_continuousOn [T2Space α] {c : ℝ} {f g : ℝ → α} (hc : 0 < c)
    (hcurve : ContinuousOn g (Set.Ici 0)) (hf : Continuous f)
    (hbefore : ∀ t, 0 ≤ t → t < c → g t = f t) : g c = f c := by
  have hg : Filter.Tendsto g (nhdsWithin c (Set.Ico 0 c)) (nhds (g c)) :=
    (hcurve c hc.le).mono_left (nhdsWithin_mono c Set.Ico_subset_Ici_self)
  have hf' : Filter.Tendsto f (nhdsWithin c (Set.Ico 0 c)) (nhds (f c)) :=
    hf.continuousAt.tendsto.mono_left nhdsWithin_le_nhds
  have heq : Set.EqOn g f (Set.Ico 0 c) := fun t ht => hbefore t ht.1 ht.2
  have hbot : (nhdsWithin c (Set.Ico 0 c)).NeBot := by
    rw [← mem_closure_iff_nhdsWithin_neBot, closure_Ico hc.ne]
    exact ⟨hc.le, le_rfl⟩
  exact tendsto_nhds_unique (hg.congr' (heq.eventuallyEq_of_mem self_mem_nhdsWithin)) hf'

/-- A ramp of the duration `d`. -/
theorem abs_ramp_le {v a d t : ℝ} (h0 : 0 ≤ t) (hd : t ≤ d) :
    |v + a * t| ≤ max |v| |v + a * d| := by
  rcases le_or_gt 0 a with ha | ha
  · exact abs_le_max_abs_abs (by nlinarith) (by nlinarith)
  · rw [max_comm]
    exact abs_le_max_abs_abs (by nlinarith) (by nlinarith)

end WODrive
