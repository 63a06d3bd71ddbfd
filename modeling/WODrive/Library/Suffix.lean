import Mathlib.Logic.Basic

/-!
# The longest suffix of an index range with a property

`suffixStart p lo hi` is where the longest run of indices satisfying `p` that
ends at `hi` begins, without going below `lo`: the result of scanning an
append-only log from behind. `IsSuffixStart` characterizes it, and the
characterization determines the value.
-/

namespace WODrive

/-- Scans down from `hi` while `p` holds, not below `lo`. -/
def suffixStart (p : Nat → Prop) [DecidablePred p] (lo : Nat) : Nat → Nat
  | 0 => 0
  | hi + 1 => if lo ≤ hi ∧ p hi then suffixStart p lo hi else hi + 1

/-- `k` is the least index from `lo` up such that `p` holds on `[k, hi)`. -/
structure IsSuffixStart (p : Nat → Prop) (lo hi k : Nat) : Prop where
  lo_le : lo ≤ k
  le_hi : k ≤ hi
  all : ∀ i, k ≤ i → i < hi → p i
  stop : k = lo ∨ ¬ p (k - 1)

variable {p q : Nat → Prop} {lo hi k k' : Nat}

theorem suffixStart_spec [DecidablePred p] :
    ∀ {hi : Nat}, lo ≤ hi → IsSuffixStart p lo hi (suffixStart p lo hi)
  | 0, h => by
    have hlo : lo = 0 := Nat.le_zero.mp h
    subst hlo
    exact ⟨Nat.le_refl _, Nat.le_refl _, fun i _ hi => absurd hi (Nat.not_lt_zero i),
      Or.inl rfl⟩
  | hi + 1, h => by
    rw [suffixStart]
    by_cases hc : lo ≤ hi ∧ p hi
    · rw [if_pos hc]
      have ih := suffixStart_spec hc.1
      refine ⟨ih.lo_le, Nat.le_succ_of_le ih.le_hi, fun i hk hi' => ?_, ih.stop⟩
      rcases Nat.lt_succ_iff_lt_or_eq.mp hi' with hlt | rfl
      · exact ih.all i hk hlt
      · exact hc.2
    · rw [if_neg hc]
      refine ⟨h, Nat.le_refl _, fun i hk hi' => absurd hi' (Nat.not_lt.mpr hk), ?_⟩
      by_cases hlo : lo ≤ hi
      · exact Or.inr fun hp => hc ⟨hlo, hp⟩
      · exact Or.inl (by omega)

namespace IsSuffixStart

/-- The characterization determines the start. -/
theorem unique (h : IsSuffixStart p lo hi k) (h' : IsSuffixStart p lo hi k') :
    k = k' := by
  have key : ∀ {a b : Nat}, IsSuffixStart p lo hi a → IsSuffixStart p lo hi b →
      a ≤ b := by
    intro a b ha hb
    rcases ha.stop with heq | hstop
    · rw [heq]
      exact hb.lo_le
    · refine Nat.le_of_not_lt fun hlt => hstop (hb.all (a - 1) (by omega) ?_)
      have := ha.le_hi
      omega
  exact Nat.le_antisymm (key h h') (key h' h)

/-- The start is the least index from which `p` holds. -/
theorem le_of_all {i : Nat} (h : IsSuffixStart p lo hi k) (hi' : lo ≤ i)
    (hall : ∀ j, i ≤ j → j < hi → p j) : k ≤ i := by
  rcases Nat.lt_or_ge i k with hlt | hle
  · have := h.le_hi
    rcases h.stop with h0 | h0
    · omega
    · exact absurd (hall (k - 1) (by omega) (by omega)) h0
  · exact hle

/-- The start only depends on the indices of the range. -/
theorem congr (h : IsSuffixStart p lo hi k)
    (hpq : ∀ i, lo ≤ i → i < hi → (p i ↔ q i)) : IsSuffixStart q lo hi k := by
  refine ⟨h.lo_le, h.le_hi, fun i hk hi' => ?_, ?_⟩
  · exact (hpq i (Nat.le_trans h.lo_le hk) hi').mp (h.all i hk hi')
  · have h1 := h.lo_le
    have h2 := h.le_hi
    rcases Nat.eq_or_lt_of_le h1 with heq | hlt
    · exact Or.inl heq.symm
    · rcases h.stop with heq | hstop
      · exact Or.inl heq
      · exact Or.inr fun hq => hstop ((hpq (k - 1) (by omega) (by omega)).mpr hq)

end IsSuffixStart

end WODrive
