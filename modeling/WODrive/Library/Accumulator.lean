import Mathlib.Algebra.Order.Ring.Int
import Mathlib.Tactic.Linarith

/-!
# Accumulators that carry

A rational slope `d / D` in integers: every round adds `d` to an accumulator, and
carries, taking `D` off again, when it has got above `D`. `Carried d D n s err` is what
holds after `n` rounds with `s` carries: the accumulator is the exact remainder
`d * n - D * s`, and between `0` and `D`.
-/

namespace WODrive

/-- One round: the accumulator, and whether it carries. -/
def accumulate (d D err : Int) : Int × Bool :=
  if err + d > D then (err + d - D, true) else (err + d, false)

/-- After `n` rounds, `s` of them with a carry. -/
structure Carried (d D : Int) (n s : Nat) (err : Int) : Prop where
  balance : err + D * s = d * n
  nonneg : 0 ≤ err
  le : err ≤ D
  pos : 0 < d → 0 < n → 0 < err
  carries_le : s ≤ n

variable {d D err : Int} {n s : Nat}

theorem carried_zero (hD : 0 ≤ D) : Carried d D 0 0 0 :=
  ⟨by simp, le_refl 0, hD, fun _ h => absurd h (Nat.lt_irrefl 0), le_refl 0⟩

namespace Carried

/-- What a round preserves. -/
theorem round (h : Carried d D n s err) (hd : 0 ≤ d) (hle : d ≤ D) :
    Carried d D (n + 1) (if (accumulate d D err).2 then s + 1 else s)
      (accumulate d D err).1 := by
  have hbalance := h.balance
  have hnonneg := h.nonneg
  have herr := h.le
  have hcarries := h.carries_le
  unfold accumulate
  by_cases hcarry : err + d > D
  · rw [if_pos hcarry]
    refine ⟨?_, by dsimp only; omega, by dsimp only; omega, fun _ _ => by dsimp only; omega,
      ?_⟩
    · simp only [if_true]
      push_cast
      linarith
    · simp only [if_true]
      omega
  · rw [if_neg hcarry]
    refine ⟨?_, by dsimp only; omega, by dsimp only; omega, fun _ _ => by dsimp only; omega,
      ?_⟩
    · simp only [Bool.false_eq_true, if_false]
      push_cast
      linarith
    · simp only [Bool.false_eq_true, if_false]
      omega

/-- In `D` rounds there are no more than `d` carries. -/
theorem carries_le_delta (h : Carried d D n s err) (hd : 0 ≤ d) (hn : (n : Int) ≤ D) :
    (s : Int) ≤ d := by
  have hcarries := h.carries_le
  rcases Int.lt_or_le 0 D with hpos | hzero
  · have hmul : D * s ≤ D * d := by
      have hdn : d * n ≤ d * D := Int.mul_le_mul_of_nonneg_left hn hd
      have hbalance := h.balance
      have hnonneg := h.nonneg
      linarith [Int.mul_comm d D]
    exact Int.le_of_mul_le_mul_left hmul hpos
  · omega

/-- With the slope 1 the first round does not carry. -/
theorem carries_lt (h : Carried D D n s err) (hD : 0 < D) (hn : 0 < n) : s < n := by
  have hpos := h.pos hD hn
  have hbalance := h.balance
  have hmul : D * (s : Int) < D * n := by linarith
  have := Int.lt_of_mul_lt_mul_left hmul (Int.le_of_lt hD)
  omega

end Carried

end WODrive
