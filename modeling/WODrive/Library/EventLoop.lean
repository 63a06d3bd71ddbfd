import Mathlib.Logic.Basic

/-!
# Loops over events that are left for a reason

Each iteration takes the next event and either leaves the loop, with a reason, or goes on.

- `eventLoop`: the loop, which hands back the events that it did not take;
- `Throughout P Q`: `P` holds at every iteration and `Q` at the one that leaves the loop, of
  the state before it and of its event;
- `eventLoop_iff`: how the loop is left, from how its iterations go.
-/

namespace WODrive

universe u v w

variable {ε : Type u} {σ : Type v} {ι : Type w}

/-- The reason the loop is left for, the state then, and the events that are left; `none`
if it has not been left after these events. -/
def eventLoop (iterate : ε → σ → Option ι × σ) : List ε → σ → Option (ι × σ × List ε)
  | [], _ => none
  | e :: es, s =>
    match iterate e s with
    | (some reason, s) => some (reason, s, es)
    | (none, s) => eventLoop iterate es s

def Throughout (iterate : ε → σ → Option ι × σ) (P Q : σ → ε → Prop) : List ε → σ → Prop
  | [], _ => True
  | e :: es, s =>
    P s e ∧
      match iterate e s with
      | (some _, _) => Q s e
      | (none, s) => Throughout iterate P Q es s

variable {iterate : ε → σ → Option ι × σ} {P Q : σ → ε → Prop} {R : ι → σ → Prop}
  {es rest : List ε} {s t : σ} {reason : ι}

/-- If going on takes `P`, and leaving the loop as `R` says takes just `P` and `Q`, then the
loop is left as `R` says exactly if they hold throughout. -/
theorem eventLoop_iff
    (hgo : ∀ e s t, iterate e s = (none, t) → P s e)
    (hleave : ∀ e s t reason, iterate e s = (some reason, t) → (R reason t ↔ P s e ∧ Q s e))
    (h : eventLoop iterate es s = some (reason, t, rest)) :
    R reason t ↔ Throughout iterate P Q es s := by
  induction es generalizing s with
  | nil => cases h
  | cons e es ih =>
    rw [eventLoop] at h
    rw [Throughout]
    rcases hiterate : iterate e s with ⟨_ | reason', s'⟩
    · simp only [hiterate] at h ⊢
      rw [ih h]
      exact ⟨fun hrest => ⟨hgo e s s' hiterate, hrest⟩, fun hall => hall.2⟩
    · simp only [hiterate] at h ⊢
      cases h
      exact hleave e s t reason hiterate

end WODrive
