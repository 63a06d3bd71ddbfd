import Mathlib.Logic.Basic

/-!
# Computations that fail with a state

A computation that may be given up leaves something behind in either case: `Except.error`
with what it leaves when it is given up, `Except.ok` with its result.

- `Leaves P Q`: what is left when it is given up satisfies `P`, and its result `Q`;
- `Leaves.bind`: of a sequence, by its parts;
- `exists_of_bind_eq_ok`: what came before a result.
-/

namespace WODrive

universe u v

variable {ε : Type v} {α β : Type u}

/-- What is left satisfies `P`, a result satisfies `Q`. -/
def Leaves (P : ε → Prop) (Q : α → Prop) : Except ε α → Prop
  | .error e => P e
  | .ok a => Q a

namespace Leaves

variable {P P' : ε → Prop} {Q Q' : α → Prop} {R : β → Prop} {x : Except ε α}

theorem imp (h : Leaves P Q x) (hP : ∀ e, P e → P' e) (hQ : ∀ a, Q a → Q' a) :
    Leaves P' Q' x := by
  cases x with
  | error e => exact hP e h
  | ok a => exact hQ a h

theorem bind {f : α → Except ε β} (hx : Leaves P Q x) (hf : ∀ a, Q a → Leaves P R (f a)) :
    Leaves P R (x >>= f) := by
  cases x with
  | error e => exact hx
  | ok a => exact hf a hx

theorem map {f : α → β} (hx : Leaves P Q x) (hf : ∀ a, Q a → R (f a)) :
    Leaves P R (x.map f) := by
  cases x with
  | error e => exact hx
  | ok a => exact hf a hx

end Leaves

/-- What comes before a result. -/
theorem exists_of_bind_eq_ok {x : Except ε α} {f : α → Except ε β} {r : β}
    (h : x >>= f = .ok r) : ∃ a, x = .ok a ∧ f a = .ok r := by
  cases x with
  | error e => cases h
  | ok a => exact ⟨a, rfl, h⟩

end WODrive
