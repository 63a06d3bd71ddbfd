import Mathlib.Logic.Basic

/-!
# Computations on a device that may lose power

Driver code keeps part of its state in RAM and part on a device that survives a
power loss. `CrashM σ δ` is the state monad over the full state `σ` whose runs
may be cut short: a run either ends normally, with a value and a final state, or
at a power loss, with only the surviving part `δ` of the state.

Specifications are stated with `Outcome.Sat Q C`: a normal end satisfies the
postcondition `Q`, a power loss leaves the device in a state satisfying the
crash condition `C`. The rules below compute `Sat` through the monad's
operations, so that a specification of a program is assembled from those of the
programs it calls.
-/

namespace WODrive.Crash

universe u

/-- How a run ends: normally, or at a power loss that leaves only `δ`. -/
inductive Outcome (σ δ α : Type u) : Type u where
  | ok (a : α) (s : σ)
  | powerLoss (d : δ)

/-- A computation over the state `σ`, of which `δ` survives a power loss. -/
def CrashM (σ δ α : Type u) : Type u := σ → Outcome σ δ α

variable {σ δ α β : Type u}

instance : Monad (CrashM σ δ) where
  pure a := fun s => .ok a s
  bind x f := fun s =>
    match x s with
    | .ok a s' => f a s'
    | .powerLoss d => .powerLoss d

instance : MonadStateOf σ (CrashM σ δ) where
  get := fun s => .ok s s
  set s' := fun _ => .ok ⟨⟩ s'
  modifyGet f := fun s => .ok (f s).1 (f s).2

/-- The outcome ends normally in `Q`, or at a power loss in `C`. -/
def Outcome.Sat (Q : α → σ → Prop) (C : δ → Prop) : Outcome σ δ α → Prop
  | .ok a s => Q a s
  | .powerLoss d => C d

namespace Outcome.Sat

variable {Q Q' : α → σ → Prop} {C C' : δ → Prop} {o : Outcome σ δ α}

/-- The consequence rule. -/
theorem mono (h : o.Sat Q C) (hQ : ∀ a s, Q a s → Q' a s)
    (hC : ∀ d, C d → C' d) : o.Sat Q' C' := by
  cases o with
  | ok a s => exact hQ a s h
  | powerLoss d => exact hC d h

/-- A run that cannot lose power ends normally. -/
theorem exists_ok (h : o.Sat Q C) (hC : ∀ d, ¬ C d) :
    ∃ a s, o = .ok a s ∧ Q a s := by
  cases o with
  | ok a s => exact ⟨a, s, rfl, h⟩
  | powerLoss d => exact absurd h (hC d)

/-- The postcondition of a run known to end normally. -/
theorem of_eq_ok {a : α} {s : σ} (h : o.Sat Q C) (ho : o = .ok a s) : Q a s := by
  rw [ho] at h
  exact h

end Outcome.Sat

section Rules

variable {Q : α → σ → Prop} {C : δ → Prop} {R : β → σ → Prop}

@[simp] theorem sat_pure (a : α) (s : σ) :
    ((pure a : CrashM σ δ α) s).Sat Q C ↔ Q a s := Iff.rfl

@[simp] theorem sat_bind (x : CrashM σ δ α) (f : α → CrashM σ δ β) (s : σ) :
    ((x >>= f) s).Sat R C ↔
      (x s).Sat (fun a s' => (f a s').Sat R C) C := by
  show (match x s with
    | .ok a s' => f a s'
    | .powerLoss d => .powerLoss d).Sat R C ↔ _
  cases x s with
  | ok a s' => exact Iff.rfl
  | powerLoss d => exact Iff.rfl

@[simp] theorem sat_get {Q : σ → σ → Prop} (s : σ) :
    ((get : CrashM σ δ σ) s).Sat Q C ↔ Q s s := Iff.rfl

@[simp] theorem sat_set {Q : PUnit → σ → Prop} (s s' : σ) :
    ((set s' : CrashM σ δ PUnit) s).Sat Q C ↔ Q ⟨⟩ s' := Iff.rfl

@[simp] theorem sat_modify {Q : PUnit → σ → Prop} (f : σ → σ) (s : σ) :
    ((modify f : CrashM σ δ PUnit) s).Sat Q C ↔ Q ⟨⟩ (f s) := Iff.rfl

@[simp] theorem sat_ite (p : Prop) [Decidable p] (x y : CrashM σ δ α) (s : σ) :
    ((if p then x else y) s).Sat Q C ↔
      (p → (x s).Sat Q C) ∧ (¬ p → (y s).Sat Q C) := by
  by_cases hp : p
  · simp [hp]
  · simp [hp]

end Rules

/-- What follows a part that ends normally. -/
theorem bind_of_ok {x : CrashM σ δ α} {s s₁ : σ} {a : α} (h : x s = .ok a s₁)
    (f : α → CrashM σ δ β) : (x >>= f) s = f a s₁ := by
  show (match x s with
    | .ok a s₁ => f a s₁
    | .powerLoss d => .powerLoss d) = f a s₁
  rw [h]

/-- Nothing follows a part that loses power. -/
theorem bind_of_powerLoss {x : CrashM σ δ α} {s : σ} {d : δ} (h : x s = .powerLoss d)
    (f : α → CrashM σ δ β) : (x >>= f) s = .powerLoss d := by
  show (match x s with
    | .ok a s₁ => f a s₁
    | .powerLoss d => .powerLoss d) = .powerLoss d
  rw [h]

/-- A sequence ends normally if and only if both of its parts do. -/
theorem bind_eq_ok {x : CrashM σ δ α} {f : α → CrashM σ δ β} {s s' : σ} {b : β} :
    (x >>= f) s = .ok b s' ↔ ∃ a s₁, x s = .ok a s₁ ∧ f a s₁ = .ok b s' := by
  show (match x s with
    | .ok a s₁ => f a s₁
    | .powerLoss d => .powerLoss d) = Outcome.ok b s' ↔ _
  cases x s with
  | ok a s₁ =>
    constructor
    · intro h
      exact ⟨a, s₁, rfl, h⟩
    · rintro ⟨a', s₂, heq, h⟩
      cases heq
      exact h
  | powerLoss d =>
    constructor
    · intro h
      cases h
    · rintro ⟨a, s₁, heq, -⟩
      cases heq

end WODrive.Crash
