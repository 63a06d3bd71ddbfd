import Mathlib.Logic.Basic

/-!
# A register that survives power losses

What a store that holds one value at a time promises, as a condition on what can be
observed of it: writes that report success or failure, and the value that is read after
each restart. The value may change at a write that reports success; if the power was
lost during a write, that write may have taken effect or not, which the next restart
decides for good (`Atomic`).

`observe` lists the observations of a system that takes events, and `atomic_of_step` is
the induction by which a system is shown to be such a register: one step of the system,
from a state that represents the current value.
-/

namespace WODrive.Register

/-- One observation of the store. -/
inductive Obs (β : Type*) where
  /-- a write of the value reported success -/
  | stored (v : β)
  /-- a write reported failure -/
  | refused
  /-- the value read after a restart; `pending` is the write during which the power was
  lost, if it was lost during one -/
  | restarted (pending : Option β) (v : β)

variable {β σ ε : Type*}

namespace Obs

/-- The observation is one that a register with the value `b` allows. -/
def Allowed (b : β) : Obs β → Prop
  | stored _ => True
  | refused => True
  | restarted pending v => v = b ∨ pending = some v

/-- The value of the register after the observation. -/
def value (b : β) : Obs β → β
  | stored v => v
  | refused => b
  | restarted _ v => v

@[simp] theorem value_restarted (b : β) (pending : Option β) (v : β) :
    (restarted pending v).value b = v := rfl

end Obs

/-- The observations are those of a register with the initial value `b`. -/
def Atomic : β → List (Obs β) → Prop
  | _, [] => True
  | b, o :: os => o.Allowed b ∧ Atomic (o.value b) os

/-- The observations a system makes of itself while it takes events. -/
def observe (step : σ → ε → Obs β × σ) : σ → List ε → List (Obs β)
  | _, [] => []
  | s, e :: es => (step s e).1 :: observe step (step s e).2 es

/-- Every event meets the condition in the state in which it is taken. -/
def Safe (ok : σ → ε → Prop) (step : σ → ε → Obs β × σ) : σ → List ε → Prop
  | _, [] => True
  | s, e :: es => ok s e ∧ Safe ok step (step s e).2 es

/-- The state a system is in after events. -/
def final (step : σ → ε → Obs β × σ) : σ → List ε → σ
  | s, [] => s
  | s, e :: es => final step (step s e).2 es

theorem observe_append (step : σ → ε → Obs β × σ) (es fs : List ε) : ∀ s : σ,
    observe step s (es ++ fs) = observe step s es ++ observe step (final step s es) fs := by
  induction es with
  | nil =>
    intro s
    rfl
  | cons e es ih =>
    intro s
    exact congrArg ((step s e).1 :: ·) (ih (step s e).2)

/-- Whatever was observed before, the rest is that of a register. -/
theorem exists_atomic_of_append {os os' : List (Obs β)} :
    ∀ {b : β}, Atomic b (os ++ os') → ∃ b', Atomic b' os' := by
  induction os with
  | nil =>
    intro b h
    exact ⟨b, h⟩
  | cons o os ih =>
    intro b h
    exact ih h.2

/-- A system is a register if every step keeps the relation between its state and the
current value, and makes an observation the value allows. -/
theorem atomic_of_step {ok : σ → ε → Prop} {step : σ → ε → Obs β × σ} {R : σ → β → Prop}
    (hstep : ∀ s b e, R s b → ok s e →
      (step s e).1.Allowed b ∧ R (step s e).2 ((step s e).1.value b)) :
    ∀ (es : List ε) (s : σ) (b : β), R s b → Safe ok step s es → Atomic b (observe step s es) := by
  intro es
  induction es with
  | nil =>
    intro s b _ _
    exact trivial
  | cons e es ih =>
    rintro s b hR ⟨hok, hsafe⟩
    obtain ⟨hallowed, hR'⟩ := hstep s b e hR hok
    exact ⟨hallowed, ih _ _ hR' hsafe⟩

end WODrive.Register
