import Mathlib.Data.List.Induction
import Mathlib.Logic.Function.Basic

/-!
# Runs of a step relation

A system is a relation `step s e t`: in state `s` the event `e` may lead to `t`. A
`Run` is a finite sequence of such steps, in any order the relation allows.

- `Run.invariant`: what every step keeps holds in every state that a run reaches;
- `Guarded`: the steps whose events meet a condition, for results that hold in the
  runs all of whose steps do;
- `Run.split`, `Run.append`: runs and concatenation of their events;
- `Run.foldl`, `Run.foldlM`: a system that a function steps has a run for its events;
- `update_iff`, `update_cases`: where the state of each of many parties is a value of a
  function, and one of them moves on.
-/

namespace WODrive

variable {σ ε : Type*}

/-- The runs from `s`: the events and the state they lead to. -/
inductive Run (step : σ → ε → σ → Prop) (s : σ) : List ε → σ → Prop where
  | nil : Run step s [] s
  | snoc {es : List ε} {t u : σ} {e : ε} (h : Run step s es t) (he : step t e u) :
      Run step s (es ++ [e]) u

/-- The steps at which a condition on the state and the event holds. -/
def Guarded (ok : σ → ε → Prop) (step : σ → ε → σ → Prop) : σ → ε → σ → Prop :=
  fun s e t => ok s e ∧ step s e t

namespace Run

variable {step step' : σ → ε → σ → Prop} {s t u : σ} {es fs : List ε} {e : ε}

/-- What holds initially and is kept by every step holds in every reached state. -/
theorem invariant {I : σ → Prop} (h : Run step s es t) (hinit : I s)
    (hstep : ∀ t e u, I t → step t e u → I u) : I t := by
  induction h with
  | nil => exact hinit
  | snoc _ he ih => exact hstep _ _ _ ih he

theorem mono (h : Run step s es t) (hstep : ∀ s e t, step s e t → step' s e t) :
    Run step' s es t := by
  induction h with
  | nil => exact .nil
  | snoc _ he ih => exact .snoc ih (hstep _ _ _ he)

theorem append (h : Run step s es t) (h' : Run step t fs u) : Run step s (es ++ fs) u := by
  induction h' with
  | nil =>
    rw [List.append_nil]
    exact h
  | snoc _ he ih =>
    rw [← List.append_assoc]
    exact .snoc ih he

theorem single (he : step s e t) : Run step s [e] t :=
  show Run step s ([] ++ [e]) t from .snoc .nil he

theorem cons (he : step s e t) (h : Run step t es u) : Run step s (e :: es) u :=
  (single he).append h

/-- The last step of a run. -/
theorem of_snoc (h : Run step s (es ++ [e]) u) : ∃ t, Run step s es t ∧ step t e u := by
  generalize hfs : es ++ [e] = fs at h
  cases h with
  | nil =>
    simp at hfs
  | snoc h he =>
    obtain ⟨rfl, hsingle⟩ := List.append_inj' hfs rfl
    cases hsingle
    exact ⟨_, h, he⟩

/-- A run of two lists of events passes through a state between them. -/
theorem split (h : Run step s (es ++ fs) u) : ∃ t, Run step s es t ∧ Run step t fs u := by
  induction fs using List.reverseRecOn generalizing u with
  | nil =>
    rw [List.append_nil] at h
    exact ⟨u, h, .nil⟩
  | append_singleton fs e ih =>
    rw [← List.append_assoc] at h
    obtain ⟨v, hv, he⟩ := of_snoc h
    obtain ⟨t, h1, h2⟩ := ih hv
    exact ⟨t, h1, .snoc h2 he⟩

/-- The run of a system whose steps a function computes. -/
theorem foldl (f : σ → ε → σ) (s : σ) (es : List ε) :
    Run (fun s e t => t = f s e) s es (es.foldl f s) := by
  induction es using List.reverseRecOn with
  | nil => exact .nil
  | append_singleton es e ih =>
    rw [List.foldl_append]
    exact .snoc ih rfl

/-- A run of a system whose steps a function computes that may have no result. -/
theorem foldlM {f : σ → ε → Option σ} (h : es.foldlM f s = some t) :
    Run (fun s e t => f s e = some t) s es t := by
  induction es generalizing s with
  | nil =>
    cases h
    exact .nil
  | cons e es ih =>
    rw [List.foldlM_cons] at h
    obtain ⟨u, hu, hrest⟩ := Option.bind_eq_some_iff.mp h
    exact .cons hu (ih hrest)

/-- Such a run, from what is computed of the state that it reaches. -/
theorem exists_foldlM {α : Type*} {f : σ → ε → Option σ} {g : σ → α} {x : α}
    (h : (es.foldlM f s).map g = some x) :
    ∃ t, Run (fun s e t => f s e = some t) s es t ∧ g t = x := by
  obtain ⟨t, ht, rfl⟩ := Option.map_eq_some_iff.mp h
  exact ⟨t, foldlM ht, rfl⟩

end Run

section Parties

variable {ι γ : Type*} [DecidableEq ι] {f : ι → γ} {i j : ι} {x : γ}

theorem update_iff (P : γ → Prop) :
    P (Function.update f i x j) ↔ j = i ∧ P x ∨ j ≠ i ∧ P (f j) := by
  by_cases h : j = i
  · rw [h, Function.update_self]
    simp
  · rw [Function.update_of_ne h]
    simp [h]

theorem update_cases {y : γ} (h : Function.update f i x j = y) :
    j = i ∧ x = y ∨ j ≠ i ∧ f j = y :=
  (update_iff (· = y)).mp h

end Parties

end WODrive
