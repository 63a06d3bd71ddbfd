import Mathlib.Data.List.Range
import Mathlib.Data.List.Forall2

/-!
# Consecutive numbers

A list whose items have the numbers from `start` on, one after the other
(`Numbered`), as a pass with a counter gives them. Such lists are put together end to end,
and a list whose items are paired with those of a numbered one, by their numbers, is
numbered, too.

- `Numbered.unique`: every number of the range is that of exactly one item;
- `Numbered.unique_pair`: and of exactly one pair.
-/

namespace WODrive

variable {α β : Type} {id : α → Nat} {id' : β → Nat}

/-- The items have consecutive numbers. -/
def Numbered (id : α → Nat) (start : Nat) (items : List α) : Prop :=
  items.map id = List.range' start items.length

namespace Numbered

theorem nil (id : α → Nat) (start : Nat) : Numbered id start [] := rfl

theorem cons {start : Nat} {a : α} {items : List α} (ha : id a = start)
    (h : Numbered id (start + 1) items) : Numbered id start (a :: items) := by
  rw [Numbered, List.map_cons, h, List.length_cons, List.range'_succ, ha]

theorem append {start : Nat} {items items' : List α} (h : Numbered id start items)
    (h' : Numbered id (start + items.length) items') : Numbered id start (items ++ items') := by
  have hjoin : List.range' start items.length ++ List.range' (start + items.length) items'.length =
      List.range' start (items.length + items'.length) := List.range'_append_1
  rw [Numbered, List.map_append, h, h', List.length_append, hjoin]

/-- Items made from the items of a list and their places. -/
theorem zipIdx {γ : Type} (f : γ × Nat → α) (start : Nat) (items : List γ)
    (hf : ∀ c i, id (f (c, i)) = start + i) : Numbered id start (items.zipIdx.map f) := by
  have hmap : items.zipIdx.map (id ∘ f) = (items.zipIdx.map Prod.snd).map (start + ·) := by
    rw [List.map_map]
    exact List.map_congr_left fun p _ => hf p.1 p.2
  rw [Numbered, List.map_map, hmap, List.zipIdx_map_snd, List.map_add_range', List.length_map,
    List.length_zipIdx, Nat.add_zero]

theorem mem_range {start : Nat} {items : List α} (h : Numbered id start items) :
    ∀ a ∈ items, start ≤ id a ∧ id a < start + items.length := by
  intro a ha
  have hmem : id a ∈ List.range' start items.length := by
    rw [← h]
    exact List.mem_map_of_mem ha
  exact List.mem_range'_1.mp hmem

/-- **Every number is that of exactly one item.** -/
theorem unique {start : Nat} {items : List α} (h : Numbered id start items) {i : Nat}
    (hle : start ≤ i) (hlt : i < start + items.length) :
    ∃ a, items.filter (id · = i) = [a] := by
  obtain ⟨a, ha, rfl⟩ : ∃ a ∈ items, id a = i := by
    have hmem : i ∈ items.map id := by
      rw [h]
      exact List.mem_range'_1.mpr ⟨hle, hlt⟩
    exact List.mem_map.mp hmem
  have hnodup : (items.map id).Nodup := by
    rw [h]
    exact List.nodup_range'
  obtain ⟨before, after, rfl⟩ := List.append_of_mem ha
  rw [List.map_append, List.map_cons] at hnodup
  obtain ⟨-, hafter, hbefore⟩ := List.nodup_append.mp hnodup
  have hnone : ∀ b ∈ before, ¬ id b = id a := fun b hb =>
    hbefore (id b) (List.mem_map_of_mem hb) (id a) List.mem_cons_self
  have hnone' : ∀ b ∈ after, ¬ id b = id a := fun b hb heq =>
    (List.nodup_cons.mp hafter).1 (heq ▸ List.mem_map_of_mem hb)
  refine ⟨a, ?_⟩
  rw [List.filter_append, List.filter_cons_of_pos (by simp),
    List.filter_eq_nil_iff.mpr (by simpa using hnone),
    List.filter_eq_nil_iff.mpr (by simpa using hnone'), List.nil_append]

/-- The items of a second list that are paired with those of a numbered one. -/
theorem paired {R : α → β → Prop} (hid : ∀ a b, R a b → id' b = id a) {start : Nat}
    {items : List α} {items' : List β} (hpairs : List.Forall₂ R items items')
    (h : Numbered id start items) : Numbered id' start items' := by
  have hmap : items'.map id' = items.map id := by
    clear h
    induction hpairs with
    | nil => rfl
    | cons hab _ ih => rw [List.map_cons, List.map_cons, hid _ _ hab, ih]
  rw [Numbered, hmap, h, hpairs.length_eq]

/-- Every number is that of exactly one pair. -/
theorem unique_pair {R : α → β → Prop} (hid : ∀ a b, R a b → id' b = id a) {start : Nat}
    {items : List α} {items' : List β} (hpairs : List.Forall₂ R items items')
    (h : Numbered id start items) {i : Nat} (hle : start ≤ i)
    (hlt : i < start + items.length) :
    ∃ a b, items.filter (id · = i) = [a] ∧ items'.filter (id' · = i) = [b] ∧ R a b := by
  obtain ⟨a, ha⟩ := h.unique hle hlt
  have hfilter : List.Forall₂ R (items.filter (id · = i)) (items'.filter (id' · = i)) :=
    List.rel_filter (fun a b hab => by simp [hid a b hab]) hpairs
  rw [ha] at hfilter
  obtain ⟨b, rest, hab, hrest, hb⟩ := List.forall₂_cons_left_iff.mp hfilter
  obtain rfl := List.forall₂_nil_left_iff.mp hrest
  exact ⟨a, b, ha, hb, hab⟩

end Numbered

end WODrive
