import WODrive.Nvm.Runs

/-!
# What the calls address

`Within R` holds of code whose flash operations address nothing but `R`, whatever the
HAL reports for them. Then the rest of the flash is as before (`Within.frame`), at any
point at which an operation fails. `KeepsVars` holds of code that leaves the driver's
variables alone.

The rules follow the code: one for each way of putting it together, and with these one
lemma for each function.
-/

namespace WODrive.Nvm

open Crash Nor

/-! ## The flash operations, whatever the HAL reports -/

/-- A program operation programs as many bytes as it is given, or loses power. -/
theorem halFlashProgram_spec (addr : Nat) (bytes : List (BitVec 8)) (s : NvmState) :
    (halFlashProgram addr bytes s).Sat
      (fun _ s' => ∃ done hal, done.length = bytes.length ∧
        s' = { s with flash := program s.flash addr done, hal := hal })
      (fun d => d = s.flash) := by
  unfold halFlashProgram
  cases hhal : s.hal with
  | nil => exact ⟨bytes, [], rfl, by simp [← hhal]⟩
  | cons r hal =>
    cases r with
    | ok => exact ⟨bytes, hal, rfl, rfl⟩
    | failure code residue =>
      exact ⟨_, hal, by rw [List.length_map, List.length_zipIdx], rfl⟩
    | powerLoss => rfl

/-- An erase leaves the flash outside the sector alone, and its status is `HAL_OK` only if
it did not fail. -/
theorem halFlashErase_spec (sector : Fin 2) (s : NvmState) :
    (halFlashErase sector s).Sat
      (fun status s' =>
        (status = .ok → ∀ code residue hal, s.hal ≠ .failure code residue :: hal) ∧
        ∃ flash hal, s' = { s with flash := flash, hal := hal } ∧
          ∀ a, ¬ (base sector ≤ a ∧ a < base sector + sectorSize) → flash a = s.flash a)
      (fun d => d = s.flash) := by
  unfold halFlashErase
  cases hhal : s.hal with
  | nil =>
    refine ⟨(fun _ _ _ _ h => by cases h), Nor.erase s.flash (base sector) sectorSize, [], ?_,
      fun a ha => if_neg ha⟩
    simp [← hhal]
  | cons r hal =>
    cases r with
    | ok => exact ⟨(fun _ _ _ _ h => by cases h), _, hal, rfl, fun a ha => if_neg ha⟩
    | failure code residue =>
      exact ⟨(fun h => by cases h), _, hal, rfl, fun a ha => if_neg ha⟩
    | powerLoss => rfl

/-! ## Footprints -/

/-- Code whose flash operations, from the state `s` on, address only `R`. -/
inductive Within (R : Nat → Prop) : {α : Type} → NvmM α → NvmState → Prop where
  | ram {α : Type} {x : NvmM α} (s : NvmState)
      (h : ∀ s, ∃ a s', x s = .ok a s' ∧ s'.flash = s.flash ∧ s'.hal = s.hal) : Within R x s
  | program {addr : Nat} {bytes : List (BitVec 8)} (s : NvmState)
      (h : ∀ i < bytes.length, R (addr + i)) : Within R (halFlashProgram addr bytes) s
  | erase {sector : Fin 2} (s : NvmState) (h : ∀ i < sectorSize, R (base sector + i)) :
      Within R (halFlashErase sector) s
  | bind {α β : Type} {x : NvmM α} {f : α → NvmM β} {s : NvmState} (hx : Within R x s)
      (hf : ∀ a s', x s = .ok a s' → Within R (f a) s') : Within R (x >>= f) s

namespace Within

variable {R : Nat → Prop} {α β : Type} {x : NvmM α} {s : NvmState}

theorem pure (a : α) (s : NvmState) : Within R (Pure.pure a : NvmM α) s :=
  .ram s fun s => ⟨a, s, rfl, rfl, rfl⟩

theorem get {f : NvmState → NvmM β} (h : Within R (f s) s) : Within R (MonadState.get >>= f) s :=
  .bind (.ram s fun s => ⟨s, s, rfl, rfl, rfl⟩) fun a s' hok => by
    cases hok
    exact h

theorem modify {g : NvmState → NvmState} {f : PUnit → NvmM β}
    (hg : ∀ s, (g s).flash = s.flash ∧ (g s).hal = s.hal) (h : Within R (f ⟨⟩) (g s)) :
    Within R (MonadState.modifyGet (fun s => (⟨⟩, g s)) >>= f) s :=
  .bind (.ram s fun s => ⟨⟨⟩, g s, rfl, hg s⟩) fun a s' hok => by
    cases hok
    exact h

theorem ite {p : Prop} [Decidable p] {y : NvmM α} (hx : p → Within R x s)
    (hy : ¬ p → Within R y s) : Within R (if p then x else y) s := by
  split
  next h => exact hx h
  next h => exact hy h

/-- Code that goes on only if a part of it has returned 0. -/
theorem check {x rest : NvmM Int} (hx : Within R x s)
    (hrest : ∀ s', x s = .ok 0 s' → Within R rest s') :
    Within R (do
      let err ← x
      if err ≠ 0 then return err else rest) s := by
  refine .bind hx fun err s' hok => .ite (fun _ => .pure err s') fun herr => ?_
  obtain rfl : err = 0 := not_not.mp herr
  exact hrest s' hok

/-- Code that goes on only if a flash operation did not fail. -/
theorem orFail {x : NvmM HalStatus} {rest : NvmM Int} (hx : Within R x s)
    (hrest : ∀ s', x s = .ok .ok s' → Within R rest s') : Within R (Nvm.orFail x rest) s := by
  refine .bind hx fun status s' hok => ?_
  cases status with
  | ok => exact hrest s' hok
  | failed code => exact .pure code s'

theorem mono {R' : Nat → Prop} (h : Within R x s) (hR : ∀ a, R a → R' a) : Within R' x s := by
  induction h with
  | ram s h => exact .ram s h
  | program s h => exact .program s fun i hi => hR _ (h i hi)
  | erase s h => exact .erase s fun i hi => hR _ (h i hi)
  | bind _ _ ihx ihf => exact .bind ihx ihf

/-- What the operations do not address stays as it is. -/
theorem frame (h : Within R x s) : (x s).Sat
    (fun _ s' => ∀ addr, ¬ R addr → s'.flash addr = s.flash addr)
    (fun d => ∀ addr, ¬ R addr → d addr = s.flash addr) := by
  induction h with
  | ram s h =>
    obtain ⟨a, s', heq, hflash, -⟩ := h s
    rw [heq]
    exact fun addr _ => by rw [hflash]
  | program s h =>
    rename_i addr bytes
    refine (halFlashProgram_spec addr bytes s).mono ?_ fun d hd a _ => congrFun hd a
    rintro r s' ⟨done, hal, hdone, rfl⟩ a ha
    refine program_outside ?_
    by_contra hin
    have hR := h (a - addr) (by omega)
    rw [Nat.add_sub_cancel' (by omega)] at hR
    exact ha hR
  | erase s h =>
    rename_i sector
    refine (halFlashErase_spec sector s).mono ?_ fun d hd a _ => congrFun hd a
    rintro r s' ⟨-, flash, hal, rfl, hflash⟩ a ha
    refine hflash a ?_
    rintro ⟨h1, h2⟩
    have hR := h (a - base sector) (by omega)
    rw [Nat.add_sub_cancel' h1] at hR
    exact ha hR
  | bind hx hf ihx ihf =>
    rename_i x f s
    rw [sat_bind]
    cases hxs : x s with
    | ok a s' =>
      rw [hxs] at ihx
      refine (ihf a s' hxs).mono (fun b s'' h addr ha => ?_) fun d h addr ha => ?_
      · exact (h addr ha).trans (ihx addr ha)
      · exact (h addr ha).trans (ihx addr ha)
    | powerLoss d =>
      rw [hxs] at ihx
      exact ihx

end Within

/-! ## The functions of the driver -/

section

variable {R : Nat → Prop} {sector : Fin 2}

/-- The bytes of the table from field `4 * q` on, for `count` fields. -/
theorem programStates_within (states mask : BitVec 8) (q count : Nat) (s : NvmState)
    (h : ∀ p, q ≤ p → 4 * p < 4 * q + count → R (base sector + p)) :
    Within R (programStates sector states mask (4 * q) count) s := by
  have hq : (4 * q) >>> 2 = q := by
    rw [Nat.shiftRight_eq_div_pow]
    omega
  have hone : count ≠ 0 → ∀ i < 1, R (base sector + q + i) := by
    intro hcount i hi
    rw [Nat.lt_one_iff.mp hi]
    exact h q (Nat.le_refl _) (by omega)
  induction count using Nat.strong_induction_on generalizing q mask s with
  | _ count ih =>
  by_cases hc : count < 4
  · rw [programStates_of_lt hc, hq]
    exact .ite (fun h0 => .orFail (.program s (hone h0)) fun s' _ => .pure 0 s')
      fun _ => .pure 0 s
  · obtain ⟨rest, rfl⟩ := Nat.exists_eq_add_of_le' (Nat.not_lt.mp hc)
    rw [programStates, hq]
    refine .orFail (.program s (hone (by omega))) fun s' _ => ?_
    have hrest : ∀ p, q + 1 ≤ p → 4 * p < 4 * (q + 1) + rest → R (base sector + p) :=
      fun p hp hlt => h p (by omega) (by omega)
    refine ih rest (by omega) 0 (q + 1) s' hrest (by rw [Nat.shiftRight_eq_div_pow]; omega) ?_
    intro h0 i hi
    rw [Nat.lt_one_iff.mp hi]
    exact hrest (q + 1) (Nat.le_refl _) (by omega)

/-- Marking fields addresses the allocation table of the sector. -/
theorem setAllocationState_within (index count : Nat) (state : FieldState) (s : NvmState)
    (hfit : index + count < 2 ^ 32)
    (h : ∀ p, 4 * p < nData → R (base sector + p)) :
    Within R (setAllocationState sector index count state) s := by
  refine .ite (fun _ => .pure _ s) fun _ => .ite (fun _ => .pure _ s) fun hlt => ?_
  rw [u32_of_lt hfit] at hlt
  have hdiv : index - index % 4 = 4 * (index / 4) := by omega
  rw [and_three, hdiv]
  exact programStates_within _ _ _ _ s fun p _ hp => h p (by omega)

theorem eraseSector_within (s : NvmState) (h : ∀ i < sectorSize, R (base sector + i)) :
    Within R (eraseSector sector) s :=
  .orFail (.erase s h) fun _ _ => .modify (fun _ => ⟨rfl, rfl⟩) (.pure 0 _)

theorem writeEnd_within (dest : Nat) (data : List (BitVec 8)) (offset : Nat) (s : NvmState)
    (hlt : dest + offset + data.length < 2 ^ 32)
    (h : ∀ i < data.length, R (dest + offset + i)) : Within R (writeEnd dest offset data) s := by
  induction data generalizing offset s with
  | nil => exact .pure 0 s
  | cons b data ih =>
    rw [List.length_cons] at hlt h
    rw [writeEnd, u32_of_lt (by omega)]
    refine .orFail (.program s fun i hi => h i ?_) fun s' _ => ih (offset + 1) s' (by omega) ?_
    · rw [List.length_singleton] at hi
      omega
    · intro i hi
      have hnext := h (i + 1) (by omega)
      rwa [show dest + (offset + 1) + i = dest + offset + (i + 1) by omega]

theorem writeWords_within (dest : Nat) : ∀ (data : List (BitVec 8)) (offset : Nat)
    (s : NvmState), dest + offset + data.length < 2 ^ 32 →
      (∀ i < data.length, R (dest + offset + i)) → Within R (writeWords dest offset data) s
  | b0 :: b1 :: b2 :: b3 :: data, offset, s, hlt, h => by
    simp only [List.length_cons] at hlt h
    rw [writeWords, u32_of_lt (by omega)]
    refine .orFail (.program s fun i hi => h i ?_) fun s' _ =>
      writeWords_within dest data (offset + 4) s' (by omega) ?_
    · simp only [List.length_cons, List.length_nil] at hi
      omega
    · intro i hi
      have hnext := h (i + 4) (by omega)
      rwa [show dest + (offset + 4) + i = dest + offset + (i + 4) by omega]
  | [], offset, s, hlt, h => writeEnd_within dest [] offset s hlt h
  | [b0], offset, s, hlt, h => writeEnd_within dest [b0] offset s hlt h
  | [b0, b1], offset, s, hlt, h => writeEnd_within dest [b0, b1] offset s hlt h
  | [b0, b1, b2], offset, s, hlt, h => writeEnd_within dest [b0, b1, b2] offset s hlt h

theorem writeStart_within (dest : Nat) (data : List (BitVec 8)) (offset : Nat) (s : NvmState)
    (hlt : dest + offset + data.length < 2 ^ 32)
    (h : ∀ i < data.length, R (dest + offset + i)) : Within R (writeStart dest offset data) s := by
  induction data generalizing offset s with
  | nil => exact writeWords_within dest [] offset s hlt h
  | cons b data ih =>
    have hlt' := hlt
    have h' := h
    rw [List.length_cons] at hlt' h'
    rw [writeStart]
    refine .ite (fun _ => ?_) fun _ => writeWords_within dest (b :: data) offset s hlt h
    rw [u32_of_lt (by omega)]
    refine .orFail (.program s fun i hi => h' i ?_) fun s' _ => ih (offset + 1) s' (by omega) ?_
    · rw [List.length_singleton] at hi
      omega
    · intro i hi
      have hnext := h' (i + 1) (by omega)
      rwa [show dest + (offset + 1) + i = dest + offset + (i + 1) by omega]

end

/-! ## The variables -/

/-- The variables are the same; the flash may not be. -/
def SameVars (s s' : NvmState) : Prop :=
  ∃ flash hal, s' = { s with flash := flash, hal := hal }

theorem SameVars.refl (s : NvmState) : SameVars s s := ⟨s.flash, s.hal, rfl⟩

theorem SameVars.trans {s s' s'' : NvmState} (h : SameVars s s') (h' : SameVars s' s'') :
    SameVars s s'' := by
  obtain ⟨flash, hal, rfl⟩ := h
  obtain ⟨flash', hal', rfl⟩ := h'
  exact ⟨flash', hal', rfl⟩

/-- Code that changes the flash only, whatever the HAL reports. -/
def KeepsVars {α : Type} (x : NvmM α) : Prop :=
  ∀ s, (x s).Sat (fun _ s' => SameVars s s') (fun _ => True)

theorem keepsVars_pure {α : Type} (a : α) : KeepsVars (pure a : NvmM α) := SameVars.refl

theorem keepsVars_ite {α : Type} {p : Prop} [Decidable p] {x y : NvmM α} (hx : KeepsVars x)
    (hy : KeepsVars y) : KeepsVars (if p then x else y) := by
  split
  · exact hx
  · exact hy

theorem keepsVars_orFail {x : NvmM HalStatus} {rest : NvmM Int} (hx : KeepsVars x)
    (hrest : KeepsVars rest) : KeepsVars (orFail x rest) := by
  intro s
  rw [sat_orFail]
  refine (hx s).mono (fun status s' hsame => ⟨fun _ => ?_, fun _ _ => hsame⟩) fun _ h => h
  exact (hrest s').mono (fun _ _ h => hsame.trans h) fun _ h => h

theorem halFlashProgram_keepsVars (addr : Nat) (bytes : List (BitVec 8)) :
    KeepsVars (halFlashProgram addr bytes) := by
  intro s
  refine (halFlashProgram_spec addr bytes s).mono ?_ fun _ _ => trivial
  rintro r s' ⟨done, hal, -, rfl⟩
  exact ⟨_, hal, rfl⟩

theorem halFlashErase_keepsVars (sector : Fin 2) : KeepsVars (halFlashErase sector) := by
  intro s
  refine (halFlashErase_spec sector s).mono ?_ fun _ _ => trivial
  rintro r s' ⟨-, flash, hal, rfl, -⟩
  exact ⟨flash, hal, rfl⟩

theorem programStates_keepsVars (sector : Fin 2) (states mask : BitVec 8) (index count : Nat) :
    KeepsVars (programStates sector states mask index count) := by
  induction count using Nat.strong_induction_on generalizing index mask with
  | _ count ih =>
  by_cases hc : count < 4
  · rw [programStates_of_lt hc]
    exact keepsVars_ite (keepsVars_orFail (halFlashProgram_keepsVars _ _) (keepsVars_pure 0))
      (keepsVars_pure 0)
  · obtain ⟨rest, rfl⟩ := Nat.exists_eq_add_of_le' (Nat.not_lt.mp hc)
    rw [programStates]
    exact keepsVars_orFail (halFlashProgram_keepsVars _ _) (ih rest (by omega) _ _)

theorem writeEnd_keepsVars (dest : Nat) (data : List (BitVec 8)) (offset : Nat) :
    KeepsVars (writeEnd dest offset data) := by
  induction data generalizing offset with
  | nil => exact keepsVars_pure 0
  | cons b data ih => exact keepsVars_orFail (halFlashProgram_keepsVars _ _) (ih _)

theorem writeWords_keepsVars (dest : Nat) : ∀ (data : List (BitVec 8)) (offset : Nat),
    KeepsVars (writeWords dest offset data)
  | _ :: _ :: _ :: _ :: data, _ =>
    keepsVars_orFail (halFlashProgram_keepsVars _ _) (writeWords_keepsVars dest data _)
  | [], offset => writeEnd_keepsVars dest [] offset
  | [b0], offset => writeEnd_keepsVars dest [b0] offset
  | [b0, b1], offset => writeEnd_keepsVars dest [b0, b1] offset
  | [b0, b1, b2], offset => writeEnd_keepsVars dest [b0, b1, b2] offset

theorem writeStart_keepsVars (dest : Nat) (data : List (BitVec 8)) (offset : Nat) :
    KeepsVars (writeStart dest offset data) := by
  induction data generalizing offset with
  | nil => exact writeWords_keepsVars dest [] offset
  | cons b data ih =>
    exact keepsVars_ite (keepsVars_orFail (halFlashProgram_keepsVars _ _) (ih _))
      (writeWords_keepsVars dest (b :: data) offset)

/-- `NVM_write` changes the flash only. -/
theorem nvmWrite_keepsVars (offset : Nat) (data : List (BitVec 8)) :
    KeepsVars (nvmWrite offset data) := by
  intro s
  unfold nvmWrite
  rw [sat_bind, sat_get]
  exact keepsVars_ite (keepsVars_pure _) (writeStart_keepsVars _ _ _) s

end WODrive.Nvm
