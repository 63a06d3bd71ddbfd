import WODrive.Nvm.Model

/-!
# Calls that see no flash error

A function gives up at the first flash operation that fails, and returns the error code of
the HAL. A code of 0 tells the caller that there was no error. If no failure has this code
(`Reported`), a call that returned 0 saw none: the HAL served all of its operations, and
the call does the same when the HAL has no failures in store at all
(`nvmStartWrite_faultless`, `nvmWrite_faultless`, `nvmCommit_faultless`). With this, what
is known of calls on working flash holds for the calls that return 0.
-/

namespace WODrive.Nvm

open Crash Nor

/-- The state, with a HAL whose operations succeed. -/
def NvmState.working (s : NvmState) : NvmState := { s with hal := [] }

@[simp] theorem working_index (s : NvmState) : s.working.index = s.index := rfl

@[simp] theorem working_readSector (s : NvmState) : s.working.readSector = s.readSector := rfl

@[simp] theorem working_nStagingArea (s : NvmState) :
    s.working.nStagingArea = s.nStagingArea := rfl

@[simp] theorem working_nValid (s : NvmState) : s.working.nValid = s.nValid := rfl

@[simp] theorem working_flash (s : NvmState) : s.working.flash = s.flash := rfl

@[simp] theorem working_hal (s : NvmState) : s.working.hal = [] := rfl

/-- `HAL_FLASH_GetError` tells of every operation that fails: none leaves the code 0. -/
def Reported (hal : List HalResult) : Prop :=
  ∀ code residue, HalResult.failure code residue ∈ hal → code ≠ 0

/-- A flash operation that ends with `HAL_TIMEOUT` and has not changed a bit. -/
def timedOut : HalResult := .failure 0 fun _ => BitVec.allOnes 8

theorem reported_nil : Reported [] := fun _ _ h => absurd h List.not_mem_nil

theorem Reported.of_append {used hal : List HalResult} (h : Reported (used ++ hal)) :
    Reported hal :=
  fun code residue hmem => h code residue (List.mem_append_right used hmem)

/-- The HAL has served all the operations of a code that led from `s` to `s'`. -/
def Served (s s' : NvmState) : Prop := ∃ used, s.hal = used ++ s'.hal ∧ ∀ r ∈ used, r = .ok

theorem Served.refl (s : NvmState) : Served s s := ⟨[], rfl, fun _ h => absurd h List.not_mem_nil⟩

theorem Served.trans {s s' s'' : NvmState} (h : Served s s') (h' : Served s' s'') :
    Served s s'' := by
  obtain ⟨used, heq, hok⟩ := h
  obtain ⟨used', heq', hok'⟩ := h'
  refine ⟨used ++ used', by rw [heq, heq', List.append_assoc], fun r hr => ?_⟩
  rcases List.mem_append.mp hr with hr | hr
  · exact hok r hr
  · exact hok' r hr

theorem Served.reported {s s' : NvmState} (h : Served s s') (hs : Reported s.hal) :
    Reported s'.hal := by
  obtain ⟨used, heq, -⟩ := h
  rw [heq] at hs
  exact hs.of_append

/-- A computation whose results that satisfy `ok` show that the HAL served it, as long as
the HAL tells of its failures; on working flash it ends in the same way. -/
def Faultless {α : Type} (ok : α → Prop) (x : NvmM α) : Prop :=
  ∀ s a s', Reported s.hal → ok a → x s = .ok a s' →
    Served s s' ∧ x s.working = .ok a s'.working

/-- The results of the driver's functions: 0 stands for success. -/
abbrev Faultless0 (x : NvmM Int) : Prop := Faultless (fun r => r = 0) x

section Rules

variable {α β : Type} {okA : α → Prop} {okB : β → Prop}

theorem faultless_pure (ok : α → Prop) (a : α) : Faultless ok (pure a) := by
  intro s a' s' _ _ heq
  cases heq
  exact ⟨.refl s, rfl⟩

theorem faultless_bind {x : NvmM α} {f : α → NvmM β} (hx : Faultless okA x)
    (hf : ∀ a, okA a → Faultless okB (f a))
    (hbad : ∀ a, ¬ okA a → ∀ s b s', f a s = .ok b s' → ¬ okB b) :
    Faultless okB (x >>= f) := by
  intro s b s' hs hb heq
  obtain ⟨a, s₁, hxs, hfs⟩ := bind_eq_ok.mp heq
  by_cases ha : okA a
  · obtain ⟨hserved, hwork⟩ := hx s a s₁ hs ha hxs
    obtain ⟨hserved', hwork'⟩ := hf a ha s₁ b s' (hserved.reported hs) hb hfs
    exact ⟨hserved.trans hserved', bind_eq_ok.mpr ⟨a, s₁.working, hwork, hwork'⟩⟩
  · exact absurd hb (hbad a ha s₁ b s' hfs)

/-- The driver's way to pass an error on. -/
theorem faultless_check {x rest : NvmM Int} (hx : Faultless0 x) (hrest : Faultless0 rest) :
    Faultless0 (do
      let err ← x
      if err ≠ 0 then return err else rest) := by
  refine faultless_bind hx (fun r hr => ?_) fun r hr s b s' heq => ?_
  · rw [if_neg (fun h => h hr)]
    exact hrest
  · rw [if_pos hr] at heq
    cases heq
    exact hr

/-- Code that reads the variables. -/
theorem faultless_get {f : NvmState → NvmM α} (hf : ∀ s, Faultless okA (f s))
    (hal : ∀ s, f s.working = f s) : Faultless okA (do
      let s ← get
      f s) := by
  intro s a s' hs ha heq
  refine ⟨(hf s s a s' hs ha heq).1, ?_⟩
  show f s.working s.working = _
  rw [hal s]
  exact (hf s s a s' hs ha heq).2

/-- Code that updates the variables. -/
theorem faultless_modify {g : NvmState → NvmState} {rest : NvmM α}
    (hrest : Faultless okA rest) (hg : ∀ s, (g s).hal = s.hal)
    (hal : ∀ s, g s.working = (g s).working) : Faultless okA (do
      modify g
      rest) := by
  intro s a s' hs ha heq
  have hs' : Reported (g s).hal := by rwa [hg s]
  obtain ⟨⟨used, hused, hok⟩, hwork⟩ := hrest (g s) a s' hs' ha heq
  refine ⟨⟨used, (hg s).symm.trans hused, hok⟩, ?_⟩
  show rest (g s.working) = _
  rw [hal s]
  exact hwork

theorem faultless_ite (p : Prop) [Decidable p] {x y : NvmM α} (hx : Faultless okA x)
    (hy : Faultless okA y) : Faultless okA (if p then x else y) := by
  by_cases hp : p
  · rw [if_pos hp]
    exact hx
  · rw [if_neg hp]
    exact hy

end Rules

/-! ## Flash operations -/

/-- What a flash operation does whose status is `HAL_OK`, and what its status is if it
failed. -/
def Tells (x : NvmM HalStatus) : Prop := ∀ s status s', x s = .ok status s' →
  status = .ok ∧ Served s s' ∧ x s.working = .ok .ok s'.working ∨
    ∃ code residue hal, status = .failed code ∧ s.hal = .failure code residue :: hal

theorem halFlashProgram_tells (addr : Nat) (bytes : List (BitVec 8)) :
    Tells (halFlashProgram addr bytes) := by
  intro s status s' heq
  rw [halFlashProgram] at heq
  split at heq
  · cases heq
    exact Or.inl ⟨rfl, .refl _, rfl⟩
  · next hal hhal =>
    cases heq
    exact Or.inl ⟨rfl, ⟨[.ok], hhal, by simp⟩, rfl⟩
  · next code residue hal hhal =>
    cases heq
    exact Or.inr ⟨_, residue, hal, rfl, hhal⟩
  · cases heq

theorem halFlashErase_tells (sector : Fin 2) : Tells (halFlashErase sector) := by
  intro s status s' heq
  rw [halFlashErase] at heq
  split at heq
  · cases heq
    exact Or.inl ⟨rfl, .refl _, rfl⟩
  · next hal hhal =>
    cases heq
    exact Or.inl ⟨rfl, ⟨[.ok], hhal, by simp⟩, rfl⟩
  · next code residue hal hhal =>
    cases heq
    exact Or.inr ⟨_, residue, hal, rfl, hhal⟩
  · cases heq

/-- A failed operation with a code other than 0 does not go unnoticed. -/
theorem faultless_orFail {x : NvmM HalStatus} {rest : NvmM Int} (hx : Tells x)
    (hrest : Faultless0 rest) : Faultless0 (orFail x rest) := by
  intro s r s' hs hr heq
  obtain ⟨status, s₁, hxs, hend⟩ := bind_eq_ok.mp heq
  rcases hx s status s₁ hxs with ⟨rfl, hserved, hwork⟩ | ⟨code, residue, hal, rfl, hhal⟩
  · obtain ⟨hserved', hwork'⟩ := hrest s₁ r s' (hserved.reported hs) hr hend
    exact ⟨hserved.trans hserved', bind_eq_ok.mpr ⟨.ok, s₁.working, hwork, hwork'⟩⟩
  · cases hend
    exact absurd hr (hs _ residue (by rw [hhal]; exact List.mem_cons_self))

theorem eraseSector_faultless (sector : Fin 2) : Faultless0 (eraseSector sector) :=
  faultless_orFail (halFlashErase_tells sector)
    (faultless_modify (faultless_pure _ 0) (fun _ => rfl) fun _ => rfl)

theorem programStates_faultless (sector : Fin 2) (states mask : BitVec 8) (index count : Nat) :
    Faultless0 (programStates sector states mask index count) := by
  induction mask, index, count using programStates.induct with
  | case1 mask index count ih =>
    rw [programStates]
    exact faultless_orFail (halFlashProgram_tells _ _) ih
  | case2 mask index count h hne =>
    rw [programStates, if_pos hne]
    · exact faultless_orFail (halFlashProgram_tells _ _) (faultless_pure _ 0)
    · exact h
  | case3 mask index count h hne =>
    rw [programStates, if_neg hne]
    · exact faultless_pure _ 0
    · exact h

theorem setAllocationState_faultless (sector : Fin 2) (index count : Nat) (state : FieldState) :
    Faultless0 (setAllocationState sector index count state) :=
  faultless_ite _ (faultless_pure _ _)
    (faultless_ite _ (faultless_pure _ _) (programStates_faultless _ _ _ _ _))

/-! ## The interface -/

theorem invalidateFields_faultless (target : Fin 2) (length : Nat) :
    Faultless0 (invalidateFields target length) :=
  faultless_get (fun _ => faultless_check (setAllocationState_faultless _ _ _ _)
    (faultless_modify (faultless_pure _ 0) (fun _ => rfl) fun _ => rfl)) fun _ => rfl

theorem nvmStartWrite_faultless (length : Nat) : Faultless0 (nvmStartWrite length) :=
  faultless_get (fun _ => faultless_ite _ (faultless_pure _ _) (faultless_ite _
    (faultless_check (eraseSector_faultless _) (invalidateFields_faultless _ _))
    (invalidateFields_faultless _ _))) fun _ => rfl

theorem writeEnd_faultless (dest : Nat) (data : List (BitVec 8)) (offset : Nat) :
    Faultless0 (writeEnd dest offset data) := by
  induction data generalizing offset with
  | nil => exact faultless_pure _ 0
  | cons b data ih => exact faultless_orFail (halFlashProgram_tells _ _) (ih (offset + 1))

theorem writeWords_faultless (dest : Nat) (offset : Nat) (data : List (BitVec 8)) :
    Faultless0 (writeWords dest offset data) := by
  induction offset, data using writeWords.induct with
  | case1 offset b0 b1 b2 b3 data ih =>
    rw [writeWords]
    exact faultless_orFail (halFlashProgram_tells _ _) ih
  | case2 offset data h =>
    rw [writeWords]
    · exact writeEnd_faultless _ _ _
    · exact h

theorem writeStart_faultless (dest : Nat) (data : List (BitVec 8)) (offset : Nat) :
    Faultless0 (writeStart dest offset data) := by
  induction data generalizing offset with
  | nil => exact writeWords_faultless _ _ _
  | cons b data ih =>
    exact faultless_ite _ (faultless_orFail (halFlashProgram_tells _ _) (ih (offset + 1)))
      (writeWords_faultless _ _ _)

theorem nvmWrite_faultless (offset : Nat) (data : List (BitVec 8)) :
    Faultless0 (nvmWrite offset data) :=
  faultless_get (fun _ => faultless_ite _ (faultless_pure _ _) (writeStart_faultless _ _ _))
    fun _ => rfl

theorem invalidateSector_faultless (readSector : Fin 2) :
    Faultless0 (invalidateSector readSector) := by
  refine faultless_get (fun _ => faultless_ite _ ?_ (eraseSector_faultless _)) fun _ => rfl
  refine faultless_bind (setAllocationState_faultless _ _ _ _)
    (fun r _ => faultless_modify (faultless_pure _ r) (fun _ => rfl) fun _ => rfl) ?_
  intro r hr s b s' heq
  cases heq
  exact hr

theorem nvmCommit_faultless : Faultless0 nvmCommit :=
  faultless_get (fun _ => faultless_check (setAllocationState_faultless _ _ _ _)
    (faultless_modify (invalidateSector_faultless _) (fun _ => rfl) fun _ => rfl)) fun _ => rfl

end WODrive.Nvm
