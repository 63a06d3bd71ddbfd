import WODrive.Nvm.Faults

/-!
# The readable window

`NVM_read` copies from the fields `[index - n_valid_, index)` of the read sector. They lie
in the data area as long as `n_valid_` is at most `index - n_reserved` (`Inside`).

Every function keeps this but `NVM_erase`, which moves the indices back to `n_reserved` and
forgets `n_valid_`: the window is inside after it if and only if there was nothing to read
before it. After that the subtraction wraps around, and `NVM_read` copies the allocation
table and what lies below the sector.
-/

namespace WODrive.Nvm

open Crash Nor

/-- The address from which `NVM_read` copies its `i`-th byte. -/
def copied (s : NvmState) (offset i : Nat) : Nat :=
  u32 (base s.readSector + 8 * subU32 (s.index s.readSector) s.nValid + offset + i)

theorem nvmRead_copied (s : NvmState) (offset length : Nat) : nvmRead s offset length =
    if u32 (offset + length) > s.nValid <<< 3 then none
    else some ((List.range length).map fun i => s.flash (copied s offset i)) := rfl

/-- The readable fields lie in the data area of the read sector. -/
def Inside (s : NvmState) : Prop := s.nValid ≤ s.index s.readSector - nReserved

instance (s : NvmState) : Decidable (Inside s) :=
  inferInstanceAs (Decidable (s.nValid ≤ s.index s.readSector - nReserved))

/-- Whatever range `NVM_read` accepts, it copies the data fields of the read sector only. -/
def ReadsData (s : NvmState) : Prop :=
  ∀ offset length, offset + length < 2 ^ 32 → nvmRead s offset length ≠ none → ∀ i < length,
    fieldAddr s.readSector nReserved ≤ copied s offset i ∧
      copied s offset i < fieldAddr s.readSector nData

/-- `NVM_erase` is only called while there is nothing to read. -/
def EraseUnread (s : NvmState) (e : Request × List HalResult) : Prop :=
  e.1 = .erase → s.nValid = 0

section

variable {s s' : NvmState}

theorem Inside.congr (h : Inside s) (hs : SameVars s s') : Inside s' := by
  obtain ⟨flash, hal, rfl⟩ := hs
  exact h

theorem Inside.startWrite {n : Nat} {r : Int} (h : Inside s) (hend : StartWriteFault s n r s') :
    Inside s' := by
  have hroom : Inside (room s n) := by
    rw [Inside, room_nValid, room_readSector, room_index_read]
    exact h
  cases hend with
  | refused _ hs => exact h.congr hs
  | emptied _ _ _ _ hs => exact hroom.congr hs
  | ok _ hs =>
    have hnew : Inside { room s n with nStagingArea := n } := hroom
    exact hnew.congr hs

theorem Inside.commit {r : Int} (hb : InBounds s) (h : Inside s) (hend : CommitFault s r s') :
    Inside s' := by
  cases hend with
  | refused _ hs => exact h.congr hs
  | done _ i _ _ hs =>
    have hnew : Inside ((flipped s s.flash 0).withIndex s.readSector i) :=
      flipped_nValid_le hb s.flash 0 i
    exact hnew.congr hs

/-- After `NVM_erase` the window is inside if and only if it is empty. -/
theorem inside_emptied_iff : Inside (emptied s) ↔ s.nValid = 0 := by
  show s.nValid ≤ nReserved - nReserved ↔ _
  rw [Nat.sub_self, Nat.le_zero]

theorem Booted.inside (h : Booted s) : Inside s := by
  have hlo := h.nValid.lo_le
  have hle := h.nValid_le
  show s.nValid ≤ s.index s.readSector - nReserved
  omega

theorem Inside.step {e : Request × List HalResult} (hb : Bounded s) (h : Inside s)
    (he : EraseUnread s e) (hstep : FaultStep s e s') : Inside s' := by
  obtain ⟨q, hal⟩ := e
  obtain ⟨r, hrun⟩ := hstep
  have hb' := (hb.withHal hal).inBounds
  have h' : Inside (s.withHal hal) := h
  cases request_fault hb' hrun with
  | init hboot => exact hboot.inside
  | startWrite hend => exact h'.startWrite hend
  | write hsame => exact h'.congr hsame
  | commit hend => exact h'.commit hb' hend
  | erase hsame => exact Inside.congr (inside_emptied_iff.mpr (he rfl)) hsame

/-- A window that is inside is what `NVM_read` copies from. -/
theorem Inside.readsData (hb : Bounded s) (h : Inside s) : ReadsData s := by
  intro offset length hlt haccept i hi
  have hge := hb.inBounds.nReserved_le s.readSector
  have hle := hb.inBounds.le_nData s.readSector
  have hbase := base_eq s.readSector
  have hsec := s.readSector.isLt
  rw [nvmRead_copied] at haccept
  have hrange : ¬ u32 (offset + length) > s.nValid <<< 3 := fun hgt => haccept (if_pos hgt)
  rw [u32_of_lt hlt, Nat.shiftLeft_eq] at hrange
  rw [Inside] at h
  rw [nReserved_eq] at *
  rw [nData_eq] at *
  rw [copied, subU32_of_le (by omega) (by omega), u32_of_lt (by omega), fieldAddr, fieldAddr]
  omega

theorem nvmGetMaxReadLength_eq_zero (hb : Bounded s) :
    nvmGetMaxReadLength s = 0 ↔ s.nValid = 0 := by
  have hle := hb.nValid_le
  rw [nData_eq] at hle
  rw [nvmGetMaxReadLength, Nat.shiftLeft_eq, u32_of_lt (by omega)]
  omega

/-- **The readable window stays in the data area** in every run in which `NVM_erase` is
only called while there is nothing to read, whatever the HAL reports. In any other run it
leaves the data area with the first such call: after `NVM_erase` the window is inside,
and nothing is readable, if and only if nothing was readable before. -/
theorem window_inside {flash : Mem} {es : List (Request × List HalResult)}
    (h : Run FaultStep (boot flash) es s) :
    (Run (Guarded EraseUnread FaultStep) (boot flash) es s → Inside s ∧ ReadsData s) ∧
      ∀ hal r s', nvmErase (s.withHal hal) = .ok r s' →
        (Inside s' ↔ s.nValid = 0) ∧ (nvmGetMaxReadLength s' = 0 ↔ s.nValid = 0) := by
  have hb := run_bounded h
  refine ⟨fun hguard => ?_, fun hal r s' herase => ?_⟩
  · have hinv := hguard.invariant (I := fun s => Bounded s ∧ Inside s)
      ⟨(boot_spec flash).2.2.bounded, (boot_spec flash).2.2.inside⟩ ?_
    · exact ⟨hinv.2, hinv.2.readsData hinv.1⟩
    · rintro t e u ⟨hb, hin⟩ ⟨he, hstep⟩
      exact ⟨hb.step hstep, hin.step hb he hstep⟩
  · have hvars := nvmErase_vars.of_eq_ok herase
    have hs' : Bounded s' := (hb.withHal hal).erase.congr hvars
    rw [nvmGetMaxReadLength_eq_zero hs']
    obtain ⟨flash', hal', rfl⟩ := hvars
    exact ⟨inside_emptied_iff, Iff.rfl⟩

end

/-- Requests other than `NVM_erase`, on working flash. -/
theorem unread_append {es : List (Request × List HalResult)} {s : NvmState}
    (h : Run (Guarded EraseUnread FaultStep) (boot erasedFlash) es s) (qs : List Request)
    (hqs : ∀ q ∈ qs, q ≠ .erase) :
    Run (Guarded EraseUnread FaultStep) (boot erasedFlash) (es ++ qs.map fun q => (q, []))
      (qs.foldl serve s) := by
  induction qs using List.reverseRecOn with
  | nil => simpa using h
  | append_singleton qs q ih =>
    have hrun := ih fun q' hq' => hqs q' (List.mem_append_left _ hq')
    have hq := hqs q (List.mem_append_right _ (List.mem_singleton_self q))
    rw [List.map_append, List.foldl_append, ← List.append_assoc]
    have hb := run_bounded (hrun.mono fun _ _ _ h => h.2)
    exact hrun.snoc ⟨fun h => absurd h hq, serve_step hb q⟩

/-- A block is committed and then an empty one, the memory is erased, and a block is
committed again. -/
theorem window_inside_saves :
    let emptyBlock := [Request.call (.startWrite 8), .call .commit, .call (.startWrite 0),
      .call .commit].foldl serve firstBoot
    let s := [Request.call (.startWrite 8), .call .commit].foldl serve (serve emptyBlock .erase)
    s.nValid = 1 ∧ Inside s ∧ ReadsData s ∧
      ∀ hal r s', nvmErase (s.withHal hal) = .ok r s' → ¬ Inside s' := by
  intro emptyBlock s
  have hboot : Run (Guarded EraseUnread FaultStep) (boot erasedFlash) [] firstBoot := by
    rw [boot_erasedFlash]
    exact .nil
  have hsaves := unread_append hboot [.call (.startWrite 8), .call .commit,
    .call (.startWrite 0), .call .commit] (by simp)
  have hunread : emptyBlock.nValid = 0 := by decide +kernel
  have herase := hsaves.snoc (e := (.erase, []))
    ⟨fun _ => hunread, serve_step (run_bounded (hsaves.mono fun _ _ _ h => h.2)) .erase⟩
  have hrun := unread_append herase [.call (.startWrite 8), .call .commit] (by simp)
  have hvalid : s.nValid = 1 := by decide +kernel
  obtain ⟨hinside, herased⟩ := window_inside (hrun.mono fun _ _ _ h => h.2)
  refine ⟨hvalid, (hinside hrun).1, (hinside hrun).2, fun hal r s' h hin => ?_⟩
  exact absurd ((herased hal r s' h).1.mp hin) (by rw [hvalid]; decide)

/-- A block is committed, and the memory is erased. -/
def eraseAfterSave : List Request := [.call (.startWrite 8), .call .commit, .erase]

/-- **`NVM_erase` leaves something to read**: of a block that was committed before, the
length stays, and `NVM_read` then copies the end of the allocation table. -/
theorem nvmErase_not_inside :
    ¬ ∀ flash es s, Run (Guarded Working FaultStep) (boot flash) es s → Inside s := by
  intro h
  have hrun := run_serve eraseAfterSave
  exact absurd (h _ _ _ hrun) (by decide +kernel)

end WODrive.Nvm
