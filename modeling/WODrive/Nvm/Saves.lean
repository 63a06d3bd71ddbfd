import WODrive.Nvm.PowerLoss
import WODrive.Nvm.Faultless

/-!
# Saves that succeed

A save is `NVM_start_write`, `NVM_write` of the block and `NVM_commit`. Along a run of
saves that all return 0, and in which no flash operation fails with the error code 0, the
driver's variables are exactly what `NVM_init` makes of the flash (`nvmInit_transparent`):
a reset after any of the saves goes unnoticed. After a failure with that code `NVM_commit`
returns 0 too, and may have switched to a block that it could not mark
(`nvmInit_not_transparent`).

Two invariants carry the run. Between saves the state is `Settled`; in particular the
sector to write to is `Quiet`, which is where the separators that `NVM_commit` leaves come
in. During a save the state is `Opened`, with the bytes that have been written so far.
They do not need the power losses of `Clean` to be considered, and so they hold without
the conditions of `CommitSafe`: a commit that returns 0 meets them.
-/

namespace WODrive.Nvm

open Crash Nor

/-! ## Between saves and during a save -/

/-- The state between two saves. -/
structure Settled (s : NvmState) : Prop where
  consistent : Consistent s
  tail : ∀ k, Tail s.flash k (s.index k)
  idle : s.nStagingArea = 0
  /-- Before the first save, sector 0 is the one to read from. -/
  first : s.nValid = 0 → s.readSector = 0

/-- The state during a save: `bytes` are written at the start of the staged block, and the
rest of it is erased. -/
structure Opened (s : NvmState) (bytes : List (BitVec 8)) : Prop where
  consistent : Consistent s
  read : Tail s.flash s.readSector (s.index s.readSector)
  write : Tail s.flash (1 - s.readSector) (s.index (1 - s.readSector) + s.nStagingArea)
  le : bytes.length ≤ 8 * s.nStagingArea
  block : stagedBlock s =
    bytes ++ List.replicate (8 * s.nStagingArea - bytes.length) (BitVec.allOnes 8)

/-- The HAL plays no role in it. -/
theorem Settled.withHal {s : NvmState} (h : Settled s) (hal : List HalResult) :
    Settled { s with hal := hal } :=
  ⟨⟨h.consistent.write, h.consistent.read, h.consistent.staging⟩, h.tail, h.idle, h.first⟩

theorem Settled.of_working {s : NvmState} (h : Settled s.working) : Settled s :=
  h.withHal s.hal

namespace Settled

variable {s : NvmState}

/-- Sector 1 is read from if and only if it ends with a valid field. -/
theorem readSector_eq_one (h : Settled s) : s.readSector = 1 ↔ EndsValid s.flash 1 := by
  have hwrite := h.consistent.write.not_endsValid
  rcases h.consistent.read with hread | ⟨hnv, hread⟩
  · constructor
    · intro h1
      rw [← h1]
      exact hread.endsValid
    · intro hval
      rcases eq_or_eq_other 1 s.readSector with h1 | h0
      · exact h1
      · rw [h0] at hwrite
        exact absurd hval hwrite
  · have h0 := h.first hnv
    rw [h0] at hwrite
    constructor
    · intro h1
      rw [h0] at h1
      exact absurd h1 (by decide)
    · intro hval
      exact absurd hval hwrite

/-- The variables are those that `NVM_init` reconstructs. -/
theorem booted (h : Settled s) : Booted s := by
  refine Booted.of_endsValid (fun k => (h.tail k).erased) h.readSector_eq_one ?_
    h.consistent.read_bounds.1 h.idle
  rcases h.consistent.read with hread | ⟨hnv, hread⟩
  · exact hread.valid
  · rw [hnv, Nat.sub_zero]
    refine ⟨hread.nReserved_le, Nat.le_refl _, fun _ h1 h2 => absurd h2 (by omega), ?_⟩
    rcases hread.below with h1 | h1
    · exact Or.inl h1
    · right
      rw [h1]
      decide

theorem clean (h : Settled s) : Clean s := ⟨h.booted, h.tail⟩

/-- An initialization reconstructs the variables, whatever they were. -/
theorem nvmInit_eq {t : NvmState} (h : Settled s) (hf : t.flash = s.flash) :
    nvmInit t = .ok 0 { s with hal := t.hal } := by
  obtain ⟨t', heq, hf', hh', hb⟩ := Nvm.nvmInit_eq t
  rw [heq, (h.withHal t.hal).booted.eq_of_flash hb (hf'.trans hf) hh']

/-- Changes to the data of the readable block do not concern the table. -/
theorem alter {m : Mem} (h : Settled s) (hpos : 0 < s.nValid)
    (hm : SameOutside s.flash m
      (fieldAddr s.readSector (s.index s.readSector - s.nValid))
      (fieldAddr s.readSector (s.index s.readSector))) : Settled { s with flash := m } := by
  obtain ⟨hle, hlt⟩ := h.consistent.read_bounds
  have hread : Holding s.flash s.readSector (s.index s.readSector) s.nValid :=
    h.consistent.read.resolve_right fun h0 => by omega
  have hge := hread.valid.lo_le
  obtain ⟨i, hi⟩ : ∃ i, s.index s.readSector = i + s.nValid := ⟨_, (Nat.sub_add_cancel hle).symm⟩
  rw [hi, Nat.add_sub_cancel] at hm hge
  have hother : SameSector s.flash m (1 - s.readSector) := fun j hj =>
    hm.sector (by omega) (other_ne s.readSector) hj
  refine ⟨⟨?_, Or.inl ?_, h.consistent.staging⟩, fun k => ?_, h.idle, h.first⟩
  · exact h.consistent.write.congr fun j _ hj => hother.cell hj
  · exact hread.congr fun j hj => hm.cell hge hj
  · rcases eq_or_eq_other s.readSector k with rfl | rfl
    · rw [← hi] at hm
      exact (h.tail _).store hm hge
    · exact hother.tail (h.tail _)

/-! ## The calls of a save -/

/-- `NVM_start_write` opens an erased block. -/
theorem startWrite {s' : NvmState} {length : Nat} (h : Settled s) (hh : s.hal = [])
    (heq : nvmStartWrite length s = .ok 0 s') :
    Opened s' [] ∧ s'.nStagingArea = fields length := by
  have hne := noError_of_nil hh
  have hend := (nvmStartWrite_sat hne h.consistent.inBounds length).of_eq_ok heq
  have hc := (h.consistent.startWrite hend).1
  obtain ⟨hroom, -, -⟩ := h.clean.room (fields length)
  have hrs := room_readSector s (fields length)
  generalize hr : (0 : Int) = r at hend
  cases hend with
  | tooLong => exact absurd hr (by decide)
  | full => exact absurd hr (by decide)
  | ok hfit hlt m j hm =>
    rw [← hrs] at hm hlt
    obtain ⟨htail, hsame, -⟩ := hroom.reserve hm (Nat.le_add_right _ _) hlt
    refine ⟨⟨hc, hsame.tail (hroom.tail _), htail, Nat.zero_le _, ?_⟩, rfl⟩
    -- the data of the reserved fields is still erased
    have hsize : sectorSize = 131072 := rfl
    have hle := Nat.le_of_lt hlt
    rw [nData_eq] at hlt
    show Nor.read m (fieldAddr (1 - (room s _).readSector)
      ((room s _).index (1 - (room s _).readSector))) (8 * fields length) =
        List.replicate (8 * fields length) _
    refine read_eq_replicate fun q hq => ?_
    rw [fieldAddr, Nat.add_assoc]
    exact (hroom.tail _).blank_marked hm hle _ (Nat.le_add_right _ _) (by omega)

end Settled

namespace Opened

variable {s s' : NvmState} {bytes data : List (BitVec 8)}

/-- `NVM_write` behind what has been written appends to it. -/
theorem writeNext (h : Opened s bytes) (hh : s.hal = [])
    (hlt : bytes.length + data.length < 2 ^ 32)
    (heq : nvmWrite bytes.length data s = .ok 0 s') :
    Opened s' (bytes ++ data) ∧ s'.nStagingArea = s.nStagingArea := by
  have hstaging := Nat.le_of_lt h.consistent.staging
  have hge := h.consistent.write.nReserved_le
  have hc := (h.consistent.writeBlock hh (Or.inr hlt) heq).1
  by_cases hrej : 8 * s.nStagingArea < u32 (bytes.length + data.length)
  · rw [nvmWrite_reject hrej] at heq
    cases heq
  rw [u32_of_lt hlt, Nat.not_lt] at hrej
  have hne := noError_of_nil hh
  obtain ⟨-, j, rfl⟩ := (nvmWrite_stores hne hrej hstaging).of_eq_ok heq
  have hdata : SameOutside s.flash
      (program s.flash (fieldAddr (1 - s.readSector) (s.index (1 - s.readSector)) +
        bytes.length) data)
      (fieldAddr (1 - s.readSector) (s.index (1 - s.readSector)))
      (fieldAddr (1 - s.readSector) (s.index (1 - s.readSector) + s.nStagingArea)) := by
    intro a ha
    refine program_outside ?_
    rw [fieldAddr, fieldAddr] at *
    omega
  have hsame : SameSector s.flash (program s.flash (fieldAddr (1 - s.readSector)
      (s.index (1 - s.readSector)) + bytes.length) data) s.readSector := fun i hi =>
    hdata.sector hstaging (other_ne s.readSector).symm hi
  refine ⟨⟨hc, hsame.tail h.read, h.write.store hdata hge, ?_, ?_⟩, rfl⟩
  · rw [List.length_append]
    exact hrej
  · obtain ⟨rest, hrest⟩ := Nat.exists_eq_add_of_le hrej
    have hblock := h.block
    rw [stagedBlock, hrest, Nat.add_assoc, Nat.add_sub_cancel_left] at hblock
    show Nor.read (program s.flash _ data) (fieldAddr (1 - s.readSector) (s.index _))
      (8 * s.nStagingArea) = _ ++ List.replicate (8 * s.nStagingArea - _) _
    rw [hrest, List.length_append, Nat.add_sub_cancel_left, Nat.add_assoc]
    exact read_program_append hblock

/-- `NVM_commit` makes the block the readable one. -/
theorem commit (h : Opened s bytes) (hh : s.hal = []) (hpos : 0 < s.nStagingArea)
    (heq : nvmCommit s = .ok 0 s') :
    Settled s' ∧ s'.nValid = s.nStagingArea ∧ validBlock s' = stagedBlock s := by
  have hne := noError_of_nil hh
  have hend := (nvmCommit_sat hne h.consistent.inBounds).of_eq_ok heq
  have hroom : s.index s.readSector + 1 ≠ nData := by
    intro hfull
    exact absurd (h.consistent.commit_full hend hfull).1 (by decide)
  have hsafe : CallSafe s .commit := ⟨hroom, fun _ => scan_le h.write.erased.lo_le
    fun j h1 h2 => h.write.erased.all j h1 h2⟩
  obtain ⟨-, hc, hv⟩ := h.consistent.commit hsafe hend
  refine ⟨?_, ?_, hv⟩
  all_goals generalize hr : (0 : Int) = r at hend
  · cases hend with
    | rejected => exact absurd hr (by decide)
    | full => exact absurd hr (by decide)
    | erased _ hr' =>
      have := h.read.lt
      omega
    | ok hfit hlt _ m m' j hm hm' =>
      -- the end of the new block was marked as reserved, the old one gets a separator
      have hread : SameSector s.flash m s.readSector :=
        hm.sameSector (Nat.le_of_lt hfit) (other_ne s.readSector).symm
      have hwrite : SameSector m m' (1 - s.readSector) :=
        hm'.sameSector (Nat.le_of_lt hlt) (other_ne s.readSector)
      have hiw := index_write_flipped s m' j (s.index s.readSector + 1)
      have hir := index_read_flipped s m' j (s.index s.readSector + 1)
      refine ⟨hc, fun k => ?_, rfl, fun h0 => ?_⟩
      · rcases eq_or_eq_other s.readSector k with rfl | rfl
        · rw [hir]
          exact (hread.tail h.read).mark hm' (Nat.le_succ _) hlt (by decide)
        · rw [hiw]
          exact hwrite.tail (h.write.remark hm (Nat.le_refl _))
      · change s.nStagingArea = 0 at h0
        omega
  · cases hend with
    | rejected => exact absurd hr (by decide)
    | full => exact absurd hr (by decide)
    | erased => rfl
    | ok => rfl

end Opened

/-! ## Runs of saves -/

/-- A save: its calls up to the first one that fails. -/
def save (block : List (BitVec 8)) : NvmM Int := do
  let status ← stage block
  if status ≠ 0 then return status
  else nvmCommit

/-- A save all of whose calls return 0, with any HAL. -/
def SaveStep (s : NvmState) (saving : Block × List HalResult) (s' : NvmState) : Prop :=
  save saving.1.1 { s with hal := saving.2 } = .ok 0 s'

theorem check_eq_ok {x rest : NvmM Int} {s s' : NvmState} :
    (do
      let err ← x
      if err ≠ 0 then return err else rest : NvmM Int) s = .ok 0 s' ↔
      ∃ s₁, x s = .ok 0 s₁ ∧ rest s₁ = .ok 0 s' := by
  rw [bind_eq_ok]
  constructor
  · rintro ⟨r, s₁, hx, hrest⟩
    by_cases hr : r = 0
    · rw [if_neg (fun h => h hr)] at hrest
      rw [hr] at hx
      exact ⟨s₁, hx, hrest⟩
    · rw [if_pos hr] at hrest
      cases hrest
      exact absurd rfl hr
  · rintro ⟨s₁, hx, hrest⟩
    exact ⟨0, s₁, hx, hrest⟩

theorem save_faultless (block : List (BitVec 8)) : Faultless0 (save block) :=
  faultless_check (faultless_check (nvmStartWrite_faultless _) (nvmWrite_faultless _ _))
    nvmCommit_faultless

/-- A save leads from one settled state to the next. -/
theorem Settled.save {s s' : NvmState} {block : Block} (h : Settled s) (hh : s.hal = [])
    (heq : save block.1 s = .ok 0 s') : Settled s' := by
  obtain ⟨s₂, hstage, hcommit⟩ := check_eq_ok.mp heq
  obtain ⟨s₁, hstart, hwrite⟩ := check_eq_ok.mp hstage
  obtain ⟨h₁, hn₁⟩ := h.startWrite hh hstart
  have hh₁ := run_hal (c := .startWrite block.1.length) hh h.consistent.inBounds hstart
  have hlt : ([] : List (BitVec 8)).length + block.1.length < 2 ^ 32 := by
    rw [List.length_nil, Nat.zero_add]
    exact block.2.2
  obtain ⟨h₂, hn₂⟩ := h₁.writeNext hh₁ hlt hwrite
  have hh₂ := run_hal (c := .write 0 block.1) hh₁ h₁.consistent.inBounds hwrite
  have hpos : 0 < s₂.nStagingArea := by
    have hle := h₂.le
    have := block.2.1
    rw [List.nil_append] at hle
    omega
  exact (h₂.commit hh₂ hpos hcommit).1

/-- No flash operation of the save fails with the error code 0. -/
def SaveReported (_ : NvmState) (saving : Block × List HalResult) : Prop := Reported saving.2

theorem Settled.step {s s' : NvmState} {saving : Block × List HalResult} (h : Settled s)
    (hreported : SaveReported s saving) (hstep : SaveStep s saving s') : Settled s' := by
  have hwork := (save_faultless saving.1.1 { s with hal := saving.2 } 0 s' hreported rfl hstep).2
  exact (((h.withHal saving.2).withHal []).save rfl hwork).of_working

theorem settled_first : Settled (boot erasedFlash) := by
  have hc := clean_first.1
  refine ⟨historyInv_first.consistent, hc.tail, hc.booted.nStagingArea, fun _ => ?_⟩
  rw [boot_erasedFlash]
  rfl

/-- **Reboots are transparent**: after saves that all return 0, and in which no flash
operation fails with the error code 0, `NVM_init` takes any variables to the ones the driver
had, and what follows does the same as without it. -/
theorem nvmInit_transparent {saves : List (Block × List HalResult)} {s : NvmState}
    (h : Run (Guarded SaveReported SaveStep) (boot erasedFlash) saves s) (ram : NvmState) :
    nvmInit { ram with flash := s.flash } = .ok 0 { s with hal := ram.hal } ∧
      ∀ {α : Type} (later : NvmM α),
        (do
          let _ ← nvmInit
          later) { ram with flash := s.flash } = later { s with hal := ram.hal } := by
  have hs := h.invariant settled_first fun _ _ _ h hstep => h.step hstep.1 hstep.2
  have heq := hs.nvmInit_eq (t := { ram with flash := s.flash }) rfl
  exact ⟨heq, fun later => bind_of_ok heq fun _ => later⟩

/-- Two saves, so that both sectors have been written to. -/
theorem nvmInit_transparent_twoSaves : ∃ s,
    Run (Guarded SaveReported SaveStep) (boot erasedFlash) [(oneField 1, []), (oneField 2, [])] s ∧
      nvmInit (reset s.flash) = .ok 0 { s with hal := [] } := by
  obtain ⟨s₁, hs₁⟩ : ∃ s₁, stateAfter firstBoot (save (oneField 1).1 firstBoot) = s₁ := ⟨_, rfl⟩
  have h₁ : returned (save (oneField 1).1 firstBoot) = some 0 := by decide +kernel
  have h₂ : returned (save (oneField 2).1 { s₁ with hal := [] }) = some 0 := by
    rw [← hs₁]
    decide +kernel
  have hrun₁ : SaveStep (boot erasedFlash) (oneField 1, []) s₁ := by
    rw [boot_erasedFlash, ← hs₁]
    exact eq_ok_of_returned h₁
  obtain ⟨s₂, hrun₂⟩ : ∃ s₂, SaveStep s₁ (oneField 2, []) s₂ := ⟨_, eq_ok_of_returned (s := s₁) h₂⟩
  have hrun : Run (Guarded SaveReported SaveStep) (boot erasedFlash)
      [(oneField 1, []), (oneField 2, [])] s₂ :=
    (Run.single ⟨reported_nil, hrun₁⟩).snoc ⟨reported_nil, hrun₂⟩
  exact ⟨s₂, hrun, (nvmInit_transparent hrun (reset s₂.flash)).1⟩

/-- **A save that returns 0 can leave another state than `NVM_init` makes of the flash**: the
marking of the block times out, and `NVM_commit` goes on. -/
theorem nvmInit_not_transparent :
    ¬ ∀ saves s (ram : NvmState), Run SaveStep (boot erasedFlash) saves s →
      nvmInit { ram with flash := s.flash } = .ok 0 { s with hal := ram.hal } := by
  intro h
  -- one operation reserves the field, two write it, and the next one is to mark it
  let hal : List HalResult := [.ok, .ok, .ok, timedOut]
  have hsave : SaveStep (boot erasedFlash) (oneField 1, hal)
      (stateAfter firstBoot (save (oneField 1).1 { firstBoot with hal := hal })) := by
    rw [boot_erasedFlash]
    exact eq_ok_of_returned (by decide +kernel)
  have hinit := h _ _ firstBoot (.single hsave)
  have hvalid := congrArg (fun o => (stateAfter firstBoot o).nValid) hinit
  exact absurd hvalid (by decide +kernel)

end WODrive.Nvm
