import WODrive.Nvm.Faults
import WODrive.Nvm.Saves

/-!
# Saves after an abandoned transaction

A transaction that is not committed leaves the index of the target sector where it was. The
next one therefore starts with the same fields, and they may be programmed already. If it
does not erase the sector, programming only clears bits: what is stored is the AND of the
old bytes and the new ones.

So a save, all of whose calls return 0, can leave another block than the one it was given.
It leaves the block itself if and only if it erased the sector or no bit that the block
needs was cleared before (`Programmable`).
-/

namespace WODrive.Nvm

open Crash Nor

/-- The fields of the block are erased before it is written, or hold a one wherever the
block has one. -/
def Programmable (s : NvmState) (block : List (BitVec 8)) : Prop :=
  nData - s.index (1 - s.readSector) < fields block.length ∨
    ∀ i (hi : i < block.length),
      s.flash (fieldAddr (1 - s.readSector) (s.index (1 - s.readSector)) + i) &&& block[i] =
        block[i]

section

variable {s s' : NvmState}

/-- What a successful `NVM_start_write` on working flash leaves. -/
theorem nvmStartWrite_staged (hh : s.hal = []) (hb : InBounds s) {length : Nat}
    (h : nvmStartWrite length s = .ok 0 s') :
    (room s (fields length)).index (1 - s.readSector) + fields length < nData ∧
      ∃ m j, s' = { (room s (fields length)).after m j with nStagingArea := fields length } ∧
        Marked (room s (fields length)).flash m (base (1 - s.readSector))
          ((room s (fields length)).index (1 - s.readSector))
          ((room s (fields length)).index (1 - s.readSector) + fields length) INVALID := by
  have hend := (nvmStartWrite_sat (noError_of_nil hh) hb length).of_eq_ok h
  generalize hr : (0 : Int) = r at hend
  cases hend with
  | tooLong => exact absurd hr (by decide)
  | full => exact absurd hr (by decide)
  | ok _ hlt m j hm => exact ⟨hlt, m, j, rfl, hm⟩

/-- After a successful commit on working flash the staged bytes are read. -/
theorem nvmCommit_reads (hh : s.hal = []) (hb : InBounds s) (h : nvmCommit s = .ok 0 s')
    {length : Nat} (hle : length ≤ 8 * s.nStagingArea) : nvmRead s' 0 length =
      some (read s.flash (fieldAddr (1 - s.readSector) (s.index (1 - s.readSector))) length) := by
  have hge := hb.nReserved_le (1 - s.readSector)
  have hend := (nvmCommit_sat (noError_of_nil hh) hb).of_eq_ok h
  -- what is left to show once the sectors have changed roles
  have hread : ∀ (m : Mem) (j i : Nat),
      s.index (1 - s.readSector) + s.nStagingArea < nData →
      (∀ q < 8 * s.nStagingArea,
        m (fieldAddr (1 - s.readSector) (s.index (1 - s.readSector)) + q) =
          s.flash (fieldAddr (1 - s.readSector) (s.index (1 - s.readSector)) + q)) →
      nvmRead ((flipped s m j).withIndex s.readSector i) 0 length =
        some (read s.flash (fieldAddr (1 - s.readSector) (s.index (1 - s.readSector))) length) := by
    intro m j i hlt hsame
    have hindex := index_write_flipped s m j i
    rw [Nvm.nvmRead_eq]
    · show some (read m (fieldAddr (1 - s.readSector) (((flipped s m j).withIndex s.readSector
        i).index (1 - s.readSector) - s.nStagingArea) + 0) length) = _
      rw [hindex, Nat.add_sub_cancel, Nat.add_zero]
      exact congrArg some (read_congr fun q hq => hsame q (by omega))
    · show s.nStagingArea ≤ ((flipped s m j).withIndex s.readSector i).index (1 - s.readSector)
      omega
    · show ((flipped s m j).withIndex s.readSector i).index (1 - s.readSector) ≤ nData
      omega
    · show 0 + length ≤ 8 * s.nStagingArea
      omega
  generalize hr : (0 : Int) = r at hend
  cases hend with
  | rejected => exact absurd hr (by decide)
  | full => exact absurd hr (by decide)
  | ok hlt hroom _ m m' j hm hm' =>
    refine hread m' j _ hlt fun q hq => ?_
    exact (hm'.data_byte (Nat.le_of_lt hroom) hge (Nat.le_of_lt hlt) hq).trans
      (hm.data_byte (Nat.le_of_lt hlt) hge (Nat.le_of_lt hlt) hq)
  | erased hlt _ m j hm =>
    refine hread _ j _ hlt fun q hq => ?_
    have hsize : sectorSize = 131072 := rfl
    have hin : 8 * s.index (1 - s.readSector) + q < sectorSize := by
      rw [nData_eq] at hlt
      omega
    refine Eq.trans ?_ (hm.data_byte (Nat.le_of_lt hlt) hge (Nat.le_of_lt hlt) hq)
    rw [fieldAddr, Nat.add_assoc]
    exact erase_other m (other_ne s.readSector) hin

/-- The bytes of the block's fields when it is written: the old ones, if the sector is not
erased. -/
theorem programmable_iff_room {block : List (BitVec 8)}
    (hlen : block.length ≤ 8 * fields block.length)
    (hfit : (room s (fields block.length)).index (1 - s.readSector) + fields block.length < nData) :
    Programmable s block ↔ ∀ i (hi : i < block.length),
      (room s (fields block.length)).flash (fieldAddr (1 - s.readSector)
        ((room s (fields block.length)).index (1 - s.readSector)) + i) &&& block[i] = block[i] := by
  by_cases herase : nData - s.index (1 - s.readSector) < fields block.length
  · refine iff_of_true (Or.inl herase) fun i hi => ?_
    have hflash : (room s (fields block.length)).flash =
        erase s.flash (base (1 - s.readSector)) sectorSize := by
      rw [room, if_pos herase]
      rfl
    have hsize : sectorSize = 131072 := rfl
    rw [nData_eq] at hfit
    rw [hflash, fieldAddr, Nat.add_assoc, erase_inside (Nat.le_add_right _ _) (by omega),
      BitVec.allOnes_and]
  · have hroom : room s (fields block.length) = s := if_neg herase
    rw [hroom]
    exact or_iff_right herase

/-- **A save whose calls all return 0 leaves the block it was given if and only if it erased
the sector or needs no bit that was cleared before**: in every state that a run reaches,
whatever was started, written and abandoned in it, and whatever failed. -/
theorem save_reads_back_iff {flash : Mem} {es : List (Request × List HalResult)}
    (h : Run FaultStep (boot flash) es s) {block : List (BitVec 8)}
    (hlen : block.length < 2 ^ 32) (hsave : save block (s.withHal []) = .ok 0 s') :
    nvmRead s' 0 block.length = some block ↔ Programmable s block := by
  have hb := ((run_bounded h).withHal []).inBounds
  obtain ⟨s₂, hstage, hcommit⟩ := check_eq_ok.mp hsave
  obtain ⟨s₁, hstart, hwrite⟩ := check_eq_ok.mp hstage
  obtain ⟨hfit, m, j, hs₁, hm⟩ := nvmStartWrite_staged rfl hb hstart
  have hh₁ : s₁.hal = [] := run_hal (c := .startWrite block.length) rfl hb hstart
  have hb₁ : InBounds s₁ :=
    callEnd_inBounds hb (callEnd_of_run (c := .startWrite block.length) rfl hb hstart)
  have hr₁ : s₁.readSector = s.readSector := by
    rw [hs₁]
    exact room_readSector _ _
  have hi₁ : s₁.index = (room (s.withHal []) (fields block.length)).index := by rw [hs₁]; rfl
  have hn₁ : s₁.nStagingArea = fields block.length := by rw [hs₁]
  have hf₁ : s₁.flash = m := by rw [hs₁]; rfl
  -- the length check of `NVM_write` accepts the block
  have hblock : block.length ≤ 8 * fields block.length := by
    by_contra hlong
    rw [nvmWrite_reject (by rw [hn₁, Nat.zero_add, u32_of_lt hlen]; exact Nat.not_le.mp hlong)]
      at hwrite
    cases hwrite
  have hend₁ : s₁.index (1 - s₁.readSector) + s₁.nStagingArea ≤ nData := by
    rw [hr₁, hi₁, hn₁]
    exact Nat.le_of_lt hfit
  obtain ⟨-, k, rfl⟩ := (nvmWrite_stores (noError_of_nil hh₁) (by omega) hend₁).of_eq_ok hwrite
  rw [nvmCommit_reads (run_hal (c := .write 0 block) hh₁ hb₁ hwrite)
    (callEnd_inBounds hb₁ (callEnd_of_run (c := .write 0 block) hh₁ hb₁ hwrite)) hcommit
    (show block.length ≤ 8 * s₁.nStagingArea by omega), Option.some_inj]
  show read (program s₁.flash (fieldAddr (1 - s₁.readSector) (s₁.index (1 - s₁.readSector)) + 0)
    block) (fieldAddr (1 - s₁.readSector) (s₁.index (1 - s₁.readSector))) block.length = block ↔ _
  rw [Nat.add_zero, read_program_eq_iff, hr₁, hi₁, hf₁]
  refine Iff.trans ?_ (programmable_iff_room (s := s.withHal []) hblock hfit).symm
  have hge := (room_inBounds hb (fields block.length)).nReserved_le (1 - s.readSector)
  refine forall_congr' fun i => forall_congr' fun hi => ?_
  rw [hm.data_byte (Nat.le_of_lt hfit) hge (Nat.le_of_lt hfit) (show i < _ by omega)]
  rfl

end

/-- A field is staged and its first byte cleared. -/
def stagedZero : List Request := [.call (.startWrite 8), .call (.write 0 [0])]

theorem save_reads_back_iff_zero :
    let s := stagedZero.foldl serve firstBoot
    let s' := stateAfter s (save [0] (s.withHal []))
    nvmRead s' 0 1 = some [0] ↔ Programmable s [0] := by
  intro s s'
  have hrun := (run_serve stagedZero).mono fun _ _ _ h => h.2
  have hlen : [(0 : BitVec 8)].length < 2 ^ 32 := by decide
  exact save_reads_back_iff hrun hlen (eq_ok_of_returned (by decide +kernel))

/-- **A save after an abandoned transaction can leave another block than its own**: a field
is staged and cleared, and then a one is saved without a fault. -/
theorem abandoned_not_harmless :
    ¬ ∀ flash es s length offset data s₁ s₂ block s', Run FaultStep (boot flash) es s →
      nvmStartWrite length (s.withHal []) = .ok 0 s₁ → nvmWrite offset data s₁ = .ok 0 s₂ →
      block.length < 2 ^ 32 → save block (s₂.withHal []) = .ok 0 s' →
        nvmRead s' 0 block.length = some block := by
  intro h
  have hstart := eq_ok_of_returned (s := firstBoot)
    (show returned (nvmStartWrite 8 (firstBoot.withHal [])) = some 0 by decide +kernel)
  have hwrite := eq_ok_of_returned (s := firstBoot)
    (show returned (nvmWrite 0 [0] (serve firstBoot (.call (.startWrite 8)))) = some 0 by
      decide +kernel)
  have hread := h erasedFlash [] firstBoot 8 0 [0] _ _ [1] _ (by rw [boot_erasedFlash]; exact .nil)
    hstart hwrite (by decide) (eq_ok_of_returned (s := firstBoot) (by decide +kernel))
  exact absurd hread (by decide +kernel)

end WODrive.Nvm
