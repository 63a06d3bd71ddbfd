import WODrive.Nvm.Runs

/-!
# Commits along runs without power loss

`History` is the driver's state together with the block whose commit was the last to
return 0. Along the runs whose calls are safe (`CallSafe`), that block is what can be
read, before and after an initialization (`nvmCommit_atomic`).

Two kinds of calls are not safe because of how `NVM_commit` works. It marks the new
block and switches to it before it invalidates the other sector, and that last step is
refused when the other sector has one field left. And a reservation that
`NVM_start_write` made and that was given up for a shorter one leaves fields marked as
invalid above the committed block, which hide the block from `NVM_init`. The third kind
is an `NVM_write` whose `offset + length` wraps around.

The invariant is `Consistent`: the sector to write to is `Quiet`, it holds no block that
an initialization could find, and the sector to read from is either `Holding` the block
at its end, or quiet as well if there is no block.
-/

namespace WODrive.Nvm

open Crash Nor

/-! ## Histories -/

/-- The staged block: the data of the fields that `NVM_start_write` reserved. -/
def stagedBlock (s : NvmState) : List (BitVec 8) :=
  read s.flash (fieldAddr (1 - s.readSector) (s.index (1 - s.readSector))) (8 * s.nStagingArea)

/-- The driver's state, and the block whose commit was the last to return 0. -/
structure History where
  state : NvmState
  committed : List (BitVec 8)

/-- The committed block after a call that returned `r`, from the one before. -/
def Call.committed (s : NvmState) (r : Int) (block : List (BitVec 8)) :
    Call → List (BitVec 8)
  | .commit => if r = 0 then stagedBlock s else block
  | _ => block

/-- A call, and what it makes of the committed block. -/
def HistoryStep (p : History) (c : Call) (p' : History) : Prop :=
  ∃ r, c.run p.state = .ok r p'.state ∧ p'.committed = c.committed p.state r p.committed

/-- On the first boot from erased flash nothing is committed. -/
def History.first : History := ⟨boot erasedFlash, []⟩

/-- The calls that do not run into a defect of the driver. -/
def CallSafe (s : NvmState) : Call → Prop
  | .init => True
  | .startWrite _ => True
  | .write offset data =>
    8 * s.nStagingArea < u32 (offset + data.length) ∨ offset + data.length < 2 ^ 32
  | .commit =>
    s.index s.readSector + 1 ≠ nData ∧
      (0 < s.nStagingArea →
        (scanAllocationTable s.flash (1 - s.readSector) nData ERASED).1 ≤
          s.index (1 - s.readSector) + s.nStagingArea)

theorem scan_le {flash : Mem} {k : Fin 2} {i : Nat} (hi : nReserved ≤ i)
    (h : ∀ j, i ≤ j → j < nData → cell flash (base k) j = ERASED) :
    (scanAllocationTable flash k nData ERASED).1 ≤ i := by
  obtain ⟨i', hs, heq⟩ := scanAllocationTable_eq flash k (by decide : nReserved ≤ nData) ERASED
  rw [heq]
  exact hs.le_of_all hi h

/-- The histories of the runs all of whose calls are safe. -/
def SafeHistory (p : History) : Prop :=
  ∃ cs, Run (Guarded (fun p c => CallSafe p.state c) HistoryStep) .first cs p

/-! ## Sectors -/

theorem and_invalid {c : FieldState} (h : c = INVALID ∨ c = ERASED) :
    c &&& INVALID = INVALID := by
  rcases h with rfl | rfl <;> rfl

theorem and_valid (c : FieldState) : c &&& VALID = VALID := BitVec.and_zero

/-- A sector at whose end `NVM_init` finds no valid fields, and whose fields from `i` on
have not been marked as valid. -/
structure Quiet (flash : Mem) (k : Fin 2) (i : Nat) : Prop where
  nReserved_le : nReserved ≤ i
  lt : i < nData
  above : ∀ j, i ≤ j → j < nData →
    cell flash (base k) j = INVALID ∨ cell flash (base k) j = ERASED
  below : i = nReserved ∨ cell flash (base k) (i - 1) = INVALID
  last : cell flash (base k) (nData - 1) = ERASED

/-- A sector whose last fields that are not erased are the `n` valid fields below `i`. -/
structure Holding (flash : Mem) (k : Fin 2) (i n : Nat) : Prop where
  pos : 0 < n
  le : n ≤ i
  lt : i < nData
  erased : IsSuffixStart (fun j => cell flash (base k) j = ERASED) nReserved nData i
  valid : IsSuffixStart (fun j => cell flash (base k) j = VALID) nReserved i (i - n)

namespace Quiet

variable {flash m : Mem} {k : Fin 2} {i i' lo hi n : Nat}

/-- Only the fields from the one below the index on matter. -/
theorem congr (h : Quiet flash k i)
    (hc : ∀ j, i ≤ j + 1 → j < nData → cell m (base k) j = cell flash (base k) j) :
    Quiet m k i := by
  have hlt := h.lt
  refine ⟨h.nReserved_le, h.lt, fun j h1 h2 => ?_, ?_, ?_⟩
  · rw [hc j (by omega) h2]
    exact h.above j h1 h2
  · rw [hc (i - 1) (by omega) (by omega)]
    exact h.below
  · rw [hc (nData - 1) (by omega) (by decide)]
    exact h.last

/-- Marking fields from the index on as invalid. -/
theorem invalidate (h : Quiet flash k i) (hm : Marked flash m (base k) lo hi INVALID)
    (hlo : i ≤ lo) (hhi : hi < nData) : Quiet m k i := by
  refine ⟨h.nReserved_le, h.lt, fun j h1 h2 => ?_, ?_, ?_⟩
  · rw [hm.cell]
    split
    · exact Or.inl (and_invalid (h.above j h1 h2))
    · exact h.above j h1 h2
  · rcases h.below with hi' | hi'
    · exact Or.inl hi'
    · rw [hm.cell_below h.nReserved_le hlo]
      exact Or.inr hi'
  · rw [hm.cell_outside (by omega)]
    exact h.last

theorem erase (flash : Mem) (k : Fin 2) : Quiet (erase flash (base k) sectorSize) k nReserved :=
  ⟨Nat.le_refl _, by decide, fun _ _ h => Or.inr (cell_erase_self flash k h), Or.inl rfl,
    cell_erase_self flash k (by decide)⟩

/-- Initialization moves the index above the invalid fields. -/
theorem init (h : Quiet flash k i)
    (hs : IsSuffixStart (fun j => cell flash (base k) j = ERASED) nReserved nData i') :
    Quiet flash k i' := by
  have hlt : i' < nData := by
    rcases Nat.lt_or_eq_of_le hs.le_hi with hlt | rfl
    · exact hlt
    · rcases hs.stop with h0 | h0
      · exact absurd h0 (by decide)
      · exact absurd h.last h0
  refine ⟨hs.lo_le, hlt, fun j h1 h2 => Or.inr (hs.all j h1 h2), ?_, h.last⟩
  rcases Nat.lt_or_ge i i' with hi | hi
  · -- a field above the old index was reserved and given up
    rcases hs.stop with h0 | h0
    · exact Or.inl h0
    · rcases h.above (i' - 1) (by omega) (by omega) with h1 | h1
      · exact Or.inr h1
      · exact absurd h1 h0
  · rcases h.below with rfl | h1
    · exact Or.inl (Nat.le_antisymm hi hs.lo_le)
    · by_cases heq : i' = i
      · rw [heq]
        exact Or.inr h1
      · rw [hs.all (i - 1) (by omega) (by have := h.lt; omega)] at h1
        exact absurd h1 (by decide)

/-- A quiet sector holds nothing. -/
theorem ne_valid (h : Quiet flash k i) (hi : nReserved < i) :
    cell flash (base k) (i - 1) ≠ VALID := by
  rcases h.below with h1 | h1
  · omega
  · rw [h1]
    decide

/-- Marking the fields above the index, and no other ones, as valid makes the sector hold
them. -/
theorem validate (h : Quiet flash k i) (hn : 0 < n) (hfit : i + n < nData)
    (hm : Marked flash m (base k) i (i + n) VALID)
    (herased : ∀ j, i + n ≤ j → j < nData → cell flash (base k) j = ERASED) :
    Holding m k (i + n) n := by
  have hge := h.nReserved_le
  have hvalid : ∀ j, i ≤ j → j < i + n → cell m (base k) j = VALID := by
    intro j h1 h2
    rw [hm.cell_inside h1 h2, and_valid]
  refine ⟨hn, Nat.le_add_left _ _, hfit,
    ⟨by omega, Nat.le_of_lt hfit, fun j h1 h2 => ?_, Or.inr ?_⟩,
    ⟨by omega, by omega, fun j h1 h2 => hvalid j (by omega) h2, ?_⟩⟩
  · rw [hm.cell_outside (by omega)]
    exact herased j h1 h2
  · rw [hvalid (i + n - 1) (by omega) (by omega)]
    decide
  · rw [Nat.add_sub_cancel]
    rcases Nat.lt_or_ge nReserved i with hlt | hle
    · right
      rw [hm.cell_below hge (Nat.le_refl i)]
      exact h.ne_valid hlt
    · exact Or.inl (Nat.le_antisymm hle hge)

end Quiet

/-- Marking the field at the index as invalid makes a sector quiet. -/
theorem quiet_succ {flash m : Mem} {k : Fin 2} {i : Nat} (hge : nReserved ≤ i)
    (hlt : i + 1 < nData)
    (habove : ∀ j, i ≤ j → j < nData →
      cell flash (base k) j = INVALID ∨ cell flash (base k) j = ERASED)
    (hlast : cell flash (base k) (nData - 1) = ERASED)
    (hm : Marked flash m (base k) i (i + 1) INVALID) : Quiet m k (i + 1) := by
  refine ⟨by omega, hlt, fun j h1 h2 => ?_, Or.inr ?_, ?_⟩
  · rw [hm.cell_outside (by omega)]
    exact habove j (by omega) h2
  · rw [Nat.add_sub_cancel, hm.cell_inside (Nat.le_refl _) (Nat.lt_succ_self _)]
    exact and_invalid (habove i (Nat.le_refl _) (by omega))
  · rw [hm.cell_outside (by omega)]
    exact hlast

namespace Holding

variable {flash m : Mem} {k : Fin 2} {i n : Nat}

theorem congr (h : Holding flash k i n)
    (hc : ∀ j, j < nData → cell m (base k) j = cell flash (base k) j) : Holding m k i n := by
  have hlt := h.lt
  refine ⟨h.pos, h.le, h.lt, h.erased.congr fun j _ h2 => ?_, h.valid.congr fun j _ h2 => ?_⟩
  · show _ ↔ cell m (base k) j = ERASED
    rw [hc j h2]
  · show _ ↔ cell m (base k) j = VALID
    rw [hc j (by omega)]

/-- The last field below the index is valid. -/
theorem top (h : Holding flash k i n) :
    nReserved < i ∧ cell flash (base k) (i - 1) = VALID := by
  have h1 := h.valid.lo_le
  have h2 := h.pos
  have h3 := h.le
  exact ⟨by omega, h.valid.all (i - 1) (by omega) (by omega)⟩

theorem last (h : Holding flash k i n) : cell flash (base k) (nData - 1) = ERASED := by
  have := h.lt
  exact h.erased.all (nData - 1) (by omega) (by decide)

end Holding

/-! ## The invariant -/

/-- What the driver's variables say about the two sectors is true of the flash. -/
structure Consistent (s : NvmState) : Prop where
  write : Quiet s.flash (1 - s.readSector) (s.index (1 - s.readSector))
  read : Holding s.flash s.readSector (s.index s.readSector) s.nValid ∨
    s.nValid = 0 ∧ Quiet s.flash s.readSector (s.index s.readSector)
  staging : s.index (1 - s.readSector) + s.nStagingArea < nData

namespace Consistent

variable {s : NvmState}

/-- Nothing was ever marked as valid above the index of the sector to read from. -/
theorem read_above (h : Consistent s) : ∀ j, s.index s.readSector ≤ j → j < nData →
    cell s.flash (base s.readSector) j = INVALID ∨
      cell s.flash (base s.readSector) j = ERASED := by
  intro j h1 h2
  rcases h.read with hr | ⟨-, hr⟩
  · exact Or.inr (hr.erased.all j h1 h2)
  · exact hr.above j h1 h2

theorem read_last (h : Consistent s) :
    cell s.flash (base s.readSector) (nData - 1) = ERASED := by
  rcases h.read with hr | ⟨-, hr⟩
  · exact hr.last
  · exact hr.last

theorem read_bounds (h : Consistent s) :
    s.nValid ≤ s.index s.readSector ∧ s.index s.readSector < nData := by
  rcases h.read with hr | ⟨h0, hr⟩
  · exact ⟨hr.le, hr.lt⟩
  · rw [h0]
    exact ⟨Nat.zero_le _, hr.lt⟩

theorem readable (h : Consistent s) : readAll s = some (validBlock s) :=
  readAll_eq h.read_bounds.1 (Nat.le_of_lt h.read_bounds.2)

/-- Changes to the sector to write to that keep it quiet. -/
theorem update {s' : NvmState} (h : Consistent s) (hr : s'.readSector = s.readSector)
    (hv : s'.nValid = s.nValid) (hi : s'.index s.readSector = s.index s.readSector)
    (hsame : ∀ j, j < sectorSize →
      s'.flash (base s.readSector + j) = s.flash (base s.readSector + j))
    (hw : Quiet s'.flash (1 - s.readSector) (s'.index (1 - s.readSector)))
    (hst : s'.index (1 - s.readSector) + s'.nStagingArea < nData) :
    Consistent s' ∧ validBlock s' = validBlock s := by
  have hsize : sectorSize = 131072 := rfl
  obtain ⟨hle, hlt⟩ := h.read_bounds
  rw [nData_eq] at hlt
  have hcell : ∀ j, j < nData →
      cell s'.flash (base s.readSector) j = cell s.flash (base s.readSector) j := by
    intro j hj
    rw [nData_eq] at hj
    exact cell_congr (hsame _ (by omega))
  constructor
  · refine ⟨by rw [hr]; exact hw, ?_, by rw [hr]; exact hst⟩
    rw [hr, hv, hi]
    rcases h.read with hread | ⟨h0, hread⟩
    · exact Or.inl (hread.congr hcell)
    · exact Or.inr ⟨h0, hread.congr fun j _ hj => hcell j hj⟩
  · rw [validBlock, validBlock, hr, hv, hi]
    refine read_congr fun q hq => ?_
    rw [fieldAddr, Nat.add_assoc]
    exact hsame _ (by omega)

end Consistent

/-! ## Initialization -/

/-- The last field of a sector that is not erased is valid. -/
def EndsValid (flash : Mem) (k : Fin 2) : Prop :=
  ∃ i, IsSuffixStart (fun j => cell flash (base k) j = ERASED) nReserved nData i ∧
    nReserved < i ∧ cell flash (base k) (i - 1) = VALID

theorem Holding.endsValid {flash : Mem} {k : Fin 2} {i n : Nat} (h : Holding flash k i n) :
    EndsValid flash k := ⟨i, h.erased, h.top⟩

theorem Quiet.not_endsValid {flash : Mem} {k : Fin 2} {i : Nat} (h : Quiet flash k i) :
    ¬ EndsValid flash k := by
  rintro ⟨i', hs, hlt, hv⟩
  exact (h.init hs).ne_valid hlt hv

namespace Booted

variable {s : NvmState}

/-- Sector 1 is selected if and only if it ends with a valid field. -/
theorem readSector_eq_one (h : Booted s) : s.readSector = 1 ↔ EndsValid s.flash 1 := by
  rw [h.readSector]
  constructor
  · intro heq
    split at heq
    · exact ⟨_, h.index 1, ‹_›⟩
    · cases heq
  · rintro ⟨i, hs, hv⟩
    rw [hs.unique (h.index 1)] at hv
    rw [if_pos hv]

theorem readSector_eq_zero (h : Booted s) (h1 : ¬ EndsValid s.flash 1) : s.readSector = 0 := by
  have := h.readSector
  split at this
  · exact absurd (h.readSector_eq_one.mp this) h1
  · exact this

/-- What is readable ends with a valid field. -/
theorem endsValid (h : Booted s) (hn : 0 < s.nValid) : EndsValid s.flash s.readSector := by
  have h1 := h.nValid.lo_le
  have h2 := h.nValid_le
  exact ⟨_, h.index s.readSector, by omega, h.nValid.all _ (by omega) (by omega)⟩

/-- Initialization finds the block a sector holds, if it selects the sector. -/
theorem of_holding (h : Booted s) {k : Fin 2} {i n : Nat} (hk : Holding s.flash k i n)
    (hsel : k = 1 ∨ ¬ EndsValid s.flash 1) :
    s.readSector = k ∧ s.index k = i ∧ s.nValid = n := by
  have hr : s.readSector = k := by
    match k, hk, hsel with
    | 1, hk, _ => exact h.readSector_eq_one.mpr hk.endsValid
    | 0, _, hsel => exact h.readSector_eq_zero (hsel.resolve_left (by decide))
  have hi : s.index k = i := (h.index k).unique hk.erased
  have hv := h.nValid
  rw [hr, hi] at hv
  have heq := hv.unique hk.valid
  have h1 := h.nValid_le
  have h2 := hk.le
  rw [hr, hi] at h1
  exact ⟨hr, hi, by omega⟩

end Booted

theorem validBlock_of_nValid {s : NvmState} (h : s.nValid = 0) : validBlock s = [] := by
  rw [validBlock, h]
  rfl

/-- Initialization finds nothing if neither sector holds a block. -/
theorem Booted.consistent_of_quiet {s : NvmState} (h : Booted s)
    (hq : ∀ k, ∃ i, Quiet s.flash k i) : Consistent s ∧ s.nValid = 0 := by
  have hindex : ∀ k, Quiet s.flash k (s.index k) := by
    intro k
    obtain ⟨i, hi⟩ := hq k
    exact hi.init (h.index k)
  have hnv : s.nValid = 0 := by
    refine Nat.eq_zero_of_not_pos fun hpos => ?_
    exact (hindex s.readSector).not_endsValid (h.endsValid hpos)
  refine ⟨⟨hindex _, Or.inr ⟨hnv, hindex _⟩, ?_⟩, hnv⟩
  rw [h.nStagingArea]
  exact (hindex _).lt

/-- An initialization keeps what can be read. -/
theorem Consistent.reboot {s : NvmState} (h : Consistent s) :
    Consistent (boot s.flash) ∧ validBlock (boot s.flash) = validBlock s := by
  obtain ⟨hf, -, hb⟩ := boot_spec s.flash
  have hindex := hb.index
  rw [hf] at hindex
  have hquiet := h.write.init (hindex (1 - s.readSector))
  rcases h.read with hr | ⟨h0, hr⟩
  · have hsel : s.readSector = 1 ∨ ¬ EndsValid s.flash 1 := by
      rcases eq_or_eq_other s.readSector 1 with hk | hk
      · exact Or.inl hk.symm
      · rw [hk]
        exact Or.inr h.write.not_endsValid
    rw [← hf] at hsel
    obtain ⟨h1, h2, h3⟩ := hb.of_holding (by rw [hf]; exact hr) hsel
    constructor
    · refine ⟨?_, Or.inl ?_, ?_⟩
      · rw [hf, h1]
        exact hquiet
      · rw [hf, h1, h2, h3]
        exact hr
      · rw [hb.nStagingArea, h1]
        exact hquiet.lt
    · rw [validBlock, hf, h1, h2, h3]
      rfl
  · have hq : ∀ k, ∃ i, Quiet (boot s.flash).flash k i := by
      intro k
      rw [hf]
      rcases eq_or_eq_other s.readSector k with rfl | rfl
      · exact ⟨_, hr⟩
      · exact ⟨_, h.write⟩
    obtain ⟨hc, hnv⟩ := hb.consistent_of_quiet hq
    exact ⟨hc, by rw [validBlock_of_nValid h0, validBlock_of_nValid hnv]⟩

/-! ## Writing -/

theorem SameOutside.sector {m m' : Mem} {k k' : Fin 2} {i n : Nat}
    (h : SameOutside m m' (fieldAddr k i) (fieldAddr k (i + n))) (hfit : i + n ≤ nData)
    (hk : k' ≠ k) {j : Nat} (hj : j < sectorSize) : m' (base k' + j) = m (base k' + j) := by
  have hv : k'.val ≠ k.val := fun he => hk (Fin.ext he)
  have h1 := k.isLt
  have h2 := k'.isLt
  have hsize : sectorSize = 131072 := rfl
  rw [nData_eq] at hfit
  refine h _ ?_
  rw [fieldAddr, fieldAddr, base_eq, base_eq]
  omega

theorem SameOutside.cell {m m' : Mem} {k : Fin 2} {i n : Nat}
    (h : SameOutside m m' (fieldAddr k i) (fieldAddr k (i + n))) (hi : nReserved ≤ i)
    {j : Nat} (hj : j < nData) : Nor.cell m' (base k) j = Nor.cell m (base k) j := by
  refine cell_congr (h _ (Or.inl ?_))
  rw [nReserved_eq] at hi
  rw [nData_eq] at hj
  rw [fieldAddr]
  omega

/-- `NVM_write`, called with a range that does not wrap around, only changes the data of
the staging area. -/
theorem nvmWrite_frame {s s' : NvmState} (hh : s.hal = []) {offset : Nat}
    {data : List (BitVec 8)} {r : Int}
    (hfit : s.index (1 - s.readSector) + s.nStagingArea ≤ nData)
    (hsafe : CallSafe s (.write offset data)) (heq : nvmWrite offset data s = .ok r s') :
    ∃ flash j, s' = s.after flash j ∧
      SameOutside s.flash flash (fieldAddr (1 - s.readSector) (s.index (1 - s.readSector)))
        (fieldAddr (1 - s.readSector)
          (s.index (1 - s.readSector) + s.nStagingArea)) := by
  by_cases hrej : 8 * s.nStagingArea < u32 (offset + data.length)
  · rw [nvmWrite_reject hrej] at heq
    cases heq
    exact ⟨s.flash, 0, rfl, fun _ _ => rfl⟩
  · have hlt := hsafe.resolve_left hrej
    rw [u32_of_lt hlt] at hrej
    have hne := noError_of_nil hh
    obtain ⟨-, j, rfl⟩ := (nvmWrite_stores hne (Nat.not_lt.mp hrej) hfit).of_eq_ok heq
    refine ⟨_, j, rfl, fun a ha => program_outside ?_⟩
    rw [fieldAddr, fieldAddr] at *
    omega

/-- `NVM_start_write` and `NVM_write` leave the committed block alone. -/
theorem Consistent.startWrite {s s' : NvmState} {n : Nat} {r : Int} (h : Consistent s)
    (hend : StartWriteEnd s n r s') : Consistent s' ∧ validBlock s' = validBlock s := by
  have hge := h.write.nReserved_le
  have hlt := h.staging
  -- erasing the sector to write to
  have hroom : Consistent (room s n) ∧ validBlock (room s n) = validBlock s := by
    by_cases hc : n > nData - s.index (1 - s.readSector)
    · have hw : (room s n).index (1 - s.readSector) = nReserved := by
        rw [room_index_write, if_pos hc]
      have hflash : (room s n).flash =
          erase s.flash (base (1 - s.readSector)) sectorSize := by
        rw [room, if_pos hc]
        rfl
      refine h.update (room_readSector s n) (room_nValid s n) (room_index_read s n) ?_ ?_ ?_
      · intro j hj
        rw [hflash]
        exact erase_other s.flash (other_ne s.readSector).symm hj
      · rw [hw, hflash]
        exact Quiet.erase s.flash _
      · rw [hw, room_nStagingArea]
        omega
    · rw [room, if_neg hc]
      exact ⟨h, rfl⟩
  cases hend with
  | tooLong => exact ⟨h, rfl⟩
  | full => exact hroom
  | ok hfit hlt' m j hm =>
    obtain ⟨hc, hv⟩ := hroom
    rw [← hv]
    refine hc.update rfl rfl rfl ?_ ?_ ?_
    · intro i hi
      rw [room_readSector]
      exact hm.other_sector (Nat.le_of_lt hlt') (other_ne s.readSector).symm hi
    · have hq := hc.write
      rw [room_readSector] at hq ⊢
      exact hq.invalidate hm (Nat.le_refl _) hlt'
    · rw [room_readSector]
      exact hlt'

theorem Consistent.writeBlock {s s' : NvmState} {offset : Nat} {data : List (BitVec 8)}
    {r : Int} (h : Consistent s) (hh : s.hal = []) (hsafe : CallSafe s (.write offset data))
    (heq : nvmWrite offset data s = .ok r s') :
    Consistent s' ∧ validBlock s' = validBlock s := by
  have hfit := h.staging
  obtain ⟨flash, j, rfl, hsame⟩ := nvmWrite_frame hh (Nat.le_of_lt hfit) hsafe heq
  refine h.update rfl rfl rfl ?_ ?_ hfit
  · intro i hi
    exact hsame.sector (Nat.le_of_lt hfit) (other_ne s.readSector).symm hi
  · exact h.write.congr fun i _ hi => hsame.cell h.write.nReserved_le hi

/-! ## Committing -/

/-- Marking fields leaves the data of a range of fields alone. -/
theorem Marked.data_byte {m m' : Mem} {k k' : Fin 2} {lo hi i n : Nat} {state : FieldState}
    (h : Marked m m' (base k) lo hi state) (hhi : hi ≤ nData) (hi1 : nReserved ≤ i)
    (hi2 : i + n ≤ nData) {q : Nat} (hq : q < 8 * n) :
    m' (fieldAddr k' i + q) = m (fieldAddr k' i + q) := by
  have hbyte : m' (fieldAddr k' (i + q / 8) + q % 8) = m (fieldAddr k' (i + q / 8) + q % 8) :=
    h.data hhi (by omega) (by omega) (Nat.mod_lt _ (by decide))
  rwa [fieldAddr, show base k' + 8 * (i + q / 8) + q % 8 = base k' + 8 * i + q by omega] at hbyte

theorem Marked.data_read {m m' : Mem} {k k' : Fin 2} {lo hi i n : Nat} {state : FieldState}
    (h : Marked m m' (base k) lo hi state) (hhi : hi ≤ nData) (hi1 : nReserved ≤ i)
    (hi2 : i + n ≤ nData) :
    read m' (fieldAddr k' i) (8 * n) = read m (fieldAddr k' i) (8 * n) :=
  read_congr fun _ hq => h.data_byte hhi hi1 hi2 hq

theorem index_write_flipped (s : NvmState) (flash : Mem) (j i : Nat) :
    ((flipped s flash j).withIndex s.readSector i).index (1 - s.readSector) =
      s.index (1 - s.readSector) + s.nStagingArea := by
  show Function.update (Function.update s.index (1 - s.readSector) _) s.readSector i
    (1 - s.readSector) = _
  rw [Function.update_of_ne (other_ne s.readSector), Function.update_self]

theorem index_read_flipped (s : NvmState) (flash : Mem) (j i : Nat) :
    ((flipped s flash j).withIndex s.readSector i).index s.readSector = i := by
  show Function.update (flipped s flash j).index s.readSector i s.readSector = i
  rw [Function.update_self]

/-- Once the new fields are marked as valid, the staged block is the readable one. -/
theorem validBlock_flipped {s : NvmState} {m m' : Mem} {j i : Nat}
    (hge : nReserved ≤ s.index (1 - s.readSector))
    (hle : s.index (1 - s.readSector) + s.nStagingArea ≤ nData)
    (hm : Marked s.flash m (base (1 - s.readSector)) (s.index (1 - s.readSector))
      (s.index (1 - s.readSector) + s.nStagingArea) VALID)
    (hm' : m' = m ∨ ∃ k lo hi state, hi ≤ nData ∧ Marked m m' (base k) lo hi state) :
    validBlock ((flipped s m' j).withIndex s.readSector i) = stagedBlock s := by
  show read m' (fieldAddr (1 - s.readSector)
    (((flipped s m' j).withIndex s.readSector i).index (1 - s.readSector) - s.nStagingArea))
      (8 * s.nStagingArea) = stagedBlock s
  rw [index_write_flipped, Nat.add_sub_cancel, stagedBlock, ← hm.data_read hle hge hle]
  rcases hm' with rfl | ⟨k, lo, hi, state, hhi, hm'⟩
  · rfl
  · exact hm'.data_read hhi hge hle

section Commit

variable {s : NvmState} {m m' : Mem} (h : Consistent s)
  (hm : Marked s.flash m (base (1 - s.readSector)) (s.index (1 - s.readSector))
    (s.index (1 - s.readSector) + s.nStagingArea) VALID)
  (hm' : Marked m m' (base s.readSector) (s.index s.readSector)
    (s.index s.readSector + 1) INVALID)
  (hr : s.index s.readSector + 1 < nData)

include h hm hm' hr

/-- A commit leaves a quiet sector where it read from before. -/
theorem Consistent.old_quiet : Quiet m' s.readSector (s.index s.readSector + 1) := by
  have hcell : ∀ i, i < nData →
      cell m (base s.readSector) i = cell s.flash (base s.readSector) i :=
    fun i hi => hm.cell_other (Nat.le_of_lt h.staging) (other_ne s.readSector).symm hi
  refine quiet_succ ?_ hr ?_ ?_ hm'
  · rcases h.read with hread | ⟨-, hread⟩
    · exact Nat.le_trans hread.valid.lo_le (Nat.sub_le _ _)
    · exact hread.nReserved_le
  · intro i h1 h2
    rw [hcell i h2]
    exact h.read_above i h1 h2
  · rw [hcell _ (by decide)]
    exact h.read_last

/-- The table of the sector that was written to, after a commit. -/
theorem Consistent.new_cell {i : Nat} (hi : i < nData) : cell m' (base (1 - s.readSector)) i =
    if s.index (1 - s.readSector) ≤ i ∧ i < s.index (1 - s.readSector) + s.nStagingArea
    then VALID else cell s.flash (base (1 - s.readSector)) i := by
  have := h.staging
  rw [hm'.cell_other (Nat.le_of_lt hr) (other_ne s.readSector) hi, hm.cell, and_valid]

end Commit

/-- A safe commit succeeds, and makes the staged block the readable one. -/
theorem Consistent.commit {s s' : NvmState} {r : Int} (h : Consistent s)
    (hsafe : CallSafe s .commit) (hend : CommitEnd s r s') :
    r = 0 ∧ Consistent s' ∧ validBlock s' = stagedBlock s := by
  have hlt := h.staging
  have hge := h.write.nReserved_le
  obtain ⟨hne, hscan⟩ := hsafe
  obtain ⟨-, hread⟩ := h.read_bounds
  cases hend with
  | rejected hrej => omega
  | full _ hfull => exact absurd hfull hne
  | erased _ hr => omega
  | ok _ hr _ m m' j hm hm' =>
    refine ⟨rfl, ?_, validBlock_flipped hge (Nat.le_of_lt hlt) hm
      (Or.inr ⟨_, _, _, _, Nat.le_of_lt hr, hm'⟩)⟩
    have hiw := index_write_flipped s m' j (s.index s.readSector + 1)
    have hir := index_read_flipped s m' j (s.index s.readSector + 1)
    generalize hs' : (flipped s m' j).withIndex s.readSector (s.index s.readSector + 1) = s'
      at hiw hir
    have hrs : s'.readSector = 1 - s.readSector := by rw [← hs']; rfl
    have hnv : s'.nValid = s.nStagingArea := by rw [← hs']; rfl
    have hst : s'.nStagingArea = 0 := by rw [← hs']; rfl
    have hf : s'.flash = m' := by rw [← hs']; rfl
    constructor
    · rw [hrs, other_other, hf, hir]
      exact h.old_quiet hm hm' hr
    · rw [hrs, hf, hiw, hnv]
      rcases Nat.eq_zero_or_pos s.nStagingArea with h0 | hpos
      · rw [h0, Nat.add_zero]
        refine Or.inr ⟨rfl, h.write.congr fun i _ hi => ?_⟩
        rw [h.new_cell hm hm' hr hi, if_neg (by omega)]
      · obtain ⟨i', hs, heq⟩ := scanAllocationTable_eq s.flash (1 - s.readSector)
          (by decide : nReserved ≤ nData) ERASED
        have habove := hscan hpos
        rw [heq] at habove
        refine Or.inl ((h.write.validate hpos hlt hm fun i h1 h2 =>
          hs.all i (Nat.le_trans habove h1) h2).congr fun i hi => ?_)
        exact hm'.cell_other (Nat.le_of_lt hr) (other_ne s.readSector) hi
    · rw [hrs, other_other, hir, hst]
      exact hr

/-- A commit below an abandoned reservation is lost: an initialization finds nothing. -/
theorem Consistent.commit_hidden {s s' : NvmState} {r : Int} (h : Consistent s)
    (hend : CommitEnd s r s') (hr : s.index s.readSector + 1 ≠ nData)
    (hscan : s.index (1 - s.readSector) + s.nStagingArea <
      (scanAllocationTable s.flash (1 - s.readSector) nData ERASED).1) :
    r = 0 ∧ readAll (boot s'.flash) = some [] := by
  have hlt := h.staging
  obtain ⟨-, hread⟩ := h.read_bounds
  obtain ⟨i, hs, heq⟩ := scanAllocationTable_eq s.flash (1 - s.readSector)
    (by decide : nReserved ≤ nData) ERASED
  rw [heq] at hscan
  cases hend with
  | rejected hrej => omega
  | full _ hfull => exact absurd hfull hr
  | erased _ hr => omega
  | ok _ hr _ m m' j hm hm' =>
    obtain ⟨hf, -, hb⟩ := boot_spec m'
    have hq : ∀ k, ∃ i, Quiet (boot m').flash k i := by
      intro k
      rw [hf]
      rcases eq_or_eq_other s.readSector k with rfl | rfl
      · exact ⟨_, h.old_quiet hm hm' hr⟩
      · refine ⟨i, (h.write.init hs).congr fun j h1 h2 => ?_⟩
        rw [h.new_cell hm hm' hr h2, if_neg (by omega)]
    obtain ⟨hc, hnv⟩ := hb.consistent_of_quiet hq
    refine ⟨rfl, ?_⟩
    show readAll (boot m') = _
    rw [hc.readable, validBlock_of_nValid hnv]

/-- A commit while the sector to read from has one field left fails, after it has
switched to the new block. -/
theorem Consistent.commit_full {s s' : NvmState} {r : Int} (h : Consistent s)
    (hend : CommitEnd s r s') (hr : s.index s.readSector + 1 = nData) :
    r = -1 ∧ readAll s' = some (stagedBlock s) := by
  have hlt := h.staging
  cases hend with
  | rejected hrej => omega
  | ok _ hr' => omega
  | erased _ hr' => omega
  | full _ _ _ m j hm =>
    refine ⟨rfl, ?_⟩
    rw [readAll_eq, validBlock_flipped h.write.nReserved_le (Nat.le_of_lt hlt) hm (Or.inl rfl)]
    · show s.nStagingArea ≤ ((flipped s m j).withIndex s.readSector _).index (1 - s.readSector)
      rw [index_write_flipped]
      exact Nat.le_add_left _ _
    · show ((flipped s m j).withIndex s.readSector _).index (1 - s.readSector) ≤ nData
      rw [index_write_flipped]
      exact Nat.le_of_lt hlt

/-! ## Runs -/

theorem Consistent.inBounds {s : NvmState} (h : Consistent s) : InBounds s := by
  have hw := h.write.nReserved_le
  have hst := h.staging
  have hr : nReserved ≤ s.index s.readSector := by
    rcases h.read with hr | ⟨-, hr⟩
    · exact Nat.le_trans hr.valid.lo_le (Nat.sub_le _ _)
    · exact hr.nReserved_le
  refine ⟨fun k => ?_, fun k => ?_, by omega⟩
  · rcases eq_or_eq_other s.readSector k with rfl | rfl
    · exact hr
    · exact hw
  · rcases eq_or_eq_other s.readSector k with rfl | rfl
    · exact Nat.le_of_lt h.read_bounds.2
    · omega

/-- The invariant of the safe runs. -/
structure HistoryInv (p : History) : Prop where
  hal : p.state.hal = []
  consistent : Consistent p.state
  committed : validBlock p.state = p.committed

theorem historyInv_first : HistoryInv .first := by
  obtain ⟨hf, hh, hb⟩ := boot_spec erasedFlash
  obtain ⟨hc, hnv⟩ := hb.consistent_of_quiet fun k => ⟨nReserved, by
    rw [hf]
    exact ⟨Nat.le_refl _, by decide, fun _ _ _ => Or.inr (cell_erasedFlash k _), Or.inl rfl,
      cell_erasedFlash k _⟩⟩
  exact ⟨hh, hc, validBlock_of_nValid hnv⟩

/-- Every safe call keeps the invariant. -/
theorem HistoryInv.step {p p' : History} {c : Call} (h : HistoryInv p)
    (hsafe : CallSafe p.state c) (hstep : HistoryStep p c p') : HistoryInv p' := by
  obtain ⟨r, heq, hcom⟩ := hstep
  have hend := callEnd_of_run h.hal h.consistent.inBounds heq
  suffices hs : Consistent p'.state ∧ validBlock p'.state = p'.committed from
    ⟨callEnd_hal h.hal hend, hs.1, hs.2⟩
  cases c with
  | init =>
    change nvmInit p.state = .ok r p'.state at heq
    rw [nvmInit_eq_boot h.hal] at heq
    obtain ⟨-, hs⟩ := Outcome.ok.inj heq
    obtain ⟨hc, hv⟩ := h.consistent.reboot
    rw [hs] at hc hv
    exact ⟨hc, hv.trans (h.committed.trans hcom.symm)⟩
  | startWrite length =>
    cases hend with
    | startWrite hend =>
      obtain ⟨hc, hv⟩ := h.consistent.startWrite hend
      exact ⟨hc, hv.trans (h.committed.trans hcom.symm)⟩
  | write offset data =>
    obtain ⟨hc, hv⟩ := h.consistent.writeBlock h.hal hsafe heq
    exact ⟨hc, hv.trans (h.committed.trans hcom.symm)⟩
  | commit =>
    cases hend with
    | commit hend =>
      obtain ⟨rfl, hc, hv⟩ := h.consistent.commit hsafe hend
      exact ⟨hc, hv.trans hcom.symm⟩

theorem SafeHistory.inv {p : History} (h : SafeHistory p) : HistoryInv p := by
  obtain ⟨cs, hrun⟩ := h
  exact hrun.invariant historyInv_first fun _ _ _ h hstep => h.step hstep.1 hstep.2

/-- A commit that returns 0 makes the staged block the one that is read, and one that
does not keeps the block that was committed before; both at once and after an
initialization. -/
def CommitAtomic (p : History) : Prop :=
  ∃ r s', nvmCommit p.state = .ok r s' ∧
    (r = 0 → readAll s' = some (stagedBlock p.state) ∧
      readAll (stateAfter s' (nvmInit s')) = some (stagedBlock p.state)) ∧
    (r ≠ 0 → readAll s' = some p.committed ∧
      readAll (stateAfter s' (nvmInit s')) = some p.committed)

theorem HistoryInv.commitAtomic {p : History} (h : HistoryInv p)
    (hsafe : CallSafe p.state .commit) : CommitAtomic p := by
  obtain ⟨r, s', heq, hend⟩ := call_end h.hal h.consistent.inBounds .commit
  have hh := callEnd_hal h.hal hend
  cases hend with
  | commit hend =>
  obtain ⟨rfl, hc, hv⟩ := h.consistent.commit hsafe hend
  obtain ⟨hc', hv'⟩ := hc.reboot
  refine ⟨0, s', heq, fun _ => ⟨?_, ?_⟩, fun hr => absurd rfl hr⟩
  · rw [hc.readable, hv]
  · rw [nvmInit_eq_boot hh]
    show readAll (boot s'.flash) = _
    rw [hc'.readable, hv', hv]

theorem HistoryInv.safe_of_commitAtomic {p : History} (h : HistoryInv p)
    (hstaged : 0 < p.state.nStagingArea) (hnew : stagedBlock p.state ≠ p.committed)
    (hat : CommitAtomic p) : CallSafe p.state .commit := by
  obtain ⟨r, s', heq, hok, hfail⟩ := hat
  change Call.commit.run p.state = .ok r s' at heq
  have hend := callEnd_of_run h.hal h.consistent.inBounds heq
  have hh := callEnd_hal h.hal hend
  cases hend with
  | commit hend =>
  have hroom : p.state.index p.state.readSector + 1 ≠ nData := by
    intro hfull
    obtain ⟨rfl, hread⟩ := h.consistent.commit_full hend hfull
    rw [(hfail (by decide)).1] at hread
    exact hnew (Option.some.inj hread).symm
  refine ⟨hroom, fun _ => Nat.le_of_not_lt fun hscan => ?_⟩
  obtain ⟨rfl, hread⟩ := h.consistent.commit_hidden hend hroom hscan
  have hread' := (hok rfl).2
  rw [nvmInit_eq_boot hh] at hread'
  change readAll (boot s'.flash) = _ at hread'
  rw [hread] at hread'
  have hlen := congrArg List.length (Option.some.inj hread')
  rw [stagedBlock, length_read, List.length_nil] at hlen
  omega

/-- **In every run of safe calls, every safe commit is atomic and durable; a commit of a
new block that is not safe is not.** -/
theorem nvmCommit_atomic {p : History} (h : SafeHistory p) :
    (CallSafe p.state .commit → CommitAtomic p) ∧
      (0 < p.state.nStagingArea → stagedBlock p.state ≠ p.committed →
        ¬ CallSafe p.state .commit → ¬ CommitAtomic p) := by
  refine ⟨h.inv.commitAtomic, fun hstaged hnew hunsafe hat => hunsafe ?_⟩
  exact h.inv.safe_of_commitAtomic hstaged hnew hat

theorem safeHistory_first : SafeHistory .first := ⟨[], .nil⟩

/-- The history after a call. -/
def History.next (p : History) (c : Call) : History :=
  let o := c.run p.state
  ⟨stateAfter p.state o, c.committed p.state ((returned o).getD 0) p.committed⟩

/-- Every safe call continues a safe run. -/
theorem SafeHistory.next {p : History} (h : SafeHistory p) {c : Call}
    (hsafe : CallSafe p.state c) :
    SafeHistory (p.next c) ∧ ∃ r, CallEnd p.state c r (p.next c).state ∧
      (p.next c).committed = c.committed p.state r p.committed := by
  have hinv := h.inv
  obtain ⟨r, s', heq, hend⟩ := call_end hinv.hal hinv.consistent.inBounds c
  have hnext : p.next c = ⟨s', c.committed p.state r p.committed⟩ := by
    rw [History.next, heq]
    rfl
  obtain ⟨cs, hrun⟩ := h
  rw [hnext]
  exact ⟨⟨cs ++ [c], hrun.snoc ⟨hsafe, r, heq, rfl⟩⟩, r, hend, rfl⟩

/-- Reserving `n` fields above the index. -/
theorem startWriteEnd_fits {s s' : NvmState} {n : Nat} {r : Int} (hn : n ≤ nData - nReserved)
    (h : s.index (1 - s.readSector) + n < nData) (hend : StartWriteEnd s n r s') :
    s'.index = s.index ∧ s'.readSector = s.readSector ∧ s'.nStagingArea = n ∧
      Marked s.flash s'.flash (base (1 - s.readSector)) (s.index (1 - s.readSector))
        (s.index (1 - s.readSector) + n) INVALID := by
  have hroom : room s n = s := by
    rw [room, if_neg (by omega)]
  cases hend with
  | tooLong hlong => omega
  | full _ hfull =>
    rw [hroom] at hfull
    omega
  | ok _ _ m j hm =>
    rw [hroom] at hm ⊢
    exact ⟨rfl, rfl, rfl, hm⟩

/-- A block that is staged on the first boot can be committed. -/
theorem first_startWrite {length : Nat} (hfit : nReserved + fields length < nData) :
    let p := History.first.next (.startWrite length)
    SafeHistory p ∧ CallSafe p.state .commit ∧ (∀ k, p.state.index k = nReserved) ∧
      p.state.nStagingArea = fields length := by
  obtain ⟨h, r, hend, -⟩ := safeHistory_first.next
    (show CallSafe _ (.startWrite length) from trivial)
  intro p
  change SafeHistory p at h
  change CallEnd (boot erasedFlash) _ r p.state at hend
  rw [boot_erasedFlash] at hend
  cases hend with
  | startWrite hend =>
  obtain ⟨hi, hr, hn, hm⟩ := startWriteEnd_fits (by omega) hfit hend
  have hidx' : ∀ k, p.state.index k = nReserved := fun k => by rw [hi]; rfl
  refine ⟨h, ⟨by rw [hidx']; decide, fun _ => ?_⟩, hidx', hn⟩
  rw [hidx', hn, hr]
  refine scan_le (Nat.le_add_right _ _) fun i hi _ => ?_
  rw [hm.cell_outside (Or.inr hi)]
  exact cell_erasedFlash _ i

/-- One field is staged on the first boot and committed. -/
theorem nvmCommit_atomic_oneField : CommitAtomic (History.first.next (.startWrite 8)) :=
  have h := first_startWrite (show nReserved + fields 8 < nData by decide)
  (nvmCommit_atomic h.1).1 h.2.1

/-! ## A run with an unsafe commit -/

/-- Where a commit leaves the indices. -/
theorem commitEnd_index {s s' : NvmState} {r : Int}
    (h : s.index (1 - s.readSector) + s.nStagingArea < nData)
    (hr : s.index s.readSector + 1 < nData) (hend : CommitEnd s r s') :
    r = 0 ∧ s'.readSector = 1 - s.readSector ∧
      s'.index (1 - s.readSector) = s.index (1 - s.readSector) + s.nStagingArea ∧
      s'.index s.readSector = s.index s.readSector + 1 := by
  cases hend with
  | rejected hrej => omega
  | full _ hfull => omega
  | erased _ hr' => omega
  | ok _ _ _ m m' j hm hm' =>
    exact ⟨rfl, rfl, index_write_flipped .., index_read_flipped ..⟩

/-- After a block that leaves its sector with one free field, the next commit is not
safe. -/
theorem exists_unsafe_commit : ∃ p, SafeHistory p ∧ 0 < p.state.nStagingArea ∧
    stagedBlock p.state ≠ p.committed ∧
    p.state.index p.state.readSector + 1 = nData := by
  -- stage and commit 15871 fields
  obtain ⟨h₁, hsafe₁, hidx₁, hn₁⟩ := first_startWrite
    (show nReserved + fields 126968 < nData by decide)
  generalize History.first.next (.startWrite 126968) = p₁ at h₁ hsafe₁ hidx₁ hn₁
  rw [show fields 126968 = 15871 from rfl] at hn₁
  obtain ⟨h₂, r₂, hend₂, hcom₂⟩ := h₁.next hsafe₁
  generalize p₁.next .commit = p₂ at h₂ hend₂ hcom₂
  cases hend₂ with
  | commit hend₂ =>
  obtain ⟨rfl, hr₂, hw₂, hi₂⟩ :=
    commitEnd_index (by rw [hidx₁, hn₁]; decide) (by rw [hidx₁]; decide) hend₂
  rw [hidx₁, hn₁] at hw₂
  rw [hidx₁] at hi₂
  -- stage one field in the other sector
  obtain ⟨h₃, r₃, hend₃, hcom₃⟩ := h₂.next (show CallSafe _ (.startWrite 8) from trivial)
  generalize p₂.next (.startWrite 8) = p₃ at h₃ hend₃ hcom₃
  cases hend₃ with
  | startWrite hend₃ =>
  obtain ⟨hi₃, hr₃, hn₃, -⟩ := startWriteEnd_fits (by decide)
    (by rw [hr₂, other_other, hi₂]; decide) hend₃
  refine ⟨p₃, h₃, by rw [hn₃]; decide, fun heq => ?_, ?_⟩
  · have hlen := congrArg List.length heq
    rw [hcom₃, stagedBlock, length_read, hn₃] at hlen
    change _ = p₂.committed.length at hlen
    rw [hcom₂] at hlen
    change _ = (stagedBlock p₁.state).length at hlen
    rw [stagedBlock, length_read, hn₁] at hlen
    exact absurd hlen (by decide)
  · rw [hi₃, hr₃, hr₂, hw₂]
    rfl

/-- **A commit of a staged block can lose the block that was committed before, and fail.** -/
theorem nvmCommit_not_atomic :
    ¬ ∀ cs p, Run HistoryStep .first cs p → 0 < p.state.nStagingArea → CommitAtomic p := by
  intro h
  obtain ⟨p, hsafe, hstaged, hnew, hfull⟩ := exists_unsafe_commit
  have hinv := hsafe.inv
  obtain ⟨cs, hrun⟩ := hsafe
  have hat := h cs p (hrun.mono fun _ _ _ h => h.2) hstaged
  exact (hinv.safe_of_commitAtomic hstaged hnew hat).1 hfull

end WODrive.Nvm
