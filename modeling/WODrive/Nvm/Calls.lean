import WODrive.Nvm.Table
import Mathlib.Tactic.IntervalCases

/-!
# What the calls of the driver do

One specification for each function of the interface, for every state whose
indices lie in their sectors and for every point at which the power may be lost:

- `nvmInit_eq`: initialization reconstructs the variables from the flash
  (`Booted`);
- `nvmStartWrite_sat`, `nvmWrite_stores`, `nvmCommit_sat`: the state a call leaves,
  and the flash a power loss during the call leaves.

`fieldAddr` and the frame lemmas below say which addresses a call touches.
-/

namespace WODrive.Nvm

open Crash Nor

/-! ## Addresses -/

/-- The address of a 64-bit field of a sector. -/
def fieldAddr (sector : Fin 2) (i : Nat) : Nat := base sector + 8 * i

theorem nData_eq : nData = 16384 := rfl

theorem nReserved_eq : nReserved = 512 := rfl

theorem base_eq (sector : Fin 2) : base sector = 135004160 + 131072 * sector.val := by
  match sector with
  | 0 => rfl
  | 1 => rfl

/-- The sector that is not read from. -/
theorem other_ne (sector : Fin 2) : 1 - sector ≠ sector := by
  match sector with
  | 0 => decide
  | 1 => decide

@[simp] theorem other_other (sector : Fin 2) : 1 - (1 - sector) = sector := by
  match sector with
  | 0 => decide
  | 1 => decide

theorem eq_or_eq_other (r k : Fin 2) : k = r ∨ k = 1 - r := by
  match r, k with
  | 0, 0 => decide
  | 0, 1 => decide
  | 1, 0 => decide
  | 1, 1 => decide

theorem u32_of_lt {x : Nat} (h : x < 2 ^ 32) : u32 x = x := Nat.mod_eq_of_lt h

theorem subU32_of_le {a b : Nat} (h : b ≤ a) (ha : a < 2 ^ 32) : subU32 a b = a - b := by
  unfold subU32 u32
  omega

namespace Marked

variable {m m' : Mem} {k k' : Fin 2} {lo hi : Nat} {state : FieldState}

/-- Marking fields of one sector leaves the other sector alone. -/
theorem other_sector (h : Marked m m' (base k) lo hi state) (hhi : hi ≤ nData)
    (hk : k' ≠ k) {i : Nat} (hi' : i < sectorSize) : m' (base k' + i) = m (base k' + i) := by
  refine h.outside ?_
  have hv : k'.val ≠ k.val := fun he => hk (Fin.ext he)
  have h1 := k.isLt
  have h2 := k'.isLt
  rw [base_eq, base_eq]
  rw [nData_eq] at hhi
  have : sectorSize = 131072 := rfl
  omega

theorem cell_other (h : Marked m m' (base k) lo hi state) (hhi : hi ≤ nData)
    (hk : k' ≠ k) {i : Nat} (hi' : i < nData) :
    Nor.cell m' (base k') i = Nor.cell m (base k') i := by
  refine cell_congr (h.other_sector hhi hk ?_)
  have : sectorSize = 131072 := rfl
  rw [nData_eq] at hi'
  omega

/-- Marking fields leaves the data of every field alone. -/
theorem data (h : Marked m m' (base k) lo hi state) (hhi : hi ≤ nData) {i j : Nat}
    (hi1 : nReserved ≤ i) (hi2 : i < nData) (hj : j < 8) :
    m' (fieldAddr k' i + j) = m (fieldAddr k' i + j) := by
  rw [nData_eq] at hhi hi2
  rw [nReserved_eq] at hi1
  by_cases hk : k' = k
  · refine h.outside ?_
    rw [hk, fieldAddr]
    omega
  · rw [fieldAddr, Nat.add_assoc]
    refine h.other_sector (by rw [nData_eq]; exact hhi) hk ?_
    have : sectorSize = 131072 := rfl
    omega

end Marked

/-- Erasing a sector leaves the other one alone. -/
theorem erase_other (m : Mem) {k k' : Fin 2} (hk : k' ≠ k) {i : Nat} (hi : i < sectorSize) :
    erase m (base k) sectorSize (base k' + i) = m (base k' + i) := by
  refine erase_outside ?_
  have hv : k'.val ≠ k.val := fun he => hk (Fin.ext he)
  have h1 := k.isLt
  have h2 := k'.isLt
  rw [base_eq, base_eq]
  have : sectorSize = 131072 := rfl
  omega

theorem cell_erase_self (m : Mem) (k : Fin 2) {i : Nat} (hi : i < nData) :
    cell (erase m (base k) sectorSize) (base k) i = ERASED := by
  refine cell_erase ?_
  have : sectorSize = 131072 := rfl
  rw [nData_eq] at hi
  omega

/-! ## Initialization -/

/-- The variables are those `NVM_init` reconstructs from the flash. -/
structure Booted (s : NvmState) : Prop where
  index : ∀ k, IsSuffixStart (fun i => cell s.flash (base k) i = ERASED) nReserved nData
    (s.index k)
  readSector : s.readSector =
    if nReserved < s.index 1 ∧ cell s.flash (base 1) (s.index 1 - 1) = VALID then 1 else 0
  nValid : IsSuffixStart (fun i => cell s.flash (base s.readSector) i = VALID) nReserved
    (s.index s.readSector) (s.index s.readSector - s.nValid)
  nValid_le : s.nValid ≤ s.index s.readSector
  nStagingArea : s.nStagingArea = 0

theorem erased_ne_valid : ERASED ≠ VALID := by decide

/-- `NVM_init` succeeds, and reconstructs the variables from the flash. -/
theorem nvmInit_sat (s : NvmState) :
    (nvmInit s).Sat
      (fun r s' => r = 0 ∧ s'.flash = s.flash ∧ s'.hal = s.hal ∧ Booted s')
      (fun _ => False) := by
  have hle : nReserved ≤ nData := by decide
  obtain ⟨k0, hk0, heq0⟩ := scanAllocationTable_eq s.flash 0 hle ERASED
  obtain ⟨k1, hk1, heq1⟩ := scanAllocationTable_eq s.flash 1 hle ERASED
  -- the sector that is selected
  obtain ⟨r, hr⟩ : ∃ r : Fin 2, (if (if nReserved < k1 then cell s.flash (base 1) (k1 - 1)
      else ERASED) = VALID then (1 : Fin 2) else 0) = r := ⟨_, rfl⟩
  have hindex : ∀ k : Fin 2, IsSuffixStart (fun i => cell s.flash (base k) i = ERASED)
      nReserved nData (if k = 0 then k0 else k1) := fun k => by
    match k with
    | 0 => exact hk0
    | 1 => exact hk1
  obtain ⟨v, hv, heqv⟩ := scanAllocationTable_eq s.flash r (hindex r).lo_le VALID
  unfold nvmInit
  rw [sat_bind, sat_get]
  simp only [heq0, heq1, hr, heqv]
  rw [sat_bind, sat_set, sat_pure]
  refine ⟨rfl, rfl, rfl, hindex, ?_, ?_, Nat.sub_le _ _, rfl⟩
  · show r = _
    rw [← hr]
    by_cases hc : nReserved < k1
    · simp [hc]
    · simp [hc, erased_ne_valid]
  · show IsSuffixStart _ nReserved _ (_ - (_ - v))
    rw [Nat.sub_sub_self hv.le_hi]
    exact hv

theorem nvmInit_eq (s : NvmState) :
    ∃ s', nvmInit s = .ok 0 s' ∧ s'.flash = s.flash ∧ s'.hal = s.hal ∧ Booted s' := by
  obtain ⟨r, s', heq, rfl, h⟩ := (nvmInit_sat s).exists_ok fun _ => id
  exact ⟨s', heq, h⟩

/-- A booted state is determined by its flash. -/
theorem Booted.eq_of_flash {s s' : NvmState} (h : Booted s) (h' : Booted s')
    (hf : s'.flash = s.flash) (hh : s'.hal = s.hal) : s' = s := by
  have hidx : s'.index = s.index := funext fun k => by
    have := h'.index k
    rw [hf] at this
    exact this.unique (h.index k)
  have hrs : s'.readSector = s.readSector := by
    rw [h.readSector, h'.readSector, hf, hidx]
  have hnv : s'.nValid = s.nValid := by
    have h1 := h'.nValid
    rw [hf, hidx, hrs] at h1
    have h2 := h1.unique h.nValid
    have h3 := h.nValid_le
    have h4 := h'.nValid_le
    rw [hidx, hrs] at h4
    omega
  have hst : s'.nStagingArea = s.nStagingArea := by
    rw [h.nStagingArea, h'.nStagingArea]
  obtain ⟨i, r, n, v, f, l⟩ := s
  obtain ⟨i', r', n', v', f', l'⟩ := s'
  simp only at hidx hrs hnv hst hf hh
  rw [hidx, hrs, hnv, hst, hf, hh]

/-! ## Bounds of the variables -/

/-- The indices lie in their sectors (an index may be one past the last field). -/
structure InBounds (s : NvmState) : Prop where
  nReserved_le : ∀ k, nReserved ≤ s.index k
  le_nData : ∀ k, s.index k ≤ nData
  nStagingArea_le : s.nStagingArea ≤ nData

theorem Booted.inBounds {s : NvmState} (h : Booted s) : InBounds s :=
  ⟨fun k => (h.index k).lo_le, fun k => (h.index k).le_hi, by
    rw [h.nStagingArea]
    exact Nat.zero_le _⟩

/-! ## `NVM_start_write` -/

/-- The number of fields that hold a block of this length. -/
def fields (length : Nat) : Nat := u32 (length + 7) >>> 3

/-- The state in which `NVM_start_write` marks `count` fields: the target sector is
erased first if they do not fit behind its index. -/
def room (s : NvmState) (count : Nat) : NvmState :=
  if count > nData - s.index (1 - s.readSector) then
    { s.after (erase s.flash (base (1 - s.readSector)) sectorSize) 1 with
      index := Function.update s.index (1 - s.readSector) nReserved }
  else s

section Room

variable (s : NvmState) (count : Nat)

@[simp] theorem room_readSector : (room s count).readSector = s.readSector := by
  unfold room; split <;> rfl

@[simp] theorem room_nValid : (room s count).nValid = s.nValid := by
  unfold room; split <;> rfl

@[simp] theorem room_nStagingArea : (room s count).nStagingArea = s.nStagingArea := by
  unfold room; split <;> rfl

@[simp] theorem room_index_read : (room s count).index s.readSector = s.index s.readSector := by
  unfold room
  split
  · exact Function.update_of_ne (other_ne s.readSector).symm _ _
  · rfl

theorem room_index_write : (room s count).index (1 - s.readSector) =
    if count > nData - s.index (1 - s.readSector) then nReserved
    else s.index (1 - s.readSector) := by
  unfold room
  split
  · exact Function.update_self _ _ _
  · rfl

end Room

/-- How `NVM_start_write` of `n` fields ends. -/
inductive StartWriteEnd (s : NvmState) (n : Nat) : Int → NvmState → Prop where
  | tooLong (h : nData - nReserved < n) : StartWriteEnd s n (-1) s
  | full (h : n ≤ nData - nReserved)
      (h' : nData ≤ (room s n).index (1 - s.readSector) + n) :
      StartWriteEnd s n (-1) (room s n)
  | ok (h : n ≤ nData - nReserved)
      (h' : (room s n).index (1 - s.readSector) + n < nData) (m : Mem) (j : Nat)
      (hm : Marked (room s n).flash m (base (1 - s.readSector))
        ((room s n).index (1 - s.readSector))
        ((room s n).index (1 - s.readSector) + n) INVALID) :
      StartWriteEnd s n 0 { (room s n).after m j with nStagingArea := n }

/-- The flash a power loss during `NVM_start_write` of `n` fields leaves. -/
inductive StartWriteLoss (s : NvmState) (n : Nat) : Mem → Prop where
  | before : StartWriteLoss s n s.flash
  | marking (p : Nat) (m : Mem) (h' : (room s n).index (1 - s.readSector) + n < nData)
      (hp : (room s n).index (1 - s.readSector) ≤ p)
      (hp' : p ≤ (room s n).index (1 - s.readSector) + n)
      (hm : Marked (room s n).flash m (base (1 - s.readSector))
        ((room s n).index (1 - s.readSector)) p INVALID) : StartWriteLoss s n m

theorem room_hal (s : NvmState) (count : Nat) : ∃ j, (room s count).hal = s.hal.drop j := by
  unfold room
  split
  · exact ⟨1, rfl⟩
  · exact ⟨0, rfl⟩

/-- A power loss in the rest of a run is a power loss in the run. -/
theorem not_survives_of_drop {hal : List HalResult} {j k : Nat}
    (h : ¬ Survives (hal.drop j) k) : ∃ n, ¬ Survives hal n :=
  ⟨j + k, fun h' => h (survives_add.mp h').2⟩

theorem room_inBounds {s : NvmState} (hb : InBounds s) (count : Nat) :
    InBounds (room s count) := by
  unfold room
  split
  · refine ⟨fun k => ?_, fun k => ?_, hb.nStagingArea_le⟩
    · show nReserved ≤ Function.update s.index (1 - s.readSector) nReserved k
      by_cases hk : k = 1 - s.readSector
      · rw [hk, Function.update_self]
      · rw [Function.update_of_ne hk]
        exact hb.nReserved_le k
    · show Function.update s.index (1 - s.readSector) nReserved k ≤ nData
      by_cases hk : k = 1 - s.readSector
      · rw [hk, Function.update_self]
        decide
      · rw [Function.update_of_ne hk]
        exact hb.le_nData k
  · exact hb

/-- The end of `NVM_start_write`, once there is room for the fields. -/
theorem invalidateFields_sat {s : NvmState} (hne : NoError s.hal) (hb : InBounds s)
    {n : Nat} (hfit : n ≤ nData - nReserved) :
    (invalidateFields (1 - s.readSector) n (room s n)).Sat (StartWriteEnd s n)
      (fun d => (∃ j, ¬ Survives (room s n).hal j) ∧ StartWriteLoss s n d) := by
  obtain ⟨j, hj⟩ := room_hal s n
  have hle := (room_inBounds hb n).le_nData (1 - s.readSector)
  have hsum : u32 ((room s n).index (1 - s.readSector) + n) =
      (room s n).index (1 - s.readSector) + n := by
    refine u32_of_lt ?_
    rw [nData_eq] at hle hfit
    omega
  unfold invalidateFields
  rw [sat_bind, sat_get, sat_bind]
  refine (setAllocationState_sat (by rw [hj]; exact hne.drop j) _ _ _ _).mono ?_ ?_
  · intro r s' h
    have hge := (room_inBounds hb n).nReserved_le (1 - s.readSector)
    rw [hsum] at h
    by_cases hc : nData ≤ (room s n).index (1 - s.readSector) + n
    · rw [if_pos (Or.inr hc)] at h
      obtain ⟨rfl, rfl⟩ := h
      exact StartWriteEnd.full hfit hc
    · rw [if_neg (by omega)] at h
      obtain ⟨rfl, -, m, hm, rfl⟩ := h
      exact StartWriteEnd.ok hfit (Nat.lt_of_not_le hc) m _ hm
  · rintro d ⟨-, hlt, hs, p, hp1, hp2, -, hm⟩
    rw [hsum] at hlt
    exact ⟨⟨_, hs⟩, StartWriteLoss.marking p d hlt hp1 hp2 hm⟩

theorem nvmStartWrite_sat {s : NvmState} (hne : NoError s.hal) (hb : InBounds s)
    (length : Nat) :
    (nvmStartWrite length s).Sat (StartWriteEnd s (fields length))
      (fun d => (∃ j, ¬ Survives s.hal j) ∧ StartWriteLoss s (fields length) d) := by
  have hsub : subU32 nData (s.index (1 - s.readSector)) =
      nData - s.index (1 - s.readSector) := subU32_of_le (hb.le_nData _) (by decide)
  unfold nvmStartWrite
  rw [sat_bind, sat_get, sat_ite]
  refine ⟨StartWriteEnd.tooLong, fun hfit => ?_⟩
  have hmark := invalidateFields_sat hne hb (Nat.not_lt.mp hfit)
  rw [sat_ite, hsub]
  refine ⟨fun herase => ?_, fun herase => ?_⟩
  · rw [sat_bind]
    refine (eraseSector_sat hne (1 - s.readSector)).mono ?_ ?_
    · rintro r s' ⟨rfl, -, rfl⟩
      rw [room, if_pos herase] at hmark
      rw [sat_ite]
      refine ⟨fun h => absurd rfl h, fun _ => hmark.mono (fun r s' h => h) ?_⟩
      rintro d ⟨⟨j, hs⟩, hloss⟩
      exact ⟨not_survives_of_drop hs, hloss⟩
    · rintro d ⟨hs, rfl⟩
      exact ⟨⟨1, hs⟩, StartWriteLoss.before⟩
  · rw [room, if_neg herase] at hmark
    exact hmark

/-! ## `NVM_write` -/

/-- `m'` is `m` outside the addresses `[lo, hi)`. -/
def SameOutside (m m' : Mem) (lo hi : Nat) : Prop := ∀ a, a < lo ∨ hi ≤ a → m' a = m a

/-- What a loop of `NVM_write` does that stores `data` at `addr`: it programs the
data, and a power loss leaves all other addresses alone. -/
def Stores (x : NvmM Int) (s : NvmState) (addr : Nat) (data : List (BitVec 8)) : Prop :=
  (x s).Sat (fun r s' => r = 0 ∧ ∃ j, s' = s.after (program s.flash addr data) j)
    (fun d => (∃ j, ¬ Survives s.hal j) ∧ SameOutside s.flash d addr (addr + data.length))

theorem stores_nil (s : NvmState) (addr : Nat) : Stores (return 0) s addr [] :=
  ⟨rfl, 0, by rw [program_nil, after_zero]⟩

/-- One program operation, and then the rest of the loop. -/
theorem stores_program {s : NvmState} (hne : NoError s.hal) {addr : Nat}
    (bytes data : List (BitVec 8)) {rest : NvmM Int}
    (h : Stores rest (s.after (program s.flash addr bytes) 1) (addr + bytes.length) data) :
    Stores (orFail (halFlashProgram addr bytes) rest) s addr (bytes ++ data) := by
  unfold Stores
  rw [sat_orFail]
  refine (halFlashProgram_sat hne addr bytes).mono ?_ ?_
  · rintro status s' ⟨rfl, -, rfl⟩
    refine ⟨fun _ => h.mono ?_ ?_, fun _ heq => by cases heq⟩
    · rintro r s' ⟨rfl, j, rfl⟩
      exact ⟨rfl, 1 + j, by rw [program_append, after_after, after_flash]⟩
    · rintro d ⟨⟨j, hs⟩, hsame⟩
      refine ⟨not_survives_of_drop hs, fun a ha => ?_⟩
      rw [List.length_append] at ha
      rw [hsame a (by omega), after_flash]
      exact program_outside (by omega)
  · rintro d ⟨hs, rfl⟩
    exact ⟨⟨1, hs⟩, fun _ _ => rfl⟩

theorem writeEnd_stores (dest : Nat) : ∀ (data : List (BitVec 8)) (offset : Nat)
    (s : NvmState), NoError s.hal → dest + offset + data.length < 2 ^ 32 →
      Stores (writeEnd dest offset data) s (dest + offset) data
  | [], offset, s, _, _ => stores_nil s (dest + offset)
  | b :: data, offset, s, hne, hlt => by
    rw [List.length_cons] at hlt
    rw [writeEnd, u32_of_lt (by omega)]
    refine stores_program hne [b] data ?_
    exact writeEnd_stores dest data (offset + 1) _ (hne.drop 1) (by omega)

theorem writeWords_stores (dest : Nat) : ∀ (data : List (BitVec 8)) (offset : Nat)
    (s : NvmState), NoError s.hal → dest + offset + data.length < 2 ^ 32 →
      Stores (writeWords dest offset data) s (dest + offset) data
  | b0 :: b1 :: b2 :: b3 :: data, offset, s, hne, hlt => by
    simp only [List.length_cons] at hlt
    rw [writeWords, u32_of_lt (by omega)]
    refine stores_program hne [b0, b1, b2, b3] data ?_
    exact writeWords_stores dest data (offset + 4) _ (hne.drop 1) (by omega)
  | [], offset, s, hne, hlt => writeEnd_stores dest [] offset s hne hlt
  | [b0], offset, s, hne, hlt => writeEnd_stores dest [b0] offset s hne hlt
  | [b0, b1], offset, s, hne, hlt => writeEnd_stores dest [b0, b1] offset s hne hlt
  | [b0, b1, b2], offset, s, hne, hlt => writeEnd_stores dest [b0, b1, b2] offset s hne hlt

theorem writeStart_stores (dest : Nat) : ∀ (data : List (BitVec 8)) (offset : Nat)
    (s : NvmState), NoError s.hal → dest + offset + data.length < 2 ^ 32 →
      Stores (writeStart dest offset data) s (dest + offset) data
  | [], offset, s, hne, hlt => writeWords_stores dest [] offset s hne hlt
  | b :: data, offset, s, hne, hlt => by
    have hlt' := hlt
    rw [List.length_cons] at hlt'
    rw [writeStart]
    by_cases hal : offset &&& 3 ≠ 0
    · rw [if_pos hal, u32_of_lt (by omega)]
      refine stores_program hne [b] data ?_
      exact writeStart_stores dest data (offset + 1) _ (hne.drop 1) (by omega)
    · rw [if_neg hal]
      exact writeWords_stores dest (b :: data) offset s hne hlt

/-- `NVM_write` rejects what its length check does not let through. -/
theorem nvmWrite_reject {s : NvmState} {offset : Nat} {data : List (BitVec 8)}
    (h : 8 * s.nStagingArea < u32 (offset + data.length)) :
    nvmWrite offset data s = .ok (-1) s := by
  show (if u32 (offset + data.length) > s.nStagingArea <<< 3 then
    (return -1 : NvmM Int) else _) s = _
  rw [if_pos (by rw [Nat.shiftLeft_eq]; omega)]
  rfl

/-- `NVM_write` of a range of the staging area stores the data there. -/
theorem nvmWrite_stores {s : NvmState} (hne : NoError s.hal) {offset : Nat}
    {data : List (BitVec 8)} (hfit : offset + data.length ≤ 8 * s.nStagingArea)
    (hend : s.index (1 - s.readSector) + s.nStagingArea ≤ nData) :
    Stores (nvmWrite offset data) s
      (fieldAddr (1 - s.readSector) (s.index (1 - s.readSector)) + offset) data := by
  have hlt : fieldAddr (1 - s.readSector) (s.index (1 - s.readSector)) + offset +
      data.length < 2 ^ 32 := by
    have := (1 - s.readSector).isLt
    rw [fieldAddr, base_eq]
    rw [nData_eq] at hend
    omega
  unfold Stores nvmWrite
  rw [sat_bind, sat_get, sat_ite]
  refine ⟨fun h => ?_, fun _ => writeStart_stores _ data offset s hne hlt⟩
  rw [Nat.shiftLeft_eq, u32_of_lt (by rw [nData_eq] at hend; omega)] at h
  omega

/-- A run that changes nothing but the flash. -/
def OnlyFlash (x : NvmM Int) (s : NvmState) : Prop :=
  (x s).Sat (fun _ s' => ∃ flash j, s' = s.after flash j) (fun _ => ∃ j, ¬ Survives s.hal j)

theorem onlyFlash_return (r : Int) (s : NvmState) : OnlyFlash (return r) s :=
  ⟨s.flash, 0, rfl⟩

theorem onlyFlash_program {s : NvmState} (hne : NoError s.hal) (addr : Nat)
    (bytes : List (BitVec 8)) {rest : NvmM Int}
    (h : ∀ flash, OnlyFlash rest (s.after flash 1)) :
    OnlyFlash (orFail (halFlashProgram addr bytes) rest) s := by
  unfold OnlyFlash
  rw [sat_orFail]
  refine (halFlashProgram_sat hne addr bytes).mono ?_ ?_
  · rintro status s' ⟨rfl, -, rfl⟩
    refine ⟨fun _ => (h _).mono ?_ ?_, fun _ heq => by cases heq⟩
    · rintro r s' ⟨flash, j, rfl⟩
      exact ⟨flash, 1 + j, after_after ..⟩
    · rintro d ⟨j, hs⟩
      exact not_survives_of_drop hs
  · rintro d ⟨hs, -⟩
    exact ⟨1, hs⟩

theorem writeEnd_onlyFlash (dest : Nat) : ∀ (data : List (BitVec 8)) (offset : Nat)
    (s : NvmState), NoError s.hal → OnlyFlash (writeEnd dest offset data) s
  | [], _, s, _ => onlyFlash_return 0 s
  | _ :: data, offset, _, hne => by
    rw [writeEnd]
    exact onlyFlash_program hne _ _ fun flash =>
      writeEnd_onlyFlash dest data (offset + 1) _ (hne.drop 1)

theorem writeWords_onlyFlash (dest : Nat) : ∀ (data : List (BitVec 8)) (offset : Nat)
    (s : NvmState), NoError s.hal → OnlyFlash (writeWords dest offset data) s
  | _ :: _ :: _ :: _ :: data, offset, _, hne => by
    rw [writeWords]
    exact onlyFlash_program hne _ _ fun flash =>
      writeWords_onlyFlash dest data (offset + 4) _ (hne.drop 1)
  | [], offset, s, hne => writeEnd_onlyFlash dest [] offset s hne
  | [b0], offset, s, hne => writeEnd_onlyFlash dest [b0] offset s hne
  | [b0, b1], offset, s, hne => writeEnd_onlyFlash dest [b0, b1] offset s hne
  | [b0, b1, b2], offset, s, hne => writeEnd_onlyFlash dest [b0, b1, b2] offset s hne

theorem writeStart_onlyFlash (dest : Nat) : ∀ (data : List (BitVec 8)) (offset : Nat)
    (s : NvmState), NoError s.hal → OnlyFlash (writeStart dest offset data) s
  | [], offset, s, hne => writeWords_onlyFlash dest [] offset s hne
  | b :: data, offset, s, hne => by
    rw [writeStart]
    by_cases hal : offset &&& 3 ≠ 0
    · rw [if_pos hal]
      exact onlyFlash_program hne _ _ fun flash =>
        writeStart_onlyFlash dest data (offset + 1) _ (hne.drop 1)
    · rw [if_neg hal]
      exact writeWords_onlyFlash dest (b :: data) offset s hne

/-- `NVM_write`, of any range, changes nothing but the flash. -/
theorem nvmWrite_onlyFlash {s : NvmState} (hne : NoError s.hal) (offset : Nat)
    (data : List (BitVec 8)) : OnlyFlash (nvmWrite offset data) s := by
  unfold OnlyFlash nvmWrite
  rw [sat_bind, sat_get, sat_ite]
  exact ⟨fun _ => onlyFlash_return (-1) s, fun _ => writeStart_onlyFlash _ data offset s hne⟩

/-! ## `NVM_commit` -/

/-- The variables once the newly written fields are marked as valid: the sectors have
changed roles. -/
def flipped (s : NvmState) (flash : Mem) (j : Nat) : NvmState :=
  { s.after flash j with
    index := Function.update s.index (1 - s.readSector)
      (s.index (1 - s.readSector) + s.nStagingArea)
    nValid := s.nStagingArea
    nStagingArea := 0
    readSector := 1 - s.readSector }

/-- The state with the index of one sector replaced. -/
def NvmState.withIndex (s : NvmState) (sector : Fin 2) (i : Nat) : NvmState :=
  { s with index := Function.update s.index sector i }

/-- How `NVM_commit` ends. -/
inductive CommitEnd (s : NvmState) : Int → NvmState → Prop where
  | rejected (h : nData ≤ s.index (1 - s.readSector) + s.nStagingArea) : CommitEnd s (-1) s
  | ok (h : s.index (1 - s.readSector) + s.nStagingArea < nData)
      (hr : s.index s.readSector + 1 < nData)
      (hs : Survives s.hal
        (tableBytes (s.index (1 - s.readSector)) s.nStagingArea + 1)) (m m' : Mem) (j : Nat)
      (hm : Marked s.flash m (base (1 - s.readSector)) (s.index (1 - s.readSector))
        (s.index (1 - s.readSector) + s.nStagingArea) VALID)
      (hm' : Marked m m' (base s.readSector) (s.index s.readSector)
        (s.index s.readSector + 1) INVALID) :
      CommitEnd s 0 ((flipped s m' j).withIndex s.readSector (s.index s.readSector + 1))
  | full (h : s.index (1 - s.readSector) + s.nStagingArea < nData)
      (hr : s.index s.readSector + 1 = nData)
      (hs : Survives s.hal (tableBytes (s.index (1 - s.readSector)) s.nStagingArea))
      (m : Mem) (j : Nat)
      (hm : Marked s.flash m (base (1 - s.readSector)) (s.index (1 - s.readSector))
        (s.index (1 - s.readSector) + s.nStagingArea) VALID) :
      CommitEnd s (-1) ((flipped s m j).withIndex s.readSector (s.index s.readSector + 1))
  | erased (h : s.index (1 - s.readSector) + s.nStagingArea < nData)
      (hr : nData ≤ s.index s.readSector) (m : Mem) (j : Nat)
      (hm : Marked s.flash m (base (1 - s.readSector)) (s.index (1 - s.readSector))
        (s.index (1 - s.readSector) + s.nStagingArea) VALID) :
      CommitEnd s 0 ((flipped s (erase m (base s.readSector) sectorSize) j).withIndex
        s.readSector nReserved)

/-- The flash a power loss during `NVM_commit` leaves. -/
inductive CommitLoss (s : NvmState) : Mem → Prop where
  | marking (p : Nat) (m : Mem)
      (hs : ¬ Survives s.hal (tableBytes (s.index (1 - s.readSector)) s.nStagingArea))
      (hp : s.index (1 - s.readSector) ≤ p)
      (hp' : 0 < s.nStagingArea → p < s.index (1 - s.readSector) + s.nStagingArea)
      (hm : Marked s.flash m (base (1 - s.readSector)) (s.index (1 - s.readSector)) p VALID) :
      CommitLoss s m
  | marked (m : Mem)
      (hs : Survives s.hal (tableBytes (s.index (1 - s.readSector)) s.nStagingArea))
      (hm : Marked s.flash m (base (1 - s.readSector)) (s.index (1 - s.readSector))
        (s.index (1 - s.readSector) + s.nStagingArea) VALID) : CommitLoss s m

/-- The end of `NVM_commit`, once the new fields are marked. -/
theorem invalidateSector_sat {s : NvmState} (hne : NoError s.hal) (hb : InBounds s)
    (h : s.index (1 - s.readSector) + s.nStagingArea < nData) {m : Mem} {j : Nat}
    (hj : j = tableBytes (s.index (1 - s.readSector)) s.nStagingArea)
    (hsj : Survives s.hal j)
    (hm : Marked s.flash m (base (1 - s.readSector)) (s.index (1 - s.readSector))
      (s.index (1 - s.readSector) + s.nStagingArea) VALID) :
    (invalidateSector s.readSector (flipped s m j)).Sat (CommitEnd s)
      (fun d => (∃ k, ¬ Survives (s.hal.drop j) k) ∧ d = m) := by
  have hidx : (flipped s m j).index s.readSector = s.index s.readSector :=
    Function.update_of_ne (other_ne s.readSector).symm _ _
  have hne' : NoError (flipped s m j).hal := hne.drop j
  have hge := hb.nReserved_le s.readSector
  have hle := hb.le_nData s.readSector
  have hsum : u32 (s.index s.readSector + 1) = s.index s.readSector + 1 :=
    u32_of_lt (by rw [nData_eq] at hle; omega)
  unfold invalidateSector
  rw [sat_bind, sat_get, sat_ite, hidx]
  refine ⟨fun hlt => ?_, fun hnlt => ?_⟩
  · rw [sat_bind]
    refine (setAllocationState_sat hne' s.readSector (s.index s.readSector) 1
      INVALID).mono ?_ ?_
    · intro r s' h'
      rw [sat_bind, sat_modify, sat_pure]
      rw [hsum] at h'
      by_cases hc : s.index s.readSector + 1 < nData
      · rw [if_neg (by omega)] at h'
        obtain ⟨rfl, hs, m', hm', rfl⟩ := h'
        have hone : tableBytes (s.index s.readSector) 1 = 1 := by
          unfold tableBytes
          omega
        rw [hone] at hs
        have := CommitEnd.ok h hc (survives_add.mpr ⟨hj ▸ hsj, hj ▸ hs⟩) m m'
          (j + tableBytes (s.index s.readSector) 1) hm hm'
        simp only [NvmState.withIndex, flipped, NvmState.after] at this ⊢
        rw [List.drop_drop, Function.update_of_ne (other_ne s.readSector).symm]
        exact this
      · rw [if_pos (Or.inr (Nat.not_lt.mp hc))] at h'
        obtain ⟨rfl, rfl⟩ := h'
        have := CommitEnd.full h (by omega) (hj ▸ hsj) m j hm
        rw [hidx]
        exact this
    · rintro d ⟨-, -, hs, p, hp1, hp2, hp3, hm'⟩
      have hp : p = s.index s.readSector := by
        have := hp3 Nat.one_pos
        omega
      rw [hp] at hm'
      exact ⟨⟨_, hs⟩, hm'.eq_self⟩
  · refine (eraseSector_sat hne' s.readSector).mono ?_ ?_
    · rintro r s' ⟨rfl, -, rfl⟩
      have := CommitEnd.erased h (Nat.not_lt.mp hnlt) m (j + 1) hm
      simp only [NvmState.withIndex, flipped, NvmState.after] at this ⊢
      rw [List.drop_drop]
      exact this
    · rintro d ⟨hs, rfl⟩
      exact ⟨⟨1, hs⟩, rfl⟩

theorem nvmCommit_sat {s : NvmState} (hne : NoError s.hal) (hb : InBounds s) :
    (nvmCommit s).Sat (CommitEnd s)
      (fun d => (∃ j, ¬ Survives s.hal j) ∧ CommitLoss s d) := by
  have hge := hb.nReserved_le (1 - s.readSector)
  have hle := hb.le_nData (1 - s.readSector)
  have hst := hb.nStagingArea_le
  have hsum : u32 (s.index (1 - s.readSector) + s.nStagingArea) =
      s.index (1 - s.readSector) + s.nStagingArea :=
    u32_of_lt (by rw [nData_eq] at hle hst; omega)
  unfold nvmCommit
  rw [sat_bind, sat_get, sat_bind]
  refine (setAllocationState_sat hne _ _ _ _).mono ?_ ?_
  · intro r s' h
    rw [hsum] at h
    by_cases hc : nData ≤ s.index (1 - s.readSector) + s.nStagingArea
    · rw [if_pos (Or.inr hc)] at h
      obtain ⟨rfl, rfl⟩ := h
      exact CommitEnd.rejected hc
    · rw [if_neg (by omega)] at h
      obtain ⟨rfl, hs, m, hm, rfl⟩ := h
      rw [sat_ite]
      refine ⟨fun h => absurd rfl h, fun _ => ?_⟩
      rw [sat_bind, sat_modify]
      refine (invalidateSector_sat hne hb (Nat.not_le.mp hc) rfl hs hm).mono (fun r s' h => h) ?_
      rintro d ⟨⟨k, hk⟩, rfl⟩
      exact ⟨not_survives_of_drop hk, CommitLoss.marked d hs hm⟩
  · rintro d ⟨-, -, hs, p, hp1, -, hp3, hm⟩
    exact ⟨⟨_, hs⟩, CommitLoss.marking p d hs hp1 hp3 hm⟩

/-! ## Reading -/

/-- The readable block: the data of the fields `[index - n_valid, index)` of the read
sector. -/
def validBlock (s : NvmState) : List (BitVec 8) :=
  read s.flash (fieldAddr s.readSector (s.index s.readSector - s.nValid)) (8 * s.nValid)

/-- `NVM_read` of a range of the readable block. -/
theorem nvmRead_eq {s : NvmState} (hle : s.nValid ≤ s.index s.readSector)
    (hidx : s.index s.readSector ≤ nData) {offset length : Nat}
    (hrange : offset + length ≤ 8 * s.nValid) : nvmRead s offset length =
      some (read s.flash (fieldAddr s.readSector (s.index s.readSector - s.nValid) + offset)
        length) := by
  rw [nData_eq] at hidx
  have hbase := base_eq s.readSector
  have hlt := s.readSector.isLt
  rw [nvmRead, if_neg (by rw [u32_of_lt (by omega), Nat.shiftLeft_eq]; omega),
    subU32_of_le hle (by omega)]
  refine congrArg some (List.map_congr_left fun i hi => ?_)
  have := List.mem_range.mp hi
  rw [fieldAddr, u32_of_lt (by omega)]

/-- `NVM_get_max_read_length` does not wrap around. -/
theorem nvmGetMaxReadLength_eq {s : NvmState} (hle : s.nValid ≤ s.index s.readSector)
    (hidx : s.index s.readSector ≤ nData) : nvmGetMaxReadLength s = 8 * s.nValid := by
  rw [nData_eq] at hidx
  rw [nvmGetMaxReadLength, Nat.shiftLeft_eq, u32_of_lt (by omega)]
  omega

/-- `NVM_read(0, NVM_get_max_read_length())` -/
def readAll (s : NvmState) : Option (List (BitVec 8)) := nvmRead s 0 (nvmGetMaxReadLength s)

theorem readAll_eq {s : NvmState} (hle : s.nValid ≤ s.index s.readSector)
    (hidx : s.index s.readSector ≤ nData) : readAll s = some (validBlock s) := by
  have hlen := nvmGetMaxReadLength_eq hle hidx
  rw [readAll, nvmRead_eq hle hidx (by omega), hlen, Nat.add_zero]
  rfl

end WODrive.Nvm
