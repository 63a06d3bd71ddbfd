import WODrive.Nvm.Commit
import WODrive.Library.Register

/-!
# Saving with power losses

A save is a whole transaction: `NVM_start_write`, `NVM_write` of the block and
`NVM_commit`. The power may be lost between any two flash operations; after a restart
`NVM_init` finds a block, and that block is what the driver is meant to hold as a
register that survives power losses (`Register.Atomic`).

It is one in the runs whose commits meet `CommitSafe` (`saves_atomic`). A commit marks
its block as valid behind the field below it, and if that field is valid as well, the two
blocks are one for `NVM_init`. Such a field is what a power loss leaves between the two
steps of an earlier commit. The other part of the condition is the one free field of
`CallSafe`.

The invariant is `Clean`: the variables are those `NVM_init` would reconstruct, and
the fields above the indices are erased, their data included.
-/

namespace WODrive.Nvm

open Crash Nor Register

/-! ## Transactions -/

/-- A block that a caller can pass to the driver (its length is a `size_t`). -/
def Block : Type := { b : List (BitVec 8) // 0 < b.length ∧ b.length < 2 ^ 32 }

/-- A block as it is read back: a whole number of fields, the rest of the last one
erased. -/
def padded (block : List (BitVec 8)) : List (BitVec 8) :=
  block ++ List.replicate (8 * fields block.length - block.length) (BitVec.allOnes 8)

/-- The calls of a save before `NVM_commit`; the first one that fails ends it. -/
def stage (block : List (BitVec 8)) : NvmM Int := do
  let status ← nvmStartWrite block.length
  if status ≠ 0 then return status
  else nvmWrite 0 block

/-- The power is lost at the flash operation number `k`, or not at all. -/
def halUntil : Option Nat → List HalResult
  | none => []
  | some k => List.replicate k .ok ++ [.powerLoss]

/-- What a user of the driver does, and what may happen. -/
inductive Event where
  | save (block : Block) (cut : Option Nat)
  | restart

/-- A power loss, or a reset, and the initialization that follows. -/
def restarted (pending : Option (List (BitVec 8))) (flash : Mem) :
    Obs (Option (List (BitVec 8))) × NvmState :=
  (.restarted (pending.map some) (readAll (boot flash)), boot flash)

/-- One event, with what is observed of it. -/
def Event.step (s : NvmState) : Event → Obs (Option (List (BitVec 8))) × NvmState
  | .restart => restarted none s.flash
  | .save block cut =>
    match stage block.1 { s with hal := halUntil cut } with
    | .powerLoss flash => restarted none flash
    | .ok r s₁ =>
      if r ≠ 0 then (.refused, s₁)
      else
        match nvmCommit s₁ with
        | .powerLoss flash => restarted (some (padded block.1)) flash
        | .ok r s₂ => if r = 0 then (.stored (some (padded block.1)), s₂) else (.refused, s₂)

/-- A commit that does not run into a defect of the driver. The conditions are about the
steps that the power supply lets it take: marking its block, and marking the other
sector. -/
structure CommitSafe (s : NvmState) : Prop where
  room : Survives s.hal (tableBytes (s.index (1 - s.readSector)) s.nStagingArea) →
    s.index s.readSector + 1 ≠ nData
  below : Survives s.hal (tableBytes (s.index (1 - s.readSector)) s.nStagingArea + 1) →
    s.index (1 - s.readSector) = nReserved ∨
      cell s.flash (base (1 - s.readSector)) (s.index (1 - s.readSector) - 1) ≠ VALID

/-- The commit of a save is safe, if the save gets that far. -/
def EventSafe (s : NvmState) : Event → Prop
  | .restart => True
  | .save block cut =>
    ∀ s₁, stage block.1 { s with hal := halUntil cut } = .ok 0 s₁ → CommitSafe s₁

/-! ## Clean states -/

/-- The fields of a sector above `i` are erased, and `i` is the least such index. -/
structure Tail (flash : Mem) (k : Fin 2) (i : Nat) : Prop where
  erased : IsSuffixStart (fun j => cell flash (base k) j = ERASED) nReserved nData i
  lt : i < nData
  blank : ∀ j, 8 * i ≤ j → j < sectorSize → flash (base k + j) = BitVec.allOnes 8

/-- The variables are those `NVM_init` would reconstruct, and both sectors are erased above
their indices. -/
structure Clean (s : NvmState) : Prop where
  booted : Booted s
  tail : ∀ k, Tail s.flash k (s.index k)

/-- The HAL plays no role in it. -/
theorem Clean.withHal {s : NvmState} (h : Clean s) (hal : List HalResult) :
    Clean { s with hal := hal } :=
  ⟨⟨h.booted.index, h.booted.readSector, h.booted.nValid, h.booted.nValid_le,
    h.booted.nStagingArea⟩, h.tail⟩

/-- The flash of one sector is the same. -/
def SameSector (m m' : Mem) (k : Fin 2) : Prop :=
  ∀ j, j < sectorSize → m' (base k + j) = m (base k + j)

namespace SameSector

variable {m m' m'' : Mem} {k : Fin 2}

theorem trans (h : SameSector m m' k) (h' : SameSector m' m'' k) : SameSector m m'' k :=
  fun j hj => (h' j hj).trans (h j hj)

theorem cell (h : SameSector m m' k) {j : Nat} (hj : j < nData) :
    Nor.cell m' (base k) j = Nor.cell m (base k) j := by
  have hsize : sectorSize = 131072 := rfl
  rw [nData_eq] at hj
  exact cell_congr (h _ (by omega))

theorem tail (h : SameSector m m' k) {i : Nat} (ht : Tail m k i) : Tail m' k i := by
  refine ⟨ht.erased.congr fun j _ hj => ?_, ht.lt, fun j h1 h2 => ?_⟩
  · show _ ↔ Nor.cell m' (base k) j = ERASED
    rw [h.cell hj]
  · rw [h j h2]
    exact ht.blank j h1 h2

theorem endsValid (h : SameSector m m' k) (hv : EndsValid m k) : EndsValid m' k := by
  obtain ⟨i, hi, hlt, hv⟩ := hv
  have hle := hi.le_hi
  refine ⟨i, hi.congr fun j _ hj => ?_, hlt, ?_⟩
  · show _ ↔ Nor.cell m' (base k) j = ERASED
    rw [h.cell hj]
  · rw [h.cell (by omega)]
    exact hv

end SameSector

theorem Tail.not_endsValid {flash : Mem} {k : Fin 2} {i : Nat} (h : Tail flash k i)
    (hv : i = nReserved ∨ cell flash (base k) (i - 1) ≠ VALID) : ¬ EndsValid flash k := by
  rintro ⟨i', hi', hlt, hval⟩
  rw [hi'.unique h.erased] at hlt hval
  rcases hv with h0 | h0
  · omega
  · exact h0 hval

/-- The variables that `NVM_init` reconstructs, by what `EndsValid` says of sector 1. -/
theorem Booted.of_endsValid {s : NvmState}
    (hi : ∀ k, IsSuffixStart (fun i => cell s.flash (base k) i = ERASED) nReserved nData
      (s.index k))
    (hr : s.readSector = 1 ↔ EndsValid s.flash 1)
    (hv : IsSuffixStart (fun i => cell s.flash (base s.readSector) i = VALID) nReserved
      (s.index s.readSector) (s.index s.readSector - s.nValid))
    (hle : s.nValid ≤ s.index s.readSector) (hst : s.nStagingArea = 0) : Booted s := by
  refine ⟨hi, ?_, hv, hle, hst⟩
  by_cases h1 : s.readSector = 1
  · obtain ⟨i, hi', hval⟩ := hr.mp h1
    rw [hi'.unique (hi 1)] at hval
    rw [if_pos hval, h1]
  · rw [if_neg fun hval => h1 (hr.mpr ⟨_, hi 1, hval⟩)]
    rcases eq_or_eq_other 1 s.readSector with h | h
    · exact absurd h h1
    · exact h

/-- What an interrupted save leaves: a restart finds the block of before. -/
def Keeps (s : NvmState) (flash : Mem) : Prop :=
  Clean (boot flash) ∧ validBlock (boot flash) = validBlock s

/-- Changes to the sector to write to are not seen by a restart, if they do not end it
with a valid field where that would matter. -/
theorem Clean.keep {s s' : NvmState} (h : Clean s) (hr : s'.readSector = s.readSector)
    (hv : s'.nValid = s.nValid) (hi : s'.index s.readSector = s.index s.readSector)
    (hst : s'.nStagingArea = 0) (hsame : SameSector s.flash s'.flash s.readSector)
    (ht : Tail s'.flash (1 - s.readSector) (s'.index (1 - s.readSector)))
    (hend : s.readSector = 0 → ¬ EndsValid s'.flash (1 - s.readSector)) :
    Clean s' ∧ validBlock s' = validBlock s := by
  have hread := hsame.tail (h.tail s.readSector)
  rw [← hi] at hread
  have htail : ∀ k, Tail s'.flash k (s'.index k) := by
    intro k
    rcases eq_or_eq_other s.readSector k with rfl | rfl
    · exact hread
    · exact ht
  have hle := h.booted.nValid_le
  have hlt := (h.tail s.readSector).lt
  refine ⟨⟨Booted.of_endsValid (fun k => (htail k).erased) ?_ ?_ ?_ hst, htail⟩, ?_⟩
  · rw [hr]
    constructor
    · intro h1
      have hval := h.booted.readSector_eq_one.mp h1
      rw [h1] at hsame
      exact hsame.endsValid hval
    · intro hval
      rcases eq_or_eq_other 1 s.readSector with h1 | h1
      · exact h1
      · have h0 := hend h1
        rw [h1] at h0
        exact absurd hval h0
  · rw [hr, hv, hi]
    refine h.booted.nValid.congr fun j _ hj => ?_
    show _ ↔ cell s'.flash (base s.readSector) j = VALID
    rw [hsame.cell (by omega)]
  · rw [hr, hv, hi]
    exact hle
  · have hsize : sectorSize = 131072 := rfl
    rw [nData_eq] at hlt
    rw [validBlock, validBlock, hr, hv, hi]
    refine read_congr fun q hq => ?_
    rw [fieldAddr, Nat.add_assoc]
    exact hsame _ (by omega)

/-- The same for the flash that a power loss leaves. -/
theorem Clean.keeps {s : NvmState} (h : Clean s) {flash : Mem} {i : Nat}
    (hsame : SameSector s.flash flash s.readSector) (ht : Tail flash (1 - s.readSector) i)
    (hend : s.readSector = 0 → ¬ EndsValid flash (1 - s.readSector)) : Keeps s flash := by
  obtain ⟨hf, hh, hb⟩ := boot_spec flash
  -- the state that the initialization finds
  obtain ⟨s', hs'⟩ : ∃ s' : NvmState, s' =
      { s with
        index := Function.update s.index (1 - s.readSector) i
        nStagingArea := 0
        flash := flash
        hal := [] } := ⟨_, rfl⟩
  have hkeep : Clean s' ∧ validBlock s' = validBlock s := by
    rw [hs']
    refine h.keep rfl rfl ?_ rfl hsame ?_ hend
    · exact Function.update_of_ne (other_ne s.readSector).symm _ _
    · show Tail flash _ (Function.update s.index (1 - s.readSector) i (1 - s.readSector))
      rw [Function.update_self]
      exact ht
  have hboot : boot flash = s' := by
    refine hkeep.1.booted.eq_of_flash hb ?_ ?_
    · rw [hf, hs']
    · rw [hh, hs']
  rw [Keeps, hboot]
  exact hkeep

/-! ## What the calls do to the end of a sector -/

namespace Tail

variable {flash m : Mem} {k : Fin 2} {i p e : Nat} {state : FieldState}

theorem nReserved_le (h : Tail flash k i) : nReserved ≤ i := h.erased.lo_le

/-- Marking keeps the data. -/
theorem blank_marked (h : Tail flash k i) (hm : Marked flash m (base k) p e state)
    (he : e ≤ nData) : ∀ j, 8 * i ≤ j → j < sectorSize →
      m (base k + j) = BitVec.allOnes 8 := by
  intro j h1 h2
  have hge := h.nReserved_le
  rw [nReserved_eq] at hge
  rw [nData_eq] at he
  rw [hm.outside (Or.inr (by omega))]
  exact h.blank j h1 h2

/-- Marking the first erased fields moves the end. -/
theorem mark (h : Tail flash k i) (hm : Marked flash m (base k) i p state) (hi : i ≤ p)
    (hp : p < nData) (hs : state ≠ ERASED) : Tail m k p := by
  have hge := h.nReserved_le
  refine ⟨⟨by omega, Nat.le_of_lt hp, fun j h1 h2 => ?_, ?_⟩, hp, fun j h1 h2 =>
    h.blank_marked hm (Nat.le_of_lt hp) j (by omega) h2⟩
  · rw [hm.cell_outside (Or.inr h1)]
    exact h.erased.all j (by omega) h2
  · rcases Nat.eq_or_lt_of_le hi with rfl | hlt
    · rcases h.erased.stop with h0 | h0
      · exact Or.inl h0
      · right
        rw [hm.cell_below hge (Nat.le_refl _)]
        exact h0
    · right
      rw [hm.cell_inside (by omega) (by omega), h.erased.all (p - 1) (by omega) (by omega)]
      intro heq
      exact hs ((BitVec.allOnes_and.symm.trans heq : state = ERASED))

/-- Marking fields below the end again keeps it. -/
theorem remark (h : Tail flash k e) (hm : Marked flash m (base k) i p state) (hp : p ≤ e) :
    Tail m k e := by
  have hlt := h.lt
  refine ⟨⟨h.nReserved_le, Nat.le_of_lt hlt, fun j h1 h2 => ?_, ?_⟩, hlt, fun j h1 h2 =>
    h.blank_marked hm (by omega) j h1 h2⟩
  · rw [hm.cell_outside (by omega)]
    exact h.erased.all j h1 h2
  · have hand : ∀ c s : FieldState, c ≠ ERASED → c &&& s ≠ ERASED := by decide
    rcases h.erased.stop with h0 | h0
    · exact Or.inl h0
    · right
      rw [hm.cell]
      split
      · exact hand _ _ h0
      · exact h0

/-- Storing data below the end keeps it. -/
theorem store (h : Tail flash k e) (hm : SameOutside flash m (fieldAddr k i) (fieldAddr k e))
    (hi : nReserved ≤ i) : Tail m k e := by
  have hlt := h.lt
  have hcell : ∀ j, j < nData → cell m (base k) j = cell flash (base k) j := by
    intro j hj
    refine cell_congr (hm _ (Or.inl ?_))
    rw [nReserved_eq] at hi
    rw [nData_eq] at hj
    rw [fieldAddr]
    omega
  refine ⟨h.erased.congr fun j _ hj => ?_, hlt, fun j h1 h2 => ?_⟩
  · show _ ↔ cell m (base k) j = ERASED
    rw [hcell j hj]
  · rw [hm _ (Or.inr (by rw [fieldAddr]; omega))]
    exact h.blank j h1 h2

theorem erase (flash : Mem) (k : Fin 2) :
    Tail (erase flash (base k) sectorSize) k nReserved :=
  ⟨⟨Nat.le_refl _, by decide, fun _ _ h => cell_erase_self flash k h, Or.inl rfl⟩,
    by decide, fun _ _ h => erase_inside (Nat.le_add_right _ _) (by omega)⟩

end Tail

theorem Marked.sameSector {m m' : Mem} {k k' : Fin 2} {lo hi : Nat} {state : FieldState}
    (h : Marked m m' (base k) lo hi state) (hhi : hi ≤ nData) (hk : k' ≠ k) :
    SameSector m m' k' := fun _ hj => h.other_sector hhi hk hj

/-- Where sector 0 is read from, sector 1 does not end with a valid field. -/
theorem Clean.below {s : NvmState} (h : Clean s) (h0 : s.readSector = 0) :
    s.index (1 - s.readSector) = nReserved ∨
      cell s.flash (base (1 - s.readSector)) (s.index (1 - s.readSector) - 1) ≠ VALID := by
  have hge := (h.tail 1).nReserved_le
  rw [h0, show (1 - 0 : Fin 2) = 1 from rfl]
  by_cases hi : s.index 1 = nReserved
  · exact Or.inl hi
  · right
    intro hval
    have := h.booted.readSector_eq_one.mpr ⟨_, h.booted.index 1, by omega, hval⟩
    rw [h0] at this
    exact absurd this (by decide)

/-- Making room for new fields. -/
theorem Clean.room {s : NvmState} (h : Clean s) (n : Nat) :
    Clean (room s n) ∧ validBlock (Nvm.room s n) = validBlock s ∧
      SameSector s.flash (Nvm.room s n).flash s.readSector := by
  by_cases hc : n > nData - s.index (1 - s.readSector)
  · have hw : (Nvm.room s n).index (1 - s.readSector) = nReserved := by
      rw [room_index_write, if_pos hc]
    have hflash : (Nvm.room s n).flash =
        Nor.erase s.flash (base (1 - s.readSector)) sectorSize := by
      rw [Nvm.room, if_pos hc]
      rfl
    have hsame : SameSector s.flash (Nvm.room s n).flash s.readSector := by
      intro j hj
      rw [hflash]
      exact erase_other s.flash (other_ne s.readSector).symm hj
    have hkeep : Clean (Nvm.room s n) ∧ validBlock (Nvm.room s n) = validBlock s := by
      refine h.keep (room_readSector s n) (room_nValid s n) (room_index_read s n)
        ((room_nStagingArea s n).trans h.booted.nStagingArea) hsame ?_ fun h0 => ?_
      · rw [hw, hflash]
        exact Tail.erase s.flash _
      · rw [hflash]
        exact (Tail.erase s.flash _).not_endsValid (Or.inl rfl)
    exact ⟨hkeep.1, hkeep.2, hsame⟩
  · rw [Nvm.room, if_neg hc]
    exact ⟨h, rfl, fun _ _ => rfl⟩

/-! ## Staging a block -/

theorem noError_halUntil (cut : Option Nat) : NoError (halUntil cut) := by
  intro r hr
  cases cut with
  | none => exact absurd hr List.not_mem_nil
  | some k =>
    rcases List.mem_append.mp hr with hr | hr
    · exact Or.inl (List.eq_of_mem_replicate hr)
    · exact Or.inr (List.mem_singleton.mp hr)

/-- The fields of a block; a length close to the end of the `size_t` range wraps to 0. -/
theorem fields_cases {length : Nat} (h : length < 2 ^ 32) :
    8 * fields length = length + (8 * fields length - length) ∧
      8 * fields length - length < 8 ∨ fields length = 0 ∧ 2 ^ 32 - 8 < length := by
  rw [fields, u32, Nat.shiftRight_eq_div_pow]
  omega

/-- `s₁` is `s` with the block staged. -/
structure Staged (s s₁ : NvmState) (block : List (BitVec 8)) : Prop where
  readSector : s₁.readSector = s.readSector
  nValid : s₁.nValid = s.nValid
  index_read : s₁.index s.readSector = s.index s.readSector
  hal : ∃ j, s₁.hal = s.hal.drop j
  same : SameSector s.flash s₁.flash s.readSector
  pos : 0 < s₁.nStagingArea
  count : s₁.nStagingArea = fields block.length
  nReserved_le : nReserved ≤ s₁.index (1 - s.readSector)
  tail : Tail s₁.flash (1 - s.readSector) (s₁.index (1 - s.readSector) + s₁.nStagingArea)
  invalid : ∀ j, s₁.index (1 - s.readSector) ≤ j →
    j < s₁.index (1 - s.readSector) + s₁.nStagingArea →
      cell s₁.flash (base (1 - s.readSector)) j = INVALID
  below : s.readSector = 0 → s₁.index (1 - s.readSector) = nReserved ∨
    cell s₁.flash (base (1 - s.readSector)) (s₁.index (1 - s.readSector) - 1) ≠ VALID
  kept : s.index (1 - s.readSector) + s₁.nStagingArea ≤ nData →
    s₁.index (1 - s.readSector) = s.index (1 - s.readSector) ∧
      ∀ i, i < s.index (1 - s.readSector) →
        cell s₁.flash (base (1 - s.readSector)) i = cell s.flash (base (1 - s.readSector)) i
  block : stagedBlock s₁ = padded block

/-- Marking the reserved fields. -/
theorem Clean.reserve {s : NvmState} (h : Clean s) {m : Mem} {p : Nat}
    (hm : Marked s.flash m (base (1 - s.readSector)) (s.index (1 - s.readSector)) p INVALID)
    (hi : s.index (1 - s.readSector) ≤ p) (hp : p < nData) :
    Tail m (1 - s.readSector) p ∧ SameSector s.flash m s.readSector ∧
      (s.readSector = 0 → ¬ EndsValid m (1 - s.readSector)) := by
  have htail := (h.tail (1 - s.readSector)).mark hm hi hp (by decide)
  refine ⟨htail, hm.sameSector (Nat.le_of_lt hp) (other_ne s.readSector).symm, fun h0 => ?_⟩
  have hge := (h.tail (1 - s.readSector)).nReserved_le
  have herased := (h.tail (1 - s.readSector)).erased
  refine htail.not_endsValid ?_
  rcases Nat.eq_or_lt_of_le hi with heq | hlt
  · -- no field was marked
    rcases h.below h0 with hb | hb
    · exact Or.inl (heq.symm.trans hb)
    · right
      rw [← heq, hm.cell_below hge (Nat.le_refl _)]
      exact hb
  · right
    rw [hm.cell_inside (by omega) (by omega), herased.all (p - 1) (by omega) (by omega)]
    decide

/-- The block is read back from the fields that it is written to, with what is erased behind
it. -/
theorem Clean.read_program {s : NvmState} (h : Clean s) {m : Mem} {n : Nat}
    {block : List (BitVec 8)} (hn : n = fields block.length)
    (hlen : 8 * n = block.length + (8 * n - block.length))
    (hfit : s.index (1 - s.readSector) + n < nData)
    (hm : Marked s.flash m (base (1 - s.readSector)) (s.index (1 - s.readSector))
      (s.index (1 - s.readSector) + n) INVALID) :
    read (program m (fieldAddr (1 - s.readSector) (s.index (1 - s.readSector))) block)
      (fieldAddr (1 - s.readSector) (s.index (1 - s.readSector))) (8 * n) = padded block := by
  have hW := h.tail (1 - s.readSector)
  have hblank : ∀ q, q < 8 * n →
      m (fieldAddr (1 - s.readSector) (s.index (1 - s.readSector)) + q) =
        BitVec.allOnes 8 := by
    intro q hq
    have hsize : sectorSize = 131072 := rfl
    rw [nData_eq] at hfit
    rw [fieldAddr, Nat.add_assoc]
    exact hW.blank_marked hm (by rw [nData_eq]; omega) _ (Nat.le_add_right _ _) (by omega)
  rw [hlen, read_add, padded, ← hn]
  congr 1
  · exact read_program_erased fun q hq => hblank q (by omega)
  · refine read_eq_replicate fun q hq => ?_
    rw [program_outside (Or.inr (by omega)), Nat.add_assoc]
    exact hblank _ (by omega)

/-- Writing the block into the reserved fields. -/
theorem Clean.staged {s s₁ : NvmState} (h : Clean s) {m : Mem} {n j j' : Nat}
    {block : List (BitVec 8)} (hpos : 0 < n) (hn : n = fields block.length)
    (hlen : 8 * n = block.length + (8 * n - block.length))
    (hfit : s.index (1 - s.readSector) + n < nData)
    (hm : Marked s.flash m (base (1 - s.readSector)) (s.index (1 - s.readSector))
      (s.index (1 - s.readSector) + n) INVALID)
    (hs₁ : s₁ = { s.after m j with nStagingArea := n }.after
      (program m (fieldAddr (1 - s.readSector) (s.index (1 - s.readSector))) block) j') :
    Staged s s₁ block := by
  have hW := h.tail (1 - s.readSector)
  have hge := hW.nReserved_le
  obtain ⟨htail, hsame, hend⟩ := h.reserve hm (Nat.le_add_right _ _) hfit
  have hdata : SameOutside m s₁.flash
      (fieldAddr (1 - s.readSector) (s.index (1 - s.readSector)))
      (fieldAddr (1 - s.readSector) (s.index (1 - s.readSector) + n)) := by
    intro a ha
    rw [hs₁]
    refine program_outside ?_
    rw [fieldAddr, fieldAddr] at *
    omega
  have hcell : ∀ i, i < nData → cell s₁.flash (base (1 - s.readSector)) i =
      cell m (base (1 - s.readSector)) i := fun i hi => hdata.cell hge hi
  have hidx : s₁.index = s.index := by rw [hs₁]; rfl
  have hst : s₁.nStagingArea = n := by rw [hs₁]; rfl
  have hrs : s₁.readSector = s.readSector := by rw [hs₁]; rfl
  refine ⟨hrs, by rw [hs₁]; rfl, by rw [hidx], ?_, ?_, ?_, ?_, ?_, ?_, ?_, ?_, ?_, ?_⟩
  · rw [hs₁]
    exact ⟨j + j', List.drop_drop⟩
  · exact hsame.trans fun i hi => hdata.sector (Nat.le_of_lt hfit) (other_ne s.readSector).symm hi
  · rw [hst]
    exact hpos
  · rw [hst]
    exact hn
  · rw [hidx]
    exact hge
  · rw [hidx, hst]
    exact htail.store hdata hge
  · rw [hidx, hst]
    intro i h1 h2
    rw [hcell i (by omega), hm.cell_inside h1 h2, hW.erased.all i h1 (by omega)]
    rfl
  · intro h0
    rw [hidx]
    rcases h.below h0 with hb | hb
    · exact Or.inl hb
    · right
      rw [hcell _ (by omega), hm.cell_below hge (Nat.le_refl _)]
      exact hb
  · intro _
    rw [hidx]
    refine ⟨rfl, fun i hi => ?_⟩
    rw [hcell i (by omega), hm.cell_outside (Or.inl hi)]
  · have hf : s₁.flash =
        program m (fieldAddr (1 - s.readSector) (s.index (1 - s.readSector))) block := by
      rw [hs₁]
      rfl
    rw [stagedBlock, hrs, hidx, hst, hf]
    exact h.read_program hn hlen hfit hm

/-- A block staged after making room. -/
theorem Clean.staged_room {s s₁ : NvmState} {block : List (BitVec 8)} (h : Clean s)
    (hs : Staged (Nvm.room s (fields block.length)) s₁ block) : Staged s s₁ block := by
  have hrs := room_readSector s (fields block.length)
  have hsame := hs.same
  have hi := hs.index_read
  have h1 := hs.readSector
  have h2 := hs.nReserved_le
  have h3 := hs.tail
  have h4 := hs.invalid
  have h5 := hs.below
  have h6 := hs.kept
  rw [hrs] at hsame hi h1 h2 h3 h4 h5 h6
  obtain ⟨i, hi'⟩ := hs.hal
  obtain ⟨j, hj⟩ := room_hal s (fields block.length)
  refine ⟨h1, hs.nValid.trans (room_nValid s _), hi.trans (room_index_read s _),
    ⟨j + i, by rw [hi', hj, List.drop_drop]⟩, (h.room _).2.2.trans hsame, hs.pos, hs.count,
    h2, h3, h4, h5, fun hfit => ?_, hs.block⟩
  rw [hs.count] at h6 hfit
  rw [Nvm.room, if_neg (by omega)] at h6
  exact h6 hfit

theorem Keeps.of_room {s : NvmState} {n : Nat} {d : Mem} (h : Clean s)
    (hk : Keeps (room s n) d) : Keeps s d := ⟨hk.1, hk.2.trans (h.room n).2.1⟩

theorem Clean.keeps_self {s : NvmState} (h : Clean s) : Keeps s s.flash :=
  h.keeps (fun _ _ => rfl) (h.tail _) fun h0 => (h.tail _).not_endsValid (h.below h0)

/-- What the calls before `NVM_commit` end with: the block is staged, or it has no place
above the index of the sector to write to and nothing that matters has changed. -/
def StageEnd (s : NvmState) (block : List (BitVec 8)) (r : Int) (s₁ : NvmState) : Prop :=
  r ≠ 0 ∧ (nData ≤ s.index (1 - s.readSector) + fields block.length ∨
      fields block.length = 0) ∧ Clean s₁ ∧ validBlock s₁ = validBlock s ∨
    r = 0 ∧ Staged s s₁ block

/-- A power loss while the block is written into the reserved fields. -/
theorem Clean.keeps_of_storing {s : NvmState} (h : Clean s) {m d : Mem} {n : Nat}
    (hfit : s.index (1 - s.readSector) + n < nData) (hpos : 0 < n)
    (hm : Marked s.flash m (base (1 - s.readSector)) (s.index (1 - s.readSector))
      (s.index (1 - s.readSector) + n) INVALID)
    (hd : SameOutside m d (fieldAddr (1 - s.readSector) (s.index (1 - s.readSector)))
      (fieldAddr (1 - s.readSector) (s.index (1 - s.readSector) + n))) : Keeps s d := by
  obtain ⟨htail, hsame, -⟩ := h.reserve hm (Nat.le_add_right _ _) hfit
  have hge := (h.tail (1 - s.readSector)).nReserved_le
  have htail' := htail.store hd hge
  have hsame' : SameSector m d s.readSector := fun i hi =>
    hd.sector (Nat.le_of_lt hfit) (other_ne s.readSector).symm hi
  refine h.keeps (hsame.trans hsame') htail' fun _ => htail'.not_endsValid (Or.inr ?_)
  -- the last field was marked as invalid
  rw [hd.cell hge (by omega), hm.cell_inside (by omega) (by omega),
    (h.tail (1 - s.readSector)).erased.all _ (by omega) (by omega)]
  decide

/-- `NVM_write` of the whole block, after `NVM_start_write` has marked its fields. -/
theorem nvmWrite_staged {s s' : NvmState} (h : Clean s) (hne : NoError s.hal) {m : Mem}
    {n j : Nat} {block : List (BitVec 8)} (hlt : block.length < 2 ^ 32)
    (hpos : 0 < block.length) (hn : n = fields block.length)
    (hfit : s.index (1 - s.readSector) + n < nData)
    (hm : Marked s.flash m (base (1 - s.readSector)) (s.index (1 - s.readSector))
      (s.index (1 - s.readSector) + n) INVALID)
    (hs' : s' = { s.after m j with nStagingArea := n }) :
    (nvmWrite 0 block s').Sat (StageEnd s block)
      (fun d => (∃ j, ¬ Survives s.hal j) ∧ Keeps s d) := by
  obtain ⟨htail, hsame, hend⟩ := h.reserve hm (Nat.le_add_right _ _) hfit
  have hidx : s'.index = s.index := by rw [hs']; rfl
  have hrs : s'.readSector = s.readSector := by rw [hs']; rfl
  have hst : s'.nStagingArea = n := by rw [hs']
  have hf : s'.flash = m := by rw [hs']; rfl
  rcases fields_cases hlt with ⟨hlen, hpad⟩ | ⟨h0, hwrap⟩
  · rw [← hn] at hlen hpad
    have hne' : NoError s'.hal := by
      rw [hs']
      exact hne.drop j
    refine (nvmWrite_stores hne' ?_ ?_).mono ?_ ?_
    · rw [hst]
      omega
    · rw [hidx, hrs, hst]
      exact Nat.le_of_lt hfit
    · rintro r s₁ ⟨rfl, j', rfl⟩
      refine Or.inr ⟨rfl, ?_⟩
      rw [hidx, hrs, hf, Nat.add_zero, hs']
      exact h.staged (by omega) hn hlen hfit hm rfl
    · rintro d ⟨⟨i, hloss⟩, hd⟩
      rw [hs'] at hloss
      refine ⟨not_survives_of_drop hloss, h.keeps_of_storing hfit (by omega) hm ?_⟩
      rw [hidx, hrs, hf, Nat.add_zero] at hd
      intro a ha
      refine hd a ?_
      rw [fieldAddr, fieldAddr] at *
      omega
  · -- the length wraps to no fields, and the write is refused
    rw [nvmWrite_reject (by rw [hst, hn, h0, Nat.zero_add, u32_of_lt hlt]; omega)]
    rw [hn, h0, Nat.add_zero] at htail
    refine Or.inl ⟨by decide, Or.inr h0, h.keep hrs ?_ ?_ ?_ ?_ ?_ ?_⟩
    · rw [hs']
      rfl
    · rw [hidx]
    · rw [hst, hn, h0]
    · rw [hf]
      exact hsame
    · rw [hf, hidx]
      exact htail
    · rw [hf]
      exact hend

/-- **Staging.** The calls before `NVM_commit` stage the block or change nothing that
matters, and a power loss during them keeps the block of before. -/
theorem stage_sat {s : NvmState} (h : Clean s) (hne : NoError s.hal) {block : List (BitVec 8)}
    (hlt : block.length < 2 ^ 32) (hpos : 0 < block.length) :
    (stage block s).Sat (StageEnd s block)
      (fun d => (∃ j, ¬ Survives s.hal j) ∧ Keeps s d) := by
  have hge := (h.tail (1 - s.readSector)).nReserved_le
  have hroom := h.room (fields block.length)
  unfold stage
  rw [sat_bind]
  refine (nvmStartWrite_sat hne h.booted.inBounds block.length).mono ?_ ?_
  · intro r s' hend
    rw [sat_ite]
    cases hend with
    | tooLong hlong =>
      exact ⟨fun hr => Or.inl ⟨hr, Or.inl (by omega), h, rfl⟩, fun hr => absurd (by decide) hr⟩
    | full _ hfull =>
      refine ⟨fun hr => Or.inl ⟨hr, Or.inl ?_, hroom.1, hroom.2.1⟩,
        fun hr => absurd (by decide) hr⟩
      rw [room_index_write] at hfull
      split at hfull
      · omega
      · exact hfull
    | ok hfit hlast m j hm =>
      refine ⟨fun hr => absurd rfl hr, fun _ => ?_⟩
      have hrs := room_readSector s (fields block.length)
      rw [← hrs] at hm hlast
      obtain ⟨i, hi⟩ := room_hal s (fields block.length)
      have hne' : NoError (room s (fields block.length)).hal := by
        rw [hi]
        exact hne.drop i
      refine (nvmWrite_staged hroom.1 hne' hlt hpos rfl hlast hm rfl).mono ?_ ?_
      swap
      · rintro d ⟨⟨k, hloss⟩, hd⟩
        rw [hi] at hloss
        exact ⟨not_survives_of_drop hloss, Keeps.of_room h hd⟩
      rintro r s₁ (⟨hr, hfit', hclean, hval⟩ | ⟨hr, hstaged⟩)
      · refine Or.inl ⟨hr, ?_, hclean, hval.trans hroom.2.1⟩
        rw [hrs, room_index_write] at hfit'
        split at hfit'
        · exact Or.inl (by omega)
        · exact hfit'
      · exact Or.inr ⟨hr, h.staged_room hstaged⟩
  · rintro d ⟨hlost, hloss⟩
    refine ⟨hlost, ?_⟩
    cases hloss with
    | before => exact h.keeps_self
    | marking p m hlast hp hp' hm =>
      have hrs := room_readSector s (fields block.length)
      rw [← hrs] at hm hlast hp hp'
      obtain ⟨htail, hsame, hend⟩ := hroom.1.reserve hm hp (by omega)
      exact Keeps.of_room h (hroom.1.keeps hsame htail hend)

/-! ## Committing it -/

/-- What `NVM_init` finds is clean if both sectors are. -/
theorem clean_boot {flash : Mem} (h : ∀ k, ∃ i, Tail flash k i) : Clean (boot flash) := by
  obtain ⟨hf, -, hb⟩ := boot_spec flash
  refine ⟨hb, fun k => ?_⟩
  obtain ⟨i, hi⟩ := h k
  have hidx := hb.index k
  rw [hf] at hidx ⊢
  rw [hidx.unique hi.erased]
  exact hi

section Commit

variable {s s₁ : NvmState} {block : List (BitVec 8)} (hs : Staged s s₁ block)

include hs

/-- Both sectors once fields of the block are marked as valid. -/
theorem Staged.marked {m : Mem} {p : Nat}
    (hm : Marked s₁.flash m (base (1 - s.readSector)) (s₁.index (1 - s.readSector)) p VALID)
    (hp : p ≤ s₁.index (1 - s.readSector) + s₁.nStagingArea) :
    Tail m (1 - s.readSector) (s₁.index (1 - s.readSector) + s₁.nStagingArea) ∧
      SameSector s.flash m s.readSector := by
  have hlt := hs.tail.lt
  exact ⟨hs.tail.remark hm hp,
    hs.same.trans (hm.sameSector (by omega) (other_ne s.readSector).symm)⟩

/-- The block once it is marked as valid, if the field below it is not. -/
theorem Staged.holding {m : Mem}
    (hm : Marked s₁.flash m (base (1 - s.readSector)) (s₁.index (1 - s.readSector))
      (s₁.index (1 - s.readSector) + s₁.nStagingArea) VALID)
    (hbelow : s₁.index (1 - s.readSector) = nReserved ∨
      cell s₁.flash (base (1 - s.readSector)) (s₁.index (1 - s.readSector) - 1) ≠ VALID) :
    Holding m (1 - s.readSector) (s₁.index (1 - s.readSector) + s₁.nStagingArea)
      s₁.nStagingArea := by
  have hpos := hs.pos
  have hge := hs.nReserved_le
  obtain ⟨htail, -⟩ := hs.marked hm (Nat.le_refl _)
  refine ⟨hpos, Nat.le_add_left _ _, htail.lt, htail.erased, ?_⟩
  rw [Nat.add_sub_cancel]
  refine ⟨hge, Nat.le_add_right _ _, fun j h1 h2 => ?_, ?_⟩
  · rw [hm.cell_inside h1 h2, and_valid]
  · rcases hbelow with hb | hb
    · exact Or.inl hb
    · right
      rw [hm.cell_below hge (Nat.le_refl _)]
      exact hb

variable (h : Clean s)

include h

theorem Staged.inBounds : InBounds s₁ := by
  have hR := h.tail s.readSector
  have hW := hs.tail.lt
  have hge := hs.nReserved_le
  have hi := hs.index_read
  refine ⟨fun k => ?_, fun k => ?_, by omega⟩
  · rcases eq_or_eq_other s.readSector k with rfl | rfl
    · rw [hi]
      exact hR.nReserved_le
    · exact hge
  · rcases eq_or_eq_other s.readSector k with rfl | rfl
    · rw [hi]
      exact Nat.le_of_lt hR.lt
    · omega

/-- A power loss while the block is marked leaves its last field invalid. -/
theorem Staged.keeps_of_marking {m : Mem} {p : Nat}
    (hm : Marked s₁.flash m (base (1 - s.readSector)) (s₁.index (1 - s.readSector)) p VALID)
    (hp : p < s₁.index (1 - s.readSector) + s₁.nStagingArea) : Keeps s m := by
  have hpos := hs.pos
  have hge := hs.nReserved_le
  obtain ⟨htail, hsame⟩ := hs.marked hm (Nat.le_of_lt hp)
  refine h.keeps hsame htail fun _ => htail.not_endsValid (Or.inr ?_)
  rw [nReserved_eq] at hge
  rw [hm.cell_outside (by omega), hs.invalid _ (by omega) (by omega)]
  decide

/-- A power loss once the block is marked as valid, and before the other sector is marked:
the next restart finds one of the two blocks. -/
theorem Staged.boot_of_marked {m : Mem}
    (hm : Marked s₁.flash m (base (1 - s.readSector)) (s₁.index (1 - s.readSector))
      (s₁.index (1 - s.readSector) + s₁.nStagingArea) VALID) :
    Clean (boot m) ∧
      (validBlock (boot m) = validBlock s ∨ validBlock (boot m) = padded block) := by
  obtain ⟨htail, hsame⟩ := hs.marked hm (Nat.le_refl _)
  rcases eq_or_eq_other 1 s.readSector with h1 | h0
  · -- sector 1 is still the one to read from
    obtain ⟨hclean, hval⟩ := h.keeps hsame htail fun h0 => absurd (h1.symm.trans h0) (by decide)
    exact ⟨hclean, Or.inl hval⟩
  · obtain ⟨hf, -, hb⟩ := boot_spec m
    have hclean : Clean (boot m) := by
      refine clean_boot fun k => ?_
      rcases eq_or_eq_other s.readSector k with rfl | rfl
      · exact ⟨_, hsame.tail (h.tail _)⟩
      · exact ⟨_, htail⟩
    obtain ⟨hr, hi, hv⟩ := hb.of_holding
      (by rw [hf]; exact hs.holding hm (hs.below h0)) (Or.inl (by rw [h0]; rfl))
    refine ⟨hclean, Or.inr ?_⟩
    have hle := Nat.le_of_lt htail.lt
    rw [validBlock, hr, hi, hv, hf, Nat.add_sub_cancel, ← hs.block, stagedBlock, hs.readSector]
    exact hm.data_read hle hs.nReserved_le hle

/-- A commit that completes switches to the block. -/
theorem Staged.committed {m m' : Mem} {j : Nat}
    (hm : Marked s₁.flash m (base (1 - s.readSector)) (s₁.index (1 - s.readSector))
      (s₁.index (1 - s.readSector) + s₁.nStagingArea) VALID)
    (hm' : Marked m m' (base s.readSector) (s₁.index s.readSector)
      (s₁.index s.readSector + 1) INVALID)
    (hr : s₁.index s.readSector + 1 < nData)
    (hbelow : s₁.index (1 - s.readSector) = nReserved ∨
      cell s₁.flash (base (1 - s.readSector)) (s₁.index (1 - s.readSector) - 1) ≠ VALID) :
    Clean ((flipped s₁ m' j).withIndex s.readSector (s₁.index s.readSector + 1)) := by
  have hread := h.tail s.readSector
  have hrs := hs.readSector
  obtain ⟨htail, hsame⟩ := hs.marked hm (Nat.le_refl _)
  have hsame' : SameSector m m' (1 - s.readSector) :=
    hm'.sameSector (Nat.le_of_lt hr) (other_ne s.readSector)
  have htailW := hsame'.tail htail
  have htailR : Tail m' s.readSector (s₁.index s.readSector + 1) := by
    rw [← hs.index_read] at hread
    exact (hsame.tail hread).mark hm' (Nat.le_succ _) hr (by decide)
  have hhold : Holding m' (1 - s.readSector)
      (s₁.index (1 - s.readSector) + s₁.nStagingArea) s₁.nStagingArea :=
    (hs.holding hm hbelow).congr fun i hi => hsame'.cell hi
  have hiw := index_write_flipped s₁ m' j (s₁.index s.readSector + 1)
  have hir := index_read_flipped s₁ m' j (s₁.index s.readSector + 1)
  rw [hrs] at hiw hir
  generalize hs₂ : (flipped s₁ m' j).withIndex s.readSector (s₁.index s.readSector + 1) = s₂
    at hiw hir ⊢
  have hr₂ : s₂.readSector = 1 - s.readSector := by
    rw [← hs₂, ← hrs]
    rfl
  have hv₂ : s₂.nValid = s₁.nStagingArea := by rw [← hs₂]; rfl
  have hf₂ : s₂.flash = m' := by rw [← hs₂]; rfl
  have ht₂ : ∀ k, Tail s₂.flash k (s₂.index k) := by
    intro k
    rw [hf₂]
    rcases eq_or_eq_other s.readSector k with rfl | rfl
    · rw [hir]
      exact htailR
    · rw [hiw]
      exact htailW
  refine ⟨Booted.of_endsValid (fun k => (ht₂ k).erased) ?_ ?_ ?_ (by rw [← hs₂]; rfl), ht₂⟩
  · rw [hr₂, hf₂]
    constructor
    · intro h1
      rw [← h1]
      exact hhold.endsValid
    · intro hval
      rcases eq_or_eq_other 1 s.readSector with h1 | h0
      · -- sector 1 is the one that was read from, and its last field is invalid now
        have hnot : ¬ EndsValid m' s.readSector := by
          refine htailR.not_endsValid (Or.inr ?_)
          have herased := (hsame.tail hread).erased.all _ (Nat.le_of_eq hs.index_read.symm)
            (by omega)
          rw [Nat.add_sub_cancel, hm'.cell_inside (Nat.le_refl _) (Nat.lt_succ_self _), herased]
          decide
        rw [h1] at hnot
        exact absurd hval hnot
      · rw [h0]
        rfl
  · rw [hr₂, hv₂, hf₂, hiw]
    exact hhold.valid
  · rw [hr₂, hv₂, hiw]
    exact Nat.le_add_left _ _

/-- **Committing.** A safe commit switches to the block; a power loss during it keeps the
block of before or switches to the new one. -/
theorem Staged.commit_sat (hne : NoError s₁.hal) (hsafe : CommitSafe s₁) :
    (nvmCommit s₁).Sat
      (fun r s₂ => r = 0 ∧ Clean s₂ ∧ validBlock s₂ = padded block)
      (fun d => Clean (boot d) ∧
        (validBlock (boot d) = validBlock s ∨ validBlock (boot d) = padded block)) := by
  have hrs := hs.readSector
  have hpos := hs.pos
  have hlt := hs.tail.lt
  have hread := (h.tail s.readSector).lt
  rw [← hs.index_read] at hread
  obtain ⟨hroom, hbelow⟩ := hsafe
  refine (nvmCommit_sat hne (hs.inBounds h)).mono ?_ ?_
  · intro r s₂ hend
    cases hend with
    | rejected hrej =>
      rw [hrs] at hrej
      omega
    | full _ hfull hsur => exact absurd hfull (hroom hsur)
    | erased _ hr =>
      rw [hrs] at hr
      omega
    | ok _ hr hsur m m' j hm hm' =>
      have hb := hbelow hsur
      have hval := validBlock_flipped (j := j) (i := s₁.index s₁.readSector + 1)
        (by rw [hrs]; exact hs.nReserved_le) (by rw [hrs]; exact Nat.le_of_lt hlt) hm
        (Or.inr ⟨_, _, _, _, Nat.le_of_lt hr, hm'⟩)
      rw [hs.block] at hval
      refine ⟨rfl, ?_, hval⟩
      rw [hrs] at hm hm' hr hb ⊢
      exact hs.committed h hm hm' hr hb
  · rintro d ⟨-, hloss⟩
    cases hloss with
    | marking p m _ _ hp hm =>
      rw [hrs] at hm hp
      obtain ⟨hclean, hval⟩ := hs.keeps_of_marking h hm (hp hpos)
      exact ⟨hclean, Or.inl hval⟩
    | marked m _ hm =>
      rw [hrs] at hm
      exact hs.boot_of_marked h hm

end Commit

/-! ## Runs -/

theorem Clean.readable {s : NvmState} (h : Clean s) : readAll s = some (validBlock s) :=
  readAll_eq h.booted.nValid_le (Nat.le_of_lt (h.tail _).lt)

/-- The state is clean, and the value is what can be read. -/
def Holds (s : NvmState) (value : Option (List (BitVec 8))) : Prop := Clean s ∧ readAll s = value

/-- A restart that finds the value, or the block that was being saved. -/
theorem Holds.restarted {flash : Mem} {value : Option (List (BitVec 8))}
    {pending : Option (List (BitVec 8))} (hclean : Clean (boot flash))
    (h : readAll (boot flash) = value ∨ pending.map some = some (readAll (boot flash))) :
    (restarted pending flash).1.Allowed value ∧
      Holds (restarted pending flash).2 ((restarted pending flash).1.value value) := by
  refine ⟨h, hclean, ?_⟩
  simp only [Nvm.restarted, Obs.value_restarted]

/-- One safe event is what a register allows. -/
theorem event_step {s : NvmState} {value : Option (List (BitVec 8))} {e : Event}
    (h : Holds s value) (hsafe : EventSafe s e) :
    (e.step s).1.Allowed value ∧ Holds (e.step s).2 ((e.step s).1.value value) := by
  obtain ⟨hc, hv⟩ := h
  rw [hc.readable] at hv
  -- a restart that keeps the block
  have hkeeps : ∀ flash, Keeps s flash →
      (restarted none flash).1.Allowed value ∧
        Holds (restarted none flash).2 ((restarted none flash).1.value value) := by
    rintro flash ⟨hclean, hval⟩
    refine Holds.restarted hclean (Or.inl ?_)
    rw [hclean.readable, hval, hv]
  cases e with
  | restart => exact hkeeps s.flash hc.keeps_self
  | save block cut =>
    have hc' := hc.withHal (halUntil cut)
    have hstage := stage_sat hc' (noError_halUntil cut) block.2.2 block.2.1
    rw [Event.step]
    cases hs : stage block.1 { s with hal := halUntil cut } with
    | powerLoss flash =>
      rw [hs] at hstage
      exact hkeeps flash hstage.2
    | ok r s₁ =>
      rw [hs] at hstage
      rcases hstage with ⟨hr, -, hclean, hval⟩ | ⟨rfl, hstaged⟩
      · simp only [if_pos hr]
        refine ⟨trivial, hclean, ?_⟩
        show readAll s₁ = value
        rw [hclean.readable, hval]
        exact hv
      · have hne : NoError s₁.hal := by
          obtain ⟨j, hj⟩ := hstaged.hal
          rw [hj]
          exact (noError_halUntil cut).drop j
        have hcommit := hstaged.commit_sat hc' hne (hsafe s₁ hs)
        simp only [ne_eq, not_true_eq_false, if_false]
        cases hs₂ : nvmCommit s₁ with
        | powerLoss flash =>
          rw [hs₂] at hcommit
          obtain ⟨hclean, hval⟩ := hcommit
          refine Holds.restarted hclean ?_
          rw [hclean.readable, ← hv]
          rcases hval with hval | hval
          · exact Or.inl (congrArg some hval)
          · exact Or.inr (congrArg (fun b => some (some b)) hval.symm)
        | ok r s₂ =>
          rw [hs₂] at hcommit
          obtain ⟨rfl, hclean, hval⟩ := hcommit
          refine ⟨trivial, hclean, ?_⟩
          show readAll s₂ = some (padded block.1)
          rw [hclean.readable, hval]

theorem clean_first : Holds (boot erasedFlash) (some []) := by
  have hclean : Clean (boot erasedFlash) := clean_boot fun k =>
    ⟨nReserved, ⟨Nat.le_refl _, by decide, fun i _ _ => cell_erasedFlash k i, Or.inl rfl⟩,
      by decide, fun _ _ _ => rfl⟩
  refine ⟨hclean, ?_⟩
  rw [hclean.readable]
  exact congrArg some historyInv_first.committed

/-- **In every run of saves, power losses and restarts from erased flash whose commits are
safe, the driver is a register that survives power losses.** -/
theorem saves_atomic {es : List Event} (h : Safe EventSafe Event.step (boot erasedFlash) es) :
    Atomic (some []) (observe Event.step (boot erasedFlash) es) :=
  atomic_of_step (fun _ _ _ hR hok => event_step hR hok) es _ _ clean_first h

/-! ## Runs with unsafe commits -/

/-- A save that nothing interrupts, with room in both sectors: the block is staged, its
fields are marked as valid, and one field of the other sector as invalid. -/
theorem save_uninterrupted {s : NvmState} (h : Clean s) {block : Block}
    (hn : 0 < fields block.1.length)
    (hfit : s.index (1 - s.readSector) + fields block.1.length < nData)
    (hroom : s.index s.readSector + 1 < nData) :
    ∃ s₁ m m' j, Staged { s with hal := [] } s₁ block.1 ∧
      Marked s₁.flash m (base (1 - s.readSector)) (s.index (1 - s.readSector))
        (s.index (1 - s.readSector) + fields block.1.length) VALID ∧
      Marked m m' (base s.readSector) (s.index s.readSector) (s.index s.readSector + 1)
        INVALID ∧
      Event.step s (.save block none) =
        (.stored (some (padded block.1)),
          (flipped s₁ m' j).withIndex s.readSector (s.index s.readSector + 1)) := by
  have hc : Clean { s with hal := [] } := h.withHal []
  have hlive : ¬ ∃ j, ¬ Survives [] j := not_not_survives_nil
  -- the block is staged
  obtain ⟨r, s₁, heq₁, hend₁⟩ := (stage_sat hc (noError_of_nil rfl) block.2.2
    block.2.1).exists_ok fun d hd => hlive hd.1
  rcases hend₁ with ⟨-, hfull, -⟩ | ⟨rfl, hs⟩
  · dsimp only at hfull
    omega
  obtain ⟨hidx, -⟩ := hs.kept (by rw [hs.count]; exact Nat.le_of_lt hfit)
  have hhal : s₁.hal = [] := by
    obtain ⟨j, hj⟩ := hs.hal
    rw [hj, List.drop_nil]
  have hrs : s₁.readSector = s.readSector := hs.readSector
  have hread : s₁.index s.readSector = s.index s.readSector := hs.index_read
  have hwrite : s₁.index (1 - s.readSector) = s.index (1 - s.readSector) := hidx
  -- and committed
  obtain ⟨r, s₂, heq₂, hend₂⟩ := (nvmCommit_sat (noError_of_nil hhal)
    (hs.inBounds hc)).exists_ok fun d hd => by
      rw [hhal] at hd
      exact hlive hd.1
  cases hend₂ with
  | rejected hrej =>
    rw [hrs, hwrite, hs.count] at hrej
    omega
  | full _ hfull =>
    rw [hrs, hread] at hfull
    omega
  | erased _ hfull =>
    rw [hrs, hread] at hfull
    omega
  | ok _ _ _ m m' j hm hm' =>
    rw [hrs, hwrite, hs.count] at hm
    rw [hrs, hread] at hm'
    refine ⟨s₁, m, m', j, hs, hm, hm', ?_⟩
    rw [Event.step, show halUntil none = [] from rfl, heq₁]
    simp only [ne_eq, not_true_eq_false, if_false, heq₂, if_true, hrs, hread]

/-- A save to sector 0 that nothing interrupts leaves the block behind the fields that are
there, and sector 1 without a block. -/
theorem save_behind {s : NvmState} (h : Clean s) (hr : s.readSector = 1) {block : Block}
    (hn : 0 < fields block.1.length) (hfit : s.index 0 + fields block.1.length < nData)
    (hroom : s.index 1 + 1 < nData) :
    ∃ s', Event.step s (.save block none) = (.stored (some (padded block.1)), s') ∧
      Tail s'.flash 0 (s.index 0 + fields block.1.length) ∧ ¬ EndsValid s'.flash 1 ∧
      (∀ q < s.index 0, cell s'.flash (base 0) q = cell s.flash (base 0) q) ∧
      ∀ q, s.index 0 ≤ q → q < s.index 0 + fields block.1.length →
        cell s'.flash (base 0) q = VALID := by
  have hW : 1 - s.readSector = 0 := by rw [hr]; rfl
  obtain ⟨s₁, m, m', j, hs, hm, hm', hstep⟩ := save_uninterrupted h hn
    (by rw [hW]; exact hfit) (by rw [hr]; exact hroom)
  obtain ⟨hidx, hold⟩ := hs.kept (by dsimp only; rw [hW, hs.count]; exact Nat.le_of_lt hfit)
  have hkept := hs.same
  have htail := hs.tail
  dsimp only at hidx hold hkept htail
  rw [hW] at hidx hold
  rw [hr] at hkept hm'
  rw [hW] at hm
  rw [hW, hidx, hs.count] at htail
  have hother : SameSector m m' 0 := hm'.sameSector (Nat.le_of_lt hroom) (by decide)
  have hsame : SameSector s.flash m 1 :=
    hkept.trans (hm.sameSector (Nat.le_of_lt hfit) (by decide))
  have htail₁ := (hsame.tail (h.tail 1)).mark hm' (Nat.le_succ _) hroom (by decide)
  refine ⟨_, hstep, hother.tail (htail.remark hm (Nat.le_refl _)), ?_, fun q hq => ?_,
    fun q hq hq' => ?_⟩
  · refine htail₁.not_endsValid (Or.inr ?_)
    rw [Nat.add_sub_cancel, hm'.cell_inside (Nat.le_refl _) (Nat.lt_succ_self _),
      (hsame.tail (h.tail 1)).erased.all _ (Nat.le_refl _) (by omega)]
    decide
  · exact (hother.cell (by omega)).trans ((hm.cell_outside (by omega)).trans (hold q hq))
  · refine (hother.cell (by omega)).trans ?_
    rw [hm.cell_inside hq hq', and_valid]

/-- A restart takes all the valid fields at the end of sector 0 for one block. -/
theorem boot_reads_on {m : Mem} {i n : Nat} (hi : nReserved ≤ i) (htail : Tail m 0 (i + n))
    (hnot : ¬ EndsValid m 1) (hvalid : ∀ q, i ≤ q → q < i + n → cell m (base 0) q = VALID) :
    (boot m).readSector = 0 ∧ (boot m).index 0 = i + n ∧ n ≤ (boot m).nValid := by
  obtain ⟨hf, -, hb⟩ := boot_spec m
  have hindex := hb.index 0
  rw [hf] at hindex
  have hbi : (boot m).index 0 = i + n := hindex.unique htail.erased
  have hbr : (boot m).readSector = 0 := hb.readSector_eq_zero (by rw [hf]; exact hnot)
  have hsuffix := hb.nValid
  rw [hbr, hf, hbi] at hsuffix
  have hle := hsuffix.le_of_all hi hvalid
  exact ⟨hbr, hbi, by omega⟩

/-- A restart with a block at the end of sector 1 reads it. -/
theorem boot_reads_one {m : Mem} {i i' : Nat} (htail : Tail m 0 i) (htail' : Tail m 1 i')
    (hvalid : EndsValid m 1) :
    Clean (boot m) ∧ (boot m).readSector = 1 ∧ (boot m).index 0 = i ∧ (boot m).index 1 = i' := by
  obtain ⟨hf, -, hb⟩ := boot_spec m
  have hclean : Clean (boot m) := clean_boot fun k => by
    rcases eq_or_eq_other 0 k with rfl | rfl
    · exact ⟨_, htail⟩
    · exact ⟨_, htail'⟩
  have hindex := hb.index
  rw [hf] at hindex
  refine ⟨hclean, hb.readSector_eq_one.mpr ?_, (hindex 0).unique htail.erased,
    (hindex 1).unique htail'.erased⟩
  rw [hf]
  exact hvalid

/-- The condition on the field below the block is needed: a block that is saved right
above a valid field is not what the next restart finds. -/
theorem joined_not_atomic {s : NvmState} (h : Clean s) (hr : s.readSector = 1)
    (hv : EndsValid s.flash 0) {block : Block} (hn : 0 < fields block.1.length)
    (hfit : s.index 0 + fields block.1.length < nData) (hroom : s.index 1 + 1 < nData)
    (value : Option (List (BitVec 8))) :
    ¬ Atomic value (observe Event.step s [.save block none, .restart]) := by
  obtain ⟨s', hstep, htail, hnot, hold, hnew⟩ := save_behind h hr hn hfit hroom
  obtain ⟨i, hi, hlt, hval⟩ := hv
  obtain rfl : i = s.index 0 := hi.unique (h.booted.index 0)
  -- the field below the block is read with it
  have hpos : s.index 0 - 1 + (fields block.1.length + 1) =
      s.index 0 + fields block.1.length := by omega
  have hvalid : ∀ q, s.index 0 - 1 ≤ q → q < s.index 0 - 1 + (fields block.1.length + 1) →
      cell s'.flash (base 0) q = VALID := by
    intro q h1 h2
    by_cases hq : s.index 0 ≤ q
    · exact hnew q hq (hpos ▸ h2)
    · rw [hold q (Nat.not_le.mp hq), show q = s.index 0 - 1 by omega]
      exact hval
  obtain ⟨hbr, hbi, hbv⟩ := boot_reads_on (Nat.le_sub_one_of_lt hlt) (hpos ▸ htail) hnot hvalid
  obtain ⟨-, -, hb⟩ := boot_spec s'.flash
  rintro ⟨-, hat, -⟩
  rw [hstep] at hat
  have hread : readAll (boot s'.flash) = some (padded block.1) := by
    rcases hat with hat | hat
    · exact hat
    · cases hat
  rw [readAll_eq hb.nValid_le (Nat.le_of_lt (by rw [hbr, hbi, hpos]; exact hfit))] at hread
  have hlen := congrArg List.length (Option.some.inj hread)
  rw [validBlock, length_read, padded, List.length_append, List.length_replicate] at hlen
  rcases fields_cases block.2.2 with ⟨hpad, -⟩ | ⟨h0, -⟩
  · omega
  · omega

/-- A block of one field whose bytes are all `b`. -/
def oneField (b : BitVec 8) : Block := ⟨List.replicate 8 b, by simp⟩

/-- A commit that loses power between its two steps. -/
def betweenSteps : List Event := [.save (oneField 1) none, .save (oneField 2) (some 4)]

/-- Where sector 0 is read from, a save only needs room in it. -/
theorem eventSafe_of_readSector {s : NvmState} (h : Clean s) (h0 : s.readSector = 0)
    (hroom : s.index 0 + 1 ≠ nData) (block : Block) (cut : Option Nat) :
    EventSafe s (.save block cut) := by
  intro s₁ heq
  have hend := (stage_sat (h.withHal (halUntil cut)) (noError_halUntil cut) block.2.2
    block.2.1).of_eq_ok heq
  rcases hend with ⟨hr, -⟩ | ⟨-, hs⟩
  · exact absurd rfl hr
  · have hrs : s₁.readSector = s.readSector := hs.readSector
    have hread : s₁.index s.readSector = s.index s.readSector := hs.index_read
    constructor
    · intro _
      rw [hrs, hread, h0]
      exact hroom
    · intro _
      rw [hrs]
      exact hs.below h0

/-- A save that loses power before its block is marked, and one that loses it right after
that. -/
theorem saves_atomic_cut : Atomic (some []) (observe Event.step (boot erasedFlash)
    [.save (oneField 1) (some 3), .save (oneField 2) (some 4), .restart]) := by
  have hclean := clean_first.1
  have hfirst : EventSafe (boot erasedFlash) (.save (oneField 1) (some 3)) := by
    refine eventSafe_of_readSector hclean ?_ ?_ _ _
    · rw [boot_erasedFlash]
      rfl
    · rw [boot_erasedFlash]
      decide
  have hnext := (event_step clean_first hfirst).2.1
  have hroom : (Event.step (boot erasedFlash) (.save (oneField 1) (some 3))).2.readSector = 0 ∧
      (Event.step (boot erasedFlash) (.save (oneField 1) (some 3))).2.index 0 + 1 ≠ nData := by
    rw [boot_erasedFlash]
    decide +kernel
  exact saves_atomic ⟨hfirst, eventSafe_of_readSector hnext hroom.1 hroom.2 _ _, trivial, trivial⟩

/-- The last table byte is marked, and then the power is lost. -/
theorem hal_of_length {hal : List HalResult} (h : ∃ j, hal = (halUntil (some 4)).drop j)
    (hlen : hal.length = 2) : hal = [.ok, .powerLoss] := by
  obtain ⟨j, rfl⟩ := h
  rw [List.length_drop, show (halUntil (some 4)).length = 5 from rfl] at hlen
  rw [show j = 3 by omega]
  rfl

/-- The commit marks its block, and does not get to the other sector. -/
theorem nvmCommit_between {s : NvmState} (hb : InBounds s) (hhal : s.hal = [.ok, .powerLoss])
    (hr : s.readSector = 1) (hi₀ : s.index 0 = 513) (hi₁ : s.index 1 = 513)
    (hn : s.nStagingArea = 1) :
    ∃ d, nvmCommit s = .powerLoss d ∧ Marked s.flash d (base 0) 513 514 VALID := by
  have hother : 1 - s.readSector = 0 := by rw [hr]; rfl
  have htable : tableBytes 513 1 = 1 := rfl
  have hlost : ¬ Survives s.hal 2 := by
    rw [hhal]
    intro h
    exact absurd (h .powerLoss (by simp)) (by simp)
  have hmarks : Survives s.hal 1 := by
    rw [hhal]
    intro r hr
    simpa using hr
  have hcommit := nvmCommit_sat (by rw [hhal]; exact fun r hr => by simpa using hr) hb
  cases heq : nvmCommit s with
  | ok r s' =>
    rw [heq] at hcommit
    cases hcommit with
    | rejected hrej =>
      rw [hother, hi₀, hn] at hrej
      exact absurd hrej (by decide)
    | full _ hfull =>
      rw [hr, hi₁] at hfull
      exact absurd hfull (by decide)
    | erased _ hfull =>
      rw [hr, hi₁] at hfull
      exact absurd hfull (by decide)
    | ok _ _ hsur =>
      rw [hother, hi₀, hn, htable] at hsur
      exact absurd hsur hlost
  | powerLoss d =>
    rw [heq] at hcommit
    refine ⟨d, rfl, ?_⟩
    obtain ⟨-, hloss⟩ := hcommit
    cases hloss with
    | marking p _ hsur =>
      rw [hother, hi₀, hn, htable] at hsur
      exact absurd hmarks hsur
    | marked _ _ hm =>
      rw [hother, hi₀, hn] at hm
      exact hm

/-- What the restart finds after it: a valid block at the end of either sector. -/
theorem Staged.boot_between {s s₁ : NvmState} {block : List (BitVec 8)} (hs : Staged s s₁ block)
    (h : Clean s) (hhal : s₁.hal = [.ok, .powerLoss]) (hr : s.readSector = 1)
    (hi₀ : s.index 0 = 513) (hi₁ : s.index 1 = 513) (hn : s₁.nStagingArea = 1) :
    ∃ d, nvmCommit s₁ = .powerLoss d ∧ Clean (boot d) ∧ (boot d).readSector = 1 ∧
      EndsValid (boot d).flash 0 ∧ (boot d).index 0 = 514 ∧ (boot d).index 1 = 513 := by
  have hother : 1 - s.readSector = 0 := by rw [hr]; rfl
  have hread : s₁.index s.readSector = s.index s.readSector := hs.index_read
  have hkept := (hs.kept (by rw [hother, hn, hi₀]; decide)).1
  rw [hother, hi₀] at hkept
  rw [hr, hi₁] at hread
  obtain ⟨d, heq, hm⟩ := nvmCommit_between (hs.inBounds h) hhal (hs.readSector.trans hr) hkept
    hread hn
  have htail₀ : Tail d 0 514 := by
    have htail : Tail s₁.flash (1 - s.readSector)
        (s₁.index (1 - s.readSector) + s₁.nStagingArea) := hs.tail
    rw [hother, hkept, hn] at htail
    exact htail.remark hm (Nat.le_refl _)
  have hsame : SameSector s.flash d 1 := by
    have hsame₁ : SameSector s.flash s₁.flash s.readSector := hs.same
    rw [hr] at hsame₁
    exact hsame₁.trans (hm.sameSector (by decide) (by decide))
  have htail₁ : Tail d 1 513 := by
    have htail := hsame.tail (h.tail 1)
    rwa [hi₁] at htail
  obtain ⟨hclean, hr', hi₀', hi₁'⟩ := boot_reads_one htail₀ htail₁
    (hsame.endsValid (h.booted.readSector_eq_one.mp hr))
  refine ⟨d, heq, hclean, hr', ?_, hi₀', hi₁'⟩
  obtain ⟨hf, -, -⟩ := boot_spec d
  rw [hf]
  refine ⟨514, htail₀.erased, by decide, ?_⟩
  rw [hm.cell_inside (by decide) (by decide), and_valid]

/-- It leaves both sectors with a valid block at their ends. -/
theorem betweenSteps_state : ∃ s, final Event.step (boot erasedFlash) betweenSteps = s ∧
    Clean s ∧ s.readSector = 1 ∧ EndsValid s.flash 0 ∧ s.index 0 = 514 ∧ s.index 1 = 513 := by
  rw [boot_erasedFlash, betweenSteps, final, final, final]
  have h₀ := clean_first.1
  rw [boot_erasedFlash] at h₀
  have hsafe := eventSafe_of_readSector h₀ rfl (by decide) (oneField 1) none
  obtain ⟨-, h₁, -⟩ := event_step ⟨h₀, rfl⟩ hsafe
  -- the variables along the run, which do not depend on what the flash holds
  have hrun : (Event.step firstBoot (.save (oneField 1) none)).2.readSector = 1 ∧
      (Event.step firstBoot (.save (oneField 1) none)).2.index 0 = 513 ∧
      (Event.step firstBoot (.save (oneField 1) none)).2.index 1 = 513 := by
    decide +kernel
  have hstage : returned (stage (oneField 2).1 { (Event.step firstBoot
        (.save (oneField 1) none)).2 with hal := halUntil (some 4) }) = some 0 ∧
      (stateAfter firstBoot (stage (oneField 2).1 { (Event.step firstBoot
        (.save (oneField 1) none)).2 with hal := halUntil (some 4) })).hal.length = 2 := by
    decide +kernel
  generalize (Event.step firstBoot (.save (oneField 1) none)).2 = s₁ at h₁ hrun hstage ⊢
  obtain ⟨hr₁, hi₀, hi₁⟩ := hrun
  obtain ⟨hret, hlen⟩ := hstage
  have heq := eq_ok_of_returned (s := firstBoot) hret
  generalize stateAfter firstBoot (stage (oneField 2).1 { s₁ with hal := halUntil (some 4) })
    = s₂ at heq hlen
  have hc₁ := h₁.withHal (halUntil (some 4))
  rcases (stage_sat hc₁ (noError_halUntil (some 4)) (oneField 2).2.2 (oneField 2).2.1).of_eq_ok heq
    with ⟨hr, -⟩ | ⟨-, hs⟩
  · exact absurd rfl hr
  obtain ⟨d, heq₂, hend⟩ := hs.boot_between hc₁ (hal_of_length hs.hal hlen) hr₁ hi₀ hi₁ hs.count
  have hstep : (Event.step s₁ (.save (oneField 2) (some 4))).2 = boot d := by
    rw [Event.step, heq]
    simp only [ne_eq, not_true_eq_false, if_false, heq₂]
    rfl
  rw [hstep]
  exact ⟨boot d, rfl, hend⟩

/-- **A power loss between the two steps of a commit can make the next two blocks one.** -/
theorem saves_not_atomic : ¬ ∀ es, Atomic (some []) (observe Event.step (boot erasedFlash) es) := by
  intro h
  obtain ⟨s, hs, hc, hr, hv, h0, h1⟩ := betweenSteps_state
  have hat := h (betweenSteps ++ [.save (oneField 3) none, .restart])
  rw [observe_append, hs] at hat
  obtain ⟨value, hrest⟩ := exists_atomic_of_append hat
  have hn : fields (oneField 3).1.length = 1 := rfl
  exact joined_not_atomic hc hr hv (by rw [hn]; decide) (by rw [hn, h0]; decide)
    (by rw [h1]; decide) value hrest

end WODrive.Nvm
