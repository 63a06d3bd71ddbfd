import WODrive.Nvm.Faultless
import WODrive.Nvm.Window

/-!
# Work that is not committed

`NVM_start_write`, `NVM_write` and a commit whose marking fails are about a block that is
not the one to read. In every run, with any faults of the HAL, their flash operations stay
in the sector to write to, and what `NVM_read` returns stays the same (for ranges that do
not wrap around the address space into that sector). Of the commit this is so unless the
operation that fails leaves the error code 0: then the marking returns 0, and `NVM_commit`
goes on.

`NVM_write` is to stay in the fields that the last successful `NVM_start_write` reserved
(`Reservation`). It computes its address from the index and its bound from
`n_staging_area_`, and these go apart when `NVM_start_write` erases the sector and fails
after that: it moves the index and leaves the old `n_staging_area_`. `NVM_erase` does the
same. And an `NVM_start_write` that fails with the error code 0 stages fields that it has
not reserved. Between such calls `NVM_write` stays in the reserved fields
(`uncommitted_undisturbed`).
-/

namespace WODrive.Nvm

open Crash Nor

/-- The addresses of a sector. -/
def InSector (k : Fin 2) (a : Nat) : Prop := base k ≤ a ∧ a < base k + sectorSize

/-! ## Reservations -/

/-- Fields of a sector. -/
structure Reservation where
  sector : Fin 2
  first : Nat
  count : Nat
deriving DecidableEq

/-- The addresses of the fields. -/
def Reservation.Has (v : Reservation) (a : Nat) : Prop :=
  fieldAddr v.sector v.first ≤ a ∧ a < fieldAddr v.sector (v.first + v.count)

theorem has_mk {k : Fin 2} {i n a : Nat} :
    Reservation.Has ⟨k, i, n⟩ a ↔ fieldAddr k i ≤ a ∧ a < fieldAddr k (i + n) := Iff.rfl

/-- The driver's state, and the fields that the last successful `NVM_start_write`
reserved: the last one that returned 0 after the HAL has served all of its operations. -/
structure Tracked where
  state : NvmState
  reserved : Option Reservation

/-- The reserved fields after a request that the HAL has served, that returned `r` and left
`s'`. -/
def reservedAfter (p : Tracked) (q : Request) (r : Int) (s' : NvmState) : Option Reservation :=
  match q with
  | .call (.startWrite length) =>
    if r = 0 then
      let target := 1 - p.state.readSector
      some { sector := target, first := s'.index target, count := fields length }
    else p.reserved
  | _ => p.reserved

/-- What is reserved changes only with a request that the HAL has served. -/
structure Reserves (p : Tracked) (e : Request × List HalResult) (r : Int) (p' : Tracked) :
    Prop where
  served : Served (p.state.withHal e.2) p'.state → p'.reserved = reservedAfter p e.1 r p'.state
  failed : ¬ Served (p.state.withHal e.2) p'.state → p'.reserved = p.reserved

def TrackedStep (p : Tracked) (e : Request × List HalResult) (p' : Tracked) : Prop :=
  ∃ r, e.1.run (p.state.withHal e.2) = .ok r p'.state ∧ Reserves p e r p'

/-- The state after a reset and `NVM_init`; nothing is reserved. -/
def Tracked.boot (flash : Mem) : Tracked := ⟨Nvm.boot flash, none⟩

theorem Tracked.boot_erasedFlash : Tracked.boot erasedFlash = ⟨firstBoot, none⟩ := by
  rw [Tracked.boot, Nvm.boot_erasedFlash]

/-- An address of the reserved fields. -/
def Tracked.Reserved (p : Tracked) (a : Nat) : Prop := ∃ v, p.reserved = some v ∧ v.Has a

theorem TrackedStep.fault {p p' : Tracked} {e : Request × List HalResult} (h : TrackedStep p e p') :
    FaultStep p.state e p'.state := by
  obtain ⟨r, hrun, -⟩ := h
  exact ⟨r, hrun⟩

/-- A request that reserves nothing leaves what is reserved. -/
theorem Reserves.eq {p p' : Tracked} {e : Request × List HalResult} {r : Int}
    (h : Reserves p e r p') (hsame : reservedAfter p e.1 r p'.state = p.reserved) :
    p'.reserved = p.reserved := by
  by_cases hserved : Served (p.state.withHal e.2) p'.state
  · exact (h.served hserved).trans hsame
  · exact h.failed hserved

theorem tracked_bounded {flash : Mem} {es : List (Request × List HalResult)} {p : Tracked}
    (h : Run TrackedStep (.boot flash) es p) : Bounded p.state :=
  h.invariant (I := fun p => Bounded p.state) (boot_spec flash).2.2.bounded
    fun _ _ _ hb hstep => hb.step hstep.fault

/-! ## What the calls address -/

/-- The requests that are to leave the committed block alone: a commit is one if its marking
of the fields is refused, or a flash operation of it fails. -/
inductive Uncommitted (s : NvmState) : Request → Prop where
  | startWrite (length : Nat) : Uncommitted s (.call (.startWrite length))
  | write (offset : Nat) (data : List (BitVec 8)) (h : offset + data.length < 2 ^ 32) :
      Uncommitted s (.call (.write offset data))
  | commit (h : ∀ r s₁, setAllocationState (1 - s.readSector) (s.index (1 - s.readSector))
      s.nStagingArea VALID s = .ok r s₁ → r ≠ 0 ∨ ¬ Served s s₁) : Uncommitted s (.call .commit)

section

variable {s : NvmState}

theorem inSector_table {k : Fin 2} {p : Nat} (h : 4 * p < nData) : InSector k (base k + p) := by
  rw [nData_eq] at h
  have hsize : sectorSize = 131072 := rfl
  exact ⟨Nat.le_add_right _ _, by omega⟩

theorem inSector_base {k : Fin 2} {i : Nat} (h : i < sectorSize) : InSector k (base k + i) :=
  ⟨Nat.le_add_right _ _, Nat.add_lt_add_left h _⟩

/-- The sectors are disjoint. -/
theorem not_inSector_other {k : Fin 2} {a : Nat} (h : InSector (1 - k) a) : ¬ InSector k a := by
  have h1 := base_eq k
  have h2 := base_eq (1 - k)
  have h3 := other_ne k
  have hsize : sectorSize = 131072 := rfl
  rintro ⟨hlo, hhi⟩
  obtain ⟨hlo', hhi'⟩ := h
  have hval : (1 - k).val = k.val := by omega
  exact h3 (Fin.ext hval)

theorem invalidateFields_within {target : Fin 2} {n : Nat} (s : NvmState)
    (hfit : s.index target + n < 2 ^ 32) :
    Within (InSector target) (invalidateFields target n) s :=
  .get (.check (setAllocationState_within _ _ _ _ hfit fun _ => inSector_table) fun _ _ =>
    .modify (fun _ => ⟨rfl, rfl⟩) (.pure 0 _))

/-- `NVM_start_write` addresses the sector to write to. -/
theorem nvmStartWrite_within (hb : InBounds s) (length : Nat) :
    Within (InSector (1 - s.readSector)) (nvmStartWrite length) s := by
  have hle := hb.le_nData (1 - s.readSector)
  rw [nData_eq] at hle
  refine .get (.ite (fun _ => .pure _ s) fun hfit => .ite (fun _ => ?_) fun _ => ?_)
  · refine .check (eraseSector_within s fun _ => inSector_base) fun s₁ hok => ?_
    cases (eraseSector_vars _).of_eq_ok hok with
    | failed h =>
      obtain ⟨flash, hal, rfl⟩ := h
      refine invalidateFields_within _ ?_
      show s.index _ + _ < 2 ^ 32
      rw [nReserved_eq, nData_eq] at *
      omega
    | done _ h =>
      obtain ⟨flash, hal, rfl⟩ := h
      refine invalidateFields_within _ ?_
      show Function.update s.index _ nReserved _ + _ < 2 ^ 32
      rw [Function.update_self]
      rw [nReserved_eq, nData_eq] at *
      omega
  · refine invalidateFields_within s ?_
    rw [nReserved_eq, nData_eq] at *
    omega

/-- `NVM_write` addresses the fields behind the index, as many as are staged. -/
theorem nvmWrite_within (hst : s.index (1 - s.readSector) + s.nStagingArea ≤ nData)
    {offset : Nat} {data : List (BitVec 8)} (hlt : offset + data.length < 2 ^ 32) :
    Within (Reservation.Has ⟨1 - s.readSector, s.index (1 - s.readSector), s.nStagingArea⟩)
      (nvmWrite offset data) s := by
  have hbase := base_eq (1 - s.readSector)
  have hsec := (1 - s.readSector).isLt
  rw [nData_eq] at hst
  refine .get (.ite (fun _ => .pure _ s) fun hfit => ?_)
  rw [u32_of_lt hlt, Nat.shiftLeft_eq] at hfit
  refine writeStart_within _ data offset s (by omega) fun i hi => ?_
  rw [has_mk, fieldAddr, fieldAddr]
  omega

/-- A commit whose marking fails addresses the table of the sector to write to. -/
theorem nvmCommit_within (hb : InBounds s)
    (h : ∀ s₁, setAllocationState (1 - s.readSector) (s.index (1 - s.readSector))
      s.nStagingArea VALID s ≠ .ok 0 s₁) : Within (InSector (1 - s.readSector)) nvmCommit s := by
  have hle := hb.le_nData (1 - s.readSector)
  have hst := hb.nStagingArea_le
  rw [nData_eq] at hle hst
  refine .get (.check (setAllocationState_within _ _ _ _ (by omega) fun _ => inSector_table) ?_)
  exact fun s₁ hok => absurd hok (h s₁)

/-- If no failure goes unreported, the marking does not return 0 when it fails. -/
theorem marking_refused (hreported : Reported s.hal)
    (h : ∀ r s₁, setAllocationState (1 - s.readSector) (s.index (1 - s.readSector))
      s.nStagingArea VALID s = .ok r s₁ → r ≠ 0 ∨ ¬ Served s s₁) (s₁ : NvmState) :
    setAllocationState (1 - s.readSector) (s.index (1 - s.readSector)) s.nStagingArea VALID s ≠
      .ok 0 s₁ := by
  intro heq
  rcases h 0 s₁ heq with h0 | hfailed
  · exact h0 rfl
  · exact hfailed (setAllocationState_faultless _ _ _ _ s 0 s₁ hreported rfl heq).1

/-- Uncommitted work addresses the sector to write to. -/
theorem Uncommitted.within (hb : Bounded s) {q : Request} (h : Uncommitted s q)
    (hcode : q = .call .commit → Reported s.hal) :
    Within (InSector (1 - s.readSector)) q.run s := by
  cases h with
  | startWrite length => exact nvmStartWrite_within hb.inBounds length
  | write offset data hlt =>
    refine (nvmWrite_within hb.staging hlt).mono fun a ha => ?_
    have hst := hb.staging
    have hsize : sectorSize = 131072 := rfl
    rw [has_mk, fieldAddr, fieldAddr] at ha
    rw [nData_eq] at hst
    exact ⟨by omega, by omega⟩
  | commit h => exact nvmCommit_within hb.inBounds (marking_refused (hcode rfl) h)

/-- If the first part of a sequence does not succeed, the sequence ends where it does. -/
theorem eq_ok_of_refused {x rest : NvmM Int} {r : Int} {s' : NvmState}
    (hx : ∀ s₁, x s ≠ .ok 0 s₁)
    (h : (do
      let err ← x
      if err ≠ 0 then return err else rest : NvmM Int) s = .ok r s') : x s = .ok r s' := by
  obtain ⟨err, s₁, herr, hrest⟩ := bind_eq_ok.mp h
  have hne : err ≠ 0 := by
    rintro rfl
    exact hx s₁ herr
  rw [if_pos hne] at hrest
  cases hrest
  exact herr

/-! ## What can be read -/

/-- The variables that `NVM_read` looks at are the same. -/
structure SameWindow (s s' : NvmState) : Prop where
  readSector : s'.readSector = s.readSector
  index : s'.index s.readSector = s.index s.readSector
  nValid : s'.nValid = s.nValid

theorem SameVars.window {s' : NvmState} (h : SameVars s s') : SameWindow s s' := by
  obtain ⟨flash, hal, rfl⟩ := h
  exact ⟨rfl, rfl, rfl⟩

theorem StartWriteFault.window {n : Nat} {r : Int} {s' : NvmState}
    (h : StartWriteFault s n r s') : SameWindow s s' := by
  cases h with
  | refused _ h => exact h.window
  | emptied _ _ _ _ h =>
    obtain ⟨flash, hal, rfl⟩ := h
    exact ⟨room_readSector s n, room_index_read s n, room_nValid s n⟩
  | ok _ h =>
    obtain ⟨flash, hal, rfl⟩ := h
    exact ⟨room_readSector s n, room_index_read s n, room_nValid s n⟩

theorem Uncommitted.window (hb : Bounded s) {q : Request} (h : Uncommitted s q)
    (hcode : q = .call .commit → Reported s.hal) {r : Int} {s' : NvmState}
    (hrun : q.run s = .ok r s') : SameWindow s s' := by
  cases h with
  | startWrite length => exact ((nvmStartWrite_vars hb.inBounds length).of_eq_ok hrun).window
  | write offset data _ => exact ((nvmWrite_keepsVars offset data s).of_eq_ok hrun).window
  | commit h =>
    have hmark := eq_ok_of_refused (marking_refused (hcode rfl) h) hrun
    exact ((setAllocationState_vars _ _ _ _).of_eq_ok hmark).1.window

/-- A range that does not wrap around, that is refused, or of which nothing lies in the
sector to write to. -/
def ReadsAside (s : NvmState) (offset length : Nat) : Prop :=
  offset + length < 2 ^ 32 ∨ s.nValid <<< 3 < u32 (offset + length) ∨
    ∀ i < length, ¬ InSector (1 - s.readSector) (copied s offset i)

/-- Also where the window is not inside, `NVM_read` stays off the sector to write to. -/
theorem copied_aside (hb : Bounded s) {offset length : Nat} (h : ReadsAside s offset length)
    (haccept : ¬ u32 (offset + length) > s.nValid <<< 3) {i : Nat} (hi : i < length) :
    ¬ InSector (1 - s.readSector) (copied s offset i) := by
  rcases h with hlt | hrefused | h
  · have hle := hb.inBounds.le_nData s.readSector
    have hnv := hb.nValid_le
    have hbase := base_eq s.readSector
    have hbase' := base_eq (1 - s.readSector)
    have hsec := s.readSector.isLt
    have hsize : sectorSize = 131072 := rfl
    rw [nData_eq] at hle hnv
    rw [u32_of_lt hlt, Nat.shiftLeft_eq] at haccept
    by_cases hin : s.nValid ≤ s.index s.readSector
    · refine fun hother => not_inSector_other hother ?_
      rw [copied, subU32_of_le hin (by omega), u32_of_lt (by omega)]
      exact ⟨by omega, by omega⟩
    · -- the subtraction wraps around, and the addresses lie below sector 1
      have hzero : s.readSector = 0 := by
        refine hb.valid.resolve_right fun h => hin ?_
        omega
      rw [hzero] at hbase hbase' hin hle ⊢
      rintro ⟨hlo, -⟩
      rw [copied, hzero, subU32, u32, u32] at hlo
      change base 0 = 135004160 at hbase
      change base 1 = 135135232 at hbase'
      change base 1 ≤ _ at hlo
      omega
  · exact absurd hrefused haccept
  · exact h i hi

/-- What does not concern the sector to read from cannot be noticed by reading. -/
theorem Uncommitted.nvmRead_eq (hb : Bounded s) {q : Request} (h : Uncommitted s q)
    (hcode : q = .call .commit → Reported s.hal) {r : Int} {s' : NvmState}
    (hrun : q.run s = .ok r s') {offset length : Nat} (haside : ReadsAside s offset length) :
    nvmRead s' offset length = nvmRead s offset length := by
  obtain ⟨hread, hindex, hvalid⟩ := h.window hb hcode hrun
  have hflash := (h.within hb hcode).frame.of_eq_ok hrun
  rw [nvmRead_copied, nvmRead_copied, hvalid]
  split
  · rfl
  · next haccept =>
    refine congrArg some (List.map_congr_left fun i hi => ?_)
    have haddr : copied s' offset i = copied s offset i := by
      rw [copied, copied, hread, hindex, hvalid]
    rw [haddr]
    exact hflash _ (copied_aside hb haside haccept (List.mem_range.mp hi))

end

/-! ## Runs that keep the reservation -/

/-- `NVM_start_write` does not fail with the error code 0. And what does not happen while
fields are staged: that the sector is erased and the new fields are not reserved, or that
`NVM_erase` moves the index. -/
def KeepsReservation (p : Tracked) (e : Request × List HalResult) : Prop :=
  match e.1 with
  | .call (.startWrite length) =>
    Reported e.2 ∧
      (p.state.nStagingArea = 0 ∨
        fields length ≤ nData - p.state.index (1 - p.state.readSector) ∨
        nData - nReserved < fields length ∨
        (∃ code residue hal, e.2 = .failure code residue :: hal) ∨
        nReserved + fields length < nData ∧ ∀ r ∈ e.2, r = .ok)
  | .erase => p.state.nStagingArea = 0 ∨ p.state.readSector = 0 ∧ p.state.index 1 = nReserved
  | _ => True

/-- What is staged lies behind the index of the sector to write to, and is reserved. -/
def Held (p : Tracked) : Prop :=
  p.state.nStagingArea ≠ 0 → p.reserved = some
    ⟨1 - p.state.readSector, p.state.index (1 - p.state.readSector), p.state.nStagingArea⟩

theorem Held.congr {p p' : Tracked} (h : Held p) (hs : SameVars p.state p'.state)
    (hr : p'.reserved = p.reserved) : Held p' := by
  obtain ⟨flash, hal, hs⟩ := hs
  rw [Held, hs, hr]
  exact h

theorem noError_of_ok {hal : List HalResult} (h : ∀ r ∈ hal, r = .ok) : NoError hal :=
  fun r hr => Or.inl (h r hr)

/-- `NVM_start_write` reserves the fields when the HAL serves it and they fit behind the
table. -/
theorem nvmStartWrite_ok {s : NvmState} (hb : InBounds s) (hhal : ∀ r ∈ s.hal, r = .ok)
    {length : Nat} (herase : nData - s.index (1 - s.readSector) < fields length)
    (hfit : nReserved + fields length < nData) {r : Int} {s' : NvmState}
    (hrun : nvmStartWrite length s = .ok r s') : r = 0 := by
  have hend := (nvmStartWrite_sat (noError_of_ok hhal) hb length).of_eq_ok hrun
  cases hend with
  | tooLong h => omega
  | full _ h =>
    rw [room_index_write, if_pos herase] at h
    omega
  | ok => rfl

theorem Held.startWrite {p p' : Tracked} {length : Nat} {hal : List HalResult} {r : Int}
    (h : Held p) (hb : Bounded p.state)
    (hkeep : KeepsReservation p (.call (.startWrite length), hal))
    (hrun : nvmStartWrite length (p.state.withHal hal) = .ok r p'.state)
    (hres : Reserves p (.call (.startWrite length), hal) r p') : Held p' := by
  obtain ⟨hreported, hkeep⟩ := hkeep
  have hb' := (hb.withHal hal).inBounds
  cases (nvmStartWrite_vars hb' length).of_eq_ok hrun with
  | refused hr hs =>
    exact h.congr hs.withHal_left (hres.eq (if_neg hr))
  | emptied hr hfit herase hhal hs =>
    -- nothing can be staged: the sector would have been kept, or the fields reserved
    have hidle : p.state.nStagingArea = 0 := by
      by_contra hstaged
      rcases hkeep.resolve_left hstaged with h | h | ⟨code, residue, rest, rfl⟩ | ⟨h, hok⟩
      · exact absurd herase (Nat.not_lt.mpr h)
      · exact absurd hfit (Nat.not_le.mpr h)
      · exact hhal code residue rest rfl
      · exact hr (nvmStartWrite_ok hb' hok herase h hrun)
    obtain ⟨flash, hal', hs⟩ := hs
    intro hne
    refine absurd ?_ hne
    rw [hs]
    show (room (p.state.withHal hal) (fields length)).nStagingArea = 0
    rw [room_nStagingArea]
    exact hidle
  | ok hlt hs =>
    have hserved := (nvmStartWrite_faultless length _ _ _ hreported rfl hrun).1
    have hnew := hres.served hserved
    intro _
    rw [hnew]
    obtain ⟨flash, hal', hs⟩ := hs
    rw [hs]
    show some _ = some (Reservation.mk
      (1 - (room (p.state.withHal hal) (fields length)).readSector)
      ((room (p.state.withHal hal) (fields length)).index
        (1 - (room (p.state.withHal hal) (fields length)).readSector)) (fields length))
    rw [room_readSector]
    rfl

theorem Held.step {p p' : Tracked} {e : Request × List HalResult} (h : Held p)
    (hb : Bounded p.state) (hkeep : KeepsReservation p e) (hstep : TrackedStep p e p') :
    Held p' := by
  obtain ⟨q, hal⟩ := e
  obtain ⟨r, hrun, hres⟩ := hstep
  cases request_fault (hb.withHal hal).inBounds hrun with
  | init hboot => exact fun hne => absurd hboot.nStagingArea hne
  | startWrite hend => exact h.startWrite hb hkeep hrun hres
  | write hs => exact h.congr hs.withHal_left (hres.eq rfl)
  | commit hend =>
    cases hend with
    | refused _ hs => exact h.congr hs.withHal_left (hres.eq rfl)
    | done _ i _ _ hs =>
      obtain ⟨flash, hal', hs⟩ := hs
      intro hne
      rw [hs] at hne
      exact absurd rfl hne
  | erase hs =>
    have hkept : p'.reserved = p.reserved := hres.eq rfl
    obtain ⟨flash, hal', hs⟩ := hs
    intro hne
    rw [hkept, hs]
    rw [hs] at hne
    obtain ⟨hread, hindex⟩ := hkeep.resolve_left hne
    refine (h hne).trans ?_
    have hone : (1 : Fin 2) - 0 = 1 := by decide
    rw [hread, hone, hindex]
    show _ = some (Reservation.mk (1 - 0) nReserved p.state.nStagingArea)
    rw [hone]

/-- **Uncommitted work does not disturb the committed block.** In every run, with any faults
before and during the request (of a commit, with none that leaves the error code 0): no flash
operation addresses the sector to read from, and `NVM_read` returns what it returned before
for every range that does not wrap around into the sector to write to. If the run kept the
reservation (`KeepsReservation`), `NVM_write` addresses only the fields the last successful
`NVM_start_write` reserved. -/
theorem uncommitted_undisturbed {flash : Mem} {es : List (Request × List HalResult)}
    {p : Tracked} (h : Run TrackedStep (.boot flash) es p) (hal : List HalResult) {q : Request}
    (hq : Uncommitted (p.state.withHal hal) q) (hcode : q = .call .commit → Reported hal) :
    Within (fun a => ¬ InSector p.state.readSector a) q.run (p.state.withHal hal) ∧
      (Run (Guarded KeepsReservation TrackedStep) (.boot flash) es p → ∀ offset data,
        q = .call (.write offset data) → Within p.Reserved q.run (p.state.withHal hal)) ∧
      ∀ r s', q.run (p.state.withHal hal) = .ok r s' → ∀ offset length,
        ReadsAside p.state offset length →
          nvmRead s' offset length = nvmRead p.state offset length := by
  have hb := tracked_bounded h
  have hb' := hb.withHal hal
  refine ⟨(hq.within hb' hcode).mono fun _ => not_inSector_other, ?_, ?_⟩
  · rintro hguard offset data rfl
    have hheld := hguard.invariant (I := fun p => Bounded p.state ∧ Held p)
      ⟨(boot_spec flash).2.2.bounded, fun hne => absurd (boot_spec flash).2.2.nStagingArea hne⟩
      fun t e u hI hs => ⟨hI.1.step hs.2.fault, hI.2.step hI.1 hs.1 hs.2⟩
    cases hq with
    | write _ _ hlt =>
    refine (nvmWrite_within hb'.staging hlt).mono fun a ha => ?_
    by_cases hne : p.state.nStagingArea = 0
    · obtain ⟨hlo, hhi⟩ := has_mk.mp ha
      change a < fieldAddr _ (_ + p.state.nStagingArea) at hhi
      rw [hne, Nat.add_zero] at hhi
      exact absurd hhi (Nat.not_lt.mpr hlo)
    · exact ⟨_, hheld.2 hne, ha⟩
  · intro r s' hrun offset length haside
    exact hq.nvmRead_eq hb' hcode hrun haside

/-! ## Runs that disturb -/

/-- The state after a request on working flash, with the reservation. -/
def Tracked.serve (p : Tracked) (q : Request) : Tracked where
  state := Nvm.serve p.state q
  reserved := reservedAfter p q ((returned (q.run (p.state.withHal []))).getD 0)
    (Nvm.serve p.state q)

theorem Tracked.serve_step {p : Tracked} (hb : Bounded p.state) (q : Request) :
    TrackedStep p (q, []) (p.serve q) := by
  obtain ⟨r, hrun, hhal⟩ := serve_spec hb q
  refine ⟨r, hrun, fun _ => ?_, fun hfailed => ?_⟩
  · show reservedAfter p q ((returned (q.run _)).getD 0) _ = _
    rw [hrun]
    rfl
  · refine absurd ⟨[], ?_, fun _ h => absurd h List.not_mem_nil⟩ hfailed
    exact hhal.symm

/-- The run that serves the requests one after the other, from the first boot on. -/
theorem staged_run_serve (qs : List Request) : Run TrackedStep (.boot erasedFlash)
    (qs.map fun q => (q, [])) (qs.foldl Tracked.serve (.boot erasedFlash)) := by
  induction qs using List.reverseRecOn with
  | nil => exact .nil
  | append_singleton qs q ih =>
    rw [List.map_append, List.foldl_append]
    exact ih.snoc (Tracked.serve_step (tracked_bounded ih) q)

/-- A field is staged on the first boot; it is written to, or its commit fails. -/
theorem uncommitted_undisturbed_staged :
    let p := (Tracked.boot erasedFlash).serve (.call (.startWrite 8))
    let hal := [HalResult.failure 2 fun _ => BitVec.allOnes 8]
    (Within (fun a => ¬ InSector p.state.readSector a) (nvmWrite 0 [0]) (p.state.withHal []) ∧
      Within p.Reserved (nvmWrite 0 [0]) (p.state.withHal []) ∧
      ∀ r s', nvmWrite 0 [0] (p.state.withHal []) = .ok r s' →
        nvmRead s' 0 8 = nvmRead p.state 0 8) ∧
    ∀ r s', nvmCommit (p.state.withHal hal) = .ok r s' →
      nvmRead s' 0 8 = nvmRead p.state 0 8 := by
  intro p hal
  have hboot := (boot_spec erasedFlash).2.2
  have hstep := Tracked.serve_step (p := .boot erasedFlash) hboot.bounded (.call (.startWrite 8))
  have hkeep : KeepsReservation (.boot erasedFlash) (.call (.startWrite 8), []) :=
    ⟨reported_nil, Or.inl hboot.nStagingArea⟩
  have h := uncommitted_undisturbed (.single hstep) [] (.write 0 [0] (by decide)) (by simp)
  refine ⟨⟨h.1, h.2.1 (.single ⟨hkeep, hstep⟩) 0 [0] rfl,
    fun r s' hrun => h.2.2 r s' hrun 0 8 (Or.inl (by decide))⟩, fun r s' hrun => ?_⟩
  have hfails : Uncommitted (p.state.withHal hal) (.call .commit) := by
    refine .commit fun r s₁ hmark => Or.inl ?_
    have hret := congrArg (returned · = some 2) hmark
    simp only [p, Tracked.boot_erasedFlash] at hret
    have hcode : returned (Outcome.ok r s₁) = some 2 := hret.mp (by decide +kernel)
    cases hcode
    decide
  have hreported : Reported hal := by
    intro code residue hmem
    cases List.mem_singleton.mp hmem
    decide
  exact (uncommitted_undisturbed (.single hstep) hal hfails fun _ => hreported).2.2 r s' hrun 0 8
    (Or.inl (by decide))

/-- A block is committed and the next one staged; a third one that fills a sector is refused
after the sector was erased. -/
def refusedAfterErase : List Request :=
  [.call (.startWrite 8), .call .commit, .call (.startWrite 8), .call (.startWrite 126976)]

theorem flash_of_nvmRead_eq {s s' : NvmState} {offset length : Nat}
    (h : nvmRead s' offset length = nvmRead s offset length)
    (haccept : u32 (offset + length) ≤ s.nValid <<< 3)
    (haccept' : u32 (offset + length) ≤ s'.nValid <<< 3) {i : Nat} (hi : i < length) :
    s'.flash (copied s' offset i) = s.flash (copied s offset i) := by
  rw [nvmRead_copied, nvmRead_copied, if_neg (Nat.not_lt.mpr haccept),
    if_neg (Nat.not_lt.mpr haccept')] at h
  exact List.map_inj_left.mp (Option.some.inj h) i (List.mem_range.mpr hi)

/-- **Uncommitted work can disturb the committed block**: without faults, `NVM_write` can
program a field that is not reserved, and a range that wraps around reads the allocation
table of the sector to write to. After a marking that times out there is another block to
read. -/
theorem uncommitted_disturbs :
    (¬ ∀ flash es p hal q, Run TrackedStep (.boot flash) es p →
      Uncommitted (p.state.withHal hal) q → ∀ offset data, q = .call (.write offset data) →
        Within p.Reserved q.run (p.state.withHal hal)) ∧
    (¬ ∀ flash es p hal q, Run TrackedStep (.boot flash) es p →
      Uncommitted (p.state.withHal hal) q → ∀ r s', q.run (p.state.withHal hal) = .ok r s' →
        ∀ offset < 2 ^ 32, ∀ length < 2 ^ 32,
          nvmRead s' offset length = nvmRead p.state offset length) ∧
    ¬ ∀ flash es p hal q, Run TrackedStep (.boot flash) es p →
      Uncommitted (p.state.withHal hal) q → ∀ r s', q.run (p.state.withHal hal) = .ok r s' →
        nvmRead s' 0 8 = nvmRead p.state 0 8 := by
  refine ⟨?_, ?_, ?_⟩
  · intro h
    -- field 513 of sector 0 is reserved, and field 512 is programmed
    have hrun := staged_run_serve refusedAfterErase
    generalize hp : refusedAfterErase.foldl Tracked.serve (.boot erasedFlash) = p at hrun
    rw [Tracked.boot_erasedFlash] at hp
    have hwithin := h _ _ _ [] _ hrun (.write 0 [0] (by decide)) 0 [0] rfl
    obtain ⟨r, hwrite⟩ := serve_step (tracked_bounded hrun) (.call (.write 0 [0]))
    have hframe := hwithin.frame.of_eq_ok hwrite (fieldAddr 0 512)
    rw [← hp] at hframe
    refine absurd (hframe ?_) (by decide +kernel)
    rintro ⟨v, hv, hlo, -⟩
    have hreserved : v = ⟨0, 513, 1⟩ := Option.some.inj (hv.symm.trans (by decide +kernel))
    rw [hreserved] at hlo
    exact absurd hlo (by decide)
  · intro h
    -- the range ends where the address space does, and starts at the table of sector 0
    have hrun := staged_run_serve [.call (.startWrite 8), .call .commit]
    generalize hp : [Request.call (.startWrite 8), .call .commit].foldl Tracked.serve
      (.boot erasedFlash) = p at hrun
    rw [Tracked.boot_erasedFlash] at hp
    obtain ⟨r, hstart⟩ := serve_step (tracked_bounded hrun) (.call (.startWrite 8))
    have hread := h _ _ _ [] _ hrun (.startWrite 8) r _ hstart (2 ^ 32 - 135040) (by decide)
      135040 (by decide)
    rw [← hp] at hread
    have hbyte := flash_of_nvmRead_eq hread (by decide +kernel) (by decide +kernel)
      (show 0 < 135040 by decide)
    exact absurd hbyte (by decide +kernel)
  · intro h
    -- the marking of field 512 of sector 1 times out, and the sectors change roles
    have hrun := staged_run_serve [.call (.startWrite 8)]
    generalize hp : [Request.call (.startWrite 8)].foldl Tracked.serve (.boot erasedFlash) = p
      at hrun
    rw [Tracked.boot_erasedFlash] at hp
    let hal := [timedOut]
    have hfails : Uncommitted (p.state.withHal hal) (.call .commit) := by
      refine .commit fun r s₁ hmark => Or.inr ?_
      rintro ⟨used, hused, hok⟩
      have hlen := congrArg (fun o => (stateAfter p.state o).hal.length) hmark
      rw [← hp] at hlen
      have hrest : s₁.hal = [] := List.length_eq_zero_iff.mp (hlen.symm.trans (by decide +kernel))
      rw [hrest, List.append_nil] at hused
      have hmem : timedOut ∈ used := by
        rw [← hused]
        exact List.mem_singleton_self _
      cases hok _ hmem
    have hcommit := eq_ok_of_returned (s := p.state) (r := 0) (o := nvmCommit (p.state.withHal hal))
      (by rw [← hp]; decide +kernel)
    have hread := h _ _ _ hal _ hrun hfails 0 _ hcommit
    rw [← hp] at hread
    exact absurd hread (by decide +kernel)

end WODrive.Nvm
