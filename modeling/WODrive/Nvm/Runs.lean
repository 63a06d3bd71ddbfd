import WODrive.Nvm.Calls
import WODrive.Library.Runs

/-!
# Runs of the driver

Sequences of calls of the interface, from erased flash, in which every flash
operation succeeds. In every state such a run reaches the indices lie in their
sectors (`run_inBounds`), whatever the calls were and whatever they stored.

The allocation table cannot record the last field of a sector: the bounds check of
`set_allocation_state` refuses a range that ends with it. `nvmStartWrite_succeeds_iff`
says exactly when `NVM_start_write` runs into this.
-/

namespace WODrive.Nvm

open Crash Nor

/-- A call of the interface that changes the driver's state. -/
inductive Call where
  | init
  | startWrite (length : Nat)
  | write (offset : Nat) (data : List (BitVec 8))
  | commit

/-- The code a call runs. -/
def Call.run : Call → NvmM Int
  | .init => nvmInit
  | .startWrite length => nvmStartWrite length
  | .write offset data => nvmWrite offset data
  | .commit => nvmCommit

/-- A call, with whatever it returns. -/
def CallStep (s : NvmState) (c : Call) (s' : NvmState) : Prop := ∃ r, c.run s = .ok r s'

/-- The variables at reset, with a HAL whose operations succeed. -/
def reset (flash : Mem) : NvmState where
  index := fun _ => 0
  readSector := 0
  nStagingArea := 0
  nValid := 0
  flash := flash
  hal := []

/-- What a call returned, if it was not cut short. -/
def returned : Outcome NvmState Mem Int → Option Int
  | .ok r _ => some r
  | .powerLoss _ => none

/-- The state a call left; `s` if it was cut short. -/
def stateAfter (s : NvmState) : Outcome NvmState Mem Int → NvmState
  | .ok _ s' => s'
  | .powerLoss _ => s

/-- The state after a reset and `NVM_init`. -/
def boot (flash : Mem) : NvmState := stateAfter (reset flash) (nvmInit (reset flash))

/-- Fully erased flash. -/
def erasedFlash : Mem := fun _ => BitVec.allOnes 8

/-- The states that runs from erased flash reach. The interface is only defined after
`NVM_init`, which is the first call. -/
def Reachable (s : NvmState) : Prop := ∃ cs, Run CallStep (boot erasedFlash) cs s

theorem eq_ok_of_returned {s : NvmState} {r : Int} {o : Outcome NvmState Mem Int}
    (h : returned o = some r) : o = .ok r (stateAfter s o) := by
  cases o with
  | ok r' s' =>
    cases h
    rfl
  | powerLoss d => cases h

theorem boot_spec (flash : Mem) :
    (boot flash).flash = flash ∧ (boot flash).hal = [] ∧ Booted (boot flash) := by
  obtain ⟨s', heq, hf, hh, hb⟩ := nvmInit_eq (reset flash)
  rw [boot, heq]
  exact ⟨hf, hh, hb⟩

/-- Initialization depends on the flash only. -/
theorem nvmInit_eq_boot {s : NvmState} (hh : s.hal = []) :
    nvmInit s = .ok 0 (boot s.flash) := by
  obtain ⟨s', heq, hf, hl, hb⟩ := nvmInit_eq s
  obtain ⟨hf', hl', hb'⟩ := boot_spec s.flash
  rw [heq, hb'.eq_of_flash hb (hf.trans hf'.symm) (hl.trans (hh.trans hl'.symm))]

theorem cell_erasedFlash (k : Fin 2) (i : Nat) : cell erasedFlash (base k) i = ERASED :=
  lane_allOnes ⟨i % 4, Nat.mod_lt _ (by decide)⟩

/-- The variables after the first boot. -/
def firstBoot : NvmState where
  index := fun _ => nReserved
  readSector := 0
  nStagingArea := 0
  nValid := 0
  flash := erasedFlash
  hal := []

theorem boot_erasedFlash : boot erasedFlash = firstBoot := by
  have hle : nReserved ≤ nData := by decide
  have hb : Booted firstBoot :=
    ⟨fun k => ⟨Nat.le_refl _, hle, fun i _ _ => cell_erasedFlash k i, Or.inl rfl⟩, rfl,
      ⟨Nat.le_refl _, Nat.le_refl _, fun _ h1 h2 => absurd h2 (Nat.not_lt.mpr h1), Or.inl rfl⟩,
      Nat.zero_le _, rfl⟩
  obtain ⟨hf, hh, hb'⟩ := boot_spec erasedFlash
  exact hb.eq_of_flash hb' hf hh

theorem noError_of_nil {hal : List HalResult} (hh : hal = []) : NoError hal := by
  rw [hh]
  exact fun _ h => absurd h List.not_mem_nil

theorem not_not_survives_nil : ¬ ∃ j, ¬ Survives [] j :=
  fun ⟨j, h⟩ => h (survives_nil j)

/-! ## Calls end normally -/

/-- The result and the state a call ends with when no flash operation fails. -/
inductive CallEnd (s : NvmState) : Call → Int → NvmState → Prop where
  | init {s' : NvmState} (hf : s'.flash = s.flash) (hh : s'.hal = s.hal) (h : Booted s') :
      CallEnd s .init 0 s'
  | startWrite {length : Nat} {r : Int} {s' : NvmState}
      (h : StartWriteEnd s (fields length) r s') : CallEnd s (.startWrite length) r s'
  | write {offset : Nat} {data : List (BitVec 8)} {r : Int} (flash : Mem) (j : Nat)
      (h : nvmWrite offset data s = .ok r (s.after flash j)) :
      CallEnd s (.write offset data) r (s.after flash j)
  | commit {r : Int} {s' : NvmState} (h : CommitEnd s r s') : CallEnd s .commit r s'

theorem call_end {s : NvmState} (hh : s.hal = []) (hb : InBounds s) (c : Call) :
    ∃ r s', c.run s = .ok r s' ∧ CallEnd s c r s' := by
  have hne := noError_of_nil hh
  have hlive : ¬ ∃ j, ¬ Survives s.hal j := by
    rw [hh]
    exact not_not_survives_nil
  cases c with
  | init =>
    obtain ⟨s', heq, hf, hl, h⟩ := nvmInit_eq s
    exact ⟨0, s', heq, .init hf hl h⟩
  | startWrite length =>
    obtain ⟨r, s', heq, h⟩ := (nvmStartWrite_sat hne hb length).exists_ok
      fun d hd => hlive hd.1
    exact ⟨r, s', heq, .startWrite h⟩
  | write offset data =>
    obtain ⟨r, s', heq, flash, j, rfl⟩ := Outcome.Sat.exists_ok
      (nvmWrite_onlyFlash hne offset data) fun d hd => hlive hd
    exact ⟨r, _, heq, .write flash j heq⟩
  | commit =>
    obtain ⟨r, s', heq, h⟩ := (nvmCommit_sat hne hb).exists_ok fun d hd => hlive hd.1
    exact ⟨r, s', heq, .commit h⟩

theorem callEnd_of_run {s s' : NvmState} {r : Int} {c : Call} (hh : s.hal = [])
    (hb : InBounds s) (h : c.run s = .ok r s') : CallEnd s c r s' := by
  obtain ⟨r', s'', heq, hend⟩ := call_end hh hb c
  rw [h] at heq
  cases heq
  exact hend

/-! ## Bounds of the variables along a run -/

theorem inBounds_withIndex {s : NvmState} (hb : InBounds s) (k : Fin 2) {i : Nat}
    (h1 : nReserved ≤ i) (h2 : i ≤ nData) : InBounds (s.withIndex k i) := by
  refine ⟨fun k' => ?_, fun k' => ?_, hb.nStagingArea_le⟩
  · show nReserved ≤ Function.update s.index k i k'
    by_cases hk : k' = k
    · rw [hk, Function.update_self]
      exact h1
    · rw [Function.update_of_ne hk]
      exact hb.nReserved_le k'
  · show Function.update s.index k i k' ≤ nData
    by_cases hk : k' = k
    · rw [hk, Function.update_self]
      exact h2
    · rw [Function.update_of_ne hk]
      exact hb.le_nData k'

theorem inBounds_flipped {s : NvmState} (hb : InBounds s)
    (h : s.index (1 - s.readSector) + s.nStagingArea < nData) (flash : Mem) (j : Nat) :
    InBounds (flipped s flash j) := by
  have hge := hb.nReserved_le (1 - s.readSector)
  have hw := inBounds_withIndex hb (1 - s.readSector)
    (show nReserved ≤ s.index (1 - s.readSector) + s.nStagingArea by omega) (Nat.le_of_lt h)
  exact ⟨hw.nReserved_le, hw.le_nData, Nat.zero_le _⟩

/-- Every call keeps the indices in their sectors. -/
theorem callEnd_inBounds {s s' : NvmState} {r : Int} {c : Call} (hb : InBounds s)
    (h : CallEnd s c r s') : InBounds s' := by
  cases h with
  | init _ _ h => exact h.inBounds
  | startWrite h =>
    cases h with
    | tooLong => exact hb
    | full => exact room_inBounds hb _
    | ok hfit =>
      have hr := room_inBounds hb
      exact ⟨(hr _).nReserved_le, (hr _).le_nData, Nat.le_trans hfit (Nat.sub_le _ _)⟩
  | write flash j => exact ⟨hb.nReserved_le, hb.le_nData, hb.nStagingArea_le⟩
  | commit h =>
    have hge := hb.nReserved_le s.readSector
    cases h with
    | rejected => exact hb
    | ok h hr => exact inBounds_withIndex (inBounds_flipped hb h _ _) _ (by omega) (by omega)
    | full h hr => exact inBounds_withIndex (inBounds_flipped hb h _ _) _ (by omega) (by omega)
    | erased h =>
      exact inBounds_withIndex (inBounds_flipped hb h _ _) _ (Nat.le_refl _) (by decide)

theorem callEnd_hal {s s' : NvmState} {r : Int} {c : Call} (hh : s.hal = [])
    (h : CallEnd s c r s') : s'.hal = [] := by
  cases h with
  | init _ hl => rw [hl, hh]
  | startWrite h =>
    cases h with
    | tooLong => exact hh
    | full =>
      obtain ⟨j, hj⟩ := room_hal s _
      rw [hj, hh, List.drop_nil]
    | ok h h' m j hm =>
      obtain ⟨i, hi⟩ := room_hal s _
      show ((room s _).hal).drop j = []
      rw [hi, hh, List.drop_nil, List.drop_nil]
  | write flash j =>
    show s.hal.drop j = []
    rw [hh, List.drop_nil]
  | commit h =>
    cases h with
    | rejected => exact hh
    | ok h hr hs m m' j =>
      show s.hal.drop j = []
      rw [hh, List.drop_nil]
    | full h hr hs m j =>
      show s.hal.drop j = []
      rw [hh, List.drop_nil]
    | erased h hr m j =>
      show s.hal.drop j = []
      rw [hh, List.drop_nil]

/-- A HAL without faults stays one. -/
theorem run_hal {s s' : NvmState} {r : Int} {c : Call} (hh : s.hal = []) (hb : InBounds s)
    (h : c.run s = .ok r s') : s'.hal = [] :=
  callEnd_hal hh (callEnd_of_run hh hb h)

/-- In every reachable state the indices lie in their sectors. -/
theorem run_inBounds {s : NvmState} (h : Reachable s) : s.hal = [] ∧ InBounds s := by
  obtain ⟨cs, hrun⟩ := h
  obtain ⟨-, hl, hboot⟩ := boot_spec erasedFlash
  refine hrun.invariant (I := fun s => s.hal = [] ∧ InBounds s) ⟨hl, hboot.inBounds⟩ ?_
  rintro s c s' ⟨hh, hb⟩ ⟨r, hc⟩
  have hend := callEnd_of_run hh hb hc
  exact ⟨callEnd_hal hh hend, callEnd_inBounds hb hend⟩

/-! ## Room for a configuration -/

/-- `NVM_start_write` returned 0, with the target erased first exactly if the remaining
fields did not suffice. -/
def StartWriteSucceeds (s : NvmState) (length : Nat) : Prop :=
  ∃ s', nvmStartWrite length s = .ok 0 s' ∧ s'.nStagingArea = fields length ∧
    s'.index (1 - s.readSector) =
      if fields length > nData - s.index (1 - s.readSector) then nReserved
      else s.index (1 - s.readSector)

/-- A length that `NVM_get_max_write_length` allows takes at most the fields of an empty
sector. -/
theorem fields_of_le {s : NvmState} {length : Nat} (hpos : 0 < length)
    (hmax : length ≤ nvmGetMaxWriteLength s) :
    0 < fields length ∧ fields length ≤ nData - nReserved := by
  have hm : nvmGetMaxWriteLength s = 126976 := rfl
  have hd : nData - nReserved = 15872 := rfl
  rw [hm] at hmax
  rw [fields, u32_of_lt (by omega), Nat.shiftRight_eq_div_pow, hd]
  omega

/-- **`NVM_start_write` of a length that fits an empty sector succeeds if and only if
the block ends neither with the last field of the target sector as it is nor, at the
start of an erased sector, with its last field.** -/
theorem nvmStartWrite_succeeds_iff {s : NvmState} (h : Reachable s) {length : Nat}
    (hpos : 0 < length) (hmax : length ≤ nvmGetMaxWriteLength s) :
    StartWriteSucceeds s length ↔
      s.index (1 - s.readSector) + fields length ≠ nData ∧
        nReserved + fields length ≠ nData := by
  obtain ⟨hh, hb⟩ := run_inBounds h
  have hge := hb.nReserved_le (1 - s.readSector)
  have hle := hb.le_nData (1 - s.readSector)
  have hfit := fields_of_le hpos hmax
  obtain ⟨r, s', heq, hend⟩ := call_end hh hb (.startWrite length)
  change nvmStartWrite length s = .ok r s' at heq
  have hidx := room_index_write s (fields length)
  -- the index at which the fields are marked, and where they end
  have hfull : nData ≤ (room s (fields length)).index (1 - s.readSector) + fields length ↔
      ¬ (s.index (1 - s.readSector) + fields length ≠ nData ∧
        nReserved + fields length ≠ nData) := by
    rw [hidx]
    split <;> omega
  cases hend with
  | startWrite hend =>
  cases hend with
  | tooLong h => exact absurd hfit.2 (Nat.not_le.mpr h)
  | full h h' =>
    refine ⟨fun hs => ?_, fun hc => absurd hc (hfull.mp h')⟩
    obtain ⟨s'', heq', -⟩ := hs
    rw [heq] at heq'
    cases heq'
  | ok h h' m j hm =>
    refine ⟨fun _ => not_not.mp fun hc => absurd (hfull.mpr hc) (Nat.not_le.mpr h'),
      fun _ => ⟨_, heq, rfl, ?_⟩⟩
    rw [← hidx]
    rfl

theorem reachable_boot : Reachable (boot erasedFlash) := ⟨[], .nil⟩

/-- On the first boot a small configuration can be saved. -/
theorem nvmStartWrite_succeeds_iff_small :
    StartWriteSucceeds (boot erasedFlash) 8 ↔
      (boot erasedFlash).index (1 - (boot erasedFlash).readSector) + fields 8 ≠ nData ∧
        nReserved + fields 8 ≠ nData :=
  nvmStartWrite_succeeds_iff reachable_boot (by decide) (by decide)

/-- The length `NVM_get_max_write_length` allows is refused on the first boot already. -/
theorem nvmStartWrite_max_fails :
    ¬ ∀ s, Reachable s → ∀ length, 0 < length → length ≤ nvmGetMaxWriteLength s →
      ∃ s', nvmStartWrite length s = .ok 0 s' := by
  intro h
  obtain ⟨s', heq⟩ := h (boot erasedFlash) reachable_boot 126976 (by decide) (by decide)
  have hr : returned (nvmStartWrite 126976 (boot erasedFlash)) = some (-1) := by
    decide +kernel
  rw [heq] at hr
  cases hr

end WODrive.Nvm
