import WODrive.Nvm.Commit
import WODrive.Nvm.Footprint

/-!
# Runs with faults

Sequences of calls of the interface, `NVM_erase` among them, from any flash. The HAL may
report anything for any of the flash operations (`FaultStep`); a run that loses power goes
on as one from the flash that is left.

What the HAL reports decides what is stored, but of the variables it decides little: each
function leaves them in one of a few ways (`RequestFault`). In every state that such a run
reaches they are `Bounded`.
-/

namespace WODrive.Nvm

open Crash Nor

/-- A call of the interface that changes the driver's state; `NVM_erase` is one here. -/
inductive Request where
  | call (c : Call)
  | erase

/-- The code a request runs. -/
def Request.run : Request → NvmM Int
  | .call c => c.run
  | .erase => nvmErase

/-- The state, with the results the HAL has in store for the next call. -/
def NvmState.withHal (s : NvmState) (hal : List HalResult) : NvmState := { s with hal := hal }

/-- A request, with what the HAL reports while it is served and whatever it returns. -/
def FaultStep (s : NvmState) (e : Request × List HalResult) (s' : NvmState) : Prop :=
  ∃ r, e.1.run (s.withHal e.2) = .ok r s'

section

variable {s : NvmState}

theorem SameVars.withHal_left {s' : NvmState} {hal : List HalResult}
    (h : SameVars (s.withHal hal) s') : SameVars s s' := by
  obtain ⟨flash, hal', rfl⟩ := h
  exact ⟨flash, hal', rfl⟩

/-! ## What the functions leave of the variables -/

/-- `set_allocation_state` changes the flash only, and returns 0 only for fields that its
bounds check accepts. -/
theorem setAllocationState_vars (sector : Fin 2) (index count : Nat) (state : FieldState) :
    (setAllocationState sector index count state s).Sat
      (fun r s' => SameVars s s' ∧ (r = 0 → nReserved ≤ index ∧ u32 (index + count) < nData))
      (fun _ => True) := by
  unfold setAllocationState
  rw [sat_ite]
  refine ⟨fun _ => ⟨.refl s, fun h => absurd h (by decide)⟩, fun h1 => ?_⟩
  rw [sat_ite]
  refine ⟨fun _ => ⟨.refl s, fun h => absurd h (by decide)⟩, fun h2 => ?_⟩
  refine (programStates_keepsVars sector _ _ _ _ s).mono (fun r s' h => ⟨h, fun _ => ?_⟩)
    fun _ h => h
  exact ⟨Nat.not_lt.mp h1, Nat.not_le.mp h2⟩

/-- How `erase` leaves the variables: the index is moved back if the HAL erased the sector.
If it did not, the code that is returned may still be 0. -/
inductive EraseFault (sector : Fin 2) (s : NvmState) : Int → NvmState → Prop where
  | failed {r : Int} {s' : NvmState} (h : SameVars s s') : EraseFault sector s r s'
  | done {s' : NvmState} (hhal : ∀ code residue hal, s.hal ≠ .failure code residue :: hal)
      (h : SameVars (s.withIndex sector nReserved) s') : EraseFault sector s 0 s'

theorem eraseSector_vars (sector : Fin 2) :
    (eraseSector sector s).Sat (EraseFault sector s) (fun _ => True) := by
  have hback : ∀ s', SameVars s s' → SameVars (s.withIndex sector nReserved)
      { s' with index := Function.update s'.index sector nReserved } := by
    rintro s' ⟨flash, hal, rfl⟩
    exact ⟨flash, hal, rfl⟩
  unfold eraseSector
  rw [sat_orFail]
  cases herase : halFlashErase sector s with
  | powerLoss d => trivial
  | ok status s' =>
    have hsame := (halFlashErase_keepsVars sector s).of_eq_ok herase
    refine ⟨fun hok => .done ?_ (hback s' hsame), fun _ _ => .failed hsame⟩
    exact ((halFlashErase_spec sector s).of_eq_ok herase).1 hok

/-- How `NVM_start_write` of `n` fields leaves the variables, whatever the HAL reports. -/
inductive StartWriteFault (s : NvmState) (n : Nat) : Int → NvmState → Prop where
  | refused {r : Int} {s' : NvmState} (hr : r ≠ 0) (h : SameVars s s') :
      StartWriteFault s n r s'
  /-- The sector was erased and the fields were not reserved. -/
  | emptied {r : Int} {s' : NvmState} (hr : r ≠ 0) (hfit : n ≤ nData - nReserved)
      (herase : nData - s.index (1 - s.readSector) < n)
      (hhal : ∀ code residue hal, s.hal ≠ .failure code residue :: hal)
      (h : SameVars (room s n) s') : StartWriteFault s n r s'
  | ok {s' : NvmState} (hlt : (room s n).index (1 - s.readSector) + n < nData)
      (h : SameVars { room s n with nStagingArea := n } s') : StartWriteFault s n 0 s'

/-- The end of `NVM_start_write`: the fields are staged only if they fit behind the index. -/
theorem invalidateFields_vars {s₁ : NvmState} {n : Nat} (hb : InBounds s)
    (hfit : n ≤ nData - nReserved) (target : Fin 2) (h : SameVars s s₁) :
    (invalidateFields target n s₁).Sat
      (fun r s' => r ≠ 0 ∧ SameVars s s' ∨
        r = 0 ∧ s.index target + n < nData ∧ SameVars { s with nStagingArea := n } s')
      (fun _ => True) := by
  obtain ⟨flash, hal, rfl⟩ := h
  have hle := hb.le_nData target
  unfold invalidateFields
  rw [sat_bind, sat_get, sat_bind]
  refine (setAllocationState_vars _ _ _ _).mono (fun r s' hend => ?_) fun _ h => h
  obtain ⟨⟨flash', hal', rfl⟩, hok⟩ := hend
  rw [sat_ite]
  refine ⟨fun hr => Or.inl ⟨hr, flash', hal', rfl⟩, fun hr => Or.inr ⟨rfl, ?_, ?_⟩⟩
  · have hlt := (hok (not_not.mp hr)).2
    rwa [u32_of_lt (by rw [nData_eq] at hle hfit; show s.index _ + n < _; omega)] at hlt
  · exact ⟨flash', hal', rfl⟩

theorem nvmStartWrite_vars (hb : InBounds s) (length : Nat) :
    (nvmStartWrite length s).Sat (StartWriteFault s (fields length)) (fun _ => True) := by
  have hsub : subU32 nData (s.index (1 - s.readSector)) =
      nData - s.index (1 - s.readSector) := subU32_of_le (hb.le_nData _) (by decide)
  unfold nvmStartWrite
  rw [sat_bind, sat_get, sat_ite]
  refine ⟨fun _ => .refused (by decide) (.refl s), fun hfit => ?_⟩
  have hfit' := Nat.not_lt.mp hfit
  rw [sat_ite, hsub]
  refine ⟨fun herase => ?_, fun herase => ?_⟩
  · rw [sat_bind]
    refine (eraseSector_vars (1 - s.readSector)).mono (fun r s₁ h => ?_) fun _ h => h
    rw [sat_ite]
    cases h with
    | failed hsame =>
      refine ⟨fun hr => .refused hr hsame, fun _ => ?_⟩
      -- the index is where it was, and the marking is refused
      refine (invalidateFields_vars hb hfit' _ hsame).mono (fun r s' h => ?_) fun _ h => h
      rcases h with ⟨hr, h⟩ | ⟨-, hlt, -⟩
      · exact .refused hr h
      · change s.index (1 - s.readSector) + fields length < nData at hlt
        change fields length > _ at herase
        omega
    | done hhal hsame =>
      have hroom : SameVars (room s (fields length)) s₁ := by
        obtain ⟨flash, hal, rfl⟩ := hsame
        exact ⟨flash, hal, by rw [room, if_pos (show fields length > _ from herase)]; rfl⟩
      refine ⟨fun h => absurd rfl h, fun _ => ?_⟩
      refine (invalidateFields_vars (room_inBounds hb _) hfit' _ hroom).mono (fun r s' h => ?_)
        fun _ h => h
      rcases h with ⟨hr, h⟩ | ⟨rfl, hlt, h⟩
      · exact .emptied hr hfit' herase hhal h
      · exact .ok hlt h
  · have hroom : room s (fields length) = s := if_neg herase
    refine (invalidateFields_vars hb hfit' _ (.refl s)).mono (fun r s' h => ?_) fun _ h => h
    rcases h with ⟨hr, h⟩ | ⟨rfl, hlt, h⟩
    · exact .refused hr h
    · refine .ok ?_ ?_
      · rw [hroom]
        exact hlt
      · rw [hroom]
        exact h

/-- How `NVM_commit` leaves the variables, whatever the HAL reports: the sectors have
changed roles if the marking of the fields returned 0. -/
inductive CommitFault (s : NvmState) : Int → NvmState → Prop where
  | refused {r : Int} {s' : NvmState} (hr : r ≠ 0) (h : SameVars s s') : CommitFault s r s'
  | done {r : Int} {s' : NvmState} (hlt : s.index (1 - s.readSector) + s.nStagingArea < nData)
      (i : Nat) (hi : nReserved ≤ i) (hi' : i ≤ nData)
      (h : SameVars ((flipped s s.flash 0).withIndex s.readSector i) s') : CommitFault s r s'

/-- The end of `NVM_commit`, once the sectors have changed roles. -/
theorem invalidateSector_vars (hb : InBounds s)
    (hlt : s.index (1 - s.readSector) + s.nStagingArea < nData) {s₁ : NvmState}
    (h : SameVars (flipped s s.flash 0) s₁) :
    (invalidateSector s.readSector s₁).Sat (CommitFault s) (fun _ => True) := by
  obtain ⟨flash, hal, rfl⟩ := h
  have hread : (flipped s s.flash 0).index s.readSector = s.index s.readSector :=
    Function.update_of_ne (other_ne s.readSector).symm _ _
  have hge := hb.nReserved_le s.readSector
  have hle := hb.le_nData s.readSector
  unfold invalidateSector
  rw [sat_bind, sat_get, sat_ite]
  refine ⟨fun hroom => ?_, fun _ => ?_⟩
  · change (flipped s s.flash 0).index s.readSector < nData at hroom
    rw [sat_bind]
    refine (setAllocationState_vars _ _ _ _).mono (fun r s' hend => ?_) fun _ h => h
    obtain ⟨⟨flash', hal', rfl⟩, -⟩ := hend
    rw [hread] at hroom
    refine .done hlt (s.index s.readSector + 1) (by omega) hroom ⟨flash', hal', ?_⟩
    rw [← hread]
    rfl
  · refine (eraseSector_vars s.readSector).mono (fun r s' hend => ?_) fun _ h => h
    cases hend with
    | failed h =>
      obtain ⟨flash', hal', rfl⟩ := h
      refine .done hlt (s.index s.readSector) hge hle ⟨flash', hal', ?_⟩
      rw [NvmState.withIndex, ← hread, Function.update_eq_self]
    | done _ h =>
      obtain ⟨flash', hal', rfl⟩ := h
      exact .done hlt nReserved (Nat.le_refl _) (by decide) ⟨flash', hal', rfl⟩

theorem nvmCommit_vars (hb : InBounds s) : (nvmCommit s).Sat (CommitFault s) (fun _ => True) := by
  have hle := hb.le_nData (1 - s.readSector)
  have hst := hb.nStagingArea_le
  unfold nvmCommit
  rw [sat_bind, sat_get, sat_bind]
  refine (setAllocationState_vars _ _ _ _).mono (fun r s' hend => ?_) fun _ h => h
  obtain ⟨⟨flash, hal, rfl⟩, hok⟩ := hend
  rw [sat_ite]
  refine ⟨fun hr => .refused hr ⟨flash, hal, rfl⟩, fun hr => ?_⟩
  have hlt := (hok (not_not.mp hr)).2
  rw [u32_of_lt (by rw [nData_eq] at hle hst; omega)] at hlt
  rw [sat_bind, sat_modify]
  exact invalidateSector_vars hb hlt ⟨flash, hal, rfl⟩

/-- The variables after `NVM_erase`. -/
def emptied (s : NvmState) : NvmState :=
  { s with readSector := 0, index := fun _ => nReserved }

/-- `NVM_erase` moves both indices back, whether or not the HAL erases the sectors. -/
theorem nvmErase_vars : (nvmErase s).Sat (fun _ s' => SameVars (emptied s) s')
    (fun _ => True) := by
  have hkeep : ∀ (k : Fin 2) {s₁ s₂ : NvmState} {r : Int}, SameVars (emptied s) s₁ →
      EraseFault k s₁ r s₂ → SameVars (emptied s) s₂ := by
    intro k s₁ s₂ r h₁ h
    cases h with
    | failed h => exact h₁.trans h
    | done _ h =>
      obtain ⟨flash, hal, rfl⟩ := h₁
      obtain ⟨flash', hal', rfl⟩ := h
      refine ⟨flash', hal', ?_⟩
      show { s with
        index := Function.update (fun _ => nReserved) k nReserved, readSector := 0,
        flash := flash', hal := hal' } = _
      rw [show Function.update (fun _ => nReserved) k nReserved = fun _ => nReserved from
        Function.update_eq_self k (fun _ => nReserved)]
      rfl
  unfold nvmErase
  rw [sat_bind, sat_modify, sat_bind]
  refine (eraseSector_vars 0).mono (fun r₀ s₁ h₁ => ?_) fun _ h => h
  have hs₁ := hkeep 0 (.refl (emptied s)) h₁
  rw [sat_bind]
  refine (eraseSector_vars 1).mono (fun r₁ s₂ h₂ => ?_) fun _ h => h
  exact hkeep 1 hs₁ h₂

/-- How a request leaves the variables, whatever the HAL reports. -/
inductive RequestFault (s : NvmState) : Request → Int → NvmState → Prop where
  | init {r : Int} {s' : NvmState} (h : Booted s') : RequestFault s (.call .init) r s'
  | startWrite {length : Nat} {r : Int} {s' : NvmState}
      (h : StartWriteFault s (fields length) r s') :
      RequestFault s (.call (.startWrite length)) r s'
  | write {offset : Nat} {data : List (BitVec 8)} {r : Int} {s' : NvmState}
      (h : SameVars s s') : RequestFault s (.call (.write offset data)) r s'
  | commit {r : Int} {s' : NvmState} (h : CommitFault s r s') :
      RequestFault s (.call .commit) r s'
  | erase {r : Int} {s' : NvmState} (h : SameVars (emptied s) s') : RequestFault s .erase r s'

theorem request_fault (hb : InBounds s) {q : Request} {r : Int} {s' : NvmState}
    (hrun : q.run s = .ok r s') : RequestFault s q r s' := by
  cases q with
  | erase => exact .erase (nvmErase_vars.of_eq_ok hrun)
  | call c =>
    cases c with
    | init =>
      obtain ⟨s₁, heq, -, -, hboot⟩ := nvmInit_eq s
      cases hrun.symm.trans heq
      exact .init hboot
    | startWrite length => exact .startWrite ((nvmStartWrite_vars hb length).of_eq_ok hrun)
    | write offset data => exact .write ((nvmWrite_keepsVars offset data s).of_eq_ok hrun)
    | commit => exact .commit ((nvmCommit_vars hb).of_eq_ok hrun)

/-! ## Bounds that no fault breaks -/

/-- The bounds of the variables in every state of a run, whatever fails in it. -/
structure Bounded (s : NvmState) : Prop where
  inBounds : InBounds s
  staging : s.index (1 - s.readSector) + s.nStagingArea ≤ nData
  nValid_le : s.nValid ≤ nData
  /-- `NVM_erase` moves the index of sector 0 and leaves `n_valid_`. -/
  valid : s.readSector = 0 ∨ s.nValid ≤ s.index s.readSector - nReserved

theorem Bounded.congr {s' : NvmState} (h : Bounded s) (hs : SameVars s s') : Bounded s' := by
  obtain ⟨flash, hal, rfl⟩ := hs
  exact ⟨⟨h.inBounds.nReserved_le, h.inBounds.le_nData, h.inBounds.nStagingArea_le⟩,
    h.staging, h.nValid_le, h.valid⟩

theorem Bounded.withHal (h : Bounded s) (hal : List HalResult) : Bounded (s.withHal hal) :=
  h.congr ⟨s.flash, hal, rfl⟩

theorem Booted.bounded (h : Booted s) : Bounded s := by
  have hb := h.inBounds
  have hle := hb.le_nData s.readSector
  have hlo := h.nValid.lo_le
  have hv := h.nValid_le
  refine ⟨hb, ?_, by omega, Or.inr (by omega)⟩
  rw [h.nStagingArea]
  exact hb.le_nData _

theorem Bounded.room (h : Bounded s) (n : Nat) : Bounded (room s n) := by
  refine ⟨room_inBounds h.inBounds n, ?_, by simpa using h.nValid_le, by simpa using h.valid⟩
  have hge := h.inBounds.nReserved_le (1 - s.readSector)
  have hst := h.staging
  rw [room_readSector, room_nStagingArea, room_index_write]
  split <;> omega

theorem Bounded.startWrite {n : Nat} {r : Int} {s' : NvmState} (h : Bounded s)
    (hend : StartWriteFault s n r s') : Bounded s' := by
  cases hend with
  | refused _ hs => exact h.congr hs
  | emptied _ _ _ _ hs => exact (h.room n).congr hs
  | ok hlt hs =>
    have hr := h.room n
    have hnew : Bounded { Nvm.room s n with nStagingArea := n } := by
      refine ⟨⟨hr.inBounds.nReserved_le, hr.inBounds.le_nData, ?_⟩, ?_, hr.nValid_le, hr.valid⟩
      · show n ≤ nData
        omega
      · show (Nvm.room s n).index (1 - (Nvm.room s n).readSector) + n ≤ nData
        rw [room_readSector]
        omega
    exact hnew.congr hs

/-- The committed fields lie in the data area. -/
theorem flipped_nValid_le (hb : InBounds s) (flash : Mem) (j i : Nat) :
    s.nStagingArea ≤ ((flipped s flash j).withIndex s.readSector i).index (1 - s.readSector) -
      nReserved := by
  have hge := hb.nReserved_le (1 - s.readSector)
  rw [index_write_flipped]
  omega

theorem Bounded.commit {r : Int} {s' : NvmState} (h : Bounded s) (hend : CommitFault s r s') :
    Bounded s' := by
  cases hend with
  | refused _ hs => exact h.congr hs
  | done hlt i hi hi' hs =>
    refine Bounded.congr ⟨?_, ?_, h.inBounds.nStagingArea_le,
      Or.inr (flipped_nValid_le h.inBounds s.flash 0 i)⟩ hs
    · exact inBounds_withIndex (inBounds_flipped h.inBounds hlt _ _) _ hi hi'
    · show ((flipped s s.flash 0).withIndex s.readSector i).index (1 - (1 - s.readSector)) + 0 ≤ _
      rw [other_other, index_read_flipped]
      exact hi'

theorem Bounded.erase (h : Bounded s) : Bounded (emptied s) := by
  have hst := h.staging
  have hge := h.inBounds.nReserved_le (1 - s.readSector)
  refine ⟨⟨fun _ => Nat.le_refl _, fun _ => show nReserved ≤ nData by decide,
    h.inBounds.nStagingArea_le⟩, ?_, h.nValid_le, Or.inl rfl⟩
  show nReserved + s.nStagingArea ≤ nData
  omega

/-- The bounds hold after every request, whatever the HAL reports. -/
theorem Bounded.step {e : Request × List HalResult} {s' : NvmState} (h : Bounded s)
    (hstep : FaultStep s e s') : Bounded s' := by
  obtain ⟨q, hal⟩ := e
  obtain ⟨r, hrun⟩ := hstep
  have hs := h.withHal hal
  cases request_fault hs.inBounds hrun with
  | init hboot => exact hboot.bounded
  | startWrite hend => exact hs.startWrite hend
  | write hsame => exact hs.congr hsame
  | commit hend => exact hs.commit hend
  | erase hsame => exact hs.erase.congr hsame

end

/-- In every state of a run the variables are in their bounds, whatever failed in it. -/
theorem run_bounded {flash : Mem} {es : List (Request × List HalResult)} {s : NvmState}
    (h : Run FaultStep (boot flash) es s) : Bounded s :=
  h.invariant (boot_spec flash).2.2.bounded fun _ _ _ => Bounded.step

/-! ## Runs on working flash -/

/-- The HAL serves all operations of the request. -/
def Working (_ : NvmState) (e : Request × List HalResult) : Prop := e.2 = []

/-- The state after a request on working flash. -/
def serve (s : NvmState) (q : Request) : NvmState := stateAfter s (q.run (s.withHal []))

theorem eraseSector_nil {s : NvmState} (hh : s.hal = []) (sector : Fin 2) :
    ∃ r s', eraseSector sector s = .ok r s' ∧ s'.hal = [] := by
  have hne := noError_of_nil hh
  obtain ⟨r, s', heq, -, -, rfl⟩ := (eraseSector_sat hne sector).exists_ok
    fun d hd => not_not_survives_nil ⟨1, hh ▸ hd.1⟩
  refine ⟨r, _, heq, ?_⟩
  show s.hal.drop 1 = []
  rw [hh, List.drop_nil]

/-- On working flash every request is served to its end. -/
theorem request_end {s : NvmState} (hh : s.hal = []) (hb : InBounds s) (q : Request) :
    ∃ r s', q.run s = .ok r s' ∧ s'.hal = [] := by
  cases q with
  | call c =>
    obtain ⟨r, s', heq, hend⟩ := call_end hh hb c
    exact ⟨r, s', heq, callEnd_hal hh hend⟩
  | erase =>
    obtain ⟨r₀, s₀, heq₀, hh₀⟩ := eraseSector_nil (s := emptied s) hh 0
    obtain ⟨r₁, s₁, heq₁, hh₁⟩ := eraseSector_nil hh₀ 1
    refine ⟨Int.lor r₀ r₁, s₁, ?_, hh₁⟩
    exact bind_eq_ok.mpr ⟨⟨⟩, _, rfl, bind_eq_ok.mpr ⟨r₀, s₀, heq₀,
      bind_eq_ok.mpr ⟨r₁, s₁, heq₁, rfl⟩⟩⟩

theorem serve_spec {s : NvmState} (hb : Bounded s) (q : Request) :
    ∃ r, q.run (s.withHal []) = .ok r (serve s q) ∧ (serve s q).hal = [] := by
  obtain ⟨r, s', heq, hh⟩ := request_end (s := s.withHal []) rfl (hb.withHal []).inBounds q
  have hserve : serve s q = s' := by
    rw [serve, heq]
    rfl
  rw [hserve]
  exact ⟨r, heq, hh⟩

theorem serve_step {s : NvmState} (hb : Bounded s) (q : Request) :
    FaultStep s (q, []) (serve s q) := by
  obtain ⟨r, heq, -⟩ := serve_spec hb q
  exact ⟨r, heq⟩

/-- The run that serves the requests one after the other, from the first boot on. -/
theorem run_serve (qs : List Request) : Run (Guarded Working FaultStep) (boot erasedFlash)
    (qs.map fun q => (q, [])) (qs.foldl serve firstBoot) := by
  rw [boot_erasedFlash]
  induction qs using List.reverseRecOn with
  | nil => exact .nil
  | append_singleton qs q ih =>
    have hrun : Run FaultStep (boot erasedFlash) (qs.map fun q => (q, []))
        (qs.foldl serve firstBoot) := by
      rw [boot_erasedFlash]
      exact ih.mono fun _ _ _ h => h.2
    rw [List.map_append, List.foldl_append]
    exact ih.snoc ⟨rfl, serve_step (run_bounded hrun) q⟩

end WODrive.Nvm
