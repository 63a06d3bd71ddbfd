import WODrive.Nvm.Model
import WODrive.Library.Suffix
import Mathlib.Order.Bounds.Defs

/-!
# The allocation table

What the driver's table functions do to, and read from, the two-bit cells of a
sector's allocation table:

- `setAllocationState_exact`: the given state is ANDed into exactly the fields of
  the range, in the order of increasing index, so that a power loss before any of the
  operations leaves exactly the prefix of the range updated that `programmedTo` ends;
- `setAllocationState_sat`: the same as a specification for its callers, with the
  bounds check;
- `scanAllocationTable_eq`: the scan from behind returns the start of the longest
  suffix of fields in the reference state, and the state below it;
- `scanAllocationTable_least`: this start is the least index from which on all
  fields are in the reference state, and nothing else of the table counts.

All hold for every table contents and every alignment of the range.
-/

namespace WODrive.Nvm

open Crash Nor

/-! ## The HAL's results -/

/-- No flash operation reports an error (the power may still be lost). -/
def NoError (hal : List HalResult) : Prop := ∀ r ∈ hal, r = .ok ∨ r = .powerLoss

/-- The next `n` flash operations are performed. -/
def Survives (hal : List HalResult) (n : Nat) : Prop := ∀ r ∈ hal.take n, r = .ok

theorem NoError.drop {hal : List HalResult} (h : NoError hal) (n : Nat) :
    NoError (hal.drop n) := fun r hr => h r (List.mem_of_mem_drop hr)

theorem survives_nil (n : Nat) : Survives [] n := fun r hr => by simp at hr

theorem survives_zero (hal : List HalResult) : Survives hal 0 := fun r hr => by simp at hr

theorem survives_add {hal : List HalResult} {n k : Nat} :
    Survives hal (n + k) ↔ Survives hal n ∧ Survives (hal.drop n) k := by
  unfold Survives
  rw [List.take_add]
  constructor
  · intro h
    exact ⟨fun r hr => h r (List.mem_append_left _ hr),
      fun r hr => h r (List.mem_append_right _ hr)⟩
  · rintro ⟨h1, h2⟩ r hr
    rcases List.mem_append.mp hr with hr | hr
    · exact h1 r hr
    · exact h2 r hr

/-- The power is lost after `n` performed operations, before the next one. -/
def LostAt (hal : List HalResult) (n : Nat) : Prop :=
  Survives hal n ∧ hal[n]? = some .powerLoss

theorem lostAt_add {hal : List HalResult} {n k : Nat} :
    LostAt hal (n + k) ↔ Survives hal n ∧ LostAt (hal.drop n) k := by
  unfold LostAt
  rw [survives_add, List.getElem?_drop, and_assoc]

/-- Of operations that report no error, all are performed or there is a first one that the
power is lost before. -/
theorem NoError.survives_or_lostAt {hal : List HalResult} (h : NoError hal) (n : Nat) :
    Survives hal n ∨ ∃ k < n, LostAt hal k := by
  induction n with
  | zero => exact Or.inl (survives_zero hal)
  | succ n ih =>
    rcases ih with hs | ⟨k, hk, hlost⟩
    · cases hn : hal[n]? with
      | none =>
        left
        have hlen : hal.length ≤ n := List.getElem?_eq_none_iff.mp hn
        rw [survives_add, List.drop_eq_nil_of_le hlen]
        exact ⟨hs, survives_nil 1⟩
      | some r =>
        rcases h r (List.mem_of_getElem? hn) with rfl | rfl
        · left
          rw [survives_add]
          refine ⟨hs, fun r hr => ?_⟩
          rw [List.take_one, List.head?_drop, hn] at hr
          simpa using hr
        · exact Or.inr ⟨n, Nat.lt_succ_self n, hs, hn⟩
    · exact Or.inr ⟨k, Nat.lt_succ_of_lt hk, hlost⟩

/-- What is lost before an operation does not survive it. -/
theorem LostAt.not_survives {hal : List HalResult} {k n : Nat} (h : LostAt hal k)
    (hk : k < n) : ¬ Survives hal n := by
  intro hs
  have hmem : HalResult.powerLoss ∈ hal.take n := by
    refine List.mem_of_getElem? (i := k) ?_
    rw [List.getElem?_take_of_lt hk]
    exact h.2
  cases hs _ hmem

/-- The state after `n` flash operations that left the given flash. -/
def NvmState.after (s : NvmState) (flash : Mem) (n : Nat) : NvmState :=
  { s with flash := flash, hal := s.hal.drop n }

section After

variable (s : NvmState) (flash flash' : Mem) (n k : Nat)

@[simp] theorem after_index : (s.after flash n).index = s.index := rfl
@[simp] theorem after_readSector : (s.after flash n).readSector = s.readSector := rfl
@[simp] theorem after_nStagingArea : (s.after flash n).nStagingArea = s.nStagingArea := rfl
@[simp] theorem after_nValid : (s.after flash n).nValid = s.nValid := rfl
@[simp] theorem after_flash : (s.after flash n).flash = flash := rfl
@[simp] theorem after_hal : (s.after flash n).hal = s.hal.drop n := rfl

@[simp] theorem after_after : (s.after flash n).after flash' k = s.after flash' (n + k) := by
  simp [NvmState.after, List.drop_drop]

theorem after_zero : s.after s.flash 0 = s := rfl

end After

section OrFail

variable {x : NvmM HalStatus} {rest : NvmM Int} {s s₁ : NvmState}

theorem orFail_of_ok (h : x s = .ok .ok s₁) : orFail x rest s = rest s₁ :=
  bind_of_ok h _

theorem orFail_of_failed {code : Int} (h : x s = .ok (.failed code) s₁) :
    orFail x rest s = .ok code s₁ :=
  bind_of_ok h _

theorem orFail_of_powerLoss {d : Mem} (h : x s = .powerLoss d) :
    orFail x rest s = .powerLoss d :=
  bind_of_powerLoss h _

theorem sat_orFail {Q : Int → NvmState → Prop} {C : Mem → Prop} :
    (orFail x rest s).Sat Q C ↔
      (x s).Sat (fun status s' => (status = .ok → (rest s').Sat Q C) ∧
        ∀ code, status = .failed code → Q code s') C := by
  cases h : x s with
  | powerLoss d => rw [orFail_of_powerLoss h]; exact Iff.rfl
  | ok status s' =>
    cases status with
    | ok =>
      rw [orFail_of_ok h]
      exact ⟨fun hrest => ⟨fun _ => hrest, fun _ heq => by cases heq⟩, fun hrest => hrest.1 rfl⟩
    | failed code =>
      rw [orFail_of_failed h]
      refine ⟨fun hcode => ⟨fun heq => (by cases heq), fun _ heq => ?_⟩, fun hcode => hcode.2 _ rfl⟩
      cases heq
      exact hcode

end OrFail

/-- A flash program operation that is performed. -/
theorem halFlashProgram_ok {s : NvmState} (h : Survives s.hal 1) (addr : Nat)
    (bytes : List (BitVec 8)) :
    halFlashProgram addr bytes s = .ok .ok (s.after (program s.flash addr bytes) 1) := by
  unfold halFlashProgram
  cases hh : s.hal with
  | nil => simp [NvmState.after, hh]
  | cons r hal =>
    have hr : r = .ok := h r (by simp [hh])
    subst hr
    simp [NvmState.after, hh]

/-- A flash program operation that the power is lost before. -/
theorem halFlashProgram_lost {s : NvmState} (h : LostAt s.hal 0) (addr : Nat)
    (bytes : List (BitVec 8)) : halFlashProgram addr bytes s = .powerLoss s.flash := by
  unfold halFlashProgram
  cases hh : s.hal with
  | nil =>
    have hlost := h.2
    simp [hh] at hlost
  | cons r hal =>
    have hlost := h.2
    simp only [hh, List.getElem?_cons_zero, Option.some.injEq] at hlost
    subst hlost
    rfl

/-- One flash program operation, with no error reported. -/
theorem halFlashProgram_sat {s : NvmState} (hne : NoError s.hal) (addr : Nat)
    (bytes : List (BitVec 8)) :
    (halFlashProgram addr bytes s).Sat
      (fun status s' => status = .ok ∧ Survives s.hal 1 ∧
        s' = s.after (program s.flash addr bytes) 1)
      (fun d => ¬ Survives s.hal 1 ∧ d = s.flash) := by
  rcases hne.survives_or_lostAt 1 with hs | ⟨n, hn, hlost⟩
  · rw [halFlashProgram_ok hs]
    exact ⟨rfl, hs, rfl⟩
  · have hn0 : n = 0 := by omega
    subst hn0
    rw [halFlashProgram_lost hlost]
    exact ⟨hlost.not_survives hn, rfl⟩

/-- One sector erase, with no error reported. -/
theorem halFlashErase_sat {s : NvmState} (hne : NoError s.hal) (sector : Fin 2) :
    (halFlashErase sector s).Sat
      (fun status s' => status = .ok ∧ Survives s.hal 1 ∧
        s' = s.after (erase s.flash (base sector) sectorSize) 1)
      (fun d => ¬ Survives s.hal 1 ∧ d = s.flash) := by
  unfold halFlashErase
  cases hh : s.hal with
  | nil => exact ⟨rfl, survives_nil 1, by simp [NvmState.after, hh]⟩
  | cons r hal =>
    rcases hne r (by rw [hh]; exact List.mem_cons_self) with rfl | rfl
    · refine ⟨rfl, fun r hr => ?_, by simp [NvmState.after, hh]⟩
      simpa using hr
    · refine ⟨fun h => ?_, rfl⟩
      exact absurd (h .powerLoss (by simp)) (by simp)

theorem eraseSector_sat {s : NvmState} (hne : NoError s.hal) (sector : Fin 2) :
    (eraseSector sector s).Sat
      (fun r s' => r = 0 ∧ Survives s.hal 1 ∧
        s' = { s.after (erase s.flash (base sector) sectorSize) 1 with
          index := Function.update s.index sector nReserved })
      (fun d => ¬ Survives s.hal 1 ∧ d = s.flash) := by
  unfold eraseSector
  rw [sat_orFail]
  refine (halFlashErase_sat hne sector).mono ?_ fun d h => h
  rintro status s' ⟨rfl, hs, rfl⟩
  exact ⟨fun _ => by simp [hs], fun _ heq => by cases heq⟩

/-! ## Marking a range of fields -/

/-- `m'` is `m` with `state` ANDed into the cells `[lo, hi)` of the table. -/
structure Marked (m m' : Mem) (table lo hi : Nat) (state : FieldState) : Prop where
  cell : ∀ i, cell m' table i =
    if lo ≤ i ∧ i < hi then cell m table i &&& state else cell m table i
  below : ∀ a, a < table → m' a = m a

namespace Marked

variable {m m' m'' : Mem} {table lo mid hi : Nat} {state : FieldState}

theorem refl (m : Mem) (table lo : Nat) (state : FieldState) :
    Marked m m table lo lo state :=
  ⟨fun i => by rw [if_neg (by omega)], fun _ _ => rfl⟩

theorem trans (h : Marked m m' table lo mid state) (h' : Marked m' m'' table mid hi state)
    (hlo : lo ≤ mid) (hhi : mid ≤ hi) : Marked m m'' table lo hi state := by
  refine ⟨fun i => ?_, fun a ha => (h'.below a ha).trans (h.below a ha)⟩
  rw [h'.cell, h.cell]
  by_cases h1 : lo ≤ i ∧ i < mid
  · rw [if_neg (by omega), if_pos h1, if_pos (by omega)]
  · rw [if_neg h1]
    by_cases h2 : mid ≤ i ∧ i < hi
    · rw [if_pos h2, if_pos (by omega)]
    · rw [if_neg h2, if_neg (by omega)]

theorem cell_inside (h : Marked m m' table lo hi state) {i : Nat} (h1 : lo ≤ i)
    (h2 : i < hi) : Nor.cell m' table i = Nor.cell m table i &&& state := by
  rw [h.cell, if_pos ⟨h1, h2⟩]

theorem cell_outside (h : Marked m m' table lo hi state) {i : Nat}
    (hi' : i < lo ∨ hi ≤ i) : Nor.cell m' table i = Nor.cell m table i := by
  rw [h.cell, if_neg (by omega)]

/-- The field below an index is unchanged, if the range starts there or above. -/
theorem cell_below (h : Marked m m' table lo hi state) {i : Nat} (hi' : nReserved ≤ i)
    (hlo : i ≤ lo) : Nor.cell m' table (i - 1) = Nor.cell m table (i - 1) := by
  have hres : nReserved = 512 := rfl
  exact h.cell_outside (by omega)

/-- Bytes that hold no cell of the range are unchanged. -/
theorem outside (h : Marked m m' table lo hi state) {a : Nat}
    (ha : a < table ∨ table + (hi + 3) / 4 ≤ a) : m' a = m a := by
  rcases Nat.lt_or_ge a table with hlt | hge
  · exact h.below a hlt
  · obtain ⟨q, rfl⟩ := Nat.exists_eq_add_of_le hge
    refine byte_eq_of_cells fun i hq => h.cell_outside (Or.inr ?_)
    omega

/-- Nothing is changed on an empty range. -/
theorem eq_self (h : Marked m m' table lo lo state) : m' = m := by
  funext a
  rcases Nat.lt_or_ge a table with ha | ha
  · exact h.below a ha
  · obtain ⟨q, rfl⟩ := Nat.exists_eq_add_of_le ha
    exact byte_eq_of_cells fun i _ => h.cell_outside (Nat.lt_or_ge i lo)

end Marked

/-! ### Lanes of the programmed bytes -/

theorem and_three (n : Nat) : n &&& 3 = n % 4 := Nat.and_two_pow_sub_one_eq_mod n 2

theorem startMask_mod (index : Nat) : startMask index = startMask (index % 4) := by
  rw [startMask, startMask, and_three, and_three, Nat.mod_mod]

/-- The lanes of a byte programmed behind the start mask. -/
theorem lane_start : ∀ (state : FieldState) (lo j : Fin 4),
    lane (expandState state ||| startMask lo) j =
      if lo.val ≤ j.val ∧ j.val < 4 then state else 3 := by
  decide

/-- The lanes of the last byte, programmed behind both masks. -/
theorem lane_last : ∀ (state : FieldState) (lo c j : Fin 4), c ≠ 0 →
    lane (expandState state ||| (startMask lo ||| endMask c)) j =
      if lo.val ≤ j.val ∧ j.val < c.val then state else 3 := by
  decide

theorem and_three_cell (c : FieldState) : c &&& 3 = c := BitVec.and_allOnes

/-- Programming one table byte whose lanes hold the state on `[lo, c)` and are
masked out elsewhere. -/
theorem marked_program (m : Mem) (table q lo c : Nat) (hc : c ≤ 4) (v : BitVec 8)
    (state : FieldState)
    (hv : ∀ j < 4, lane v j = if lo ≤ j ∧ j < c then state else 3) :
    Marked m (program m (table + q) [v]) table (4 * q + lo) (4 * q + c) state := by
  refine ⟨fun i => ?_, fun a ha => program_outside (Or.inl (by omega))⟩
  rw [cell_program_byte]
  by_cases hq : i / 4 = q
  · rw [if_pos hq, hv _ (Nat.mod_lt _ (by decide))]
    by_cases hj : lo ≤ i % 4 ∧ i % 4 < c
    · rw [if_pos hj, if_pos (by omega)]
    · rw [if_neg hj, if_neg (by omega), and_three_cell]
  · rw [if_neg hq, if_neg (by omega)]

/-- The loops end with at most one byte that is not programmed whole. -/
theorem programStates_of_lt {sector : Fin 2} {states mask : BitVec 8} {index count : Nat}
    (h : count < 4) : programStates sector states mask index count =
      if count ≠ 0 then
        orFail (halFlashProgram (base sector + index >>> 2) [states ||| (mask ||| endMask count)])
          (return 0)
      else return 0 := by
  match count, h with
  | 0, _ => rfl
  | 1, _ => rfl
  | 2, _ => rfl
  | 3, _ => rfl

/-- Where the fields of `[lo, hi)` that the first `n` program operations cover end: the
range is programmed a byte at a time, from the byte of `lo` on. -/
def programmedTo (lo hi n : Nat) : Nat := max lo (min hi (4 * (lo / 4 + n)))

section

variable (lo hi : Nat)

theorem programmedTo_mono {n k : Nat} (h : n ≤ k) :
    programmedTo lo hi n ≤ programmedTo lo hi k := by
  unfold programmedTo
  omega

theorem programmedTo_zero : programmedTo lo hi 0 = lo := by
  unfold programmedTo
  omega

theorem le_programmedTo (n : Nat) : lo ≤ programmedTo lo hi n := Nat.le_max_left _ _

theorem programmedTo_le {lo hi : Nat} (h : lo ≤ hi) (n : Nat) : programmedTo lo hi n ≤ hi :=
  Nat.max_le.mpr ⟨h, Nat.min_le_left _ _⟩

/-- From the second byte on, the operations are those of the rest of the range. -/
theorem programmedTo_succ {q lo hi : Nat} (hlo : lo < 4) (hhi : 4 * q + 4 ≤ hi) (n : Nat) :
    programmedTo (4 * q + lo) hi (n + 1) = programmedTo (4 * q + 4) hi n := by
  unfold programmedTo
  omega

end

/-- `x` ANDs the state into the fields `[lo, hi)` in `ops` program operations, in the order
of increasing index: the power being lost before one of them leaves those before it done. -/
structure MarksInOrder (sector : Fin 2) (state : FieldState) (lo hi ops : Nat) (x : NvmM Int)
    (s : NvmState) : Prop where
  complete : Survives s.hal ops →
    ∃ m, Marked s.flash m (base sector) lo hi state ∧ x s = .ok 0 (s.after m ops)
  interrupted : ∀ n < ops, LostAt s.hal n →
    ∃ d, Marked s.flash d (base sector) lo (programmedTo lo hi n) state ∧ x s = .powerLoss d

section MarksInOrder

variable {sector : Fin 2} {state : FieldState} {s : NvmState} {addr : Nat}
  {bytes : List (BitVec 8)}

/-- A range programmed by one operation. -/
theorem marksInOrder_program {lo hi : Nat}
    (hmark : Marked s.flash (program s.flash addr bytes) (base sector) lo hi state) :
    MarksInOrder sector state lo hi 1 (orFail (halFlashProgram addr bytes) (return 0)) s := by
  refine ⟨fun hs => ⟨_, hmark, orFail_of_ok (halFlashProgram_ok hs _ _)⟩, fun n hn hlost => ?_⟩
  have hn0 : n = 0 := by omega
  subst hn0
  rw [programmedTo_zero]
  exact ⟨_, Marked.refl _ _ _ _, orFail_of_powerLoss (halFlashProgram_lost hlost _ _)⟩

/-- A range that reaches past its first byte. -/
theorem marksInOrder_cons {q lo hi ops : Nat} {rest : NvmM Int} (hlo : lo < 4)
    (hhi : 4 * q + 4 ≤ hi)
    (hmark : Marked s.flash (program s.flash addr bytes) (base sector) (4 * q + lo) (4 * q + 4)
      state)
    (hrest : MarksInOrder sector state (4 * q + 4) hi ops rest
      (s.after (program s.flash addr bytes) 1)) :
    MarksInOrder sector state (4 * q + lo) hi (1 + ops)
      (orFail (halFlashProgram addr bytes) rest) s := by
  have hfirst : Survives s.hal 1 → orFail (halFlashProgram addr bytes) rest s =
      rest (s.after (program s.flash addr bytes) 1) := by
    intro hs
    exact orFail_of_ok (halFlashProgram_ok hs _ _)
  constructor
  · intro hs
    obtain ⟨hs1, hs2⟩ := survives_add.mp hs
    obtain ⟨m, hm, heq⟩ := hrest.complete hs2
    refine ⟨m, hmark.trans hm (by omega) hhi, ?_⟩
    rw [hfirst hs1, heq, after_after]
  · intro n hn hlost
    cases n with
    | zero =>
      rw [programmedTo_zero]
      exact ⟨s.flash, Marked.refl _ _ _ _, orFail_of_powerLoss (halFlashProgram_lost hlost _ _)⟩
    | succ n =>
      rw [Nat.add_comm n 1, lostAt_add] at hlost
      obtain ⟨d, hd, heq⟩ := hrest.interrupted n (by omega) hlost.2
      rw [programmedTo_succ hlo hhi]
      exact ⟨d, hmark.trans hd (by omega) (le_programmedTo _ _ _), (hfirst hlost.1).trans heq⟩

end MarksInOrder

/-- The loops of `set_allocation_state` from an aligned index on, behind a start mask for
the lanes below `lo`. -/
theorem programStates_marksInOrder (sector : Fin 2) (state : FieldState) (count q lo : Nat)
    (s : NvmState) (hlo : lo < 4) (hle : lo ≤ count) :
    MarksInOrder sector state (4 * q + lo) (4 * q + count) ((count + 3) / 4)
      (programStates sector (expandState state) (startMask lo) (4 * q) count) s := by
  have hq : (4 * q) >>> 2 = q := by
    rw [Nat.shiftRight_eq_div_pow]
    omega
  induction count using Nat.strong_induction_on generalizing q lo s with
  | _ count ih =>
  by_cases hc : count < 4
  · rw [programStates_of_lt hc, hq]
    by_cases hc0 : count ≠ 0
    · -- the last byte, behind both masks
      rw [if_pos hc0, show (count + 3) / 4 = 1 from by omega]
      exact marksInOrder_program (marked_program s.flash (base sector) q lo count (by omega)
        (expandState state ||| (startMask lo ||| endMask count)) state
        fun j hj => lane_last state ⟨lo, hlo⟩ ⟨count, hc⟩ ⟨j, hj⟩
          fun h => hc0 (congrArg Fin.val h))
    · have hcount : count = 0 := not_not.mp hc0
      subst hcount
      have hlo0 : lo = 0 := Nat.le_zero.mp hle
      subst hlo0
      exact ⟨fun _ => ⟨s.flash, Marked.refl _ _ _ _, rfl⟩, fun n hn => absurd hn (by omega)⟩
  · -- a whole byte is programmed; the rest is behind an empty mask
    obtain ⟨rest, rfl⟩ := Nat.exists_eq_add_of_le' (Nat.not_lt.mp hc)
    have hmark := marked_program s.flash (base sector) q lo 4 (Nat.le_refl 4)
      (expandState state ||| startMask lo) state
      fun j hj => lane_start state ⟨lo, hlo⟩ ⟨j, hj⟩
    have hrest := ih rest (by omega) (q + 1) 0
      (s.after (program s.flash (base sector + q) [expandState state ||| startMask lo]) 1)
      (by decide) (Nat.zero_le _) (by rw [Nat.shiftRight_eq_div_pow]; omega)
    rw [show startMask 0 = 0 from rfl, Nat.mul_add, Nat.mul_one, Nat.add_zero,
      show 4 * q + 4 + rest = 4 * q + (rest + 4) from by omega] at hrest
    rw [programStates, hq, show (rest + 4 + 3) / 4 = 1 + (rest + 3) / 4 from by omega]
    exact marksInOrder_cons hlo (by omega) hmark hrest

/-- The number of table bytes `set_allocation_state` programs. -/
def tableBytes (index count : Nat) : Nat := (index % 4 + count + 3) / 4

theorem programmedTo_tableBytes (index count : Nat) :
    programmedTo index (index + count) (tableBytes index count) = index + count := by
  unfold programmedTo tableBytes
  omega

/-- The last operation is needed. -/
theorem programmedTo_lt {index count n : Nat} (hn : n < tableBytes index count)
    (hcount : 0 < count) : programmedTo index (index + count) n < index + count := by
  unfold tableBytes at hn
  unfold programmedTo
  omega

/-- `set_allocation_state`, behind its bounds check. -/
theorem setAllocationState_marksInOrder (s : NvmState) (sector : Fin 2) {index count : Nat}
    (state : FieldState) (hreserved : ¬ index < nReserved)
    (hdata : ¬ u32 (index + count) ≥ nData) :
    MarksInOrder sector state index (index + count) (tableBytes index count)
      (setAllocationState sector index count state) s := by
  have hle : index % 4 ≤ index := Nat.mod_le _ _
  have hdiv : index - index % 4 = 4 * (index / 4) := by omega
  have hprog := programStates_marksInOrder sector state (count + index % 4) (index / 4)
    (index % 4) s (Nat.mod_lt _ (by decide)) (Nat.le_add_left _ _)
  rw [Nat.div_add_mod index 4,
    show 4 * (index / 4) + (count + index % 4) = index + count from by omega,
    show (count + index % 4 + 3) / 4 = tableBytes index count from by
      unfold tableBytes; omega] at hprog
  unfold setAllocationState
  rw [if_neg hreserved, if_neg hdata, startMask_mod, and_three, hdiv]
  exact hprog

/-- **Effect of `set_allocation_state`.** It fails, doing nothing, exactly when its
bounds check does; else it ANDs the state into the fields `[index, index + count)`,
and a power loss leaves a prefix of them done. -/
theorem setAllocationState_sat {s : NvmState} (hne : NoError s.hal) (sector : Fin 2)
    (index count : Nat) (state : FieldState) :
    (setAllocationState sector index count state s).Sat
      (fun r s' =>
        if index < nReserved ∨ u32 (index + count) ≥ nData then r = -1 ∧ s' = s
        else r = 0 ∧ Survives s.hal (tableBytes index count) ∧
          ∃ m, Marked s.flash m (base sector) index (index + count) state ∧
            s' = s.after m (tableBytes index count))
      (fun d => nReserved ≤ index ∧ u32 (index + count) < nData ∧
        ¬ Survives s.hal (tableBytes index count) ∧
        ∃ p, index ≤ p ∧ p ≤ index + count ∧ (0 < count → p < index + count) ∧
          Marked s.flash d (base sector) index p state) := by
  by_cases h1 : index < nReserved
  · unfold setAllocationState
    rw [if_pos h1, sat_pure, if_pos (Or.inl h1)]
    exact ⟨rfl, rfl⟩
  by_cases h2 : u32 (index + count) ≥ nData
  · unfold setAllocationState
    rw [if_neg h1, if_pos h2, sat_pure, if_pos (Or.inr h2)]
    exact ⟨rfl, rfl⟩
  have hmarks := setAllocationState_marksInOrder s sector state h1 h2
  rcases hne.survives_or_lostAt (tableBytes index count) with hs | ⟨n, hn, hlost⟩
  · obtain ⟨m, hm, heq⟩ := hmarks.complete hs
    rw [heq]
    refine (if_neg (not_or.mpr ⟨h1, h2⟩)).mpr ?_
    exact ⟨rfl, hs, m, hm, rfl⟩
  · obtain ⟨d, hd, heq⟩ := hmarks.interrupted n hn hlost
    rw [heq]
    exact ⟨Nat.not_lt.mp h1, Nat.not_le.mp h2, hlost.not_survives hn, _,
      le_programmedTo _ _ _, programmedTo_le (Nat.le_add_right _ _) _,
      programmedTo_lt hn, hd⟩

/-- **Exactness of `set_allocation_state`.** The state is ANDed into exactly the fields
`[index, index + count)`, whatever the table holds; the power being lost before any of the
operations leaves exactly the fields below `programmedTo` done, which moves up through the
range from its start to its end. -/
theorem setAllocationState_exact (s : NvmState) (sector : Fin 2) {index count : Nat}
    (state : FieldState) (hreserved : nReserved ≤ index) (hdata : index + count < nData) :
    MarksInOrder sector state index (index + count) (tableBytes index count)
        (setAllocationState sector index count state) s ∧
      programmedTo index (index + count) 0 = index ∧
      (∀ n k, n ≤ k →
        programmedTo index (index + count) n ≤ programmedTo index (index + count) k) ∧
      programmedTo index (index + count) (tableBytes index count) = index + count := by
  have hu32 : ¬ u32 (index + count) ≥ nData :=
    Nat.not_le.mpr (Nat.lt_of_le_of_lt (Nat.mod_le _ _) hdata)
  exact ⟨setAllocationState_marksInOrder s sector state (Nat.not_lt.mpr hreserved) hu32,
    programmedTo_zero _ _, fun n k h => programmedTo_mono _ _ h, programmedTo_tableBytes _ _⟩

/-- Six fields from the second lane of a byte on, in an erased sector, with the power lost
before the second of the two operations. -/
theorem setAllocationState_exact_erased :
    MarksInOrder 0 INVALID 513 (513 + 6) (tableBytes 513 6)
        (setAllocationState 0 513 6 INVALID)
        ⟨fun _ => nReserved, 1, 0, 0, fun _ => 0xff, [.ok, .powerLoss]⟩ ∧
      programmedTo 513 (513 + 6) 0 = 513 ∧
      (∀ n k, n ≤ k → programmedTo 513 (513 + 6) n ≤ programmedTo 513 (513 + 6) k) ∧
      programmedTo 513 (513 + 6) (tableBytes 513 6) = 513 + 6 :=
  setAllocationState_exact _ 0 INVALID (by simp [nReserved]) (by simp [nData])

/-! ## Scanning from behind -/

theorem lane_three (b : BitVec 8) : (b >>> 6).setWidth 2 = lane b 3 := by
  refine BitVec.eq_of_getLsbD_eq fun i hi => ?_
  simp only [lane, BitVec.getLsbD_setWidth, BitVec.getLsbD_ushiftRight,
    BitVec.getLsbD_extractLsb', hi]

theorem lane_shiftLeft (b : BitVec 8) (j : Nat) (hj : j < 3) :
    lane (b <<< 2) (j + 1) = lane b j := by
  refine BitVec.eq_of_getLsbD_eq fun i hi => ?_
  simp only [lane, BitVec.getLsbD_extractLsb', BitVec.getLsbD_shiftLeft, hi]
  have h1 : 2 * (j + 1) + i < 8 := by omega
  have h2 : ¬ 2 * (j + 1) + i < 2 := by omega
  rw [show 2 * (j + 1) + i - 2 = 2 * j + i from by omega]
  simp [h1, h2]

/-- The loop test `(states >> 6) == (ref_states & 0x3)`. -/
theorem topState_eq_iff (b : BitVec 8) (ref : FieldState) :
    b >>> 6 = (expandState ref &&& 3) ↔ lane b 3 = ref := by
  have href : ∀ ref : FieldState, expandState ref &&& 3 = ref.setWidth 8 := by decide
  have hb : b >>> 6 = (lane b 3).setWidth 8 := by
    refine BitVec.eq_of_getLsbD_eq fun i hi => ?_
    simp only [lane, BitVec.getLsbD_setWidth, BitVec.getLsbD_ushiftRight,
      BitVec.getLsbD_extractLsb', hi, decide_true, Bool.true_and]
    by_cases h2 : i < 2
    · simp [h2]
    · simp only [h2, decide_false, Bool.false_and]
      exact BitVec.getLsbD_of_ge b (6 + i) (by omega)
  rw [href, hb]
  constructor
  · intro h
    have := congrArg (BitVec.setWidth 2) h
    simpa using this
  · intro h
    rw [h]

theorem lane_expandState : ∀ (state : FieldState) (j : Fin 4),
    lane (expandState state) j = state := by
  decide

theorem lane_ignoreMask : ∀ ignore j : Fin 4,
    lane (~~~(0xff#8 >>> (ignore.val <<< 1))) j =
      (if j.val + ignore.val < 4 then 0 else 3) ∧
    lane (~~~ ~~~(0xff#8 >>> (ignore.val <<< 1))) j =
      (if j.val + ignore.val < 4 then 3 else 0) := by
  decide

/-- A byte read by the first loop, with its upper `ignore` states replaced. -/
theorem lane_masked (b : BitVec 8) (ref : FieldState) {ignore j : Nat} (hi : ignore < 4)
    (hj : j < 4) :
    lane ((b &&& ~~~ ~~~(0xff#8 >>> (ignore <<< 1))) |||
        (expandState ref &&& ~~~(0xff#8 >>> (ignore <<< 1)))) j =
      if j + ignore < 4 then lane b j else ref := by
  obtain ⟨h1, h2⟩ := lane_ignoreMask ⟨ignore, hi⟩ ⟨j, hj⟩
  have hl := lane_expandState ref ⟨j, hj⟩
  simp only at h1 h2 hl
  have hor : ∀ x y : BitVec 8, lane (x ||| y) j = lane x j ||| lane y j :=
    fun x y => BitVec.extractLsb'_or
  rw [hor, lane_and, lane_and, h1, h2, hl]
  by_cases h : j + ignore < 4
  · rw [if_pos h, if_pos h, if_pos h, and_three_cell]
    exact (congrArg _ BitVec.and_zero).trans BitVec.or_zero
  · rw [if_neg h, if_neg h, if_neg h, and_three_cell]
    exact (congrArg (· ||| ref) BitVec.and_zero).trans BitVec.zero_or

/-- The fields as the scan sees them: those from `maxIndex` on count as `ref`. -/
def seen (flash : Mem) (table maxIndex : Nat) (ref : FieldState) (i : Nat) : FieldState :=
  if i < maxIndex then cell flash table i else ref

/-- The second loop stops just above the last field of the byte that differs. -/
theorem scanStates_spec (ref : FieldState) (c : Nat → FieldState) {lo : Nat}
    (hlo : nReserved ≤ lo) : ∀ (index : Nat) (states : BitVec 8), index ≤ lo + 4 →
      (∀ i, lo ≤ i → i < index → lane states (3 - (index - 1 - i)) = c i) →
      (∃ i, lo ≤ i ∧ i < index ∧ c i ≠ ref) →
      ∃ k states', scanStates (expandState ref) index states = (k + 1, states') ∧
        lo ≤ k ∧ k < index ∧ (∀ i, k < i → i < index → c i = ref) ∧ c k ≠ ref ∧
        lane states' 3 = c k
  | 0, states, _, _, ⟨i, _, hi, _⟩ => absurd hi (Nat.not_lt_zero i)
  | index + 1, states, hidx, hlanes, ⟨i, hi1, hi2, hne⟩ => by
    have htop : lane states 3 = c index := by
      have := hlanes index (by omega) (by omega)
      rwa [show 3 - (index + 1 - 1 - index) = 3 from by omega] at this
    rw [scanStates]
    by_cases hc : c index = ref
    · rw [if_pos ⟨(topState_eq_iff states ref).mpr (htop.trans hc), by omega⟩]
      have hi3 : i < index := by
        rcases Nat.lt_succ_iff_lt_or_eq.mp hi2 with h | rfl
        · exact h
        · exact absurd hc hne
      obtain ⟨k, states', heq, hk1, hk2, hk3, hk4, hk5⟩ :=
        scanStates_spec ref c hlo index (states <<< 2) (by omega)
          (fun i' h1 h2 => by
            rw [show 3 - (index - 1 - i') = 2 - (index - 1 - i') + 1 from by omega,
              lane_shiftLeft _ _ (by omega),
              show 2 - (index - 1 - i') = 3 - (index + 1 - 1 - i') from by omega]
            exact hlanes i' h1 (by omega))
          ⟨i, hi1, hi3, hne⟩
      refine ⟨k, states', heq, hk1, by omega, fun i' h1 h2 => ?_, hk4, hk5⟩
      rcases Nat.lt_succ_iff_lt_or_eq.mp h2 with h | rfl
      · exact hk3 i' h1 h
      · exact hc
    · rw [if_neg fun h => hc (htop.symm.trans ((topState_eq_iff states ref).mp h.1))]
      exact ⟨index, states, rfl, by omega, Nat.lt_succ_self _, fun i' h1 h2 => by omega,
        hc, htop⟩

/-- The byte as the first loop compares it. -/
theorem lane_read (flash : Mem) (table q : Nat) (ref : FieldState) {ignore : Nat}
    (hig : ignore < 4) : ∃ read, (if ignore ≠ 0 then
        (flash (table + q) &&& ~~~ ~~~(0xff#8 >>> (ignore <<< 1))) |||
          (expandState ref &&& ~~~(0xff#8 >>> (ignore <<< 1)))
      else flash (table + q)) = read ∧
      ∀ j < 4, lane read j = seen flash table (4 * q + 4 - ignore) ref (4 * q + j) := by
  refine ⟨_, rfl, fun j hj => ?_⟩
  have hcell : cell flash table (4 * q + j) = lane (flash (table + q)) j := by
    rw [cell, show (4 * q + j) / 4 = q from by omega, show (4 * q + j) % 4 = j from by omega]
  unfold seen
  rw [hcell]
  by_cases h0 : ignore ≠ 0
  · rw [if_pos h0, lane_masked _ _ hig hj]
    by_cases hji : j + ignore < 4
    · rw [if_pos hji, if_pos (by omega)]
    · rw [if_neg hji, if_neg (by omega)]
  · rw [if_neg h0, if_pos (by omega)]

/-- The first loop, over fields with the states `c`, stops at `k`: all fields from there on
are in the reference state, and `k` is the start of the table, or the byte below it is
`states` and has a field that differs. -/
structure BytesScanned (c : Nat → FieldState) (ref : FieldState) (top k : Nat)
    (states : BitVec 8) : Prop where
  lo_le : nReserved ≤ k
  le_top : k ≤ top
  above : ∀ i, k ≤ i → i < top → c i = ref
  stop : (k = nReserved ∧ states = expandState ref) ∨
    (nReserved + 4 ≤ k ∧ (∀ j < 4, lane states j = c (k - 4 + j)) ∧ ∃ j < 4, c (k - 4 + j) ≠ ref)

namespace BytesScanned

variable {c c' : Nat → FieldState} {ref : FieldState} {top k : Nat} {states : BitVec 8}

/-- Only the fields below the top matter. -/
theorem congr (h : BytesScanned c ref top k states) (hc : ∀ i < top, c' i = c i) :
    BytesScanned c' ref top k states := by
  have htop := h.le_top
  refine ⟨h.lo_le, htop, fun i h1 h2 => (hc i h2).trans (h.above i h1 h2), ?_⟩
  rcases h.stop with hstop | ⟨hk, hlanes, j, hj, hne⟩
  · exact Or.inl hstop
  · refine Or.inr ⟨hk, fun j hj => ?_, j, hj, ?_⟩
    · rw [hc _ (by omega)]
      exact hlanes j hj
    · rwa [hc _ (by omega)]

/-- A byte above that matches. -/
theorem of_match (h : BytesScanned c ref top k states)
    (hmatch : ∀ j < 4, c (top + j) = ref) : BytesScanned c ref (top + 4) k states := by
  refine ⟨h.lo_le, by have := h.le_top; omega, fun i h1 h2 => ?_, h.stop⟩
  by_cases hi : i < top
  · exact h.above i h1 hi
  · have := hmatch (i - top) (by omega)
    rwa [show top + (i - top) = i from by omega] at this

/-- The loop stops at the topmost byte. -/
theorem of_ne (hlo : nReserved ≤ top) (hlanes : ∀ j < 4, lane states j = c (top + j))
    (hne : states ≠ expandState ref) : BytesScanned c ref (top + 4) (top + 4) states := by
  refine ⟨by omega, Nat.le_refl _, fun i h1 h2 => absurd h2 (Nat.not_lt.mpr h1),
    Or.inr ⟨by omega, fun j hj => ?_, ?_⟩⟩
  · rw [Nat.add_sub_cancel]
    exact hlanes j hj
  · refine not_forall_not.mp fun hnone => hne (eq_of_lanes fun j hj => ?_)
    rw [hlanes j hj, lane_expandState ref ⟨j, hj⟩]
    refine not_not.mp fun h => hnone j ⟨hj, ?_⟩
    rwa [Nat.add_sub_cancel]

end BytesScanned

/-- The first loop. -/
theorem scanBytes_spec (flash : Mem) (table : Nat) (ref : FieldState) (q ignore : Nat)
    (hig : ignore < 4) (hle : nReserved + ignore ≤ 4 * q) :
    ∃ k states, scanBytes flash table (expandState ref) (4 * q) ignore (expandState ref) =
        (k, states) ∧
      BytesScanned (seen flash table (4 * q - ignore) ref) ref (4 * q) k states := by
  have hres : nReserved = 4 * 128 := rfl
  induction q generalizing ignore with
  | zero => omega
  | succ q ih =>
    rw [Nat.mul_add, Nat.mul_one, scanBytes]
    by_cases hq : 4 * q + 4 ≥ nReserved + 4
    · have haddr : (4 * q + 4 - 1) >>> 2 = q := by
        rw [Nat.shiftRight_eq_div_pow]
        omega
      obtain ⟨read, hread, hlanes⟩ := lane_read flash table q ref hig
      simp only [if_pos hq, haddr, hread]
      by_cases hr : read = expandState ref
      · -- the byte matches: the loop goes on below it, where nothing is masked out
        obtain ⟨k, states, heq, hscan⟩ := ih 0 (by decide) (by omega)
        rw [if_neg (not_not.mpr hr), hr]
        refine ⟨k, states, heq, (hscan.congr fun i hi => ?_).of_match fun j hj => ?_⟩
        · unfold seen
          rw [if_pos (by omega), if_pos (by omega)]
        · rw [← hlanes j hj, hr]
          exact lane_expandState ref ⟨j, hj⟩
      · rw [if_pos hr]
        exact ⟨_, read, rfl, BytesScanned.of_ne (by omega) hlanes hr⟩
    · rw [if_neg hq]
      exact ⟨_, _, rfl, by omega, Nat.le_refl _, fun i h1 h2 => by omega,
        Or.inl ⟨by omega, rfl⟩⟩

/-- The second loop, from where the first one has stopped. -/
theorem BytesScanned.scanStates {c : Nat → FieldState} {ref : FieldState} {top k : Nat}
    {states : BitVec 8} (h : BytesScanned c ref top k states) :
    ∃ k' states', Nvm.scanStates (expandState ref) k states = (k', states') ∧
      IsSuffixStart (fun i => c i = ref) nReserved top k' ∧
      lane states' 3 = if nReserved < k' then c (k' - 1) else ref := by
  have htop := h.le_top
  have hlo := h.lo_le
  rcases h.stop with ⟨rfl, rfl⟩ | ⟨hk, hlanes, j, hj, hne⟩
  · -- every field matches
    refine ⟨nReserved, expandState ref, ?_, ⟨Nat.le_refl _, htop, h.above, Or.inl rfl⟩, ?_⟩
    · rw [show nReserved = 511 + 1 from rfl, Nvm.scanStates,
        if_neg fun h => absurd h.2 (by decide)]
    · rw [if_neg (Nat.lt_irrefl _)]
      exact lane_expandState ref 3
  · obtain ⟨k', states', heq, h1, h2, h3, h4, h5⟩ :=
      scanStates_spec ref c (show nReserved ≤ k - 4 by omega) k states (by omega)
        (fun i hi1 hi2 => by
          have := hlanes (3 - (k - 1 - i)) (by omega)
          rwa [show k - 4 + (3 - (k - 1 - i)) = i from by omega] at this)
        ⟨k - 4 + j, by omega, by omega, hne⟩
    refine ⟨k' + 1, states', heq, ⟨by omega, by omega, fun i hi1 hi2 => ?_, Or.inr h4⟩, ?_⟩
    · by_cases hi3 : i < k
      · exact h3 i (by omega) hi3
      · exact h.above i (by omega) hi2
    · rw [if_pos (by omega), Nat.add_sub_cancel, h5]

theorem seen_of_lt {flash : Mem} {table maxIndex i : Nat} {ref : FieldState}
    (h : i < maxIndex) : seen flash table maxIndex ref i = cell flash table i := if_pos h

/-- Where the fields as they are seen are all in the reference state, so are the fields below
`maxIndex` themselves. -/
theorem suffixStart_of_seen {flash : Mem} {table maxIndex top k : Nat} {ref : FieldState}
    (h : IsSuffixStart (fun i => seen flash table maxIndex ref i = ref) nReserved top k)
    (hmax : nReserved ≤ maxIndex) (htop : maxIndex ≤ top) :
    IsSuffixStart (fun i => cell flash table i = ref) nReserved maxIndex k := by
  have hlo := h.lo_le
  have hle : k ≤ maxIndex := by
    rcases h.stop with h0 | h0
    · omega
    · refine Nat.le_of_not_lt fun hlt => h0 ?_
      rw [seen, if_neg (by omega)]
  refine ⟨hlo, hle, fun i h1 h2 => ?_, ?_⟩
  · exact (seen_of_lt h2).symm.trans (h.all i h1 (by omega))
  · by_cases hk : k = nReserved
    · exact Or.inl hk
    · rcases h.stop with h0 | h0
      · exact absurd h0 hk
      · rw [seen_of_lt (by omega)] at h0
        exact Or.inr h0

/-- **Result of `scan_allocation_table`**: the least index from `nReserved` up from
which on every field below `maxIndex` is in the reference state, and the state of
the field below it. -/
theorem scanAllocationTable_eq (flash : Mem) (sector : Fin 2) {maxIndex : Nat}
    (hmax : nReserved ≤ maxIndex) (ref : FieldState) :
    ∃ k, IsSuffixStart (fun i => cell flash (base sector) i = ref) nReserved maxIndex k ∧
      scanAllocationTable flash sector maxIndex ref =
        (k, if nReserved < k then cell flash (base sector) (k - 1) else ref) := by
  have hres : nReserved = 4 * 128 := rfl
  have hround : ((maxIndex + 3) >>> 2) <<< 2 = 4 * ((maxIndex + 3) / 4) := by
    rw [Nat.shiftRight_eq_div_pow, Nat.shiftLeft_eq]
    omega
  have hig : 4 * ((maxIndex + 3) / 4) - (4 * ((maxIndex + 3) / 4) - maxIndex) = maxIndex := by
    omega
  obtain ⟨k, states, hbytes, hscan⟩ :=
    scanBytes_spec flash (base sector) ref ((maxIndex + 3) / 4)
      (4 * ((maxIndex + 3) / 4) - maxIndex) (by omega) (by omega)
  rw [hig] at hscan
  obtain ⟨k', states', hstates, hstart, hlane⟩ := hscan.scanStates
  have hstart' := suffixStart_of_seen hstart hmax (by omega)
  refine ⟨k', hstart', ?_⟩
  unfold scanAllocationTable
  simp only [hround, hbytes, hstates, lane_three, hlane]
  by_cases hlt : nReserved < k'
  · have hle := hstart'.le_hi
    rw [if_pos hlt, if_pos hlt, seen_of_lt (by omega)]
  · rw [if_neg hlt, if_neg hlt]

/-! ### What the scan finds -/

/-- From the index on, all fields below `maxIndex` are in the reference state. -/
def AllFrom (flash : Mem) (sector : Fin 2) (maxIndex : Nat) (ref : FieldState)
    (k : Nat) : Prop :=
  ∀ i, k ≤ i → i < maxIndex → cell flash (base sector) i = ref

/-- The result depends on the fields from `nReserved` to `maxIndex` only. -/
theorem scanAllocationTable_congr {flash flash' : Mem} {sector : Fin 2} {maxIndex : Nat}
    (hmax : nReserved ≤ maxIndex) (ref : FieldState)
    (hsame : ∀ i, nReserved ≤ i → i < maxIndex →
      cell flash' (base sector) i = cell flash (base sector) i) :
    scanAllocationTable flash' sector maxIndex ref =
      scanAllocationTable flash sector maxIndex ref := by
  obtain ⟨k, hk, heq⟩ := scanAllocationTable_eq flash sector hmax ref
  obtain ⟨k', hk', heq'⟩ := scanAllocationTable_eq flash' sector hmax ref
  have hkk : k' = k := by
    refine hk'.unique (hk.congr fun i h1 h2 => ?_)
    rw [hsame i h1 h2]
  subst hkk
  rw [heq, heq']
  by_cases hlt : nReserved < k'
  · have hle := hk.le_hi
    rw [if_pos hlt, if_pos hlt, hsame (k' - 1) (by omega) (by omega)]
  · rw [if_neg hlt, if_neg hlt]

/-- What a scan of the table is to return: the index and the state reported. -/
structure IsScanResult (flash : Mem) (sector : Fin 2) (maxIndex : Nat) (ref : FieldState)
    (result : Nat × FieldState) : Prop where
  least : IsLeast {k | nReserved ≤ k ∧ AllFrom flash sector maxIndex ref k} result.1
  le_max : result.1 ≤ maxIndex
  state : result.2 = if nReserved < result.1 then cell flash (base sector) (result.1 - 1)
    else ref

/-- **The scan is correct**: for every contents of the table, every `maxIndex` up to the
size of the table and every reference state. -/
theorem scanAllocationTable_least (flash : Mem) (sector : Fin 2) {maxIndex : Nat}
    (hreserved : nReserved ≤ maxIndex) (_hdata : maxIndex ≤ nData) (ref : FieldState) :
    IsScanResult flash sector maxIndex ref (scanAllocationTable flash sector maxIndex ref) ∧
      ∀ flash' : Mem,
        (∀ i < maxIndex, cell flash' (base sector) i = cell flash (base sector) i) →
        scanAllocationTable flash' sector maxIndex ref =
          scanAllocationTable flash sector maxIndex ref := by
  constructor
  · obtain ⟨k, hk, heq⟩ := scanAllocationTable_eq flash sector hreserved ref
    rw [heq]
    refine ⟨⟨⟨hk.lo_le, hk.all⟩, ?_⟩, hk.le_hi, rfl⟩
    rintro k' ⟨hlo, hall⟩
    exact hk.le_of_all hlo hall
  · intro flash' hsame
    exact scanAllocationTable_congr hreserved ref fun i _ hi => hsame i hi

/-- A scan of the whole table of an erased sector. -/
theorem scanAllocationTable_least_erased :
    IsScanResult (fun _ => 0xff) 0 nData ERASED
        (scanAllocationTable (fun _ => 0xff) 0 nData ERASED) ∧
      ∀ flash' : Mem,
        (∀ i < nData, cell flash' (base 0) i = cell (fun _ => 0xff) (base 0) i) →
        scanAllocationTable flash' 0 nData ERASED =
          scanAllocationTable (fun _ => 0xff) 0 nData ERASED :=
  scanAllocationTable_least (fun _ => 0xff) 0 (by simp [nReserved, nData]) (Nat.le_refl _)
    ERASED

end WODrive.Nvm
