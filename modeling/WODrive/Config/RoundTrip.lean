import WODrive.Config.Model
import WODrive.Library.CrcBits
import WODrive.Nvm.Saves
import Mathlib.Data.List.SplitLengths

/-!
# What is stored is loaded again

The `image` of a list of objects is what `safe_store_config` is meant to put into the NVM:
their bytes, and the CRC over them with its high byte first. When it returns 0 on working
flash, the image is the start of the readable block (`safeStoreConfig_settled`). If no flash
operation fails with the error code 0, a call that returned 0 saw no failure at all
(`safeStoreConfig_faultless`), so nothing else needs to be known of the HAL.

`safe_load_config` accepts what it reads if and only if the CRC over all of it is 0
(`safeLoadConfig_eq`). The CRC over the image is 0, and over what a burst makes of the
image it is not: `config_roundTrip`. After a failure with the error code 0 the image may
not be there although `safe_store_config` returned 0: `config_not_roundTrip`.
-/

namespace WODrive.Config

open Crash Nvm Nor Crc

/-! ## Storing sees no flash error when it succeeds -/

section Checks

variable {α β : Type} {x : NvmM α} (status : α → Int) {bad : β} {rest : α → NvmM β}
  {okB : β → Prop}

/-- Code that gives up with `bad` when a call fails. -/
theorem faultless_giveUp (hx : Faultless (fun a => status a = 0) x) (hbad : ¬ okB bad)
    (hrest : ∀ a, status a = 0 → Faultless okB (rest a)) : Faultless okB (do
      let a ← x
      if status a ≠ 0 then return bad else rest a) := by
  refine faultless_bind hx (fun a ha => ?_) fun a ha s b s' heq => ?_
  · rw [if_neg (fun h => h ha)]
    exact hrest a ha
  · rw [if_pos ha] at heq
    cases heq
    exact hbad

theorem giveUp_eq_ok {s s' : NvmState} {b : β} (hbad : b ≠ bad) : (do
      let a ← x
      if status a ≠ 0 then return bad else rest a : NvmM β) s = .ok b s' ↔
      ∃ a s₁, status a = 0 ∧ x s = .ok a s₁ ∧ rest a s₁ = .ok b s' := by
  rw [bind_eq_ok]
  constructor
  · rintro ⟨a, s₁, hx, hrest⟩
    by_cases ha : status a = 0
    · rw [if_neg (fun h => h ha)] at hrest
      exact ⟨a, s₁, ha, hx, hrest⟩
    · rw [if_pos ha] at hrest
      cases hrest
      exact absurd rfl hbad
  · rintro ⟨a, s₁, ha, hx, hrest⟩
    refine ⟨a, s₁, hx, ?_⟩
    rw [if_neg (fun h => h ha)]
    exact hrest

end Checks

theorem neg_one_ne_zero : (-1 : Int) ≠ 0 := by decide

theorem storeConfig_faultless (vals : List Bytes) (offset : Nat) (crc16 : Option (BitVec 16)) :
    Faultless (fun r => r.1 = 0) (storeConfig offset crc16 vals) := by
  induction vals generalizing offset crc16 with
  | nil => exact faultless_pure _ _
  | cons val0 vals ih =>
    refine faultless_giveUp id (nvmWrite_faultless offset val0) neg_one_ne_zero ?_
    intro status _
    refine faultless_bind (ih _ _) (fun r _ => faultless_pure _ _) ?_
    intro r hr s b s' heq
    cases heq
    rw [if_pos hr]
    exact neg_one_ne_zero

theorem storeThen_faultless (offset : Nat) (crc16 : Option (BitVec 16)) (vals : List Bytes)
    {rest : Int × Option (BitVec 16) → NvmM Int} (hrest : ∀ stored, Faultless0 (rest stored)) :
    Faultless0 (do
      let stored ← storeConfig offset crc16 vals
      if stored.1 ≠ 0 then return -1 else rest stored) :=
  faultless_giveUp Prod.fst (storeConfig_faultless vals offset crc16) neg_one_ne_zero
    fun stored _ => hrest stored

theorem storeCrc_faultless (offset : Nat) (crc16 : BitVec 16) :
    Faultless0 (storeCrc offset crc16) := by
  unfold storeCrc
  refine storeThen_faultless _ _ _ fun _ => ?_
  exact faultless_giveUp id nvmCommit_faultless neg_one_ne_zero fun _ _ => faultless_pure _ _

theorem storeBlock_faultless (size : Nat) (vals : List Bytes) :
    Faultless0 (storeBlock size vals) := by
  refine faultless_giveUp id (nvmStartWrite_faultless _) neg_one_ne_zero fun _ _ => ?_
  exact storeThen_faultless _ _ _ fun _ => storeCrc_faultless _ _

theorem safeStoreConfig_faultless (vals : List Bytes) : Faultless0 (safeStoreConfig vals) := by
  refine faultless_get (fun s => ?_) fun s => ?_
  · exact faultless_ite _ (faultless_pure _ _) (storeBlock_faultless _ _)
  · rw [show nvmGetMaxWriteLength s.working = nvmGetMaxWriteLength s from rfl]

/-! ## Sizes -/

theorem getSize_eq (sizes : List Nat) : getSize sizes = u32 sizes.sum := by
  induction sizes with
  | nil => rfl
  | cons size sizes ih =>
    rw [getSize, ih, List.sum_cons, u32, u32, u32, Nat.add_mod_mod]

/-- An object, by its bytes. Its size fits `ptrdiff_t`. -/
def Object : Type := { bytes : Bytes // bytes.length < 2 ^ 31 }

/-- What is stored for the objects: their bytes and the CRC, its high byte first. -/
def image (vals : List Bytes) : Bytes :=
  vals.flatten ++ bigEndian 2 (calcCrc16 crc16Start vals.flatten)

theorem length_image (vals : List Bytes) :
    (image vals).length = (vals.map List.length).sum + 2 := by
  rw [image, List.length_append, List.length_flatten, length_bigEndian]

theorem bigEndian_two (crc16 : BitVec 16) :
    bigEndian 2 crc16 = [highByte crc16, lowByte crc16] := by
  have hlow : topByte (crc16 <<< 8) = lowByte crc16 := by
    apply BitVec.eq_of_getLsbD_eq
    intro i hi
    have h : i < 16 := by omega
    have h' : 8 + i < 16 := by omega
    simp [topByte, lowByte, hi, h, h']
  rw [bigEndian, bigEndian, bigEndian, hlow]
  rfl

/-! ## Storing -/

/-- Storing objects behind what has been written. -/
theorem storeConfig_opened (vals : List Bytes) : ∀ {s s' : NvmState} {bytes : Bytes}
    {crc16 crc16' : Option (BitVec 16)}, Opened s bytes → s.hal = [] →
      (∀ val ∈ vals, val.length < 2 ^ 31) →
      storeConfig bytes.length crc16 vals s = .ok (0, crc16') s' →
        Opened s' (bytes ++ vals.flatten) ∧ s'.nStagingArea = s.nStagingArea ∧ s'.hal = [] ∧
          crc16' = crc16.map fun crc16 => calcCrc16 crc16 vals.flatten := by
  induction vals with
  | nil =>
    intro s s' bytes crc16 crc16' h hh _ heq
    cases heq
    rw [List.flatten_nil, List.append_nil]
    refine ⟨h, rfl, hh, ?_⟩
    cases crc16 <;> rfl
  | cons val0 vals ih =>
    intro s s' bytes crc16 crc16' h hh hvals heq
    have hstaging := h.consistent.staging
    have hval0 := hvals val0 List.mem_cons_self
    have hle := h.le
    rw [nData_eq] at hstaging
    obtain ⟨status, s₁, hstatus, hwrite, hrest⟩ := (giveUp_eq_ok id fun h =>
      neg_one_ne_zero (congrArg Prod.fst h).symm).mp heq
    rw [show status = 0 from hstatus] at hwrite
    obtain ⟨h₁, hn₁⟩ := h.writeNext hh (by omega) hwrite
    have hh₁ := run_hal (c := .write bytes.length val0) hh h.consistent.inBounds hwrite
    obtain ⟨stored, s₂, hstore, hpure⟩ := bind_eq_ok.mp hrest
    obtain ⟨hresult, rfl⟩ := Outcome.ok.inj hpure
    have hzero : stored.1 = 0 := by
      by_contra hne
      rw [if_pos hne] at hresult
      exact neg_one_ne_zero (congrArg Prod.fst hresult)
    have hstored : stored = (0, crc16') := Prod.ext hzero (Prod.mk.inj hresult).2
    have hoffset : u32 (bytes.length + val0.length) = (bytes ++ val0).length := by
      have := h₁.le
      rw [List.length_append] at this ⊢
      exact u32_of_lt (by omega)
    rw [hoffset, hstored] at hstore
    obtain ⟨h₂, hn₂, hh₂, hcrc⟩ := ih h₁ hh₁ (fun val hv => hvals val (List.mem_cons_of_mem _ hv))
      hstore
    rw [List.flatten_cons, ← List.append_assoc]
    refine ⟨h₂, hn₂.trans hn₁, hh₂, hcrc.trans ?_⟩
    cases crc16 with
    | none => rfl
    | some r => exact congrArg some (crc_append _ r val0 vals.flatten).symm

/-- Storing the CRC behind the objects, and committing. -/
theorem storeCrc_settled {s s' : NvmState} {bytes : Bytes} {crc16 : BitVec 16}
    (h : Opened s bytes) (hh : s.hal = []) (heq : storeCrc bytes.length crc16 s = .ok 0 s') :
    Settled s' ∧ (bytes ++ bigEndian 2 crc16).length ≤ 8 * s'.nValid ∧
      ∃ rest, validBlock s' = bytes ++ bigEndian 2 crc16 ++ rest := by
  have hne : (0 : Int) ≠ -1 := neg_one_ne_zero.symm
  obtain ⟨stored, s₁, hstored, hstore, hrest⟩ := (giveUp_eq_ok Prod.fst hne).mp heq
  obtain ⟨status, s₂, hstatus, hcommit, hend⟩ := (giveUp_eq_ok id hne).mp hrest
  cases hend
  rw [show stored = (0, stored.2) from Prod.ext hstored rfl] at hstore
  rw [show status = 0 from hstatus] at hcommit
  obtain ⟨h₁, -, hh₁, -⟩ := storeConfig_opened _ h hh (by simp) hstore
  rw [show [[highByte crc16], [lowByte crc16]].flatten = bigEndian 2 crc16 from
    (bigEndian_two crc16).symm] at h₁
  have hle := h₁.le
  have hlen : (bytes ++ bigEndian 2 crc16).length = bytes.length + 2 := by
    rw [List.length_append, length_bigEndian]
  obtain ⟨hsettled, hnv, hblock⟩ := h₁.commit hh₁ (by omega) hcommit
  refine ⟨hsettled, ?_, _, hblock.trans h₁.block⟩
  rw [hnv]
  exact hle

/-- **Storing.** What `safe_store_config` leaves when it returns 0: the image is the start
of the readable block. -/
theorem safeStoreConfig_settled {s s' : NvmState} (h : Settled s) (hh : s.hal = [])
    {vals : List Bytes} (hvals : ∀ val ∈ vals, val.length < 2 ^ 31)
    (heq : safeStoreConfig vals s = .ok 0 s') :
    Settled s' ∧ (image vals).length ≤ 8 * s'.nValid ∧
      ∃ rest, validBlock s' = image vals ++ rest := by
  change (if u32 (getSize (vals.map List.length) + 2) > nvmGetMaxWriteLength s then
    (pure (-1) : NvmM Int) else storeBlock (u32 (getSize (vals.map List.length) + 2)) vals) s =
      .ok 0 s' at heq
  by_cases hmax : u32 (getSize (vals.map List.length) + 2) > nvmGetMaxWriteLength s
  · rw [if_pos hmax] at heq
    cases heq
  rw [if_neg hmax] at heq
  obtain ⟨size, hsize⟩ : ∃ size, u32 (getSize (vals.map List.length) + 2) = size := ⟨_, rfl⟩
  rw [hsize] at heq
  have hne : (0 : Int) ≠ -1 := neg_one_ne_zero.symm
  obtain ⟨status, s₁, hstatus, hstart, hrest⟩ := (giveUp_eq_ok id hne).mp heq
  obtain ⟨stored, s₂, hstored, hstore, hcrc⟩ := (giveUp_eq_ok Prod.fst hne).mp hrest
  rw [show status = 0 from hstatus] at hstart
  rw [show stored = (0, stored.2) from Prod.ext hstored rfl] at hstore
  obtain ⟨h₁, hn₁⟩ := h.startWrite hh hstart
  have hh₁ := run_hal (c := .startWrite size) hh h.consistent.inBounds hstart
  obtain ⟨h₂, -, hh₂, hcrc16⟩ := storeConfig_opened vals h₁ hh₁ hvals hstore
  rw [List.nil_append] at h₂
  -- the size did not wrap around, as the objects have been written
  have hle := h₂.le
  have hstaging := h₂.consistent.staging
  rw [nData_eq] at hstaging
  have hoffset : subU32 size 2 = vals.flatten.length := by
    have hsum : getSize (vals.map List.length) = vals.flatten.length := by
      rw [getSize_eq, ← List.length_flatten, u32_of_lt (by omega)]
    rw [← hsize, hsum, u32_of_lt (by omega), subU32_of_le (by omega) (by omega),
      Nat.add_sub_cancel]
  rw [hoffset, hcrc16] at hcrc
  exact storeCrc_settled h₂ hh₂ hcrc

/-! ## Loading -/

/-- Where the readable block starts. -/
def blockAddr (s : NvmState) : Nat :=
  fieldAddr s.readSector (s.index s.readSector - s.nValid)

section Load

variable {s : NvmState} (hle : s.nValid ≤ s.index s.readSector)
  (hidx : s.index s.readSector ≤ nData)

include hle hidx

/-- The objects are read one behind the other, the CRC behind them; nothing is left out of
the accumulated CRC. -/
theorem loadConfig_eq (vals : List Bytes) (offset : Nat) (crc16 : BitVec 16)
    (hrange : offset + (vals.map List.length).sum + 2 ≤ 8 * s.nValid) :
    loadConfig s offset crc16 (vals.map Dest.object ++ [Dest.crc16]) =
      (0, calcCrc16 crc16 (read s.flash (blockAddr s + offset)
          ((vals.map List.length).sum + 2)),
        ((vals.map List.length).splitLengths (read s.flash (blockAddr s + offset)
          (vals.map List.length).sum)).map Dest.object ++ [Dest.crc16]) := by
  have hbound : 8 * s.nValid < 2 ^ 32 := by
    rw [nData_eq] at hidx
    omega
  induction vals generalizing offset crc16 with
  | nil =>
    have hread : nvmRead s offset 2 = some (read s.flash (blockAddr s + offset) 2) :=
      nvmRead_eq hle hidx (by simpa using hrange)
    simp [loadConfig, Dest.size, hread, Dest.filled]
  | cons val0 vals ih =>
    rw [List.map_cons, List.sum_cons] at hrange
    have hread : nvmRead s offset val0.length =
        some (read s.flash (blockAddr s + offset) val0.length) :=
      nvmRead_eq hle hidx (by omega)
    have hnext := ih (offset + val0.length)
      (calcCrc16 crc16 (read s.flash (blockAddr s + offset) val0.length)) (by omega)
    rw [List.map_cons, List.map_cons, List.sum_cons, List.cons_append, loadConfig,
      show (Dest.object val0).size = val0.length from rfl, hread]
    simp only [u32_of_lt (show offset + val0.length < 2 ^ 32 by omega), hnext]
    rw [Nat.add_assoc, read_add _ _ _ ((vals.map List.length).sum + 2),
      read_add _ _ _ (vals.map List.length).sum, List.splitLengths_cons,
      List.take_left' (length_read _ _ _), List.drop_left' (length_read _ _ _)]
    simp [calcCrc16, Dest.filled, Nat.add_assoc]

/-- **Loading.** Whether `safe_load_config` succeeds is decided by the CRC over the objects
and what follows them. -/
theorem safeLoadConfig_eq (vals : List Bytes)
    (hrange : (vals.map List.length).sum + 2 ≤ 8 * s.nValid) : safeLoadConfig s vals =
      (if calcCrc16 crc16Start (read s.flash (blockAddr s) ((vals.map List.length).sum + 2)) ≠ 0
        then -1 else 0,
        (vals.map List.length).splitLengths
          (read s.flash (blockAddr s) (vals.map List.length).sum)) := by
  have hbound : 8 * s.nValid < 2 ^ 32 := by
    rw [nData_eq] at hidx
    omega
  have hsize : getSize (vals.map List.length ++ [2]) = (vals.map List.length).sum + 2 := by
    rw [getSize_eq, List.sum_append, List.sum_singleton, u32_of_lt (by omega)]
  have hload := loadConfig_eq hle hidx vals 0 crc16Start (by omega)
  rw [Nat.add_zero] at hload
  rw [safeLoadConfig, hsize, nvmGetMaxReadLength_eq hle hidx, if_neg (Nat.not_lt.mpr hrange),
    hload]
  simp only [ne_eq, not_true_eq_false, if_false, List.filterMap_append, List.filterMap_map]
  have hobjects : ∀ l : List Bytes, l.filterMap (Dest.object? ∘ Dest.object) = l :=
    fun l => List.filterMap_some
  rw [hobjects]
  simp only [Dest.object?, List.filterMap_cons, List.filterMap_nil, List.append_nil]
  split
  · rfl
  · rfl

end Load

/-! ## The round trip -/

/-- What happens to a configuration: it is stored, successfully, with any HAL, or the board
is initialized, with any contents of the RAM. -/
inductive Event where
  | init (ram : NvmState)
  | store (vals : List Object) (hal : List HalResult)

def ConfigStep (s : NvmState) : Event → NvmState → Prop
  | .init ram, s' => nvmInit { ram with flash := s.flash } = .ok 0 s'
  | .store vals hal, s' => safeStoreConfig (vals.map (·.1)) { s with hal := hal } = .ok 0 s'

/-- No flash operation of a store fails with the error code 0. -/
def StoreReported (_ : NvmState) : Event → Prop
  | .init _ => True
  | .store _ hal => Reported hal

/-- The first `size` bytes of the readable block are altered, and nothing else; the bits
that are altered lie within 16 consecutive ones. -/
structure Burst (s : NvmState) (size : Nat) (flash : Mem) : Prop where
  outside : SameOutside s.flash flash (blockAddr s) (blockAddr s + size)
  altered : read flash (blockAddr s) size ≠ read s.flash (blockAddr s) size
  window : ∃ k, ∀ i, (bits (read flash (blockAddr s) size))[i]? ≠
    (bits (read s.flash (blockAddr s) size))[i]? → k ≤ i ∧ i < k + 16

/-- What `safe_store_config` leaves when it returns 0. -/
theorem store_settled {s s' : NvmState} {vals : List Object} {hal : List HalResult}
    (h : Settled s) (hreported : Reported hal) (hstep : ConfigStep s (.store vals hal) s') :
    Settled s' ∧ (image (vals.map (·.1))).length ≤ 8 * s'.nValid ∧
      ∃ rest, validBlock s' = image (vals.map (·.1)) ++ rest := by
  have hvals : ∀ val ∈ vals.map (·.1), val.length < 2 ^ 31 := by
    intro val hval
    obtain ⟨object, -, rfl⟩ := List.mem_map.mp hval
    exact object.2
  have heq := (safeStoreConfig_faultless _ { s with hal := hal } 0 s' hreported rfl hstep).2
  obtain ⟨hsettled, hrest⟩ := safeStoreConfig_settled (h.withHal []) rfl hvals heq
  exact ⟨hsettled.of_working, hrest⟩

theorem ConfigStep.settled {s s' : NvmState} {e : Event} (h : Settled s)
    (hreported : StoreReported s e) (hstep : ConfigStep s e s') : Settled s' := by
  cases e with
  | init ram =>
    have heq := h.nvmInit_eq (t := { ram with flash := s.flash }) rfl
    rw [ConfigStep, heq] at hstep
    cases hstep
    exact h.withHal ram.hal
  | store vals hal => exact (store_settled h hreported hstep).1

section Stored

variable {s : NvmState} {vals into : List Bytes} {rest : Bytes}

/-- The image, as it is read. -/
theorem read_image (hlen : (image vals).length ≤ 8 * s.nValid)
    (hblock : validBlock s = image vals ++ rest) :
    read s.flash (blockAddr s) (image vals).length = image vals := by
  obtain ⟨k, hk⟩ := Nat.exists_eq_add_of_le hlen
  change read s.flash (blockAddr s) (8 * s.nValid) = _ at hblock
  rw [hk, read_add] at hblock
  exact (List.append_inj hblock (length_read _ _ _)).1

theorem crc_image (vals : List Bytes) : calcCrc16 crc16Start (image vals) = 0 :=
  crc_append_bigEndian _ _ (by decide) 2 (by decide) _

/-- What is stored is loaded. -/
theorem safeLoadConfig_image (hle : s.nValid ≤ s.index s.readSector)
    (hidx : s.index s.readSector ≤ nData) (hlen : (image vals).length ≤ 8 * s.nValid)
    (hblock : validBlock s = image vals ++ rest)
    (hinto : into.map List.length = vals.map List.length) :
    safeLoadConfig s into = (0, vals) := by
  have hread := read_image hlen hblock
  rw [length_image, ← hinto] at hread hlen
  rw [safeLoadConfig_eq hle hidx into hlen, hread, crc_image, if_neg (fun h => h rfl)]
  rw [read_add, image] at hread
  have hobjects := (List.append_inj hread (by
    rw [length_read, List.length_flatten, hinto])).1
  rw [hobjects]
  refine congrArg (Prod.mk 0) (List.eq_iff_flatten_eq.mpr ⟨?_, ?_⟩)
  · exact List.flatten_splitLengths _ _ (by rw [List.length_flatten, hinto])
  · rw [List.map_splitLengths_length _ _ (by rw [List.length_flatten, hinto]), hinto]

/-- A burst is noticed. -/
theorem safeLoadConfig_burst (hle : s.nValid ≤ s.index s.readSector)
    (hidx : s.index s.readSector ≤ nData) (hlen : (image vals).length ≤ 8 * s.nValid)
    (hblock : validBlock s = image vals ++ rest)
    (hinto : into.map List.length = vals.map List.length) {flash : Mem}
    (hburst : Burst s (image vals).length flash) (hal : List HalResult) :
    (safeLoadConfig { s with flash := flash, hal := hal } into).1 ≠ 0 := by
  have hread := read_image hlen hblock
  obtain ⟨-, halt, k, hwindow⟩ := hburst
  rw [hread] at halt hwindow
  have hcrc : calcCrc16 crc16Start (read flash (blockAddr s) (image vals).length) ≠
      calcCrc16 crc16Start (image vals) :=
    crc_burst _ (by decide) (by decide) (length_read _ _ _) halt hwindow
  rw [crc_image, length_image, ← hinto] at hcrc
  rw [length_image, ← hinto] at hlen
  rw [safeLoadConfig_eq (s := { s with flash := flash, hal := hal }) hle hidx into hlen]
  show (if calcCrc16 crc16Start (read flash (blockAddr s) _) ≠ 0 then (-1 : Int) else 0) ≠ 0
  rw [if_pos hcrc]
  exact neg_one_ne_zero

end Stored

/-- **The round trip.** In every state that successful stores and initializations reach,
the objects of a successful store are loaded again, at once and after an initialization,
and if a burst has altered the image then loading fails, at once and after an
initialization: as long as no flash operation of the stores fails with the error code 0. -/
theorem config_roundTrip {es : List Event} {s s' : NvmState}
    (h : Run (Guarded StoreReported ConfigStep) (boot erasedFlash) es s) {vals : List Object}
    {hal : List HalResult} (hreported : Reported hal) (hstore : ConfigStep s (.store vals hal) s')
    {into : List Bytes} (hinto : into.map List.length = vals.map (·.1.length)) :
    (safeLoadConfig s' into = (0, vals.map (·.1)) ∧
        ∀ ram : NvmState, ∃ s'', nvmInit { ram with flash := s'.flash } = .ok 0 s'' ∧
          safeLoadConfig s'' into = (0, vals.map (·.1))) ∧
      ∀ flash, Burst s' ((vals.map (·.1.length)).sum + 2) flash →
        (safeLoadConfig { s' with flash := flash } into).1 ≠ 0 ∧
          ∀ ram : NvmState, ∃ s'', nvmInit { ram with flash := flash } = .ok 0 s'' ∧
            (safeLoadConfig s'' into).1 ≠ 0 := by
  have hs := h.invariant settled_first fun _ _ _ h hstep => hstep.2.settled h hstep.1
  obtain ⟨hs', hlen, rest, hblock⟩ := store_settled hs hreported hstore
  obtain ⟨hle, hlt⟩ := hs'.consistent.read_bounds
  have hidx := Nat.le_of_lt hlt
  have hinto' : into.map List.length = (vals.map (·.1)).map List.length := by
    rw [hinto, List.map_map]
    rfl
  have hsize : (image (vals.map (·.1))).length = (vals.map (·.1.length)).sum + 2 := by
    rw [length_image, List.map_map]
    rfl
  refine ⟨⟨safeLoadConfig_image hle hidx hlen hblock hinto', fun ram => ?_⟩, fun flash hburst => ?_⟩
  · refine ⟨_, hs'.nvmInit_eq rfl, ?_⟩
    exact safeLoadConfig_image hle hidx hlen hblock hinto'
  · have hpos : 0 < s'.nValid := by omega
    have houtside : SameOutside s'.flash flash (blockAddr s')
        (fieldAddr s'.readSector (s'.index s'.readSector)) := by
      intro a ha
      refine hburst.outside a ?_
      rw [blockAddr, fieldAddr] at *
      rw [fieldAddr] at ha
      omega
    rw [← hsize] at hburst
    have hfail := safeLoadConfig_burst hle hidx hlen hblock hinto' hburst
    refine ⟨hfail s'.hal, fun ram => ?_⟩
    exact ⟨_, (hs'.alter hpos houtside).nvmInit_eq rfl, hfail ram.hal⟩

/-- Altering the first byte of the image is a burst. -/
theorem burst_head (s : NvmState) (size : Nat) {b : BitVec 8}
    (hb : b ≠ s.flash (blockAddr s)) :
    Burst s (size + 1) (Function.update s.flash (blockAddr s) b) := by
  have hother : ∀ a, a ≠ blockAddr s →
      Function.update s.flash (blockAddr s) b a = s.flash a :=
    fun a ha => Function.update_of_ne ha _ _
  have hread : ∀ m : Mem, read m (blockAddr s) (size + 1) =
      m (blockAddr s) :: read m (blockAddr s + 1) size := fun m => by
    rw [Nat.add_comm, read_add]
    rfl
  have htail : read (Function.update s.flash (blockAddr s) b) (blockAddr s + 1) size =
      read s.flash (blockAddr s + 1) size :=
    read_congr fun i _ => hother _ (by omega)
  refine ⟨fun a ha => hother a (by omega), ?_, 0, fun i hi => ⟨Nat.zero_le _, ?_⟩⟩
  · rw [hread, hread, Function.update_self]
    intro heq
    exact hb (List.cons.inj heq).1
  · rw [hread, hread, Function.update_self, htail] at hi
    by_contra hge
    refine hi ?_
    rw [bits, bits, List.flatMap_cons, List.flatMap_cons,
      List.getElem?_append_right (by rw [length_byteBits]; omega),
      List.getElem?_append_right (by rw [length_byteBits]; omega), length_byteBits,
      length_byteBits]

/-- Two objects on the first boot: they are loaded again, unless a bit of them is altered. -/
theorem config_roundTrip_twoObjects : ∃ s' flash,
    ConfigStep (boot erasedFlash) (.store [⟨[1, 2, 3], by decide⟩, ⟨[4], by decide⟩] []) s' ∧
      safeLoadConfig s' [[0, 0, 0], [0]] = (0, [[1, 2, 3], [4]]) ∧
      Burst s' 6 flash ∧ (safeLoadConfig { s' with flash := flash } [[0, 0, 0], [0]]).1 ≠ 0 := by
  have hret : returned (safeStoreConfig [[1, 2, 3], [4]] firstBoot) = some 0 := by
    decide +kernel
  obtain ⟨s', hs'⟩ : ∃ s', safeStoreConfig [[1, 2, 3], [4]] firstBoot = .ok 0 s' :=
    ⟨_, eq_ok_of_returned (s := firstBoot) hret⟩
  have hstore : ConfigStep (boot erasedFlash)
      (.store [⟨[1, 2, 3], by decide⟩, ⟨[4], by decide⟩] []) s' := by
    rw [boot_erasedFlash]
    exact hs'
  obtain ⟨⟨hload, -⟩, hfail⟩ := config_roundTrip .nil reported_nil hstore
    (show [[0, 0, 0], [0]].map List.length = _ from rfl)
  have hburst := burst_head s' 5 (b := ~~~(s'.flash (blockAddr s'))) (by
    generalize s'.flash (blockAddr s') = b
    revert b
    decide)
  exact ⟨s', _, hstore, hload, hburst, (hfail _ hburst).1⟩

/-- **A store that returns 0 can leave objects that are not loaded again**: the programming
of the first byte times out. -/
theorem config_not_roundTrip :
    ¬ ∀ es s (vals : List Object) hal s' (into : List Bytes),
      Run ConfigStep (boot erasedFlash) es s → ConfigStep s (.store vals hal) s' →
        into.map List.length = vals.map (·.1.length) →
          safeLoadConfig s' into = (0, vals.map (·.1)) := by
  intro h
  -- one operation reserves the field, the next one is to program the object
  let hal := [HalResult.ok, timedOut]
  have hstore : ConfigStep (boot erasedFlash) (.store [⟨[1], by decide⟩] hal)
      (stateAfter firstBoot (safeStoreConfig [[1]] { firstBoot with hal := hal })) := by
    rw [boot_erasedFlash]
    exact eq_ok_of_returned (by decide +kernel)
  have hload := h [] _ _ _ _ [[0]] .nil hstore rfl
  exact absurd (congrArg Prod.fst hload) (by decide +kernel)

end WODrive.Config
