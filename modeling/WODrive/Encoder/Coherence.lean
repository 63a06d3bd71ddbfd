import Mathlib.Algebra.Ring.Divisibility.Basic
import Mathlib.Data.List.Induction
import WODrive.Encoder.Model

/-!
# The two counts

`update` moves the linear count and the commutation count by the same increment and
reduces the second modulo `cpr`, so their difference stays in one residue class and the
second in its range. In the absolute modes the last word received overwrites the
commutation count; the word has 14 bits whatever `cpr` is, and it is not reduced.

`Counted` remembers the linear count without its wrapping around, and `coherent_iff` says
for which runs the two counts stay coherent in every mode: for those in which an absolute
word that an update uses is less than `cpr`.
-/

namespace WODrive.Encoder

/-! ## Absolute words -/

/-- `cui_parity` -/
def cuiParity (v : BitVec 16) : BitVec 16 :=
  let v := v ^^^ (v >>> 8)
  let v := v ^^^ (v >>> 4)
  let v := v ^^^ (v >>> 2)
  ~~~v &&& 3

/-- `pos_abs_ = pos` -/
def latchPos (pos : BitVec 16) (e : Encoder) : Encoder :=
  { e with posAbs := pos.setWidth 32, absSpiPosUpdated := true }

/-- `abs_spi_cb`: what it does with the word in `abs_spi_dma_rx_[0]`. -/
def absSpiCb (rawVal : BitVec 16) (e : Encoder) : Encoder :=
  match e.mode with
  | .SPI_ABS_AMS => e.latchPos (rawVal &&& 0x3fff)
  | .SPI_ABS_CUI => if cuiParity rawVal ≠ 0 then e else e.latchPos (rawVal &&& 0x3fff)
  | .SPI_ABS_RLS => e.latchPos ((rawVal >>> 2) &&& 0x3fff)
  | _ => e.setError ERROR_UNSUPPORTED_ENCODER_MODE

/-! ## Runs -/

/-- An encoder, and its linear count as an unbounded integer. -/
structure Counted where
  encoder : Encoder
  shadow : Int

/-- A raw sample comes in, or the counts are updated. -/
inductive Reading where
  | timer (cnt : BitVec 16)
  | hall (hallState : BitVec 8)
  | absWord (rawVal : BitVec 16)
  | update (analog : Analog)

/-- The increment of the next update, 0 where it returns false. -/
def increment (analog : Analog) (e : Encoder) : Int :=
  ((e.deltaEnc analog).1.getD 0).toInt

def Counted.step (s : Counted) : Reading → Counted
  | .timer cnt => { s with encoder := sampleNow { s.encoder with cnt } }
  | .hall hallState => { s with encoder := s.encoder.decodeHallSamples hallState }
  | .absWord rawVal => { s with encoder := s.encoder.absSpiCb rawVal }
  | .update analog =>
    { encoder := (s.encoder.update analog).2
      shadow := s.shadow + s.encoder.increment analog }

def Counted.run (s : Counted) (rs : List Reading) : Counted := rs.foldl Counted.step s

@[simp] theorem Counted.run_append (s : Counted) (rs rs' : List Reading) :
    s.run (rs ++ rs') = (s.run rs).run rs' :=
  List.foldl_append

@[simp] theorem Counted.run_singleton (s : Counted) (r : Reading) : s.run [r] = s.step r := rfl

/-! ## Coherence -/

/-- The commutation count is in its range. -/
structure InCpr (e : Encoder) : Prop where
  nonneg : 0 ≤ e.countInCpr.toInt
  lt : e.countInCpr.toInt < e.cpr.toInt

/-- The register holds the linear count. -/
def Counted.Holds (s : Counted) : Prop := s.encoder.shadowCount = BitVec.ofInt 32 s.shadow

/-- Where a run starts. -/
structure Counted.Start (s : Counted) : Prop where
  cpr_pos : 0 < s.encoder.cpr.toInt
  cpr_lt : s.encoder.cpr.toInt < 2 ^ 30
  inCpr : InCpr s.encoder
  holds : s.Holds

/-- What an update from `s` to `t` should keep. -/
structure Coherent (s t : Counted) : Prop where
  inCpr : InCpr t.encoder
  holds : t.Holds
  congr : s.encoder.cpr.toInt ∣
    (t.shadow - t.encoder.countInCpr.toInt) - (s.shadow - s.encoder.countInCpr.toInt)

/-- An absolute mode would take over a position that is in range. -/
def PosInCpr (e : Encoder) : Prop :=
  e.mode.isAbs = true → 0 ≤ e.posAbs.toInt ∧ e.posAbs.toInt < e.cpr.toInt

/-! ## One update -/

/-- The step to the nearer side, for every raw position. -/
theorem foldedDelta_spec {modulus : BitVec 32} (hpos : 0 < modulus.toInt) (delta : BitVec 32) :
    -modulus.toInt < 2 * (foldedDelta modulus delta).toInt ∧
      2 * (foldedDelta modulus delta).toInt ≤ modulus.toInt ∧
      modulus.toInt ∣ delta.toInt - (foldedDelta modulus delta).toInt := by
  set m := modulus.toInt
  have hr0 : 0 ≤ delta.toInt % m := Int.emod_nonneg _ hpos.ne'
  have hrm : delta.toInt % m < m := Int.emod_lt_of_pos _ hpos
  have hdvd : m ∣ delta.toInt - delta.toInt % m := Int.dvd_self_sub_emod
  rcases Int.lt_or_le m (2 * (delta.toInt % m)) with hbig | hsmall
  · have hx : modulus.toInt ∣ delta.toInt - (delta.toInt % m - m) := by
      rw [show delta.toInt - (delta.toInt % m - m) = delta.toInt - delta.toInt % m + m by ring]
      exact dvd_add hdvd (dvd_refl m)
    rw [toInt_foldedDelta (by omega) (by omega) hx]
    exact ⟨by omega, by omega, hx⟩
  · rw [toInt_foldedDelta (by omega) hsmall hdvd]
    exact ⟨by omega, hsmall, hdvd⟩

/-- What the switch over the modes leaves alone. -/
theorem deltaEnc_frame (analog : Analog) (e : Encoder) :
    (e.deltaEnc analog).2.mode = e.mode ∧ (e.deltaEnc analog).2.cpr = e.cpr ∧
      (e.deltaEnc analog).2.shadowCount = e.shadowCount ∧
      (e.deltaEnc analog).2.countInCpr = e.countInCpr ∧
      (e.deltaEnc analog).2.posAbs = e.posAbs := by
  unfold deltaEnc setError
  cases hmode : e.mode <;> simp only <;> (try split) <;> (try split) <;> simp [hmode]

/-- The increments of the modes that count fit into 16 bits; the others lead to the
position received. -/
theorem deltaEnc_cases {analog : Analog} {e : Encoder} {delta : BitVec 32}
    (h : (e.deltaEnc analog).1 = some delta) :
    e.mode.isAbs = false ∧ -(2 ^ 15) ≤ delta.toInt ∧ delta.toInt < 2 ^ 15 ∨
      e.mode.isAbs = true ∧ delta = foldedDelta e.cpr (e.posAbs - e.countInCpr) := by
  unfold deltaEnc at h
  cases hmode : e.mode <;> rw [hmode] at h
  case INCREMENTAL =>
    obtain rfl := Option.some.inj h
    refine .inl ⟨rfl, ?_, ?_⟩ <;> rw [BitVec.toInt_signExtend_of_le (by decide)]
    · exact BitVec.le_toInt _
    · exact BitVec.toInt_lt
  case HALL =>
    simp only at h
    split at h
    next hallCnt _ =>
      obtain rfl := Option.some.inj h
      obtain ⟨hlo, hhi, -⟩ := foldedDelta_spec (by decide : 0 < (6 : BitVec 32).toInt)
        (hallCnt - e.countInCpr)
      have hsix : (6 : BitVec 32).toInt = 6 := rfl
      exact .inl ⟨rfl, by omega, by omega⟩
    next =>
      split at h
      · obtain rfl := Option.some.inj h
        exact .inl ⟨rfl, by decide, by decide⟩
      · cases h
  case SINCOS =>
    obtain rfl := Option.some.inj h
    obtain ⟨hlo, hhi, -⟩ := foldedDelta_spec (by decide : 0 < (6283 : BitVec 32).toInt)
      (analog.fakeCount - e.countInCpr)
    have hmodulus : (6283 : BitVec 32).toInt = 6283 := rfl
    exact .inl ⟨rfl, by omega, by omega⟩
  case other => cases h
  all_goals exact .inr ⟨rfl, (Option.some.inj h).symm⟩

/-- What `update` does to the counts when it returns true. -/
theorem update_counts {analog : Analog} {e : Encoder} (h : (e.update analog).1 = true) :
    ∃ delta, (e.deltaEnc analog).1 = some delta ∧
      (e.update analog).2.shadowCount = e.shadowCount + delta ∧
      (e.update analog).2.countInCpr =
        if e.mode.isAbs then e.posAbs else mod (e.countInCpr + delta) e.cpr := by
  obtain ⟨hmode, hcpr, hshadow, hcount, hpos⟩ := deltaEnc_frame analog e
  unfold update at h ⊢
  generalize e.deltaEnc analog = r at *
  obtain ⟨_ | delta, e'⟩ := r
  · cases h
  · dsimp only at hmode hcpr hshadow hcount hpos
    refine ⟨delta, rfl, ?_, ?_⟩
    · show e'.shadowCount + delta = _
      rw [hshadow]
    · show (if e'.mode.isAbs then e'.posAbs else mod (e'.countInCpr + delta) e'.cpr) = _
      rw [hmode, hcpr, hcount, hpos]

/-- An update that returns false leaves the counts alone. -/
theorem update_refused {analog : Analog} {e : Encoder} (h : (e.update analog).1 = false) :
    e.increment analog = 0 ∧ (e.update analog).2.shadowCount = e.shadowCount ∧
      (e.update analog).2.countInCpr = e.countInCpr := by
  obtain ⟨-, -, hshadow, hcount, -⟩ := deltaEnc_frame analog e
  unfold update at h ⊢
  unfold increment
  generalize e.deltaEnc analog = r at *
  obtain ⟨_ | delta, e'⟩ := r
  · exact ⟨rfl, hshadow, hcount⟩
  · cases h

/-- In the absolute modes `update` returns true. -/
theorem update_isAbs (analog : Analog) {e : Encoder} (h : e.mode.isAbs = true) :
    (e.update analog).1 = true := by
  unfold update deltaEnc
  cases hmode : e.mode <;> rw [hmode] at h <;> first | rfl | cases h

/-- No reading changes the mode or `cpr`. -/
theorem step_frame (s : Counted) (r : Reading) :
    (s.step r).encoder.mode = s.encoder.mode ∧ (s.step r).encoder.cpr = s.encoder.cpr := by
  cases r with
  | timer cnt =>
    simp only [Counted.step, sampleNow, setError]
    split <;> simp_all
  | hall hallState => exact ⟨rfl, rfl⟩
  | absWord rawVal =>
    simp only [Counted.step, absSpiCb, setError, latchPos]
    split <;> (try split) <;> simp_all
  | update analog =>
    obtain ⟨hmode, hcpr, -⟩ := deltaEnc_frame analog s.encoder
    simp only [Counted.step, update]
    generalize s.encoder.deltaEnc analog = r at *
    obtain ⟨_ | delta, e'⟩ := r <;> exact ⟨hmode, hcpr⟩

/-- How an update that returns true moves the counts. -/
structure Moved (s t : Counted) (delta : BitVec 32) : Prop where
  cpr : t.encoder.cpr = s.encoder.cpr
  holds : t.Holds
  count : t.encoder.countInCpr = if s.encoder.mode.isAbs then s.encoder.posAbs
    else mod (s.encoder.countInCpr + delta) s.encoder.cpr
  shadow : t.shadow = s.shadow + delta.toInt

theorem moved_update {s : Counted} {analog : Analog} (hholds : s.Holds)
    (h : (s.encoder.update analog).1 = true) :
    ∃ delta, (s.encoder.deltaEnc analog).1 = some delta ∧
      Moved s (s.step (.update analog)) delta := by
  obtain ⟨delta, hdelta, hshadow, hcount⟩ := update_counts h
  have hincrement : s.encoder.increment analog = delta.toInt := by rw [increment, hdelta]; rfl
  refine ⟨delta, hdelta, (step_frame s (.update analog)).2, ?_, hcount, ?_⟩
  · show (s.encoder.update analog).2.shadowCount = BitVec.ofInt 32 (s.shadow + _)
    rw [hshadow, hincrement, BitVec.ofInt_add, BitVec.ofInt_toInt, ← hholds]
  · rw [← hincrement]
    rfl

section

variable {s t : Counted} {delta : BitVec 32} (h : Moved s t delta)
  (hcpr : s.encoder.cpr.toInt < 2 ^ 30) (hin : InCpr s.encoder)

include h hcpr hin

/-- In the modes that count, both counts move by the increment. -/
theorem Moved.coherent (hmode : s.encoder.mode.isAbs = false) (hlo : -(2 ^ 15) ≤ delta.toInt)
    (hhi : delta.toInt < 2 ^ 15) : Coherent s t := by
  have hnonneg := hin.nonneg
  have hlt := hin.lt
  have hpos : 0 < s.encoder.cpr.toInt := lt_of_le_of_lt hnonneg hlt
  have hcount := h.count
  rw [hmode, if_neg Bool.false_ne_true] at hcount
  have hmod : t.encoder.countInCpr.toInt =
      (s.encoder.countInCpr.toInt + delta.toInt) % s.encoder.cpr.toInt := by
    rw [hcount, toInt_mod _ hpos, Wrap.toInt_add_of_fits (by omega) (by omega)]
  refine ⟨⟨?_, ?_⟩, h.holds, ?_⟩
  · rw [hmod]
    exact Int.emod_nonneg _ hpos.ne'
  · rw [hmod, h.cpr]
    exact Int.emod_lt_of_pos _ hpos
  · have hsum : s.shadow + delta.toInt - (s.encoder.countInCpr.toInt + delta.toInt) %
          s.encoder.cpr.toInt - (s.shadow - s.encoder.countInCpr.toInt) =
        s.encoder.countInCpr.toInt + delta.toInt -
          (s.encoder.countInCpr.toInt + delta.toInt) % s.encoder.cpr.toInt := by ring
    rw [h.shadow, hmod, hsum]
    exact Int.dvd_self_sub_emod

/-- In the absolute modes the position received replaces the commutation count. -/
theorem Moved.coherent_iff_posInCpr (hmode : s.encoder.mode.isAbs = true)
    (hdelta : delta = foldedDelta s.encoder.cpr (s.encoder.posAbs - s.encoder.countInCpr)) :
    Coherent s t ↔ PosInCpr s.encoder := by
  have hcount := h.count
  rw [hmode, if_pos rfl] at hcount
  constructor
  · rintro ⟨⟨hge, hle⟩, -, -⟩ -
    rw [hcount] at hge hle
    exact ⟨hge, h.cpr ▸ hle⟩
  · intro hrange
    obtain ⟨hge, hle⟩ := hrange hmode
    refine ⟨⟨hcount ▸ hge, by rw [hcount, h.cpr]; exact hle⟩, h.holds, ?_⟩
    have hnonneg := hin.nonneg
    have hlt := hin.lt
    obtain ⟨-, -, hdvd⟩ := foldedDelta_spec (lt_of_le_of_lt hnonneg hlt)
      (s.encoder.posAbs - s.encoder.countInCpr)
    rw [← hdelta, Wrap.toInt_sub_of_fits (by omega) (by omega)] at hdvd
    have hsum : s.shadow + delta.toInt - s.encoder.posAbs.toInt -
          (s.shadow - s.encoder.countInCpr.toInt) =
        -(s.encoder.posAbs.toInt - s.encoder.countInCpr.toInt - delta.toInt) := by ring
    rw [h.shadow, hcount, hsum]
    exact (dvd_neg).mpr hdvd

end

/-- **An update keeps the counts coherent** if and only if a position that it takes over
is in range. -/
theorem coherent_update_iff {s : Counted} {analog : Analog} (hcpr : s.encoder.cpr.toInt < 2 ^ 30)
    (hin : InCpr s.encoder) (hholds : s.Holds) (h : (s.encoder.update analog).1 = true) :
    Coherent s (s.step (.update analog)) ↔ PosInCpr s.encoder := by
  obtain ⟨delta, hdelta, hmoved⟩ := moved_update hholds h
  rcases deltaEnc_cases hdelta with ⟨hmode, hlo, hhi⟩ | ⟨hmode, hposition⟩
  · exact iff_of_true (hmoved.coherent hcpr hin hmode hlo hhi) fun habs =>
      absurd habs (by simp [hmode])
  · exact hmoved.coherent_iff_posInCpr hcpr hin hmode hposition

/-! ## Runs -/

/-- What a run keeps as long as its updates are coherent. -/
structure Kept (s t : Counted) : Prop where
  mode : t.encoder.mode = s.encoder.mode
  cpr : t.encoder.cpr = s.encoder.cpr
  inCpr : InCpr t.encoder
  holds : t.Holds

/-- An update keeps the counts coherent, if it returns true. -/
def CoherentUpdate (s : Counted) (analog : Analog) : Prop :=
  (s.encoder.update analog).1 = true → Coherent s (s.step (.update analog))

theorem Kept.step {s t : Counted} (h : Kept s t) {r : Reading}
    (hr : ∀ analog, r = .update analog → CoherentUpdate t analog) : Kept s (t.step r) := by
  obtain ⟨hmode, hcpr⟩ := step_frame t r
  -- a reading that leaves the counts alone
  have hsame : (t.step r).encoder.countInCpr = t.encoder.countInCpr →
      (t.step r).encoder.shadowCount = t.encoder.shadowCount → (t.step r).shadow = t.shadow →
      Kept s (t.step r) := by
    intro hcount hshadow hlinear
    refine ⟨hmode.trans h.mode, hcpr.trans h.cpr, ⟨?_, ?_⟩, ?_⟩
    · rw [hcount]
      exact h.inCpr.nonneg
    · rw [hcount, hcpr]
      exact h.inCpr.lt
    · rw [Counted.Holds, hshadow, hlinear]
      exact h.holds
  cases r with
  | timer cnt =>
    refine hsame ?_ ?_ rfl <;> simp only [Counted.step, sampleNow, setError] <;> split <;> rfl
  | hall hallState => exact hsame rfl rfl rfl
  | absWord rawVal =>
    refine hsame ?_ ?_ rfl <;> simp only [Counted.step, absSpiCb, setError, latchPos] <;>
      split <;> (try split) <;> rfl
  | update analog =>
    cases hret : (t.encoder.update analog).1 with
    | true =>
      have hcoherent := hr analog rfl hret
      exact ⟨hmode.trans h.mode, hcpr.trans h.cpr, hcoherent.inCpr, hcoherent.holds⟩
    | false =>
      obtain ⟨hincrement, hshadow, hcount⟩ := update_refused hret
      exact hsame hcount hshadow (by simp [Counted.step, hincrement])

theorem Kept.coherentUpdate_iff {s t : Counted} (hs : s.Start) (h : Kept s t) (analog : Analog) :
    CoherentUpdate t analog ↔ PosInCpr t.encoder := by
  have hcpr : t.encoder.cpr.toInt < 2 ^ 30 := h.cpr ▸ hs.cpr_lt
  constructor
  · intro hcoherent habs
    have hret := update_isAbs analog habs
    exact (coherent_update_iff hcpr h.inCpr h.holds hret).mp (hcoherent hret) habs
  · exact fun hpos hret => (coherent_update_iff hcpr h.inCpr h.holds hret).mpr hpos

/-- Before every reading of a run whose updates are coherent. -/
theorem kept_run {s : Counted} (hs : s.Start) {rs : List Reading}
    (h : ∀ before analog, before ++ [.update analog] <+: rs → Kept s (s.run before) →
      CoherentUpdate (s.run before) analog) {before : List Reading} (hbefore : before <+: rs) :
    Kept s (s.run before) := by
  induction before using List.reverseRecOn with
  | nil => exact ⟨rfl, rfl, hs.inCpr, hs.holds⟩
  | append_singleton before r ih =>
    have hkept := ih ((List.prefix_append before [r]).trans hbefore)
    rw [Counted.run_append, Counted.run_singleton]
    refine hkept.step ?_
    rintro analog rfl
    exact h before analog hbefore hkept

/-- **The counts stay coherent**, in every mode and exactly: every update of a run that
returns true keeps them so if and only if every update in an absolute mode finds a position
less than `cpr`. -/
theorem coherent_iff {s : Counted} (hs : s.Start) (rs : List Reading) :
    (∀ before analog, before ++ [.update analog] <+: rs → CoherentUpdate (s.run before) analog) ↔
      ∀ before analog, before ++ [.update analog] <+: rs → PosInCpr (s.run before).encoder := by
  constructor
  · intro h before analog hinit
    have hkept := kept_run hs (fun b a hb _ => h b a hb)
      ((List.prefix_append before [.update analog]).trans hinit)
    exact (hkept.coherentUpdate_iff hs analog).mp (h before analog hinit)
  · intro h before analog hinit
    have hkept := kept_run hs (fun b a hb hkept => (hkept.coherentUpdate_iff hs a).mpr (h b a hb))
      ((List.prefix_append before [.update analog]).trans hinit)
    exact (hkept.coherentUpdate_iff hs analog).mpr (h before analog hinit)

/-- An encoder with all counts at zero. -/
def Counted.zero (mode : Mode) (cpr : BitVec 32) : Counted where
  encoder :=
    { mode, cpr
      offset := 0
      ignoreIllegalHallState := false
      error := 0
      axisError := 0
      posEstimateValid := false
      velEstimateValid := false
      shadowCount := 0
      countInCpr := 0
      cnt := 0
      timCntSample := 0
      hallState := 0
      posAbs := 0
      absSpiPosUpdated := false }
  shadow := 0

theorem start_zero (mode : Mode) {cpr : BitVec 32} (hpos : 0 < cpr.toInt)
    (hlt : cpr.toInt < 2 ^ 30) : (Counted.zero mode cpr).Start :=
  ⟨hpos, hlt, ⟨le_refl _, hpos⟩, rfl⟩

theorem coherent_iff_incremental :
    (∀ before analog, before ++ [.update analog] <+: [.timer 5, .update ⟨0, false⟩] →
        CoherentUpdate ((Counted.zero .INCREMENTAL 8192).run before) analog) ↔
      ∀ before analog, before ++ [.update analog] <+: [.timer 5, .update ⟨0, false⟩] →
        PosInCpr ((Counted.zero .INCREMENTAL 8192).run before).encoder :=
  coherent_iff (start_zero .INCREMENTAL (by decide) (by decide)) _

/-- An absolute encoder of 14 bits with the default `cpr` of 8192, in its upper half. -/
theorem not_coherent :
    ¬ ∀ before analog, before ++ [.update analog] <+: [.absWord 0x2000, .update ⟨0, false⟩] →
      CoherentUpdate ((Counted.zero .SPI_ABS_AMS 8192).run before) analog := by
  intro h
  have hcoherent := h [.absWord 0x2000] ⟨0, false⟩ (List.prefix_refl _) rfl
  exact absurd hcoherent.inCpr.lt (by decide)

/-! ## A large enough `cpr` -/

/-- The position received has at most 14 bits. -/
def PosFits (e : Encoder) : Prop := e.posAbs.toInt < 2 ^ 14 ∧ 0 ≤ e.posAbs.toInt

theorem posFits_latchPos (rawVal : BitVec 16) (e : Encoder) :
    PosFits (e.latchPos (rawVal &&& 0x3fff)) := by
  have hle : (rawVal &&& 0x3fff).toNat < 2 ^ 14 := by
    rw [BitVec.toNat_and]
    exact lt_of_le_of_lt Nat.and_le_right (by decide)
  have hnat : ((rawVal &&& 0x3fff).setWidth 32).toNat = (rawVal &&& 0x3fff).toNat := by
    rw [BitVec.toNat_setWidth, Nat.mod_eq_of_lt (by omega)]
  have hint : ((rawVal &&& 0x3fff).setWidth 32).toInt = (rawVal &&& 0x3fff).toNat := by
    rw [BitVec.toInt_eq_toNat_of_lt (by omega), hnat]
  constructor
  · show ((rawVal &&& 0x3fff).setWidth 32).toInt < _
    omega
  · show 0 ≤ ((rawVal &&& 0x3fff).setWidth 32).toInt
    omega

theorem PosFits.step {s : Counted} (h : PosFits s.encoder) (r : Reading) :
    PosFits (s.step r).encoder := by
  cases r with
  | timer cnt =>
    simp only [Counted.step, sampleNow, setError]
    split <;> exact h
  | hall hallState => exact h
  | absWord rawVal =>
    simp only [Counted.step, absSpiCb]
    split
    · exact posFits_latchPos _ _
    · split
      · exact h
      · exact posFits_latchPos _ _
    · exact posFits_latchPos _ _
    · exact h
  | update analog =>
    obtain ⟨-, -, -, -, hpos⟩ := deltaEnc_frame analog s.encoder
    have hsame : (s.step (.update analog)).encoder.posAbs = s.encoder.posAbs := by
      simp only [Counted.step, update]
      generalize s.encoder.deltaEnc analog = r at *
      obtain ⟨_ | delta, e'⟩ := r <;> exact hpos
    rw [PosFits, hsame]
    exact h

theorem PosFits.run {s : Counted} (h : PosFits s.encoder) (rs : List Reading) :
    PosFits (s.run rs).encoder ∧ (s.run rs).encoder.cpr = s.encoder.cpr := by
  induction rs using List.reverseRecOn with
  | nil => exact ⟨h, rfl⟩
  | append_singleton rs r ih =>
    rw [Counted.run_append, Counted.run_singleton]
    exact ⟨ih.1.step r, (step_frame _ r).2.trans ih.2⟩

/-- With a `cpr` of 14 bits or more every run is coherent, whatever the samples are. -/
theorem coherent_of_cpr {s : Counted} (hs : s.Start) (hpos : PosFits s.encoder)
    (hcpr : 2 ^ 14 ≤ s.encoder.cpr.toInt) (rs : List Reading) {before : List Reading}
    {analog : Analog} (h : before ++ [.update analog] <+: rs) :
    CoherentUpdate (s.run before) analog := by
  refine (coherent_iff hs rs).mpr (fun before _ _ _ => ?_) before analog h
  obtain ⟨hfits, hsame⟩ := hpos.run before
  rw [hsame]
  exact ⟨hfits.2, lt_of_lt_of_le hfits.1 hcpr⟩

end WODrive.Encoder
