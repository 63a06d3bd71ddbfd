import WODrive.Encoder.Shaft

/-!
# The linear position

`shadow_count_` is the linear position modulo `2 ^ 32`. In INCREMENTAL mode it follows
the sampled position through increments of 16 bits (`linear_update`), in HALL mode the
hall position through a code of six states (`hall_update`); either is exact as long as
each increment is the nearest one. `never_drifts` puts the runs of the two together.

What has to be near is the sample of this update to the sample of the update before.
The shaft may be slow between updates and yet the samples far apart
(`drifts_stale_sample`), because a sample may be old when it is used.
-/

namespace WODrive.Encoder

/-! ## INCREMENTAL mode -/

/-- The linear count is the value last set plus the counts moved since. -/
def Linear (s : Shaft) : Prop :=
  s.encoder.shadowCount = BitVec.ofInt 32 (s.linear.2 + (s.sampled - s.linear.1))

/-- The sample is less than half a period of the timer away. -/
def Near (s : Shaft) : Event → Prop
  | .update _ => -(2 ^ 15) < s.sampled - s.based ∧ s.sampled - s.based < 2 ^ 15
  | .startOffsetCalibration => False
  | _ => True

/-- The invariant: the linear count is that of the position it stands for. -/
structure Counts (s : Shaft) : Prop where
  tracks : Tracks s
  shadow : s.encoder.shadowCount = BitVec.ofInt 32 (s.linear.2 + (s.based - s.linear.1))

theorem counts_powerUp (cpr : BitVec 32) (ignore : Bool) :
    Counts (.powerUp .INCREMENTAL cpr ignore) :=
  ⟨tracks_powerUp cpr ignore, by simp [Shaft.powerUp]⟩

theorem Counts.step {s : Shaft} (h : Counts s) {e : Event} (hok : Near s e) :
    Counts (s.step e) := by
  have htracks := h.tracks.step e
  have hmode := h.tracks.mode
  cases e with
  | move counts => exact ⟨htracks, h.shadow⟩
  | sampleNow =>
    simp only [Shaft.step, sampleNow, hmode] at htracks ⊢
    exact ⟨htracks, h.shadow⟩
  | decodeHallSamples hallState => exact ⟨htracks, h.shadow⟩
  | update analog =>
    have hall : s.takesSample = true := by simp [Shaft.takesSample, hmode]
    have hexact : (s.sampled - s.based).bmod (2 ^ 16) = s.sampled - s.based :=
      Int.bmod_eq_of_le_mul_two (by have := hok.1; push_cast; omega)
        (by have := hok.2; push_cast; omega)
    have hsum : s.linear.2 + (s.sampled - s.linear.1) =
        s.linear.2 + (s.based - s.linear.1) + (s.sampled - s.based) := by ring
    refine ⟨htracks, ?_⟩
    simp only [Shaft.step, update_incremental hmode, hall, if_true, h.tracks.delta, hexact]
    rw [hsum, BitVec.ofInt_add, ← h.shadow]
  | setLinearCount count =>
    refine ⟨htracks, ?_⟩
    simp [Shaft.step, setLinearCount]
  | setCircularCount count updateOffset => cases updateOffset <;> exact ⟨htracks, h.shadow⟩
  | startOffsetCalibration => exact hok.elim

theorem linear_update {s : Shaft} {analog : Analog} (h : Counts s)
    (hok : Near s (.update analog)) : Linear (s.step (.update analog)) := by
  have hnext := (h.step hok).shadow
  have hbased : (s.step (.update analog)).based = (s.step (.update analog)).sampled := by
    simp [Shaft.step, Shaft.takesSample, h.tracks.mode]
  rw [hbased] at hnext
  exact hnext

theorem linear_run {cpr : BitVec 32} {ignore : Bool} {es : List Event} {analog : Analog}
    {t : Shaft}
    (hrun : Run (Guarded Near Shaft.Steps) (.powerUp .INCREMENTAL cpr ignore)
      (es ++ [.update analog]) t) : Linear t := by
  obtain ⟨s, hbefore, hok, rfl⟩ := hrun.of_snoc
  have hs : Counts s := by
    refine hbefore.invariant (counts_powerUp cpr ignore) ?_
    rintro s e t hs ⟨hok, rfl⟩
    exact hs.step hok
  exact linear_update hs hok

/-! ## HALL mode -/

/-- A start in HALL mode: the commutation count is in range and agrees, modulo the six
states, with the position that the counts stand for. -/
structure HallStart (s : Shaft) : Prop where
  mode : s.encoder.mode = .HALL
  cpr_lt : s.encoder.cpr.toInt < 2 ^ 30
  dvd : 6 ∣ s.encoder.cpr.toInt
  nonneg : 0 ≤ s.encoder.countInCpr.toInt
  lt : s.encoder.countInCpr.toInt < s.encoder.cpr.toInt
  count : s.encoder.countInCpr.toInt % 6 = s.based % 6
  code : ∀ h, decodeHall s.encoder.hallState = some h → h.toInt = s.sampled % 6

/-- A valid code is that of the position, and at most two steps from the last one that
an update has used. -/
def HallNear (s : Shaft) : Event → Prop
  | .decodeHallSamples hallState => ∀ h, decodeHall hallState = some h → h.toInt = s.position % 6
  | .update _ => s.takesSample = true → -2 ≤ s.sampled - s.based ∧ s.sampled - s.based ≤ 2
  | .move _ | .sampleNow => True
  | .setLinearCount _ | .setCircularCount _ _ | .startOffsetCalibration => False

/-- Both counts have moved by the hall steps since the start. -/
structure HallCounts (start s : Shaft) : Prop where
  shadow : s.encoder.shadowCount =
    start.encoder.shadowCount + BitVec.ofInt 32 (s.based - start.based)
  circular : s.encoder.countInCpr.toInt =
    (start.encoder.countInCpr.toInt + (s.based - start.based)) % s.encoder.cpr.toInt

/-- The invariant of a run in HALL mode. -/
structure HallInv (start s : Shaft) : Prop extends HallCounts start s where
  mode : s.encoder.mode = .HALL
  cpr : s.encoder.cpr = start.encoder.cpr
  code : ∀ h, decodeHall s.encoder.hallState = some h → h.toInt = s.sampled % 6

theorem hallInv_start {s : Shaft} (h : HallStart s) : HallInv s s where
  shadow := by simp
  circular := by
    rw [sub_self, add_zero]
    exact (Int.emod_eq_of_lt h.nonneg h.lt).symm
  mode := h.mode
  cpr := rfl
  code := h.code

theorem decodeHall_range {hallState : BitVec 8} {h : BitVec 32}
    (hdecode : decodeHall hallState = some h) : 0 ≤ h.toInt ∧ h.toInt < 6 := by
  unfold decodeHall at hdecode
  split_ifs at hdecode <;> cases hdecode <;> decide

/-- What `update` does in HALL mode with a valid code `x` steps away. -/
theorem update_hall {e : Encoder} (hmode : e.mode = .HALL) (analog : Analog) {h : BitVec 32}
    (hdecode : decodeHall e.hallState = some h) {x : Int} (hlo : -2 ≤ x) (hhi : x ≤ 2)
    (hnonneg : 0 ≤ e.countInCpr.toInt) (hlt : e.countInCpr.toInt < 2 ^ 30)
    (hdvd : 6 ∣ h.toInt - e.countInCpr.toInt - x) :
    (e.update analog).2 =
      { e with
        shadowCount := e.shadowCount + BitVec.ofInt 32 x
        countInCpr := mod (e.countInCpr + BitVec.ofInt 32 x) e.cpr
        velEstimateValid := true
        posEstimateValid := true } := by
  have hrange := decodeHall_range hdecode
  have hsix : (6 : BitVec 32).toInt = 6 := rfl
  have hsub : (h - e.countInCpr).toInt = h.toInt - e.countInCpr.toInt :=
    Wrap.toInt_sub_of_fits (by omega) (by omega)
  have hdelta : foldedDelta 6 (h - e.countInCpr) = BitVec.ofInt 32 x := by
    rw [← BitVec.ofInt_toInt (x := foldedDelta 6 _),
      toInt_foldedDelta (x := x) (by omega) (by omega) (by rw [hsub, hsix]; exact hdvd)]
  simp only [update, deltaEnc, hmode, hdecode, hdelta, Mode.isAbs, Bool.false_eq_true, if_false]

/-- An illegal code changes neither count, whether it is ignored or rejected. -/
theorem update_illegal {e : Encoder} (hmode : e.mode = .HALL) (analog : Analog)
    (hdecode : decodeHall e.hallState = none) (hnonneg : 0 ≤ e.countInCpr.toInt)
    (hlt : e.countInCpr.toInt < e.cpr.toInt) :
    (e.update analog).2.shadowCount = e.shadowCount ∧
      (e.update analog).2.countInCpr = e.countInCpr ∧
      (e.update analog).2.mode = .HALL ∧ (e.update analog).2.cpr = e.cpr ∧
      (e.update analog).2.hallState = e.hallState := by
  have hsame : mod e.countInCpr e.cpr = e.countInCpr := by
    apply BitVec.eq_of_toInt_eq
    rw [toInt_mod _ (by omega), Int.emod_eq_of_lt hnonneg hlt]
  cases hignore : e.ignoreIllegalHallState <;>
    simp [update, deltaEnc, hmode, hdecode, hignore, setError, Mode.isAbs, hsame]

/-- A step that an update takes with the code it has. -/
theorem HallInv.step_update {start s : Shaft} (hstart : HallStart start) (h : HallInv start s)
    {analog : Analog} (hok : HallNear s (.update analog)) :
    HallInv start (s.step (.update analog)) := by
  have hcpr := h.cpr
  have hpos : 0 < s.encoder.cpr.toInt := by
    have := hstart.nonneg
    have := hstart.lt
    rw [hcpr]
    omega
  have hnonneg : 0 ≤ s.encoder.countInCpr.toInt := h.circular ▸ Int.emod_nonneg _ hpos.ne'
  have hlt : s.encoder.countInCpr.toInt < s.encoder.cpr.toInt :=
    h.circular ▸ Int.emod_lt_of_pos _ hpos
  have hmax : s.encoder.cpr.toInt < 2 ^ 30 := hcpr ▸ hstart.cpr_lt
  cases hdecode : decodeHall s.encoder.hallState with
  | none =>
    have htakes : s.takesSample = false := by simp [Shaft.takesSample, h.mode, hdecode]
    obtain ⟨h1, h2, h3, h4, h5⟩ := update_illegal h.mode analog hdecode hnonneg hlt
    simp only [Shaft.step, htakes, Bool.false_eq_true, if_false]
    exact ⟨⟨h1 ▸ h.shadow, by simp only [h2, h4]; exact h.circular⟩, h3, h4.trans hcpr,
      by simp only [h5]; exact h.code⟩
  | some code =>
    have htakes : s.takesSample = true := by simp [Shaft.takesSample, hdecode]
    obtain ⟨hlo, hhi⟩ := hok htakes
    have hsix : s.encoder.countInCpr.toInt % 6 = s.based % 6 := by
      have hdvd : (6 : Int) ∣ s.encoder.cpr.toInt := hcpr ▸ hstart.dvd
      have := hstart.count
      rw [h.circular, Int.emod_emod_of_dvd _ hdvd]
      omega
    have hcode := h.code code hdecode
    have hupdate := update_hall h.mode analog hdecode hlo hhi hnonneg (by omega) (by omega)
    simp only [Shaft.step, htakes, if_true, hupdate]
    refine ⟨⟨?_, ?_⟩, h.mode, hcpr, h.code⟩
    · have hsum : s.sampled - start.based = s.based - start.based + (s.sampled - s.based) := by
        ring
      simp only
      rw [hsum, BitVec.ofInt_add, h.shadow, BitVec.add_assoc]
    · have hsum : start.encoder.countInCpr.toInt + (s.sampled - start.based) =
          start.encoder.countInCpr.toInt + (s.based - start.based) + (s.sampled - s.based) := by
        ring
      simp only
      rw [toInt_mod_add hpos hmax hnonneg hlt (by omega) (by omega), h.circular,
        Int.emod_add_emod, hsum]

theorem HallInv.step {start s : Shaft} (hstart : HallStart start) (h : HallInv start s)
    {e : Event} (hok : HallNear s e) : HallInv start (s.step e) := by
  cases e with
  | move counts => exact ⟨⟨h.shadow, h.circular⟩, h.mode, h.cpr, h.code⟩
  | sampleNow =>
    simp only [Shaft.step, sampleNow, h.mode, if_true]
    exact ⟨⟨h.shadow, h.circular⟩, h.mode, h.cpr, h.code⟩
  | decodeHallSamples hallState =>
    simp only [Shaft.step, h.mode, if_true]
    exact ⟨⟨h.shadow, h.circular⟩, h.mode, h.cpr, hok⟩
  | update analog => exact h.step_update hstart hok
  | setLinearCount count => exact hok.elim
  | setCircularCount count updateOffset => exact hok.elim
  | startOffsetCalibration => exact hok.elim

theorem hall_run {start t : Shaft} {es : List Event} (hstart : HallStart start)
    (hrun : Run (Guarded HallNear Shaft.Steps) start es t) : HallCounts start t := by
  have hinv : HallInv start t := by
    refine hrun.invariant (hallInv_start hstart) ?_
    rintro s e t hs ⟨hok, rfl⟩
    exact hs.step hstart hok
  exact hinv.toHallCounts

/-! ## Both modes -/

/-- In INCREMENTAL mode the linear count is, modulo `2 ^ 32`, the value last set plus
the counts that the sampled position has moved since; in HALL mode both counts advance
by the hall steps between the codes used. -/
theorem never_drifts :
    (∀ (cpr : BitVec 32) (ignore : Bool) (es : List Event) (analog : Analog) (t : Shaft),
      Run (Guarded Near Shaft.Steps) (.powerUp .INCREMENTAL cpr ignore)
        (es ++ [.update analog]) t → Linear t) ∧
    (∀ (start t : Shaft) (es : List Event), HallStart start →
      Run (Guarded HallNear Shaft.Steps) start es t → HallCounts start t) :=
  ⟨fun _ _ _ _ _ hrun => linear_run hrun, fun _ _ _ hstart hrun => hall_run hstart hrun⟩

theorem never_drifts_short :
    Linear ((([.setLinearCount 7, .move 100, .sampleNow] : List Event).foldl
      Shaft.step (.powerUp .INCREMENTAL 8192 false)).step (.update ⟨0, false⟩)) ∧
    HallCounts (.powerUp .HALL 42 true)
      (([.move (-1), .decodeHallSamples 0b101, .update ⟨0, false⟩, .decodeHallSamples 0b111,
        .update ⟨0, false⟩] : List Event).foldl Shaft.step (.powerUp .HALL 42 true)) := by
  have hlinear : Run (Guarded Near Shaft.Steps) (.powerUp .INCREMENTAL 8192 false)
      ([.setLinearCount 7, .move 100, .sampleNow] ++ [.update ⟨0, false⟩])
      ((([.setLinearCount 7, .move 100, .sampleNow] : List Event).foldl
        Shaft.step (.powerUp .INCREMENTAL 8192 false)).step (.update ⟨0, false⟩)) := by
    refine .snoc (.snoc (.snoc (.snoc .nil ⟨trivial, rfl⟩) ⟨trivial, rfl⟩) ⟨trivial, rfl⟩)
      ⟨?_, rfl⟩
    exact ⟨by decide +kernel, by decide +kernel⟩
  have hstart : HallStart (.powerUp .HALL 42 true) :=
    ⟨rfl, by decide, by decide, by decide, by decide, by decide,
      fun h hcode => absurd hcode (by simp [Shaft.powerUp, decodeHall])⟩
  have hhall : Run (Guarded HallNear Shaft.Steps) (.powerUp .HALL 42 true)
      ([.move (-1), .decodeHallSamples 0b101, .update ⟨0, false⟩, .decodeHallSamples 0b111,
        .update ⟨0, false⟩])
      (([.move (-1), .decodeHallSamples 0b101, .update ⟨0, false⟩, .decodeHallSamples 0b111,
        .update ⟨0, false⟩] : List Event).foldl Shaft.step (.powerUp .HALL 42 true)) := by
    refine .cons ⟨trivial, rfl⟩ (.cons ⟨?_, rfl⟩ (.cons ⟨?_, rfl⟩ (.cons ⟨?_, rfl⟩
      (.cons ⟨?_, rfl⟩ .nil))))
    · intro h hdecode
      obtain rfl : 5 = h := Option.some.inj hdecode
      decide +kernel
    · intro _
      exact ⟨by decide +kernel, by decide +kernel⟩
    · intro h hdecode
      exact absurd hdecode (by simp [decodeHall])
    · intro h
      exact absurd h (by decide +kernel)
  exact ⟨never_drifts.1 _ _ _ _ _ hlinear, never_drifts.2 _ _ _ hstart hhall⟩

/-- 30000 counts to the first update, with a sample from before them, and as many to the
second: the second increment is of 60000 counts and does not fit. -/
theorem drifts_stale_sample :
    ¬ Linear (([.sampleNow, .move 30000, .update ⟨0, false⟩, .move 30000, .sampleNow,
      .update ⟨0, false⟩] : List Event).foldl
        Shaft.step (.powerUp .INCREMENTAL 8192 false)) := by
  unfold Linear
  decide +kernel

end WODrive.Encoder
