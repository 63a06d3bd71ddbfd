import WODrive.Encoder.Shaft

/-!
# The reference of the commutation count

`set_circular_count` ties `count_in_cpr_` to the shaft: from then on the count should
be the distance from there, modulo `cpr`. The count itself only moves by increments
that are computed against `shadow_count_`, so every write of `shadow_count_` in between
has to leave the position that it stands for where it was, modulo `cpr`. `Undisturbed`
says which steps do, and `aligned_run` that the reference holds in the runs made of
them. Starting an offset calibration is not one of them in general
(`not_aligned_offset_calibration`): it copies the one count over the other and
leaves the timer and the sample behind.
-/

namespace WODrive.Encoder

/-- The commutation count is in range and stands for the sampled position. -/
structure Aligned (s : Shaft) : Prop where
  nonneg : 0 ≤ s.encoder.countInCpr.toInt
  lt : s.encoder.countInCpr.toInt < s.encoder.cpr.toInt
  reference : ∀ p v, s.circular = some (p, v) →
    s.encoder.cpr.toInt ∣ s.encoder.countInCpr.toInt - (s.sampled - p + v)

/-- The step leaves the position that the linear count stands for where it was, as far
as a count modulo `cpr` can tell, or there is no reference yet to be lost. -/
def Undisturbed (s : Shaft) : Event → Prop
  -- the sample is further away than an increment of 16 bits reaches
  | .update _ => s.circular.isSome →
      s.encoder.cpr.toInt ∣ s.sampled - s.based - (s.sampled - s.based).bmod (2 ^ 16)
  -- the motion that no update has counted is dropped
  | .setLinearCount _ => s.circular.isSome → s.encoder.cpr.toInt ∣ s.position - s.based
  -- it is counted after the reference, though it was before
  | .setCircularCount _ _ => s.encoder.cpr.toInt ∣ s.position - s.based
  -- the low halves of the two counts differ
  | .startOffsetCalibration => s.circular.isSome →
      s.encoder.cpr.toInt ∣
        (s.encoder.countInCpr.toInt - s.encoder.shadowCount.toInt).bmod (2 ^ 16)
  | _ => True

/-- The invariant: the commutation count stands for the same position as the linear
count. -/
structure Referenced (s : Shaft) : Prop where
  tracks : Tracks s
  cpr_pos : 0 < s.encoder.cpr.toInt
  cpr_lt : s.encoder.cpr.toInt < 2 ^ 30
  nonneg : 0 ≤ s.encoder.countInCpr.toInt
  lt : s.encoder.countInCpr.toInt < s.encoder.cpr.toInt
  reference : ∀ p v, s.circular = some (p, v) →
    s.encoder.cpr.toInt ∣ s.encoder.countInCpr.toInt - (s.based - p + v)

theorem referenced_powerUp {cpr : BitVec 32} (ignore : Bool) (hpos : 0 < cpr.toInt)
    (hlt : cpr.toInt < 2 ^ 30) : Referenced (.powerUp .INCREMENTAL cpr ignore) where
  tracks := tracks_powerUp cpr ignore
  cpr_pos := hpos
  cpr_lt := hlt
  nonneg := le_refl (0 : Int)
  lt := hpos
  reference := by simp [Shaft.powerUp]

theorem dvd_emod_sub {cpr x y : Int} (h : cpr ∣ x - y) : cpr ∣ x % cpr - y := by
  have hsum : x % cpr - y = x - y - cpr * (x / cpr) := by
    have := Int.emod_add_mul_ediv x cpr
    omega
  rw [hsum]
  exact Int.dvd_sub h (Int.dvd_mul_right ..)

/-- A count stands for another position, if this is whole turns away. -/
theorem dvd_sub_of_move {cpr count base base' x y : Int} (h : cpr ∣ count - (base - x + y))
    (hmove : cpr ∣ base' - base) : cpr ∣ count - (base' - x + y) := by
  have hsum : count - (base' - x + y) = count - (base - x + y) - (base' - base) := by ring
  rw [hsum]
  exact Int.dvd_sub h hmove

section

variable {s : Shaft} (h : Referenced s)

include h

/-- An update adds the increment to both counts, the one of them modulo `cpr`. -/
theorem Referenced.step_update {analog : Analog} (hok : Undisturbed s (.update analog)) :
    Referenced (s.step (.update analog)) := by
  have htracks := h.tracks.step (.update analog)
  have hall : s.takesSample = true := by simp [Shaft.takesSample, h.tracks.mode]
  have hbounds := And.intro (Int.le_bmod (x := s.sampled - s.based) (m := 2 ^ 16) (by decide))
    (Int.bmod_lt (x := s.sampled - s.based) (m := 2 ^ 16) (by decide))
  have hcount := toInt_mod_add h.cpr_pos h.cpr_lt h.nonneg h.lt
    (x := (s.sampled - s.based).bmod (2 ^ 16)) (by omega) (by omega)
  simp only [Shaft.step, update_incremental h.tracks.mode, hall, if_true, h.tracks.delta]
    at htracks ⊢
  refine ⟨htracks, h.cpr_pos, h.cpr_lt, ?_, ?_, ?_⟩
  · simp only [hcount]
    exact Int.emod_nonneg _ h.cpr_pos.ne'
  · simp only [hcount]
    exact Int.emod_lt_of_pos _ h.cpr_pos
  · intro p v hcirc
    have hcirc' : s.circular = some (p, v) := hcirc
    have hfits : s.encoder.cpr.toInt ∣
        s.sampled - s.based - (s.sampled - s.based).bmod (2 ^ 16) := hok (by simp [hcirc'])
    have hsum : s.encoder.countInCpr.toInt + (s.sampled - s.based).bmod (2 ^ 16) -
        (s.sampled - p + v) = s.encoder.countInCpr.toInt - (s.based - p + v) -
          (s.sampled - s.based - (s.sampled - s.based).bmod (2 ^ 16)) := by ring
    simp only [hcount]
    apply dvd_emod_sub
    rw [hsum]
    exact Int.dvd_sub (h.reference p v hcirc') hfits

/-- Setting the commutation count makes the reference. -/
theorem Referenced.step_setCircularCount {count : BitVec 32} {updateOffset : Bool}
    (hok : Undisturbed s (.setCircularCount count updateOffset)) :
    Referenced (s.step (.setCircularCount count updateOffset)) := by
  have hcount : (s.step (.setCircularCount count updateOffset)).encoder.countInCpr.toInt =
      count.toInt % s.encoder.cpr.toInt := by
    cases updateOffset <;> exact toInt_mod _ h.cpr_pos
  have hcpr : (s.step (.setCircularCount count updateOffset)).encoder.cpr = s.encoder.cpr := by
    cases updateOffset <;> rfl
  refine ⟨h.tracks.step _, hcpr ▸ h.cpr_pos, hcpr ▸ h.cpr_lt, ?_, ?_, ?_⟩
  · rw [hcount]
    exact Int.emod_nonneg _ h.cpr_pos.ne'
  · rw [hcount, hcpr]
    exact Int.emod_lt_of_pos _ h.cpr_pos
  · rintro p v hcirc
    obtain ⟨rfl, rfl⟩ : s.position = p ∧ count.toInt = v := by
      simpa [Shaft.step] using hcirc
    rw [hcount, hcpr]
    have hdrop : s.encoder.cpr.toInt ∣ s.position - s.based := hok
    have hsum : count.toInt - (s.based - s.position + count.toInt) =
        s.position - s.based := by ring
    refine dvd_emod_sub (y := s.based - s.position + count.toInt) ?_
    rw [hsum]
    exact hdrop

/-- One step keeps the invariant. -/
theorem Referenced.step {e : Event} (hok : Undisturbed s e) : Referenced (s.step e) := by
  have htracks := h.tracks.step e
  cases e with
  | move counts => exact ⟨htracks, h.cpr_pos, h.cpr_lt, h.nonneg, h.lt, h.reference⟩
  | sampleNow =>
    simp only [Shaft.step, sampleNow, h.tracks.mode] at htracks ⊢
    exact ⟨htracks, h.cpr_pos, h.cpr_lt, h.nonneg, h.lt, h.reference⟩
  | decodeHallSamples hallState =>
    exact ⟨htracks, h.cpr_pos, h.cpr_lt, h.nonneg, h.lt, h.reference⟩
  | update analog => exact h.step_update hok
  | setLinearCount count =>
    refine ⟨htracks, h.cpr_pos, h.cpr_lt, h.nonneg, h.lt, ?_⟩
    intro p v hcirc
    have hcirc' : s.circular = some (p, v) := hcirc
    exact dvd_sub_of_move (h.reference p v hcirc') (hok (by simp [hcirc']))
  | setCircularCount count updateOffset => exact h.step_setCircularCount hok
  | startOffsetCalibration =>
    refine ⟨htracks, h.cpr_pos, h.cpr_lt, h.nonneg, h.lt, ?_⟩
    intro p v hcirc
    have hcirc' : s.circular = some (p, v) := hcirc
    refine dvd_sub_of_move (h.reference p v hcirc') ?_
    have hgap : s.encoder.cpr.toInt ∣
        (s.encoder.countInCpr.toInt - s.encoder.shadowCount.toInt).bmod (2 ^ 16) :=
      hok (by simp [hcirc'])
    simpa [Shaft.step, syncShadowCount] using hgap

end

/-- After an update, the position that the counts stand for is the sampled one. -/
theorem aligned_update {s : Shaft} {analog : Analog} (h : Referenced s)
    (hok : Undisturbed s (.update analog)) : Aligned (s.step (.update analog)) := by
  have hnext := h.step hok
  have hbased : (s.step (.update analog)).based = (s.step (.update analog)).sampled := by
    simp [Shaft.step, Shaft.takesSample, h.tracks.mode]
  refine ⟨hnext.nonneg, hnext.lt, ?_⟩
  intro p v hcirc
  rw [← hbased]
  exact hnext.reference p v hcirc

/-- In every run from power-up whose steps leave the reference alone, after every
update the commutation count is in range and is the distance, modulo `cpr`, of the
sampled position from that of the last `set_circular_count`, plus the value set. -/
theorem aligned_run {cpr : BitVec 32} {ignore : Bool} (hpos : 0 < cpr.toInt)
    (hlt : cpr.toInt < 2 ^ 30) {es : List Event} {analog : Analog} {t : Shaft}
    (hrun : Run (Guarded Undisturbed Shaft.Steps) (.powerUp .INCREMENTAL cpr ignore)
      (es ++ [.update analog]) t) : Aligned t := by
  obtain ⟨s, hbefore, hok, rfl⟩ := hrun.of_snoc
  have hs : Referenced s := by
    refine hbefore.invariant (referenced_powerUp ignore hpos hlt) ?_
    rintro s e t hs ⟨hok, rfl⟩
    exact hs.step hok
  exact aligned_update hs hok

/-- Two turns away from the reference, in a run that keeps it. -/
theorem aligned_run_two_turns :
    Aligned ((([.setCircularCount 5 false, .move 16384, .sampleNow] : List Event).foldl
      Shaft.step (.powerUp .INCREMENTAL 8192 false)).step (.update ⟨0, false⟩)) := by
  have hrun : Run (Guarded Undisturbed Shaft.Steps) (.powerUp .INCREMENTAL 8192 false)
      ([.setCircularCount 5 false, .move 16384, .sampleNow] ++ [.update ⟨0, false⟩])
      ((([.setCircularCount 5 false, .move 16384, .sampleNow] : List Event).foldl
        Shaft.step (.powerUp .INCREMENTAL 8192 false)).step (.update ⟨0, false⟩)) := by
    refine .snoc (.snoc (.snoc (.snoc .nil ⟨?_, rfl⟩) ⟨trivial, rfl⟩) ⟨trivial, rfl⟩) ⟨?_, rfl⟩
    · intro _
      decide +kernel
    · exact Int.dvd_zero _
  exact aligned_run (by decide) (by decide) hrun

/-- Three ways to lose the reference: a shaft that has moved and been counted before the
reference is set and the calibration started; one that has moved since the last sample
when the linear count is set, or when the reference itself is. -/
theorem not_aligned :
    ¬ Aligned (([.move 100, .sampleNow, .update ⟨0, false⟩, .setCircularCount 0 false,
      .startOffsetCalibration, .sampleNow, .update ⟨0, false⟩] : List Event).foldl
        Shaft.step (.powerUp .INCREMENTAL 8192 false)) ∧
    ¬ Aligned (([.setCircularCount 0 false, .move 100, .setLinearCount 0, .sampleNow,
      .update ⟨0, false⟩] : List Event).foldl
        Shaft.step (.powerUp .INCREMENTAL 8192 false)) ∧
    ¬ Aligned (([.move 100, .setCircularCount 0 false, .sampleNow,
      .update ⟨0, false⟩] : List Event).foldl
        Shaft.step (.powerUp .INCREMENTAL 8192 false)) := by
  refine ⟨fun h => ?_, fun h => ?_, fun h => ?_⟩
  · have href := h.reference 100 0 rfl
    revert href
    decide +kernel
  · have href := h.reference 0 0 rfl
    revert href
    decide +kernel
  · have href := h.reference 100 0 rfl
    revert href
    decide +kernel

end WODrive.Encoder
