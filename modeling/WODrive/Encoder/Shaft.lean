import WODrive.Encoder.Model
import WODrive.Library.Runs

/-!
# An encoder on its shaft

`Shaft` puts the encoder next to the true position of the shaft, an integer that no
register holds, and remembers at which positions the encoder was sampled and set. An
`Event` moves the shaft or is one call of the firmware, and `Shaft.step` is total, so
every list of events is a run.

`based` is the position that the linear count stands for: an update counts from there
to the sampled position. It moves with every write of `shadow_count_`, and `Tracks`
says that the registers agree with it modulo `2 ^ 16`, in every run.
-/

namespace WODrive.Encoder

structure Shaft where
  encoder : Encoder
  /-- The true position, in counts (in hall steps where the mode is HALL). -/
  position : Int
  /-- The position of the raw sample that the encoder holds. -/
  sampled : Int
  /-- The position that `shadow_count_` stands for. -/
  based : Int
  /-- The last `set_linear_count`, or power-up: the position then, and the count set. -/
  linear : Int × Int
  /-- The last `set_circular_count`: the position then, and the count set. -/
  circular : Option (Int × Int)

/-- Everything at zero, as the constructors leave it. -/
def Shaft.powerUp (mode : Mode) (cpr : BitVec 32) (ignoreIllegalHallState : Bool) : Shaft where
  encoder :=
    { mode, cpr, ignoreIllegalHallState
      offset := 0
      error := 0
      axisError := 0
      posEstimateValid := false
      velEstimateValid := false
      shadowCount := 0
      countInCpr := 0
      cnt := 0
      timCntSample := 0
      hallState := 0
      posAbs := 0
      absSpiPosUpdated := false }
  position := 0
  sampled := 0
  based := 0
  linear := (0, 0)
  circular := none

inductive Event where
  /-- The shaft turns, and the timer of its quadrature signals counts. -/
  | move (counts : Int)
  | sampleNow
  | decodeHallSamples (hallState : BitVec 8)
  | update (analog : Analog)
  | setLinearCount (count : BitVec 32)
  | setCircularCount (count : BitVec 32) (updateOffset : Bool)
  /-- `run_offset_calibration` starts. -/
  | startOffsetCalibration

/-- Whether `update` takes the sampled position over. -/
def Shaft.takesSample (s : Shaft) : Bool :=
  s.encoder.mode ≠ .HALL || (decodeHall s.encoder.hallState).isSome

def Shaft.step (s : Shaft) : Event → Shaft
  | .move counts =>
    { s with
      encoder := { s.encoder with cnt := s.encoder.cnt + BitVec.ofInt 16 counts }
      position := s.position + counts }
  | .sampleNow =>
    { s with
      encoder := s.encoder.sampleNow
      sampled := if s.encoder.mode = .HALL then s.sampled else s.position }
  | .decodeHallSamples hallState =>
    { s with
      encoder := s.encoder.decodeHallSamples hallState
      sampled := if s.encoder.mode = .HALL then s.position else s.sampled }
  | .update analog =>
    { s with
      encoder := (s.encoder.update analog).2
      based := if s.takesSample then s.sampled else s.based }
  | .setLinearCount count =>
    { s with
      encoder := s.encoder.setLinearCount count
      sampled := s.position
      based := s.position
      linear := (s.position, count.toInt) }
  | .setCircularCount count updateOffset =>
    { s with
      encoder := s.encoder.setCircularCount count updateOffset
      circular := some (s.position, count.toInt) }
  | .startOffsetCalibration =>
    { s with
      encoder := s.encoder.syncShadowCount
      -- what the assignment does to the low half, which is all that an update reads
      based := s.based + (s.encoder.countInCpr.toInt - s.encoder.shadowCount.toInt).bmod (2 ^ 16) }

/-- The runs: every event steps every state. -/
abbrev Shaft.Steps (s : Shaft) (e : Event) (t : Shaft) : Prop := t = s.step e

/-! ## The registers follow the shaft -/

/-- In INCREMENTAL mode the timer, the sample and the low half of the linear count
differ as the positions they stand for do. -/
structure Tracks (s : Shaft) : Prop where
  mode : s.encoder.mode = .INCREMENTAL
  timer : s.encoder.cnt - s.encoder.timCntSample = BitVec.ofInt 16 (s.position - s.sampled)
  sample : s.encoder.timCntSample - s.encoder.shadowCount.setWidth 16 =
    BitVec.ofInt 16 (s.sampled - s.based)

theorem tracks_powerUp (cpr : BitVec 32) (ignore : Bool) :
    Tracks (.powerUp .INCREMENTAL cpr ignore) :=
  ⟨rfl, by simp [Shaft.powerUp], by simp [Shaft.powerUp]⟩

/-- What `update` does in INCREMENTAL mode. -/
theorem update_incremental {e : Encoder} (hmode : e.mode = .INCREMENTAL) (analog : Analog) :
    (e.update analog).2 =
      { e with
        shadowCount :=
          e.shadowCount + (e.timCntSample - e.shadowCount.setWidth 16).signExtend 32
        countInCpr :=
          mod (e.countInCpr + (e.timCntSample - e.shadowCount.setWidth 16).signExtend 32) e.cpr
        velEstimateValid := true
        posEstimateValid := true } := by
  simp [update, deltaEnc, hmode, Mode.isAbs]

/-- The increment: the distance to the sample, as far as 16 bits tell. -/
theorem Tracks.delta {s : Shaft} (h : Tracks s) :
    (s.encoder.timCntSample - s.encoder.shadowCount.setWidth 16).signExtend 32 =
      BitVec.ofInt 32 ((s.sampled - s.based).bmod (2 ^ 16)) := by
  rw [h.sample, Wrap.signExtend_ofInt]

theorem Tracks.step {s : Shaft} (h : Tracks s) (e : Event) : Tracks (s.step e) := by
  have hmode := h.mode
  cases e with
  | move counts =>
    refine ⟨hmode, ?_, h.sample⟩
    have hsum : s.position + counts - s.sampled = s.position - s.sampled + counts := by ring
    simp only [Shaft.step]
    rw [hsum, BitVec.ofInt_add, ← h.timer]
    ring
  | sampleNow =>
    simp only [Shaft.step, sampleNow, hmode, reduceCtorEq, if_false]
    refine ⟨rfl, by simp, ?_⟩
    have hsum : s.position - s.based = s.position - s.sampled + (s.sampled - s.based) := by ring
    simp only
    rw [hsum, BitVec.ofInt_add, ← h.timer, ← h.sample]
    ring
  | decodeHallSamples hallState =>
    simp only [Shaft.step, hmode, reduceCtorEq, if_false]
    exact ⟨hmode, h.timer, h.sample⟩
  | update analog =>
    have hlow : ((s.encoder.timCntSample - s.encoder.shadowCount.setWidth 16).signExtend
        32).setWidth 16 = s.encoder.timCntSample - s.encoder.shadowCount.setWidth 16 := by
      rw [h.delta, Wrap.setWidth_ofInt _ (by decide), h.sample, Wrap.ofInt_bmod]
    have hall : s.takesSample = true := by simp [Shaft.takesSample, hmode]
    simp only [Shaft.step, update_incremental hmode, hall, if_true]
    refine ⟨hmode, h.timer, ?_⟩
    simp only
    rw [BitVec.setWidth_add _ _ (by decide), hlow]
    simp
  | setLinearCount count =>
    refine ⟨hmode, ?_, ?_⟩ <;> simp [Shaft.step, setLinearCount]
  | setCircularCount count updateOffset =>
    cases updateOffset <;> exact ⟨hmode, h.timer, h.sample⟩
  | startOffsetCalibration =>
    refine ⟨hmode, h.timer, ?_⟩
    set gap := (s.encoder.countInCpr.toInt - s.encoder.shadowCount.toInt).bmod (2 ^ 16)
    have hgap : BitVec.ofInt 16 gap =
        s.encoder.countInCpr.setWidth 16 - s.encoder.shadowCount.setWidth 16 := by
      rw [Wrap.ofInt_bmod, Wrap.ofInt_sub, Wrap.setWidth_eq_ofInt _ (by decide),
        Wrap.setWidth_eq_ofInt _ (by decide)]
    have hsum : s.sampled - (s.based + gap) = s.sampled - s.based - gap := by ring
    simp only [Shaft.step, syncShadowCount]
    rw [hsum, Wrap.ofInt_sub, ← h.sample, hgap]
    ring

end WODrive.Encoder
