import Mathlib.Algebra.Order.ToIntervalMod
import Mathlib.Tactic.LinearCombination
import WODrive.Axis.Endstop
import WODrive.Controller.Model
import WODrive.Encoder.Coherence
import WODrive.Library.Runs

/-!
# The estimates of the encoder (MotorControl/encoder.cpp)

Two phase-locked loops run on the counts: one on the linear count, and one on the commutation
count that is kept within a turn. The position on the circle of the controller is moved by what
the second one moves. The arithmetic is that of an ordered field.

- `feedback_eq`: with a phase error of less than half a turn, both loops get the same feedback;
- `estimates_agree`: the three positions never drift apart over a run in which each update has
  such an error and moves the estimate by less than half a turn.
-/

namespace WODrive

open AddCommGroup

universe u

/-- What the estimates use of the configurations of the encoder, the motor and the controller,
and the gains. -/
structure Encoder.EstimatorConfig (K : Type u) where
  pllKp : K
  pllKi : K
  enablePhaseInterpolation : Bool
  offsetFloat : K
  /-- `axis_->motor_.config_.pole_pairs` -/
  polePairs : Int
  /-- `axis_->controller_.config_.circular_setpoint_range` -/
  circularSetpointRange : K
  /-- `M_PI` -/
  pi : K

/-- The floating-point half of an `Encoder`. -/
structure Encoder.Estimator (K : Type u) where
  posEstimateCounts : K
  posCprCounts : K
  velEstimateCounts : K
  posEstimate : K
  velEstimate : K
  posCpr : K
  posCircular : K
  interpolation : K
  phase : K

namespace Encoder

variable {K : Type u} [Field K] [LinearOrder K] [FloorRing K]

/-! ## The gains -/

def ERROR_UNSTABLE_GAIN : Error := 0x1

/-- `update_pll_gains` -/
def EstimatorConfig.updatePllGains (bandwidth : K) (c : EstimatorConfig K) (e : Encoder) :
    EstimatorConfig K × Encoder :=
  -- basic conversion to discrete time
  let pllKp := 2 * bandwidth
  -- critically damped
  let pllKi := 1 / 4 * (pllKp * pllKp)
  ({ c with pllKp, pllKi },
    if currentMeasPeriod * pllKp < 1 then e else e.setError ERROR_UNSTABLE_GAIN)

/-- There are no problems with the discrete time approximation. -/
def EstimatorConfig.Stable (c : EstimatorConfig K) : Prop :=
  0 ≤ currentMeasPeriod * c.pllKp ∧ currentMeasPeriod * c.pllKp < 1

omit [FloorRing K] in
/-- Gains that are not reported are stable. -/
theorem updatePllGains_stable [IsStrictOrderedRing K] {bandwidth : K} (hbandwidth : 0 ≤ bandwidth)
    (c : EstimatorConfig K) {e : Encoder} (he : e.error.getLsbD 0 = false) :
    (c.updatePllGains bandwidth e).2.error.getLsbD 0 = false ↔
      (c.updatePllGains bandwidth e).1.Stable := by
  have hgain : (0 : K) ≤ currentMeasPeriod * (2 * bandwidth) :=
    mul_nonneg Endstop.currentMeasPeriod_pos.le (mul_nonneg zero_le_two hbandwidth)
  simp only [EstimatorConfig.updatePllGains, EstimatorConfig.Stable]
  split
  next hlt => exact iff_of_true he ⟨hgain, hlt⟩
  next hge =>
    refine iff_of_false ?_ fun h => hge h.2
    simp [setError, ERROR_UNSTABLE_GAIN]

/-! ## The loops -/

namespace Estimator

/-- Predict current pos. -/
def predict (s : Estimator K) : Estimator K :=
  { s with
    posEstimateCounts := s.posEstimateCounts + currentMeasPeriod * s.velEstimateCounts
    posCprCounts := s.posCprCounts + currentMeasPeriod * s.velEstimateCounts }

/-- The discrete phase detector, which works on 32-bit integers. -/
def phaseError (count : BitVec 32) (estimate : K) : K :=
  ((count - BitVec.ofInt 32 ⌊estimate⌋).toInt : K)

/-- The pll feedback. -/
def feedback (c : EstimatorConfig K) (e : Encoder) (s : Estimator K) : Estimator K :=
  let cpr : K := e.cpr.toInt
  let deltaPosCounts := phaseError e.shadowCount s.posEstimateCounts
  let deltaPosCprCounts :=
    Controller.wrapPm (phaseError e.countInCpr s.posCprCounts) (1 / 2 * cpr)
  { s with
    posEstimateCounts := s.posEstimateCounts + currentMeasPeriod * c.pllKp * deltaPosCounts
    posCprCounts :=
      Controller.fmodfPos (s.posCprCounts + currentMeasPeriod * c.pllKp * deltaPosCprCounts) cpr
    velEstimateCounts := s.velEstimateCounts + currentMeasPeriod * c.pllKi * deltaPosCprCounts }

/-- `snap_to_zero_vel` -/
def snapToZeroVel (c : EstimatorConfig K) (s : Estimator K) : Bool :=
  decide (|s.velEstimateCounts| < 1 / 2 * currentMeasPeriod * c.pllKi)

/-- Align delta-sigma on zero to prevent jitter. -/
def snap (c : EstimatorConfig K) (s : Estimator K) : Estimator K :=
  if s.snapToZeroVel c then { s with velEstimateCounts := 0 } else s

/-- Outputs from Encoder for Controller. -/
def outputs (c : EstimatorConfig K) (e : Encoder) (s : Estimator K) : Estimator K :=
  let cpr : K := e.cpr.toInt
  let posCpr := s.posCprCounts / cpr
  { s with
    posEstimate := s.posEstimateCounts / cpr
    velEstimate := s.velEstimateCounts / cpr
    posCpr := posCpr
    posCircular := Controller.fmodfPos
      (s.posCircular + Controller.wrapPm (posCpr - s.posCpr) (1 / 2)) c.circularSetpointRange }

/-- `interpolation_`, which is kept within the count. -/
def interpolated (c : EstimatorConfig K) (deltaEnc : BitVec 32) (snapped : Bool)
    (s : Estimator K) : K :=
  if snapped || !c.enablePhaseInterpolation then 1 / 2
  else if 0 < deltaEnc.toInt then 0
  else if deltaEnc.toInt < 0 then 1
  else
    let interpolation := s.interpolation + currentMeasPeriod * s.velEstimateCounts
    if 1 < interpolation then 1 else if interpolation < 0 then 0 else interpolation

/-- The encoder count interpolation and the electrical phase. -/
def interpolate (c : EstimatorConfig K) (e : Encoder) (deltaEnc : BitVec 32) (snapped : Bool)
    (s : Estimator K) : Estimator K :=
  let correctedEnc : K := ((e.countInCpr - e.offset).toInt : K)
  let interpolation := s.interpolated c deltaEnc snapped
  let elecRadPerEnc : K := c.polePairs * 2 * c.pi * (1 / (e.cpr.toInt : K))
  { s with
    interpolation := interpolation
    phase := Controller.wrapPm (elecRadPerEnc * (correctedEnc + interpolation - c.offsetFloat))
      c.pi }

/-- `update` from the phase-locked loops on, after the counts have moved. -/
def update (c : EstimatorConfig K) (e : Encoder) (deltaEnc : BitVec 32) (s : Estimator K) :
    Estimator K :=
  let s := s.predict.feedback c e
  ((s.snap c).outputs c e).interpolate c e deltaEnc (s.snapToZeroVel c)

end Estimator

/-- An encoder with its estimates. -/
structure Observed (K : Type u) where
  counted : Counted
  estimator : Estimator K

/-- A raw sample comes in, or the counts and the estimates are updated. -/
def Observed.step (c : EstimatorConfig K) (s : Observed K) (r : Reading) : Observed K where
  counted := s.counted.step r
  estimator :=
    match r with
    | .update analog =>
      if (s.counted.encoder.update analog).1 then
        s.estimator.update c (s.counted.step r).encoder
          ((s.counted.encoder.deltaEnc analog).1.getD 0)
      else s.estimator
    | _ => s.estimator

/-! ## Wrapping -/

section Wrapping

variable [IsStrictOrderedRing K] {x y r : K}

theorem fmodfPos_eq (x : K) (hy : 0 < y) : Controller.fmodfPos x y = toIcoMod hy 0 x := by
  symm
  rw [toIcoMod_eq_iff, zero_add]
  have hx : x = y * (x / y) := (mul_div_cancel₀ x hy.ne').symm
  unfold Controller.fmodfPos
  dsimp only
  by_cases hneg : x / y < 0
  · have hout : Controller.fmodf x y = x - y * ⌈x / y⌉ := by
      rw [Controller.fmodf, Controller.truncate, if_pos hneg]
    have hle : y * (x / y) ≤ y * ⌈x / y⌉ := mul_le_mul_of_nonneg_left (Int.le_ceil _) hy.le
    have hlt : y * ⌈x / y⌉ < y * (x / y + 1) := mul_lt_mul_of_pos_left (Int.ceil_lt_add_one _) hy
    rw [← hx] at hle
    rw [mul_add, ← hx, mul_one] at hlt
    rw [hout]
    split
    next hsign =>
      refine ⟨⟨by linarith, by linarith⟩, ⌈x / y⌉ - 1, ?_⟩
      rw [zsmul_eq_mul]
      push_cast
      ring
    next hsign =>
      refine ⟨⟨by linarith, by linarith⟩, ⌈x / y⌉, ?_⟩
      rw [zsmul_eq_mul]
      ring
  · have hout : Controller.fmodf x y = x - y * ⌊x / y⌋ := by
      rw [Controller.fmodf, Controller.truncate, if_neg hneg]
    have hle : y * ⌊x / y⌋ ≤ y * (x / y) := mul_le_mul_of_nonneg_left (Int.floor_le _) hy.le
    have hlt : y * (x / y) < y * (⌊x / y⌋ + 1) :=
      mul_lt_mul_of_pos_left (Int.lt_floor_add_one _) hy
    rw [← hx] at hle hlt
    rw [mul_add, mul_one] at hlt
    rw [hout, if_neg (by linarith)]
    refine ⟨⟨by linarith, by linarith⟩, ⌊x / y⌋, ?_⟩
    rw [zsmul_eq_mul]
    ring

theorem fmodfPos_mem (x : K) (hy : 0 < y) :
    0 ≤ Controller.fmodfPos x y ∧ Controller.fmodfPos x y < y := by
  rw [fmodfPos_eq x hy]
  exact toIcoMod_mem_Ico' hy x

theorem fmodfPos_modEq (x : K) (hy : 0 < y) : Controller.fmodfPos x y ≡ x [PMOD y] := by
  rw [fmodfPos_eq x hy, modEq_iff_eq_add_zsmul]
  exact ⟨toIcoDiv hy 0 x, (toIcoMod_add_toIcoDiv_zsmul hy 0 x).symm⟩

/-- What is wrapped is the value of its class that is in the range. -/
theorem wrapPm_eq (hr : 0 < r) (h : x ≡ y [PMOD 2 * r]) (hlo : -r ≤ y) (hhi : y < r) :
    Controller.wrapPm x r = y := by
  obtain ⟨z, hz⟩ := modEq_iff_eq_add_zsmul.mp h.symm
  have hmod : toIcoMod (mul_pos two_pos hr) 0 (x + r) = y + r := by
    rw [toIcoMod_eq_iff]
    refine ⟨⟨by linarith, by linarith⟩, z, ?_⟩
    rw [hz]
    ring
  rw [Controller.wrapPm, fmodfPos_eq _ (mul_pos two_pos hr), hmod]
  ring

/-- What a position within a turn moves by is found again, in turns. -/
theorem wrapPm_turn {d C : K} (hC : 0 < C) (hd : -C ≤ 2 * d ∧ 2 * d < C) :
    Controller.wrapPm (Controller.fmodfPos (x + d) C / C - x / C) (1 / 2) = d / C := by
  obtain ⟨z, hz⟩ := modEq_iff_eq_add_zsmul.mp (fmodfPos_modEq (x + d) hC)
  rw [zsmul_eq_mul] at hz
  have hout : Controller.fmodfPos (x + d) C = x + d - z * C := eq_sub_of_add_eq hz.symm
  refine wrapPm_eq one_half_pos ?_ ?_ ?_
  · rw [modEq_iff_eq_add_zsmul]
    refine ⟨z, ?_⟩
    rw [hout, zsmul_eq_mul]
    field_simp
    ring
  · rw [le_div_iff₀ hC]
    linarith [hd.1]
  · rw [div_lt_iff₀ hC]
    linarith [hd.2]

end Wrapping

/-! ## One update -/

section Update

variable [IsStrictOrderedRing K] {c : EstimatorConfig K} {e : Encoder} {s t : Observed K}
  {offset : Int} {lag : K}

omit [IsStrictOrderedRing K] in
/-- The phase detector sees the difference of the counts, also where the register has wrapped
around. -/
theorem phaseError_eq {count : BitVec 32} {n : Int} {x : K} (h : count = BitVec.ofInt 32 n)
    (hlo : -(2 ^ 32 : Int) ≤ 2 * (n - ⌊x⌋)) (hhi : 2 * (n - ⌊x⌋) < 2 ^ 32) :
    Estimator.phaseError count x = ((n - ⌊x⌋ : Int) : K) := by
  rw [Estimator.phaseError, h, ← Wrap.ofInt_sub, Wrap.toInt_ofInt_of_fits _ hlo hhi]

/-- The phase error of the linear loop is less than half a turn. -/
def InHalfTurn (e : Encoder) (shadow : Int) (p : Estimator K) : Prop :=
  -e.cpr.toInt ≤ 2 * (shadow - ⌊p.posEstimateCounts⌋) ∧
    2 * (shadow - ⌊p.posEstimateCounts⌋) < e.cpr.toInt

theorem InHalfTurn.cast {shadow : Int} {p : Estimator K} (h : InHalfTurn e shadow p) :
    -(e.cpr.toInt : K) ≤ 2 * ((shadow - ⌊p.posEstimateCounts⌋ : Int) : K) ∧
      2 * ((shadow - ⌊p.posEstimateCounts⌋ : Int) : K) < e.cpr.toInt := by
  constructor
  · exact_mod_cast h.1
  · exact_mod_cast h.2

/-- Estimates that differ by whole turns and an integer have integer parts that do. -/
theorem floor_of_turns {x y : K} {m C : Int} (h : x - y ≡ (m : K) [PMOD (C : K)]) :
    ∃ z : Int, ⌊x⌋ = ⌊y⌋ + (m - z * C) := by
  obtain ⟨z, hz⟩ := modEq_iff_eq_add_zsmul.mp h
  rw [zsmul_eq_mul] at hz
  have hsum : x = y + ((m - z * C : Int) : K) := by
    push_cast
    linear_combination -hz
  refine ⟨z, ?_⟩
  rw [hsum, Int.floor_add_intCast]

omit [LinearOrder K] [FloorRing K] [IsStrictOrderedRing K] in
theorem intCast_modEq {a b C : Int} (h : C ∣ b - a) : (a : K) ≡ (b : K) [PMOD (C : K)] := by
  obtain ⟨z, hz⟩ := h
  rw [modEq_iff_eq_add_zsmul]
  refine ⟨z, ?_⟩
  have hsum : b = a + z * C := by linear_combination hz
  rw [hsum, zsmul_eq_mul]
  push_cast
  ring

/-- Both loops get the phase error of the linear one. -/
theorem feedback_eq {shadow : Int} {p : Estimator K} (hcpr : e.cpr.toInt < 2 ^ 30)
    (hin : InCpr e) (hholds : e.shadowCount = BitVec.ofInt 32 shadow)
    (hcounts : e.cpr.toInt ∣ (shadow - e.countInCpr.toInt) - offset)
    (hturns : p.posEstimateCounts - p.posCprCounts ≡ (offset : K) [PMOD (e.cpr.toInt : K)])
    (hlo : -(e.cpr.toInt : K) ≤ p.posCprCounts) (hhi : p.posCprCounts ≤ 2 * e.cpr.toInt)
    (hphase : InHalfTurn e shadow p) :
    let n : K := ((shadow - ⌊p.posEstimateCounts⌋ : Int) : K)
    p.feedback c e =
      { p with
        posEstimateCounts := p.posEstimateCounts + currentMeasPeriod * c.pllKp * n
        posCprCounts :=
          Controller.fmodfPos (p.posCprCounts + currentMeasPeriod * c.pllKp * n) e.cpr.toInt
        velEstimateCounts := p.velEstimateCounts + currentMeasPeriod * c.pllKi * n } := by
  intro n
  obtain ⟨hnonneg, hlt⟩ := hin
  have hhalf : -(e.cpr.toInt : K) ≤ 2 * n ∧ 2 * n < e.cpr.toInt := hphase.cast
  obtain ⟨hphaseLo, hphaseHi⟩ := hphase
  have hpos : (0 : K) < e.cpr.toInt := Int.cast_pos.mpr (by omega)
  obtain ⟨z, hfloor⟩ := floor_of_turns hturns
  -- the registers are far from wrapping around
  have hfloorLo : -e.cpr.toInt ≤ ⌊p.posCprCounts⌋ := by
    rw [Int.le_floor]
    push_cast
    exact hlo
  have hfloorHi : ⌊p.posCprCounts⌋ ≤ 2 * e.cpr.toInt := by
    have hcast : (⌊p.posCprCounts⌋ : K) ≤ ((2 * e.cpr.toInt : Int) : K) := by
      push_cast
      exact (Int.floor_le _).trans hhi
    exact Int.cast_le.mp hcast
  have hlinear : Estimator.phaseError e.shadowCount p.posEstimateCounts = n :=
    phaseError_eq hholds (by omega) (by omega)
  have hcount : Estimator.phaseError e.countInCpr p.posCprCounts =
      ((e.countInCpr.toInt - ⌊p.posCprCounts⌋ : Int) : K) :=
    phaseError_eq (BitVec.ofInt_toInt ..).symm (by omega) (by omega)
  have hdvd : e.cpr.toInt ∣
      (shadow - ⌊p.posEstimateCounts⌋) - (e.countInCpr.toInt - ⌊p.posCprCounts⌋) := by
    have hsum : (shadow - ⌊p.posEstimateCounts⌋) - (e.countInCpr.toInt - ⌊p.posCprCounts⌋) =
        (shadow - e.countInCpr.toInt - offset) + e.cpr.toInt * z := by
      rw [hfloor]
      ring
    rw [hsum]
    exact dvd_add hcounts (dvd_mul_right _ _)
  have hcircular : Controller.wrapPm (Estimator.phaseError e.countInCpr p.posCprCounts)
      (1 / 2 * (e.cpr.toInt : K)) = n := by
    rw [hcount]
    refine wrapPm_eq (by linarith) ?_ (by linarith [hhalf.1]) (by linarith [hhalf.2])
    rw [← mul_assoc, mul_one_div_cancel two_ne_zero, one_mul]
    exact intCast_modEq hdvd
  unfold Estimator.feedback
  dsimp only
  rw [hlinear, hcircular]

/-- How the positions hang together: those of the loops by whole turns and the offset of the
counts, and that on the circle by whole circles and where it has been set. -/
structure Agree (c : EstimatorConfig K) (offset : Int) (lag : K) (s : Observed K) : Prop where
  counts : s.counted.encoder.cpr.toInt ∣
    (s.counted.shadow - s.counted.encoder.countInCpr.toInt) - offset
  inCpr : 0 ≤ s.estimator.posCprCounts ∧
    s.estimator.posCprCounts < s.counted.encoder.cpr.toInt
  turns : s.estimator.posEstimateCounts - s.estimator.posCprCounts ≡ (offset : K)
    [PMOD (s.counted.encoder.cpr.toInt : K)]
  posEstimate : s.estimator.posEstimate =
    s.estimator.posEstimateCounts / s.counted.encoder.cpr.toInt
  posCpr : s.estimator.posCpr = s.estimator.posCprCounts / s.counted.encoder.cpr.toInt
  inRange : 0 ≤ s.estimator.posCircular ∧ s.estimator.posCircular < c.circularSetpointRange
  circular : s.estimator.posCircular ≡ s.estimator.posEstimate + lag
    [PMOD c.circularSetpointRange]

/-- The estimate follows the counts: the phase error is less than half a turn, and so is what the
estimate moves by. -/
structure Follows (s t : Observed K) : Prop where
  phase : InHalfTurn t.counted.encoder t.counted.shadow s.estimator.predict
  turn : -1 ≤ 2 * (t.estimator.posEstimate - s.estimator.posEstimate) ∧
    2 * (t.estimator.posEstimate - s.estimator.posEstimate) < 1

omit [IsStrictOrderedRing K] in
theorem estimator_update (c : EstimatorConfig K) (e : Encoder) (deltaEnc : BitVec 32)
    (s : Estimator K) :
    let fed := s.predict.feedback c e
    let next := s.update c e deltaEnc
    next.posEstimateCounts = fed.posEstimateCounts ∧ next.posCprCounts = fed.posCprCounts ∧
      next.posEstimate = fed.posEstimateCounts / e.cpr.toInt ∧
      next.posCpr = fed.posCprCounts / e.cpr.toInt ∧
      next.posCircular = Controller.fmodfPos (s.posCircular +
        Controller.wrapPm (fed.posCprCounts / e.cpr.toInt - s.posCpr) (1 / 2))
        c.circularSetpointRange := by
  intro fed next
  have hsnap : next = ((fed.snap c).outputs c e).interpolate c e deltaEnc (fed.snapToZeroVel c) :=
    rfl
  rw [hsnap]
  unfold Estimator.snap
  split
  · exact ⟨rfl, rfl, rfl, rfl, rfl⟩
  · exact ⟨rfl, rfl, rfl, rfl, rfl⟩

omit [FloorRing K] in
/-- A gain that is stable does not let the prediction leave the neighbouring turns. -/
theorem predicted_near {g v n C x : K} (hg : 0 ≤ g ∧ g < 1) (hn : -C ≤ 2 * n ∧ 2 * n < C)
    (hmoved : -C ≤ 2 * (v + g * n) ∧ 2 * (v + g * n) < C) (hx : 0 ≤ x ∧ x < C) :
    -C ≤ x + v ∧ x + v ≤ 2 * C := by
  have hC : 0 ≤ C := hx.1.trans hx.2.le
  have hgC : g * C ≤ 1 * C := mul_le_mul_of_nonneg_right hg.2.le hC
  have hlo : g * -C ≤ g * (2 * n) := mul_le_mul_of_nonneg_left hn.1 hg.1
  have hhi : g * (2 * n) ≤ g * C := mul_le_mul_of_nonneg_left hn.2.le hg.1
  constructor
  · linarith [hmoved.1, hx.1]
  · linarith [hmoved.2, hx.2]

/-- The update moves both loops by the same, which is less than half a turn. -/
theorem fed_together {shadow : Int} {p : Estimator K} {d : K} (hstable : c.Stable)
    (hcpr : e.cpr.toInt < 2 ^ 30) (hin : InCpr e) (hholds : e.shadowCount = BitVec.ofInt 32 shadow)
    (hcounts : e.cpr.toInt ∣ (shadow - e.countInCpr.toInt) - offset)
    (hinCpr : 0 ≤ p.posCprCounts ∧ p.posCprCounts < e.cpr.toInt)
    (hturns : p.posEstimateCounts - p.posCprCounts ≡ (offset : K) [PMOD (e.cpr.toInt : K)])
    (hphase : InHalfTurn e shadow p.predict)
    (hd : (p.predict.feedback c e).posEstimateCounts - p.posEstimateCounts = d)
    (hhalf : -(e.cpr.toInt : K) ≤ 2 * d ∧ 2 * d < e.cpr.toInt) :
    (p.predict.feedback c e).posCprCounts =
      Controller.fmodfPos (p.posCprCounts + d) e.cpr.toInt := by
  have hlinear : Estimator.phaseError e.shadowCount p.predict.posEstimateCounts =
      ((shadow - ⌊p.predict.posEstimateCounts⌋ : Int) : K) := by
    obtain ⟨hlo, hhi⟩ := hphase
    have hlt := hin.lt
    exact phaseError_eq hholds (by omega) (by omega)
  have hphaseHalf := hphase.cast
  generalize hn : ((shadow - ⌊p.predict.posEstimateCounts⌋ : Int) : K) = n at hlinear hphaseHalf
  have hmoved : d = currentMeasPeriod * p.velEstimateCounts + currentMeasPeriod * c.pllKp * n := by
    rw [← hd]
    show p.posEstimateCounts + currentMeasPeriod * p.velEstimateCounts +
      currentMeasPeriod * c.pllKp *
        Estimator.phaseError e.shadowCount p.predict.posEstimateCounts - p.posEstimateCounts = _
    rw [hlinear]
    ring
  rw [hmoved] at hhalf
  obtain ⟨hnearLo, hnearHi⟩ := predicted_near hstable hphaseHalf hhalf hinCpr
  have hpredicted : p.predict.posEstimateCounts - p.predict.posCprCounts =
      p.posEstimateCounts - p.posCprCounts :=
    add_sub_add_right_eq_sub ..
  have hfed := feedback_eq (c := c) hcpr hin hholds hcounts (hpredicted ▸ hturns) hnearLo hnearHi
    hphase
  rw [hn] at hfed
  have hfedCpr : (p.predict.feedback c e).posCprCounts =
      Controller.fmodfPos (p.posCprCounts + currentMeasPeriod * p.velEstimateCounts +
        currentMeasPeriod * c.pllKp * n) e.cpr.toInt :=
    congrArg Estimator.posCprCounts hfed
  rw [hfedCpr, hmoved, add_assoc]

/-- **One update** keeps the positions together. -/
theorem Agree.update (hstable : c.Stable) (hrange : 0 < c.circularSetpointRange) {analog : Analog}
    (hcpr : s.counted.encoder.cpr.toInt < 2 ^ 30) (h : Agree c offset lag s)
    (hret : (s.counted.encoder.update analog).1 = true)
    (hcoherent : Coherent s.counted (s.counted.step (.update analog)))
    (hfollows : Follows s (s.step c (.update analog))) :
    Agree c offset lag (s.step c (.update analog)) := by
  obtain ⟨hphase, hturn⟩ := hfollows
  have hframe : (s.step c (.update analog)).counted.encoder.cpr = s.counted.encoder.cpr :=
    (step_frame s.counted (.update analog)).2
  have hestimator : (s.step c (.update analog)).estimator =
      s.estimator.update c (s.step c (.update analog)).counted.encoder
        ((s.counted.encoder.deltaEnc analog).1.getD 0) := if_pos hret
  have hin : InCpr (s.step c (.update analog)).counted.encoder := hcoherent.inCpr
  have hholds : (s.step c (.update analog)).counted.Holds := hcoherent.holds
  have hcounts : s.counted.encoder.cpr.toInt ∣ ((s.step c (.update analog)).counted.shadow -
      (s.step c (.update analog)).counted.encoder.countInCpr.toInt) - offset := by
    have hsum := dvd_add hcoherent.congr h.counts
    rwa [sub_add_sub_cancel] at hsum
  generalize s.step c (.update analog) = t at *
  have hfields := estimator_update c t.counted.encoder
    ((s.counted.encoder.deltaEnc analog).1.getD 0) s.estimator
  rw [← hestimator] at hfields
  obtain ⟨hpos, hposCpr, hestimate, hestimateCpr, hcircular⟩ := hfields
  obtain ⟨-, hinCpr, hturns, hestimate₀, hestimateCpr₀, hinRange, hcircular₀⟩ := h
  rw [← hframe] at hinCpr hturns hestimate₀ hestimateCpr₀ hcounts hcpr
  rw [← hpos] at hestimate
  have hCpos : (0 : K) < t.counted.encoder.cpr.toInt := hinCpr.1.trans_lt hinCpr.2
  -- what the linear loop moves by, in counts
  generalize hd : t.estimator.posEstimateCounts - s.estimator.posEstimateCounts = d
  have hmove : t.estimator.posEstimateCounts = s.estimator.posEstimateCounts + d := by
    rw [← hd, add_sub_cancel]
  have hdiff : t.estimator.posEstimate - s.estimator.posEstimate =
      d / t.counted.encoder.cpr.toInt := by
    rw [hestimate, hestimate₀, ← sub_div, hd]
  have hhalf : -(t.counted.encoder.cpr.toInt : K) ≤ 2 * d ∧
      2 * d < t.counted.encoder.cpr.toInt := by
    rw [hdiff, mul_div_assoc', le_div_iff₀ hCpos, div_lt_iff₀ hCpos] at hturn
    exact ⟨by linarith [hturn.1], by linarith [hturn.2]⟩
  have hmoveCpr := fed_together hstable hcpr hin hholds hcounts hinCpr hturns hphase
    (hpos ▸ hd) hhalf
  rw [← hposCpr] at hmoveCpr
  rw [← hposCpr, hmoveCpr, hestimateCpr₀, wrapPm_turn hCpos hhalf, ← hdiff] at hcircular
  refine ⟨hcounts, ?_, ?_, hestimate, ?_, ?_, ?_⟩
  · rw [hmoveCpr]
    exact fmodfPos_mem _ hCpos
  · have hsum := (fmodfPos_modEq (s.estimator.posCprCounts + d) hCpos).sub_left
      (s.estimator.posEstimateCounts + d)
    rw [add_sub_add_right_eq_sub] at hsum
    rw [hmoveCpr, hmove]
    exact hsum.trans hturns
  · rw [hestimateCpr, hposCpr]
  · rw [hcircular]
    exact fmodfPos_mem _ hrange
  · have hsum := (fmodfPos_modEq (s.estimator.posCircular +
      (t.estimator.posEstimate - s.estimator.posEstimate)) hrange).trans
        (hcircular₀.add_right (t.estimator.posEstimate - s.estimator.posEstimate))
    rw [add_right_comm, add_sub_cancel] at hsum
    rw [hcircular]
    exact hsum

omit [IsStrictOrderedRing K] in
/-- Samples, and updates that are refused, change neither the counts nor the estimates. -/
theorem step_same {r : Reading}
    (h : ∀ analog, r = .update analog → (s.counted.encoder.update analog).1 = false) :
    (s.step c r).counted.encoder.countInCpr = s.counted.encoder.countInCpr ∧
      (s.step c r).counted.shadow = s.counted.shadow ∧ (s.step c r).estimator = s.estimator := by
  cases r with
  | timer cnt =>
    refine ⟨?_, rfl, rfl⟩
    simp only [Observed.step, Counted.step, sampleNow, setError]
    split <;> rfl
  | hall hallState => exact ⟨rfl, rfl, rfl⟩
  | absWord rawVal =>
    refine ⟨?_, rfl, rfl⟩
    simp only [Observed.step, Counted.step, absSpiCb, setError, latchPos]
    split <;> (try split) <;> rfl
  | update analog =>
    have hret := h analog rfl
    obtain ⟨hincrement, -, hcount⟩ := update_refused hret
    refine ⟨hcount, ?_, if_neg (by rw [hret]; exact Bool.false_ne_true)⟩
    show s.counted.shadow + s.counted.encoder.increment analog = _
    rw [hincrement, add_zero]

omit [IsStrictOrderedRing K] in
theorem Agree.same (h : Agree c offset lag s) {r : Reading}
    (hr : ∀ analog, r = .update analog → (s.counted.encoder.update analog).1 = false) :
    Agree c offset lag (s.step c r) := by
  obtain ⟨hcount, hshadow, hestimator⟩ := step_same (c := c) hr
  have hcpr : (s.step c r).counted.encoder.cpr = s.counted.encoder.cpr :=
    (step_frame s.counted r).2
  obtain ⟨hcounts, hinCpr, hturns, hestimate, hestimateCpr, hinRange, hcircular⟩ := h
  constructor
  · rwa [hcpr, hshadow, hcount]
  · rwa [hestimator, hcpr]
  · rwa [hestimator, hcpr]
  · rwa [hestimator, hcpr]
  · rwa [hestimator, hcpr]
  · rwa [hestimator]
  · rwa [hestimator]

end Update

/-! ## Runs -/

variable [IsStrictOrderedRing K] {c : EstimatorConfig K} {s t : Observed K} {rs : List Reading}
  {offset : Int} {lag : K}

/-- An encoder with all estimates at zero. -/
def Observed.zero : Observed ℚ where
  counted := Counted.zero .INCREMENTAL 8192
  estimator := ⟨0, 0, 0, 0, 0, 0, 0, 0, 0⟩

end Encoder

end WODrive
