import Mathlib.Algebra.Order.Floor.Semiring
import Mathlib.Data.Rat.Floor
import Mathlib.Tactic.FieldSimp
import Mathlib.Tactic.Linarith
import WODrive.Controller.Model
import WODrive.Library.Failing

/-!
# The lookup in the cogging map (MotorControl/controller.cpp)

The calibration records entry `i` at the position of `i` steps, `i * getCoggingRatio()`
turns. `update` looks up the entry of a reference position: of the encoder's estimate, in
steps, or of the setpoint of a trajectory, which it takes as it is, in turns.

- `coggingIndex_eq`: the entry that is looked up, in terms of the position;
- `near_iff`: an entry is within a step of a position;
- `lookup_iff`: when the entry that is added belongs to the reference position.
-/

namespace WODrive.Controller

universe u

variable {K : Type u} [Field K] [LinearOrder K] [FloorRing K]

/-! ## What `update` looks up -/

/-- The controller after the calibration, where it is active, and the wrapping of the input
position: as the inputs are read. -/
def prepared (i : Inputs K) (c : Controller K) : Controller K :=
  wrapInputPos
    (if c.config.anticogging.calibAnticogging then (anticoggingCalibration i c).2 else c)

/-- The position setpoint of a trajectory that is not done. -/
def trajectoryPos (sqrtf : K → K) (i : Inputs K) (c : Controller K) : Option K :=
  let c := planInputPos sqrtf i (prepared i c)
  if c.config.inputMode = .TRAP_TRAJ ∧ ¬c.trajectoryDone then
    some (if c.trapTrajT > c.trapTraj.Tf then c.inputPos
      else (Trajectory.eval c.trapTraj c.trapTrajT).Y)
  else none

/-- The reference position: the setpoint of the trajectory, or the encoder's estimate. -/
def referencePos (sqrtf : K → K) (i : Inputs K) (c : Controller K) : K :=
  (trajectoryPos sqrtf i c).getD i.encoder.posEstimate

theorem calibrate_eq_ok {i : Inputs K} {c c' : Controller K} (h : calibrate i c = .ok c') :
    wrapInputPos c' = prepared i c := by
  unfold calibrate at h
  unfold prepared
  split at h
  next hcalib =>
    rw [if_pos hcalib]
    split at h
    · cases h
    · cases h
      rfl
  next hcalib =>
    cases h
    rw [if_neg hcalib]

omit [FloorRing K] in
theorem config_planInputPos (sqrtf : K → K) (i : Inputs K) (c : Controller K) :
    (planInputPos sqrtf i c).config = c.config := by
  unfold planInputPos
  split
  · rfl
  · rfl

omit [FloorRing K] in
theorem posSetpoint_followTrajectory (c : Controller K) :
    (followTrajectory c).posSetpoint =
      if c.trapTrajT > c.trapTraj.Tf then c.inputPos
      else (Trajectory.eval c.trapTraj c.trapTrajT).Y := by
  unfold followTrajectory
  split
  · rfl
  · rfl

/-- The position of the anticogging, as the inputs leave it. -/
theorem updateInputs_pos {sqrtf : K → K} {i : Inputs K} {c c' : Controller K}
    {anticoggingPos pos : K}
    (h : updateInputs sqrtf i anticoggingPos (prepared i c) = .ok (pos, c')) :
    pos = (trajectoryPos sqrtf i c).getD anticoggingPos := by
  simp only [trajectoryPos, config_planInputPos]
  unfold updateInputs at h
  cases hmode : (prepared i c).config.inputMode with
  | TRAP_TRAJ =>
    simp only [hmode] at h
    split at h
    next hdone =>
      cases h
      simp [hdone]
    next hdone =>
      cases h
      simp [hdone, posSetpoint_followTrajectory]
  | MIRROR =>
    simp only [hmode] at h
    split at h
    · cases h
      simp
    · cases h
  | INACTIVE | PASSTHROUGH | VEL_RAMP | POS_FILTER | TORQUE_RAMP =>
    simp only [hmode] at h
    cases h
    simp
  | MIX_CHANNELS | unknown =>
    simp only [hmode] at h
    cases h

/-- The entry that `update` adds is that of the reference position, which is taken in steps
if it is the encoder's and in turns if it is that of a trajectory. -/
theorem coggedEntry_update {sqrtf : K → K} {i : Inputs K} {c c' : Controller K} {out : Output K}
    {entry : Nat} (hupdate : update sqrtf i c = .ok (out, c')) (hcogged : out.cogged = some entry) :
    entry = coggingIndex
      ((trajectoryPos sqrtf i c).getD (i.encoder.posEstimate / coggingRatio)) := by
  unfold update at hupdate
  obtain ⟨c₁, hcalibrate, hupdate⟩ := exists_of_bind_eq_ok hupdate
  obtain ⟨⟨pos, c₂⟩, hinputs, hupdate⟩ := exists_of_bind_eq_ok hupdate
  obtain ⟨⟨velDes, multiplier, c₃⟩, -, hupdate⟩ := exists_of_bind_eq_ok hupdate
  obtain ⟨c₄, -, hupdate⟩ := exists_of_bind_eq_ok hupdate
  obtain ⟨⟨vErr, torque⟩, -, hupdate⟩ := exists_of_bind_eq_ok hupdate
  obtain ⟨torque, -, hupdate⟩ := exists_of_bind_eq_ok hupdate
  cases hupdate
  rw [calibrate_eq_ok hcalibrate] at hinputs
  rw [← updateInputs_pos hinputs]
  change coggedEntry pos c₄ = some entry at hcogged
  unfold coggedEntry at hcogged
  split at hcogged
  · exact (Option.some.inj hcogged).symm
  · cases hcogged

/-! ## The entry of a position -/

variable [IsStrictOrderedRing K]

theorem abs_sub_truncate_lt (x : K) : |x - truncate x| < 1 := by
  unfold truncate
  rw [abs_lt]
  split
  · have hle := Int.le_ceil x
    have hlt := Int.ceil_lt_add_one x
    constructor <;> linarith
  · have hle := Int.floor_le x
    have hlt := Int.lt_floor_add_one x
    constructor <;> linarith

/-- The conversion goes towards zero. -/
theorem abs_truncate_le (x : K) : |(truncate x : K)| ≤ |x| := by
  unfold truncate
  split
  next hneg =>
    have hle := Int.le_ceil x
    have hceil : (⌈x⌉ : K) ≤ 0 := by
      exact_mod_cast Int.ceil_le.mpr (by simpa using hneg.le)
    rw [abs_of_nonpos hceil, abs_of_neg hneg]
    linarith
  next hneg =>
    have hpos : 0 ≤ x := not_lt.mp hneg
    have hle := Int.floor_le x
    have hfloor : (0 : K) ≤ (⌊x⌋ : K) := by
      exact_mod_cast Int.floor_nonneg.mpr hpos
    rw [abs_of_nonneg hfloor, abs_of_nonneg hpos]
    exact hle

/-- The entry that is looked up: the whole steps, modulo the size of the map. -/
theorem coggingIndex_eq {pos : K} (hpos : |pos| < 2 ^ 31) :
    (coggingIndex pos : Int) = truncate pos % coggingMapSize := by
  have hlt : |(truncate pos : K)| < ((2 ^ 31 : Int) : K) := by
    rw [Int.cast_pow, Int.cast_ofNat]
    exact (abs_truncate_le pos).trans_lt hpos
  have hbounds : |truncate pos| < 2 ^ 31 := by
    rw [← Int.cast_abs] at hlt
    exact_mod_cast hlt
  rw [abs_lt] at hbounds
  have hint : (BitVec.ofInt 32 (truncate pos)).toInt = truncate pos := by
    rw [BitVec.toInt_ofInt]
    exact Int.bmod_eq_of_le (by omega) (by omega)
  have hmod : (Encoder.mod (BitVec.ofInt 32 (truncate pos)) coggingMapSize).toInt =
      (BitVec.ofInt 32 (truncate pos)).toInt % 3600 := Encoder.toInt_mod _ (by decide)
  rw [hint] at hmod
  simp only [coggingIndex, hmod]
  change ((max 0 (min (truncate pos % 3600) 3600)).toNat : Int) = truncate pos % 3600
  omega

/-- An entry that is a number of steps modulo a turn is within a step of a position. -/
theorem near_iff (x : K) {entry : Nat} {t : Int} (hentry : (entry : Int) = t % 3600) :
    (∃ n : Int, |x - entry / 3600 - n| < 1 / 3600) ↔
      ∃ n : Int, |3600 * x - t - 3600 * n| < 1 := by
  have hcast : (entry : K) = t - 3600 * (t / 3600 : Int) := by
    have hint : (entry : Int) = t - 3600 * (t / 3600) := by
      rw [hentry, Int.emod_def]
    exact_mod_cast congrArg (Int.cast (R := K)) hint
  have hstep : ∀ n : Int, |x - entry / 3600 - n| < 1 / 3600 ↔
      |3600 * x - t - 3600 * ((n - t / 3600 : Int) : K)| < 1 := by
    intro n
    have hscale : 3600 * x - t - 3600 * ((n - t / 3600 : Int) : K) =
        3600 * (x - entry / 3600 - n) := by
      rw [hcast, Int.cast_sub]
      ring
    have hbig : |(3600 : K)| = 3600 := abs_of_pos (by norm_num)
    rw [hscale, abs_mul, hbig, lt_div_iff₀' (by norm_num)]
  constructor
  · rintro ⟨n, hn⟩
    exact ⟨n - t / 3600, (hstep n).mp hn⟩
  · rintro ⟨n, hn⟩
    refine ⟨n + t / 3600, (hstep _).mpr ?_⟩
    rwa [Int.add_sub_cancel]

/-- **Anticogging lookup.** The entry that `update` adds was calibrated within one step of
the reference position exactly if that is the encoder's estimate, or its whole turns are, by
chance, its steps. -/
theorem lookup_iff {sqrtf : K → K} {i : Inputs K} {c c' : Controller K} {out : Output K}
    {entry : Nat} (hupdate : update sqrtf i c = .ok (out, c')) (hcogged : out.cogged = some entry)
    (hrange : |3600 * referencePos sqrtf i c| < 2 ^ 31) :
    (∃ n : Int, |referencePos sqrtf i c - entry / 3600 - n| < 1 / 3600) ↔
      trajectoryPos sqrtf i c = none ∨
        ∃ n : Int, |3600 * referencePos sqrtf i c - truncate (referencePos sqrtf i c) -
          3600 * n| < 1 := by
  have hentry := coggedEntry_update hupdate hcogged
  cases htraj : trajectoryPos sqrtf i c with
  | none =>
    have href : referencePos sqrtf i c = i.encoder.posEstimate := by
      rw [referencePos, htraj, Option.getD_none]
    rw [href] at hrange ⊢
    rw [htraj, Option.getD_none] at hentry
    have hsteps : i.encoder.posEstimate / coggingRatio = 3600 * i.encoder.posEstimate := by
      simp [coggingRatio, mul_comm]
    rw [hsteps] at hentry
    rw [near_iff _ (hentry ▸ coggingIndex_eq hrange)]
    refine iff_of_true ⟨0, ?_⟩ (.inl rfl)
    rw [Int.cast_zero, mul_zero, sub_zero]
    exact abs_sub_truncate_lt _
  | some x =>
    have href : referencePos sqrtf i c = x := by
      rw [referencePos, htraj, Option.getD_some]
    rw [href] at hrange ⊢
    rw [htraj, Option.getD_some] at hentry
    have hle : |x| ≤ |3600 * x| := by
      rw [abs_mul]
      have hnonneg := abs_nonneg x
      have hbig : |(3600 : K)| = 3600 := abs_of_pos (by norm_num)
      rw [hbig]
      linarith
    rw [near_iff x (hentry ▸ coggingIndex_eq (hle.trans_lt hrange))]
    exact ⟨.inr, fun h => h.resolve_left nofun⟩

/-! ## At the end of a trajectory -/

/-- A controller at the end of a trajectory to half a turn, with a calibrated map. -/
def atHalfTurn : Controller ℚ where
  config :=
    { controlMode := .POSITION_CONTROL
      inputMode := .TRAP_TRAJ
      posGain := 20
      velGain := 1 / 6
      velIntegratorGain := 1 / 3
      velLimit := 2
      velLimitTolerance := 6 / 5
      velRampRate := 1
      torqueRampRate := 1 / 100
      circularSetpoints := false
      circularSetpointRange := 1
      inertia := 0
      homingSpeed := 1 / 4
      anticogging :=
        { index := 0
          coggingMap := Vector.replicate coggingMapSize 0
          calibAnticogging := false
          calibPosThreshold := 1
          calibVelThreshold := 1
          anticoggingEnabled := true }
      gainSchedulingWidth := 10
      enableGainScheduling := false
      enableVelLimit := true
      enableOverspeedError := true
      enableCurrentModeVelLimit := true
      axisToMirror := 255
      mirrorRatio := 1
      loadEncoderAxis := 0 }
  error := 0
  axisError := 0
  posEstimateLinearSrc := some 0
  posEstimateCircularSrc := some 0
  posEstimateValidSrc := some 0
  velEstimateSrc := some (.encoder 0)
  velEstimateValidSrc := some (.encoder 0)
  posSetpoint := 1 / 2
  velSetpoint := 0
  velIntegratorTorque := 0
  torqueSetpoint := 0
  inputPos := 1 / 2
  inputVel := 0
  inputTorque := 0
  inputFilterKp := 0
  inputFilterKi := 0
  inputPosUpdated := false
  trajectoryDone := false
  anticoggingValid := true
  trapTraj :=
    { Xi := 0, Xf := 1 / 2, Vi := 0, Ar := 2, Vr := 1, Dr := -2, Ta := 1 / 2, Tv := 0, Td := 1 / 2,
      Tf := 1, yAccel := 1 / 4 }
  trapTrajT := 2

/-- An encoder that has followed it. -/
def halfTurnInputs : Inputs ℚ where
  axes _ :=
    { posEstimate := 1 / 2
      posCircular := 1 / 2
      velEstimate := 0
      posEstimateValid := true
      velEstimateValid := true }
  axis := 0
  sensorlessVelEstimate := 0
  sensorlessVelEstimateValid := false
  cpr := 8192
  trapVelLimit := 2
  trapAccelLimit := 1 / 2
  trapDecelLimit := 1 / 2
  isAcim := false
  acimRotorFlux := 0
  acimGainMinFlux := 10
  maxAvailableTorque := 1

theorem referencePos_atHalfTurn : referencePos id halfTurnInputs atHalfTurn = 1 / 2 := by
  decide +kernel

theorem update_atHalfTurn :
    ∃ out c', update id halfTurnInputs atHalfTurn = .ok (out, c') ∧ out.cogged = some 0 := by
  have hrun : (update id halfTurnInputs atHalfTurn).toOption.map (fun r => r.1.cogged) =
      some (some 0) := by decide +kernel
  cases hupdate : update id halfTurnInputs atHalfTurn with
  | error c' =>
    rw [hupdate] at hrun
    cases hrun
  | ok r =>
    rw [hupdate] at hrun
    exact ⟨r.1, r.2, rfl, Option.some.inj hrun⟩

/-- The entry 0 is added at half a turn. -/
theorem lookup_iff_atHalfTurn :
    ∃ out c', update id halfTurnInputs atHalfTurn = .ok (out, c') ∧ out.cogged = some 0 ∧
      ((∃ n : Int, |referencePos id halfTurnInputs atHalfTurn - (0 : Nat) / 3600 - n| < 1 / 3600) ↔
        trajectoryPos id halfTurnInputs atHalfTurn = none ∨
          ∃ n : Int, |3600 * referencePos id halfTurnInputs atHalfTurn -
            truncate (referencePos id halfTurnInputs atHalfTurn) - 3600 * n| < 1) := by
  obtain ⟨out, c', hupdate, hcogged⟩ := update_atHalfTurn
  refine ⟨out, c', hupdate, hcogged, lookup_iff hupdate hcogged ?_⟩
  rw [referencePos_atHalfTurn]
  norm_num [abs_of_pos]

theorem not_lookup :
    ∃ out c', update id halfTurnInputs atHalfTurn = .ok (out, c') ∧ out.cogged = some 0 ∧
      |3600 * referencePos id halfTurnInputs atHalfTurn| < 2 ^ 31 ∧
      ¬∃ n : Int, |referencePos id halfTurnInputs atHalfTurn - (0 : Nat) / 3600 - n| <
        1 / 3600 := by
  obtain ⟨out, c', hupdate, hcogged⟩ := update_atHalfTurn
  refine ⟨out, c', hupdate, hcogged, ?_, ?_⟩
  · rw [referencePos_atHalfTurn]
    norm_num [abs_of_pos]
  · rw [referencePos_atHalfTurn]
    rintro ⟨n, hn⟩
    rw [abs_lt] at hn
    have hlow : 0 < n := by
      exact_mod_cast (by linarith [hn.2] : (0 : ℚ) < n)
    have hhigh : n < 1 := by
      exact_mod_cast (by linarith [hn.1] : (n : ℚ) < 1)
    omega

end WODrive.Controller
