import Mathlib.Data.NNReal.Basic
import WODrive.LowLevel.Freshness
import WODrive.Motor.CurrentControl

/-!
# What current control asks of the modulator (motor.cpp)

In exact arithmetic the modulator accepts whatever `FOC_current` asks for.

The limit is on the length of the modulation vector (`saturate_le`), before it is turned
back into the frame of the stator with a cosine and a sine that need not be exact
(`inversePark_sq`). Every vector within the inscribed circle of the modulator's hexagon is
accepted (`svm_of_sq_le`), and there is enough room between the two for `svm_saturate`. What
a call does follows (`focCurrent_cases`): it enqueues this vector's timings, or it reports a
measurement that is out of its limits.
-/

namespace WODrive.LowLevel.MotorError

/-- `ERROR_MODULATION_MAGNITUDE` is among the flags. -/
def modulationMagnitude (error : MotorError) : Bool := error.getLsbD 7

@[simp] theorem modulationMagnitude_or (e f : MotorError) :
    modulationMagnitude (e ||| f) = (modulationMagnitude e || modulationMagnitude f) :=
  BitVec.getLsbD_or

end WODrive.LowLevel.MotorError

namespace WODrive.Motor

open LowLevel

attribute [local instance] CFloat.exact

/-! ## What `SVM` is given -/

section

variable {x y limit : ℝ}

theorem sq_sqrt_add (x y : ℝ) : √(x * x + y * y) ^ 2 = x ^ 2 + y ^ 2 := by
  rw [Real.sq_sqrt (add_nonneg (mul_self_nonneg x) (mul_self_nonneg y)), sq, sq]

/-- A vector that is scaled down to a length has this length. -/
theorem scaled_sq (h : √(x * x + y * y) ≠ 0) :
    (x * (limit / √(x * x + y * y))) ^ 2 + (y * (limit / √(x * x + y * y))) ^ 2 = limit ^ 2 := by
  rw [mul_pow, mul_pow, ← add_mul, ← sq_sqrt_add, ← mul_pow, mul_div_cancel₀ _ h]

/-- A vector that is not is not longer. -/
theorem unscaled_sq_le
    (h : ¬ (√(x * x + y * y) ≠ 0 ∧ limit / √(x * x + y * y) < 1)) :
    x ^ 2 + y ^ 2 ≤ limit ^ 2 := by
  rw [← sq_sqrt_add]
  rcases eq_or_lt_of_le (Real.sqrt_nonneg (x * x + y * y)) with hzero | hpos
  · rw [← hzero, zero_pow two_ne_zero]
    exact sq_nonneg limit
  · have hscale : 1 ≤ limit / √(x * x + y * y) := not_lt.mp fun hlt => h ⟨hpos.ne', hlt⟩
    exact pow_le_pow_left₀ hpos.le ((one_le_div hpos).mp hscale) 2

end

/-- The modulation vector is not longer than the scale factor allows. -/
theorem saturate_le (vbusVoltage Vd Vq : ℝ) :
    (saturate sqrt3 Real.sqrt vbusVoltage Vd Vq).2.1 ^ 2 +
        (saturate sqrt3 Real.sqrt vbusVoltage Vd Vq).2.2 ^ 2 ≤
      (0.80 * sqrt3.sqrt3By2) ^ 2 := by
  unfold saturate
  simp only [ofNat_zero_exact, ofNat_one_exact, mul_one, bne_iff_ne]
  split
  next h => exact (scaled_sq h.1).le
  next h => exact unscaled_sq_le h

/-- A rotation, up to the length of what should be a unit vector. -/
theorem inversePark_sq (c s modD modQ : ℝ) :
    (inversePark c s modD modQ).1 ^ 2 + (inversePark c s modD modQ).2 ^ 2 =
      (c ^ 2 + s ^ 2) * (modD ^ 2 + modQ ^ 2) := by
  unfold inversePark
  ring

/-- The inscribed circle of the hexagon. -/
theorem svm_of_sq_le {alpha beta : ℝ} (h : alpha ^ 2 + beta ^ 2 ≤ 3 / 4) :
    (svm sqrt3 alpha beta).1 = 0 := by
  rw [svm_eq_zero_iff_max oneBySqrt3_pos twoBySqrt3_eq]
  have hk := three_mul_oneBySqrt3_sq
  set k := sqrt3.oneBySqrt3
  refine max_le (max_le ?_ ?_) ?_ <;> rw [← sq_le_one_iff_abs_le_one]
  -- Cauchy and Schwarz, with the squares that are left over
  · nlinarith [sq_nonneg (k * alpha + beta)]
  · nlinarith [sq_nonneg (k * alpha - beta)]
  · nlinarith [sq_nonneg alpha]

/-- The limit on the length leaves room for a cosine and a sine that are a quarter too
long. -/
theorem svm_saturate (vbusVoltage Vd Vq : ℝ) {c s : ℝ} (hcs : c ^ 2 + s ^ 2 ≤ 25 / 16) :
    let mod := saturate sqrt3 Real.sqrt vbusVoltage Vd Vq
    let stator := inversePark c s mod.2.1 mod.2.2
    (svm sqrt3 stator.1 stator.2).1 = 0 := by
  intro mod stator
  have hsqrt3 : sqrt3.sqrt3By2 ^ 2 = 3 / 4 := by
    show (√3 / 2) ^ 2 = 3 / 4
    rw [div_pow, Real.sq_sqrt (by norm_num)]
    norm_num
  have hmod : mod.2.1 ^ 2 + mod.2.2 ^ 2 ≤ 16 / 25 * (3 / 4) := by
    have h := saturate_le vbusVoltage Vd Vq
    rw [mul_pow, hsqrt3] at h
    calc mod.2.1 ^ 2 + mod.2.2 ^ 2 ≤ 0.80 ^ 2 * (3 / 4) := h
      _ = 16 / 25 * (3 / 4) := by norm_num
  apply svm_of_sq_le
  rw [inversePark_sq]
  calc (c ^ 2 + s ^ 2) * (mod.2.1 ^ 2 + mod.2.2 ^ 2)
      ≤ 25 / 16 * (16 / 25 * (3 / 4)) :=
        mul_le_mul hcs hmod (by positivity) (by norm_num)
    _ = 3 / 4 := by norm_num

/-! ## What becomes of the timings -/

/-- A part of the period is converted to a part of its clocks. -/
theorem toClocks_exact {t : ℝ} (h : t ∈ Set.Icc (0 : ℝ) 1) :
    (toClocks t).toNat = ⌊t * tim18PeriodClocks.toNat⌋₊ ∧ toClocks t ≤ tim18PeriodClocks := by
  have hfloor : ⌊t * tim18PeriodClocks.toNat⌋₊ ≤ tim18PeriodClocks.toNat := by
    apply Nat.floor_le_of_le
    exact mul_le_of_le_one_left (Nat.cast_nonneg _) h.2
  have hlt : tim18PeriodClocks.toNat < 2 ^ 16 := tim18PeriodClocks.isLt
  have hnonneg : 0 ≤ t * tim18PeriodClocks.toNat := mul_nonneg h.1 (Nat.cast_nonneg _)
  have htoInt : CFloat.toInt (t * CFloat.ofNat tim18PeriodClocks.toNat) =
      (⌊t * tim18PeriodClocks.toNat⌋₊ : Int) := by
    rw [Int.natCast_floor_eq_floor hnonneg]
    exact if_neg hnonneg.not_gt
  have heq : (toClocks t).toNat = ⌊t * tim18PeriodClocks.toNat⌋₊ := by
    unfold toClocks
    rw [htoInt, BitVec.ofInt_natCast, BitVec.toNat_ofNat, Nat.mod_eq_of_lt (hfloor.trans_lt hlt)]
  refine ⟨heq, ?_⟩
  rw [BitVec.le_def, heq]
  exact hfloor

/-- The timings that `SVM` accepts are converted to timings within the period. -/
theorem withinPeriod_exact {alpha beta : ℝ} (h : (svm sqrt3 alpha beta).1 = 0) :
    WithinPeriod (svm sqrt3 alpha beta).2.toTimings := by
  obtain ⟨hA, hB, hC⟩ := valid_exact.mp ((svm_eq_zero_iff _ _ _).mp h)
  exact ⟨(toClocks_exact hA).2, (toClocks_exact hB).2, (toClocks_exact hC).2⟩

/-- Whatever goes wrong with the brake resistor, it is not the modulation. -/
theorem updateBrakeCurrent_modulationMagnitude (brake : BrakeCurrent) (low : LowLevel.State)
    (i : Fin axisCount) :
    ((updateBrakeCurrent brake low).motors i).error.modulationMagnitude =
      (low.motors i).error.modulationMagnitude := by
  have hfault : ∀ error : MotorError, error.modulationMagnitude = false →
      ((lowLevelFault error low).motors i).error.modulationMagnitude =
        (low.motors i).error.modulationMagnitude := by
    intro error herror
    rw [lowLevelFault_motors_eq]
    simp [herror]
  cases brake with
  | dutyNan => exact hfault .ERROR_BRAKE_DUTY_CYCLE_NAN (by decide +kernel)
  | overCurrent => exact hfault .ERROR_DC_BUS_OVER_CURRENT (by decide +kernel)
  | overRegenCurrent => exact hfault .ERROR_DC_BUS_OVER_REGEN_CURRENT (by decide +kernel)
  | highOn highOn =>
    have happly : ∀ lowOff, ((safetyCriticalApplyBrakeResistorTimings lowOff highOn low).motors
        i).error.modulationMagnitude = (low.motors i).error.modulationMagnitude := by
      intro lowOff
      unfold safetyCriticalApplyBrakeResistorTimings
      rw [writeBrakeResistorTimings_motors]
      split
      · exact hfault .ERROR_BRAKE_DEADTIME_VIOLATION (by decide +kernel)
      · rfl
    exact happly _

theorem setError_modulationMagnitude (m : Fin axisCount) {error : MotorError}
    (herror : error.modulationMagnitude = false) (brake : BrakeCurrent) (s : Control)
    (i : Fin axisCount) :
    ((LowLevel.setError m error brake s).low.motors i).error.modulationMagnitude =
      (s.low.motors i).error.modulationMagnitude := by
  show ((updateBrakeCurrent brake _).motors i).error.modulationMagnitude = _
  rw [updateBrakeCurrent_modulationMagnitude]
  unfold setMotorError safetyCriticalDisarmMotorPwm
  by_cases him : i = m
  · subst him
    simp [herror]
  · rw [updateMotor_other _ him, updateMotor_other _ him]

/-- Timings that are accepted are in the slot afterwards, and no error is raised. -/
theorem Drive.enqueue_exact {modAlpha modBeta : ℝ} (h : (svm sqrt3 modAlpha modBeta).1 = 0)
    (d : Drive ℝ) :
    (d.enqueueModulationTimings sqrt3 modAlpha modBeta).1 = true ∧
      (d.enqueueModulationTimings sqrt3 modAlpha modBeta).2.power.control =
        d.power.control.setNext d.axisNum fun _ =>
          ⟨(svm sqrt3 modAlpha modBeta).2.toTimings, true⟩ := by
  have haccepted : ¬(svm sqrt3 modAlpha modBeta).1 ≠ 0 := not_not_intro h
  rw [enqueueModulationTimings, if_neg haccepted, Power.enqueueModulationTimings]
  simp only [if_neg haccepted, and_self]

section

variable (f : Functions ℝ) (hsqrt : f.sqrtf = Real.sqrt) {pwmPhase : ℝ}
  (hcs : f.ourArmCosF32 pwmPhase ^ 2 + f.ourArmSinF32 pwmPhase ^ 2 ≤ 25 / 16)

include hsqrt hcs

/-- Once the current is within its limits, timings are enqueued. -/
theorem Drive.applyCurrentControl_exact {I stator : ℝ × ℝ} {IdDes IqDes : ℝ}
    {mod : Bool × ℝ × ℝ} {d : Drive ℝ}
    (hmod : d.modulation sqrt3 f (IdDes - I.1, IqDes - I.2) = mod)
    (hstator : inversePark (f.ourArmCosF32 pwmPhase) (f.ourArmSinF32 pwmPhase) mod.2.1 mod.2.2 =
      stator) :
    (svm sqrt3 stator.1 stator.2).1 = 0 ∧
      (d.applyCurrentControl sqrt3 f I IdDes IqDes pwmPhase).1 = true ∧
      (d.applyCurrentControl sqrt3 f I IdDes IqDes pwmPhase).2.power.control =
        d.power.control.setNext d.axisNum fun _ =>
          ⟨(svm sqrt3 stator.1 stator.2).2.toTimings, true⟩ := by
  have haccepted : (svm sqrt3 stator.1 stator.2).1 = 0 := by
    rw [← hstator, ← hmod, modulation, hsqrt]
    exact svm_saturate d.power.bus.vbusVoltage _ _ hcs
  obtain ⟨htrue, hcontrol⟩ :=
    (d.storeModulation I (IdDes - I.1, IqDes - I.2) mod stator).enqueue_exact haccepted
  refine ⟨haccepted, ?_, ?_⟩
  · simp only [applyCurrentControl, hmod, hstator]
    rw [fst_of_enqueued, htrue]
  · simp only [applyCurrentControl, hmod, hstator, snd_of_enqueued htrue, report_power, hcontrol,
      storeModulation_control, storeModulation_axisNum]

/-- What a call does to the errors and to the timings. -/
theorem Drive.focCurrent_cases (IdDes IqDes IPhase : ℝ) (d : Drive ℝ) :
    let I := d.park sqrt3 f IPhase
    let mod := d.modulation sqrt3 f (IdDes - I.1, IqDes - I.2)
    let stator :=
      inversePark (f.ourArmCosF32 pwmPhase) (f.ourArmSinF32 pwmPhase) mod.2.1 mod.2.2
    let result := d.focCurrent sqrt3 f IdDes IqDes IPhase pwmPhase
    (∃ error : MotorError, error.modulationMagnitude = false ∧ result.1 = false ∧
      result.2.power.control = (d.power.setError d.axisNum error).control) ∨
    (svm sqrt3 stator.1 stator.2).1 = 0 ∧ result.1 = true ∧
      result.2.power.control = d.power.control.setNext d.axisNum fun _ =>
        ⟨(svm sqrt3 stator.1 stator.2).2.toTimings, true⟩ := by
  intro I mod stator result
  unfold result focCurrent
  dsimp only
  split
  · exact .inl ⟨.ERROR_CURRENT_SENSE_SATURATION, by decide +kernel, rfl, rfl⟩
  · split
    · exact .inl ⟨.ERROR_CURRENT_LIMIT_VIOLATION, by decide +kernel, rfl, rfl⟩
    · exact .inr (applyCurrentControl_exact f hsqrt hcs rfl rfl)

end

/-- **Current control never trips the modulator.** The vector that is left by the saturation and
the rotation is accepted by `SVM`, and this is what `FOC_current` hands on: it enqueues the
vector's timings, or it stops with another error. -/
theorem focCurrent_never_trips :
    (∀ vbusVoltage Vd Vq c s : ℝ, 0 < vbusVoltage → c ^ 2 + s ^ 2 ≤ 25 / 16 →
      let mod := saturate sqrt3 Real.sqrt vbusVoltage Vd Vq
      let stator := inversePark c s mod.2.1 mod.2.2
      let sv := svm sqrt3 stator.1 stator.2
      sv.1 = 0 ∧ ∀ t ∈ [sv.2.tA, sv.2.tB, sv.2.tC],
        (toClocks t).toNat = ⌊t * tim18PeriodClocks.toNat⌋₊ ∧ toClocks t ≤ tim18PeriodClocks) ∧
    ∀ (f : Functions ℝ) (d : Drive ℝ) (IdDes IqDes IPhase pwmPhase : ℝ),
      f.sqrtf = Real.sqrt → 0 < d.power.bus.vbusVoltage →
      f.ourArmCosF32 pwmPhase ^ 2 + f.ourArmSinF32 pwmPhase ^ 2 ≤ 25 / 16 →
      let I := d.park sqrt3 f IPhase
      let mod := d.modulation sqrt3 f (IdDes - I.1, IqDes - I.2)
      let stator :=
        inversePark (f.ourArmCosF32 pwmPhase) (f.ourArmSinF32 pwmPhase) mod.2.1 mod.2.2
      let result := d.focCurrent sqrt3 f IdDes IqDes IPhase pwmPhase
      (∀ i, (result.2.power.control.low.motors i).error.modulationMagnitude =
        (d.power.control.low.motors i).error.modulationMagnitude) ∧
      (result.1 = true →
        result.2.power.control.next d.axisNum =
          ⟨(svm sqrt3 stator.1 stator.2).2.toTimings, true⟩ ∧
        WithinPeriod (svm sqrt3 stator.1 stator.2).2.toTimings) ∧
      (result.1 = false → ∃ error : MotorError, error.modulationMagnitude = false ∧
        result.2.power.control = (d.power.setError d.axisNum error).control) := by
  constructor
  · intro vbusVoltage Vd Vq c s _ hcs mod stator sv
    have haccepted : sv.1 = 0 := svm_saturate vbusVoltage Vd Vq hcs
    obtain ⟨hA, hB, hC⟩ := valid_exact.mp ((svm_eq_zero_iff _ _ _).mp haccepted)
    refine ⟨haccepted, fun t ht => toClocks_exact ?_⟩
    simp only [List.mem_cons, List.not_mem_nil, or_false] at ht
    obtain rfl | rfl | rfl := ht
    · exact hA
    · exact hB
    · exact hC
  · intro f d IdDes IqDes IPhase pwmPhase hsqrt _ hcs I mod stator result
    obtain ⟨error, herror, hfalse, hcontrol⟩ | ⟨haccepted, htrue, hcontrol⟩ :
        (∃ error : MotorError, error.modulationMagnitude = false ∧ result.1 = false ∧
          result.2.power.control = (d.power.setError d.axisNum error).control) ∨
        (svm sqrt3 stator.1 stator.2).1 = 0 ∧ result.1 = true ∧
          result.2.power.control = d.power.control.setNext d.axisNum fun _ =>
            ⟨(svm sqrt3 stator.1 stator.2).2.toTimings, true⟩ :=
      Drive.focCurrent_cases f hsqrt hcs IdDes IqDes IPhase d
    · refine ⟨fun i => ?_, fun htrue => ?_, fun _ => ⟨error, herror, hcontrol⟩⟩
      · rw [hcontrol]
        exact setError_modulationMagnitude d.axisNum herror _ d.power.control i
      · exact absurd (hfalse.symm.trans htrue) Bool.false_ne_true
    · refine ⟨fun i => ?_, fun _ => ⟨?_, withinPeriod_exact haccepted⟩, fun hfalse => ?_⟩
      · rw [hcontrol]
        rfl
      · rw [hcontrol]
        simp
      · exact absurd (hfalse.symm.trans htrue) Bool.false_ne_true

/-- At an angle of zero, on a bus of 24 V. -/
noncomputable def atZero : Functions ℝ where
  ourArmCosF32 _ := 1
  ourArmSinF32 _ := 0
  fmodf x _ := x
  sqrtf := Real.sqrt

/-- An armed motor without a current. -/
noncomputable def unloaded : Drive ℝ where
  axisNum := axis0
  power :=
    { control :=
        { low := ⟨true, 0, 4097, fun _ => ⟨.ARMED, 0, true, ⟨0, 0, 0⟩⟩⟩
          next := fun _ => ⟨⟨0, 0, 0⟩, false⟩ }
      bus := ⟨⟨0, 2, false, 0, 0, 100, -100⟩, 1, 24, 0, false, fun _ => 0⟩ }
  axisError := 0
  config := ⟨some .HIGH_CURRENT, 10, 8, 0.04, 1, 14.706, 10, 10, false, 10, 1⟩
  currentMeas := ⟨0, 0⟩
  ictrl := ⟨1, 1, 0, 0, 0, 0, 0, 0, 0, 0, 1, 60, 66, 0, 0, 0⟩
  effectiveCurrentLim := 10
  currentLimiters := []
  timingLog := fun _ => 0
  htim13Cnt := 0
  capture := ⟨false, false, fun _ => 0, 0⟩

/-- A voltage and a current far beyond what the modulator can do. -/
theorem focCurrent_never_trips_at_zero :
    (let mod := saturate sqrt3 Real.sqrt 24 100 50
      let stator := inversePark 1 0 mod.2.1 mod.2.2
      (svm sqrt3 stator.1 stator.2).1 = 0) ∧
    let result := unloaded.focCurrent sqrt3 atZero 0 100 0 0
    result.1 = true ∧ (result.2.power.control.next axis0).valid = true := by
  obtain ⟨hvector, hcall⟩ := focCurrent_never_trips
  refine ⟨(hvector 24 100 50 1 0 (by norm_num) (by norm_num)).1, ?_⟩
  intro result
  have hvoltage : (0 : ℝ) < unloaded.power.bus.vbusVoltage := by
    show (0 : ℝ) < 24
    norm_num
  have hcs : atZero.ourArmCosF32 0 ^ 2 + atZero.ourArmSinF32 0 ^ 2 ≤ 25 / 16 := by
    show (1 : ℝ) ^ 2 + 0 ^ 2 ≤ 25 / 16
    norm_num
  obtain ⟨-, haccepted, -⟩ := hcall atZero unloaded 0 100 0 0 rfl hvoltage hcs
  have htrue : result.1 = true := by
    unfold result Drive.focCurrent
    dsimp only
    rw [if_neg, if_neg]
    · exact (Drive.applyCurrentControl_exact atZero rfl hcs rfl rfl).2.1
    · -- there is no current
      refine not_lt_of_ge (le_trans (le_of_eq ?_) (mul_self_nonneg _))
      norm_num [Drive.park, Drive.clarke, unloaded]
    · norm_num [CFloat.abs, unloaded]
  exact ⟨htrue, congrArg NextTimings.valid (haccepted htrue).1⟩

end WODrive.Motor
