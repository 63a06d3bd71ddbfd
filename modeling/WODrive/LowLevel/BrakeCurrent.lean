import WODrive.Library.CFloat
import WODrive.LowLevel.DeadTime

/-!
# The brake resistor's current (MotorControl/low_level.cpp)

`update_brake_current` adds up what the armed motors take from the DC bus and lets the brake
resistor take what they return beyond the regeneration allowed. It is written here for any
number type `F`, and used at two: in single precision, where readings may be NaN or
infinite, and in exact arithmetic.

- `brakeCurrent_safe`: in single precision it finds a fault, or a duty of which the timings
  keep the dead time, whatever it reads;
- `busCurrent_eq`: in exact arithmetic, what is left on the bus next to the resistor.
-/

namespace WODrive.LowLevel

universe u

/-! ## The function -/

section Function

variable {F : Type u} [Add F] [Sub F] [Mul F] [Div F] [Neg F] [LT F] [LE F] [DecidableLT F]
  [DecidableLE F] [BEq F] [OfScientific F] [CFloat F]

/-- What `update_brake_current` uses of `BoardConfig_t`. -/
structure BusConfig (F : Type u) where
  maxRegenCurrent : F
  brakeResistance : F
  enableDcBusOvervoltageRamp : Bool
  dcBusOvervoltageRampStart : F
  dcBusOvervoltageRampEnd : F
  dcMaxPositiveCurrent : F
  dcMaxNegativeCurrent : F

/-- The DC bus. -/
structure Bus (F : Type u) where
  config : BusConfig F
  /-- `odrv.ibus_report_filter_k_` -/
  ibusReportFilterK : F
  vbusVoltage : F
  /-- `ibus_` -/
  ibus : F
  brakeResistorSaturated : Bool
  /-- `axes[i]->motor_.current_control_.Ibus` -/
  motorIbus : Fin axisCount → F

/-- `Ibus_sum` before the brake resistor's share. -/
def Bus.motorSum (b : Bus F) (low : State) : F :=
  (List.finRange axisCount).foldl
    (fun sum i => if (low.motors i).armedState = .ARMED then sum + b.motorIbus i else sum)
    (CFloat.ofNat 0)

/-- The share of the duty that grows with the voltage. -/
def Bus.overvoltageRamp (b : Bus F) : F :=
  fmax ((b.vbusVoltage - b.config.dcBusOvervoltageRampStart) /
    (b.config.dcBusOvervoltageRampEnd - b.config.dcBusOvervoltageRampStart)) (CFloat.ofNat 0)

/-- `brake_duty`, without its limits. -/
def Bus.brakeDuty (b : Bus F) (ibusSum : F) : F :=
  let brakeCurrent := -ibusSum - b.config.maxRegenCurrent
  let brakeDuty := brakeCurrent * b.config.brakeResistance / b.vbusVoltage
  if b.config.enableDcBusOvervoltageRamp ∧ CFloat.ofNat 0 < b.config.brakeResistance ∧
      b.config.dcBusOvervoltageRampStart < b.config.dcBusOvervoltageRampEnd
  then brakeDuty + b.overvoltageRamp
  else brakeDuty

/-- The duty limit at 95 % allows bootstrap caps to charge. -/
def limitDuty (brakeDuty : F) : F := stdClamp brakeDuty (CFloat.ofNat 0) 0.95

/-- `Ibus_sum` with the brake resistor's share. -/
def Bus.busCurrent (b : Bus F) (ibusSum brakeDuty : F) : F :=
  ibusSum +
    if brakeDuty == CFloat.ofNat 0 then CFloat.ofNat 0
    else brakeDuty * b.vbusVoltage / b.config.brakeResistance

/-- `high_on` -/
def highOn (brakeDuty : F) : BitVec 32 :=
  BitVec.ofInt 32
    (CFloat.toInt (CFloat.ofNat timApb1PeriodClocks.toNat * (CFloat.ofNat 1 - brakeDuty)))

/-- `update_brake_current` up to the timings. -/
def Bus.brakeCurrent (b : Bus F) (low : State) : Bus F × BrakeCurrent :=
  let ibusSum := b.motorSum low
  let brakeDuty := b.brakeDuty ibusSum
  if CFloat.isnan brakeDuty then (b, .dutyNan)
  else
    let b := if 0.95 ≤ brakeDuty then { b with brakeResistorSaturated := true } else b
    let brakeDuty := limitDuty brakeDuty
    let ibusSum := b.busCurrent ibusSum brakeDuty
    let b := { b with ibus := b.ibus + b.ibusReportFilterK * (ibusSum - b.ibus) }
    if b.config.dcMaxPositiveCurrent < ibusSum then (b, .overCurrent)
    else if ibusSum < b.config.dcMaxNegativeCurrent then (b, .overRegenCurrent)
    else
      (b, .highOn (highOn brakeDuty))

/-- What it comes to, from the sum of the motors' currents and the duty. -/
theorem brakeCurrent_snd (b : Bus F) (low : State) :
    (b.brakeCurrent low).2 =
      let brakeDuty := b.brakeDuty (b.motorSum low)
      let ibusSum := b.busCurrent (b.motorSum low) (limitDuty brakeDuty)
      if CFloat.isnan brakeDuty then .dutyNan
      else if b.config.dcMaxPositiveCurrent < ibusSum then .overCurrent
      else if ibusSum < b.config.dcMaxNegativeCurrent then .overRegenCurrent
      else .highOn (highOn (limitDuty brakeDuty)) := by
  simp only [Bus.brakeCurrent, apply_ite Prod.snd]
  by_cases hsaturated : 0.95 ≤ b.brakeDuty (b.motorSum low)
  · simp only [if_pos hsaturated]
    rfl
  · simp only [if_neg hsaturated]

end Function

/-! ## Single precision -/

open Binary32

/-- A number that is a constant of the program. -/
theorem toRat_limit : toRat 0.95 = 15938355 / 2 ^ 24 := by
  rw [toRat_of_unpack (m := 15938355) (e := -24) rfl]
  norm_num

theorem toRat_period : toRat (CFloat.ofNat timApb1PeriodClocks.toNat) = 4096 := by
  rw [toRat_of_unpack (m := 2 ^ 23) (e := -11) rfl]
  norm_num

/-- For a duty that is not NaN the high side is switched on from clock 204 on. -/
theorem highOn_mem {brakeDuty : Float32} (h : brakeDuty.isNaN = false) :
    204 ≤ (highOn (limitDuty brakeDuty)).toNat ∧
      (highOn (limitDuty brakeDuty)).toNat ≤ 4096 := by
  have hlow : toRat 0.05 = 13421773 / 2 ^ 28 := by
    rw [toRat_of_unpack (m := 13421773) (e := -28) rfl]
    norm_num
  have h204 : toRat 204 = 204 := by
    rw [toRat_of_unpack (m := 13369344) (e := -16) rfl]
    norm_num
  have hduty : Between (CFloat.ofNat 0) 0.95 (limitDuty brakeDuty) :=
    clamp_between rfl rfl (by rw [toRat_zero, toRat_limit]; norm_num) h
  have hge := hduty.ge
  have hle := hduty.le
  rw [toRat_zero] at hge
  rw [toRat_limit] at hle
  have hoff : Between 0.05 (CFloat.ofNat 1) (CFloat.ofNat 1 - limitDuty brakeDuty) := by
    refine sub_mem rfl rfl rfl hduty.isFinite ?_ ?_
    · rw [hlow, toRat_one]
      linarith
    · rw [toRat_one]
      linarith
  have hge' := hoff.ge
  have hle' := hoff.le
  rw [hlow] at hge'
  rw [toRat_one] at hle'
  have hclocks : Between 204 (CFloat.ofNat timApb1PeriodClocks.toNat)
      (CFloat.ofNat timApb1PeriodClocks.toNat * (CFloat.ofNat 1 - limitDuty brakeDuty)) := by
    refine mul_mem rfl rfl rfl hoff.isFinite ?_ ?_
    · rw [h204, toRat_period]
      linarith
    · rw [toRat_period]
      linarith
  obtain ⟨hfrom, hto⟩ := truncate_mem (n := 204) (k := 4096) hclocks (by norm_num)
    (by rw [h204]; norm_num) (by rw [toRat_period]; norm_num)
  have hclocks' : (highOn (limitDuty brakeDuty)).toNat =
      (truncate (CFloat.ofNat timApb1PeriodClocks.toNat *
        (CFloat.ofNat 1 - limitDuty brakeDuty)) % (2 ^ 32 : Nat)).toNat := BitVec.toNat_ofInt ..
  rw [hclocks']
  omega

/-- A fault, or clocks that leave room for the dead time on either side. -/
def BrakeCurrent.Safe : BrakeCurrent → Prop
  | .highOn clocks => timApb1DeadtimeClocks ≤ clocks ∧ clocks ≤ timApb1PeriodClocks
  | _ => True

/-- **Whatever it reads**, `update_brake_current` finds a fault or safe clocks. -/
theorem brakeCurrent_safe (b : Bus Float32) (low : State) : (b.brakeCurrent low).2.Safe := by
  rw [brakeCurrent_snd]
  dsimp only
  split_ifs with hnan
  · trivial
  · trivial
  · trivial
  · obtain ⟨hge, hle⟩ := highOn_mem (Bool.eq_false_iff.mpr hnan)
    have hdead : timApb1DeadtimeClocks.toNat = 40 := rfl
    have hperiod : timApb1PeriodClocks.toNat = 4096 := rfl
    show timApb1DeadtimeClocks ≤ highOn _ ∧ highOn _ ≤ timApb1PeriodClocks
    rw [BitVec.le_def, BitVec.le_def, hdead, hperiod]
    exact ⟨le_trans (by decide) hge, hle⟩

/-! ## Exact arithmetic -/

section Exact

variable {K : Type u} [Field K] [LinearOrder K] [IsStrictOrderedRing K] [FloorRing K]

attribute [local instance] CFloat.exact

/-- What the ramp adds to the duty. -/
def Bus.rampDuty (b : Bus K) : K :=
  if b.config.enableDcBusOvervoltageRamp ∧
      b.config.dcBusOvervoltageRampStart < b.config.dcBusOvervoltageRampEnd
  then max ((b.vbusVoltage - b.config.dcBusOvervoltageRampStart) /
    (b.config.dcBusOvervoltageRampEnd - b.config.dcBusOvervoltageRampStart)) 0
  else 0

/-- What the brake resistor takes while it is switched on. -/
def Bus.resistorCurrent (b : Bus K) : K := b.vbusVoltage / b.config.brakeResistance

/-- The current on the bus that the brake resistor is there for: not below the regeneration
allowed, and more for too high a voltage, unless this takes more than 95 % of what the resistor
can take; and the motors' current if that is more. -/
def Bus.balance (b : Bus K) (ibusSum : K) : K :=
  max ibusSum (min (ibusSum + 0.95 * b.resistorCurrent)
    (b.rampDuty * b.resistorCurrent - b.config.maxRegenCurrent))

omit [IsStrictOrderedRing K] in
theorem fmax_exact (x y : K) : fmax x y = max x y := by
  show (if x < y then y else x) = _
  split_ifs with h
  · exact (max_eq_right h.le).symm
  · exact (max_eq_left (not_lt.mp h)).symm

theorem limitDuty_exact (brakeDuty : K) :
    limitDuty brakeDuty = max 0 (min 0.95 brakeDuty) := by
  have hzero : (CFloat.ofNat 0 : K) = 0 := Nat.cast_zero
  have hle : (0 : K) ≤ 0.95 := by norm_num
  unfold limitDuty
  rw [hzero, clamp_exact hle]

variable {b : Bus K}

omit [IsStrictOrderedRing K] in
theorem brakeDuty_exact (hresistance : 0 < b.config.brakeResistance) (ibusSum : K) :
    b.brakeDuty ibusSum =
      (-ibusSum - b.config.maxRegenCurrent) * b.config.brakeResistance / b.vbusVoltage +
        b.rampDuty := by
  have hzero : (CFloat.ofNat 0 : K) = 0 := Nat.cast_zero
  simp only [Bus.brakeDuty, Bus.rampDuty, Bus.overvoltageRamp, hzero, hresistance, true_and,
    fmax_exact]
  split_ifs
  · rfl
  · exact (add_zero _).symm

omit [IsStrictOrderedRing K] in
theorem busCurrent_exact (ibusSum duty : K) :
    b.busCurrent ibusSum duty = ibusSum + duty * b.resistorCurrent := by
  have hzero : (CFloat.ofNat 0 : K) = 0 := Nat.cast_zero
  rw [Bus.busCurrent, hzero]
  split_ifs with hduty
  · rw [eq_of_beq hduty, zero_mul]
  · rw [Bus.resistorCurrent, mul_div_assoc]

/-- What is left on the bus next to the brake resistor. -/
theorem busCurrent_eq (hvoltage : 0 < b.vbusVoltage)
    (hresistance : 0 < b.config.brakeResistance) (ibusSum : K) :
    b.busCurrent ibusSum (limitDuty (b.brakeDuty ibusSum)) = b.balance ibusSum := by
  have hpos : 0 < b.resistorCurrent := div_pos hvoltage hresistance
  have hduty : b.brakeDuty ibusSum * b.resistorCurrent =
      b.rampDuty * b.resistorCurrent - b.config.maxRegenCurrent - ibusSum := by
    rw [brakeDuty_exact hresistance, add_mul, Bus.resistorCurrent]
    field_simp
    ring
  rw [busCurrent_exact, limitDuty_exact, max_mul_of_nonneg _ _ hpos.le,
    min_mul_of_nonneg _ _ hpos.le, hduty, zero_mul, ← max_add_add_left, ← min_add_add_left,
    add_zero, Bus.balance]
  congr 2
  ring

/-- The fraction of a period for which the high side is on. -/
def onTime (clocks : BitVec 32) : K := 1 - clocks.toNat / 4096

/-- The clocks are those of the duty, down to one clock. -/
theorem onTime_highOn {duty : K} (hge : 0 ≤ duty) (hle : duty ≤ 1) :
    duty ≤ onTime (highOn duty) ∧ onTime (highOn duty) < duty + 1 / 4096 := by
  have hperiod : (CFloat.ofNat timApb1PeriodClocks.toNat : K) = 4096 := by
    show ((4096 : Nat) : K) = 4096
    norm_num
  have hone : (CFloat.ofNat 1 : K) = 1 := Nat.cast_one
  have hpos : (0 : K) ≤ 4096 * (1 - duty) := by linarith
  have hclocks : (highOn duty).toNat = ⌊4096 * (1 - duty)⌋.toNat := by
    have htoInt : ∀ x : K, 0 ≤ x → CFloat.toInt x = ⌊x⌋ := fun x hx => if_neg hx.not_gt
    have hlt : ⌊4096 * (1 - duty)⌋ < 4097 := by
      rw [Int.floor_lt]
      push_cast
      linarith
    have hge' : 0 ≤ ⌊4096 * (1 - duty)⌋ := Int.floor_nonneg.mpr hpos
    rw [highOn, hperiod, hone, htoInt _ hpos, BitVec.toNat_ofInt]
    omega
  have hcast : ((⌊4096 * (1 - duty)⌋.toNat : Nat) : K) = ⌊4096 * (1 - duty)⌋ := by
    exact_mod_cast congrArg (Int.cast (R := K)) (Int.toNat_of_nonneg (Int.floor_nonneg.mpr hpos))
  have hfloor := Int.floor_le (4096 * (1 - duty))
  have hfloor' := Int.lt_floor_add_one (4096 * (1 - duty))
  rw [onTime, hclocks, hcast]
  constructor <;> linarith

/-- The bus is in balance, to within a clock of the resistor's current, or out of its limits. -/
def Balanced (b : Bus K) (ibusSum : K) : BrakeCurrent → Prop
  | .dutyNan => False
  | .overCurrent => b.config.dcMaxPositiveCurrent < b.balance ibusSum
  | .overRegenCurrent =>
    b.balance ibusSum ≤ b.config.dcMaxPositiveCurrent ∧
      b.balance ibusSum < b.config.dcMaxNegativeCurrent
  | .highOn clocks =>
    b.balance ibusSum ∈ Set.Icc b.config.dcMaxNegativeCurrent b.config.dcMaxPositiveCurrent ∧
      ibusSum + onTime clocks * b.resistorCurrent ∈
        Set.Ico (b.balance ibusSum) (b.balance ibusSum + b.resistorCurrent / 4096)

/-- The duty leaves room for the dead time. -/
theorem highOn_exact (duty : K) :
    timApb1DeadtimeClocks ≤ highOn (limitDuty duty) ∧
      highOn (limitDuty duty) ≤ timApb1PeriodClocks + 1 := by
  have hduty := limitDuty_exact duty
  have hge : 0 ≤ limitDuty duty := hduty ▸ le_max_left _ _
  have hle : limitDuty duty ≤ 0.95 := by
    rw [hduty]
    exact max_le (by norm_num) (min_le_left _ _)
  obtain ⟨hfrom, hto⟩ := onTime_highOn hge (hle.trans (by norm_num))
  unfold onTime at hfrom hto
  norm_num at hle
  have hlow : (40 : K) ≤ (highOn (limitDuty duty)).toNat := by linarith
  have hhigh : ((highOn (limitDuty duty)).toNat : K) ≤ 4097 := by linarith
  rw [BitVec.le_def, BitVec.le_def]
  exact ⟨by exact_mod_cast hlow, by exact_mod_cast hhigh⟩

/-- The clocks of a duty are in the registers, if the brake resistor is armed. -/
def Written (low : State) : BrakeCurrent → Prop
  | .highOn clocks =>
    low.brakeResistorArmed = true → updateBrakeCurrent (.highOn clocks) low =
      { low with htim2Ccr3 := clocks - timApb1DeadtimeClocks, htim2Ccr4 := clocks }
  | _ => True

theorem written_brakeCurrent (b : Bus K) (low : State) : Written low (b.brakeCurrent low).2 := by
  have hnumber : ¬CFloat.isnan (b.brakeDuty (b.motorSum low)) = true := Bool.false_ne_true
  rw [brakeCurrent_snd]
  dsimp only
  rw [if_neg hnumber]
  split_ifs
  · trivial
  · trivial
  · intro harmed
    obtain ⟨hge, hle⟩ := highOn_exact (b.brakeDuty (b.motorSum low))
    rw [(updateBrakeCurrent_separated hge hle low).2, writeBrakeResistorTimings, if_pos harmed]

/-- **Power balance.** With a positive voltage and resistance, an armed brake resistor is switched
such that the bus is in balance, and there is a fault exactly if the balance is not allowed. -/
theorem brakeCurrent_balanced (hvoltage : 0 < b.vbusVoltage)
    (hresistance : 0 < b.config.brakeResistance) (low : State) :
    Balanced b (b.motorSum low) (b.brakeCurrent low).2 ∧ Written low (b.brakeCurrent low).2 := by
  refine ⟨?_, written_brakeCurrent b low⟩
  set ibusSum := b.motorSum low with hsum
  have hbalance := busCurrent_eq hvoltage hresistance ibusSum
  have hpos : 0 < b.resistorCurrent := div_pos hvoltage hresistance
  have hnumber : ¬CFloat.isnan (b.brakeDuty ibusSum) = true := Bool.false_ne_true
  rw [brakeCurrent_snd]
  dsimp only
  rw [← hsum, hbalance, if_neg hnumber]
  split_ifs with hover hregen
  · exact hover
  · exact ⟨not_lt.mp hover, hregen⟩
  · have hduty := limitDuty_exact (b.brakeDuty ibusSum)
    have hge : 0 ≤ limitDuty (b.brakeDuty ibusSum) := hduty ▸ le_max_left _ _
    have hle : limitDuty (b.brakeDuty ibusSum) ≤ 1 := by
      rw [hduty]
      exact max_le (by norm_num) ((min_le_left _ _).trans (by norm_num))
    obtain ⟨hfrom, hto⟩ := onTime_highOn hge hle
    rw [busCurrent_exact] at hbalance
    have hfrom' := mul_le_mul_of_nonneg_right hfrom hpos.le
    have hto' := mul_lt_mul_of_pos_right hto hpos
    refine ⟨⟨not_lt.mp hregen, not_lt.mp hover⟩, ?_, ?_⟩
    · linarith
    · rw [add_mul] at hto'
      linarith

/-- 10 A come back from a motor on a bus of 24 V. Two of them may go to the supply, and a
resistor of 4 Ohm takes 5.7 A at most. -/
theorem brakeCurrent_balanced_braking :
    let config : BusConfig ℚ := ⟨2, 4, false, 0, 0, 100, -100⟩
    let b : Bus ℚ := ⟨config, 1 / 10, 24, 0, false, fun _ => -10⟩
    let low : State := ⟨true, 0, 4097, fun _ => ⟨.ARMED, 0, true, ⟨0, 0, 0⟩⟩⟩
    Balanced b (b.motorSum low) (b.brakeCurrent low).2 ∧ Written low (b.brakeCurrent low).2 :=
  brakeCurrent_balanced (by norm_num) (by norm_num) _

end Exact

end WODrive.LowLevel
