import WODrive.Library.Wrap

/-!
# The encoder (MotorControl/encoder.cpp)

The integer half of `Encoder`: the raw samples, the linear count `shadow_count_`, the
commutation count `count_in_cpr_`, and the functions that move them. The phase-locked
loop and the interpolation only read the counts; they are in `Estimator`. What floating
point hands to the counts is an input of `update`, the record `Analog`.
-/

namespace WODrive

/-- `Encoder::Mode` -/
inductive Encoder.Mode where
  | INCREMENTAL
  | HALL
  | SINCOS
  | SPI_ABS_CUI
  | SPI_ABS_AMS
  | SPI_ABS_AEAT
  | SPI_ABS_RLS
  /-- A stored number that is none of these. -/
  | other
deriving DecidableEq, Repr

/-- `mode_ & MODE_FLAG_ABS`, for a mode that has a name. -/
def Encoder.Mode.isAbs : Encoder.Mode → Bool
  | .SPI_ABS_CUI | .SPI_ABS_AMS | .SPI_ABS_AEAT | .SPI_ABS_RLS => true
  | _ => false

/-- `Encoder::Error`, a set of flags. -/
abbrev Encoder.Error := BitVec 32

/-- What the counting uses of an `Encoder`, its configuration, its timer and its axis. -/
structure Encoder where
  /-- `mode_` -/
  mode : Encoder.Mode
  /-- `config_.cpr` -/
  cpr : BitVec 32
  /-- `config_.offset` -/
  offset : BitVec 32
  /-- `config_.ignore_illegal_hall_state` -/
  ignoreIllegalHallState : Bool
  error : Encoder.Error
  /-- `axis_->error_` -/
  axisError : BitVec 32
  posEstimateValid : Bool
  velEstimateValid : Bool
  shadowCount : BitVec 32
  countInCpr : BitVec 32
  /-- `hw_config_.timer->Instance->CNT` -/
  cnt : BitVec 16
  timCntSample : BitVec 16
  hallState : BitVec 8
  posAbs : BitVec 32
  absSpiPosUpdated : Bool
deriving DecidableEq

namespace Encoder

def ERROR_UNSUPPORTED_ENCODER_MODE : Error := 0x8
def ERROR_ILLEGAL_HALL_STATE : Error := 0x10
def ERROR_ABS_SPI_COM_FAIL : Error := 0x80

/-- `Axis::ERROR_ENCODER_FAILED` -/
def ERROR_ENCODER_FAILED : BitVec 32 := 0x100

/-- `set_error` -/
def setError (error : Error) (e : Encoder) : Encoder :=
  { e with
    velEstimateValid := false
    posEstimateValid := false
    error := e.error ||| error
    axisError := e.axisError ||| ERROR_ENCODER_FAILED }

/-- `mod` of utils.cpp, modulo as opposed to remainder. -/
def mod (dividend divisor : BitVec 32) : BitVec 32 :=
  let r := dividend.srem divisor
  if r.slt 0 then r + divisor else r

/-- By a positive divisor, `mod` is the remainder of the division that rounds down. -/
theorem toInt_mod (dividend : BitVec 32) {divisor : BitVec 32} (hpos : 0 < divisor.toInt) :
    (mod dividend divisor).toInt = dividend.toInt % divisor.toInt := by
  set a := dividend.toInt
  set b := divisor.toInt
  have hrem : (dividend.srem divisor).toInt = a.tmod b := BitVec.toInt_srem ..
  have hlt : a.tmod b < b := Int.tmod_lt_of_pos a hpos
  have hcongr : a.tmod b % b = a % b := by
    rw [Int.tmod_def, Int.sub_mul_emod_self_left]
  have hmax : b < 2 ^ 31 := BitVec.toInt_lt
  have hzero : (0 : BitVec 32).toInt = 0 := rfl
  unfold mod
  simp only [BitVec.slt_iff_toInt_lt, hrem, hzero]
  split
  next hneg =>
    have hgt : -b < a.tmod b := by
      have := Int.tmod_lt_of_pos (-a) hpos
      rw [Int.neg_tmod] at this
      omega
    rw [Wrap.toInt_add_of_fits (by omega) (by omega), hrem, ← hcongr,
      Int.emod_eq_add_self_emod, Int.emod_eq_of_lt (by omega) (by omega)]
  next hnonneg =>
    rw [hrem, ← hcongr, Int.emod_eq_of_lt (by omega) hlt]

/-- Adding to the commutation count, where the sum stays a 32-bit integer. -/
theorem toInt_mod_add {cpr count : BitVec 32} {x : Int} (hpos : 0 < cpr.toInt)
    (hcpr : cpr.toInt < 2 ^ 30) (hnonneg : 0 ≤ count.toInt) (hlt : count.toInt < cpr.toInt)
    (hlo : -(2 ^ 15) ≤ x) (hhi : x < 2 ^ 15) :
    (mod (count + BitVec.ofInt 32 x) cpr).toInt = (count.toInt + x) % cpr.toInt := by
  have hx : (BitVec.ofInt 32 x).toInt = x :=
    Wrap.toInt_ofInt_of_fits x (by omega) (by omega)
  rw [toInt_mod _ hpos, Wrap.toInt_add_of_fits (by omega) (by omega), hx]

/-! ## Setting the counts -/

/-- `set_linear_count` -/
def setLinearCount (count : BitVec 32) (e : Encoder) : Encoder :=
  { e with
    shadowCount := count
    timCntSample := count.setWidth 16
    cnt := count.setWidth 16 }

/-- `set_circular_count` -/
def setCircularCount (count : BitVec 32) (updateOffset : Bool) (e : Encoder) : Encoder :=
  let e :=
    if updateOffset then { e with offset := mod (e.offset + (count - e.countInCpr)) e.cpr }
    else e
  { e with countInCpr := mod count e.cpr }

/-- The assignment with which `run_offset_calibration` starts. -/
def syncShadowCount (e : Encoder) : Encoder :=
  { e with shadowCount := e.countInCpr }

/-! ## Samples -/

/-- `decode_hall` -/
def decodeHall (hallState : BitVec 8) : Option (BitVec 32) :=
  if hallState = 0b001 then some 0
  else if hallState = 0b011 then some 1
  else if hallState = 0b010 then some 2
  else if hallState = 0b110 then some 3
  else if hallState = 0b100 then some 4
  else if hallState = 0b101 then some 5
  else none

/-- `sample_now`: what it does to the samples that are integers. -/
def sampleNow (e : Encoder) : Encoder :=
  match e.mode with
  | .INCREMENTAL => { e with timCntSample := e.cnt }
  | .HALL | .SINCOS | .SPI_ABS_CUI | .SPI_ABS_AMS | .SPI_ABS_AEAT | .SPI_ABS_RLS => e
  | .other => e.setError ERROR_UNSUPPORTED_ENCODER_MODE

/-- `decode_hall_samples`: the three pins, packed. -/
def decodeHallSamples (hallState : BitVec 8) (e : Encoder) : Encoder :=
  { e with hallState }

/-! ## Update -/

/-- What floating point computes for one `update`. -/
structure Analog where
  /-- `(int)(1000.0f * fast_atan2(sincos_sample_s_, sincos_sample_c_))` -/
  fakeCount : BitVec 32
  /-- `spi_error_rate_ > 0.005f`, after its low pass. -/
  comFail : Bool
deriving DecidableEq

/-- The step from a count to a raw position of period `modulus`, to the nearer side. -/
def foldedDelta (modulus delta : BitVec 32) : BitVec 32 :=
  let delta := mod delta modulus
  if (modulus.sdiv 2).slt delta then delta - modulus else delta

/-- The one step of the residue class of `delta` that is at most half a period. -/
theorem toInt_foldedDelta {modulus delta : BitVec 32} {x : Int}
    (hlo : -modulus.toInt < 2 * x) (hhi : 2 * x ≤ modulus.toInt)
    (hdvd : modulus.toInt ∣ delta.toInt - x) : (foldedDelta modulus delta).toInt = x := by
  have hpos : 0 < modulus.toInt := by omega
  have hmax : modulus.toInt < 2 ^ 31 := BitVec.toInt_lt
  have hmod : (mod delta modulus).toInt = x % modulus.toInt := by
    rw [toInt_mod _ hpos]
    exact Int.emod_eq_emod_iff_emod_sub_eq_zero.mpr (Int.emod_eq_zero_of_dvd hdvd)
  have hhalf : (modulus.sdiv 2).toInt = modulus.toInt / 2 := by
    rw [BitVec.toInt_sdiv_of_ne_or_ne _ _ (.inr (by decide))]
    exact Int.tdiv_eq_ediv_of_nonneg hpos.le
  unfold foldedDelta
  simp only [BitVec.slt_iff_toInt_lt, hmod, hhalf]
  rcases Int.lt_or_le x 0 with hneg | hnonneg
  · have hx : x % modulus.toInt = x + modulus.toInt := by
      rw [Int.emod_eq_add_self_emod, Int.emod_eq_of_lt (by omega) (by omega)]
    rw [if_pos (by omega), Wrap.toInt_sub_of_fits (by omega) (by omega)]
    omega
  · have hx : x % modulus.toInt = x := Int.emod_eq_of_lt hnonneg (by omega)
    rw [if_neg (by omega), hmod, hx]

/-- The switch over `mode_` in `update`: `delta_enc`, or that it returns false. -/
def deltaEnc (analog : Analog) (e : Encoder) : Option (BitVec 32) × Encoder :=
  match e.mode with
  | .INCREMENTAL =>
    (some ((e.timCntSample - e.shadowCount.setWidth 16).signExtend 32), e)
  | .HALL =>
    match decodeHall e.hallState with
    | some hallCnt => (some (foldedDelta 6 (hallCnt - e.countInCpr)), e)
    | none =>
      if e.ignoreIllegalHallState then (some 0, e)
      else (none, e.setError ERROR_ILLEGAL_HALL_STATE)
  | .SINCOS => (some (foldedDelta 6283 (analog.fakeCount - e.countInCpr)), e)
  | .SPI_ABS_RLS | .SPI_ABS_AMS | .SPI_ABS_CUI | .SPI_ABS_AEAT =>
    -- the low pass counts missing words only
    let checked :=
      if !e.absSpiPosUpdated && analog.comFail then e.setError ERROR_ABS_SPI_COM_FAIL
      else e
    (some (foldedDelta e.cpr (e.posAbs - e.countInCpr)), { checked with absSpiPosUpdated := false })
  | .other => (none, e.setError ERROR_UNSUPPORTED_ENCODER_MODE)

/-- `update` -/
def update (analog : Analog) (e : Encoder) : Bool × Encoder :=
  match e.deltaEnc analog with
  | (none, e) => (false, e)
  | (some delta, e) =>
    let countInCpr := mod (e.countInCpr + delta) e.cpr
    (true, { e with
      shadowCount := e.shadowCount + delta
      countInCpr := if e.mode.isAbs then e.posAbs else countInCpr
      velEstimateValid := true
      posEstimateValid := true })

end Encoder

end WODrive
