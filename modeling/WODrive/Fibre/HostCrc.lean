import WODrive.Fibre.HostStream

/-!
# The CRC of the device and that of the host (fibre/crc.hpp)

The device computes its remainders with the template `calc_crc<T, POLYNOMIAL>`, whose type
`T` is `uint8_t` or `uint16_t`. The operands are promoted to `int` (or to `unsigned`, as the
polynomial is): every shift is one of 32 bits, and what it moves out of `T` is only cut off
when the result is stored in the remainder again.

- `calcCrcBuffer_eq`: the template divides by the polynomial, as the library states it;
- `hostCrc_eq`: the host's loop, on an `int` that is cut to its width after every byte only,
  computes the same values as the template, whatever the remainder is that they start from.
-/

namespace WODrive.Fibre.CrcTemplate

/-! ## The template -/

section

variable {w : Nat}

/-- The promotion of an operand of type `T`, which is unsigned and has `w` bits. -/
def promote (x : BitVec w) : BitVec 32 := x.setWidth 32

/-- `TOPBIT` -/
def topbit (w : Nat) : BitVec w := (promote (1 : BitVec w) <<< (w - 1)).setWidth w

/-- The loop body of `calc_crc`. -/
def calcCrcBit (polynomial : BitVec 32) (remainder : BitVec w) : BitVec w :=
  if promote remainder &&& promote (topbit w) ≠ 0 then
    ((promote remainder <<< 1) ^^^ polynomial).setWidth w
  else (promote remainder <<< 1).setWidth w

/-- `calc_crc<T, POLYNOMIAL>` of one byte -/
def calcCrc (polynomial : BitVec 32) (remainder : BitVec w) (value : Byte) : BitVec w :=
  -- bring the next byte into the remainder
  let remainder := (promote remainder ^^^ (promote value <<< (w - 8))).setWidth w
  (calcCrcBit polynomial)^[8] remainder

/-- `calc_crc<T, POLYNOMIAL>` of a buffer -/
def calcCrcBuffer (polynomial : BitVec 32) : BitVec w → List Byte → BitVec w
  | remainder, [] => remainder
  | remainder, value :: buffer =>
    calcCrcBuffer polynomial (calcCrc polynomial remainder value) buffer

end

/-- `calc_crc8<POLYNOMIAL>` of a buffer -/
def calcCrc8 (polynomial : BitVec 32) (remainder : BitVec 8) (buffer : List Byte) : BitVec 8 :=
  calcCrcBuffer polynomial remainder buffer

/-- `calc_crc16<POLYNOMIAL>` of a buffer -/
def calcCrc16 (polynomial : BitVec 32) (remainder : BitVec 16) (buffer : List Byte) :
    BitVec 16 :=
  calcCrcBuffer polynomial remainder buffer

/-! ## What it computes -/

section

variable {w : Nat}

/-- A value that is shifted up behind its promotion, and stored again. -/
theorem setWidth_promote_shiftLeft {v : Nat} (hw : w ≤ 32) (x : BitVec v) (n : Nat) :
    (promote x <<< n).setWidth w = x.setWidth w <<< n := by
  refine BitVec.eq_of_getLsbD_eq fun i hi => ?_
  have h32 : i < 32 := by omega
  simp only [promote, BitVec.getLsbD_setWidth, BitVec.getLsbD_shiftLeft, hi, h32,
    decide_true, Bool.true_and]
  by_cases hin : i < n
  · simp [hin]
  · have h1 : i - n < w := by omega
    have h2 : i - n < 32 := by omega
    simp [h1, h2]

theorem setWidth_promote (hw : w ≤ 32) (x : BitVec w) : (promote x).setWidth w = x := by
  have h := setWidth_promote_shiftLeft hw x 0
  rwa [BitVec.shiftLeft_zero, BitVec.shiftLeft_zero, BitVec.setWidth_eq] at h

theorem topbit_eq (hw : w ≤ 32) : topbit w = BitVec.twoPow w (w - 1) := by
  unfold topbit
  rw [setWidth_promote_shiftLeft hw, BitVec.setWidth_eq, BitVec.twoPow_eq, BitVec.ofNat_eq_ofNat]

/-- The test of the loop body is on the top bit. -/
theorem and_topbit_ne_zero (hw0 : 0 < w) (hw : w ≤ 32) (remainder : BitVec w) :
    promote remainder &&& promote (topbit w) ≠ 0 ↔ remainder.msb = true := by
  have hand : promote remainder &&& promote (topbit w) = promote (remainder &&& topbit w) :=
    BitVec.setWidth_and.symm
  have hcut : promote (remainder &&& topbit w) = 0 ↔ remainder &&& topbit w = 0 := by
    constructor
    · intro h
      rw [← setWidth_promote hw (remainder &&& topbit w), h]
      exact BitVec.setWidth_zero ..
    · intro h
      rw [h]
      exact BitVec.setWidth_zero ..
  rw [hand, Ne, hcut, topbit_eq hw, BitVec.and_twoPow, BitVec.msb_eq_getLsbD_last]
  cases remainder.getLsbD (w - 1) with
  | false => simp
  | true =>
    have hne : BitVec.twoPow w (w - 1) ≠ 0 := by
      intro h
      have hbit := congrArg (fun x => BitVec.getLsbD x (w - 1)) h
      simp [hw0] at hbit
    simpa using hne

theorem calcCrcBit_eq (hw0 : 0 < w) (hw : w ≤ 32) (polynomial : BitVec 32)
    (remainder : BitVec w) :
    calcCrcBit polynomial remainder = Crc.shiftBit (polynomial.setWidth w) remainder := by
  have hshift : (promote remainder <<< 1).setWidth w = remainder <<< 1 := by
    rw [setWidth_promote_shiftLeft hw, BitVec.setWidth_eq]
  unfold calcCrcBit Crc.shiftBit
  by_cases h : remainder.msb = true
  · rw [if_pos ((and_topbit_ne_zero hw0 hw remainder).mpr h), if_pos h, BitVec.setWidth_xor,
      hshift]
  · rw [if_neg (mt (and_topbit_ne_zero hw0 hw remainder).mp h), if_neg h, hshift]

theorem calcCrc_eq (hw8 : 8 ≤ w) (hw : w ≤ 32) (polynomial : BitVec 32) (remainder : BitVec w)
    (value : Byte) :
    calcCrc polynomial remainder value =
      Crc.crcByte (polynomial.setWidth w) remainder value := by
  have hstart : (promote remainder ^^^ (promote value <<< (w - 8))).setWidth w =
      remainder ^^^ (value.setWidth w <<< (w - 8)) := by
    rw [BitVec.setWidth_xor, setWidth_promote hw, setWidth_promote_shiftLeft hw]
  have hbit : calcCrcBit (w := w) polynomial = Crc.shiftBit (polynomial.setWidth w) :=
    funext fun remainder => calcCrcBit_eq (by omega) hw polynomial remainder
  unfold calcCrc Crc.crcByte
  rw [hstart, hbit]

/-- The template computes the remainder of the division by its polynomial. -/
theorem calcCrcBuffer_eq (hw8 : 8 ≤ w) (hw : w ≤ 32) (polynomial : BitVec 32)
    (remainder : BitVec w) (buffer : List Byte) :
    calcCrcBuffer polynomial remainder buffer =
      Crc.crc (polynomial.setWidth w) remainder buffer := by
  induction buffer generalizing remainder with
  | nil => rfl
  | cons value buffer ih =>
    rw [calcCrcBuffer, calcCrc_eq hw8 hw, ih, Crc.crc_cons]

/-- The host's loop over the bytes, with the polynomial of a template. -/
theorem foldl_hostCalcCrc_eq (hw8 : 8 ≤ w) (hw : w ≤ 32) (polynomial : BitVec 32)
    (remainder : BitVec w) (bytes : List Byte) :
    bytes.foldl (fun r byte =>
        HostStream.calcCrc r byte.toNat (polynomial.setWidth w).toNat w) remainder.toNat =
      (calcCrcBuffer polynomial remainder bytes).toNat := by
  rw [HostStream.foldl_calcCrc_eq hw8, calcCrcBuffer_eq hw8 hw]

end

/-! ## On the device -/

/-- The remainders that the packets on a stream are checked with are those of the template. -/
theorem calcCrc8_canonical (buffer : List Byte) :
    Fibre.calcCrc8 buffer =
      calcCrc8 (CANONICAL_CRC8_POLYNOMIAL.setWidth 32) CANONICAL_CRC8_INIT buffer := by
  have hpolynomial : (CANONICAL_CRC8_POLYNOMIAL.setWidth 32).setWidth 8 =
      CANONICAL_CRC8_POLYNOMIAL := by decide
  rw [calcCrc8, calcCrcBuffer_eq (by decide) (by decide), hpolynomial, Fibre.calcCrc8]

theorem calcCrc16_canonical (buffer : List Byte) :
    Fibre.calcCrc16 buffer =
      calcCrc16 (CANONICAL_CRC16_POLYNOMIAL.setWidth 32) CANONICAL_CRC16_INIT buffer := by
  have hpolynomial : (CANONICAL_CRC16_POLYNOMIAL.setWidth 32).setWidth 16 =
      CANONICAL_CRC16_POLYNOMIAL := by decide
  rw [calcCrc16, calcCrcBuffer_eq (by decide) (by decide), hpolynomial, Fibre.calcCrc16]

/-! ## On the host -/

/-- **The CRCs of the host and of the device agree**: from every remainder of the width, over
every sequence of bytes. -/
theorem hostCrc_eq (bytes : List Byte) :
    (∀ remainder : BitVec 8,
      HostStream.calcCrc8 remainder.toNat bytes =
        (calcCrc8 (CANONICAL_CRC8_POLYNOMIAL.setWidth 32) remainder bytes).toNat) ∧
    ∀ remainder : BitVec 16,
      HostStream.calcCrc16 remainder.toNat bytes =
        (calcCrc16 (CANONICAL_CRC16_POLYNOMIAL.setWidth 32) remainder bytes).toNat := by
  have h8 : ((CANONICAL_CRC8_POLYNOMIAL.setWidth 32).setWidth 8).toNat =
      HostStream.CRC8_DEFAULT := by decide
  have h16 : ((CANONICAL_CRC16_POLYNOMIAL.setWidth 32).setWidth 16).toNat =
      HostStream.CRC16_DEFAULT := by decide
  constructor
  · intro remainder
    unfold HostStream.calcCrc8 calcCrc8
    rw [← foldl_hostCalcCrc_eq (by decide) (by decide), h8]
  · intro remainder
    unfold HostStream.calcCrc16 calcCrc16
    rw [← foldl_hostCalcCrc_eq (by decide) (by decide), h16]

end WODrive.Fibre.CrcTemplate
