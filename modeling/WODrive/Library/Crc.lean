import Mathlib.Data.BitVec
import Mathlib.Logic.Function.Iterate

/-!
# Cyclic redundancy checks

The remainder of a message is computed a byte at a time, the most significant bit
first, in a register of `w` bits (`8 ≤ w`) with the polynomial `poly` (its top term
`x^w` left out).

- `crcByte_topByte`: the byte that equals the top of the register only moves the
  register up;
- `crc_bigEndian`, `crc_append_bigEndian`: a message followed by its own remainder,
  most significant byte first, leaves nothing in the register.
-/

namespace WODrive.Crc

variable {w : Nat} (poly r : BitVec w)

/-- One step of the division. -/
def shiftBit : BitVec w := if r.msb then (r <<< 1) ^^^ poly else r <<< 1

/-- The remainder after one more byte. -/
def crcByte (value : BitVec 8) : BitVec w :=
  (shiftBit poly)^[8] (r ^^^ (value.setWidth w <<< (w - 8)))

/-- The remainder after a sequence of bytes. -/
def crc (bytes : List (BitVec 8)) : BitVec w := bytes.foldl (crcByte poly) r

@[simp] theorem crc_nil : crc poly r [] = r := rfl

@[simp] theorem crc_cons (b : BitVec 8) (bytes : List (BitVec 8)) :
    crc poly r (b :: bytes) = crc poly (crcByte poly r b) bytes := rfl

@[simp] theorem crc_append (as bs : List (BitVec 8)) :
    crc poly r (as ++ bs) = crc poly (crc poly r as) bs :=
  List.foldl_append

/-- The byte at the top of a register. -/
def topByte : BitVec 8 := (r >>> (w - 8)).setWidth 8

/-- The `n` top bytes of a register, the most significant one first. -/
def bigEndian : Nat → BitVec w → List (BitVec 8)
  | 0, _ => []
  | n + 1, r => topByte r :: bigEndian n (r <<< 8)

theorem length_bigEndian (n : Nat) : (bigEndian n r).length = n := by
  induction n generalizing r with
  | zero => rfl
  | succ n ih => rw [bigEndian, List.length_cons, ih]

/-- A register whose `k` top bits are clear only moves up in `k` steps. -/
theorem shiftBit_iterate (k : Nat) (hr : ∀ i < k, r.getMsbD i = false) :
    (shiftBit poly)^[k] r = r <<< k := by
  induction k with
  | zero =>
    rw [BitVec.shiftLeft_zero]
    rfl
  | succ k ih =>
    rw [Function.iterate_succ_apply', ih fun i hi => hr i (by omega)]
    have hmsb : (r <<< k).msb = false := by
      rw [BitVec.msb, BitVec.getMsbD_shiftLeft, Nat.zero_add]
      exact hr k (Nat.lt_succ_self k)
    unfold shiftBit
    rw [hmsb, BitVec.shiftLeft_add]
    rfl

/-- The register without its top byte. -/
theorem getMsbD_xor_topByte (hw : 8 ≤ w) (i : Nat) :
    (r ^^^ ((topByte r).setWidth w <<< (w - 8))).getMsbD i =
      if i < 8 then false else r.getMsbD i := by
  unfold topByte
  rw [BitVec.getMsbD_xor, BitVec.getMsbD_shiftLeft]
  split
  next hi =>
    have htop : (((r >>> (w - 8)).setWidth 8).setWidth w).getMsbD (i + (w - 8)) =
        r.getMsbD i := by
      simp only [BitVec.getMsbD, BitVec.getLsbD_setWidth, BitVec.getLsbD_ushiftRight]
      have h1 : i + (w - 8) < w := by omega
      have h2 : w - 1 - (i + (w - 8)) < 8 := by omega
      have h3 : w - 1 - (i + (w - 8)) < w := by omega
      have h4 : w - 8 + (w - 1 - (i + (w - 8))) = w - 1 - i := by omega
      have h5 : i < w := by omega
      simp [h1, h2, h3, h4, h5]
    rw [htop, Bool.xor_self]
  next hi =>
    have hnone : (((r >>> (w - 8)).setWidth 8).setWidth w).getMsbD (i + (w - 8)) = false := by
      have h1 : ¬ i + (w - 8) < w := by omega
      simp [BitVec.getMsbD, h1]
    rw [hnone, Bool.xor_false]

theorem crcByte_topByte (hw : 8 ≤ w) : crcByte poly r (topByte r) = r <<< 8 := by
  unfold crcByte
  rw [shiftBit_iterate poly _ 8]
  · apply BitVec.eq_of_getMsbD_eq
    intro i _
    rw [BitVec.getMsbD_shiftLeft, getMsbD_xor_topByte r hw, if_neg (by omega),
      BitVec.getMsbD_shiftLeft]
  · intro i hi
    rw [getMsbD_xor_topByte r hw, if_pos hi]

theorem crc_bigEndian (hw : 8 ≤ w) (n : Nat) :
    crc poly r (bigEndian n r) = r <<< (8 * n) := by
  induction n generalizing r with
  | zero =>
    rw [Nat.mul_zero, BitVec.shiftLeft_zero]
    rfl
  | succ n ih =>
    show crc poly (crcByte poly r (topByte r)) (bigEndian n (r <<< 8)) = _
    rw [crcByte_topByte poly r hw, ih, ← BitVec.shiftLeft_add]
    congr 1
    omega

/-- A message followed by its remainder has the remainder zero. -/
theorem crc_append_bigEndian (hw : 8 ≤ w) (n : Nat) (hn : w ≤ 8 * n)
    (bytes : List (BitVec 8)) :
    crc poly r (bytes ++ bigEndian n (crc poly r bytes)) = 0 := by
  rw [crc_append, crc_bigEndian poly _ hw]
  exact BitVec.shiftLeft_eq_zero hn

end WODrive.Crc
