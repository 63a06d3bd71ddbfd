import Mathlib.Data.BitVec
import Mathlib.Data.Nat.Digits.Defs

/-!
# Little-endian numbers

Numbers as bytes, the lowest byte first. A number of `n` bits is usually put together and
taken apart with shifts: `or_shiftLeft` and `setWidth_shiftRight` say what one byte more
makes of it.
-/

namespace WODrive.LittleEndian

/-- The number with these bytes. -/
def decode (bytes : List (BitVec 8)) : Nat := Nat.ofDigits 256 (bytes.map BitVec.toNat)

/-- The lowest `w` bytes of a number. -/
def encode (w x : Nat) : List (BitVec 8) :=
  (List.range w).map fun i => BitVec.ofNat 8 (x / 256 ^ i)

variable {n : Nat}

theorem length_encode (w x : Nat) : (encode w x).length = w := by
  rw [encode, List.length_map, List.length_range]

theorem decode_append_singleton (bytes : List (BitVec 8)) (b : BitVec 8) :
    decode (bytes ++ [b]) = decode bytes + 256 ^ bytes.length * b.toNat := by
  rw [decode, List.map_append, Nat.ofDigits_append, List.length_map]
  exact congrArg (fun d => decode bytes + 256 ^ bytes.length * d) Nat.ofDigits_singleton

theorem decode_lt (bytes : List (BitVec 8)) : decode bytes < 256 ^ bytes.length := by
  have hdigits : ∀ d ∈ bytes.map BitVec.toNat, d < 256 := by
    intro d hd
    obtain ⟨b, -, rfl⟩ := List.mem_map.mp hd
    exact b.isLt
  have hlt := Nat.ofDigits_lt_base_pow_length (by decide : 1 < 256) hdigits
  rw [List.length_map] at hlt
  exact hlt

theorem encode_succ (w x : Nat) :
    encode (w + 1) x = encode w x ++ [BitVec.ofNat 8 (x / 256 ^ w)] := by
  rw [encode, List.range_succ, List.map_append]
  rfl

/-- What is left of a number are its lowest bytes. -/
theorem decode_encode (w x : Nat) : decode (encode w x) = x % 256 ^ w := by
  induction w with
  | zero => rw [Nat.pow_zero, Nat.mod_one]; rfl
  | succ w ih =>
    rw [encode_succ, decode_append_singleton, ih, length_encode, BitVec.toNat_ofNat]
    exact (Nat.mod_pow_succ ..).symm

/-! ## Shifts -/

theorem pow_256 (i : Nat) : 256 ^ i = 2 ^ (8 * i) := by
  rw [Nat.pow_mul]

theorem ofNat_shiftLeft (x k : Nat) : BitVec.ofNat n (x <<< k) = BitVec.ofNat n x <<< k := by
  apply BitVec.eq_of_toNat_eq
  rw [BitVec.toNat_shiftLeft, BitVec.toNat_ofNat, BitVec.toNat_ofNat, Nat.shiftLeft_eq,
    Nat.shiftLeft_eq, Nat.mod_mul_mod]

/-- The next byte of a number that is put together. -/
theorem or_shiftLeft (bytes : List (BitVec 8)) (b : BitVec 8) :
    BitVec.ofNat n (decode bytes) ||| b.setWidth n <<< (8 * bytes.length) =
      BitVec.ofNat n (decode (bytes ++ [b])) := by
  have hlt : decode bytes < 2 ^ (8 * bytes.length) := pow_256 bytes.length ▸ decode_lt bytes
  have hnext : b.setWidth n <<< (8 * bytes.length) =
      BitVec.ofNat n (b.toNat <<< (8 * bytes.length)) := by
    rw [ofNat_shiftLeft, BitVec.ofNat_toNat]
  rw [hnext, ← BitVec.ofNat_or, decode_append_singleton, pow_256, Nat.add_comm,
    Nat.two_pow_add_eq_or_of_lt hlt, Nat.or_comm, Nat.shiftLeft_eq, Nat.mul_comm]

/-- The next byte of a number that is taken apart. -/
theorem setWidth_shiftRight (x : BitVec n) (i : Nat) :
    (x >>> (8 * i)).setWidth 8 = BitVec.ofNat 8 (x.toNat / 256 ^ i) := by
  apply BitVec.eq_of_toNat_eq
  rw [BitVec.toNat_setWidth, BitVec.toNat_ushiftRight, Nat.shiftRight_eq_div_pow, ← pow_256,
    BitVec.toNat_ofNat]

end WODrive.LittleEndian
