import WODrive.Fibre.RemoteFunction
import WODrive.Library.LittleEndian

/-!
# Values on the wire (fibre/cpp/include/fibre/simple_serdes.hpp, protocol.hpp)

`SimpleSerializer<T, false>` reads and writes an integer byte by byte, until it has all
bytes or the buffer ends: a value that is read from too few bytes is not there, and of one
that is written to too little room the first bytes are written. `Codec<T>` does so for the
arithmetic types.

An integer is the bits of its two's complement, a `float` the 32 bits of its representation,
and a pair of iterators the list of the bytes between them, or the number of bytes between
them where bytes are written.
-/

namespace WODrive.Fibre

/-- The integral types that a serializer is used for. -/
inductive IntType where
  | int8 | uint8 | int16 | uint16 | int32 | uint32 | int64 | uint64
deriving DecidableEq

namespace IntType

/-- `std::numeric_limits<T>::digits`, which does not count the sign. -/
def digits : IntType → Nat
  | int8 => 7
  | uint8 => 8
  | int16 => 15
  | uint16 => 16
  | int32 => 31
  | uint32 => 32
  | int64 => 63
  | uint64 => 64

/-- The bits of the type. -/
def bits : IntType → Nat
  | int8 | uint8 => 8
  | int16 | uint16 => 16
  | int32 | uint32 => 32
  | int64 | uint64 => 64

abbrev Val (T : IntType) := BitVec T.bits

end IntType

/-! ## The serializer -/

namespace SimpleSerializer

variable (T : IntType)

def BIT_WIDTH : Nat := T.digits

def BYTE_WIDTH : Nat := (BIT_WIDTH T + 7) / 8

variable {T}

/-- The loop of `read`, with the result up to byte `i` and `n` bytes to go: the value, and
the bytes behind those it has taken. -/
def readLoop (i : Nat) (result : T.Val) : (n : Nat) → List Byte → Option T.Val × List Byte
  | 0, input => (some result, input)
  | _ + 1, [] => (none, [])
  | n + 1, byte :: input =>
    readLoop (i + 1) (result ||| byte.setWidth T.bits <<< (i <<< 3)) n input

variable (T) in
/-- `SimpleSerializer<T, false>::read` -/
def read (input : List Byte) : Option T.Val × List Byte := readLoop 0 0 (BYTE_WIDTH T) input

/-- The loop of `write`, with `n` bytes to go from byte `i` on: the bytes that it writes to
this much room, and whether these are all of them. -/
def writeLoop (value : T.Val) (i : Nat) : (n room : Nat) → List Byte × Bool
  | 0, _ => ([], true)
  | _ + 1, 0 => ([], false)
  | n + 1, room + 1 =>
    let byte := (value >>> (i <<< 3)).setWidth 8
    let (rest, success) := writeLoop value (i + 1) n room
    (byte :: rest, success)

/-- `SimpleSerializer<T, false>::write` -/
def write (value : T.Val) (room : Nat) : List Byte × Bool :=
  writeLoop value 0 (BYTE_WIDTH T) room

/-- Counting the sign, the digits fill the bytes. -/
theorem bits_eq (T : IntType) : T.bits = 8 * BYTE_WIDTH T := by
  cases T <;> rfl

theorem shift_eq (i : Nat) : i <<< 3 = 8 * i := by
  rw [Nat.shiftLeft_eq, Nat.mul_comm]

/-- From the bytes it has taken the loop has put together a number, and it goes on as long
as there are bytes. -/
theorem readLoop_eq (n : Nat) (taken input : List Byte) :
    (readLoop taken.length (BitVec.ofNat T.bits (LittleEndian.decode taken)) n input).1 =
      if n ≤ input.length then
        some (BitVec.ofNat T.bits (LittleEndian.decode (taken ++ input.take n)))
      else none := by
  induction n generalizing taken input with
  | zero =>
    rw [if_pos (Nat.zero_le _), List.take_zero, List.append_nil]
    rfl
  | succ n ih =>
    cases input with
    | nil => exact (if_neg (Nat.not_succ_le_zero n)).symm
    | cons byte input =>
      have hstep := ih (taken ++ [byte]) input
      rw [List.length_append, List.length_singleton, List.append_assoc] at hstep
      rw [readLoop, shift_eq, LittleEndian.or_shiftLeft, hstep, List.length_cons]
      exact if_congr Nat.succ_le_succ_iff.symm rfl rfl

/-- A value is read if there are enough bytes for it. -/
theorem read_eq (T : IntType) (input : List Byte) :
    (read T input).1 =
      if BYTE_WIDTH T ≤ input.length then
        some (BitVec.ofNat T.bits (LittleEndian.decode (input.take (BYTE_WIDTH T))))
      else none :=
  readLoop_eq (BYTE_WIDTH T) [] input

theorem writeLoop_eq (value : T.Val) (i n room : Nat) :
    (writeLoop value i n room).1 =
      ((List.range' i n).map fun j => BitVec.ofNat 8 (value.toNat / 256 ^ j)).take room := by
  induction n generalizing i room with
  | zero =>
    rw [List.range'_zero, List.map_nil, List.take_nil]
    rfl
  | succ n ih =>
    cases room with
    | zero => rfl
    | succ room =>
      rw [List.range'_succ, List.map_cons, List.take_succ_cons, ← ih (i + 1) room,
        ← LittleEndian.setWidth_shiftRight, ← shift_eq]
      rfl

/-- The bytes for which there is room are written. -/
theorem write_eq (value : T.Val) (room : Nat) :
    (write value room).1 = (LittleEndian.encode (BYTE_WIDTH T) value.toNat).take room := by
  rw [write, writeLoop_eq, ← List.range_eq_range']
  rfl

end SimpleSerializer

/-! ## The codecs -/

/-- The arithmetic types that have a `Codec`. -/
inductive ArithType where
  | bool
  | int (T : IntType)
  | float

/-- The type that `Codec<T>` reads and writes for a type. -/
def ArithType.wire : ArithType → IntType
  | bool => .uint8
  | int T => T
  | float => .uint32

abbrev ArithType.Val : ArithType → Type
  | bool => Bool
  | int T => T.Val
  | float => IntType.uint32.Val

/-- The number of bytes of a value on the wire. -/
def ArithType.width (T : ArithType) : Nat := SimpleSerializer.BYTE_WIDTH T.wire

namespace Codec

/-- `Codec<T>::decode`: the value, and the bytes behind those it has taken. -/
def decode : (T : ArithType) → List Byte → Option T.Val × List Byte
  | .bool, [] => (none, [])
  | .bool, byte :: buffer => (some (byte != 0), buffer)
  | .int T, buffer => SimpleSerializer.read T buffer
  | .float, buffer => SimpleSerializer.read .uint32 buffer

/-- `Codec<T>::encode`: the bytes that it writes to this much room, and whether these are all
of them. -/
def encode : (T : ArithType) → T.Val → (room : Nat) → List Byte × Bool
  | .bool, value, room => SimpleSerializer.write (T := .uint8) (BitVec.ofNat 8 value.toNat) room
  | .int _, value, room => SimpleSerializer.write value room
  | .float, value, room => SimpleSerializer.write value room

end Codec

namespace ArithType

/-- The value with these bits. A `bool` is any number but zero. -/
def ofNat : (T : ArithType) → Nat → T.Val
  | bool, x => x != 0
  | int T, x => BitVec.ofNat T.bits x
  | float, x => BitVec.ofNat 32 x

/-- The bits of a value. -/
def toNat : {T : ArithType} → T.Val → Nat
  | bool, value => value.toNat
  | int _, value => value.toNat
  | float, value => value.toNat

theorem ofNat_toNat : ∀ {T : ArithType} (value : T.Val), T.ofNat (toNat value) = value
  | bool, false => rfl
  | bool, true => rfl
  | int _, value => (BitVec.ofNat_toNat _ value).trans (BitVec.setWidth_eq value)
  | float, value => (BitVec.ofNat_toNat _ value).trans (BitVec.setWidth_eq value)

theorem toNat_lt : ∀ {T : ArithType} (value : T.Val), toNat value < 256 ^ T.width
  | bool, value => Nat.lt_of_lt_of_le value.toNat_lt (by decide)
  | int T, value => by
    rw [LittleEndian.pow_256]
    exact SimpleSerializer.bits_eq T ▸ value.isLt
  | float, value => by
    rw [LittleEndian.pow_256]
    exact value.isLt

end ArithType

namespace Codec

variable {T : ArithType}

/-- A value is decoded from its bytes, the lowest first, if they are all there. -/
theorem decode_eq : ∀ (T : ArithType) (buffer : List Byte),
    (decode T buffer).1 =
      if T.width ≤ buffer.length then
        some (T.ofNat (LittleEndian.decode (buffer.take T.width)))
      else none
  | .bool, [] => rfl
  | .bool, byte :: buffer => by
    have hbyte : LittleEndian.decode [byte] = byte.toNat := Nat.ofDigits_singleton
    have hbool : (byte != 0) = (byte.toNat != 0) := by
      rw [bne, bne, Bool.eq_iff_iff]
      simp [BitVec.toNat_eq]
    have hwidth : ArithType.bool.width = 1 := rfl
    have hlen : 1 ≤ (byte :: buffer).length := Nat.succ_le_succ (Nat.zero_le _)
    rw [hwidth, if_pos hlen, List.take_succ_cons, List.take_zero, hbyte]
    exact congrArg some hbool
  | .int T, buffer => SimpleSerializer.read_eq T buffer
  | .float, buffer => SimpleSerializer.read_eq .uint32 buffer

/-- Of the bytes of a value, the lowest first, those are encoded for which there is room. -/
theorem encode_eq : ∀ {T : ArithType} (value : T.Val) (room : Nat),
    (encode T value room).1 = (LittleEndian.encode T.width (ArithType.toNat value)).take room
  | .bool, value, room => by
    have hbyte : (BitVec.ofNat 8 value.toNat).toNat = value.toNat := by
      cases value <;> rfl
    exact (SimpleSerializer.write_eq (T := .uint8) _ room).trans
      (congrArg (fun x => (LittleEndian.encode 1 x).take room) hbyte)
  | .int _, value, room => SimpleSerializer.write_eq value room
  | .float, value, room => SimpleSerializer.write_eq (T := .uint32) value room

theorem length_encode_le (value : T.Val) (room : Nat) : (encode T value room).1.length ≤ room := by
  rw [encode_eq]
  exact List.length_take_le room _

/-- What is encoded into enough room is decoded again. -/
theorem decode_encode (value : T.Val) {room : Nat} (hroom : T.width ≤ room) :
    (decode T (encode T value room).1).1 = some value := by
  have hlen : (LittleEndian.encode T.width (ArithType.toNat value)).length = T.width :=
    LittleEndian.length_encode ..
  rw [encode_eq, List.take_of_length_le (Nat.le_trans (Nat.le_of_eq hlen) hroom), decode_eq,
    if_pos (Nat.le_of_eq hlen.symm), List.take_of_length_le (Nat.le_of_eq hlen),
    LittleEndian.decode_encode, Nat.mod_eq_of_lt (ArithType.toNat_lt value),
    ArithType.ofNat_toNat]

end Codec

/-- The codecs are such that calls of functions of the device can be made with them. -/
def ArithType.remoteCodec (T : ArithType) : Remote.Codec T.Val where
  length := T.width
  encode value := (Codec.encode T value T.width).1
  decode buffer := (Codec.decode T buffer).1
  length_encode value := by
    rw [Codec.encode_eq, List.length_take, LittleEndian.length_encode, Nat.min_self]
  decode_encode value := Codec.decode_encode value (Nat.le_refl _)

end WODrive.Fibre
