import WODrive.Fibre.Stream
import Mathlib.Data.BitVec
import Mathlib.Logic.Function.Basic

/-!
# Both byte orders of the serializer (fibre/cpp/include/fibre/simple_serdes.hpp)

`SimpleSerializer<T, BigEndian>` for every integral type, on memory: the four loops with
their cursor, their counter, and the end of the buffer, if one is given. The loops are
run with fuel.

- `write_spec`: in both byte orders a value is written to its bytes and to no others;
- `readLittle_spec`: the little-endian loop reads back what has been written;
- `readBig_cursor`, `readBig_short`: the big-endian loop counts up from `BYTE_WIDTH`
  instead of down. It ends at the end of the buffer, without a value, or when its
  counter has come round to 0;
- `roundTrip_iff`: a value comes back if it is not big-endian.
-/

namespace WODrive.Fibre.Serdes

/-- `size_t` of the target. -/
abbrev SizeT := BitVec 32

/-- The types for which `std::is_integral` holds: `bool`, and the signed and unsigned
types of a number of bytes. `std::numeric_limits<T>::digits` is an `int`. -/
inductive Integral where
  | bool
  | int (signed : Bool) (bytes : Nat) (pos : 0 < bytes) (small : 8 * bytes < 2 ^ 31)

namespace Integral

/-- `std::numeric_limits<T>::digits`, which does not count the sign. -/
def digits : Integral → Nat
  | bool => 1
  | int signed bytes _ _ => if signed then 8 * bytes - 1 else 8 * bytes

def BIT_WIDTH (T : Integral) : Nat := T.digits

def BYTE_WIDTH (T : Integral) : Nat := (T.BIT_WIDTH + 7) / 8

/-- The values, in two's complement. -/
abbrev Val : Integral → Type
  | bool => Bool
  | int _ bytes _ _ => BitVec (8 * bytes)

/-- `T result = 0` -/
def zero : (T : Integral) → T.Val
  | bool => false
  | int _ _ _ _ => 0

/-- `result |= static_cast<T>(byte) << shift` -/
def orByte : (T : Integral) → T.Val → Byte → SizeT → T.Val
  | bool, result, byte, shift =>
    result || (if byte ≠ 0 then 1#32 else 0#32) <<< shift.toNat != 0
  | int _ bytes _ _, result, byte, shift => result ||| byte.setWidth (8 * bytes) <<< shift.toNat

/-- `static_cast<uint8_t>((value >> shift) & 0xff)` -/
def byteAt : (T : Integral) → T.Val → SizeT → Byte
  | bool, value, shift => ((if value then 1#32 else 0#32) >>> shift.toNat &&& 0xff).setWidth 8
  | int signed bytes _ _, value, shift =>
    ((if signed then value.sshiftRight shift.toNat else value >>> shift.toNat) &&&
      0xff#(8 * bytes)).setWidth 8

end Integral

/-! ## The loops -/

abbrev Memory := Nat → Byte

/-- `end && !(*begin < end)` -/
def atEnd (stop : Option Nat) (begin : Nat) : Bool :=
  match stop with
  | some stop => !(begin < stop)
  | none => false

variable (T : Integral)

section Loops

variable (stop : Option Nat)

/-- The big-endian loop of `read`: it counts up. The result is the value, if there is one,
and the cursor. -/
def readBig (mem : Memory) : (fuel : Nat) → SizeT → T.Val → Nat → Option (Option T.Val × Nat)
  | 0, _, _, _ => none
  | fuel + 1, i, result, begin =>
    if i > 0 then
      if atEnd stop begin then some (none, begin)
      else
        let byte := mem begin
        readBig mem fuel (i + 1) (T.orByte result byte ((i - 1) <<< 3)) (begin + 1)
    else some (some result, begin)

/-- The little-endian loop of `read`. -/
def readLittle (mem : Memory) : (fuel : Nat) → SizeT → T.Val → Nat →
    Option (Option T.Val × Nat)
  | 0, _, _, _ => none
  | fuel + 1, i, result, begin =>
    if i.toNat < T.BYTE_WIDTH then
      if atEnd stop begin then some (none, begin)
      else
        let byte := mem begin
        readLittle mem fuel (i + 1) (T.orByte result byte (i <<< 3)) (begin + 1)
    else some (some result, begin)

/-- The big-endian loop of `write`: whether it has written all bytes, the memory, and the
cursor. -/
def writeBig (value : T.Val) : (fuel : Nat) → SizeT → Memory → Nat →
    Option (Bool × Memory × Nat)
  | 0, _, _, _ => none
  | fuel + 1, i, mem, begin =>
    if i > 0 then
      if atEnd stop begin then some (false, mem, begin)
      else
        let byte := T.byteAt value ((i - 1) <<< 3)
        writeBig value fuel (i - 1) (Function.update mem begin byte) (begin + 1)
    else some (true, mem, begin)

/-- The little-endian loop of `write`. -/
def writeLittle (value : T.Val) : (fuel : Nat) → SizeT → Memory → Nat →
    Option (Bool × Memory × Nat)
  | 0, _, _, _ => none
  | fuel + 1, i, mem, begin =>
    if i.toNat < T.BYTE_WIDTH then
      if atEnd stop begin then some (false, mem, begin)
      else
        let byte := T.byteAt value (i <<< 3)
        writeLittle value fuel (i + 1) (Function.update mem begin byte) (begin + 1)
    else some (true, mem, begin)

end Loops

/-- `SimpleSerializer<T, BigEndian>::read` -/
def read (bigEndian : Bool) (mem : Memory) (fuel begin : Nat) (stop : Option Nat) :
    Option (Option T.Val × Nat) :=
  if bigEndian then readBig T stop mem fuel (BitVec.ofNat 32 T.BYTE_WIDTH) T.zero begin
  else readLittle T stop mem fuel 0 T.zero begin

/-- `SimpleSerializer<T, BigEndian>::write` -/
def write (bigEndian : Bool) (value : T.Val) (mem : Memory) (fuel begin : Nat)
    (stop : Option Nat) : Option (Bool × Memory × Nat) :=
  if bigEndian then writeBig T stop value fuel (BitVec.ofNat 32 T.BYTE_WIDTH) mem begin
  else writeLittle T stop value fuel 0 mem begin

/-! ## What the serializer is to do -/

/-- There is room for `n` bytes. -/
def Room (stop : Option Nat) (begin n : Nat) : Prop := ∀ e ∈ stop, begin + n ≤ e

instance (stop : Option Nat) (begin n : Nat) : Decidable (Room stop begin n) := by
  unfold Room
  infer_instance

/-- No byte but those from `begin` to `stop` is different. -/
def Untouched (mem mem' : Memory) (begin stop : Nat) : Prop :=
  ∀ a, a < begin ∨ stop ≤ a → mem' a = mem a

/-- What is written into a buffer with enough room is read again, and a buffer with too
little room is noticed. -/
structure RoundTrip (bigEndian : Bool) (value : T.Val) (mem : Memory) (begin : Nat)
    (stop : Option Nat) : Prop where
  enough : Room stop begin T.BYTE_WIDTH → ∃ fuel mem',
    write T bigEndian value mem fuel begin stop = some (true, mem', begin + T.BYTE_WIDTH) ∧
      Untouched mem mem' begin (begin + T.BYTE_WIDTH) ∧
      ∃ fuel', read T bigEndian mem' fuel' begin stop =
        some (some value, begin + T.BYTE_WIDTH)
  short : ¬ Room stop begin T.BYTE_WIDTH →
    (∃ fuel mem' begin', write T bigEndian value mem fuel begin stop =
      some (false, mem', begin') ∧ ∀ e ∈ stop, Untouched mem mem' begin e) ∧
      ∃ fuel begin', read T bigEndian mem fuel begin stop = some (none, begin')

/-! ## Bytes of a value -/

variable {T}

theorem byteWidth_pos : 0 < T.BYTE_WIDTH := by
  cases T with
  | bool => decide
  | int signed bytes pos small =>
    cases signed <;> simp only [Integral.BYTE_WIDTH, Integral.BIT_WIDTH, Integral.digits] <;>
      simp <;> omega

theorem byteWidth_int (signed : Bool) (bytes : Nat) (pos : 0 < bytes)
    (small : 8 * bytes < 2 ^ 31) : (Integral.int signed bytes pos small).BYTE_WIDTH = bytes := by
  cases signed <;> simp only [Integral.BYTE_WIDTH, Integral.BIT_WIDTH, Integral.digits] <;>
    simp <;> omega

theorem byteWidth_small : 8 * T.BYTE_WIDTH < 2 ^ 31 := by
  cases T with
  | bool => decide
  | int signed bytes pos small =>
    rw [byteWidth_int]
    exact small

/-- The value of the lowest `k` bytes. -/
def low : (T : Integral) → T.Val → Nat → T.Val
  | .bool, value, k => if k = 0 then false else value
  | .int _ bytes _ _, value, k => (value.setWidth (8 * k)).setWidth (8 * bytes)

theorem low_zero (value : T.Val) : low T value 0 = T.zero := by
  cases T with
  | bool => rfl
  | int signed bytes pos small =>
    apply BitVec.eq_of_getLsbD_eq
    intro j hj
    simp [low, Integral.zero]

theorem low_byteWidth (value : T.Val) : low T value T.BYTE_WIDTH = value := by
  cases T with
  | bool => rfl
  | int signed bytes pos small =>
    rw [byteWidth_int, low, BitVec.setWidth_eq, BitVec.setWidth_eq]

theorem shift_toNat {i : SizeT} (hi : i.toNat < T.BYTE_WIDTH) : (i <<< 3).toNat = 8 * i.toNat := by
  have := byteWidth_small (T := T)
  rw [BitVec.toNat_shiftLeft, Nat.shiftLeft_eq]
  omega

/-- A bit of a byte of the value. The sign that a shift brings in is not among them. -/
theorem byteAt_int {signed : Bool} {bytes : Nat} (pos : 0 < bytes) (small : 8 * bytes < 2 ^ 31)
    (value : BitVec (8 * bytes)) {shift : SizeT} (hshift : shift.toNat + 8 ≤ 8 * bytes)
    {j : Nat} (hj : j < 8) :
    (Integral.byteAt (.int signed bytes pos small) value shift).getLsbD j =
      value.getLsbD (shift.toNat + j) := by
  have hmask : (0xff#(8 * bytes)).getLsbD j = true := by
    rw [BitVec.getLsbD_ofNat, Nat.testBit_two_pow_sub_one 8 j]
    simp only [Bool.and_eq_true, decide_eq_true_eq]
    omega
  cases signed with
  | true =>
    simp only [Integral.byteAt, if_true, BitVec.getLsbD_setWidth, BitVec.getLsbD_and, hmask,
      BitVec.getLsbD_sshiftRight, hj, decide_true, Bool.true_and, Bool.and_true]
    rw [decide_eq_false (by omega), if_pos (by omega)]
    rfl
  | false =>
    simp only [Integral.byteAt, Bool.false_eq_true, if_false, BitVec.getLsbD_setWidth,
      BitVec.getLsbD_and, hmask, BitVec.getLsbD_ushiftRight, hj, decide_true, Bool.true_and,
      Bool.and_true]

/-- One byte more of a value that is put together from its bytes. -/
theorem orByte_byteAt (value : T.Val) {i : SizeT} (hi : i.toNat < T.BYTE_WIDTH) :
    T.orByte (low T value i.toNat) (T.byteAt value (i <<< 3)) (i <<< 3) =
      low T value (i.toNat + 1) := by
  have hshift := shift_toNat hi
  cases T with
  | bool =>
    have hi0 : i = 0#32 := by
      apply BitVec.eq_of_toNat_eq
      have : Integral.bool.BYTE_WIDTH = 1 := rfl
      simp
      omega
    subst hi0
    cases value <;> rfl
  | int signed bytes pos small =>
    rw [byteWidth_int] at hi
    have hbits := @byteAt_int signed bytes pos small value (i <<< 3) (by omega)
    apply BitVec.eq_of_getLsbD_eq
    intro j hj
    simp only [Integral.orByte, low, BitVec.getLsbD_or, BitVec.getLsbD_shiftLeft,
      BitVec.getLsbD_setWidth, hshift, hj, decide_true, Bool.true_and]
    by_cases h1 : j < 8 * i.toNat
    · rw [decide_eq_true h1, decide_eq_true (show j < 8 * (i.toNat + 1) by omega)]
      simp
    · rw [decide_eq_false h1]
      by_cases h2 : j < 8 * (i.toNat + 1)
      · rw [hbits (by omega), hshift, decide_eq_true h2,
          show 8 * i.toNat + (j - 8 * i.toNat) = j by omega,
          decide_eq_true (show j - 8 * i.toNat < 8 * bytes by omega)]
        simp
      · rw [decide_eq_false h2, BitVec.getLsbD_of_ge (Integral.byteAt _ value (i <<< 3))
          (j - 8 * i.toNat) (by omega)]
        simp

/-! ## Writing -/

variable {stop : Option Nat}

theorem atEnd_of_room {begin n : Nat} (h : Room stop begin (n + 1)) : atEnd stop begin = false := by
  cases stop with
  | none => rfl
  | some e =>
    have := h e rfl
    simp [atEnd]
    omega

theorem Room.next {begin n : Nat} (h : Room stop begin (n + 1)) : Room stop (begin + 1) n := by
  intro e he
  have := h e he
  omega

/-- The bytes `f` in the memory from `begin` on. -/
def store (mem : Memory) (begin n : Nat) (f : Nat → Byte) : Memory :=
  fun a => if begin ≤ a ∧ a < begin + n then f (a - begin) else mem a

theorem store_zero (mem : Memory) (begin : Nat) (f : Nat → Byte) : store mem begin 0 f = mem := by
  funext a
  exact if_neg (by omega)

theorem store_succ (mem : Memory) (begin n : Nat) (f : Nat → Byte) :
    store (Function.update mem begin (f 0)) (begin + 1) n (fun j => f (j + 1)) =
      store mem begin (n + 1) f := by
  funext a
  unfold store
  by_cases h1 : begin + 1 ≤ a ∧ a < begin + 1 + n
  · rw [if_pos h1, if_pos (by omega)]
    exact congrArg f (show a - (begin + 1) + 1 = a - begin by omega)
  · rw [if_neg h1]
    by_cases h2 : a = begin
    · rw [h2, Function.update_self, if_pos (by omega), Nat.sub_self]
    · rw [Function.update_of_ne h2, if_neg (by omega)]

theorem store_untouched (mem : Memory) (begin n : Nat) (f : Nat → Byte) :
    Untouched mem (store mem begin n f) begin (begin + n) :=
  fun _ ha => if_neg (by omega)

theorem succ_toNat {i : SizeT} (hi : i.toNat < T.BYTE_WIDTH) : (i + 1).toNat = i.toNat + 1 := by
  have := byteWidth_small (T := T)
  rw [BitVec.toNat_add, show (1 : SizeT).toNat = 1 from rfl]
  omega

theorem pred_toNat {i : SizeT} (hi : 0 < i.toNat) : (i - 1).toNat = i.toNat - 1 := by
  have := i.isLt
  rw [BitVec.toNat_sub, show (1 : SizeT).toNat = 1 from rfl]
  omega

theorem pos_iff {i : SizeT} : i > 0 ↔ 0 < i.toNat := by
  rw [gt_iff_lt, BitVec.lt_def]
  rfl

/-- The little-endian loop with room for the `n` bytes to go. -/
theorem writeLittle_spec (value : T.Val) (n : Nat) (i : SizeT) (mem : Memory) (begin : Nat)
    (hi : i.toNat + n = T.BYTE_WIDTH) (hroom : Room stop begin n) :
    writeLittle T stop value (n + 1) i mem begin =
      some (true,
        store mem begin n (fun j => T.byteAt value (BitVec.ofNat 32 (i.toNat + j) <<< 3)),
        begin + n) := by
  induction n generalizing i mem begin with
  | zero => rw [writeLittle, if_neg (by omega), store_zero, Nat.add_zero]
  | succ n ih =>
    have hsucc := succ_toNat (T := T) (i := i) (by omega)
    rw [writeLittle, if_pos (by omega), atEnd_of_room hroom]
    simp only [Bool.false_eq_true, if_false]
    rw [ih (i + 1) _ (begin + 1) (by omega) hroom.next, ← store_succ]
    simp only [hsucc, Nat.add_zero, BitVec.ofNat_toNat, BitVec.setWidth_eq,
      Nat.add_assoc, Nat.add_comm 1]

/-- The big-endian loop with room for the `n` bytes to go. -/
theorem writeBig_spec (value : T.Val) (n : Nat) (i : SizeT) (mem : Memory) (begin : Nat)
    (hi : i.toNat = n) (hroom : Room stop begin n) :
    writeBig T stop value (n + 1) i mem begin =
      some (true,
        store mem begin n (fun j => T.byteAt value (BitVec.ofNat 32 (n - 1 - j) <<< 3)),
        begin + n) := by
  induction n generalizing i mem begin with
  | zero => rw [writeBig, if_neg (by rw [pos_iff]; omega), store_zero, Nat.add_zero]
  | succ n ih =>
    have hpred := pred_toNat (i := i) (by omega)
    have hpred' : i - 1 = BitVec.ofNat 32 n := by
      apply BitVec.eq_of_toNat_eq
      have := i.isLt
      rw [hpred, BitVec.toNat_ofNat]
      omega
    rw [writeBig, if_pos (by rw [pos_iff]; omega), atEnd_of_room hroom]
    simp only [Bool.false_eq_true, if_false]
    rw [ih (i - 1) _ (begin + 1) (by omega) hroom.next, ← store_succ]
    simp only [hpred', Nat.add_sub_cancel, Nat.sub_zero, Nat.sub_sub, Nat.add_comm 1,
      Nat.add_assoc]

/-- The bytes of a value in either order. -/
def bytesOf (T : Integral) (bigEndian : Bool) (value : T.Val) (j : Nat) : Byte :=
  T.byteAt value (BitVec.ofNat 32 (if bigEndian then T.BYTE_WIDTH - 1 - j else j) <<< 3)

theorem byteWidth_toNat : (BitVec.ofNat 32 T.BYTE_WIDTH).toNat = T.BYTE_WIDTH := by
  have := byteWidth_small (T := T)
  rw [BitVec.toNat_ofNat]
  omega

/-- Both orders: the bytes of the value, and no others, are written. -/
theorem write_spec (bigEndian : Bool) (value : T.Val) (mem : Memory) {begin : Nat}
    (hroom : Room stop begin T.BYTE_WIDTH) :
    write T bigEndian value mem (T.BYTE_WIDTH + 1) begin stop =
      some (true, store mem begin T.BYTE_WIDTH (bytesOf T bigEndian value),
        begin + T.BYTE_WIDTH) := by
  cases bigEndian with
  | true => exact writeBig_spec value T.BYTE_WIDTH _ mem begin byteWidth_toNat hroom
  | false =>
    have hbytes : bytesOf T false value = fun j =>
        T.byteAt value (BitVec.ofNat 32 ((0 : SizeT).toNat + j) <<< 3) := by
      funext j
      simp [bytesOf]
    rw [hbytes]
    exact writeLittle_spec value T.BYTE_WIDTH 0 mem begin (Nat.zero_add _) hroom

/-- A loop of `write` that comes to the end of the buffer. -/
structure CutShort (mem : Memory) (begin e : Nat) (result : Option (Bool × Memory × Nat)) :
    Prop where
  failed : ∃ mem' begin', result = some (false, mem', begin') ∧ Untouched mem mem' begin e

theorem CutShort.here (mem : Memory) {begin e : Nat} :
    CutShort mem begin e (some (false, mem, begin)) :=
  ⟨mem, begin, rfl, fun _ _ => rfl⟩

/-- A byte is stored before the loop goes on. -/
theorem CutShort.store {mem : Memory} {begin e : Nat} {byte : Byte} (hlt : begin < e)
    {result : Option (Bool × Memory × Nat)}
    (h : CutShort (Function.update mem begin byte) (begin + 1) e result) :
    CutShort mem begin e result := by
  obtain ⟨mem', begin', heq, huntouched⟩ := h.failed
  refine ⟨mem', begin', heq, fun a ha => ?_⟩
  rw [huntouched a (by omega), Function.update_of_ne (by omega)]

theorem writeLittle_short (value : T.Val) {e : Nat} (k : Nat) (i : SizeT) (mem : Memory)
    (begin : Nat) (hk : begin + k = max begin e) (hi : i.toNat + k < T.BYTE_WIDTH) :
    CutShort mem begin e (writeLittle T (some e) value (k + 1) i mem begin) := by
  induction k generalizing i mem begin with
  | zero =>
    rw [writeLittle, if_pos (by omega), if_pos (by simp [atEnd]; omega)]
    exact .here mem
  | succ k ih =>
    have hsucc := succ_toNat (T := T) (i := i) (by omega)
    rw [writeLittle, if_pos (by omega), if_neg (by simp [atEnd]; omega)]
    exact .store (by omega) (ih (i + 1) _ (begin + 1) (by omega) (by omega))

theorem writeBig_short (value : T.Val) {e : Nat} (k : Nat) (i : SizeT) (mem : Memory)
    (begin : Nat) (hk : begin + k = max begin e) (hi : k < i.toNat) :
    CutShort mem begin e (writeBig T (some e) value (k + 1) i mem begin) := by
  induction k generalizing i mem begin with
  | zero =>
    rw [writeBig, if_pos (by rw [pos_iff]; omega), if_pos (by simp [atEnd]; omega)]
    exact .here mem
  | succ k ih =>
    have hpred := pred_toNat (i := i) (by omega)
    rw [writeBig, if_pos (by rw [pos_iff]; omega), if_neg (by simp [atEnd]; omega)]
    exact .store (by omega) (ih (i - 1) _ (begin + 1) (by omega) (by omega))

/-! ## Reading -/

/-- The little-endian loop goes on with what is left of a value. -/
theorem readLittle_spec (value : T.Val) (mem : Memory) (n : Nat) (i : SizeT) (begin : Nat)
    (hi : i.toNat + n = T.BYTE_WIDTH) (hroom : Room stop begin n)
    (hmem : ∀ j < n, mem (begin + j) =
      T.byteAt value (BitVec.ofNat 32 (i.toNat + j) <<< 3)) :
    readLittle T stop mem (n + 1) i (low T value i.toNat) begin =
      some (some value, begin + n) := by
  induction n generalizing i begin with
  | zero =>
    rw [readLittle, if_neg (by omega), show i.toNat = T.BYTE_WIDTH by omega, low_byteWidth]
    rfl
  | succ n ih =>
    have hlt : i.toNat < T.BYTE_WIDTH := by omega
    have hsucc := succ_toNat hlt
    have hbyte : mem begin = T.byteAt value (i <<< 3) := by
      have := hmem 0 (Nat.succ_pos n)
      simpa using this
    rw [readLittle, if_pos hlt, atEnd_of_room hroom]
    simp only [Bool.false_eq_true, if_false]
    rw [hbyte, orByte_byteAt value hlt, ← hsucc,
      ih (i + 1) (begin + 1) (by omega) hroom.next, Nat.add_assoc, Nat.add_comm 1]
    intro j hj
    have := hmem (j + 1) (by omega)
    rwa [hsucc, Nat.add_assoc, Nat.add_comm 1, Nat.add_assoc, Nat.add_comm 1]

theorem readLittle_short {mem : Memory} {e : Nat} (k : Nat) (i : SizeT) (result : T.Val)
    (begin : Nat) (hk : begin + k = max begin e) (hi : i.toNat + k < T.BYTE_WIDTH) :
    readLittle T (some e) mem (k + 1) i result begin = some (none, begin + k) := by
  induction k generalizing i result begin with
  | zero =>
    rw [readLittle, if_pos (by omega), if_pos (by simp [atEnd]; omega)]
    rfl
  | succ k ih =>
    have hsucc := succ_toNat (T := T) (i := i) (by omega)
    rw [readLittle, if_pos (by omega), if_neg (by simp [atEnd]; omega),
      ih (i + 1) _ (begin + 1) (by omega) (by omega), Nat.add_assoc, Nat.add_comm 1]

theorem readBig_short {mem : Memory} {e : Nat} (k : Nat) (i : SizeT) (result : T.Val)
    (begin : Nat) (hk : begin + k = max begin e) (hi : 0 < i.toNat)
    (hwrap : i.toNat + k < 2 ^ 32) :
    readBig T (some e) mem (k + 1) i result begin = some (none, begin + k) := by
  induction k generalizing i result begin with
  | zero =>
    rw [readBig, if_pos (pos_iff.mpr hi), if_pos (by simp [atEnd]; omega)]
    rfl
  | succ k ih =>
    have hsucc : (i + 1).toNat = i.toNat + 1 := by
      rw [BitVec.toNat_add, show (1 : SizeT).toNat = 1 from rfl]
      omega
    rw [readBig, if_pos (pos_iff.mpr hi), if_neg (by simp [atEnd]; omega),
      ih (i + 1) _ (begin + 1) (by omega) (by omega) (by omega), Nat.add_assoc, Nat.add_comm 1]

/-- Where the big-endian loop gives a value, its counter has come round to 0, and the
cursor has gone as far. -/
theorem readBig_cursor {mem : Memory} (fuel : Nat) {i : SizeT} {result : T.Val} {begin : Nat}
    {value : T.Val} {begin' : Nat} (hi : 0 < i.toNat)
    (h : readBig T stop mem fuel i result begin = some (some value, begin')) :
    begin' + i.toNat = begin + 2 ^ 32 := by
  induction fuel generalizing i result begin with
  | zero => exact absurd h (by simp [readBig])
  | succ fuel ih =>
    rw [readBig, if_pos (pos_iff.mpr hi)] at h
    cases hend : atEnd stop begin with
    | true =>
      rw [if_pos hend] at h
      exact absurd h (by simp)
    | false =>
      rw [if_neg (by simp [hend])] at h
      have hlt := i.isLt
      have hadd : (i + 1).toNat = (i.toNat + 1) % 2 ^ 32 := BitVec.toNat_add i 1
      by_cases hwrap : i.toNat + 1 = 2 ^ 32
      · have hzero : (i + 1).toNat = 0 := by omega
        cases fuel with
        | zero => exact absurd h (by simp [readBig])
        | succ fuel =>
          rw [readBig, if_neg (by rw [pos_iff]; omega)] at h
          have : begin + 1 = begin' := by simpa using congrArg (Option.map Prod.snd) h
          omega
      · have := ih (by omega) h
        omega

/-! ## The round trip -/

theorem not_room_iff {begin n : Nat} :
    ¬ Room stop begin n ↔ ∃ e, stop = some e ∧ e < begin + n := by
  cases stop with
  | none => simp [Room]
  | some e => simp [Room]

/-- In a buffer that is too short both fail, in either order. -/
theorem fails_short (bigEndian : Bool) (value : T.Val) (mem : Memory) {begin : Nat}
    (hshort : ¬ Room stop begin T.BYTE_WIDTH) :
    (∃ fuel mem' begin', write T bigEndian value mem fuel begin stop =
      some (false, mem', begin') ∧ ∀ e ∈ stop, Untouched mem mem' begin e) ∧
      ∃ fuel begin', read T bigEndian mem fuel begin stop = some (none, begin') := by
  obtain ⟨e, rfl, he⟩ := not_room_iff.mp hshort
  have hsmall := byteWidth_small (T := T)
  have hpos := byteWidth_pos (T := T)
  have hwidth := byteWidth_toNat (T := T)
  have hzero : (0 : SizeT).toNat = 0 := rfl
  have hk : begin + (e - begin) = max begin e := by omega
  cases bigEndian with
  | true =>
    obtain ⟨mem', begin', heq, huntouched⟩ :=
      (writeBig_short value (e - begin) (BitVec.ofNat 32 T.BYTE_WIDTH) mem begin hk
        (by omega)).failed
    refine ⟨⟨e - begin + 1, mem', begin', heq, fun e' he' => ?_⟩, e - begin + 1, _,
      readBig_short (e - begin) (BitVec.ofNat 32 T.BYTE_WIDTH) T.zero begin hk (by omega)
        (by omega)⟩
    rwa [← Option.some.inj he']
  | false =>
    obtain ⟨mem', begin', heq, huntouched⟩ :=
      (writeLittle_short value (e - begin) 0 mem begin hk (by omega)).failed
    refine ⟨⟨e - begin + 1, mem', begin', heq, fun e' he' => ?_⟩, e - begin + 1, _,
      readLittle_short (e - begin) 0 T.zero begin hk (by omega)⟩
    rwa [← Option.some.inj he']

/-- With room for it, a big-endian value does not come back: the reader's cursor would have
to be elsewhere. -/
theorem not_roundTrip_big (value : T.Val) (mem : Memory) {begin : Nat} {stop : Option Nat}
    (hroom : Room stop begin T.BYTE_WIDTH) : ¬ RoundTrip T true value mem begin stop := by
  intro h
  obtain ⟨_, mem', -, -, fuel, hread⟩ := h.enough hroom
  have hsmall := byteWidth_small (T := T)
  have hpos := byteWidth_pos (T := T)
  have hwidth := byteWidth_toNat (T := T)
  have hcursor := readBig_cursor fuel (by omega) hread
  omega

/-- **When a value comes back**: if it is not big-endian. A buffer that is too short is
always noticed. -/
theorem roundTrip_iff (T : Integral) (bigEndian : Bool) (value : T.Val) (mem : Memory)
    (begin : Nat) (stop : Option Nat) :
    RoundTrip T bigEndian value mem begin stop ↔
      bigEndian = false ∨ ¬ Room stop begin T.BYTE_WIDTH := by
  constructor
  · intro h
    by_cases hroom : Room stop begin T.BYTE_WIDTH
    · cases bigEndian with
      | true => exact absurd h (not_roundTrip_big value mem hroom)
      | false => exact Or.inl rfl
    · exact Or.inr hroom
  · intro h
    refine ⟨fun hroom => ?_, fun hshort => fails_short bigEndian value mem hshort⟩
    obtain rfl : bigEndian = false := h.resolve_right (not_not.mpr hroom)
    have hread := readLittle_spec value (store mem begin T.BYTE_WIDTH (bytesOf T false value))
      T.BYTE_WIDTH 0 begin (Nat.zero_add _) hroom fun j hj => by
        rw [store, if_pos (by omega), Nat.add_sub_cancel_left, bytesOf]
        simp
    rw [show (0 : SizeT).toNat = 0 from rfl, low_zero] at hread
    exact ⟨T.BYTE_WIDTH + 1, _, write_spec false value mem hroom,
      store_untouched mem begin T.BYTE_WIDTH _, T.BYTE_WIDTH + 1, hread⟩

/-- `SimpleSerializer<uint16_t, true>` in a buffer of two bytes: it is written, and nothing
is read. -/
theorem bigEndian_not_read :
    ¬ RoundTrip (.int false 2 (by decide) (by decide)) true 0x1234 (fun _ => 0) 0 (some 2) := by
  exact not_roundTrip_big _ _ (by decide)

end WODrive.Fibre.Serdes
