import WODrive.Can.Simple
import WODrive.Library.Binary32

/-!
# Signals in CAN messages (communication/can_helpers.hpp)

A signal is a field of consecutive bits of the message, read as a 64-bit word with the
byte order of the signal (`Signal.image`), its lowest bit at `Signal.shift`. A value is
stored there as the low bits of its own representation and read back as such.

`can_setSignal` clears the field and then sets the bits of the whole value: those that do
not fit into the field are set in the bits above it (`getLsbD_setField`). `codec_iff` says
when this goes well.
-/

namespace WODrive.Can

/-! ## Words and bytes -/

/-- `std::memcpy(msg.buf, &data, sizeof(data))` -/
def bufOfData (data : BitVec 64) : Vector (BitVec 8) 8 :=
  Vector.ofFn fun i => data.extractLsb' (8 * i.val) 8

theorem getLsbD_foldr_bytes (bytes : List (BitVec 8)) {i : Nat} (hi : i < 64) :
    (bytes.foldr (fun b (w : BitVec 64) => w <<< 8 ||| b.setWidth 64) 0).getLsbD i =
      (bytes.getD (i / 8) 0).getLsbD (i % 8) := by
  induction bytes generalizing i with
  | nil => simp
  | cons b bytes ih =>
    rw [List.foldr_cons, BitVec.getLsbD_or, BitVec.getLsbD_shiftLeft, BitVec.getLsbD_setWidth]
    by_cases hlow : i < 8
    · have hdiv : i / 8 = 0 := by omega
      have hmod : i % 8 = i := by omega
      simp [hlow, hi, hdiv, hmod]
    · have hdiv : i / 8 = (i - 8) / 8 + 1 := by omega
      have hmod : i % 8 = (i - 8) % 8 := by omega
      have hout : b.getLsbD i = false := BitVec.getLsbD_of_ge b i (by omega)
      rw [ih (by omega), hdiv, hmod, List.getD_cons_succ]
      simp [hlow, hi, hout]

/-- The bits of the word are those of the bytes, the lowest byte first. -/
theorem getLsbD_data (msg : Message) {i : Nat} (hi : i < 64) :
    msg.data.getLsbD i = (msg.buf.toList.getD (i / 8) 0).getLsbD (i % 8) := by
  have hbytes : (List.finRange 8).map msg.buf.get = msg.buf.toList := by
    apply List.ext_getElem
    · simp
    · intro j hj hj'
      rw [List.getElem_map, List.getElem_finRange, Vector.getElem_toList]
      rfl
  rw [← hbytes, ← getLsbD_foldr_bytes _ hi, List.foldr_map]
  rfl

@[simp] theorem data_bufOfData (msg : Message) (data : BitVec 64) :
    { msg with buf := bufOfData data }.data = data := by
  apply BitVec.eq_of_getLsbD_eq
  intro i hi
  have hdiv : i / 8 < 8 := by omega
  have hsum : 8 * (i / 8) + i % 8 = i := by omega
  have hmod : i % 8 < 8 := by omega
  rw [getLsbD_data _ hi, List.getD_eq_getElem?_getD]
  simp [bufOfData, hdiv, hsum, hmod]

/-! ## Signals -/

/-- `can_Signal_t` -/
structure Signal where
  startBit : BitVec 8
  length : BitVec 8
  isIntel : Bool
  factor : Float32
  offset : Float32

/-- An integral type `T`: its width, and whether it has a sign. -/
structure IntegralType where
  bits : Nat
  signed : Bool

/-- The number that a value of an integral type stands for. -/
def IntegralType.toInt (T : IntegralType) (val : BitVec T.bits) : Int :=
  if T.signed then val.toInt else val.toNat

/-- The bytes in the other order. -/
def Message.reverse (msg : Message) : Message := { msg with buf := msg.buf.reverse }

/-- `(1ULL << length) - 1` -/
def fieldMask (length : BitVec 8) : BitVec 64 := (1 : BitVec 64) <<< length.toNat - 1

/-- `can_getSignal<T>` -/
def canGetSignalAs (T : IntegralType) (msg : Message) (startBit length : BitVec 8)
    (isIntel : Bool) : BitVec T.bits :=
  let mask := fieldMask length
  let tempVal :=
    if isIntel then (msg.data >>> startBit.toNat) &&& mask
    else (msg.reverse.data >>> (64 - startBit.toNat - length.toNat)) &&& mask
  tempVal.setWidth T.bits

/-- `can_setSignal<T>` -/
def canSetSignal (T : IntegralType) (msg : Message) (val : BitVec T.bits)
    (startBit length : BitVec 8) (isIntel : Bool) (factor offset : Float32) : Message :=
  let scaledVal : BitVec T.bits :=
    BitVec.ofInt T.bits (Binary32.truncate ((Float32.ofInt (T.toInt val) - offset) / factor))
  let valAsBits := scaledVal.setWidth 64
  let mask := fieldMask length
  if isIntel then
    let data := msg.data
    let data := data &&& ~~~(mask <<< startBit.toNat)
    let data := data ||| valAsBits <<< startBit.toNat
    { msg with buf := bufOfData data }
  else
    let msg := msg.reverse
    let data := msg.data
    let data := data &&& ~~~(mask <<< (64 - startBit.toNat - length.toNat))
    let data := data ||| valAsBits <<< (64 - startBit.toNat - length.toNat)
    Message.reverse { msg with buf := bufOfData data }

/-! ## Fields of a word -/

/-- The message as a word in the byte order of the signal. -/
def Signal.image (signal : Signal) (msg : Message) : BitVec 64 :=
  if signal.isIntel then msg.data else msg.reverse.data

/-- Where the field starts in that word. -/
def Signal.shift (signal : Signal) : Nat :=
  if signal.isIntel then signal.startBit.toNat
  else 64 - signal.startBit.toNat - signal.length.toNat

/-- What `can_setSignal` does to the word. -/
def setField (data : BitVec 64) (shift : Nat) (length : BitVec 8) (valAsBits : BitVec 64) :
    BitVec 64 :=
  data &&& ~~~(fieldMask length <<< shift) ||| valAsBits <<< shift

@[simp] theorem reverse_reverse (msg : Message) : msg.reverse.reverse = msg := by
  simp [Message.reverse]

theorem getLsbD_fieldMask {length : BitVec 8} (hlen : length.toNat < 64) (i : Nat) :
    (fieldMask length).getLsbD i = decide (i < length.toNat) := by
  have hpow : 2 ^ length.toNat < 2 ^ 64 := Nat.pow_lt_pow_right (by decide) hlen
  have hmask : fieldMask length = BitVec.ofNat 64 (2 ^ length.toNat - 1) := by
    apply BitVec.eq_of_toNat_eq
    have hone : ((1 : BitVec 64) <<< length.toNat).toNat = 2 ^ length.toNat := by
      rw [BitVec.toNat_shiftLeft, Nat.shiftLeft_eq]
      exact (Nat.mod_eq_of_lt (by simpa using hpow)).trans (Nat.one_mul _)
    have hle : (1 : BitVec 64) ≤ (1 : BitVec 64) <<< length.toNat := by
      rw [BitVec.le_def, hone]
      exact Nat.two_pow_pos _
    unfold fieldMask
    rw [BitVec.toNat_sub_of_le hle, hone, BitVec.toNat_ofNat]
    exact (Nat.mod_eq_of_lt (by omega)).symm
  rw [hmask, BitVec.getLsbD_ofNat, Nat.testBit_two_pow_sub_one]
  by_cases hi : i < 64
  · simp [hi]
  · have hout : ¬ i < length.toNat := by omega
    simp [hi, hout]

/-- In the field the value, above it the rest of the value on top of what was there. -/
theorem getLsbD_setField (data valAsBits : BitVec 64) {shift : Nat} {length : BitVec 8}
    (hlen : length.toNat < 64) {i : Nat} (hi : i < 64) :
    (setField data shift length valAsBits).getLsbD i =
      if i < shift then data.getLsbD i
      else if i < shift + length.toNat then valAsBits.getLsbD (i - shift)
      else (data.getLsbD i || valAsBits.getLsbD (i - shift)) := by
  unfold setField
  simp only [BitVec.getLsbD_or, BitVec.getLsbD_and, BitVec.getLsbD_not,
    BitVec.getLsbD_shiftLeft, getLsbD_fieldMask hlen, hi, decide_true, Bool.true_and]
  by_cases hlow : i < shift
  · simp [hlow]
  · by_cases hfield : i < shift + length.toNat
    · have hin : i - shift < length.toNat := by omega
      simp [hlow, hfield, hin]
    · have hout : ¬ i - shift < length.toNat := by omega
      simp [hlow, hfield, hout]

/-- The protocol's own reading of a word is that of an unsigned type. -/
theorem canGetSignal_eq (msg : Message) (startBit length : BitVec 8) :
    canGetSignal msg startBit.toNat length.toNat =
      canGetSignalAs ⟨32, false⟩ msg startBit length true := by
  have hone : ((1 <<< length.toNat : Nat) : BitVec 64) = (1 : BitVec 64) <<< length.toNat := by
    apply BitVec.eq_of_toNat_eq
    simp [BitVec.toNat_shiftLeft]
  unfold canGetSignal canGetSignalAs fieldMask
  rw [← hone]
  rfl

/-! ## Storing and reading back -/

/-- A field that lies in the message, of a width that the type has. -/
structure Signal.Valid (signal : Signal) (T : IntegralType) : Prop where
  pos : 0 < signal.length.toNat
  lt : signal.length.toNat < 64
  bits : signal.length.toNat ≤ T.bits
  fits : signal.startBit.toNat + signal.length.toNat ≤ 64

/-- No scaling. -/
structure Signal.Unscaled (signal : Signal) : Prop where
  factor : signal.factor = 1
  offset : signal.offset = 0

def Signal.get (signal : Signal) (T : IntegralType) (msg : Message) : BitVec T.bits :=
  canGetSignalAs T msg signal.startBit signal.length signal.isIntel

def Signal.set (signal : Signal) (T : IntegralType) (val : BitVec T.bits) (msg : Message) :
    Message :=
  canSetSignal T msg val signal.startBit signal.length signal.isIntel signal.factor signal.offset

/-- The value is read back, as far as it fits into the field, and the rest of the message
is as before. -/
structure Codec (signal : Signal) (T : IntegralType) (val : BitVec T.bits) (msg : Message) :
    Prop where
  reads : ∀ i, ((signal.set T val msg |> signal.get T)).getLsbD i =
    (decide (i < signal.length.toNat) && val.getLsbD i)
  keeps : ∀ i, i < 64 → ¬ (signal.shift ≤ i ∧ i < signal.shift + signal.length.toNat) →
    (signal.image (signal.set T val msg)).getLsbD i = (signal.image msg).getLsbD i

/-- The bits of the value above the field fall outside of the message or on bits that are
set anyway. -/
def Signal.NoSpill (signal : Signal) (T : IntegralType) (val : BitVec T.bits) (msg : Message) :
    Prop :=
  ∀ i, signal.length.toNat ≤ i → signal.shift + i < 64 → val.getLsbD i = true →
    (signal.image msg).getLsbD (signal.shift + i) = true

theorem Signal.get_eq (signal : Signal) (T : IntegralType) (msg : Message) :
    signal.get T msg =
      ((signal.image msg >>> signal.shift) &&& fieldMask signal.length).setWidth T.bits := by
  unfold Signal.get canGetSignalAs Signal.image Signal.shift
  cases signal.isIntel <;> rfl

/-- Without scaling a number that single precision holds is stored as it is. -/
theorem Signal.image_set {signal : Signal} (h : signal.Unscaled) {T : IntegralType}
    {val : BitVec T.bits} (hval : Binary32.Represents (T.toInt val)) (msg : Message) :
    signal.image (signal.set T val msg) =
      setField (signal.image msg) signal.shift signal.length (val.setWidth 64) := by
  have hscaled : BitVec.ofInt T.bits
      (Binary32.truncate ((Float32.ofInt (T.toInt val) - signal.offset) / signal.factor)) =
      val := by
    rw [h.offset, h.factor, Binary32.sub_zero, Binary32.div_one, hval]
    unfold IntegralType.toInt
    split
    · exact BitVec.ofInt_toInt
    · rw [BitVec.ofInt_natCast, BitVec.ofNat_toNat, BitVec.setWidth_eq]
  unfold Signal.set canSetSignal Signal.image Signal.shift
  rw [hscaled]
  cases signal.isIntel with
  | false =>
    simp only [Bool.false_eq_true, if_false, reverse_reverse, data_bufOfData]
    rfl
  | true =>
    simp only [if_true, data_bufOfData]
    rfl

/-- **The signal codec**, exactly: the value is read back and the rest of the message kept
if and only if the bits of the value above the field do not spill. -/
theorem codec_iff {signal : Signal} {T : IntegralType} (hT : T.bits ≤ 64)
    (hvalid : signal.Valid T) (hunscaled : signal.Unscaled) {val : BitVec T.bits}
    (hval : Binary32.Represents (T.toInt val)) (msg : Message) :
    Codec signal T val msg ↔ signal.NoSpill T val msg := by
  have himage := Signal.image_set hunscaled hval msg
  have hshift : signal.shift + signal.length.toNat ≤ 64 := by
    have := hvalid.fits
    unfold Signal.shift
    split <;> omega
  have hbit : ∀ i, i < 64 → (val.setWidth 64).getLsbD i = val.getLsbD i := by
    intro i hi
    rw [BitVec.getLsbD_setWidth, decide_eq_true hi, Bool.true_and]
  have hlen := hvalid.bits
  have hreads : ∀ i, ((signal.set T val msg |> signal.get T)).getLsbD i =
      (decide (i < signal.length.toNat) && val.getLsbD i) := by
    intro i
    rw [Signal.get_eq, himage, BitVec.getLsbD_setWidth, BitVec.getLsbD_and,
      BitVec.getLsbD_ushiftRight, getLsbD_fieldMask hvalid.lt]
    by_cases hi : i < signal.length.toNat
    · have hlow : ¬ signal.shift + i < signal.shift := by omega
      have hfield : signal.shift + i < signal.shift + signal.length.toNat := by omega
      have hwidth : i < T.bits := by omega
      rw [getLsbD_setField _ _ hvalid.lt (by omega), if_neg hlow, if_pos hfield,
        Nat.add_sub_cancel_left, hbit i (by omega)]
      simp [hi, hwidth]
    · simp [hi]
  constructor
  · rintro ⟨-, hkeeps⟩ i hlow hi hset
    have hout : ¬ signal.shift + i < signal.shift := by omega
    have habove : ¬ signal.shift + i < signal.shift + signal.length.toNat := by omega
    have hkept := hkeeps (signal.shift + i) hi (by omega)
    rw [himage, getLsbD_setField _ _ hvalid.lt hi, if_neg hout, if_neg habove,
      Nat.add_sub_cancel_left, hbit i (by omega), hset, Bool.or_true] at hkept
    exact hkept.symm
  · intro hspill
    refine ⟨hreads, fun i hi hout => ?_⟩
    rw [himage, getLsbD_setField _ _ hvalid.lt hi]
    split
    next => rfl
    next hlow =>
      rw [if_neg (by omega), hbit (i - signal.shift) (by omega)]
      cases hset : val.getLsbD (i - signal.shift) with
      | false => rw [Bool.or_false]
      | true =>
        have hthere := hspill (i - signal.shift) (by omega) (by omega) hset
        rw [show signal.shift + (i - signal.shift) = i by omega] at hthere
        rw [hthere, Bool.or_true]

/-- A message of zeros. -/
def zeroMessage : Message where
  id := 0
  isExt := false
  rtr := false
  len := 8
  buf := Vector.replicate 8 0

/-- An unscaled signal of 8 bits in the first byte. -/
def byteSignal : Signal where
  startBit := 0
  length := 8
  isIntel := true
  factor := 1
  offset := 0

theorem codec_iff_unsigned : Codec byteSignal ⟨16, false⟩ 200 zeroMessage := by
  refine (codec_iff (T := ⟨16, false⟩) (by decide) ⟨by decide, by decide, by decide, by decide⟩
    ⟨rfl, rfl⟩ (by decide) zeroMessage).mpr ?_
  intro i hlow _ hset
  have hlt : i < 16 := by
    by_contra hge
    rw [BitVec.getLsbD_of_ge _ _ (Nat.not_lt.mp hge)] at hset
    cases hset
  have hnone : ∀ j : Fin 16, 8 ≤ j.val → (200 : BitVec 16).getLsbD j.val = false := by decide
  rw [hnone ⟨i, hlt⟩ hlow] at hset
  cases hset

/-- The value -1 of 16 bits in a field of 8 bits also sets the next byte. -/
theorem not_codec : ¬ Codec byteSignal ⟨16, true⟩ (-1) zeroMessage := by
  intro h
  have hspill := (codec_iff (T := ⟨16, true⟩) (by decide) ⟨by decide, by decide, by decide,
    by decide⟩ ⟨rfl, rfl⟩ (by decide) zeroMessage).mp h 8 (by decide) (by decide) (by decide)
  exact absurd hspill (by decide)

end WODrive.Can
