import WODrive.Fibre.Decoders
import WODrive.Fibre.RequestEncoder
import WODrive.Fibre.Residue

/-!
# The header of a request, decoded (fibre/cpp/include/fibre/decoders.hpp)

The decoder of the header is the counterpart of its encoder: a chain of two varint decoders
behind the check of the CRC8 blocks.

- `Accepts`: a decoder that is fed with the bytes it waits for, in whatever portions, waits
  for those that are left;
- `accepts_streamDecoderFromByteDecoder`, `accepts_decoderChain`: the parts of the header;
- `crc8_loop_blocks`, `crc8_loop_flipped`: all blocks, and blocks with errors;
- `requestHeader_roundTrip`: the header of every request.
-/

namespace WODrive.Fibre

open Wrap StreamDecoderFromBlockDecoder

universe u v

/-! ## Decoder implementations -/

/-- The variables of a `VarintByteDecoder`, and the variable that it writes. -/
structure VarintByteDecoder (w : Nat) where
  stateVariable : BitVec w
  bitPos : Nat
  status : Result
  done : Bool

namespace VarintByteDecoder

variable {w : Nat}

def initial (stateVariable : BitVec w) : VarintByteDecoder w where
  stateVariable := stateVariable
  bitPos := 0
  status := 0
  done := false

def processByte (inputByte : Byte) (s : VarintByteDecoder w) : Result × VarintByteDecoder w :=
  let stateVariable := if s.bitPos = 0 then 0 else s.stateVariable
  let septet : BitVec w := (inputByte &&& 0x7f).setWidth w
  let stateVariable := stateVariable ||| (septet <<< s.bitPos)
  if (stateVariable >>> s.bitPos) &&& 0x7f#w ≠ septet then
    -- overflow
    (-1, { s with stateVariable := stateVariable, status := -1 })
  else
    let bitPos := s.bitPos + 7
    let done := inputByte &&& 0x80 = 0
    let status : Result := if done ∨ bitPos < w then 0 else -1
    (status, { stateVariable := stateVariable, bitPos := bitPos, status := status, done := done })

end VarintByteDecoder

/-- `VarintByteDecoder` -/
def varintByteDecoder (w : Nat) : ByteDecoder w (VarintByteDecoder w) where
  getStatus s := s.status
  getExpectedBytes s := if s.done then 0 else 1
  processByte := VarintByteDecoder.processByte

/-- `VarintStreamDecoder` -/
def varintStreamDecoder (w : Nat) : StreamDecoder w (VarintByteDecoder w) :=
  streamDecoderFromByteDecoder (varintByteDecoder w)

/-- The variables of a `CRC8BlockDecoder`. -/
structure CRC8BlockDecoder (σ : Type u) where
  innerDecoder : σ
  status : Result
  currentCrc : BitVec 8

/-- `CRC8BlockDecoder` -/
def crc8BlockDecoder {w : Nat} {σ : Type u} (POLYNOMIAL : BitVec 8)
    (innerDecoder : StreamDecoder w σ) :
    BlockDecoder w CRC8_BLOCKSIZE (CRC8BlockDecoder σ) where
  getStatus s := s.status
  getExpectedBlocks s := crc8BlockCount (innerDecoder.getExpectedBytes s.innerDecoder)
  processBlock inputBlock s :=
    let bytes := inputBlock.toList.take (CRC8_BLOCKSIZE - 1)
    let crc := Crc.crc POLYNOMIAL s.currentCrc bytes
    if crc ≠ inputBlock.get ⟨CRC8_BLOCKSIZE - 1, crc8Pos_lt⟩ then
      (-1, { s with status := -1, currentCrc := crc })
    else
      let (status, _, inner) := innerDecoder.processBytes bytes s.innerDecoder
      (status, { innerDecoder := inner, status := status, currentCrc := crc })

/-- `CRC8StreamDecoder` -/
def crc8StreamDecoder {w : Nat} {σ : Type u} (POLYNOMIAL : BitVec 8)
    (innerDecoder : StreamDecoder w σ) :
    StreamDecoder w (StreamDecoderFromBlockDecoder CRC8_BLOCKSIZE (CRC8BlockDecoder σ)) :=
  streamDecoderFromBlockDecoder (crc8BlockDecoder POLYNOMIAL innerDecoder)

/-- `DecoderChain<>` -/
def decoderChainNil (w : Nat) : StreamDecoder w Unit where
  getStatus _ := 0
  getExpectedBytes _ := 0
  processBytes _ s := (0, 0, s)

/-- `DecoderChain<TDecoder, TDecoders...>` -/
def decoderChain {w : Nat} {σ : Type u} {τ : Type v} (thisDecoder : StreamDecoder w σ)
    (subsequentDecoders : StreamDecoder w τ) : StreamDecoder w (σ × τ) where
  getStatus s :=
    let thisStatus := thisDecoder.getStatus s.1
    let subsequentStatus := subsequentDecoders.getStatus s.2
    if thisStatus ≠ 0 then thisStatus
    else if subsequentStatus ≠ 0 then subsequentStatus
    else 0
  getExpectedBytes s :=
    thisDecoder.getExpectedBytes s.1 + subsequentDecoders.getExpectedBytes s.2
  processBytes input s :=
    if thisDecoder.getExpectedBytes s.1 ≠ 0 then
      let (status, chunk, this) := thisDecoder.processBytes input s.1
      if status ≠ 0 then (status, chunk, this, s.2)
      else if (input.drop chunk).length = 0 then (0, chunk, this, s.2)
      else
        let (status, processed, subsequent) :=
          subsequentDecoders.processBytes (input.drop chunk) s.2
        (status, chunk + processed, this, subsequent)
    else
      let (status, processed, subsequent) := subsequentDecoders.processBytes input s.2
      (status, processed, s.1, subsequent)

/-! ## What a decoder waits for -/

/-- In a state that waits for some bytes (`waits`), and for no others, the decoder is without
error and expects at most `k` bytes; portions of these bytes, the last with anything behind
it, are processed as far as they are waited for. -/
structure Accepts {w : Nat} {σ : Type u} (decoder : StreamDecoder w σ)
    (waits : σ → List Byte → Prop) (k : Nat) : Prop where
  expected_le : ∀ s, (decoder.getExpectedBytes s).toNat ≤ k
  status : ∀ {s bytes}, waits s bytes → decoder.getStatus s = 0
  expected_eq_zero : ∀ {s bytes}, waits s bytes → (decoder.getExpectedBytes s = 0 ↔ bytes = [])
  processBytes : ∀ {s bytes}, waits s bytes → ∀ n after,
    let r := decoder.processBytes ((bytes ++ after).take n) s
    r.1 = 0 ∧ r.2.1 = min n bytes.length ∧ waits r.2.2 (bytes.drop n)

/-- The same of a byte decoder. -/
structure AcceptsBytes {w : Nat} {σ : Type u} (byteDecoder : ByteDecoder w σ)
    (waits : σ → List Byte → Prop) (k : Nat) : Prop where
  expected_le : ∀ s, (byteDecoder.getExpectedBytes s).toNat ≤ k
  status : ∀ {s bytes}, waits s bytes → byteDecoder.getStatus s = 0
  expected_eq_zero : ∀ {s bytes}, waits s bytes →
    (byteDecoder.getExpectedBytes s = 0 ↔ bytes = [])
  processByte : ∀ {s byte bytes}, waits s (byte :: bytes) →
    waits (byteDecoder.processByte byte s).2 bytes

section FromBytes

variable {w k : Nat} {σ : Type u} {byteDecoder : ByteDecoder w σ} {waits : σ → List Byte → Prop}

theorem AcceptsBytes.loop (h : AcceptsBytes byteDecoder waits k) {s : σ} {bytes : List Byte}
    (hs : waits s bytes) (n : Nat) (after : List Byte) :
    (byteDecoder.loop ((bytes ++ after).take n) s).1 = min n bytes.length ∧
      waits (byteDecoder.loop ((bytes ++ after).take n) s).2 (bytes.drop n) := by
  induction bytes generalizing s n with
  | nil =>
    have hzero := (h.expected_eq_zero hs).mpr rfl
    have hstop : byteDecoder.loop (([] ++ after).take n) s = (0, s) := by
      cases ([] ++ after).take n with
      | nil => rfl
      | cons byte bytes => rw [ByteDecoder.loop, if_neg (fun hc => hc.2 hzero)]
    rw [hstop, List.drop_nil]
    exact ⟨(Nat.min_zero n).symm, hs⟩
  | cons byte bytes ih =>
    cases n with
    | zero => exact ⟨(Nat.zero_min _).symm, hs⟩
    | succ n =>
      have hne : byteDecoder.getExpectedBytes s ≠ 0 := fun hzero =>
        absurd ((h.expected_eq_zero hs).mp hzero) (List.cons_ne_nil _ _)
      obtain ⟨hprocessed, hwaits⟩ := ih (h.processByte hs) n
      rw [List.cons_append, List.take_succ_cons, ByteDecoder.loop, if_pos ⟨h.status hs, hne⟩]
      refine ⟨?_, hwaits⟩
      show _ + 1 = _
      rw [hprocessed, List.length_cons, Nat.add_min_add_right]

theorem accepts_streamDecoderFromByteDecoder (h : AcceptsBytes byteDecoder waits k) :
    Accepts (streamDecoderFromByteDecoder byteDecoder) waits k where
  expected_le := h.expected_le
  status := h.status
  expected_eq_zero := h.expected_eq_zero
  processBytes hs n after := by
    obtain ⟨hprocessed, hwaits⟩ := h.loop hs n after
    exact ⟨h.status hwaits, hprocessed, hwaits⟩

end FromBytes

/-- The end of a chain waits for nothing. -/
theorem accepts_decoderChainNil (w : Nat) :
    Accepts (decoderChainNil w) (fun _ bytes => bytes = []) 0 where
  expected_le _ := (BitVec.toNat_zero).le
  status _ := rfl
  expected_eq_zero hs := iff_of_true rfl hs
  processBytes := by
    rintro s bytes rfl n after
    exact ⟨rfl, (Nat.min_zero n).symm, List.drop_nil⟩

section Chain

variable {w k₁ k₂ : Nat} {σ : Type u} {τ : Type v} {this : StreamDecoder w σ}
  {subsequent : StreamDecoder w τ} {waits₁ : σ → List Byte → Prop}
  {waits₂ : τ → List Byte → Prop}

/-- A chain waits for the bytes of its decoders one after the other. -/
def WaitsChain (waits₁ : σ → List Byte → Prop) (waits₂ : τ → List Byte → Prop) (s : σ × τ)
    (bytes : List Byte) : Prop :=
  ∃ bytes₁ bytes₂, bytes = bytes₁ ++ bytes₂ ∧ waits₁ s.1 bytes₁ ∧ waits₂ s.2 bytes₂

/-- What the first decoder does not process is for those that follow it. -/
theorem decoderChain_processBytes (h₁ : Accepts this waits₁ k₁)
    (h₂ : Accepts subsequent waits₂ k₂) {s : σ × τ} {bytes : List Byte}
    (hs : WaitsChain waits₁ waits₂ s bytes) (n : Nat) (after : List Byte) :
    let r := (decoderChain this subsequent).processBytes ((bytes ++ after).take n) s
    r.1 = 0 ∧ r.2.1 = min n bytes.length ∧ WaitsChain waits₁ waits₂ r.2.2 (bytes.drop n) := by
  obtain ⟨bytes₁, bytes₂, rfl, hs₁, hs₂⟩ := hs
  rw [List.append_assoc]
  by_cases hzero : this.getExpectedBytes s.1 = 0
  · obtain rfl := (h₁.expected_eq_zero hs₁).mp hzero
    simp only [decoderChain, if_neg (not_not.mpr hzero)]
    obtain ⟨hstatus, hprocessed, hwaits⟩ := h₂.processBytes hs₂ n after
    exact ⟨hstatus, hprocessed, [], bytes₂.drop n, rfl, hs₁, hwaits⟩
  obtain ⟨hstatus₁, hchunk, hwaits₁⟩ := h₁.processBytes hs₁ n (bytes₂ ++ after)
  have hrest : ((bytes₁ ++ (bytes₂ ++ after)).take n).drop (min n bytes₁.length) =
      (bytes₂ ++ after).take (n - bytes₁.length) := by
    rw [List.take_append]
    rcases Nat.le_total n bytes₁.length with hle | hge
    · rw [Nat.min_eq_left hle, Nat.sub_eq_zero_of_le hle, List.take_zero, List.append_nil,
        List.drop_take_self]
    · rw [Nat.min_eq_right hge, List.take_of_length_le hge, List.drop_left]
  simp only [decoderChain, if_pos hzero, hstatus₁, hchunk, hrest, not_true_eq_false, if_false,
    Ne]
  rw [List.drop_append, List.length_append]
  by_cases hend : ((bytes₂ ++ after).take (n - bytes₁.length)).length = 0
  · -- nothing is left for those that follow
    rw [if_pos hend]
    have hnone : bytes₂.drop (n - bytes₁.length) = bytes₂ ∧
        min n bytes₁.length = min n (bytes₁.length + bytes₂.length) := by
      rw [List.length_take, List.length_append] at hend
      rcases Nat.eq_zero_or_pos (n - bytes₁.length) with hn | hn
      · rw [hn]
        exact ⟨List.drop_zero, by omega⟩
      · obtain rfl : bytes₂ = [] := List.length_eq_zero_iff.mp (by omega)
        exact ⟨List.drop_nil, by rw [List.length_nil, Nat.add_zero]⟩
    exact ⟨rfl, hnone.2, bytes₁.drop n, bytes₂, by rw [hnone.1], hwaits₁, hs₂⟩
  · rw [if_neg hend]
    obtain ⟨hstatus₂, hprocessed, hwaits₂⟩ :=
      h₂.processBytes hs₂ (n - bytes₁.length) after
    refine ⟨hstatus₂, ?_, bytes₁.drop n, bytes₂.drop (n - bytes₁.length), rfl, hwaits₁, hwaits₂⟩
    show min n bytes₁.length + _ = _
    rw [hprocessed]
    omega

theorem accepts_decoderChain (h₁ : Accepts this waits₁ k₁) (h₂ : Accepts subsequent waits₂ k₂)
    (hk : k₁ + k₂ < 2 ^ w) :
    Accepts (decoderChain this subsequent) (WaitsChain waits₁ waits₂) (k₁ + k₂) where
  expected_le s := by
    have hle₁ := h₁.expected_le s.1
    have hle₂ := h₂.expected_le s.2
    simp only [decoderChain, BitVec.toNat_add]
    rw [Nat.mod_eq_of_lt (by omega)]
    omega
  status := by
    rintro s bytes ⟨bytes₁, bytes₂, rfl, hs₁, hs₂⟩
    simp only [decoderChain, h₁.status hs₁, h₂.status hs₂]
    rfl
  expected_eq_zero := by
    rintro s bytes ⟨bytes₁, bytes₂, rfl, hs₁, hs₂⟩
    have hle₁ := h₁.expected_le s.1
    have hle₂ := h₂.expected_le s.2
    rw [List.append_eq_nil_iff, ← h₁.expected_eq_zero hs₁, ← h₂.expected_eq_zero hs₂]
    simp only [decoderChain, eq_zero_iff_toNat, BitVec.toNat_add]
    rw [Nat.mod_eq_of_lt (by omega)]
    omega
  processBytes hs := decoderChain_processBytes h₁ h₂ hs

end Chain

/-! ## Varints -/

theorem getLsbD_septetMask (w i : Nat) :
    (0x7f#w).getLsbD i = (decide (i < w) && decide (i < 7)) := by
  rw [BitVec.getLsbD_ofNat]
  congr 1
  exact Nat.testBit_two_pow_sub_one 7 i

theorem getLsbD_mark (i : Nat) : (0x80#8).getLsbD i = decide (i = 7) := by
  rw [BitVec.getLsbD_ofNat, show (0x80 : Nat) = 2 ^ 7 from rfl, Nat.testBit_two_pow]
  by_cases hi : i = 7
  · subst hi
    rfl
  · simp [hi, Ne.symm hi]

/-- The seven bits of a value from `bitPos` on. -/
def septet {w : Nat} (value : BitVec w) (bitPos : Nat) : Byte :=
  ((value >>> bitPos) &&& 0x7f#w).setWidth 8

theorem getLsbD_septet {w : Nat} (value : BitVec w) (bitPos i : Nat) :
    (septet value bitPos).getLsbD i = (decide (i < 7) && value.getLsbD (bitPos + i)) := by
  rw [septet, BitVec.getLsbD_setWidth, BitVec.getLsbD_and, BitVec.getLsbD_ushiftRight,
    getLsbD_septetMask]
  by_cases hi : i < 7
  · by_cases hw : bitPos + i < w
    · simp [hi, show i < 8 by omega, show i < w by omega]
    · simp [BitVec.getLsbD_of_ge value (bitPos + i) (by omega)]
  · simp [hi]

/-- The mark does not touch the seven bits. -/
theorem septet_mark {w : Nat} (value : BitVec w) (bitPos : Nat) :
    (septet value bitPos ||| 0x80) &&& 0x7f = septet value bitPos := by
  apply BitVec.eq_of_getLsbD_eq
  intro i hi
  show ((septet value bitPos ||| 0x80#8) &&& 0x7f#8).getLsbD i = _
  rw [BitVec.getLsbD_and, BitVec.getLsbD_or, getLsbD_septetMask, getLsbD_mark, getLsbD_septet]
  by_cases h7 : i < 7
  · simp [h7, hi, show i ≠ 7 by omega]
  · simp [h7]

theorem septet_and_septetMask {w : Nat} (value : BitVec w) (bitPos : Nat) :
    septet value bitPos &&& 0x7f = septet value bitPos := by
  apply BitVec.eq_of_getLsbD_eq
  intro i hi
  show (septet value bitPos &&& 0x7f#8).getLsbD i = _
  rw [BitVec.getLsbD_and, getLsbD_septetMask, getLsbD_septet]
  by_cases h7 : i < 7
  · simp [h7, hi]
  · simp [h7]

theorem septet_and_mark {w : Nat} (value : BitVec w) (bitPos : Nat) :
    septet value bitPos &&& 0x80 = 0 := by
  apply BitVec.eq_of_getLsbD_eq
  intro i _
  show (septet value bitPos &&& 0x80#8).getLsbD i = (0#8).getLsbD i
  rw [BitVec.getLsbD_and, getLsbD_mark, getLsbD_septet, BitVec.getLsbD_zero]
  by_cases h7 : i = 7
  · simp [h7]
  · simp [h7]

theorem septet_mark_and_mark {w : Nat} (value : BitVec w) (bitPos : Nat) :
    (septet value bitPos ||| 0x80) &&& 0x80 ≠ 0 := by
  intro h
  have hbit := congrArg (fun x : Byte => x.getLsbD 7) h
  have hset : ((septet value bitPos ||| 0x80#8) &&& 0x80#8).getLsbD 7 = true := by
    rw [BitVec.getLsbD_and, BitVec.getLsbD_or, getLsbD_mark]
    simp
  exact absurd (hset.symm.trans hbit) (by decide)

namespace VarintByteDecoder

variable {w : Nat}

/-- The variable holds the bits of the value below `bitPos`, as soon as it is written. -/
def Holds (value : BitVec w) (s : VarintByteDecoder w) : Prop :=
  ∀ i, (if s.bitPos = 0 then 0 else s.stateVariable).getLsbD i =
    (decide (i < s.bitPos) && value.getLsbD i)

/-- The decoder waits for the bytes of a value, or has decoded it. -/
def Waits (value : BitVec w) (s : VarintByteDecoder w) (bytes : List Byte) : Prop :=
  s.status = 0 ∧
    (s.done = true ∧ bytes = [] ∧ s.stateVariable = value ∨
      s.done = false ∧ bytes = varint value s.bitPos ∧ s.bitPos < w ∧ Holds value s)

/-- The variable after seven more bits of the value. -/
theorem getLsbD_stored {value : BitVec w} {s : VarintByteDecoder w} (hholds : Holds value s)
    (i : Nat) :
    ((if s.bitPos = 0 then 0 else s.stateVariable) |||
        ((septet value s.bitPos).setWidth w <<< s.bitPos)).getLsbD i =
      (decide (i < s.bitPos + 7) && value.getLsbD i) := by
  rw [BitVec.getLsbD_or, hholds, BitVec.getLsbD_shiftLeft, BitVec.getLsbD_setWidth,
    getLsbD_septet]
  by_cases hw : i < w
  · by_cases hlow : i < s.bitPos
    · simp [hlow, hw, show i < s.bitPos + 7 by omega]
    · have hsub : s.bitPos + (i - s.bitPos) = i := by omega
      by_cases hmid : i < s.bitPos + 7
      · simp [hlow, hw, hmid, hsub, show i - s.bitPos < w by omega,
          show i - s.bitPos < 7 by omega]
      · simp [hlow, hw, hmid, show ¬(i - s.bitPos < 7) by omega]
  · simp [hw, BitVec.getLsbD_of_ge value i (by omega)]

/-- The seven bits fit into the variable. -/
theorem stored_septet {value stored : BitVec w} {bitPos : Nat}
    (hstored : ∀ i, stored.getLsbD i = (decide (i < bitPos + 7) && value.getLsbD i)) :
    (stored >>> bitPos) &&& 0x7f#w = (septet value bitPos).setWidth w := by
  apply BitVec.eq_of_getLsbD_eq
  intro i hi
  rw [BitVec.getLsbD_and, BitVec.getLsbD_ushiftRight, hstored, getLsbD_septetMask,
    BitVec.getLsbD_setWidth, getLsbD_septet]
  by_cases h7 : i < 7
  · simp [hi, h7]
  · simp [h7]

/-- A byte that carries the next seven bits of the value. -/
theorem processByte_septet {value : BitVec w} {s : VarintByteDecoder w} {byte : Byte}
    (hbyte : byte &&& 0x7f = septet value s.bitPos) (hholds : Holds value s) :
    ∃ stored : BitVec w,
      (∀ i, stored.getLsbD i = (decide (i < s.bitPos + 7) && value.getLsbD i)) ∧
        (processByte byte s).2 =
          { stateVariable := stored
            bitPos := s.bitPos + 7
            status := if byte &&& 0x80 = 0 ∨ s.bitPos + 7 < w then 0 else -1
            done := byte &&& 0x80 = 0 } := by
  refine ⟨_, getLsbD_stored hholds, ?_⟩
  simp only [processByte, hbyte]
  rw [if_neg (not_not.mpr (stored_septet (getLsbD_stored hholds)))]

theorem processByte_waits {value : BitVec w} {s : VarintByteDecoder w} {byte : Byte}
    {bytes : List Byte} (hs : Waits value s (byte :: bytes)) :
    Waits value (processByte byte s).2 bytes := by
  obtain ⟨-, ⟨_, hnil, _⟩ | ⟨-, hbytes, hpos, hholds⟩⟩ := hs
  · cases hnil
  rw [varint, ← septet] at hbytes
  split at hbytes
  next hmore =>
    -- a byte with the mark, and more bytes to follow
    obtain ⟨rfl, rfl⟩ := List.cons.inj hbytes
    obtain ⟨stored, hstored, hnext⟩ := processByte_septet (septet_mark value s.bitPos) hholds
    rw [hnext, if_pos (.inr hmore.1)]
    refine ⟨rfl, .inr ⟨decide_eq_false (septet_mark_and_mark value s.bitPos), rfl, hmore.1, ?_⟩⟩
    intro i
    rw [if_neg (Nat.succ_ne_zero _)]
    exact hstored i
  next hlast =>
    obtain ⟨rfl, rfl⟩ := List.cons.inj hbytes
    have hmark := septet_and_mark value s.bitPos
    obtain ⟨stored, hstored, hnext⟩ :=
      processByte_septet (septet_and_septetMask value s.bitPos) hholds
    rw [hnext, if_pos (.inl hmark)]
    refine ⟨rfl, .inl ⟨decide_eq_true hmark, rfl, ?_⟩⟩
    -- the value has no bits behind those stored
    apply BitVec.eq_of_getLsbD_eq
    intro i hi
    rw [hstored]
    by_cases hlow : i < s.bitPos + 7
    · simp [hlow]
    · have hshift : value >>> (s.bitPos + 7) = 0 := by
        by_contra hne
        exact hlast ⟨by omega, hne⟩
      have hbit := congrArg (fun x : BitVec w => x.getLsbD (i - (s.bitPos + 7))) hshift
      simp only [BitVec.getLsbD_ushiftRight] at hbit
      rw [Nat.add_sub_of_le (by omega)] at hbit
      rw [hbit]
      simp

theorem waits_initial (hw : 0 < w) (value stateVariable : BitVec w) :
    Waits value (initial stateVariable) (varint value 0) := by
  refine ⟨rfl, .inr ⟨rfl, rfl, hw, fun i => ?_⟩⟩
  simp [initial]

/-- What a decoder that waits for nothing has decoded. -/
theorem stateVariable_of_waits {value : BitVec w} {s : VarintByteDecoder w}
    (hs : Waits value s []) : s.stateVariable = value := by
  obtain ⟨-, ⟨_, _, hvalue⟩ | ⟨_, hbytes, _⟩⟩ := hs
  · exact hvalue
  · exact absurd hbytes.symm (varint_ne_nil value s.bitPos)

end VarintByteDecoder

theorem accepts_varintStreamDecoder {w : Nat} (hw : 0 < w) (value : BitVec w) :
    Accepts (varintStreamDecoder w) (VarintByteDecoder.Waits value) 1 := by
  refine accepts_streamDecoderFromByteDecoder
    { expected_le := fun s => ?_, status := fun hs => hs.1, expected_eq_zero := ?_,
      processByte := VarintByteDecoder.processByte_waits }
  · simp only [varintByteDecoder]
    split
    · exact (BitVec.toNat_zero).trans_le (Nat.zero_le 1)
    · exact (BitVec.toNat_one hw).le
  · rintro s bytes ⟨-, ⟨hdone, rfl, _⟩ | ⟨hdone, rfl, _⟩⟩
    · simp [varintByteDecoder, hdone]
    · have hone : (1 : BitVec w) ≠ 0 := by
        rw [Ne, eq_zero_iff_toNat]
        exact (BitVec.toNat_one hw).trans_ne Nat.one_ne_zero
      have hne := varint_ne_nil value s.bitPos
      simpa [varintByteDecoder, hdone, hne] using hone

/-! ## CRC8 blocks -/

section Crc8

variable {w k : Nat} {σ : Type u} {inner : StreamDecoder w σ} {waits : σ → List Byte → Prop}

/-- Between two blocks: the inner decoder waits for the bytes, and the CRC is that of all
blocks before. -/
structure Ready (waits : σ → List Byte → Prop) (crc : BitVec 8) (bytes : List Byte)
    (s : StreamDecoderFromBlockDecoder CRC8_BLOCKSIZE (CRC8BlockDecoder σ)) : Prop where
  bufferPos : s.bufferPos = 0
  status : s.blockDecoder.status = 0
  currentCrc : s.blockDecoder.currentCrc = crc
  inner : waits s.blockDecoder.innerDecoder bytes

theorem crc8_expects (POLYNOMIAL : BitVec 8) (h : Accepts inner waits k)
    (hk : 2 * k + 8 ≤ 2 ^ w) : Expects (crc8BlockDecoder POLYNOMIAL inner) := by
  intro s
  have hle := h.expected_le s.innerDecoder
  show (crc8BlockCount _).toNat * 4 < _
  rw [toNat_crc8BlockCount hk hle]
  omega

theorem crc8_active (POLYNOMIAL : BitVec 8) (h : Accepts inner waits k)
    (hk : 2 * k + 8 ≤ 2 ^ w) {crc : BitVec 8} {bytes : List Byte}
    {s : StreamDecoderFromBlockDecoder CRC8_BLOCKSIZE (CRC8BlockDecoder σ)}
    (hs : Ready waits crc bytes s) :
    Active (crc8BlockDecoder POLYNOMIAL inner) s ↔ bytes ≠ [] := by
  have hblocks : crc8BlockCount (inner.getExpectedBytes s.blockDecoder.innerDecoder) = 0 ↔
      inner.getExpectedBytes s.blockDecoder.innerDecoder = 0 := by
    rw [eq_zero_iff_toNat, eq_zero_iff_toNat, toNat_crc8BlockCount hk (h.expected_le _)]
    omega
  rw [active_iff (crc8_expects POLYNOMIAL h hk), Ne, Ne, ← h.expected_eq_zero hs.inner,
    ← hblocks]
  exact and_iff_right hs.status

theorem block_parts {block : Vector Byte CRC8_BLOCKSIZE} {front : List Byte} {last : Byte}
    (hblock : block.toList = front ++ [last]) :
    block.toList.take (CRC8_BLOCKSIZE - 1) = front ∧
      block.get ⟨CRC8_BLOCKSIZE - 1, crc8Pos_lt⟩ = last := by
  have hlength : front.length = CRC8_BLOCKSIZE - 1 := by
    have htotal := congrArg List.length hblock
    rw [Vector.length_toList, List.length_append, List.length_singleton] at htotal
    omega
  constructor
  · rw [hblock, ← hlength, List.take_left]
  · have hget : block.toList[CRC8_BLOCKSIZE - 1]? = some last := by
      rw [hblock, ← hlength, List.getElem?_append_right (Nat.le_refl _), Nat.sub_self]
      rfl
    rw [Vector.getElem?_toList, Vector.getElem?_eq_getElem crc8Pos_lt] at hget
    exact Option.some.inj hget

/-- A block with its CRC. -/
theorem crc8_processBlock (POLYNOMIAL : BitVec 8) (h : Accepts inner waits k)
    {s : CRC8BlockDecoder σ} {bytes : List Byte} (hs : waits s.innerDecoder bytes)
    {block : Vector Byte CRC8_BLOCKSIZE}
    (hblock : block.toList =
      payload bytes ++ [Crc.crc POLYNOMIAL s.currentCrc (payload bytes)]) :
    let r := ((crc8BlockDecoder POLYNOMIAL inner).processBlock block s).2
    r.status = 0 ∧ r.currentCrc = Crc.crc POLYNOMIAL s.currentCrc (payload bytes) ∧
      waits r.innerDecoder (bytes.drop (CRC8_BLOCKSIZE - 1)) := by
  obtain ⟨hfront, hlast⟩ := block_parts hblock
  obtain ⟨hstatus, -, hwaits⟩ := h.processBytes hs (CRC8_BLOCKSIZE - 1)
    (List.replicate (CRC8_BLOCKSIZE - 1) 0)
  simp only [crc8BlockDecoder, hfront, hlast]
  rw [if_neg (not_not.mpr rfl)]
  exact ⟨hstatus, rfl, hwaits⟩

/-- A block whose last byte is not the CRC of those before it. -/
theorem crc8_processBlock_error (POLYNOMIAL : BitVec 8) (inner : StreamDecoder w σ)
    {s : CRC8BlockDecoder σ} {block : Vector Byte CRC8_BLOCKSIZE} {front : List Byte}
    {last : Byte} (hblock : block.toList = front ++ [last])
    (hcrc : Crc.crc POLYNOMIAL s.currentCrc front ≠ last) :
    ((crc8BlockDecoder POLYNOMIAL inner).processBlock block s).2.status = -1 := by
  obtain ⟨hfront, hlast⟩ := block_parts hblock
  simp only [crc8BlockDecoder, hfront, hlast]
  rw [if_pos hcrc]

/-- **All blocks.** -/
theorem crc8_loop_blocks (POLYNOMIAL : BitVec 8) (h : Accepts inner waits k)
    (hk : 2 * k + 8 ≤ 2 ^ w) {crc : BitVec 8} {bytes : List Byte}
    {s : StreamDecoderFromBlockDecoder CRC8_BLOCKSIZE (CRC8BlockDecoder σ)}
    (hs : Ready waits crc bytes s) :
    let r := loop (crc8BlockDecoder POLYNOMIAL inner) (crc8Blocks POLYNOMIAL crc bytes) s
    r.1 = (crc8Blocks POLYNOMIAL crc bytes).length ∧ ∃ crc', Ready waits crc' [] r.2 := by
  induction crc, bytes using crc8Blocks.induct POLYNOMIAL generalizing s with
  | case1 crc =>
    rw [crc8Blocks, if_pos rfl, loop_nil]
    exact ⟨rfl, crc, hs⟩
  | case2 crc bytes hne ih =>
    have hactive := (crc8_active POLYNOMIAL h hk hs).mpr hne
    rw [crc8Blocks_of_ne_nil _ _ hne]
    have hlength : (payload bytes ++ [Crc.crc POLYNOMIAL crc (payload bytes)]).length =
        CRC8_BLOCKSIZE := by
      rw [List.length_append, length_payload]
      rfl
    obtain ⟨r, block, hblock, hpos, hr, hloop⟩ := loop_block hlength
      (crc8Blocks POLYNOMIAL (Crc.crc POLYNOMIAL crc (payload bytes))
        (bytes.drop (CRC8_BLOCKSIZE - 1))) hactive hs.bufferPos
    rw [← hs.currentCrc] at hblock
    obtain ⟨hstatus, hcrc, hwaits⟩ := crc8_processBlock POLYNOMIAL h hs.inner hblock
    rw [← hr] at hstatus hcrc hwaits
    rw [hs.currentCrc] at hcrc
    obtain ⟨hprocessed, hready⟩ := ih ⟨hpos, hstatus, hcrc, hwaits⟩
    rw [hloop]
    refine ⟨?_, hready⟩
    show CRC8_BLOCKSIZE + _ = _
    rw [hprocessed, List.length_append, List.length_append, length_payload]
    rfl

/-- A CRC8 is one byte. -/
theorem framed_one (POLYNOMIAL init : BitVec 8) (message : List Byte) :
    framed 1 POLYNOMIAL init message = message ++ [Crc.crc POLYNOMIAL init message] := by
  simp [framed, Crc.bigEndian, Crc.topByte]

/-- A damaged block is not one that the decoder accepts. -/
theorem crc_flipped_ne {POLYNOMIAL crc : BitVec 8} (hguards : Guards 1 POLYNOMIAL crc)
    {message errors front : List Byte} {last : Byte}
    (hlength : errors.length = (framed 1 POLYNOMIAL crc message).length)
    (hburst : IsBurst 8 errors)
    (hflipped : flipped (framed 1 POLYNOMIAL crc message) errors = front ++ [last]) :
    Crc.crc POLYNOMIAL crc front ≠ last := by
  rintro rfl
  have hdetected := (hguards message).2 errors hlength hburst
  rw [hflipped, ← framed_one] at hdetected
  exact hdetected (hguards front).1

/-- A block with a burst of errors in it. -/
theorem crc8_processBlock_flipped {POLYNOMIAL : BitVec 8} (inner : StreamDecoder w σ)
    {s : CRC8BlockDecoder σ} (hguards : Guards 1 POLYNOMIAL s.currentCrc) {bytes here : List Byte}
    (hhere : here.length = (framed 1 POLYNOMIAL s.currentCrc (payload bytes)).length)
    (hburst : IsBurst 8 here) {block : Vector Byte CRC8_BLOCKSIZE}
    (hread : block.toList = flipped (framed 1 POLYNOMIAL s.currentCrc (payload bytes)) here) :
    ((crc8BlockDecoder POLYNOMIAL inner).processBlock block s).2.status = -1 := by
  have hne : block.toList ≠ [] := List.ne_nil_of_length_pos (by
    rw [Vector.length_toList]
    decide)
  have hparts : block.toList = block.toList.dropLast ++ [block.toList.getLast hne] :=
    (List.dropLast_concat_getLast hne).symm
  exact crc8_processBlock_error POLYNOMIAL inner hparts
    (crc_flipped_ne hguards hhere hburst (hread.symm.trans hparts))

/-- **Blocks with errors**: the first block that is damaged is detected. -/
theorem crc8_loop_flipped {POLYNOMIAL : BitVec 8}
    (hguards : ∀ crc, Guards 1 POLYNOMIAL crc) (h : Accepts inner waits k)
    (hk : 2 * k + 8 ≤ 2 ^ w) {crc : BitVec 8} {bytes errors : List Byte}
    {s : StreamDecoderFromBlockDecoder CRC8_BLOCKSIZE (CRC8BlockDecoder σ)}
    (hs : Ready waits crc bytes s)
    (hlength : errors.length = (crc8Blocks POLYNOMIAL crc bytes).length)
    (hburst : IsBurst 8 errors) :
    getStatus (crc8BlockDecoder POLYNOMIAL inner)
      (loop (crc8BlockDecoder POLYNOMIAL inner)
        (flipped (crc8Blocks POLYNOMIAL crc bytes) errors) s).2 ≠ 0 := by
  induction crc, bytes using crc8Blocks.induct POLYNOMIAL generalizing s errors with
  | case1 crc =>
    rw [crc8Blocks, if_pos rfl] at hlength
    obtain rfl := List.length_eq_zero_iff.mp hlength
    exact absurd hburst.nonempty List.not_mem_nil
  | case2 crc bytes hne ih =>
    have hactive := (crc8_active POLYNOMIAL h hk hs).mpr hne
    rw [crc8Blocks_of_ne_nil _ _ hne, ← framed_one] at hlength ⊢
    have hblock : (framed 1 POLYNOMIAL crc (payload bytes)).length = CRC8_BLOCKSIZE := by
      rw [framed_one, List.length_append, length_payload]
      rfl
    -- the errors in this block, and those in the blocks after it
    obtain ⟨here, later, rfl, hhere⟩ : ∃ here later, errors = here ++ later ∧
        here.length = (framed 1 POLYNOMIAL crc (payload bytes)).length := by
      refine ⟨errors.take CRC8_BLOCKSIZE, errors.drop CRC8_BLOCKSIZE,
        (List.take_append_drop _ errors).symm, ?_⟩
      rw [List.length_take, hlength, List.length_append, hblock,
        Nat.min_eq_left (Nat.le_add_right _ _)]
    rw [List.length_append, List.length_append, hhere, Nat.add_right_inj] at hlength
    rw [flipped_append hhere]
    obtain ⟨r, block, hread, hpos, hr, hloop⟩ := loop_block
      ((length_flipped hhere).trans hblock)
      (flipped (crc8Blocks POLYNOMIAL (Crc.crc POLYNOMIAL crc (payload bytes))
        (bytes.drop (CRC8_BLOCKSIZE - 1))) later) hactive hs.bufferPos
    rw [hloop]
    by_cases herror : true ∈ Crc.bits here
    · rw [← hs.currentCrc] at hhere hread
      have hstatus := crc8_processBlock_flipped inner (hguards _) hhere (hburst.left herror) hread
      rw [← hr] at hstatus
      have hstop : ¬Active (crc8BlockDecoder POLYNOMIAL inner) r := fun hactive =>
        absurd (hstatus.symm.trans hactive.1) (by decide)
      rw [loop_stop _ (fun hc => hstop hc.1)]
      show r.blockDecoder.status ≠ 0
      rw [hstatus]
      decide
    · rw [flipped_zero hhere herror, framed_one] at hread
      rw [← hs.currentCrc] at hread
      obtain ⟨hstatus, hcrc, hwaits⟩ := crc8_processBlock POLYNOMIAL h hs.inner hread
      rw [← hr] at hstatus hcrc hwaits
      rw [hs.currentCrc] at hcrc
      exact ih ⟨hpos, hstatus, hcrc, hwaits⟩ hlength (hburst.right herror)

end Crc8

/-! ## The header of a request -/

/-- `make_crc8_decoder<...>(make_decoder_chain(make_length_decoder(state),
make_endpoint_id_decoder(state)))` -/
def requestDecoder (w : Nat) :=
  crc8StreamDecoder CANONICAL_CRC8_POLYNOMIAL
    (decoderChain (varintStreamDecoder w)
      (decoderChain (varintStreamDecoder w) (decoderChainNil w)))

/-- The decoder as it is made, with whatever its buffer and the variables contain. -/
def requestDecoderInitial {w : Nat} (state : Request w) (buffer : Vector Byte CRC8_BLOCKSIZE) :=
  StreamDecoderFromBlockDecoder.initial
    (CRC8BlockDecoder.mk
      (VarintByteDecoder.initial state.length, VarintByteDecoder.initial state.endpointId, ())
      0 CANONICAL_CRC8_INIT)
    buffer

/-- The variables that the decoder writes. -/
def decodedRequest {w : Nat} (s : StreamDecoderFromBlockDecoder CRC8_BLOCKSIZE
    (CRC8BlockDecoder (VarintByteDecoder w × VarintByteDecoder w × Unit))) : Request w where
  endpointId := s.blockDecoder.innerDecoder.2.1.stateVariable
  length := s.blockDecoder.innerDecoder.1.stateVariable

/-- The chain waits for the bytes of both values. -/
def WaitsRequest {w : Nat} (request : Request w) :
    VarintByteDecoder w × VarintByteDecoder w × Unit → List Byte → Prop :=
  WaitsChain (VarintByteDecoder.Waits request.length)
    (WaitsChain (VarintByteDecoder.Waits request.endpointId) fun _ bytes => bytes = [])

section

variable {w : Nat}

theorem accepts_request (hw : 2 ≤ w) (request : Request w) :
    Accepts (decoderChain (varintStreamDecoder w)
      (decoderChain (varintStreamDecoder w) (decoderChainNil w))) (WaitsRequest request) 2 := by
  have hpow : 2 ^ 2 ≤ 2 ^ w := Nat.pow_le_pow_right (by omega) hw
  have hvarint := fun value => accepts_varintStreamDecoder (w := w) (by omega) value
  exact accepts_decoderChain (hvarint request.length)
    (accepts_decoderChain (hvarint request.endpointId) (accepts_decoderChainNil w) (by omega))
    (by omega)

theorem ready_requestDecoderInitial (hw : 0 < w) (request state : Request w)
    (buffer : Vector Byte CRC8_BLOCKSIZE) :
    Ready (WaitsRequest request) CANONICAL_CRC8_INIT
      (varint request.length 0 ++ varint request.endpointId 0)
      (requestDecoderInitial state buffer) where
  bufferPos := rfl
  status := rfl
  currentCrc := rfl
  inner :=
    ⟨_, _, rfl, VarintByteDecoder.waits_initial hw _ _, _, [], (List.append_nil _).symm,
      VarintByteDecoder.waits_initial hw _ _, rfl⟩

/-- What is decoded when nothing is waited for any more. -/
theorem decodedRequest_of_ready {request : Request w} {crc : BitVec 8}
    {s : StreamDecoderFromBlockDecoder CRC8_BLOCKSIZE
      (CRC8BlockDecoder (VarintByteDecoder w × VarintByteDecoder w × Unit))}
    (hs : Ready (WaitsRequest request) crc [] s) : decodedRequest s = request := by
  obtain ⟨bytes₁, bytes₂, hnil, hwaits₁, bytes₃, bytes₄, rfl, hwaits₂, -⟩ := hs.inner
  obtain ⟨rfl, hrest⟩ := List.append_eq_nil_iff.mp hnil.symm
  obtain ⟨rfl, rfl⟩ := List.append_eq_nil_iff.mp hrest
  rw [decodedRequest, VarintByteDecoder.stateVariable_of_waits hwaits₁,
    VarintByteDecoder.stateVariable_of_waits hwaits₂]

end

/-- **Round trip.** The header of every request, fed in any chunks, is decoded to the values
that were encoded, and with errors in a window of eight bits it is rejected. -/
theorem requestHeader_roundTrip {w : Nat} (hw : 16 ≤ w) (request state : Request w)
    (encoderBuffer decoderBuffer : Vector Byte CRC8_BLOCKSIZE) :
    ∃ E : List Byte,
      (∀ n, E.length ≤ n →
        let r := (requestEncoder w).getBytes n (requestEncoderInitial request encoderBuffer)
        r.1 = 0 ∧ r.2.1 = E ∧ (requestEncoder w).getAvailableBytes r.2.2 = 0) ∧
      (∀ chunks : List (List Byte), chunks.flatten = E →
        let r := (requestDecoder w).feed chunks (requestDecoderInitial state decoderBuffer)
        decodedRequest r.2 = request ∧ r.1 = E.length ∧ (requestDecoder w).getStatus r.2 = 0 ∧
          (requestDecoder w).getExpectedBytes r.2 = 0) ∧
      ∀ errors : List Byte, errors.length = E.length → IsBurst 8 errors →
        ∀ chunks : List (List Byte), chunks.flatten = flipped E errors →
          (requestDecoder w).getStatus
            ((requestDecoder w).feed chunks (requestDecoderInitial state decoderBuffer)).2 ≠ 0 := by
  have hpow : 2 ^ 16 ≤ 2 ^ w := Nat.pow_le_pow_right (by omega) hw
  have hinner := accepts_request (by omega) request
  have hready := ready_requestDecoderInitial (by omega) request state decoderBuffer
  have hexpects := crc8_expects CANONICAL_CRC8_POLYNOMIAL hinner (by omega)
  refine ⟨encodedRequest request, fun n hn => ?_, fun chunks hchunks => ?_,
    fun errors hlength hburst chunks hchunks => ?_⟩
  · exact requestEncoder_getBytes (by omega) request encoderBuffer hn
  · rw [requestDecoder, crc8StreamDecoder, feed_eq_loop hexpects, hchunks]
    obtain ⟨hprocessed, crc, hdone⟩ := crc8_loop_blocks CANONICAL_CRC8_POLYNOMIAL hinner
      (by omega) hready
    have hstop := mt (crc8_active CANONICAL_CRC8_POLYNOMIAL hinner (by omega) hdone).mp
      (not_not.mpr rfl)
    exact ⟨decodedRequest_of_ready hdone, hprocessed, hdone.status,
      not_not.mp fun hne => hstop ⟨hdone.status, hne⟩⟩
  · rw [requestDecoder, crc8StreamDecoder, feed_eq_loop hexpects, hchunks]
    exact crc8_loop_flipped crc_framing_guarantee.1 hinner (by omega) hready hlength hburst

/-- A header of two blocks. -/
theorem requestHeader_roundTrip_test :
    ∃ E : List Byte,
      (∀ n, E.length ≤ n →
        let r := (requestEncoder 32).getBytes n
          (requestEncoderInitial ⟨300, 444⟩ (Vector.replicate 4 0))
        r.1 = 0 ∧ r.2.1 = E ∧ (requestEncoder 32).getAvailableBytes r.2.2 = 0) ∧
      (∀ chunks : List (List Byte), chunks.flatten = E →
        let r := (requestDecoder 32).feed chunks
          (requestDecoderInitial ⟨0, 0⟩ (Vector.replicate 4 0))
        decodedRequest r.2 = ⟨300, 444⟩ ∧ r.1 = E.length ∧
          (requestDecoder 32).getStatus r.2 = 0 ∧
          (requestDecoder 32).getExpectedBytes r.2 = 0) ∧
      ∀ errors : List Byte, errors.length = E.length → IsBurst 8 errors →
        ∀ chunks : List (List Byte), chunks.flatten = flipped E errors →
          (requestDecoder 32).getStatus ((requestDecoder 32).feed chunks
            (requestDecoderInitial ⟨0, 0⟩ (Vector.replicate 4 0))).2 ≠ 0 :=
  requestHeader_roundTrip (by decide) ⟨300, 444⟩ ⟨0, 0⟩ (Vector.replicate 4 0)
    (Vector.replicate 4 0)

end WODrive.Fibre
