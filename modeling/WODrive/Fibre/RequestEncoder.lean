import WODrive.Fibre.Encoders
import WODrive.Library.Crc
import WODrive.Library.Wrap

/-!
# Varints, chains and CRC8 blocks (fibre/cpp/include/fibre/encoders.hpp)

The header of a request is encoded by a chain of two varint encoders, whose bytes are packed
into blocks of three, each with the CRC of all that was sent so far behind it.

- `Emits`: what an encoder has to give is a list of bytes, and a request takes from its
  front;
- `emits_streamEncoderFromByteEncoder`, `emits_encoderChain`: the parts of the header;
- `crc8_loop`, `requestEncoder_getBytes`: one large enough request gives all blocks.
-/

namespace WODrive.Fibre

open Wrap

universe u v

/-- `CRC8_BLOCKSIZE` -/
abbrev CRC8_BLOCKSIZE : Nat := 4

scoped instance crc8Blocksize_neZero : NeZero CRC8_BLOCKSIZE := ⟨by decide⟩

/-- The CRC is the last byte of a block. -/
theorem crc8Pos_lt : CRC8_BLOCKSIZE - 1 < CRC8_BLOCKSIZE := by decide

/-! ## Encoder implementations -/

/-- The variables of a `VarintByteEncoder`; `done` is set with the last byte. -/
structure VarintByteEncoder (w : Nat) where
  stateVariable : BitVec w
  bitPos : Nat
  done : Bool

namespace VarintByteEncoder

variable {w : Nat}

def initial (stateVariable : BitVec w) : VarintByteEncoder w where
  stateVariable := stateVariable
  bitPos := 0
  done := false

def getByte (s : VarintByteEncoder w) : Result × Byte × VarintByteEncoder w :=
  let outputByte : Byte := ((s.stateVariable >>> s.bitPos) &&& 0x7f#w).setWidth 8
  let bitPos := s.bitPos + 7
  if bitPos < w ∧ s.stateVariable >>> bitPos ≠ 0 then
    (0, outputByte ||| 0x80, { s with bitPos := bitPos })
  else (0, outputByte, { s with bitPos := bitPos, done := true })

end VarintByteEncoder

/-- `VarintByteEncoder` -/
def varintByteEncoder (w : Nat) : ByteEncoder w (VarintByteEncoder w) where
  getStatus _ := 0
  getAvailableBytes s := if s.done then 0 else 1
  getByte := VarintByteEncoder.getByte

/-- `VarintStreamEncoder` -/
def varintStreamEncoder (w : Nat) : StreamEncoder w (VarintByteEncoder w) :=
  streamEncoderFromByteEncoder (varintByteEncoder w)

/-- The variables of a `CRC8BlockEncoder`. -/
structure CRC8BlockEncoder (σ : Type u) where
  innerEncoder : σ
  status : Result
  currentCrc : BitVec 8

/-- The first bytes of the block are overwritten. -/
def overwritten {n : Nat} (block : Vector Byte n) (bytes : List Byte) : Vector Byte n :=
  Vector.ofFn fun i => bytes.getD i (block.get i)

/-- `(bytes + CRC8_BLOCKSIZE - 2) / (CRC8_BLOCKSIZE - 1)`, in `size_t` -/
def crc8BlockCount {w : Nat} (bytes : BitVec w) : BitVec w :=
  (bytes + BitVec.ofNat w CRC8_BLOCKSIZE - BitVec.ofNat w 2) /
    (BitVec.ofNat w CRC8_BLOCKSIZE - BitVec.ofNat w 1)

/-- `CRC8BlockEncoder` -/
def crc8BlockEncoder {w : Nat} {σ : Type u} (POLYNOMIAL : BitVec 8)
    (innerEncoder : StreamEncoder w σ) :
    BlockEncoder w CRC8_BLOCKSIZE (CRC8BlockEncoder σ) where
  getStatus s := s.status
  getAvailableBlocks s := crc8BlockCount (innerEncoder.getAvailableBytes s.innerEncoder)
  getBlock block s :=
    let (status, bytes, inner) := innerEncoder.getBytes (CRC8_BLOCKSIZE - 1) s.innerEncoder
    if status ≠ 0 then
      (status, overwritten block bytes, { s with innerEncoder := inner, status := status })
    else
      -- zero out the unused end of the block
      let block := overwritten (Vector.replicate CRC8_BLOCKSIZE 0) bytes
      let crc := Crc.crc POLYNOMIAL s.currentCrc (block.toList.take (CRC8_BLOCKSIZE - 1))
      (0, block.set (CRC8_BLOCKSIZE - 1) crc crc8Pos_lt,
        { innerEncoder := inner, status := status, currentCrc := crc })

/-- `CRC8StreamEncoder` -/
def crc8StreamEncoder {w : Nat} {σ : Type u} (POLYNOMIAL : BitVec 8)
    (innerEncoder : StreamEncoder w σ) :
    StreamEncoder w (StreamEncoderFromBlockEncoder CRC8_BLOCKSIZE (CRC8BlockEncoder σ)) :=
  streamEncoderFromBlockEncoder (crc8BlockEncoder POLYNOMIAL innerEncoder)

/-- `EncoderChain<>` -/
def encoderChainNil (w : Nat) : StreamEncoder w Unit where
  getStatus _ := 0
  getAvailableBytes _ := 0
  getBytes _ s := (0, [], s)

/-- `EncoderChain<TEncoder, TEncoders...>` -/
def encoderChain {w : Nat} {σ : Type u} {τ : Type v} (thisEncoder : StreamEncoder w σ)
    (subsequentEncoders : StreamEncoder w τ) : StreamEncoder w (σ × τ) where
  getStatus s :=
    let thisStatus := thisEncoder.getStatus s.1
    let subsequentStatus := subsequentEncoders.getStatus s.2
    if thisStatus ≠ 0 then thisStatus
    else if subsequentStatus ≠ 0 then subsequentStatus
    else 0
  getAvailableBytes s :=
    thisEncoder.getAvailableBytes s.1 + subsequentEncoders.getAvailableBytes s.2
  getBytes length s :=
    if thisEncoder.getAvailableBytes s.1 ≠ 0 then
      let (status, chunk, this) := thisEncoder.getBytes length s.1
      if status ≠ 0 then (status, [], this, s.2)
      else if length - chunk.length = 0 then (0, chunk, this, s.2)
      else
        let (status, bytes, subsequent) :=
          subsequentEncoders.getBytes (length - chunk.length) s.2
        (status, chunk ++ bytes, this, subsequent)
    else
      let (status, bytes, subsequent) := subsequentEncoders.getBytes length s.2
      (status, bytes, s.1, subsequent)

/-! ## What an encoder has to give -/

/-- The encoder has the bytes `remaining s` to give, never fails, and announces at most
`k` bytes at a time. -/
structure Emits {w : Nat} {σ : Type u} (encoder : StreamEncoder w σ)
    (remaining : σ → List Byte) (k : Nat) : Prop where
  status : ∀ s, encoder.getStatus s = 0
  available_eq_zero : ∀ s, encoder.getAvailableBytes s = 0 ↔ remaining s = []
  available_le : ∀ s, (encoder.getAvailableBytes s).toNat ≤ k
  getBytes_status : ∀ n s, (encoder.getBytes n s).1 = 0
  getBytes_bytes : ∀ n s, (encoder.getBytes n s).2.1 = (remaining s).take n
  getBytes_remaining : ∀ n s, remaining (encoder.getBytes n s).2.2 = (remaining s).drop n

/-- The same of a byte encoder. -/
structure EmitsBytes {w : Nat} {σ : Type u} (byteEncoder : ByteEncoder w σ)
    (remaining : σ → List Byte) (k : Nat) : Prop where
  status : ∀ s, byteEncoder.getStatus s = 0
  available_eq_zero : ∀ s, byteEncoder.getAvailableBytes s = 0 ↔ remaining s = []
  available_le : ∀ s, (byteEncoder.getAvailableBytes s).toNat ≤ k
  getByte : ∀ {s byte rest}, remaining s = byte :: rest →
    (byteEncoder.getByte s).2.1 = byte ∧ remaining (byteEncoder.getByte s).2.2 = rest

section FromBytes

variable {w k : Nat} {σ : Type u} {byteEncoder : ByteEncoder w σ} {remaining : σ → List Byte}

theorem EmitsBytes.loop (h : EmitsBytes byteEncoder remaining k) (n : Nat) (s : σ) :
    (byteEncoder.loop n s).1 = (remaining s).take n ∧
      remaining (byteEncoder.loop n s).2 = (remaining s).drop n := by
  induction n generalizing s with
  | zero => exact ⟨rfl, rfl⟩
  | succ n ih =>
    cases hs : remaining s with
    | nil =>
      have hzero := (h.available_eq_zero s).mpr hs
      rw [ByteEncoder.loop, if_neg (fun hc => hc.2 hzero)]
      exact ⟨rfl, hs⟩
    | cons byte rest =>
      have hne : byteEncoder.getAvailableBytes s ≠ 0 := fun hzero =>
        absurd ((h.available_eq_zero s).mp hzero) (by rw [hs]; exact List.cons_ne_nil _ _)
      obtain ⟨hbyte, hrest⟩ := h.getByte hs
      obtain ⟨ihbytes, ihrest⟩ := ih (byteEncoder.getByte s).2.2
      rw [ByteEncoder.loop, if_pos ⟨h.status s, hne⟩]
      rw [hrest] at ihbytes ihrest
      exact ⟨congrArg₂ List.cons hbyte ihbytes, ihrest⟩

theorem emits_streamEncoderFromByteEncoder (h : EmitsBytes byteEncoder remaining k) :
    Emits (streamEncoderFromByteEncoder byteEncoder) remaining k where
  status := h.status
  available_eq_zero := h.available_eq_zero
  available_le := h.available_le
  getBytes_status _ _ := h.status _
  getBytes_bytes n s := (h.loop n s).1
  getBytes_remaining n s := (h.loop n s).2

end FromBytes

theorem emits_encoderChainNil (w : Nat) : Emits (encoderChainNil w) (fun _ => []) 0 where
  status _ := rfl
  available_eq_zero _ := iff_of_true rfl rfl
  available_le _ := (BitVec.toNat_zero).le
  getBytes_status _ _ := rfl
  getBytes_bytes _ _ := List.take_nil.symm
  getBytes_remaining _ _ := List.drop_nil.symm

section Chain

variable {w k₁ k₂ : Nat} {σ : Type u} {τ : Type v} {this : StreamEncoder w σ}
  {subsequent : StreamEncoder w τ} {remaining₁ : σ → List Byte} {remaining₂ : τ → List Byte}

/-- What the first encoder does not give is asked of those that follow it. -/
theorem encoderChain_getBytes (h₁ : Emits this remaining₁ k₁) (h₂ : Emits subsequent remaining₂ k₂)
    (n : Nat) (s : σ × τ) :
    ((encoderChain this subsequent).getBytes n s).1 = 0 ∧
      ((encoderChain this subsequent).getBytes n s).2.1 =
        (remaining₁ s.1 ++ remaining₂ s.2).take n ∧
      remaining₁ ((encoderChain this subsequent).getBytes n s).2.2.1 ++
          remaining₂ ((encoderChain this subsequent).getBytes n s).2.2.2 =
        (remaining₁ s.1 ++ remaining₂ s.2).drop n := by
  have hstatus₁ := h₁.getBytes_status n s.1
  have hbytes₁ := h₁.getBytes_bytes n s.1
  have hrest₁ := h₁.getBytes_remaining n s.1
  simp only [encoderChain]
  by_cases hzero : this.getAvailableBytes s.1 = 0
  · have hnil := (h₁.available_eq_zero s.1).mp hzero
    rw [if_neg (not_not.mpr hzero), hnil]
    exact ⟨h₂.getBytes_status n s.2, h₂.getBytes_bytes n s.2, h₂.getBytes_remaining n s.2⟩
  · rw [if_pos hzero, if_neg (not_not.mpr hstatus₁), hbytes₁, List.length_take, List.take_append,
      List.drop_append]
    by_cases hle : n ≤ (remaining₁ s.1).length
    · -- the chunk is all that was asked for
      rw [if_pos (by omega), Nat.sub_eq_zero_of_le hle]
      exact ⟨rfl, by simp, by simp [hrest₁]⟩
    · rw [if_neg (by omega), Nat.min_eq_right (by omega)]
      exact ⟨h₂.getBytes_status _ s.2, by rw [h₂.getBytes_bytes],
        by rw [hrest₁, h₂.getBytes_remaining]⟩

theorem emits_encoderChain (h₁ : Emits this remaining₁ k₁) (h₂ : Emits subsequent remaining₂ k₂)
    (hk : k₁ + k₂ < 2 ^ w) :
    Emits (encoderChain this subsequent) (fun s => remaining₁ s.1 ++ remaining₂ s.2)
      (k₁ + k₂) where
  status s := by
    simp only [encoderChain, h₁.status, h₂.status]
    rfl
  available_eq_zero s := by
    have hle₁ := h₁.available_le s.1
    have hle₂ := h₂.available_le s.2
    rw [List.append_eq_nil_iff, ← h₁.available_eq_zero, ← h₂.available_eq_zero]
    simp only [encoderChain, eq_zero_iff_toNat, BitVec.toNat_add]
    rw [Nat.mod_eq_of_lt (by omega)]
    omega
  available_le s := by
    have hle₁ := h₁.available_le s.1
    have hle₂ := h₂.available_le s.2
    simp only [encoderChain, BitVec.toNat_add]
    rw [Nat.mod_eq_of_lt (by omega)]
    omega
  getBytes_status n s := (encoderChain_getBytes h₁ h₂ n s).1
  getBytes_bytes n s := (encoderChain_getBytes h₁ h₂ n s).2.1
  getBytes_remaining n s := (encoderChain_getBytes h₁ h₂ n s).2.2

end Chain

/-! ## Varints -/

/-- The bytes of a varint from a bit on: seven bits each, and a mark on all but the last. -/
def varint {w : Nat} (value : BitVec w) (bitPos : Nat) : List Byte :=
  let byte : Byte := ((value >>> bitPos) &&& 0x7f#w).setWidth 8
  if bitPos + 7 < w ∧ value >>> (bitPos + 7) ≠ 0 then
    (byte ||| 0x80) :: varint value (bitPos + 7)
  else [byte]
termination_by w - bitPos

theorem varint_ne_nil {w : Nat} (value : BitVec w) (bitPos : Nat) :
    varint value bitPos ≠ [] := by
  rw [varint]
  split
  · exact List.cons_ne_nil _ _
  · exact List.cons_ne_nil _ _

/-- What a varint encoder has to give. -/
def VarintByteEncoder.remaining {w : Nat} (s : VarintByteEncoder w) : List Byte :=
  if s.done then [] else varint s.stateVariable s.bitPos

theorem emitsBytes_varintByteEncoder {w : Nat} (hw : 0 < w) :
    EmitsBytes (varintByteEncoder w) VarintByteEncoder.remaining 1 where
  status _ := rfl
  available_eq_zero s := by
    have hone : (1 : BitVec w) ≠ 0 := by
      rw [Ne, eq_zero_iff_toNat]
      exact (BitVec.toNat_one hw).trans_ne Nat.one_ne_zero
    cases hdone : s.done with
    | true => simp [varintByteEncoder, VarintByteEncoder.remaining, hdone]
    | false =>
      have hne := varint_ne_nil s.stateVariable s.bitPos
      simpa [varintByteEncoder, VarintByteEncoder.remaining, hdone, hne] using hone
  available_le s := by
    simp only [varintByteEncoder]
    split
    · exact (BitVec.toNat_zero).trans_le (Nat.zero_le 1)
    · exact (BitVec.toNat_one hw).le
  getByte := by
    intro s byte rest hs
    have hdone : s.done = false := by
      cases hdone : s.done with
      | true => simp [VarintByteEncoder.remaining, hdone] at hs
      | false => rfl
    rw [VarintByteEncoder.remaining, if_neg (by simp [hdone]), varint] at hs
    simp only [varintByteEncoder, VarintByteEncoder.getByte]
    split at hs
    next hmore =>
      obtain ⟨rfl, rfl⟩ := List.cons.inj hs
      rw [if_pos hmore]
      exact ⟨rfl, by simp [VarintByteEncoder.remaining, hdone]⟩
    next hlast =>
      obtain ⟨rfl, rfl⟩ := List.cons.inj hs
      rw [if_neg hlast]
      exact ⟨rfl, by simp [VarintByteEncoder.remaining]⟩

theorem emits_varintStreamEncoder {w : Nat} (hw : 0 < w) :
    Emits (varintStreamEncoder w) VarintByteEncoder.remaining 1 :=
  emits_streamEncoderFromByteEncoder (emitsBytes_varintByteEncoder hw)

/-! ## CRC8 blocks -/

/-- The next three bytes, filled up with zeros. -/
def payload (bytes : List Byte) : List Byte :=
  (bytes ++ List.replicate (CRC8_BLOCKSIZE - 1) 0).take (CRC8_BLOCKSIZE - 1)

/-- The bytes in blocks of three, each with the CRC of all up to there. -/
def crc8Blocks (POLYNOMIAL crc : BitVec 8) (bytes : List Byte) : List Byte :=
  if bytes = [] then []
  else
    payload bytes ++ [Crc.crc POLYNOMIAL crc (payload bytes)] ++
      crc8Blocks POLYNOMIAL (Crc.crc POLYNOMIAL crc (payload bytes))
        (bytes.drop (CRC8_BLOCKSIZE - 1))
termination_by bytes.length
decreasing_by
  next hne =>
  have hpos := List.length_pos_iff.mpr hne
  have hsize : CRC8_BLOCKSIZE = 4 := rfl
  rw [List.length_drop]
  omega

theorem crc8Blocks_of_ne_nil (POLYNOMIAL crc : BitVec 8) {bytes : List Byte}
    (hne : bytes ≠ []) :
    crc8Blocks POLYNOMIAL crc bytes =
      payload bytes ++ [Crc.crc POLYNOMIAL crc (payload bytes)] ++
        crc8Blocks POLYNOMIAL (Crc.crc POLYNOMIAL crc (payload bytes))
          (bytes.drop (CRC8_BLOCKSIZE - 1)) := by
  rw [crc8Blocks, if_neg hne]

theorem length_payload (bytes : List Byte) : (payload bytes).length = 3 := by
  have hsize : CRC8_BLOCKSIZE = 4 := rfl
  simp only [payload, List.length_take, List.length_append, List.length_replicate]
  omega

theorem toList_overwritten_take (bytes : List Byte) :
    (overwritten (Vector.replicate CRC8_BLOCKSIZE 0) (bytes.take (CRC8_BLOCKSIZE - 1))).toList.take
      (CRC8_BLOCKSIZE - 1) = payload bytes := by
  match bytes with
  | [] => rfl
  | [a] => rfl
  | [a, b] => rfl
  | a :: b :: c :: rest => rfl

/-- The number of blocks, where the computation does not overflow. -/
theorem toNat_crc8BlockCount {w k : Nat} (hk : 2 * k + 8 ≤ 2 ^ w) {bytes : BitVec w}
    (hle : bytes.toNat ≤ k) : (crc8BlockCount bytes).toNat = (bytes.toNat + 2) / 3 := by
  have hofNat : ∀ n ≤ 4, (BitVec.ofNat w n).toNat = n := fun n hn => by
    rw [BitVec.toNat_ofNat, Nat.mod_eq_of_lt (by omega)]
  have hsum : (bytes + BitVec.ofNat w CRC8_BLOCKSIZE).toNat = bytes.toNat + 4 := by
    rw [BitVec.toNat_add, hofNat 4 (by omega), Nat.mod_eq_of_lt (by omega)]
  have hdividend : (bytes + BitVec.ofNat w CRC8_BLOCKSIZE - BitVec.ofNat w 2).toNat =
      bytes.toNat + 2 := by
    rw [BitVec.toNat_sub_of_le, hsum, hofNat 2 (by omega)]
    · omega
    · rw [BitVec.le_def, hsum, hofNat 2 (by omega)]
      omega
  have hdivisor : (BitVec.ofNat w CRC8_BLOCKSIZE - BitVec.ofNat w 1).toNat = 3 := by
    rw [BitVec.toNat_sub_of_le, hofNat 4 (by omega), hofNat 1 (by omega)]
    rw [BitVec.le_def, hofNat 4 (by omega), hofNat 1 (by omega)]
    omega
  rw [crc8BlockCount, BitVec.toNat_udiv, hdividend, hdivisor]

theorem toList_set_last (block : Vector Byte CRC8_BLOCKSIZE) (crc : BitVec 8) :
    (block.set (CRC8_BLOCKSIZE - 1) crc).toList =
      block.toList.take (CRC8_BLOCKSIZE - 1) ++ [crc] := by
  have hlength : (block.toList.take (CRC8_BLOCKSIZE - 1)).length = CRC8_BLOCKSIZE - 1 := by
    rw [List.length_take, Vector.length_toList]
    rfl
  rw [Vector.toList_set, List.set_eq_take_append_cons_drop, if_pos (by simp)]
  congr 2
  exact List.drop_of_length_le (Vector.length_toList).le

section Crc8

open StreamEncoderFromBlockEncoder

variable {w k : Nat} {σ : Type u} {inner : StreamEncoder w σ} {remaining : σ → List Byte}
  {POLYNOMIAL : BitVec 8}

/-- A block is due as long as the inner encoder has bytes. -/
theorem crc8_active_iff (h : Emits inner remaining k) (hk : 2 * k + 8 ≤ 2 ^ w)
    {s : StreamEncoderFromBlockEncoder CRC8_BLOCKSIZE (CRC8BlockEncoder σ)}
    (hempty : s.bufferedBytes = 0) (hstatus : s.blockEncoder.status = 0) :
    Active (crc8BlockEncoder POLYNOMIAL inner) s ↔
      remaining s.blockEncoder.innerEncoder ≠ [] := by
  have hle := h.available_le s.blockEncoder.innerEncoder
  have hblocks := toNat_crc8BlockCount hk hle
  have havailable : getAvailableBytes (crc8BlockEncoder POLYNOMIAL inner) s = 0 ↔
      inner.getAvailableBytes s.blockEncoder.innerEncoder = 0 := by
    rw [eq_zero_iff_toNat, eq_zero_iff_toNat]
    show (crc8BlockCount _ * BitVec.ofNat w 4 + BitVec.ofNat w s.bufferedBytes).toNat = 0 ↔ _
    rw [hempty, BitVec.toNat_add, BitVec.toNat_mul, hblocks, BitVec.toNat_ofNat,
      BitVec.toNat_ofNat, Nat.zero_mod, Nat.add_zero, Nat.mod_mod,
      Nat.mod_eq_of_lt (a := 4) (by omega), Nat.mod_eq_of_lt (by omega)]
    omega
  have hok : getStatus (crc8BlockEncoder POLYNOMIAL inner) s = 0 := by
    rw [getStatus, if_neg (not_not.mpr hempty)]
    exact hstatus
  rw [Ne, ← h.available_eq_zero, ← havailable]
  exact and_iff_right hok

/-- A block that is retrieved. -/
theorem crc8_retrieve (POLYNOMIAL : BitVec 8) (h : Emits inner remaining k)
    (s : StreamEncoderFromBlockEncoder CRC8_BLOCKSIZE (CRC8BlockEncoder σ)) :
    let bytes := remaining s.blockEncoder.innerEncoder
    let crc := Crc.crc POLYNOMIAL s.blockEncoder.currentCrc (payload bytes)
    let r := retrieve (crc8BlockEncoder POLYNOMIAL inner) s
    r.buffer.toList = payload bytes ++ [crc] ∧ r.blockEncoder.status = 0 ∧
      r.blockEncoder.currentCrc = crc ∧
      remaining r.blockEncoder.innerEncoder = bytes.drop (CRC8_BLOCKSIZE - 1) := by
  have hstatus := h.getBytes_status (CRC8_BLOCKSIZE - 1) s.blockEncoder.innerEncoder
  have hbytes := h.getBytes_bytes (CRC8_BLOCKSIZE - 1) s.blockEncoder.innerEncoder
  have hrest := h.getBytes_remaining (CRC8_BLOCKSIZE - 1) s.blockEncoder.innerEncoder
  simp only [retrieve, crc8BlockEncoder]
  rw [if_neg (not_not.mpr hstatus), hbytes, toList_overwritten_take]
  refine ⟨?_, hstatus, rfl, hrest⟩
  rw [toList_set_last, toList_overwritten_take]

/-- One request that is large enough for all blocks. -/
theorem crc8_loop (h : Emits inner remaining k) (hk : 2 * k + 8 ≤ 2 ^ w) {crc : BitVec 8}
    {bytes : List Byte} {n : Nat}
    {s : StreamEncoderFromBlockEncoder CRC8_BLOCKSIZE (CRC8BlockEncoder σ)}
    (hempty : s.bufferedBytes = 0) (hstatus : s.blockEncoder.status = 0)
    (hcrc : s.blockEncoder.currentCrc = crc)
    (hbytes : remaining s.blockEncoder.innerEncoder = bytes)
    (hn : (crc8Blocks POLYNOMIAL crc bytes).length ≤ n) :
    let r := loop (crc8BlockEncoder POLYNOMIAL inner) n s
    r.1 = crc8Blocks POLYNOMIAL crc bytes ∧ r.2.bufferedBytes = 0 ∧
      r.2.blockEncoder.status = 0 ∧ ¬Active (crc8BlockEncoder POLYNOMIAL inner) r.2 := by
  have hactive : Active (crc8BlockEncoder POLYNOMIAL inner) s ↔ _ :=
    crc8_active_iff h hk hempty hstatus
  induction crc, bytes using crc8Blocks.induct POLYNOMIAL generalizing s n with
  | case1 crc =>
    have hdone : ¬Active (crc8BlockEncoder POLYNOMIAL inner) s := by
      rw [hactive, hbytes]
      exact not_not.mpr rfl
    simp only [loop_stop _ (fun hc => hdone hc.1)]
    refine ⟨?_, hempty, hstatus, hdone⟩
    rw [crc8Blocks, if_pos rfl]
  | case2 crc bytes hne ih =>
    rw [crc8Blocks_of_ne_nil _ _ hne] at hn
    simp only [List.length_append, length_payload, List.length_singleton] at hn
    rw [hbytes, iff_true_right hne] at hactive
    have hretrieved := crc8_retrieve POLYNOMIAL h s
    simp only [hcrc, hbytes] at hretrieved
    obtain ⟨r, hr⟩ : ∃ r, retrieve (crc8BlockEncoder POLYNOMIAL inner) s = r := ⟨_, rfl⟩
    have hfull : r.bufferedBytes = 4 := by rw [← hr, bufferedBytes_retrieve]
    rw [hr] at hretrieved
    obtain ⟨hbuffer, hstatus', hcrc', hrest⟩ := hretrieved
    have hround := loop_beyond _ hactive (Nat.ne_of_gt (by omega : 0 < n))
      ((if_pos hempty).trans hr) (by omega)
    obtain ⟨hgiven, hlast⟩ := @ih (n - r.bufferedBytes) (emptied r) rfl hstatus' hcrc' hrest
      (by omega) (crc8_active_iff h hk rfl hstatus')
    rw [hround]
    refine ⟨?_, hlast⟩
    show buffered r ++ _ = _
    rw [hgiven, buffered, hbuffer, hfull, crc8Blocks_of_ne_nil _ _ hne]
    rfl

end Crc8

/-! ## The header of a request -/

/-- `Request` -/
structure Request (w : Nat) where
  endpointId : BitVec w
  length : BitVec w

/-- `make_crc8_encoder<...>(make_encoder_chain(make_length_encoder(request),
make_endpoint_id_encoder(request)))` -/
def requestEncoder (w : Nat) :=
  crc8StreamEncoder CANONICAL_CRC8_POLYNOMIAL
    (encoderChain (varintStreamEncoder w)
      (encoderChain (varintStreamEncoder w) (encoderChainNil w)))

/-- The encoder as it is made for a request, with whatever its buffer contains. -/
def requestEncoderInitial {w : Nat} (request : Request w) (buffer : Vector Byte CRC8_BLOCKSIZE) :=
  StreamEncoderFromBlockEncoder.initial
    (CRC8BlockEncoder.mk
      (VarintByteEncoder.initial request.length, VarintByteEncoder.initial request.endpointId, ())
      0 CANONICAL_CRC8_INIT)
    buffer

/-- The bytes of the header. -/
def encodedRequest {w : Nat} (request : Request w) : List Byte :=
  crc8Blocks CANONICAL_CRC8_POLYNOMIAL CANONICAL_CRC8_INIT
    (varint request.length 0 ++ varint request.endpointId 0)

example : encodedRequest (w := 32) { endpointId := 300, length := 444 } =
    [0xbc, 0x03, 0xac, 0x5e, 0x02, 0x00, 0x00, 0xd1] := by
  decide +kernel

/-- One request that is large enough gives the whole header, and completes the encoder. -/
theorem requestEncoder_getBytes {w : Nat} (hw : 4 ≤ w) (request : Request w)
    (buffer : Vector Byte CRC8_BLOCKSIZE) {n : Nat} (hn : (encodedRequest request).length ≤ n) :
    let r := (requestEncoder w).getBytes n (requestEncoderInitial request buffer)
    r.1 = 0 ∧ r.2.1 = encodedRequest request ∧ (requestEncoder w).getAvailableBytes r.2.2 = 0 := by
  have hpow : 2 ^ 4 ≤ 2 ^ w := Nat.pow_le_pow_right (by omega) hw
  have hvarint := emits_varintStreamEncoder (w := w) (by omega)
  have hinner := emits_encoderChain hvarint
    (emits_encoderChain hvarint (emits_encoderChainNil w) (by omega)) (by omega)
  have hbytes : varint request.length 0 ++ (varint request.endpointId 0 ++ []) =
      varint request.length 0 ++ varint request.endpointId 0 := by rw [List.append_nil]
  obtain ⟨hgiven, hempty, hstatus, hdone⟩ :=
    crc8_loop hinner (by omega) (s := requestEncoderInitial request buffer) rfl rfl rfl hbytes hn
  have hok : (requestEncoder w).getStatus
      ((requestEncoder w).getBytes n (requestEncoderInitial request buffer)).2.2 = 0 :=
    (if_neg (not_not.mpr hempty)).trans hstatus
  exact ⟨hok, hgiven, not_not.mp fun hne => hdone ⟨hok, hne⟩⟩

end WODrive.Fibre
