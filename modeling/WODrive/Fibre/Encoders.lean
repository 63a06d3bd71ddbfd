import Mathlib.Logic.Function.Iterate
import WODrive.Fibre.Stream

/-!
# Encoders (fibre/cpp/include/fibre/encoders.hpp)

An encoder generates bytes when it is asked for them. A `BlockEncoder` gives blocks of a
fixed size and a `ByteEncoder` single bytes; what is made of them is a `StreamEncoder`,
which gives any number of bytes and can be asked again for the bytes that follow.

- `blocks`: what a block encoder has to give, block after block;
- `EndsWell`: the request ends with a block, or where the end of the block happens to be
  equal to what is due;
- `getMany_prefix_iff`: successive requests give the blocks byte after byte exactly if each
  of them ends well.
-/

namespace WODrive.Fibre

universe u

/-- `StreamEncoder`; `getBytes` returns the status, the bytes that it generated (at most as
many as requested) and the encoder. -/
structure StreamEncoder (w : Nat) (σ : Type u) where
  getStatus : σ → Result
  getAvailableBytes : σ → BitVec w
  getBytes : Nat → σ → Result × List Byte × σ

/-- `BlockEncoder<blocksize>`; `getBlock` is given the block as it was before. -/
structure BlockEncoder (w blocksize : Nat) (σ : Type u) where
  getStatus : σ → Result
  getAvailableBlocks : σ → BitVec w
  getBlock : Vector Byte blocksize → σ → Result × Vector Byte blocksize × σ

/-- `ByteEncoder` -/
structure ByteEncoder (w : Nat) (σ : Type u) where
  getStatus : σ → Result
  getAvailableBytes : σ → BitVec w
  getByte : σ → Result × Byte × σ

/-! ## Stream encoders from byte encoders -/

/-- The loop of `StreamEncoder_from_ByteEncoder::get_bytes`. -/
def ByteEncoder.loop {w : Nat} {σ : Type u} (byteEncoder : ByteEncoder w σ) :
    Nat → σ → List Byte × σ
  | 0, s => ([], s)
  | length + 1, s =>
    if byteEncoder.getStatus s = 0 ∧ byteEncoder.getAvailableBytes s ≠ 0 then
      let (_, byte, s) := byteEncoder.getByte s
      let (bytes, s) := byteEncoder.loop length s
      (byte :: bytes, s)
    else ([], s)

/-- `StreamEncoder_from_ByteEncoder` -/
def streamEncoderFromByteEncoder {w : Nat} {σ : Type u} (byteEncoder : ByteEncoder w σ) :
    StreamEncoder w σ where
  getStatus := byteEncoder.getStatus
  getAvailableBytes := byteEncoder.getAvailableBytes
  getBytes length s :=
    let (bytes, s) := byteEncoder.loop length s
    (byteEncoder.getStatus s, bytes, s)

/-! ## Stream encoders from block encoders -/

/-- The variables of a `StreamEncoder_from_BlockEncoder`. -/
structure StreamEncoderFromBlockEncoder (blocksize : Nat) (σ : Type u) where
  blockEncoder : σ
  bufferedBytes : Nat
  buffer : Vector Byte blocksize
  bufferedBytes_le : bufferedBytes ≤ blocksize

namespace StreamEncoderFromBlockEncoder

variable {w B : Nat} {σ : Type u}

/-- As the constructor leaves it, with whatever the buffer contains. -/
def initial (blockEncoder : σ) (buffer : Vector Byte B) :
    StreamEncoderFromBlockEncoder B σ where
  blockEncoder := blockEncoder
  bufferedBytes := 0
  buffer := buffer
  bufferedBytes_le := Nat.zero_le B

/-- `buffered_bytes_ -= n_copy` -/
def drain (nCopy : Nat) (s : StreamEncoderFromBlockEncoder B σ) :
    StreamEncoderFromBlockEncoder B σ where
  blockEncoder := s.blockEncoder
  bufferedBytes := s.bufferedBytes - nCopy
  buffer := s.buffer
  bufferedBytes_le := Nat.le_trans (Nat.sub_le _ _) s.bufferedBytes_le

variable (T : BlockEncoder w B σ)

def getStatus (s : StreamEncoderFromBlockEncoder B σ) : Result :=
  if s.bufferedBytes ≠ 0 then 0 else T.getStatus s.blockEncoder

def getAvailableBytes (s : StreamEncoderFromBlockEncoder B σ) : BitVec w :=
  let availableBytes := T.getAvailableBlocks s.blockEncoder * BitVec.ofNat w B
  availableBytes + BitVec.ofNat w s.bufferedBytes

/-- `block_encoder_.get_block(buffer_)`, and `buffered_bytes_ = T::block_size::value` -/
def retrieve (s : StreamEncoderFromBlockEncoder B σ) : StreamEncoderFromBlockEncoder B σ :=
  let (_, buffer, blockEncoder) := T.getBlock s.buffer s.blockEncoder
  { blockEncoder := blockEncoder
    bufferedBytes := B
    buffer := buffer
    bufferedBytes_le := Nat.le_refl B }

/-- If the buffer is empty, retrieve a new block from the encoder. -/
def refill (s : StreamEncoderFromBlockEncoder B σ) : StreamEncoderFromBlockEncoder B σ :=
  if s.bufferedBytes = 0 then retrieve T s else s

/-- The condition of the loop, but for the length. -/
abbrev Active (s : StreamEncoderFromBlockEncoder B σ) : Prop :=
  getStatus T s = 0 ∧ getAvailableBytes T s ≠ 0

/-- The bytes that one round of the loop hands out: the last `n_copy` of the buffer. -/
def copied (nCopy : Nat) (s : StreamEncoderFromBlockEncoder B σ) : List Byte :=
  (s.buffer.toList.drop (B - nCopy)).take nCopy

theorem refill_pos [NeZero B] (s : StreamEncoderFromBlockEncoder B σ) :
    0 < (refill T s).bufferedBytes := by
  unfold refill
  split
  · exact Nat.pos_of_neZero B
  · next hne => exact Nat.pos_of_ne_zero hne

/-- The loop of `get_bytes`. -/
def loop [NeZero B] (length : Nat) (s : StreamEncoderFromBlockEncoder B σ) :
    List Byte × StreamEncoderFromBlockEncoder B σ :=
  if Active T s ∧ length ≠ 0 then
    let nCopy := min (refill T s).bufferedBytes length
    let (bytes, next) := loop (length - nCopy) (drain nCopy (refill T s))
    (copied nCopy (refill T s) ++ bytes, next)
  else ([], s)
termination_by length
decreasing_by
  have hpos := refill_pos T s
  omega

end StreamEncoderFromBlockEncoder

open StreamEncoderFromBlockEncoder in
/-- `StreamEncoder_from_BlockEncoder` -/
def streamEncoderFromBlockEncoder {w B : Nat} [NeZero B] {σ : Type u}
    (T : BlockEncoder w B σ) : StreamEncoder w (StreamEncoderFromBlockEncoder B σ) where
  getStatus := getStatus T
  getAvailableBytes := getAvailableBytes T
  getBytes length s :=
    let (bytes, s) := loop T length s
    (getStatus T s, bytes, s)

/-- `BlockEncoder_from_ByteEncoder` -/
def blockEncoderFromByteEncoder {w : Nat} {σ : Type u} (byteEncoder : ByteEncoder w σ) :
    BlockEncoder w 1 σ where
  getStatus := byteEncoder.getStatus
  getAvailableBlocks := byteEncoder.getAvailableBytes
  getBlock _ s :=
    let (status, byte, s) := byteEncoder.getByte s
    (status, #v[byte], s)

/-- The bytes returned by successive calls of `get_bytes`. -/
def StreamEncoder.getMany {w : Nat} {σ : Type u} (encoder : StreamEncoder w σ) :
    List Nat → σ → List (List Byte)
  | [], _ => []
  | length :: lengths, s =>
    let (_, bytes, s) := encoder.getBytes length s
    bytes :: encoder.getMany lengths s

namespace StreamEncoderFromBlockEncoder

variable {w B : Nat} {σ : Type u} (T : BlockEncoder w B σ)

/-! ## What is left to give -/

/-- The next blocks of the encoder, `n` of them at most. -/
def blocks : Nat → StreamEncoderFromBlockEncoder B σ → List Byte
  | 0, _ => []
  | n + 1, s =>
    if T.getStatus s.blockEncoder = 0 ∧ T.getAvailableBlocks s.blockEncoder ≠ 0 then
      (retrieve T s).buffer.toList ++ blocks n (retrieve T s)
    else []

/-- The bytes of the block that was begun. -/
def buffered (s : StreamEncoderFromBlockEncoder B σ) : List Byte :=
  s.buffer.toList.drop (B - s.bufferedBytes)

/-- The bytes left in the buffer and the next blocks. -/
def rest (n : Nat) (s : StreamEncoderFromBlockEncoder B σ) : List Byte :=
  buffered s ++ blocks T n s

@[simp] theorem length_buffered (s : StreamEncoderFromBlockEncoder B σ) :
    (buffered s).length = s.bufferedBytes := by
  have hle := s.bufferedBytes_le
  simp only [buffered, List.length_drop, Vector.length_toList]
  omega

@[simp] theorem bufferedBytes_drain (n : Nat) (s : StreamEncoderFromBlockEncoder B σ) :
    (drain n s).bufferedBytes = s.bufferedBytes - n := rfl

@[simp] theorem buffer_drain (n : Nat) (s : StreamEncoderFromBlockEncoder B σ) :
    (drain n s).buffer = s.buffer := rfl

@[simp] theorem blockEncoder_drain (n : Nat) (s : StreamEncoderFromBlockEncoder B σ) :
    (drain n s).blockEncoder = s.blockEncoder := rfl

@[simp] theorem bufferedBytes_retrieve (s : StreamEncoderFromBlockEncoder B σ) :
    (retrieve T s).bufferedBytes = B := rfl

@[simp] theorem retrieve_drain (n : Nat) (s : StreamEncoderFromBlockEncoder B σ) :
    retrieve T (drain n s) = retrieve T s := rfl

@[simp] theorem drain_zero (s : StreamEncoderFromBlockEncoder B σ) : drain 0 s = s := rfl

@[simp] theorem blocks_drain (n k : Nat) (s : StreamEncoderFromBlockEncoder B σ) :
    blocks T k (drain n s) = blocks T k s := by
  cases k <;> rfl

theorem drop_buffered (n : Nat) (s : StreamEncoderFromBlockEncoder B σ) :
    (buffered s).drop n = buffered (drain n s) := by
  have hle := s.bufferedBytes_le
  by_cases hn : n ≤ s.bufferedBytes
  · rw [buffered, buffered, List.drop_drop, bufferedBytes_drain, buffer_drain]
    congr 1
    omega
  · rw [List.drop_of_length_le (by rw [length_buffered]; omega), eq_comm,
      ← List.length_eq_zero_iff, length_buffered, bufferedBytes_drain]
    omega

theorem length_copied {n : Nat} (hn : n ≤ B) (s : StreamEncoderFromBlockEncoder B σ) :
    (copied n s).length = n := by
  simp only [copied, List.length_take, List.length_drop, Vector.length_toList]
  omega

/-- A buffer that is handed out to its end is handed out rightly. -/
theorem copied_bufferedBytes (s : StreamEncoderFromBlockEncoder B σ) :
    copied s.bufferedBytes s = buffered s := by
  rw [copied, ← buffered, List.take_of_length_le (length_buffered s).le]

theorem blocks_mono_succ (n : Nat) (s : StreamEncoderFromBlockEncoder B σ) :
    blocks T n s <+: blocks T (n + 1) s := by
  induction n generalizing s with
  | zero => exact List.nil_prefix
  | succ n ih =>
    rw [blocks, blocks]
    split
    · exact (List.prefix_append_right_inj _).mpr (ih _)
    · exact List.nil_prefix

theorem blocks_mono {m n : Nat} (hle : m ≤ n) (s : StreamEncoderFromBlockEncoder B σ) :
    blocks T m s <+: blocks T n s := by
  induction hle with
  | refl => exact List.prefix_rfl
  | step _ ih => exact ih.trans (blocks_mono_succ T _ s)

theorem rest_mono {m n : Nat} (hle : m ≤ n) (s : StreamEncoderFromBlockEncoder B σ) :
    rest T m s <+: rest T n s :=
  (List.prefix_append_right_inj _).mpr (blocks_mono T hle s)

/-- A new block is the next one of those that are left. -/
theorem rest_succ {s : StreamEncoderFromBlockEncoder B σ} (hempty : s.bufferedBytes = 0)
    (hactive : Active T s) (n : Nat) : rest T (n + 1) s = rest T n (retrieve T s) := by
  obtain ⟨hstatus, havailable⟩ := hactive
  have hnil : buffered s = [] := List.length_eq_zero_iff.mp (by rw [length_buffered, hempty])
  have hfull : buffered (retrieve T s) = (retrieve T s).buffer.toList := by
    rw [buffered, bufferedBytes_retrieve, Nat.sub_self, List.drop_zero]
  have hstatus : T.getStatus s.blockEncoder = 0 := by
    simpa [getStatus, hempty] using hstatus
  have hblocks : T.getAvailableBlocks s.blockEncoder ≠ 0 := by
    intro hzero
    exact havailable (by simp [getAvailableBytes, hzero, hempty])
  rw [rest, rest, hnil, hfull, blocks, if_pos ⟨hstatus, hblocks⟩, List.nil_append]

/-- Part of the buffer is left to the rounds after. -/
theorem rest_drain (n k : Nat) (s : StreamEncoderFromBlockEncoder B σ) :
    rest T k s = (buffered s).take n ++ rest T k (drain n s) := by
  rw [rest, rest, ← drop_buffered, blocks_drain, ← List.append_assoc, List.take_append_drop]

theorem rest_initial (n : Nat) (blockEncoder : σ) (buffer : Vector Byte B) :
    rest T n (initial blockEncoder buffer) = blocks T n (initial blockEncoder buffer) := by
  have hnil : buffered (initial blockEncoder buffer) = [] :=
    List.length_eq_zero_iff.mp (length_buffered _)
  rw [rest, hnil, List.nil_append]

/-! ## Where a request ends -/

/-- The buffer was handed out to its end. -/
def emptied (s : StreamEncoderFromBlockEncoder B σ) : StreamEncoderFromBlockEncoder B σ where
  blockEncoder := s.blockEncoder
  bufferedBytes := 0
  buffer := s.buffer
  bufferedBytes_le := Nat.zero_le B

/-- Where the block `i`, counted from the one after that in the buffer, is due. -/
def boundary (i : Nat) (s : StreamEncoderFromBlockEncoder B σ) :
    StreamEncoderFromBlockEncoder B σ :=
  emptied ((retrieve T)^[i] s)

/-- The block `i`, counted from the one after that in the buffer. -/
def block (i : Nat) (s : StreamEncoderFromBlockEncoder B σ) : List Byte :=
  ((retrieve T)^[i + 1] s).buffer.toList

/-- If `length` bytes end inside a block that the encoder has, `c` bytes into it, then the
last `c` bytes of the block are equal to the first `c`. -/
def EndsInBlock (length : Nat) (s : StreamEncoderFromBlockEncoder B σ) : Prop :=
  ∀ i c, length = i * B + c → c < B → (∀ j ≤ i, Active T (boundary T j s)) →
    (block T i s).drop (B - c) = (block T i s).take c

/-- What follows a request of that length in the buffer, or in the block in which the
request ends, does not matter: the last bytes of the block are equal to those due. -/
def EndsWell (length : Nat) (s : StreamEncoderFromBlockEncoder B σ) : Prop :=
  Active T s →
    if length < s.bufferedBytes then
      s.buffer.toList.drop (B - length) = (buffered s).take length
    else EndsInBlock T (length - s.bufferedBytes) s

/-- Each of the requests ends well, in the state that it finds. -/
def EachEndsWell [NeZero B] : List Nat → StreamEncoderFromBlockEncoder B σ → Prop
  | [], _ => True
  | length :: lengths, s =>
    EndsWell T length s ∧
      EachEndsWell lengths ((streamEncoderFromBlockEncoder T).getBytes length s).2.2

theorem copied_eq_drop {n : Nat} (hn : n ≤ B) (s : StreamEncoderFromBlockEncoder B σ) :
    copied n s = s.buffer.toList.drop (B - n) := by
  refine List.take_of_length_le ?_
  rw [List.length_drop, Vector.length_toList]
  omega

@[simp] theorem bufferedBytes_emptied (s : StreamEncoderFromBlockEncoder B σ) :
    (emptied s).bufferedBytes = 0 := rfl

theorem emptied_eq {s : StreamEncoderFromBlockEncoder B σ} (hempty : s.bufferedBytes = 0) :
    emptied s = s := by
  obtain ⟨blockEncoder, bufferedBytes, buffer, hle⟩ := s
  cases hempty
  rfl

theorem drain_bufferedBytes (s : StreamEncoderFromBlockEncoder B σ) :
    drain s.bufferedBytes s = emptied s := by
  simp only [drain, emptied, Nat.sub_self]

theorem endsInBlock_emptied (length : Nat) (s : StreamEncoderFromBlockEncoder B σ) :
    EndsInBlock T length (emptied s) ↔ EndsInBlock T length s := by
  have hboundary : ∀ j, boundary T j (emptied s) = boundary T j s := by
    intro j
    cases j with
    | zero => rfl
    | succ j => rfl
  have hblock : ∀ i, block T i (emptied s) = block T i s := fun _ => rfl
  simp only [EndsInBlock, hboundary, hblock]

/-- Without a block that was begun. -/
theorem endsWell_empty {s : StreamEncoderFromBlockEncoder B σ} (hempty : s.bufferedBytes = 0)
    (length : Nat) : EndsWell T length s ↔ EndsInBlock T length s := by
  rw [EndsWell, hempty, if_neg (Nat.not_lt_zero length), Nat.sub_zero]
  constructor
  · intro hends i c heq hc hactive
    have hactive₀ : Active T (emptied s) := hactive 0 (Nat.zero_le i)
    rw [emptied_eq hempty] at hactive₀
    exact hends hactive₀ i c heq hc hactive
  · exact fun hends _ => hends

theorem endsInBlock_short {length : Nat} (hlt : length < B)
    (s : StreamEncoderFromBlockEncoder B σ) :
    EndsInBlock T length s ↔
      (Active T (emptied s) →
        copied length (retrieve T s) = (retrieve T s).buffer.toList.take length) := by
  rw [copied_eq_drop hlt.le]
  constructor
  · intro hends hactive
    refine hends 0 length (by omega) hlt fun j hj => ?_
    obtain rfl : j = 0 := by omega
    exact hactive
  · rintro hends i c rfl hc hactive
    obtain rfl : i = 0 := by
      by_contra hi
      have hmul : B ≤ i * B := Nat.le_mul_of_pos_left B (Nat.pos_of_ne_zero hi)
      omega
    rw [Nat.zero_mul, Nat.zero_add] at hends
    exact hends (hactive 0 (Nat.le_refl 0))

/-- A whole block before the end. -/
theorem endsInBlock_block {length : Nat} (hle : B ≤ length)
    {s : StreamEncoderFromBlockEncoder B σ} (hactive : Active T (emptied s)) :
    EndsInBlock T length s ↔ EndsInBlock T (length - B) (retrieve T s) := by
  constructor
  · intro hends i c heq hc hact
    refine hends (i + 1) c (by rw [Nat.succ_mul]; omega) hc fun j hj => ?_
    cases j with
    | zero => exact hactive
    | succ j => exact hact j (by omega)
  · rintro hends i c rfl hc hact
    cases i with
    | zero => omega
    | succ i =>
      refine hends i c (by rw [Nat.succ_mul]; omega) hc fun j hj => ?_
      exact hact (j + 1) (by omega)

/-! ## One request -/

/-- An encoder that gives the same block again and again. -/
def counting (w : Nat) : BlockEncoder w 4 Unit where
  getStatus _ := 0
  getAvailableBlocks _ := 1
  getBlock _ s := (0, #v[1, 2, 3, 4], s)

section Requests

variable [NeZero B]

theorem loop_stop {length : Nat} {s : StreamEncoderFromBlockEncoder B σ}
    (h : ¬(Active T s ∧ length ≠ 0)) : loop T length s = ([], s) := by
  rw [loop, if_neg h]

/-- A request that the buffer can serve, refilled if it has to be. -/
theorem loop_within {length : Nat} {s r : StreamEncoderFromBlockEncoder B σ}
    (hactive : Active T s) (hlength : length ≠ 0) (hr : refill T s = r)
    (hle : length ≤ r.bufferedBytes) : loop T length s = (copied length r, drain length r) := by
  rw [loop, if_pos ⟨hactive, hlength⟩, hr, Nat.min_eq_right hle]
  simp only [Nat.sub_self]
  rw [loop_stop T (fun h => h.2 rfl), List.append_nil]

/-- A request that takes all of the buffer. -/
theorem loop_beyond {length : Nat} {s r : StreamEncoderFromBlockEncoder B σ}
    (hactive : Active T s) (hlength : length ≠ 0) (hr : refill T s = r)
    (hle : r.bufferedBytes ≤ length) :
    loop T length s =
      (buffered r ++ (loop T (length - r.bufferedBytes) (emptied r)).1,
        (loop T (length - r.bufferedBytes) (emptied r)).2) := by
  rw [loop, if_pos ⟨hactive, hlength⟩, hr, Nat.min_eq_left hle]
  simp only [copied_bufferedBytes, drain_bufferedBytes]

/-- What a request of that length should give: the next bytes of those that are left. -/
structure Due (length : Nat) (s : StreamEncoderFromBlockEncoder B σ) (due : List Byte) :
    Prop where
  length_eq : due.length = (loop T length s).1.length
  rest_eq : ∃ k, ∀ n, rest T (n + k) s = due ++ rest T n (loop T length s).2
  gives_iff : (loop T length s).1 = due ↔ EndsWell T length s

omit [NeZero B] in
/-- What is left when the buffer is refilled. -/
theorem exists_rest_refill {s : StreamEncoderFromBlockEncoder B σ} (hactive : Active T s) :
    ∃ k, ∀ n, rest T (n + k) s = rest T n (refill T s) := by
  by_cases hempty : s.bufferedBytes = 0
  · refine ⟨1, fun n => ?_⟩
    rw [refill, if_pos hempty, rest_succ T hempty hactive]
  · exact ⟨0, fun n => by rw [refill, if_neg hempty, Nat.add_zero]⟩

omit [NeZero B] in
/-- A request that the buffer can serve and does not empty ends well exactly if the end of
the buffer is equal to its next bytes. -/
theorem endsWell_within {length : Nat} {s r : StreamEncoderFromBlockEncoder B σ}
    (hactive : Active T s) (hr : refill T s = r) (hlt : length < r.bufferedBytes) :
    EndsWell T length s ↔ copied length r = (buffered r).take length := by
  have hle := r.bufferedBytes_le
  by_cases hempty : s.bufferedBytes = 0
  · obtain rfl : retrieve T s = r := by rw [← hr, refill, if_pos hempty]
    rw [endsWell_empty T hempty, endsInBlock_short T hlt, emptied_eq hempty, buffered,
      bufferedBytes_retrieve, Nat.sub_self, List.drop_zero]
    exact ⟨fun h => h hactive, fun h _ => h⟩
  · obtain rfl : s = r := by rw [← hr, refill, if_neg hempty]
    rw [EndsWell, if_pos hlt, copied_eq_drop (by omega)]
    exact ⟨fun h => h hactive, fun h _ => h⟩

omit [NeZero B] in
/-- A request that takes all of the buffer ends as the rest of it does. -/
theorem endsWell_beyond {length : Nat} {s r : StreamEncoderFromBlockEncoder B σ}
    (hactive : Active T s) (hr : refill T s = r) (hle : r.bufferedBytes ≤ length) :
    EndsWell T length s ↔ EndsWell T (length - r.bufferedBytes) (emptied r) := by
  rw [endsWell_empty T (bufferedBytes_emptied r), endsInBlock_emptied]
  by_cases hempty : s.bufferedBytes = 0
  · obtain rfl : retrieve T s = r := by rw [← hr, refill, if_pos hempty]
    rw [endsWell_empty T hempty, bufferedBytes_retrieve]
    exact endsInBlock_block T hle (by rwa [emptied_eq hempty])
  · obtain rfl : s = r := by rw [← hr, refill, if_neg hempty]
    rw [EndsWell, if_neg (by omega)]
    exact ⟨fun h => h hactive, fun h _ => h⟩

/-- Every request is due some bytes, and gives them exactly if it ends well. -/
theorem exists_due (length : Nat) (s : StreamEncoderFromBlockEncoder B σ) :
    ∃ due, Due T length s due := by
  induction length using Nat.strong_induction_on generalizing s with
  | _ length ih =>
    by_cases hround : Active T s ∧ length ≠ 0
    swap
    · -- the loop is not entered
      have hstop := loop_stop T hround
      refine ⟨[], by rw [hstop], ⟨0, fun n => by rw [hstop]; rfl⟩, ?_⟩
      rw [hstop]
      refine iff_of_true rfl fun hactive => ?_
      obtain rfl : length = 0 := by
        by_contra hne
        exact hround ⟨hactive, hne⟩
      split
      · rw [Nat.sub_zero, List.take_zero]
        exact List.drop_of_length_le (Vector.length_toList).le
      · rw [Nat.zero_sub, endsInBlock_short T (Nat.pos_of_neZero B)]
        intro _
        rw [List.take_zero, ← List.length_eq_zero_iff, length_copied (Nat.zero_le B)]
    obtain ⟨hactive, hlength⟩ := hround
    obtain ⟨k, hrest⟩ := exists_rest_refill T hactive
    obtain ⟨r, hr⟩ : ∃ r, refill T s = r := ⟨_, rfl⟩
    have hpos : 0 < r.bufferedBytes := hr ▸ refill_pos T s
    have hle := r.bufferedBytes_le
    rw [hr] at hrest
    by_cases hlt : length < r.bufferedBytes
    · have hloop := loop_within T hactive hlength hr hlt.le
      refine ⟨(buffered r).take length, ?_, ⟨k, fun n => ?_⟩, ?_⟩
      · rw [hloop, length_copied (by omega), List.length_take, length_buffered]
        omega
      · rw [hrest, hloop, rest_drain T length]
      · rw [hloop, endsWell_within T hactive hr hlt]
    · have hge : r.bufferedBytes ≤ length := Nat.le_of_not_lt hlt
      have hloop := loop_beyond T hactive hlength hr hge
      obtain ⟨due, hdue⟩ := ih (length - r.bufferedBytes) (by omega) (emptied r)
      obtain ⟨k', hrest'⟩ := hdue.rest_eq
      refine ⟨buffered r ++ due, ?_, ⟨k' + k, fun n => ?_⟩, ?_⟩
      · rw [hloop, List.length_append, List.length_append, hdue.length_eq]
      · rw [← Nat.add_assoc, hrest, hloop, List.append_assoc, ← hrest',
          rest_drain T r.bufferedBytes, drain_bufferedBytes,
          List.take_of_length_le (length_buffered r).le]
      · rw [hloop, endsWell_beyond T hactive hr hge, ← hdue.gives_iff]
        exact List.append_right_inj (buffered r)

/-! ## Successive requests -/

theorem getMany_prefix_rest_iff (lengths : List Nat) (s : StreamEncoderFromBlockEncoder B σ) :
    (∃ n, ((streamEncoderFromBlockEncoder T).getMany lengths s).flatten <+: rest T n s) ↔
      EachEndsWell T lengths s := by
  induction lengths generalizing s with
  | nil => exact iff_of_true ⟨0, List.nil_prefix⟩ trivial
  | cons length lengths ih =>
    obtain ⟨due, hdue⟩ := exists_due T length s
    obtain ⟨k, hrest⟩ := hdue.rest_eq
    rw [EachEndsWell, ← hdue.gives_iff, ← ih]
    show (∃ n, (loop T length s).1 ++ _ <+: rest T n s) ↔ _
    constructor
    · rintro ⟨n, hinit⟩
      obtain ⟨after, hafter⟩ := hinit.trans (rest_mono T (Nat.le_add_right n k) s)
      rw [hrest, List.append_assoc] at hafter
      obtain ⟨hfirst, hnext⟩ := List.append_inj hafter hdue.length_eq.symm
      exact ⟨hfirst, n, after, hnext⟩
    · rintro ⟨hfirst, n, hinit⟩
      refine ⟨n + k, ?_⟩
      rw [hrest, hfirst]
      exact (List.prefix_append_right_inj due).mpr hinit

/-- **Resumable block encoder.** Successive requests give the blocks of the encoder byte
after byte exactly if each of them ends well. -/
theorem getMany_prefix_iff (blockEncoder : σ) (buffer : Vector Byte B) (lengths : List Nat) :
    (∃ n, ((streamEncoderFromBlockEncoder T).getMany lengths
        (initial blockEncoder buffer)).flatten <+: blocks T n (initial blockEncoder buffer)) ↔
      EachEndsWell T lengths (initial blockEncoder buffer) := by
  simp only [← rest_initial]
  exact getMany_prefix_rest_iff T lengths (initial blockEncoder buffer)

/-- Two requests that end with the blocks give all of them. -/
theorem getMany_prefix_iff_four :
    ∃ n, ((streamEncoderFromBlockEncoder (counting 32)).getMany [4, 8]
      (initial () (Vector.replicate 4 0))).flatten <+:
        blocks (counting 32) n (initial () (Vector.replicate 4 0)) := by
  have haligned {length : Nat} (h : length % 4 = 0) (s : StreamEncoderFromBlockEncoder 4 Unit) :
      EndsInBlock (counting 32) length s := by
    intro i c hlength hc _
    obtain rfl : c = 0 := by omega
    rw [List.take_zero]
    exact List.drop_of_length_le (Vector.length_toList).le
  -- the first request empties the buffer
  have hempty : ((streamEncoderFromBlockEncoder (counting 32)).getBytes 4
      (initial () (Vector.replicate 4 0))).2.2.bufferedBytes = 0 := by
    show (loop (counting 32) 4 (initial () (Vector.replicate 4 0))).2.bufferedBytes = 0
    rw [loop, if_pos (by decide)]
    show (loop (counting 32) 0 _).2.bufferedBytes = 0
    rw [loop_stop (counting 32) fun h => h.2 rfl]
    rfl
  refine (getMany_prefix_iff (counting 32) () (Vector.replicate 4 0) [4, 8]).mpr
    ⟨fun _ => ?_, fun _ => ?_, trivial⟩
  · rw [if_neg (by decide)]
    exact haligned (by decide) _
  · rw [hempty, if_neg (by decide)]
    exact haligned (by decide) _

/-- The first byte of a block is asked for, and its last one is handed out. -/
theorem not_getMany_prefix :
    ¬∃ n, ((streamEncoderFromBlockEncoder (counting 32)).getMany [1, 3]
      (initial () (Vector.replicate 4 0))).flatten <+:
        blocks (counting 32) n (initial () (Vector.replicate 4 0)) := by
  simp only [← rest_initial]
  rw [getMany_prefix_rest_iff]
  rintro ⟨hfirst, -⟩
  have hends := hfirst (by decide)
  rw [if_neg (by decide)] at hends
  have hlast := hends 0 1 rfl (by decide) fun j hj => by
    obtain rfl : j = 0 := by omega
    decide
  exact absurd hlast (by decide)

end Requests

/-- A request cannot end inside a block of one byte. -/
theorem eachEndsWell_one (T : BlockEncoder w 1 σ) (lengths : List Nat)
    (s : StreamEncoderFromBlockEncoder 1 σ) : EachEndsWell T lengths s := by
  induction lengths generalizing s with
  | nil => trivial
  | cons length lengths ih =>
    refine ⟨fun _ => ?_, ih _⟩
    have hle := s.bufferedBytes_le
    split
    · obtain rfl : length = 0 := by omega
      rw [List.take_zero]
      exact List.drop_of_length_le (Vector.length_toList).le
    · intro i c _ hc _
      obtain rfl : c = 0 := by omega
      rw [List.take_zero]
      exact List.drop_of_length_le (Vector.length_toList).le

/-- The bytes of a byte encoder are given one after the other. -/
theorem getMany_byteEncoder_prefix (byteEncoder : ByteEncoder w σ) (s : σ)
    (buffer : Vector Byte 1) (lengths : List Nat) :
    ∃ n, ((streamEncoderFromBlockEncoder (blockEncoderFromByteEncoder byteEncoder)).getMany
      lengths (initial s buffer)).flatten <+:
        blocks (blockEncoderFromByteEncoder byteEncoder) n (initial s buffer) := by
  simp only [← rest_initial]
  exact (getMany_prefix_rest_iff _ lengths _).mpr (eachEndsWell_one _ lengths _)

end StreamEncoderFromBlockEncoder

end WODrive.Fibre
