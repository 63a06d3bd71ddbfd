import WODrive.Fibre.Stream
import WODrive.Library.Wrap

/-!
# Decoders (fibre/cpp/include/fibre/decoders.hpp)

A decoder is fed with bytes until it expects no more. A `BlockDecoder` takes blocks of a
fixed size and a `ByteDecoder` single bytes; a `StreamDecoder` made of one of them takes any
number of bytes, and can be fed with those that follow later.

- `loop_append`: a stream decoder made of a block decoder does not see where the bytes that
  it is fed with were cut;
- `loop_block`: a whole block.
-/

namespace WODrive.Fibre

open Wrap

universe u

/-- `StreamDecoder`; `processBytes` returns the status, the number of bytes it processed and
the decoder. -/
structure StreamDecoder (w : Nat) (σ : Type u) where
  getStatus : σ → Result
  getExpectedBytes : σ → BitVec w
  processBytes : List Byte → σ → Result × Nat × σ

/-- `BlockDecoder<blocksize>` -/
structure BlockDecoder (w blocksize : Nat) (σ : Type u) where
  getStatus : σ → Result
  getExpectedBlocks : σ → BitVec w
  processBlock : Vector Byte blocksize → σ → Result × σ

/-- `ByteDecoder` -/
structure ByteDecoder (w : Nat) (σ : Type u) where
  getStatus : σ → Result
  getExpectedBytes : σ → BitVec w
  processByte : Byte → σ → Result × σ

/-! ## Stream decoders from byte decoders -/

/-- The loop of `StreamDecoder_from_ByteDecoder::process_bytes`. -/
def ByteDecoder.loop {w : Nat} {σ : Type u} (byteDecoder : ByteDecoder w σ) :
    List Byte → σ → Nat × σ
  | [], s => (0, s)
  | byte :: bytes, s =>
    if byteDecoder.getStatus s = 0 ∧ byteDecoder.getExpectedBytes s ≠ 0 then
      let (_, s) := byteDecoder.processByte byte s
      let (processed, s) := byteDecoder.loop bytes s
      (processed + 1, s)
    else (0, s)

/-- `StreamDecoder_from_ByteDecoder` -/
def streamDecoderFromByteDecoder {w : Nat} {σ : Type u} (byteDecoder : ByteDecoder w σ) :
    StreamDecoder w σ where
  getStatus := byteDecoder.getStatus
  getExpectedBytes := byteDecoder.getExpectedBytes
  processBytes bytes s :=
    let (processed, s) := byteDecoder.loop bytes s
    (byteDecoder.getStatus s, processed, s)

/-! ## Stream decoders from block decoders -/

/-- The variables of a `StreamDecoder_from_BlockDecoder`. -/
structure StreamDecoderFromBlockDecoder (blocksize : Nat) (σ : Type u) where
  blockDecoder : σ
  bufferPos : Nat
  buffer : Vector Byte blocksize
  bufferPos_lt : bufferPos < blocksize

namespace StreamDecoderFromBlockDecoder

variable {w B : Nat} {σ : Type u}

/-- As the constructor leaves it, with whatever the buffer contains. -/
def initial [NeZero B] (blockDecoder : σ) (buffer : Vector Byte B) :
    StreamDecoderFromBlockDecoder B σ where
  blockDecoder := blockDecoder
  bufferPos := 0
  buffer := buffer
  bufferPos_lt := Nat.pos_of_neZero B

/-- `memcpy(buffer_ + buffer_pos_, buffer, n_copy)` -/
def copied (pos : Nat) (bytes : List Byte) (buffer : Vector Byte B) : Vector Byte B :=
  Vector.ofFn fun i => if i < pos then buffer[i] else bytes.getD (i - pos) buffer[i]

variable (T : BlockDecoder w B σ)

def getStatus (s : StreamDecoderFromBlockDecoder B σ) : Result :=
  T.getStatus s.blockDecoder

def getExpectedBytes (s : StreamDecoderFromBlockDecoder B σ) : BitVec w :=
  let expectedBytes := T.getExpectedBlocks s.blockDecoder * BitVec.ofNat w B
  expectedBytes - BitVec.ofNat w (min expectedBytes.toNat s.bufferPos)

/-- The condition of the loop, but for the length. -/
abbrev Active (s : StreamDecoderFromBlockDecoder B σ) : Prop :=
  getStatus T s = 0 ∧ getExpectedBytes T s ≠ 0

/-- One round of the loop: the bytes fill the buffer, and if it is a full block then,
process it. -/
def fill (bytes : List Byte) (s : StreamDecoderFromBlockDecoder B σ) :
    StreamDecoderFromBlockDecoder B σ :=
  let buffer := copied s.bufferPos bytes s.buffer
  if h : s.bufferPos + bytes.length < B then
    { blockDecoder := s.blockDecoder
      bufferPos := s.bufferPos + bytes.length
      buffer := buffer
      bufferPos_lt := h }
  else
    { blockDecoder := (T.processBlock buffer s.blockDecoder).2
      bufferPos := 0
      buffer := buffer
      bufferPos_lt := Nat.zero_lt_of_lt s.bufferPos_lt }

/-- The loop of `process_bytes`. -/
def loop (bytes : List Byte) (s : StreamDecoderFromBlockDecoder B σ) :
    Nat × StreamDecoderFromBlockDecoder B σ :=
  if Active T s ∧ bytes ≠ [] then
    let nCopy := min bytes.length (B - s.bufferPos)
    let (processed, next) := loop (bytes.drop nCopy) (fill T (bytes.take nCopy) s)
    (nCopy + processed, next)
  else (0, s)
termination_by bytes.length
decreasing_by
  next hround =>
  have hpos := List.length_pos_iff.mpr hround.2
  have hlt := s.bufferPos_lt
  rw [List.length_drop]
  omega

end StreamDecoderFromBlockDecoder

open StreamDecoderFromBlockDecoder in
/-- `StreamDecoder_from_BlockDecoder` -/
def streamDecoderFromBlockDecoder {w B : Nat} {σ : Type u} (T : BlockDecoder w B σ) :
    StreamDecoder w (StreamDecoderFromBlockDecoder B σ) where
  getStatus := getStatus T
  getExpectedBytes := getExpectedBytes T
  processBytes bytes s :=
    let (processed, s) := loop T bytes s
    (getStatus T s, processed, s)

/-- Feeding a decoder in chunks: the number of bytes that it processed, and what it is
left as. -/
def StreamDecoder.feed {w : Nat} {σ : Type u} (decoder : StreamDecoder w σ) :
    List (List Byte) → σ → Nat × σ
  | [], s => (0, s)
  | chunk :: chunks, s =>
    let (_, processed, s) := decoder.processBytes chunk s
    let (more, s) := decoder.feed chunks s
    (processed + more, s)

namespace StreamDecoderFromBlockDecoder

variable {w B : Nat} {σ : Type u} (T : BlockDecoder w B σ)

theorem loop_stop {bytes : List Byte} {s : StreamDecoderFromBlockDecoder B σ}
    (h : ¬(Active T s ∧ bytes ≠ [])) : loop T bytes s = (0, s) := by
  rw [loop, if_neg h]

theorem loop_nil (s : StreamDecoderFromBlockDecoder B σ) : loop T [] s = (0, s) :=
  loop_stop T fun h => h.2 rfl

/-- A round that takes the bytes before the rest. -/
theorem loop_round (bytes rest : List Byte) {s : StreamDecoderFromBlockDecoder B σ}
    (hactive : Active T s) (hne : bytes ≠ [])
    (hlength : bytes.length = B - s.bufferPos ∨ bytes.length < B - s.bufferPos ∧ rest = []) :
    loop T (bytes ++ rest) s =
      (bytes.length + (loop T rest (fill T bytes s)).1, (loop T rest (fill T bytes s)).2) := by
  have hmin : min (bytes ++ rest).length (B - s.bufferPos) = bytes.length := by
    rw [List.length_append]
    rcases hlength with heq | ⟨hlt, rfl⟩
    · omega
    · rw [List.length_nil]
      omega
  rw [loop, if_pos ⟨hactive, List.append_ne_nil_of_left_ne_nil hne rest⟩, hmin]
  simp only [List.take_left, List.drop_left]

/-- Copying twice. -/
theorem copied_append (pos : Nat) (as bs : List Byte) (buffer : Vector Byte B) :
    copied (pos + as.length) bs (copied pos as buffer) = copied pos (as ++ bs) buffer := by
  apply Vector.ext
  intro i hi
  simp only [copied, Vector.getElem_ofFn, Fin.getElem_fin, List.getD_eq_getElem?_getD]
  by_cases h₁ : i < pos
  · rw [if_pos h₁, if_pos h₁, if_pos (by omega)]
  · by_cases h₂ : i < pos + as.length
    · rw [if_pos h₂, if_neg h₁, if_neg h₁, List.getElem?_append_left (by omega)]
    · rw [if_neg h₂, if_neg h₁, if_neg h₁, List.getElem?_append_right (by omega),
        List.getElem?_eq_none (by omega : as.length ≤ i - pos), Option.getD_none, Nat.sub_add_eq]

/-- Filling twice, where the first time does not fill the block. -/
theorem fill_append {as bs : List Byte} {s : StreamDecoderFromBlockDecoder B σ}
    (hlt : s.bufferPos + as.length < B) :
    fill T bs (fill T as s) = fill T (as ++ bs) s := by
  have hfirst : fill T as s =
      { blockDecoder := s.blockDecoder
        bufferPos := s.bufferPos + as.length
        buffer := copied s.bufferPos as s.buffer
        bufferPos_lt := hlt } := dif_pos hlt
  rw [hfirst]
  simp only [fill, copied_append, List.length_append, Nat.add_assoc]

section Chunks

/-- The number of bytes that are expected never exceeds a `size_t`. -/
def Expects : Prop :=
  ∀ s, (T.getExpectedBlocks s).toNat * B < 2 ^ w

variable {T}

/-- Bytes are expected as long as blocks are, in the middle of a block as well. -/
theorem active_iff (hfits : Expects T) (s : StreamDecoderFromBlockDecoder B σ) :
    Active T s ↔ T.getStatus s.blockDecoder = 0 ∧ T.getExpectedBlocks s.blockDecoder ≠ 0 := by
  have hlt := s.bufferPos_lt
  have hfits := hfits s.blockDecoder
  have hzero : getExpectedBytes T s = 0 ↔ T.getExpectedBlocks s.blockDecoder = 0 := by
    rw [eq_zero_iff_toNat, eq_zero_iff_toNat]
    rcases Nat.eq_zero_or_pos (T.getExpectedBlocks s.blockDecoder).toNat with hnone | hsome
    · refine iff_of_true ?_ hnone
      simp [getExpectedBytes, (eq_zero_iff_toNat _).mpr hnone]
    · have hle := Nat.le_mul_of_pos_left B hsome
      have hbytes : (T.getExpectedBlocks s.blockDecoder * BitVec.ofNat w B).toNat =
          (T.getExpectedBlocks s.blockDecoder).toNat * B := by
        rw [BitVec.toNat_mul, BitVec.toNat_ofNat, Nat.mul_mod_mod, Nat.mod_eq_of_lt hfits]
      refine iff_of_false ?_ (Nat.ne_of_gt hsome)
      rw [getExpectedBytes, hbytes, Nat.min_eq_right (by omega), BitVec.toNat_sub_of_le, hbytes,
        BitVec.toNat_ofNat, Nat.mod_eq_of_lt (by omega)]
      · omega
      · rw [BitVec.le_def, hbytes, BitVec.toNat_ofNat, Nat.mod_eq_of_lt (by omega)]
        omega
  rw [Active, Ne, hzero]
  exact Iff.rfl

/-- Bytes that do not fill the buffer: those after them fill it further. -/
theorem loop_part (hfits : Expects T) {as : List Byte} {s : StreamDecoderFromBlockDecoder B σ}
    (hactive : Active T s) (hne : as ≠ []) (hpart : s.bufferPos + as.length < B)
    (bs : List Byte) :
    loop T (as ++ bs) s =
      (as.length + (loop T bs (fill T as s)).1, (loop T bs (fill T as s)).2) := by
  have hfill : (fill T as s).bufferPos = s.bufferPos + as.length ∧
      (fill T as s).blockDecoder = s.blockDecoder := by
    rw [fill, dif_pos hpart]
    exact ⟨rfl, rfl⟩
  have hactive' : Active T (fill T as s) := by
    rw [active_iff hfits, hfill.2, ← active_iff hfits]
    exact hactive
  by_cases hbs : bs = []
  · exact loop_round T as bs hactive hne (.inr ⟨by omega, hbs⟩)
  have hpos := List.length_pos_iff.mpr hbs
  -- how many of the bytes after them the same round takes
  obtain ⟨m, hm⟩ : ∃ m, m = min bs.length (B - s.bufferPos - as.length) := ⟨_, rfl⟩
  have hlength : (bs.take m).length = m := by
    rw [List.length_take]
    omega
  have hend : s.bufferPos + as.length + m = B ∨
      s.bufferPos + as.length + m < B ∧ bs.drop m = [] := by
    rcases Nat.lt_or_ge bs.length (B - s.bufferPos - as.length) with hshort | hlong
    · exact .inr ⟨by omega, List.drop_of_length_le (by omega)⟩
    · exact .inl (by omega)
  have hboth := loop_round T (as ++ bs.take m) (bs.drop m) hactive
    (List.append_ne_nil_of_left_ne_nil hne _) (by
      rw [List.length_append, hlength]
      exact hend.imp (fun h => by omega) (fun h => ⟨by omega, h.2⟩))
  have hafter := loop_round T (bs.take m) (bs.drop m) hactive'
    (List.ne_nil_of_length_pos (by omega)) (by
      rw [hlength, hfill.1]
      exact hend.imp (fun h => by omega) (fun h => ⟨by omega, h.2⟩))
  rw [List.append_assoc, List.take_append_drop, List.length_append, Nat.add_assoc] at hboth
  rw [List.take_append_drop, fill_append T hpart] at hafter
  rw [hboth, hafter]

/-- Where the bytes were cut does not matter. -/
theorem loop_append (hfits : Expects T) (as bs : List Byte)
    (s : StreamDecoderFromBlockDecoder B σ) :
    loop T (as ++ bs) s =
      ((loop T as s).1 + (loop T bs (loop T as s).2).1, (loop T bs (loop T as s).2).2) := by
  induction hn : as.length using Nat.strong_induction_on generalizing as s with
  | _ n ih =>
    have hlt := s.bufferPos_lt
    by_cases hactive : Active T s
    swap
    · simp only [loop_stop T (fun h => hactive h.1)]
    by_cases hnil : as = []
    · rw [hnil, List.nil_append, loop_nil, Nat.zero_add]
    by_cases hfull : B - s.bufferPos ≤ as.length
    · -- the first round of both is the same
      have hfirst : (as.take (B - s.bufferPos)).length = B - s.bufferPos := by
        rw [List.length_take, Nat.min_eq_left hfull]
      have hne : as.take (B - s.bufferPos) ≠ [] := List.ne_nil_of_length_pos (by omega)
      have hround := fun rest => loop_round T _ rest hactive hne (.inl hfirst)
      have hrest := ih (as.drop (B - s.bufferPos)).length (by rw [List.length_drop]; omega)
        (as.drop (B - s.bufferPos)) (fill T (as.take (B - s.bufferPos)) s) rfl
      have has := hround (as.drop (B - s.bufferPos))
      have hboth := hround (as.drop (B - s.bufferPos) ++ bs)
      rw [List.take_append_drop] at has
      rw [← List.append_assoc, List.take_append_drop, hrest] at hboth
      rw [has, hboth, Nat.add_assoc]
    · have hpart := loop_part hfits hactive hnil (by omega)
      have has := hpart []
      rw [List.append_nil, loop_nil] at has
      rw [hpart, has, Nat.add_zero]

/-- Feeding in chunks is feeding all at once. -/
theorem feed_eq_loop (hfits : Expects T) (chunks : List (List Byte))
    (s : StreamDecoderFromBlockDecoder B σ) :
    (streamDecoderFromBlockDecoder T).feed chunks s = loop T chunks.flatten s := by
  induction chunks generalizing s with
  | nil => exact (loop_nil T s).symm
  | cons chunk chunks ih =>
    rw [List.flatten_cons, loop_append hfits, ← ih]
    rfl

/-- A whole block, and what follows it. -/
theorem loop_block {bytes : List Byte} (hlength : bytes.length = B) (rest : List Byte)
    {s : StreamDecoderFromBlockDecoder B σ} (hactive : Active T s) (hpos : s.bufferPos = 0) :
    ∃ (r : StreamDecoderFromBlockDecoder B σ) (block : Vector Byte B),
      block.toList = bytes ∧ r.bufferPos = 0 ∧
        r.blockDecoder = (T.processBlock block s.blockDecoder).2 ∧
        loop T (bytes ++ rest) s = (B + (loop T rest r).1, (loop T rest r).2) := by
  have hne : bytes ≠ [] := by
    have hlt := s.bufferPos_lt
    exact List.ne_nil_of_length_pos (by omega)
  have hround := loop_round T bytes rest hactive hne (.inl (by omega))
  rw [hlength] at hround
  refine ⟨fill T bytes s, copied 0 bytes s.buffer, ?_, ?_, ?_, hround⟩
  · apply List.ext_getElem
    · rw [Vector.length_toList, hlength]
    · intro i hi hi'
      simp only [copied, Vector.getElem_toList, Vector.getElem_ofFn, Nat.not_lt_zero, if_false,
        Nat.sub_zero, List.getD_eq_getElem?_getD, List.getElem?_eq_getElem hi', Option.getD_some]
  · rw [fill, dif_neg (by omega)]
  · rw [fill, dif_neg (by omega), hpos]

end Chunks

end StreamDecoderFromBlockDecoder

end WODrive.Fibre
