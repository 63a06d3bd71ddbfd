import WODrive.Library.Runs
import WODrive.Fibre.Stream

/-!
# The segmenter

Between two bytes the segmenter is in the middle of a header (`InHeader`) or in the
middle of a packet whose header it has accepted (`InPacket`). The two relations tie its
buffers and counters to the bytes `p` it has stored of the header or the packet; what
the buffers hold beyond them does not matter.

`InHeader.processByte` and `InPacket.processByte_*` say what one byte does. The packet
buffer has room for `RX_BUF_SIZE = 128` bytes, which is one byte less than the longest
packet with its trailer that a header can announce: `InPacket.full`.
-/

namespace WODrive.Fibre

universe u

namespace StreamToPacketSegmenter

variable {σ : Type u} (sink : PacketSink σ) {s : StreamToPacketSegmenter σ} {p : List Byte}
  {n : Nat}

/-! ## States -/

/-- `header_index_ = packet_index_ = 0` -/
structure Idle (s : StreamToPacketSegmenter σ) : Prop where
  headerIndex : s.headerIndex = 0
  packetIndex : s.packetIndex = 0

/-- The bytes that the segmenter accepts as (the beginning of) a header. -/
def IsHeader : List Byte → Prop
  | [] => True
  | [prefixByte] => prefixByte = CANONICAL_PREFIX
  | [prefixByte, length] => prefixByte = CANONICAL_PREFIX ∧ length &&& 0x80 = 0
  | [prefixByte, length, crc] =>
    prefixByte = CANONICAL_PREFIX ∧ length &&& 0x80 = 0 ∧ calcCrc8 [prefixByte, length, crc] = 0
  | _ => False

/-- In the middle of a header: the bytes `p` are stored. -/
structure InHeader (s : StreamToPacketSegmenter σ) (p : List Byte) : Prop where
  isHeader : IsHeader p
  short : p.length < 3
  headerIndex : s.headerIndex = p.length
  headerBuffer : s.headerBuffer.toList.take p.length = p
  packetIndex : s.packetIndex = 0

/-- In the middle of a packet of `n` bytes, which its trailer of two bytes follows:
the bytes `p` are stored. -/
structure InPacket (s : StreamToPacketSegmenter σ) (n : Nat) (p : List Byte) : Prop where
  small : n < 128
  short : p.length < n + 2
  stored : p.length ≤ RX_BUF_SIZE
  headerIndex : s.headerIndex = 3
  packetLength : s.packetLength = n + 2
  packetIndex : s.packetIndex = p.length
  packetBuffer : s.packetBuffer.toList.take p.length = p

theorem Idle.inHeader (h : Idle s) : InHeader s [] where
  isHeader := trivial
  short := by decide
  headerIndex := h.headerIndex
  headerBuffer := rfl
  packetIndex := h.packetIndex

theorem InHeader.idle (h : InHeader s []) : Idle s :=
  ⟨h.headerIndex, h.packetIndex⟩

theorem idle_initial (output : σ) : Idle (initial output) := ⟨rfl, rfl⟩

/-- Storing one more byte of a buffer. -/
theorem take_setIfInBounds {m : Nat} (v : Vector Byte m) {i : Nat} (hi : i < m) (b : Byte) :
    (v.setIfInBounds i b).toList.take (i + 1) = v.toList.take i ++ [b] := by
  rw [Vector.toList_setIfInBounds, List.take_add_one, List.take_set_of_le (Nat.le_refl i)]
  simp [hi]

/-! ## One byte -/

theorem deliver_of_ne sink (h : s.headerIndex ≠ 3 ∨ s.packetIndex ≠ s.packetLength) :
    (deliver sink s).2 = s := by
  unfold deliver
  rw [if_neg (not_and_or.mpr h)]

/-- What a packet that is complete leads to. -/
theorem deliver_complete (hheader : s.headerIndex = 3) (hpacket : s.packetIndex = s.packetLength) :
    Idle (deliver sink s).2 ∧
      (deliver sink s).2.output =
        if calcCrc16 (s.packetBuffer.toList.take s.packetLength) = 0 then
          (sink.processPacket (s.packetBuffer.toList.take (s.packetLength - 2)) s.output).2
        else s.output := by
  unfold deliver
  rw [if_pos ⟨hheader, hpacket⟩]
  constructor
  · exact ⟨rfl, rfl⟩
  · by_cases hcrc : calcCrc16 (s.packetBuffer.toList.take s.packetLength) = 0
    · simp only [if_pos hcrc]
    · simp only [if_neg hcrc]

/-- The header byte that a byte of the stored header is. -/
theorem headerByte_eq {i k : Nat} {b : Byte} (hbuf : s.headerBuffer.toList.take k = p)
    (hi : p[i]? = some b) : s.headerByte i = b := by
  unfold headerByte
  rw [← hbuf, List.getElem?_take] at hi
  split at hi
  · rw [List.getD_eq_getElem?_getD, hi]
    rfl
  · cases hi

/-- What the checks make of a header with the bytes `p ++ [b]`. -/
theorem checkHeader_eq {b : Byte} (hp : IsHeader p) (hlen : p.length < 3)
    (hindex : s.headerIndex = p.length + 1)
    (hbuf : s.headerBuffer.toList.take (p.length + 1) = p ++ [b]) :
    (IsHeader (p ++ [b]) → checkHeader s =
      if p.length < 2 then s else { s with packetLength := (p.getD 1 0).toNat + 2 }) ∧
    (¬ IsHeader (p ++ [b]) → checkHeader s = { s with headerIndex := 0 }) := by
  unfold checkHeader
  match p with
  | [] =>
    have h0 : s.headerByte 0 = b := headerByte_eq hbuf rfl
    constructor <;> intro hb <;> simp [IsHeader] at hb <;> simp [hindex, h0, hb]
  | [b0] =>
    have h1 : s.headerByte 1 = b := headerByte_eq hbuf rfl
    have h0 : b0 = CANONICAL_PREFIX := hp
    constructor <;> intro hb <;> simp [IsHeader, h0] at hb <;> simp [hindex, h1, hb]
  | [b0, b1] =>
    have h1 : s.headerByte 1 = b1 := headerByte_eq hbuf rfl
    have hall : s.headerBuffer.toList = [b0, b1, b] := by
      rw [← List.take_of_length_le (Nat.le_of_eq (Vector.length_toList ..))]
      exact hbuf
    obtain ⟨h0, hsize⟩ := hp
    constructor <;> intro hb <;> simp [IsHeader, h0] at hb hsize <;>
      simp [hindex, h1, hall, h0, hb, hsize]
  | _ :: _ :: _ :: _ =>
    simp only [List.length_cons] at hlen
    omega

theorem storeHeader_eq (h : InHeader s p) (b : Byte) :
    (storeHeader b s).headerIndex = p.length + 1 ∧
      (storeHeader b s).headerBuffer.toList.take (p.length + 1) = p ++ [b] := by
  unfold storeHeader
  constructor
  · rw [h.headerIndex]
  · rw [h.headerIndex, take_setIfInBounds _ h.short, h.headerBuffer]

theorem InHeader.receive (h : InHeader s p) (b : Byte) :
    receive b s = checkHeader (storeHeader b s) := by
  unfold StreamToPacketSegmenter.receive
  have hshort := h.short
  rw [← h.headerIndex] at hshort
  rw [if_pos hshort]

/-- A length byte that is accepted. -/
theorem toNat_lt_of_and (b : Byte) (h : b &&& 0x80 = 0) : b.toNat < 128 := by
  revert b
  decide

/-- The byte continues the header. -/
theorem InHeader.next {b : Byte} (h : InHeader s p) (hb : IsHeader (p ++ [b]))
    (hlen : p.length < 2) :
    InHeader (processByte sink b s).2 (p ++ [b]) ∧
      (processByte sink b s).2.output = s.output := by
  obtain ⟨hindex, hbuf⟩ := storeHeader_eq h b
  have hrec : StreamToPacketSegmenter.receive b s = storeHeader b s := by
    rw [h.receive b, (checkHeader_eq h.isHeader h.short hindex hbuf).1 hb, if_pos hlen]
  unfold processByte
  rw [hrec, deliver_of_ne sink (Or.inl (by omega))]
  refine ⟨⟨hb, ?_, ?_, ?_, h.packetIndex⟩, rfl⟩
  · rw [List.length_append, List.length_singleton]
    omega
  · rw [hindex, List.length_append, List.length_singleton]
  · rw [List.length_append, List.length_singleton, hbuf]

/-- The byte completes the header. -/
theorem InHeader.open {b0 b1 b : Byte} (h : InHeader s [b0, b1]) (hb : IsHeader [b0, b1, b]) :
    InPacket (processByte sink b s).2 b1.toNat [] ∧
      (processByte sink b s).2.output = s.output := by
  obtain ⟨hindex, hbuf⟩ := storeHeader_eq h b
  have hrec : StreamToPacketSegmenter.receive b s =
      { storeHeader b s with packetLength := b1.toNat + 2 } := by
    rw [h.receive b, (checkHeader_eq h.isHeader h.short hindex hbuf).1 hb,
      if_neg (by simp : ¬ [b0, b1].length < 2)]
    rfl
  have hpacket : (storeHeader b s).packetIndex = 0 := h.packetIndex
  unfold processByte
  rw [hrec, deliver_of_ne sink (Or.inr ?_)]
  · refine ⟨⟨toNat_lt_of_and b1 hb.2.1, ?_, Nat.zero_le _, hindex, rfl, hpacket, rfl⟩, rfl⟩
    exact Nat.succ_pos _
  · show (storeHeader b s).packetIndex ≠ b1.toNat + 2
    omega

/-- The byte does not belong to a header: the search starts over behind it. -/
theorem InHeader.reject {b : Byte} (h : InHeader s p) (hb : ¬ IsHeader (p ++ [b])) :
    Idle (processByte sink b s).2 ∧ (processByte sink b s).2.output = s.output := by
  obtain ⟨hindex, hbuf⟩ := storeHeader_eq h b
  have hrec : StreamToPacketSegmenter.receive b s =
      { storeHeader b s with headerIndex := 0 } := by
    rw [h.receive b, (checkHeader_eq h.isHeader h.short hindex hbuf).2 hb]
  unfold processByte
  rw [hrec, deliver_of_ne sink (Or.inl (Nat.zero_ne_add_one 2))]
  exact ⟨⟨rfl, h.packetIndex⟩, rfl⟩

theorem InPacket.receive (h : InPacket s n p) (hroom : p.length < RX_BUF_SIZE) (b : Byte) :
    receive b s = storePacket b s := by
  unfold StreamToPacketSegmenter.receive
  have hindex := h.headerIndex
  have hpacket := h.packetIndex
  rw [if_neg (by omega), if_pos (by omega)]

theorem storePacket_eq (h : InPacket s n p) (hroom : p.length < RX_BUF_SIZE) (b : Byte) :
    (storePacket b s).packetIndex = p.length + 1 ∧
      (storePacket b s).packetBuffer.toList.take (p.length + 1) = p ++ [b] := by
  unfold storePacket
  constructor
  · rw [h.packetIndex]
  · rw [h.packetIndex, take_setIfInBounds _ hroom, h.packetBuffer]

/-- The byte belongs to the packet and does not complete it. -/
theorem InPacket.next (h : InPacket s n p) (hroom : p.length < RX_BUF_SIZE)
    (hlen : p.length < n + 1) (b : Byte) :
    InPacket (processByte sink b s).2 n (p ++ [b]) ∧
      (processByte sink b s).2.output = s.output := by
  obtain ⟨hindex, hbuf⟩ := storePacket_eq h hroom b
  have hlength : (storePacket b s).packetLength = n + 2 := h.packetLength
  unfold processByte
  rw [h.receive hroom, deliver_of_ne sink (Or.inr (by omega))]
  refine ⟨⟨h.small, ?_, ?_, h.headerIndex, h.packetLength, ?_, ?_⟩, rfl⟩ <;>
    rw [List.length_append, List.length_singleton]
  · omega
  · exact hroom
  · exact hindex
  · exact hbuf

/-- The byte completes the packet. -/
theorem InPacket.complete (h : InPacket s n p) (hroom : p.length < RX_BUF_SIZE)
    (hlen : p.length = n + 1) (b : Byte) :
    Idle (processByte sink b s).2 ∧
      (processByte sink b s).2.output =
        if calcCrc16 (p ++ [b]) = 0 then
          (sink.processPacket ((p ++ [b]).take n) s.output).2
        else s.output := by
  obtain ⟨hindex, hbuf⟩ := storePacket_eq h hroom b
  have hlength : (storePacket b s).packetLength = p.length + 1 := by
    rw [hlen]
    exact h.packetLength
  have hpayload : (storePacket b s).packetBuffer.toList.take (p.length + 1 - 2) =
      (p ++ [b]).take n := by
    rw [← hbuf, List.take_take, hlen]
    congr 1
    omega
  unfold processByte
  rw [h.receive hroom]
  obtain ⟨hidle, hout⟩ := deliver_complete sink (s := storePacket b s)
    h.headerIndex (by rw [hindex, hlength])
  refine ⟨hidle, ?_⟩
  rw [hout, hlength, hbuf, hpayload]
  rfl

/-- The buffer is full and the packet is not complete: the byte is dropped. -/
theorem InPacket.full (h : InPacket s n p) (hfull : p.length = RX_BUF_SIZE) (b : Byte) :
    (processByte sink b s).2 = s := by
  have hindex := h.headerIndex
  have hpacket := h.packetIndex
  have hlength := h.packetLength
  have hshort := h.short
  unfold processByte StreamToPacketSegmenter.receive
  rw [if_neg (by omega), if_neg (by omega), deliver_of_ne sink (Or.inr (by omega))]

/-! ## Runs -/

/-- The segmenter after some bytes. -/
def afterBytes (sink : PacketSink σ) (s : StreamToPacketSegmenter σ) (bytes : List Byte) :
    StreamToPacketSegmenter σ :=
  bytes.foldl (fun s b => (processByte sink b s).2) s

@[simp] theorem afterBytes_nil : afterBytes sink s [] = s := rfl

@[simp] theorem afterBytes_cons (b : Byte) (bytes : List Byte) :
    afterBytes sink s (b :: bytes) = afterBytes sink (processByte sink b s).2 bytes := rfl

@[simp] theorem afterBytes_append (as bs : List Byte) :
    afterBytes sink s (as ++ bs) = afterBytes sink (afterBytes sink s as) bs :=
  List.foldl_append

/-- A call of `process_bytes` is a run over its bytes. -/
theorem processBytes_eq_afterBytes (bytes : List Byte) (processed : Counter) :
    ((streamToPacketSegmenter sink).processBytes bytes processed s).2.2 =
      afterBytes sink s bytes := by
  show (bytes.foldl _ (0, processed, s)).2.2 = _
  generalize (0 : Result) = result
  induction bytes generalizing result processed s with
  | nil => rfl
  | cons b bytes ih => exact ih _ _

/-- However the stream is cut into chunks, the state is that of a run over its bytes. -/
theorem feed_eq_afterBytes (chunks : List (List Byte × Counter)) :
    (streamToPacketSegmenter sink).feed chunks s =
      afterBytes sink s (chunks.flatMap Prod.fst) := by
  induction chunks generalizing s with
  | nil => rfl
  | cons chunk chunks ih =>
    rw [List.flatMap_cons, afterBytes_append, ← processBytes_eq_afterBytes sink chunk.1 chunk.2]
    exact ih

/-- Between two bytes the segmenter is in a header or in a packet. -/
def Between (s : StreamToPacketSegmenter σ) : Prop :=
  (∃ p, InHeader s p) ∨ ∃ n p, InPacket s n p

theorem Between.processByte (h : Between s) (b : Byte) : Between (processByte sink b s).2 := by
  rcases h with ⟨p, h⟩ | ⟨n, p, h⟩
  · by_cases hb : IsHeader (p ++ [b])
    · match p, h with
      | [], h => exact .inl ⟨_, (h.next sink hb (by simp)).1⟩
      | [_], h => exact .inl ⟨_, (h.next sink hb (by simp)).1⟩
      | [_, _], h => exact .inr ⟨_, _, (h.open sink hb).1⟩
      | _ :: _ :: _ :: _, h => exact absurd h.short (by simp)
    · exact .inl ⟨[], (h.reject sink hb).1.inHeader⟩
  · rcases h.stored.lt_or_eq with hroom | hfull
    · by_cases hlen : p.length < n + 1
      · exact .inr ⟨n, _, (h.next sink hroom hlen b).1⟩
      · have hshort := h.short
        exact .inl ⟨[], (h.complete sink hroom (by omega) b).1.inHeader⟩
    · rw [h.full sink hfull]
      exact .inr ⟨n, p, h⟩

theorem Between.afterBytes (h : Between s) (bytes : List Byte) :
    Between (afterBytes sink s bytes) := by
  refine (Run.foldl (fun s b => (StreamToPacketSegmenter.processByte sink b s).2) s
    bytes).invariant (I := Between) h ?_
  rintro s b t hs rfl
  exact hs.processByte sink b

end StreamToPacketSegmenter

end WODrive.Fibre
