import WODrive.Fibre.Framing
import WODrive.Library.CrcBits

/-!
# What the segmenter delivers was sent

Whatever the bytes are, the packets that the segmenter hands on are there in the
stream, one behind the other, each as `StreamBasedPacketSink` encodes it (`segmenter_sound`).
The checks of the segmenter are for a remainder of zero, and the encoder's remainders
are the only bytes that pass them (`header_append_eq_frame`).

`Follows` is the invariant: the bytes so far are the encoded packets delivered so far,
with other bytes between them, and at their end those that the segmenter has stored.
-/

namespace WODrive.Fibre

open StreamToPacketSegmenter

universe u

variable {σ : Type u}

/-- A stream that takes everything. -/
def collect : StreamSink (List Byte) where
  processBytes buffer processedBytes s :=
    (0, processedBytes.map (· + BitVec.ofNat 32 buffer.length), s ++ buffer)

/-- What `StreamBasedPacketSink::process_packet` returns for a packet, and sends. -/
def encoding (packet : List Byte) : Result × List Byte :=
  (streamBasedPacketSink collect).processPacket packet []

theorem encoding_eq {packet : List Byte} (h : packet.length < 128) :
    encoding packet = (0, frame packet) := by
  unfold encoding
  rw [processPacket_of_lt collect h]
  simp [StreamSink.send, collect, frame]

/-- The bytes of packets that are encoded one behind the other, each with a gap before. -/
def spaced (parts : List (List Byte × List Byte)) : List Byte :=
  parts.flatMap fun part => part.1 ++ (encoding part.2).2

/-- A header and a packet that pass the checks are a frame. -/
theorem header_append_eq_frame {header q : List Byte} {n : Nat} {length crc : Byte}
    (hheader : header = [CANONICAL_PREFIX, length, crc]) (hcrc8 : calcCrc8 header = 0)
    (hlength : length.toNat = n) (hq : q.length = n + 2) (hcrc16 : calcCrc16 q = 0) :
    header ++ q = frame (q.take n) := by
  have hlen : (q.take n).length = n := by
    rw [List.length_take]
    omega
  have hn : BitVec.ofNat 8 (q.take n).length = length := by
    rw [hlen, ← hlength, BitVec.ofNat_toNat, BitVec.setWidth_eq]
  have htrailer : q.drop n = Crc.bigEndian 2 (calcCrc16 (q.take n)) := by
    rw [← List.take_append_drop n q] at hcrc16
    exact (Crc.crc_append_eq_zero_iff _ (by decide) rfl (by decide) _
      (by rw [List.length_drop]; omega)).mp hcrc16
  have hheaderCrc : [crc] = Crc.bigEndian 1 (calcCrc8 [CANONICAL_PREFIX, length]) := by
    rw [hheader] at hcrc8
    exact (Crc.crc_append_eq_zero_iff (n := 1) _
      (show CANONICAL_CRC8_POLYNOMIAL.getLsbD 0 = true by decide) rfl Nat.one_pos
      [CANONICAL_PREFIX, length] rfl).mp hcrc8
  rw [bigEndian_one] at hheaderCrc
  rw [frame, frameHeader_eq, hn, ← htrailer, List.take_append_drop, hheader,
    List.cons_eq_cons.mp hheaderCrc |>.1]

/-! ## The invariant -/

/-- The segmenter has stored the last bytes of the stream; or its buffer is full, and
it never delivers anything again. -/
inductive Stored (s : StreamToPacketSegmenter σ) (pending : List Byte) : Prop where
  | header (h : InHeader s pending)
  | packet (length crc : Byte) (p : List Byte)
      (hheader : IsHeader [CANONICAL_PREFIX, length, crc])
      (hpending : pending = [CANONICAL_PREFIX, length, crc] ++ p)
      (h : InPacket s length.toNat p)
  | full (n : Nat) (p : List Byte) (h : InPacket s n p) (hfull : p.length = RX_BUF_SIZE)

/-- The bytes since the segmenter was idle, and the packets delivered meanwhile. -/
def Follows (before : List (List Byte)) (bytes : List Byte)
    (s : StreamToPacketSegmenter (σ × List (List Byte))) : Prop :=
  ∃ parts gap pending, bytes = spaced parts ++ gap ++ pending ∧
    (∀ part ∈ parts, (encoding part.2).1 = 0) ∧
    s.output.2 = before ++ parts.map Prod.snd ∧ Stored s pending

variable (sink : PacketSink σ) {s : StreamToPacketSegmenter (σ × List (List Byte))}

theorem follows_idle (h : Idle s) : Follows s.output.2 [] s :=
  ⟨[], [], [], rfl, by simp, by simp, .header h.inHeader⟩

theorem spaced_snoc (parts : List (List Byte × List Byte)) (gap : List Byte)
    {packet : List Byte} (h : packet.length < 128) :
    spaced (parts ++ [(gap, packet)]) = spaced parts ++ gap ++ frame packet := by
  simp [spaced, encoding_eq h]

/-- A byte that completes nothing, or completes something that fails its check. -/
theorem Follows.keep {before : List (List Byte)} {bytes gap pending : List Byte} {b : Byte}
    {t : StreamToPacketSegmenter (σ × List (List Byte))}
    {parts : List (List Byte × List Byte)} (gap' pending' : List Byte)
    (hbytes : bytes = spaced parts ++ gap ++ pending)
    (hok : ∀ part ∈ parts, (encoding part.2).1 = 0)
    (hout : s.output.2 = before ++ parts.map Prod.snd) (hsame : t.output = s.output)
    (hstored : Stored t pending') (hrest : gap ++ pending ++ [b] = gap' ++ pending') :
    Follows before (bytes ++ [b]) t := by
  refine ⟨parts, gap', pending', ?_, hok, by rw [hsame, hout], hstored⟩
  rw [hbytes, List.append_assoc, List.append_assoc, ← List.append_assoc gap, hrest,
    List.append_assoc]

/-- A byte that completes a packet which passes its check. -/
theorem Follows.deliver {before : List (List Byte)} {bytes gap pending p : List Byte}
    {b length crc : Byte} {t : StreamToPacketSegmenter (σ × List (List Byte))}
    {parts : List (List Byte × List Byte)}
    (hbytes : bytes = spaced parts ++ gap ++ pending)
    (hok : ∀ part ∈ parts, (encoding part.2).1 = 0)
    (hout : s.output.2 = before ++ parts.map Prod.snd)
    (hheader : IsHeader [CANONICAL_PREFIX, length, crc])
    (hpending : pending = [CANONICAL_PREFIX, length, crc] ++ p)
    (hp : p.length = length.toNat + 1) (hsmall : length.toNat < 128)
    (hcrc : calcCrc16 (p ++ [b]) = 0)
    (hdeliver : t.output.2 = s.output.2 ++ [(p ++ [b]).take length.toNat]) (hidle : Idle t) :
    Follows before (bytes ++ [b]) t := by
  have hlength : ((p ++ [b]).take length.toNat).length < 128 := by
    rw [List.length_take]
    omega
  have hframe : [CANONICAL_PREFIX, length, crc] ++ (p ++ [b]) =
      frame ((p ++ [b]).take length.toNat) :=
    header_append_eq_frame rfl hheader.2.2 rfl (by simp; omega) hcrc
  refine ⟨parts ++ [(gap, (p ++ [b]).take length.toNat)], [], [], ?_, ?_, ?_,
    .header hidle.inHeader⟩
  · rw [spaced_snoc _ _ hlength, ← hframe, hbytes, hpending]
    simp
  · intro part hpart
    rcases List.mem_append.mp hpart with hpart | hpart
    · exact hok part hpart
    · rw [List.mem_singleton.mp hpart, encoding_eq hlength]
  · rw [hdeliver, hout, List.map_append, List.append_assoc]
    rfl

theorem Follows.processByte {before : List (List Byte)} {bytes : List Byte}
    (h : Follows before bytes s) (b : Byte) :
    Follows before (bytes ++ [b])
      (StreamToPacketSegmenter.processByte sink.recorded b s).2 := by
  obtain ⟨parts, gap, pending, hbytes, hok, hout, hstored⟩ := h
  cases hstored with
  | header h =>
    by_cases hb : IsHeader (pending ++ [b])
    · match pending, h with
      | [], h =>
        obtain ⟨hnext, hsame⟩ := h.next sink.recorded hb (by simp)
        exact .keep gap _ hbytes hok hout hsame (.header hnext) (by simp)
      | [b0], h =>
        obtain ⟨hnext, hsame⟩ := h.next sink.recorded hb (by simp)
        exact .keep gap _ hbytes hok hout hsame (.header hnext) (by simp)
      | [b0, b1], h =>
        obtain ⟨hopen, hsame⟩ := h.open sink.recorded hb
        obtain rfl : b0 = CANONICAL_PREFIX := hb.1
        exact .keep gap [CANONICAL_PREFIX, b1, b] hbytes hok hout hsame
          (.packet b1 b [] hb rfl hopen) (by simp)
      | _ :: _ :: _ :: _, h => exact absurd h.short (by simp)
    · obtain ⟨hidle, hsame⟩ := h.reject sink.recorded hb
      exact .keep (gap ++ pending ++ [b]) [] hbytes hok hout hsame (.header hidle.inHeader)
        (by simp)
  | packet length crc p hheader hpending h =>
    rcases h.stored.lt_or_eq with hroom | hfull
    swap
    · rw [h.full sink.recorded hfull]
      exact .keep (gap ++ pending ++ [b]) [] hbytes hok hout rfl (.full _ p h hfull) (by simp)
    have hshort := h.short
    by_cases hlen : p.length < length.toNat + 1
    · obtain ⟨hnext, hsame⟩ := h.next sink.recorded hroom hlen b
      exact .keep gap _ hbytes hok hout hsame (.packet length crc (p ++ [b]) hheader rfl hnext)
        (by simp [hpending])
    · obtain ⟨hidle, hdeliver⟩ := h.complete sink.recorded hroom (by omega) b
      by_cases hcrc : calcCrc16 (p ++ [b]) = 0
      · rw [if_pos hcrc] at hdeliver
        exact .deliver hbytes hok hout hheader hpending (by omega) (by have := h.small; omega) hcrc
          (congrArg Prod.snd hdeliver) hidle
      · rw [if_neg hcrc] at hdeliver
        exact .keep (gap ++ pending ++ [b]) [] hbytes hok hout hdeliver
          (.header hidle.inHeader) (by simp)
  | full n p h hfull =>
    rw [h.full sink.recorded hfull]
    exact .keep (gap ++ pending ++ [b]) [] hbytes hok hout rfl (.full n p h hfull) (by simp)

theorem Follows.afterBytes (h : Idle s) (bytes : List Byte) :
    Follows s.output.2 bytes (StreamToPacketSegmenter.afterBytes sink.recorded s bytes) := by
  induction bytes using List.reverseRecOn with
  | nil => exact follows_idle h
  | append_singleton bytes b ih =>
    rw [afterBytes_append]
    exact ih.processByte sink b

/-- Every packet that an idle segmenter delivers from a stream, however that is cut into
chunks, is there as a packet sink encodes it; the encodings of successive packets do not
overlap, and are in the order of the deliveries. -/
theorem segmenter_sound (h : Idle s) (chunks : List (List Byte × Counter)) :
    ∃ parts rest, chunks.flatMap Prod.fst = spaced parts ++ rest ∧
      (∀ part ∈ parts, (encoding part.2).1 = 0) ∧
      ((streamToPacketSegmenter sink.recorded).feed chunks s).output.2 =
        s.output.2 ++ parts.map Prod.snd := by
  rw [feed_eq_afterBytes]
  obtain ⟨parts, gap, pending, hbytes, hok, hout, -⟩ :=
    Follows.afterBytes sink h (chunks.flatMap Prod.fst)
  exact ⟨parts, gap ++ pending, by rw [hbytes, List.append_assoc], hok, hout⟩

/-- Some noise, and a frame in three chunks. -/
def noisyChunks : List (List Byte × Counter) :=
  [([0x00, 0x13, 0xaa], none), ([0x01, 0x85], none), ([0x42, 0xa6, 0xac], none)]

theorem segmenter_sound_noise :
    ((streamToPacketSegmenter acceptingSink.recorded).feed noisyChunks
        (initial ((), []))).output.2 = [[0x42]] ∧
      ∃ parts rest, noisyChunks.flatMap Prod.fst = spaced parts ++ rest ∧
        (∀ part ∈ parts, (encoding part.2).1 = 0) ∧
        ((streamToPacketSegmenter acceptingSink.recorded).feed noisyChunks
          (initial ((), []))).output.2 = [] ++ parts.map Prod.snd :=
  ⟨by decide +kernel, segmenter_sound acceptingSink (idle_initial _) noisyChunks⟩

end WODrive.Fibre
