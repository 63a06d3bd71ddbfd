import WODrive.Fibre.HostStream

/-!
# The host's decoders agree

The decoder that is given the bytes is between packets where the other one begins a turn of
its loop: what the first one does with the bytes of a turn is what the turn returns
(`processBytes_of_attempt`). So both find the same packets in every stream, whatever is in
it and in whatever chunks it arrives (`decoders_agree`). In the stream that
`StreamBasedPacketSink` makes of packets that are not too long, they find the packets.
-/

namespace WODrive.Fibre.HostStream

open WODrive.Fibre.StreamToPacketSegmenter (IsHeader)

namespace StreamToPacketSegmenter

/-- Between packets. -/
def idle (output : List (List Byte)) : StreamToPacketSegmenter := ⟨[], [], 0, output⟩

variable {p q : List Byte} {b length crc : Byte} {output : List (List Byte)}

theorem processBytes_cons (s : StreamToPacketSegmenter) (b : Byte) (bytes : List Byte) :
    s.processBytes (b :: bytes) = (s.processByte b).processBytes bytes := rfl

theorem processBytes_singleton (s : StreamToPacketSegmenter) (b : Byte) :
    s.processBytes [b] = s.processByte b := rfl

theorem processBytes_append (s : StreamToPacketSegmenter) (xs ys : List Byte) :
    s.processBytes (xs ++ ys) = (s.processBytes xs).processBytes ys :=
  List.foldl_append

/-! ## A turn, byte by byte -/

/-- A byte that the header accepts is stored. -/
theorem processByte_header (hlen : p.length < 2) (hb : IsHeader (p ++ [b])) :
    processByte ⟨p, [], 0, output⟩ b = ⟨p ++ [b], [], 0, output⟩ := by
  match p, hlen, hb with
  | [], _, hb =>
    cases hb
    rfl
  | [b₀], _, hb =>
    obtain ⟨rfl, hb⟩ := hb
    have hlength : b &&& 128#8 = 0#8 := hb
    simp [processByte, receive, deliver, hlength]

/-- The last byte of a header that is accepted opens the packet. -/
theorem processByte_open (hheader : IsHeader [CANONICAL_PREFIX, length, crc]) :
    processByte ⟨[CANONICAL_PREFIX, length], [], 0, output⟩ crc =
      ⟨[CANONICAL_PREFIX, length, crc], [], length.toNat + 2, output⟩ := by
  have hcrc := calcCrc8_eq_zero.mpr hheader.2.2
  simp [processByte, receive, deliver, hcrc]

/-- A byte that the header does not accept ends it. -/
theorem processByte_refused (hp : IsHeader p) (hlen : p.length < 3)
    (hb : ¬ IsHeader (p ++ [b])) : processByte ⟨p, [], 0, output⟩ b = idle output := by
  match p, hp, hlen, hb with
  | [], _, _, hb =>
    have hsync : b ≠ SYNC_BYTE := hb
    simp [processByte, receive, deliver, idle, hsync]
  | [b₀], hp, _, hb =>
    have hlength : b &&& 128#8 ≠ 0#8 := fun h => hb ⟨hp, h⟩
    simp [processByte, receive, deliver, idle, hlength]
  | [b₀, b₁], hp, _, hb =>
    have hcrc : calcCrc8 CRC8_INIT [b₀, b₁, b] ≠ 0 :=
      fun h => hb ⟨hp.1, hp.2, calcCrc8_eq_zero.mp h⟩
    simp [processByte, receive, deliver, idle, hcrc]

/-- A byte that does not complete the packet is stored. -/
theorem processByte_packet {header : List Byte} {n : Nat} (hheader : header.length = 3)
    (hlt : q.length + 1 < n) :
    processByte ⟨header, q, n, output⟩ b = ⟨header, q ++ [b], n, output⟩ := by
  have hne : (q ++ [b]).length ≠ n := by
    rw [List.length_append, List.length_singleton]
    omega
  rw [processByte, receive, if_neg (by rw [hheader]; decide), deliver, if_neg fun h => hne h.2]

/-- The last byte of a packet: it is handed on if its remainder is 0. -/
theorem processByte_last {header : List Byte} {n : Nat} (hheader : header.length = 3)
    (hlast : q.length + 1 = n) : processByte ⟨header, q, n, output⟩ b =
      idle (if Fibre.calcCrc16 (q ++ [b]) = 0 then output ++ [(q ++ [b]).take (n - 2)]
        else output) := by
  have hlen : (q ++ [b]).length = n := by
    rw [List.length_append, List.length_singleton, hlast]
  rw [processByte, receive, if_neg (by rw [hheader]; decide), deliver, if_pos ⟨hheader, hlen⟩,
    idle]
  simp only [hlen, calcCrc16_eq_zero]

/-! ## A whole turn -/

theorem processBytes_header (hp : IsHeader p) (hlen : p.length < 3) :
    (idle output).processBytes p = ⟨p, [], 0, output⟩ := by
  match p, hp, hlen with
  | [], _, _ => rfl
  | [b₀], hp, _ => exact processByte_header (p := []) (by decide) hp
  | [b₀, b₁], hp, _ =>
    rw [processBytes_cons, processBytes_singleton, idle,
      processByte_header (p := []) (by decide) hp.1]
    exact processByte_header (p := [b₀]) (Nat.lt_succ_self 1) hp

theorem processBytes_open (hheader : IsHeader [CANONICAL_PREFIX, length, crc]) :
    (idle output).processBytes [CANONICAL_PREFIX, length, crc] =
      ⟨[CANONICAL_PREFIX, length, crc], [], length.toNat + 2, output⟩ := by
  have htwo : IsHeader [CANONICAL_PREFIX, length] := ⟨hheader.1, hheader.2.1⟩
  rw [show [CANONICAL_PREFIX, length, crc] = [CANONICAL_PREFIX, length] ++ [crc] from rfl,
    processBytes_append, processBytes_header htwo (Nat.lt_succ_self 2)]
  exact processByte_open hheader

theorem processBytes_packet {header : List Byte} {n : Nat} (hheader : header.length = 3)
    (bytes : List Byte) (hlt : q.length + bytes.length < n) :
    (StreamToPacketSegmenter.mk header q n output).processBytes bytes =
      ⟨header, q ++ bytes, n, output⟩ := by
  induction bytes generalizing q with
  | nil => rw [List.append_nil]; rfl
  | cons b bytes ih =>
    rw [List.length_cons] at hlt
    rw [processBytes_cons, processByte_packet hheader (by omega), ih (by simp; omega),
      List.append_assoc]
    rfl

theorem processBytes_whole {header : List Byte} {n : Nat} (hheader : header.length = 3)
    (hn : 0 < n) (hq : q.length = n) :
    (StreamToPacketSegmenter.mk header [] n output).processBytes q =
      idle (output ++ (if Fibre.calcCrc16 q = 0 then some (q.take (n - 2)) else none).toList) := by
  rcases List.eq_nil_or_concat' q with rfl | ⟨front, b, rfl⟩
  · exact absurd hq (by simp; omega)
  have hfront : front.length + 1 = n := by
    rw [← hq, List.length_append, List.length_singleton]
  rw [processBytes_append, processBytes_packet hheader front (by simp; omega), List.nil_append]
  rw [processBytes_singleton, processByte_last hheader hfront]
  split
  · rfl
  · rw [Option.toList_none, List.append_nil]

/-- **A turn of the loop of `get_packet`, given byte by byte.** -/
theorem processBytes_of_attempt {stream rest : List Byte} {packet : Option (List Byte)}
    (h : attempt stream = some (packet, rest)) :
    (idle output).processBytes stream = (idle (output ++ packet.toList)).processBytes rest := by
  have hend := attempt_end stream
  rw [h] at hend
  cases hend with
  | refused p b _ hp hlen hb =>
    rw [processBytes_append, processBytes_append, processBytes_header hp hlen, Option.toList_none,
      List.append_nil, processBytes_singleton, processByte_refused hp hlen hb]
  | whole length crc q _ hheader hq =>
    rw [processBytes_append, processBytes_append, processBytes_open hheader, hq]
    congr 1
    exact processBytes_whole rfl (Nat.succ_pos _) hq

/-- A turn that runs out of bytes: the bytes that are left complete no packet. -/
theorem processBytes_of_timeout {stream : List Byte} (h : attempt stream = none) :
    ((idle output).processBytes stream).output = output := by
  have hend := attempt_end stream
  rw [h] at hend
  cases hend with
  | cutHeader _ hp hlen => rw [processBytes_header hp hlen]
  | cutPacket length crc q hheader hq =>
    rw [processBytes_append, processBytes_open hheader,
      processBytes_packet rfl q (by simpa using hq)]

end StreamToPacketSegmenter

open WODrive.Fibre.HostStream.StreamToPacketSegmenter (idle init)

/-! ## Whole streams -/

theorem getPackets_of_none {stream : List Byte} (h : getPacket stream = none) :
    getPackets stream = [] := by
  rw [getPackets]
  split
  · rfl
  · next heq => cases h.symm.trans heq

theorem getPackets_of_some {stream packet rest : List Byte}
    (h : getPacket stream = some (packet, rest)) :
    getPackets stream = packet :: getPackets rest := by
  rw [getPackets]
  split
  · next heq => cases h.symm.trans heq
  · next heq =>
    cases h.symm.trans heq
    rfl

/-- Repeated calls of `get_packet`, a turn of the loop at a time. -/
theorem getPackets_of_timeout {stream : List Byte} (h : attempt stream = none) :
    getPackets stream = [] := by
  refine getPackets_of_none ?_
  rw [getPacket]
  split <;> simp_all

theorem getPackets_of_attempt {stream rest : List Byte} {packet : Option (List Byte)}
    (h : attempt stream = some (packet, rest)) :
    getPackets stream = packet.toList ++ getPackets rest := by
  cases packet with
  | some packet =>
    refine getPackets_of_some ?_
    rw [getPacket]
    split <;> simp_all
  | none =>
    have hretry : getPacket stream = getPacket rest := by
      rw [getPacket]
      split <;> simp_all
    rw [Option.toList_none, List.nil_append]
    cases hrest : getPacket rest with
    | none => rw [getPackets_of_none (hretry.trans hrest), getPackets_of_none hrest]
    | some next => rw [getPackets_of_some (hretry.trans hrest), getPackets_of_some hrest]

/-- The two decoders find the same packets in a stream. -/
theorem processBytes_eq_getPackets (stream : List Byte) (output : List (List Byte)) :
    ((idle output).processBytes stream).output = output ++ getPackets stream := by
  generalize hn : stream.length = n
  induction n using Nat.strong_induction_on generalizing stream output with
  | _ n ih =>
  subst hn
  cases hattempt : attempt stream with
  | none =>
    rw [StreamToPacketSegmenter.processBytes_of_timeout hattempt, getPackets_of_timeout hattempt,
      List.append_nil]
  | some turn =>
    obtain ⟨packet, rest⟩ := turn
    rw [StreamToPacketSegmenter.processBytes_of_attempt hattempt,
      ih _ (attempt_lt hattempt) rest _ rfl, getPackets_of_attempt hattempt, List.append_assoc]

/-- A stream that arrives in chunks. -/
theorem foldl_processBytes (chunks : List (List Byte)) (s : StreamToPacketSegmenter) :
    chunks.foldl StreamToPacketSegmenter.processBytes s = s.processBytes chunks.flatten :=
  List.foldl_flatten.symm

/-! ## The encoder -/

/-- `process_packet` of packets one after the other: what is passed to the output. -/
def processPackets : List (List Byte) → Except String (List (List Byte))
  | [] => return []
  | packet :: packets => do
    let sent ← processPacket packet
    let rest ← processPackets packets
    return sent ++ rest

theorem packBE_eq (crc16 : BitVec 16) : packBE crc16.toNat = Crc.bigEndian 2 crc16 := by
  rw [bigEndian_two, packBE, ← BitVec.toNat_ushiftRight, BitVec.ofNat_toNat, BitVec.ofNat_toNat]

/-- What the host emits for a packet is what the device emits for it. -/
theorem processPacket_eq {packet : List Byte} (h : packet.length < MAX_PACKET_SIZE) :
    processPacket packet =
      .ok [frameHeader packet, packet, Crc.bigEndian 2 (Fibre.calcCrc16 packet)] := by
  rw [processPacket, if_neg (Nat.not_le.mpr h)]
  simp only [calcCrc8_eq, calcCrc16_eq, packBE_eq, BitVec.ofNat_toNat, BitVec.setWidth_eq]
  rfl

/-- The frame of a packet is a whole turn. -/
theorem attempt_frame {packet : List Byte} (h : packet.length < MAX_PACKET_SIZE)
    (rest : List Byte) : attempt (frame packet ++ rest) = some (some packet, rest) := by
  have hheader := isHeader_frameHeader h
  rw [frameHeader_eq] at hheader
  have htrailer := Crc.length_bigEndian (Fibre.calcCrc16 packet) 2
  have hwhole := attempt_whole (q := packet ++ Crc.bigEndian 2 (Fibre.calcCrc16 packet)) rest
    hheader (by rw [List.length_append, htrailer, toNat_length h])
  have hcrc : Fibre.calcCrc16 (packet ++ Crc.bigEndian 2 (Fibre.calcCrc16 packet)) = 0 :=
    Crc.crc_append_bigEndian CANONICAL_CRC16_POLYNOMIAL CANONICAL_CRC16_INIT (by decide) 2
      (Nat.le_refl 16) packet
  rw [if_pos hcrc, List.length_append, htrailer, Nat.add_sub_cancel, List.take_left] at hwhole
  rw [frame, frameHeader_eq, List.append_assoc]
  exact hwhole

theorem getPackets_frames {packets : List (List Byte)}
    (h : ∀ packet ∈ packets, packet.length < MAX_PACKET_SIZE) :
    getPackets (packets.map frame).flatten = packets := by
  induction packets with
  | nil => exact getPackets_of_timeout rfl
  | cons packet packets ih =>
    rw [List.map_cons, List.flatten_cons,
      getPackets_of_attempt (attempt_frame (h packet List.mem_cons_self) _),
      ih fun p hp => h p (List.mem_cons_of_mem _ hp)]
    rfl

theorem processPackets_eq {packets : List (List Byte)}
    (h : ∀ packet ∈ packets, packet.length < MAX_PACKET_SIZE) :
    ∃ sent, processPackets packets = .ok sent ∧ sent.flatten = (packets.map frame).flatten := by
  induction packets with
  | nil => exact ⟨[], rfl, rfl⟩
  | cons packet packets ih =>
    obtain ⟨rest, hrest, hframes⟩ := ih fun p hp => h p (List.mem_cons_of_mem _ hp)
    refine ⟨[frameHeader packet, packet, Crc.bigEndian 2 (Fibre.calcCrc16 packet)] ++ rest, ?_, ?_⟩
    · rw [processPackets, processPacket_eq (h packet List.mem_cons_self), hrest]
      rfl
    · rw [List.flatten_append, hframes, List.map_cons, List.flatten_cons, frame]
      simp

/-- **The host's decoders agree, and invert its encoder.** In every stream, in whatever
chunks it is given to the segmenter, both find the same packets; and what the encoder sends
for packets that are shorter than 128 bytes are these packets to both. -/
theorem decoders_agree :
    (∀ chunks : List (List Byte),
      (chunks.foldl StreamToPacketSegmenter.processBytes init).output =
        getPackets chunks.flatten) ∧
    ∀ packets : List (List Byte), (∀ packet ∈ packets, packet.length < 128) →
      ∃ sent, processPackets packets = .ok sent ∧ getPackets sent.flatten = packets ∧
        ∀ chunks : List (List Byte), chunks.flatten = sent.flatten →
          (chunks.foldl StreamToPacketSegmenter.processBytes init).output = packets := by
  have hagree : ∀ chunks : List (List Byte),
      (chunks.foldl StreamToPacketSegmenter.processBytes init).output =
        getPackets chunks.flatten := by
    intro chunks
    rw [foldl_processBytes]
    exact processBytes_eq_getPackets chunks.flatten []
  refine ⟨hagree, fun packets h => ?_⟩
  obtain ⟨sent, hsent, hframes⟩ := processPackets_eq h
  refine ⟨sent, hsent, ?_, fun chunks hchunks => ?_⟩
  · rw [hframes]
    exact getPackets_frames h
  · rw [hagree, hchunks, hframes]
    exact getPackets_frames h

end WODrive.Fibre.HostStream
