import WODrive.Fibre.Wedge

/-!
# Packets through a stream

`frame` is what `StreamBasedPacketSink::process_packet` emits for a packet it accepts
(`processPacket_accepted`). A segmenter that is idle turns the frame of a packet of up
to 126 bytes into this packet and is idle again (`afterBytes_frame`). A packet of 127
bytes is accepted too, and its header wedges the segmenter (`wedged_frame`).

`framing_lossless_iff` puts the two together for a list of packets, whose frames may
arrive in any chunks.
-/

namespace WODrive.Fibre

open StreamToPacketSegmenter

universe u v

variable {σ : Type u} {τ : Type v}

/-! ## The frame of a packet -/

/-- The header of the frame of a packet. -/
def frameHeader (packet : List Byte) : List Byte :=
  let header := [CANONICAL_PREFIX, BitVec.ofNat 8 packet.length]
  header ++ [calcCrc8 header]

/-- The bytes in which a packet is sent. -/
def frame (packet : List Byte) : List Byte :=
  frameHeader packet ++ (packet ++ Crc.bigEndian 2 (calcCrc16 packet))

theorem bigEndian_two (crc16 : BitVec 16) :
    Crc.bigEndian 2 crc16 = [(crc16 >>> 8).setWidth 8, crc16.setWidth 8] := by
  have hlow : ((crc16 <<< 8) >>> 8).setWidth 8 = (crc16.setWidth 8 : BitVec 8) := by
    apply BitVec.eq_of_getLsbD_eq
    intro i hi
    simp [hi]
    omega
  show [(crc16 >>> 8).setWidth 8, ((crc16 <<< 8) >>> 8).setWidth 8] = _
  rw [hlow]

/-- The two bytes of a CRC16 are its big-endian form. -/
theorem crc16Buffer_eq (crc16 : BitVec 16) :
    [((crc16 >>> 8) &&& 0xff).setWidth 8, (crc16 &&& 0xff).setWidth 8] =
      Crc.bigEndian 2 crc16 := by
  have hmask : ∀ x : BitVec 16, (x &&& 0xff).setWidth 8 = (x.setWidth 8 : BitVec 8) := by
    intro x
    rw [BitVec.setWidth_and]
    exact BitVec.and_allOnes
  rw [bigEndian_two, hmask, hmask]

/-- A packet that is not too long is sent in three parts. -/
theorem processPacket_of_lt (output : StreamSink σ) {packet : List Byte}
    (hlen : packet.length < 128) (s : σ) :
    (streamBasedPacketSink output).processPacket packet s =
      output.send (frameHeader packet)
        (output.send packet
          (output.send (Crc.bigEndian 2 (calcCrc16 packet)) fun s => (0, s))) s := by
  rw [← crc16Buffer_eq]
  exact if_neg (Nat.not_le.mpr hlen)

theorem processPacket_of_le (output : StreamSink σ) {packet : List Byte}
    (hlen : 128 ≤ packet.length) (s : σ) :
    (streamBasedPacketSink output).processPacket packet s = (-1, s) :=
  if_pos hlen

/-- A recorded send whose sequel succeeds has sent its bytes. -/
theorem send_recorded (output : StreamSink σ) (buffer : List Byte)
    (next : σ × List Byte → Result × (σ × List Byte)) (s : σ × List Byte)
    (h : (output.recorded.send buffer next s).1 = 0) :
    ∃ t, t.2 = s.2 ++ buffer ∧ output.recorded.send buffer next s = next t := by
  have hlog : (output.recorded.processBytes buffer none s).2.2.2 = s.2 ++ buffer := rfl
  unfold StreamSink.send at h ⊢
  by_cases herror : (output.recorded.processBytes buffer none s).1 = 0
  · exact ⟨_, hlog, if_neg (not_not_intro herror)⟩
  · rw [if_pos herror] at h
    cases h

/-- A packet that is accepted was sent whole. -/
theorem processPacket_accepted (output : StreamSink σ) (packet : List Byte)
    (s : σ × List Byte)
    (h : ((streamBasedPacketSink output.recorded).processPacket packet s).1 = 0) :
    packet.length < 128 ∧
      ((streamBasedPacketSink output.recorded).processPacket packet s).2.2 =
        s.2 ++ frame packet := by
  rcases Nat.lt_or_ge packet.length 128 with hlen | hlen
  swap
  · rw [processPacket_of_le _ hlen] at h
    cases h
  rw [processPacket_of_lt _ hlen] at h ⊢
  refine ⟨hlen, ?_⟩
  -- header, payload and trailer in turn
  obtain ⟨t₁, hlog₁, hnext₁⟩ := send_recorded output _ _ _ h
  rw [hnext₁] at h ⊢
  obtain ⟨t₂, hlog₂, hnext₂⟩ := send_recorded output _ _ _ h
  rw [hnext₂] at h ⊢
  obtain ⟨t₃, hlog₃, hnext₃⟩ := send_recorded output _ _ _ h
  rw [hnext₃]
  show t₃.2 = _
  rw [hlog₃, hlog₂, hlog₁, List.append_assoc, List.append_assoc]
  rfl

theorem frameHeader_eq (packet : List Byte) :
    frameHeader packet = [CANONICAL_PREFIX, BitVec.ofNat 8 packet.length,
      calcCrc8 [CANONICAL_PREFIX, BitVec.ofNat 8 packet.length]] := rfl

theorem toNat_length {packet : List Byte} (h : packet.length < 128) :
    (BitVec.ofNat 8 packet.length).toNat = packet.length := by
  rw [BitVec.toNat_ofNat]
  omega

/-- A length below 128 has the top bit clear. -/
theorem and_eq_zero_of_lt (b : Byte) (h : b.toNat < 128) : b &&& 0x80 = 0 := by
  revert b
  decide

theorem bigEndian_one (crc : BitVec 8) : Crc.bigEndian 1 crc = [crc] := by
  show [(crc >>> (8 - 8)).setWidth 8] = [crc]
  rw [Nat.sub_self, BitVec.ushiftRight_zero, BitVec.setWidth_eq]

/-- The header of a packet that is accepted is accepted. -/
theorem isHeader_frameHeader {packet : List Byte} (h : packet.length < 128) :
    IsHeader (frameHeader packet) := by
  rw [frameHeader_eq]
  refine ⟨rfl, and_eq_zero_of_lt _ (by rwa [toNat_length h]), ?_⟩
  have hcrc := Crc.crc_append_bigEndian CANONICAL_CRC8_POLYNOMIAL CANONICAL_CRC8_INIT
    (Nat.le_refl 8) 1 (Nat.le_refl 8) [CANONICAL_PREFIX, BitVec.ofNat 8 packet.length]
  rw [bigEndian_one] at hcrc
  exact hcrc

/-! ## The segmenter on a frame -/

variable (sink : PacketSink τ) {s : StreamToPacketSegmenter τ} {n : Nat} {p : List Byte}

/-- The header of a packet that is accepted opens the packet. -/
theorem inPacket_frameHeader (h : Idle s) {packet : List Byte} (hlen : packet.length < 128) :
    InPacket (afterBytes sink s (frameHeader packet)) packet.length [] ∧
      (afterBytes sink s (frameHeader packet)).output = s.output := by
  have hheader := isHeader_frameHeader hlen
  rw [frameHeader_eq] at hheader ⊢
  obtain ⟨h1, hout1⟩ := h.inHeader.next sink (b := CANONICAL_PREFIX) rfl (by simp)
  obtain ⟨h2, hout2⟩ := h1.next sink (b := BitVec.ofNat 8 packet.length)
    ⟨rfl, hheader.2.1⟩ (by simp)
  obtain ⟨h3, hout3⟩ := h2.open sink hheader
  rw [toNat_length hlen] at h3
  simp only [afterBytes_cons, afterBytes_nil]
  exact ⟨h3, hout3.trans (hout2.trans hout1)⟩

/-- Bytes of a packet that do not complete it. -/
theorem InPacket.nexts (h : InPacket s n p) (bytes : List Byte)
    (hroom : p.length + bytes.length ≤ RX_BUF_SIZE) (hlen : p.length + bytes.length < n + 2) :
    InPacket (afterBytes sink s bytes) n (p ++ bytes) ∧
      (afterBytes sink s bytes).output = s.output := by
  induction bytes generalizing s p with
  | nil =>
    rw [List.append_nil]
    exact ⟨h, rfl⟩
  | cons b bytes ih =>
    rw [List.length_cons] at hroom hlen
    obtain ⟨h', hout⟩ := h.next sink (by omega) (by omega) b
    obtain ⟨hrest, hout'⟩ := ih h'
      (by rw [List.length_append, List.length_singleton]; omega)
      (by rw [List.length_append, List.length_singleton]; omega)
    rw [List.append_assoc] at hrest
    exact ⟨hrest, hout'.trans hout⟩

/-- A whole packet with its trailer, if the buffer has room for it. -/
theorem InPacket.whole (h : InPacket s n []) (hn : n < 127) {bytes : List Byte}
    (hlen : bytes.length = n + 2) :
    Idle (afterBytes sink s bytes) ∧
      (afterBytes sink s bytes).output =
        if calcCrc16 bytes = 0 then (sink.processPacket (bytes.take n) s.output).2
        else s.output := by
  obtain ⟨front, last, rfl⟩ : ∃ front last, bytes = front ++ [last] :=
    ⟨_, _, (List.dropLast_concat_getLast (List.ne_nil_of_length_eq_add_one hlen)).symm⟩
  rw [List.length_append, List.length_singleton] at hlen
  have hroom : front.length < RX_BUF_SIZE := by
    unfold RX_BUF_SIZE
    omega
  obtain ⟨hfront, hout⟩ := InPacket.nexts sink h front
    (by rw [List.length_nil]; omega) (by rw [List.length_nil]; omega)
  rw [List.nil_append] at hfront
  obtain ⟨hidle, hdone⟩ := hfront.complete sink hroom (by omega) last
  rw [afterBytes_append, hout] at *
  exact ⟨hidle, hdone⟩

/-- **One packet.** The frame of a packet of up to 126 bytes makes an idle segmenter
hand on exactly this packet. -/
theorem afterBytes_frame (h : Idle s) {packet : List Byte} (hlen : packet.length < 127) :
    Idle (afterBytes sink s (frame packet)) ∧
      (afterBytes sink s (frame packet)).output =
        (sink.processPacket packet s.output).2 := by
  obtain ⟨hopen, hout⟩ := inPacket_frameHeader sink h (by omega : packet.length < 128)
  have hbytes : (packet ++ Crc.bigEndian 2 (calcCrc16 packet)).length = packet.length + 2 := by
    rw [List.length_append, Crc.length_bigEndian]
  have hwhole := InPacket.whole sink hopen hlen hbytes
  have hcrc : calcCrc16 (packet ++ Crc.bigEndian 2 (calcCrc16 packet)) = 0 :=
    Crc.crc_append_bigEndian CANONICAL_CRC16_POLYNOMIAL CANONICAL_CRC16_INIT (by decide) 2
      (Nat.le_refl 16) packet
  rw [if_pos hcrc, List.take_left' rfl, hout] at hwhole
  unfold frame
  rw [afterBytes_append]
  exact hwhole

/-- The frame of a packet of 127 bytes wedges it. -/
theorem wedged_frame (h : Idle s) {packet : List Byte} (hlen : packet.length = 127) :
    Wedged (afterBytes sink s (frame packet)) := by
  obtain ⟨hopen, -⟩ := inPacket_frameHeader sink h (by omega : packet.length < 128)
  rw [hlen] at hopen
  unfold frame
  rw [afterBytes_append]
  exact Wedged.afterBytes sink ⟨[], hopen⟩ _

/-! ## Lists of packets -/

theorem processPackets_cons (sink : PacketSink σ) (packet : List Byte)
    (packets : List (List Byte)) (s : σ) :
    sink.processPackets (packet :: packets) s =
      ((sink.processPacket packet s).1 ::
          (sink.processPackets packets (sink.processPacket packet s).2).1,
        (sink.processPackets packets (sink.processPacket packet s).2).2) := rfl

/-- Packets that are all accepted leave their frames on the stream. -/
theorem processPackets_accepted (output : StreamSink σ) (packets : List (List Byte))
    (s : σ × List Byte)
    (h : ∀ r ∈ ((streamBasedPacketSink output.recorded).processPackets packets s).1, r = 0) :
    (∀ packet ∈ packets, packet.length < 128) ∧
      ((streamBasedPacketSink output.recorded).processPackets packets s).2.2 =
        s.2 ++ packets.flatMap frame := by
  induction packets generalizing s with
  | nil => simp [PacketSink.processPackets]
  | cons packet packets ih =>
    rw [processPackets_cons] at h ⊢
    obtain ⟨hfirst, hrest⟩ := List.forall_mem_cons.mp h
    obtain ⟨hlen, hsent⟩ := processPacket_accepted output packet s hfirst
    obtain ⟨hlens, hsents⟩ := ih _ hrest
    refine ⟨List.forall_mem_cons.mpr ⟨hlen, hlens⟩, hsents.trans ?_⟩
    rw [hsent, List.flatMap_cons, List.append_assoc]

/-- A segmenter hands on the packets whose frames it gets, if they are not too long. -/
theorem afterBytes_frames {s : StreamToPacketSegmenter (τ × List (List Byte))} (h : Idle s)
    {packets : List (List Byte)} (hlen : ∀ packet ∈ packets, packet.length < 127) :
    Idle (afterBytes sink.recorded s (packets.flatMap frame)) ∧
      (afterBytes sink.recorded s (packets.flatMap frame)).output.2 =
        s.output.2 ++ packets := by
  induction packets generalizing s with
  | nil =>
    rw [List.append_nil]
    exact ⟨h, rfl⟩
  | cons packet packets ih =>
    obtain ⟨hfirst, hrest⟩ := List.forall_mem_cons.mp hlen
    obtain ⟨hidle, hout⟩ := afterBytes_frame sink.recorded h hfirst
    obtain ⟨hidle', hout'⟩ := ih hidle hrest
    rw [List.flatMap_cons, afterBytes_append]
    refine ⟨hidle', hout'.trans ?_⟩
    rw [hout]
    show s.output.2 ++ [packet] ++ packets = _
    rw [List.append_assoc]
    rfl

/-- One packet of 127 bytes among them and it does not become idle again. -/
theorem not_idle_frames (h : Idle s) {packets : List (List Byte)}
    (hlen : ∀ packet ∈ packets, packet.length < 128)
    (hmax : ∃ packet ∈ packets, packet.length = 127) :
    ¬ Idle (afterBytes sink s (packets.flatMap frame)) := by
  induction packets generalizing s with
  | nil => simp at hmax
  | cons packet packets ih =>
    obtain ⟨hfirst, hrest⟩ := List.forall_mem_cons.mp hlen
    rw [List.flatMap_cons, afterBytes_append]
    by_cases hpacket : packet.length = 127
    · exact Wedged.not_idle ((wedged_frame sink h hpacket).afterBytes sink _)
    · refine ih (afterBytes_frame sink h (by omega)).1 hrest ?_
      obtain ⟨big, hmem, hbig⟩ := hmax
      rcases List.mem_cons.mp hmem with rfl | hmem
      · exact absurd hbig hpacket
      · exact ⟨big, hmem, hbig⟩

/-- **Lossless framing, exactly.** Packets that are all accepted are sent as bytes,
which arrive in any chunks at an idle segmenter: it hands on exactly these packets and
is idle again if and only if none of them has more than 126 bytes. -/
theorem framing_lossless_iff (output : StreamSink σ) (a : σ) (sink : PacketSink τ)
    (s : StreamToPacketSegmenter (τ × List (List Byte))) (hidle : Idle s)
    (packets : List (List Byte))
    (haccepted : ∀ r ∈
      ((streamBasedPacketSink output.recorded).processPackets packets (a, [])).1, r = 0)
    (chunks : List (List Byte × Counter))
    (hchunks : chunks.flatMap Prod.fst =
      ((streamBasedPacketSink output.recorded).processPackets packets (a, [])).2.2) :
    (((streamToPacketSegmenter sink.recorded).feed chunks s).output.2 = s.output.2 ++ packets ∧
      Idle ((streamToPacketSegmenter sink.recorded).feed chunks s)) ↔
    ∀ packet ∈ packets, packet.length ≤ 126 := by
  obtain ⟨hlens, hsent⟩ := processPackets_accepted output packets (a, []) haccepted
  rw [feed_eq_afterBytes, hchunks, hsent, List.nil_append]
  constructor
  · rintro ⟨-, hdone⟩ packet hmem
    by_contra hlong
    have hlen := hlens packet hmem
    exact not_idle_frames _ hidle hlens ⟨packet, hmem, by omega⟩ hdone
  · intro hshort
    obtain ⟨hdone, hout⟩ := afterBytes_frames sink hidle
      fun packet hmem => Nat.lt_succ_of_le (hshort packet hmem)
    exact ⟨hout, hdone⟩

/-- A stream sink that accepts everything. -/
def acceptingStream : StreamSink Unit := ⟨fun _ _ _ => (0, none, ())⟩

theorem acceptingStream_accepts (packets : List (List Byte)) (s : Unit × List Byte)
    (h : ∀ packet ∈ packets, packet.length < 128) :
    ∀ r ∈ ((streamBasedPacketSink acceptingStream.recorded).processPackets packets s).1,
      r = 0 := by
  induction packets generalizing s with
  | nil => simp [PacketSink.processPackets]
  | cons packet packets ih =>
    obtain ⟨hlen, hlens⟩ := List.forall_mem_cons.mp h
    rw [processPackets_cons]
    refine List.forall_mem_cons.mpr ⟨?_, ih _ hlens⟩
    rw [processPacket_of_lt _ hlen]
    rfl

/-- The frames of three packets, of which the second one is empty, in chunks that do not end where
the frames do. -/
def threeFrames : List (List Byte × Counter) :=
  [([0xaa, 0x01], none), ([], none), ([0x85, 0x42, 0xa6, 0xac, 0xaa, 0x00, 0xb2, 0x13], none),
    ([0x37, 0xaa, 0x02, 0xdc, 0x01, 0x02, 0xba, 0xb6], none)]

theorem framing_lossless_iff_three :
    ((streamToPacketSegmenter acceptingSink.recorded).feed threeFrames
        (initial ((), []))).output.2 = [] ++ [[0x42], [], [0x01, 0x02]] ∧
      Idle ((streamToPacketSegmenter acceptingSink.recorded).feed threeFrames
        (initial ((), []))) :=
  (framing_lossless_iff acceptingStream () acceptingSink (initial ((), [])) (idle_initial _)
    [[0x42], [], [0x01, 0x02]] (acceptingStream_accepts _ _ (by simp)) threeFrames
    (by decide +kernel)).mpr (by simp)

/-- A packet of 127 bytes is accepted, and its frame does not come out as the packet. -/
theorem framing_not_lossless :
    ¬ ((∀ r ∈ ((streamBasedPacketSink acceptingStream.recorded).processPackets
          [List.replicate 127 0] ((), [])).1, r = 0) →
      ((streamToPacketSegmenter acceptingSink.recorded).feed
          [(((streamBasedPacketSink acceptingStream.recorded).processPackets
            [List.replicate 127 0] ((), [])).2.2, none)] (initial ((), []))).output.2 =
          [List.replicate 127 0] ∧
        Idle ((streamToPacketSegmenter acceptingSink.recorded).feed
          [(((streamBasedPacketSink acceptingStream.recorded).processPackets
            [List.replicate 127 0] ((), [])).2.2, none)] (initial ((), [])))) := by
  intro hlossless
  have haccepted := acceptingStream_accepts [List.replicate 127 0] ((), []) (by simp)
  obtain ⟨hlens, hsent⟩ := processPackets_accepted acceptingStream _ _ haccepted
  have hidle := (hlossless haccepted).2
  rw [feed_eq_afterBytes, hsent, List.nil_append, List.flatMap_singleton] at hidle
  exact not_idle_frames _ (idle_initial _) hlens ⟨_, List.mem_singleton_self _, by simp⟩ hidle

end WODrive.Fibre
