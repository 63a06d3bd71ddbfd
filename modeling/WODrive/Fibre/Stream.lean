import WODrive.Library.Crc

/-!
# Packets on a byte stream (fibre/cpp/protocol.cpp)

`StreamBasedPacketSink` turns packets into frames on a byte stream: a header of three
bytes (prefix, length, CRC8), the payload and its CRC16. `StreamToPacketSegmenter`
finds the frames in a byte stream, one byte at a time, and hands their payloads on.

What a sink is connected to is a sink again, with a state of its own: a value of type
`σ` that its calls pass on.
-/

namespace WODrive.Fibre

universe u

abbrev Byte := BitVec 8

/-- An `int` that a function returns, 0 for success. -/
abbrev Result := BitVec 32

/-- A `size_t*` argument: where the caller wants the processed bytes counted, if
anywhere, the count so far. -/
abbrev Counter := Option (BitVec 32)

/-- `PacketSink` -/
structure PacketSink (σ : Type u) where
  processPacket : List Byte → σ → Result × σ

/-- `StreamSink` -/
structure StreamSink (σ : Type u) where
  processBytes : List Byte → Counter → σ → Result × Counter × σ

def CANONICAL_CRC8_POLYNOMIAL : BitVec 8 := 0x37
def CANONICAL_CRC8_INIT : BitVec 8 := 0x42
def CANONICAL_CRC16_POLYNOMIAL : BitVec 16 := 0x3d65
def CANONICAL_CRC16_INIT : BitVec 16 := 0x1337
def CANONICAL_PREFIX : Byte := 0xaa

def RX_BUF_SIZE : Nat := 128

/-- `calc_crc8<CANONICAL_CRC8_POLYNOMIAL>(CANONICAL_CRC8_INIT, ...)` -/
def calcCrc8 (buffer : List Byte) : BitVec 8 :=
  Crc.crc CANONICAL_CRC8_POLYNOMIAL CANONICAL_CRC8_INIT buffer

/-- `calc_crc16<CANONICAL_CRC16_POLYNOMIAL>(CANONICAL_CRC16_INIT, ...)` -/
def calcCrc16 (buffer : List Byte) : BitVec 16 :=
  Crc.crc CANONICAL_CRC16_POLYNOMIAL CANONICAL_CRC16_INIT buffer

/-! ## From packets to a stream -/

/-- `if (output_.process_bytes(buffer, length, nullptr)) return -1;`, and what follows. -/
def StreamSink.send {σ : Type u} (output : StreamSink σ) (buffer : List Byte)
    (next : σ → Result × σ) (s : σ) : Result × σ :=
  let sent := output.processBytes buffer none s
  if sent.1 ≠ 0 then (-1, sent.2.2) else next sent.2.2

/-- `StreamBasedPacketSink::process_packet` -/
def streamBasedPacketSink {σ : Type u} (output : StreamSink σ) : PacketSink σ where
  processPacket buffer s :=
    -- larger packets are not supported
    if buffer.length ≥ 128 then (-1, s)
    else
      let header := [CANONICAL_PREFIX, BitVec.ofNat 8 buffer.length]
      let header := header ++ [calcCrc8 header]
      let crc16 := calcCrc16 buffer
      let crc16Buffer := [((crc16 >>> 8) &&& 0xff).setWidth 8, (crc16 &&& 0xff).setWidth 8]
      output.send header (output.send buffer (output.send crc16Buffer fun s => (0, s))) s

/-! ## From a stream to packets -/

/-- The variables of a `StreamToPacketSegmenter`, and the state of its output. -/
structure StreamToPacketSegmenter (σ : Type u) where
  headerBuffer : Vector Byte 3
  headerIndex : Nat
  packetBuffer : Vector Byte RX_BUF_SIZE
  packetIndex : Nat
  packetLength : Nat
  output : σ

namespace StreamToPacketSegmenter

variable {σ : Type u}

/-- As the constructor leaves it. -/
def initial (output : σ) : StreamToPacketSegmenter σ where
  headerBuffer := Vector.replicate 3 0
  headerIndex := 0
  packetBuffer := Vector.replicate RX_BUF_SIZE 0
  packetIndex := 0
  packetLength := 0
  output := output

/-- `header_buffer_[i]` -/
def headerByte (s : StreamToPacketSegmenter σ) (i : Nat) : Byte :=
  s.headerBuffer.toList.getD i 0

/-- `header_buffer_[header_index_++] = *buffer` -/
def storeHeader (byte : Byte) (s : StreamToPacketSegmenter σ) : StreamToPacketSegmenter σ :=
  { s with
    headerBuffer := s.headerBuffer.setIfInBounds s.headerIndex byte
    headerIndex := s.headerIndex + 1 }

/-- The checks of the header bytes received so far. -/
def checkHeader (s : StreamToPacketSegmenter σ) : StreamToPacketSegmenter σ :=
  if s.headerIndex = 1 ∧ s.headerByte 0 ≠ CANONICAL_PREFIX then
    { s with headerIndex := 0 }
  else if s.headerIndex = 2 ∧ s.headerByte 1 &&& 0x80 ≠ 0 then
    -- packets larger than 128 bytes are not supported
    { s with headerIndex := 0 }
  else if s.headerIndex = 3 ∧ calcCrc8 s.headerBuffer.toList ≠ 0 then
    { s with headerIndex := 0 }
  else if s.headerIndex = 3 then
    { s with packetLength := (s.headerByte 1).toNat + 2 }
  else s

/-- `packet_buffer_[packet_index_++] = *buffer` -/
def storePacket (byte : Byte) (s : StreamToPacketSegmenter σ) : StreamToPacketSegmenter σ :=
  { s with
    packetBuffer := s.packetBuffer.setIfInBounds s.packetIndex byte
    packetIndex := s.packetIndex + 1 }

/-- The first half of the loop body of `process_bytes`: store the byte. -/
def receive (byte : Byte) (s : StreamToPacketSegmenter σ) : StreamToPacketSegmenter σ :=
  if s.headerIndex < 3 then checkHeader (storeHeader byte s)
  else if s.packetIndex < RX_BUF_SIZE then storePacket byte s
  else s

/-- The second half: if both header and packet are fully received, hand the packet on
to the packet processor. -/
def deliver (sink : PacketSink σ) (s : StreamToPacketSegmenter σ) :
    Result × StreamToPacketSegmenter σ :=
  if s.headerIndex = 3 ∧ s.packetIndex = s.packetLength then
    let (result, output) :=
      if calcCrc16 (s.packetBuffer.toList.take s.packetLength) = 0 then
        sink.processPacket (s.packetBuffer.toList.take (s.packetLength - 2)) s.output
      else (0, s.output)
    (result, { s with headerIndex := 0, packetIndex := 0, packetLength := 0, output := output })
  else (0, s)

/-- The loop body of `process_bytes`. -/
def processByte (sink : PacketSink σ) (byte : Byte) (s : StreamToPacketSegmenter σ) :
    Result × StreamToPacketSegmenter σ :=
  deliver sink (receive byte s)

end StreamToPacketSegmenter

/-- `StreamToPacketSegmenter::process_bytes` -/
def streamToPacketSegmenter {σ : Type u} (sink : PacketSink σ) :
    StreamSink (StreamToPacketSegmenter σ) where
  processBytes buffer processedBytes s :=
    buffer.foldl
      (fun (result, processedBytes, s) byte =>
        let (r, s) := StreamToPacketSegmenter.processByte sink byte s
        (result ||| r, processedBytes.map (· + 1), s))
      (0, processedBytes, s)

/-! ## Runs of calls -/

variable {σ : Type u}

/-- A packet sink that also keeps a list of the packets it was given. -/
def PacketSink.recorded (sink : PacketSink σ) : PacketSink (σ × List (List Byte)) where
  processPacket buffer s :=
    let (result, t) := sink.processPacket buffer s.1
    (result, t, s.2 ++ [buffer])

/-- A stream sink that also keeps the bytes it was given. -/
def StreamSink.recorded (sink : StreamSink σ) : StreamSink (σ × List Byte) where
  processBytes buffer processedBytes s :=
    let (result, processedBytes, t) := sink.processBytes buffer processedBytes s.1
    (result, processedBytes, t, s.2 ++ buffer)

/-- Give packets to a sink one after the other: the results and the state left. -/
def PacketSink.processPackets (sink : PacketSink σ) : List (List Byte) → σ → List Result × σ
  | [], s => ([], s)
  | packet :: packets, s =>
    let (result, s) := sink.processPacket packet s
    let (results, s) := sink.processPackets packets s
    (result :: results, s)

/-- Feed chunks to a stream sink one after the other, each with the caller's
counter: the state left. -/
def StreamSink.feed (sink : StreamSink σ) (chunks : List (List Byte × Counter)) (s : σ) : σ :=
  chunks.foldl (fun s chunk => (sink.processBytes chunk.1 chunk.2 s).2.2) s

end WODrive.Fibre
