import WODrive.Fibre.Framing
import WODrive.Library.LittleEndian
import Mathlib.Data.Nat.Bitwise

/-!
# Packets on a byte stream, on the host (fibre/python/fibre/protocol.py)

The host has the encoder of packets again (`StreamBasedPacketSink`), and two decoders that
are written independently: `StreamToPacketSegmenter` is given the bytes of the stream as
they arrive, and `PacketFromStreamConverter` asks for as many as it needs.

A Python `int` has no width. `calc_crc` only cuts the remainder to its width after the last
bit (`calcCrc_eq`). The elements of `bytes`, `bytearray` and of the lists here are bytes.

Where a stream has fewer bytes left than are asked for, the transport hands out what there
is and raises `TimeoutError`: nothing is left of the stream then.
-/

namespace WODrive.Fibre.HostStream

open WODrive.Fibre.StreamToPacketSegmenter (IsHeader)

def SYNC_BYTE : Byte := 0xAA
def CRC8_INIT : Nat := 0x42
def CRC16_INIT : Nat := 0x1337

def CRC8_DEFAULT : Nat := 0x37
def CRC16_DEFAULT : Nat := 0x3d65

def MAX_PACKET_SIZE : Nat := 128

/-! ## The remainder -/

/-- The loop body of `calc_crc`. -/
def calcCrcBit (polynomial topbit remainder : Nat) : Nat :=
  if remainder &&& topbit ≠ 0 then (remainder <<< 1) ^^^ polynomial else remainder <<< 1

/-- `calc_crc` -/
def calcCrc (remainder value polynomial bitwidth : Nat) : Nat :=
  let topbit := 1 <<< (bitwidth - 1)
  -- bring the next byte into the remainder
  let remainder := remainder ^^^ (value <<< (bitwidth - 8))
  let remainder := (calcCrcBit polynomial topbit)^[8] remainder
  remainder &&& ((1 <<< bitwidth) - 1)

/-- `calc_crc8` of a byte string -/
def calcCrc8 (remainder : Nat) (value : List Byte) : Nat :=
  value.foldl (fun remainder byte => calcCrc remainder byte.toNat CRC8_DEFAULT 8) remainder

/-- `calc_crc16` of a byte string -/
def calcCrc16 (remainder : Nat) (value : List Byte) : Nat :=
  value.foldl (fun remainder byte => calcCrc remainder byte.toNat CRC16_DEFAULT 16) remainder

/-! ## The encoder -/

/-- `struct.pack('>H', x)` of a number below 65536 -/
def packBE (x : Nat) : List Byte := [BitVec.ofNat 8 (x >>> 8), BitVec.ofNat 8 x]

/-- `StreamBasedPacketSink.process_packet`: what it passes to `process_bytes` of its output,
or the text of the `NotImplementedError` that it raises. -/
def processPacket (packet : List Byte) : Except String (List (List Byte)) :=
  if packet.length ≥ MAX_PACKET_SIZE then
    .error "packet larger than 127 currently not supported"
  else
    let header := [SYNC_BYTE, BitVec.ofNat 8 packet.length]
    let header := header ++ [BitVec.ofNat 8 (calcCrc8 CRC8_INIT header)]
    let crc16 := calcCrc16 CRC16_INIT packet
    .ok [header, packet, packBE crc16]

/-! ## The decoder that is given the bytes -/

/-- `StreamToPacketSegmenter`, with the packets it has handed to its output so far. -/
structure StreamToPacketSegmenter where
  header : List Byte
  packet : List Byte
  packetLength : Nat
  output : List (List Byte)
deriving DecidableEq

namespace StreamToPacketSegmenter

/-- `__init__` -/
def init : StreamToPacketSegmenter := ⟨[], [], 0, []⟩

/-- The first half of the loop body of `process_bytes`: take the byte in. -/
def receive (byte : Byte) (s : StreamToPacketSegmenter) : StreamToPacketSegmenter :=
  if s.header.length < 3 then
    let header := s.header ++ [byte]
    if header.length = 1 ∧ header.getD 0 0 ≠ SYNC_BYTE then { s with header := [] }
    else if header.length = 2 ∧ header.getD 1 0 &&& 0x80 ≠ 0 then { s with header := [] }
    else if header.length = 3 ∧ calcCrc8 CRC8_INIT header ≠ 0 then { s with header := [] }
    else if header.length = 3 then
      { s with header := header, packetLength := (header.getD 1 0).toNat + 2 }
    else { s with header := header }
  else { s with packet := s.packet ++ [byte] }

/-- The second half: if both header and packet are fully received, hand it on to the packet
processor. -/
def deliver (s : StreamToPacketSegmenter) : StreamToPacketSegmenter :=
  if s.header.length = 3 ∧ s.packet.length = s.packetLength then
    { header := []
      packet := []
      packetLength := 0
      output :=
        if calcCrc16 CRC16_INIT s.packet = 0 then
          s.output ++ [s.packet.take (s.packet.length - 2)]
        else s.output }
  else s

/-- The loop body of `process_bytes`. -/
def processByte (s : StreamToPacketSegmenter) (byte : Byte) : StreamToPacketSegmenter :=
  deliver (receive byte s)

/-- `process_bytes` -/
def processBytes (s : StreamToPacketSegmenter) (bytes : List Byte) : StreamToPacketSegmenter :=
  bytes.foldl processByte s

end StreamToPacketSegmenter

/-! ## The decoder that asks for the bytes -/

/-- Code that reads from a stream all of which is there, until it raises `TimeoutError`. -/
abbrev Reader (α : Type) := StateT (List Byte) Option α

/-- `get_bytes_or_fail` -/
def getBytesOrFail (nBytes : Nat) : Reader (List Byte) := fun stream =>
  if stream.length < nBytes then none else some (stream.take nBytes, stream.drop nBytes)

/-- One turn of the loop of `get_packet`: the packet it returns, or `continue`. -/
def attempt : Reader (Option (List Byte)) := do
  let header ← getBytesOrFail 1
  if header.getD 0 0 ≠ SYNC_BYTE then return none
  else do
    let next ← getBytesOrFail 1
    let header := header ++ next
    if header.getD 1 0 &&& 0x80 ≠ 0 then return none
    else do
      let next ← getBytesOrFail 1
      let header := header ++ next
      if calcCrc8 CRC8_INIT header ≠ 0 then return none
      else do
        let packetLength := (header.getD 1 0).toNat + 2
        let packet ← getBytesOrFail packetLength
        if calcCrc16 CRC16_INIT packet ≠ 0 then return none
        else return some (packet.take (packet.length - 2))

/-! ## What the remainder is -/

section

variable {w : Nat}

/-- The bits above the width have no influence on the others. -/
theorem ofNat_calcCrcBit (hw : 0 < w) (polynomial : BitVec w) (x : Nat) :
    BitVec.ofNat w (calcCrcBit polynomial.toNat (1 <<< (w - 1)) x) =
      Crc.shiftBit polynomial (BitVec.ofNat w x) := by
  have htop : x &&& 1 <<< (w - 1) ≠ 0 ↔ (BitVec.ofNat w x).msb = true := by
    have hlt : w - 1 < w := by omega
    rw [BitVec.msb_eq_getLsbD_last, BitVec.getLsbD_ofNat, Nat.one_shiftLeft, Nat.and_two_pow]
    cases x.testBit (w - 1) <;> simp [hlt]
  unfold calcCrcBit Crc.shiftBit
  by_cases h : (BitVec.ofNat w x).msb = true
  · rw [if_pos (htop.mpr h), if_pos h, BitVec.ofNat_xor, LittleEndian.ofNat_shiftLeft,
      BitVec.ofNat_toNat, BitVec.setWidth_eq]
  · rw [if_neg (mt htop.mp h), if_neg h, LittleEndian.ofNat_shiftLeft]

/-- `calc_crc` computes the remainder after one more byte. -/
theorem calcCrc_eq (hw : 8 ≤ w) (polynomial remainder : BitVec w) (value : Byte) :
    calcCrc remainder.toNat value.toNat polynomial.toNat w =
      (Crc.crcByte polynomial remainder value).toNat := by
  have hbits := Function.Semiconj.iterate_right (f := BitVec.ofNat w)
    (fun x => ofNat_calcCrcBit (by omega) polynomial x) 8
  have hstart : BitVec.ofNat w (remainder.toNat ^^^ value.toNat <<< (w - 8)) =
      remainder ^^^ (value.setWidth w <<< (w - 8)) := by
    rw [BitVec.ofNat_xor, LittleEndian.ofNat_shiftLeft, BitVec.ofNat_toNat, BitVec.setWidth_eq,
      BitVec.ofNat_toNat]
  rw [Crc.crcByte, ← hstart, ← hbits, BitVec.toNat_ofNat, ← Nat.and_two_pow_sub_one_eq_mod,
    ← Nat.one_shiftLeft w]
  rfl

theorem foldl_calcCrc_eq (hw : 8 ≤ w) (polynomial remainder : BitVec w) (value : List Byte) :
    value.foldl (fun r byte => calcCrc r byte.toNat polynomial.toNat w) remainder.toNat =
      (Crc.crc polynomial remainder value).toNat := by
  induction value generalizing remainder with
  | nil => rfl
  | cons byte value ih =>
    rw [List.foldl_cons, calcCrc_eq hw, ih, Crc.crc_cons]

end

/-- The host and the device compute the same CRC8. -/
theorem calcCrc8_eq (value : List Byte) :
    calcCrc8 CRC8_INIT value = (Fibre.calcCrc8 value).toNat :=
  foldl_calcCrc_eq (Nat.le_refl 8) CANONICAL_CRC8_POLYNOMIAL CANONICAL_CRC8_INIT value

/-- The host and the device compute the same CRC16. -/
theorem calcCrc16_eq (value : List Byte) :
    calcCrc16 CRC16_INIT value = (Fibre.calcCrc16 value).toNat :=
  foldl_calcCrc_eq (by decide) CANONICAL_CRC16_POLYNOMIAL CANONICAL_CRC16_INIT value

theorem calcCrc8_eq_zero {value : List Byte} :
    calcCrc8 CRC8_INIT value = 0 ↔ Fibre.calcCrc8 value = 0 := by
  rw [calcCrc8_eq]
  exact BitVec.toNat_eq (y := 0).symm

theorem calcCrc16_eq_zero {value : List Byte} :
    calcCrc16 CRC16_INIT value = 0 ↔ Fibre.calcCrc16 value = 0 := by
  rw [calcCrc16_eq]
  exact BitVec.toNat_eq (y := 0).symm

/-! ## What a turn of the loop does -/

theorem getBytesOrFail_append (bytes stream : List Byte) :
    getBytesOrFail bytes.length (bytes ++ stream) = some (bytes, stream) := by
  rw [getBytesOrFail, if_neg (by simp), List.take_left, List.drop_left]

theorem getBytesOrFail_short {n : Nat} {stream : List Byte} (h : stream.length < n) :
    getBytesOrFail n stream = none := if_pos h

/-- What follows a read for which there are enough bytes. -/
theorem getBytesOrFail_bind {α : Type} (bytes stream : List Byte) (f : List Byte → Reader α) :
    (getBytesOrFail bytes.length >>= f) (bytes ++ stream) = f bytes stream := by
  show (getBytesOrFail bytes.length (bytes ++ stream)).bind (fun r => f r.1 r.2) = _
  rw [getBytesOrFail_append]
  rfl

theorem getBytesOrFail_one {α : Type} (b : Byte) (stream : List Byte) (f : List Byte → Reader α) :
    (getBytesOrFail 1 >>= f) (b :: stream) = f [b] stream :=
  getBytesOrFail_bind [b] stream f

theorem getBytesOrFail_bind_short {α : Type} {n : Nat} {stream : List Byte}
    (h : stream.length < n) (f : List Byte → Reader α) :
    (getBytesOrFail n >>= f) stream = none := by
  show (getBytesOrFail n stream).bind (fun r => f r.1 r.2) = _
  rw [getBytesOrFail_short h]
  rfl

section

variable {b length crc : Byte} {q : List Byte} (stream : List Byte)

theorem attempt_noSync (hb : b ≠ CANONICAL_PREFIX) :
    attempt (b :: stream) = some (none, stream) := by
  unfold attempt
  rw [getBytesOrFail_one, if_pos (show [b].getD 0 0 ≠ SYNC_BYTE from hb)]
  rfl

theorem attempt_tooLarge (hlength : length &&& 0x80 ≠ 0) :
    attempt (CANONICAL_PREFIX :: length :: stream) = some (none, stream) := by
  unfold attempt
  rw [getBytesOrFail_one, if_neg (fun h => h rfl), getBytesOrFail_one,
    if_pos (show ([CANONICAL_PREFIX] ++ [length]).getD 1 0 &&& 0x80 ≠ 0 from hlength)]
  rfl

theorem attempt_crc8 (hlength : length &&& 0x80 = 0)
    (hcrc : Fibre.calcCrc8 [CANONICAL_PREFIX, length, crc] ≠ 0) :
    attempt (CANONICAL_PREFIX :: length :: crc :: stream) = some (none, stream) := by
  have hcrc' : calcCrc8 CRC8_INIT ([CANONICAL_PREFIX] ++ [length] ++ [crc]) ≠ 0 :=
    mt calcCrc8_eq_zero.mp hcrc
  unfold attempt
  rw [getBytesOrFail_one, if_neg (fun h => h rfl), getBytesOrFail_one,
    if_neg (show ¬ ([CANONICAL_PREFIX] ++ [length]).getD 1 0 &&& 0x80 ≠ 0 from not_not.mpr hlength),
    getBytesOrFail_one, if_pos hcrc']
  rfl

/-- What a turn does once the header is accepted. -/
theorem attempt_header (hheader : IsHeader [CANONICAL_PREFIX, length, crc]) :
    attempt (CANONICAL_PREFIX :: length :: crc :: stream) =
      (getBytesOrFail (length.toNat + 2) >>= fun packet =>
        if calcCrc16 CRC16_INIT packet ≠ 0 then pure none
        else pure (some (packet.take (packet.length - 2)))) stream := by
  obtain ⟨-, hlength, hcrc⟩ := hheader
  have hcrc' : ¬ calcCrc8 CRC8_INIT ([CANONICAL_PREFIX] ++ [length] ++ [crc]) ≠ 0 :=
    not_not.mpr (calcCrc8_eq_zero.mpr hcrc)
  unfold attempt
  rw [getBytesOrFail_one, if_neg (fun h => h rfl), getBytesOrFail_one,
    if_neg (show ¬ ([CANONICAL_PREFIX] ++ [length]).getD 1 0 &&& 0x80 ≠ 0 from not_not.mpr hlength),
    getBytesOrFail_one, if_neg hcrc']
  rfl

theorem attempt_whole (hheader : IsHeader [CANONICAL_PREFIX, length, crc])
    (hq : q.length = length.toNat + 2) :
    attempt ([CANONICAL_PREFIX, length, crc] ++ (q ++ stream)) =
      some (if Fibre.calcCrc16 q = 0 then some (q.take (q.length - 2)) else none, stream) := by
  refine (attempt_header (q ++ stream) hheader).trans ?_
  rw [← hq, getBytesOrFail_bind]
  by_cases hcrc : Fibre.calcCrc16 q = 0
  · rw [if_pos hcrc, if_neg (not_not.mpr (calcCrc16_eq_zero.mpr hcrc))]
    rfl
  · rw [if_neg hcrc, if_pos (mt calcCrc16_eq_zero.mp hcrc)]
    rfl

end

/-- How a turn of the loop of `get_packet` ends, by what the stream begins with: a header
that is cut short or refused, or a whole header and what follows it. -/
inductive AttemptEnd : List Byte → Option (Option (List Byte) × List Byte) → Prop where
  | cutHeader (p : List Byte) (hp : IsHeader p) (hlen : p.length < 3) : AttemptEnd p none
  | refused (p : List Byte) (b : Byte) (rest : List Byte) (hp : IsHeader p)
      (hlen : p.length < 3) (hb : ¬ IsHeader (p ++ [b])) :
      AttemptEnd (p ++ [b] ++ rest) (some (none, rest))
  | cutPacket (length crc : Byte) (q : List Byte)
      (hheader : IsHeader [CANONICAL_PREFIX, length, crc]) (hq : q.length < length.toNat + 2) :
      AttemptEnd ([CANONICAL_PREFIX, length, crc] ++ q) none
  | whole (length crc : Byte) (q rest : List Byte)
      (hheader : IsHeader [CANONICAL_PREFIX, length, crc]) (hq : q.length = length.toNat + 2) :
      AttemptEnd ([CANONICAL_PREFIX, length, crc] ++ (q ++ rest))
        (some (if Fibre.calcCrc16 q = 0 then some (q.take (q.length - 2)) else none, rest))

theorem attempt_end (stream : List Byte) : AttemptEnd stream (attempt stream) := by
  match stream with
  | [] => exact .cutHeader [] trivial (by decide)
  | b₀ :: stream =>
  by_cases h₀ : b₀ = CANONICAL_PREFIX
  swap
  · rw [attempt_noSync stream h₀]
    exact .refused [] b₀ stream trivial (by decide) h₀
  subst h₀
  match stream with
  | [] => exact .cutHeader [CANONICAL_PREFIX] rfl (by decide)
  | b₁ :: stream =>
  by_cases h₁ : b₁ &&& 0x80 = 0
  swap
  · rw [attempt_tooLarge stream h₁]
    exact .refused [CANONICAL_PREFIX] b₁ stream rfl (by decide) fun h => h₁ h.2
  match stream with
  | [] =>
    have hcut : attempt [CANONICAL_PREFIX, b₁] = none := by
      unfold attempt
      rw [getBytesOrFail_one, if_neg (fun h => h rfl), getBytesOrFail_one,
        if_neg (show ¬ ([CANONICAL_PREFIX] ++ [b₁]).getD 1 0 &&& 0x80 ≠ 0 from not_not.mpr h₁)]
      rfl
    rw [hcut]
    exact .cutHeader [CANONICAL_PREFIX, b₁] ⟨rfl, h₁⟩ (show 2 < 3 by decide)
  | b₂ :: stream =>
  by_cases h₂ : Fibre.calcCrc8 [CANONICAL_PREFIX, b₁, b₂] = 0
  swap
  · rw [attempt_crc8 stream h₁ h₂]
    exact .refused [CANONICAL_PREFIX, b₁] b₂ stream ⟨rfl, h₁⟩ (show 2 < 3 by decide)
      fun h => h₂ h.2.2
  have hheader : IsHeader [CANONICAL_PREFIX, b₁, b₂] := ⟨rfl, h₁, h₂⟩
  rcases Nat.lt_or_ge stream.length (b₁.toNat + 2) with hshort | hlong
  · rw [attempt_header stream hheader, getBytesOrFail_bind_short hshort]
    exact .cutPacket b₁ b₂ stream hheader hshort
  · have hq : (stream.take (b₁.toNat + 2)).length = b₁.toNat + 2 :=
      List.length_take_of_le hlong
    have hwhole := AttemptEnd.whole b₁ b₂ _ (stream.drop (b₁.toNat + 2)) hheader hq
    rw [← attempt_whole _ hheader hq, List.take_append_drop] at hwhole
    exact hwhole

/-- Every turn of the loop takes bytes off the stream. -/
theorem attempt_lt {stream rest : List Byte} {packet : Option (List Byte)}
    (h : attempt stream = some (packet, rest)) : rest.length < stream.length := by
  have hend := attempt_end stream
  rw [h] at hend
  cases hend with
  | refused =>
    simp only [List.length_append, List.length_singleton]
    omega
  | whole =>
    simp only [List.length_append, List.length_cons]
    omega

/-- `PacketFromStreamConverter.get_packet`: the packet and what is left of the stream, if no
`TimeoutError` is raised. -/
def getPacket (stream : List Byte) : Option (List Byte × List Byte) :=
  match _h : attempt stream with
  | none => none
  | some (some packet, rest) => some (packet, rest)
  | some (none, rest) => getPacket rest
termination_by stream.length
decreasing_by exact attempt_lt _h

theorem getPacket_lt {stream : List Byte} {packet rest : List Byte}
    (h : getPacket stream = some (packet, rest)) : rest.length < stream.length := by
  fun_induction getPacket stream with
  | case1 => cases h
  | case2 stream packet' rest' hattempt =>
    cases h
    exact attempt_lt hattempt
  | case3 stream rest' hattempt ih => exact (ih h).trans (attempt_lt hattempt)

/-- The packets that repeated calls of `get_packet` return, until one raises
`TimeoutError`. -/
def getPackets (stream : List Byte) : List (List Byte) :=
  match _h : getPacket stream with
  | none => []
  | some (packet, rest) => packet :: getPackets rest
termination_by stream.length
decreasing_by exact getPacket_lt _h

end WODrive.Fibre.HostStream
