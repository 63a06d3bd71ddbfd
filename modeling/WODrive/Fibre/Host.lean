import WODrive.Fibre.Channel

/-!
# The host's end of a channel (fibre/python/fibre/protocol.py)

`Channel.remote_endpoint_operation` sends a request and waits until the receiver thread
has found the response to it: the request's sequence number is registered in
`_expected_acks`, and `process_packet`, on the receiver thread, puts the response into
`_responses` and sets the event that is registered for its number.

A Python dictionary is a function to `Option`. Sequence numbers never leave the range of
16 bits.
-/

namespace WODrive.Fibre.Host

abbrev SeqNo := BitVec 16

/-- `_send_attempts` -/
def sendAttempts : Nat := 5

/-- `Channel`, with events of type `ε` and responses of type `ρ`. -/
structure Channel (ε ρ : Type) where
  outboundSeqNo : SeqNo
  expectedAcks : SeqNo → Option ε
  responses : SeqNo → Option ρ

namespace Channel

variable {ε ρ : Type} (c : Channel ε ρ)

/-- A new channel. -/
def init : Channel ε ρ := ⟨0, fun _ => none, fun _ => none⟩

/-- What is done under `_my_lock` to get a number. -/
def nextSeqNo : Channel ε ρ := { c with outboundSeqNo := (c.outboundSeqNo + 1) &&& 0x7fff }

/-- The number that the operation uses then: one bit is hardwired to 1 to avoid conflicts
with the ASCII protocol. -/
def seqNo : SeqNo := c.outboundSeqNo ||| 0x80

/-- `self._expected_acks[seq_no] = ack_event` -/
def expectAck (seqNo : SeqNo) (event : ε) : Channel ε ρ :=
  { c with expectedAcks := Function.update c.expectedAcks seqNo (some event) }

/-- `self._expected_acks.pop(seq_no)` -/
def popAck (seqNo : SeqNo) : Channel ε ρ :=
  { c with expectedAcks := Function.update c.expectedAcks seqNo none }

/-- `self._responses[seq_no] = ...` -/
def storeResponse (seqNo : SeqNo) (response : ρ) : Channel ε ρ :=
  { c with responses := Function.update c.responses seqNo (some response) }

/-- `self._responses.pop(seq_no, None)` -/
def popResponse (seqNo : SeqNo) : Channel ε ρ :=
  { c with responses := Function.update c.responses seqNo none }

end Channel

/-- `Channel.process_packet`: the event it sets, if any. A packet that is too short makes
the receiver thread end with an exception. -/
def processPacket {ε : Type} (packet : List Byte) (c : Channel ε (List Byte)) :
    Option (Option ε × Channel ε (List Byte)) :=
  match packet with
  | lo :: hi :: payload =>
    let seqNo : SeqNo := hi ++ lo
    if seqNo &&& 0x8000 ≠ 0 then
      let seqNo := seqNo &&& 0x7fff
      match c.expectedAcks seqNo with
      | some ackSignal => some (some ackSignal, c.storeResponse seqNo payload)
      | none => some (none, c)
    else some (none, c)
  | _ => none

/-! ## Sequence numbers -/

/-- A number without the bit that marks responses. -/
def IsRequest (seqNo : SeqNo) : Prop := seqNo &&& 0x8000 = 0

theorem isRequest_seqNo {ε ρ : Type} (c : Channel ε ρ) : IsRequest c.nextSeqNo.seqNo := by
  show (((c.outboundSeqNo + 1) &&& 0x7fff) ||| 0x80) &&& 0x8000 = 0
  rw [BitVec.and_or_distrib_right, BitVec.and_assoc]
  simp

/-- The number of a response is marked, and leads back to the number of the request. -/
theorem response_seqNo {n : SeqNo} (h : IsRequest n) :
    (n ||| 0x8000) &&& 0x8000 ≠ 0 ∧ (n ||| 0x8000) &&& 0x7fff = n := by
  constructor
  · rw [BitVec.and_or_distrib_right]
    intro h0
    have hbit := congrArg (fun x : SeqNo => x.getLsbD 15) h0
    simp at hbit
  · rw [BitVec.and_or_distrib_right]
    calc n &&& 0x7fff ||| 0x8000 &&& 0x7fff = n &&& 0x7fff ||| n &&& 0x8000 := by
          rw [show n &&& 0x8000 = 0 from h]
          rfl
      _ = n &&& (0x7fff ||| 0x8000) := by rw [← BitVec.and_or_distrib_left]
      _ = n := BitVec.and_allOnes

/-! ## Operations, one at a time -/

/-- The other end, and the way to it and back: what comes back for a packet, in order. -/
abbrev Transport (δ : Type) := List Byte → δ → List (List Byte) × δ

/-- The two ends of a channel. There is one operation at a time, so the event is its own. -/
structure Session (δ : Type) where
  host : Channel Unit (List Byte)
  remote : δ

/-- The exceptions of an operation. -/
inductive Error where
  | packetTooLong
  | channelBroken
  | keyError
  | structError

/-- `struct.pack('<H', ...)` -/
def packH (x : BitVec 16) : List Byte := [x.setWidth 8, (x >>> 8).setWidth 8]

/-- `struct.pack('<I', ...)` -/
def packI (x : BitVec 32) : List Byte :=
  [x.setWidth 8, (x >>> 8).setWidth 8, (x >>> 16).setWidth 8, (x >>> 24).setWidth 8]

/-- The receiver thread processes the packets that have arrived: whether the event of the
operation is set then. -/
def receive : List (List Byte) → Bool → Channel Unit (List Byte) →
    Option (Bool × Channel Unit (List Byte))
  | [], acked, c => some (acked, c)
  | packet :: packets, acked, c =>
    match processPacket packet c with
    | none => none
    | some (event, c) => receive packets (acked || event.isSome) c

variable {δ : Type}

/-- The attempts to send a request and get its response. -/
def attempts (transport : Transport δ) (packet : List Byte) (seqNo : SeqNo) :
    Nat → Session δ → Except Error (List Byte) × Session δ
  | 0, s => (.error .channelBroken, s)
  | n + 1, s =>
    let (packets, remote) := transport packet s.remote
    match receive packets false s.host with
    | none => (.error .channelBroken, { s with remote := remote })
    | some (true, host) =>
      match host.responses seqNo with
      | some response => (.ok response, ⟨host.popResponse seqNo, remote⟩)
      | none => (.error .keyError, ⟨host, remote⟩)
    | some (false, host) => attempts transport packet seqNo n ⟨host, remote⟩

/-- `Channel.remote_endpoint_operation` -/
def remoteEndpointOperation (transport : Transport δ) (interfaceDefinitionCrc : BitVec 16)
    (endpointId : BitVec 16) (input : List Byte) (expectAck : Bool) (outputLength : BitVec 16)
    (s : Session δ) : Except Error (Option (List Byte)) × Session δ :=
  if input.length ≥ 128 then (.error .packetTooLong, s)
  else
    let endpointId := if expectAck then endpointId ||| 0x8000 else endpointId
    let host := s.host.nextSeqNo
    let seqNo := host.seqNo
    let trailer := if endpointId &&& 0x7fff = 0 then PROTOCOL_VERSION else interfaceDefinitionCrc
    let packet := packH seqNo ++ packH endpointId ++ packH outputLength ++ input ++ packH trailer
    if expectAck then
      let (result, s) :=
        attempts transport packet seqNo sendAttempts ⟨host.expectAck seqNo (), s.remote⟩
      (result.map some, ⟨(s.host.popAck seqNo).popResponse seqNo, s.remote⟩)
    else
      -- fire and forget
      let (packets, remote) := transport packet s.remote
      match receive packets false host with
      | none => (.ok none, ⟨host, remote⟩)
      | some (_, host) => (.ok none, ⟨host, remote⟩)

/-- The loop of `Channel.remote_endpoint_read_buffer`. -/
def readBuffer (transport : Transport δ) (interfaceDefinitionCrc : BitVec 16)
    (endpointId : BitVec 16) : (fuel : Nat) → (buffer : List Byte) → Session δ →
      Option (Except Error (List Byte) × Session δ)
  | 0, _, _ => none
  | fuel + 1, buffer, s =>
    if buffer.length ≥ 2 ^ 32 then some (.error .structError, s)
    else
      let chunkLength := 512
      match remoteEndpointOperation transport interfaceDefinitionCrc endpointId
        (packI (BitVec.ofNat 32 buffer.length)) true chunkLength s with
      | (.error e, s) => some (.error e, s)
      | (.ok chunk, s) =>
        let chunk := chunk.getD []
        if chunk.length = 0 then some (.ok buffer, s)
        else readBuffer transport interfaceDefinitionCrc endpointId fuel (buffer ++ chunk) s

/-- `Channel.remote_endpoint_read_buffer` -/
def remoteEndpointReadBuffer (transport : Transport δ) (interfaceDefinitionCrc : BitVec 16)
    (endpointId : BitVec 16) (fuel : Nat) (s : Session δ) :
    Option (Except Error (List Byte) × Session δ) :=
  readBuffer transport interfaceDefinitionCrc endpointId fuel [] s

/-! ## A request that is answered -/

/-- Taking apart what `packH` has put together. -/
theorem packH_bytes (x : BitVec 16) :
    (x >>> 8).setWidth 8 ++ x.setWidth 8 = x := by
  apply BitVec.eq_of_getLsbD_eq
  intro i hi
  rw [BitVec.getLsbD_append]
  by_cases h8 : i < 8
  · simp [h8]
  · have hsum : 8 + (i - 8) = i := by omega
    have hlt : i - 8 < 8 := by omega
    simp [h8, hsum, hlt]

/-- The response to the request that is registered with this number. -/
theorem processPacket_response {ε : Type} {c : Channel ε (List Byte)} {seqNo : SeqNo} {event : ε}
    (hn : IsRequest seqNo) (he : c.expectedAcks seqNo = some event) (payload : List Byte) :
    processPacket (packH (seqNo ||| 0x8000) ++ payload) c =
      some (some event, c.storeResponse seqNo payload) := by
  obtain ⟨hmark, hnumber⟩ := response_seqNo hn
  have hbytes := packH_bytes (seqNo ||| 0x8000)
  simp only [packH, List.cons_append, processPacket, hbytes, hnumber, he, if_pos hmark]
  rfl

/-- An operation whose request is answered by one packet with its number returns the
payload of the packet. -/
theorem remoteEndpointOperation_eq {transport : Transport δ} {crc endpointId : BitVec 16}
    {input response : List Byte} {outputLength : BitVec 16} {s : Session δ} {remote : δ}
    (hinput : input.length < 128)
    (hanswer : transport (packH s.host.nextSeqNo.seqNo ++ packH (endpointId ||| 0x8000) ++
        packH outputLength ++ input ++ packH (if (endpointId ||| 0x8000) &&& 0x7fff = 0 then
          PROTOCOL_VERSION else crc)) s.remote =
      ([packH (s.host.nextSeqNo.seqNo ||| 0x8000) ++ response], remote)) :
    ∃ host, remoteEndpointOperation transport crc endpointId input true outputLength s =
      (.ok (some response), ⟨host, remote⟩) := by
  have hn := isRequest_seqNo s.host
  have hreceive : receive [packH (s.host.nextSeqNo.seqNo ||| 0x8000) ++ response] false
      (s.host.nextSeqNo.expectAck s.host.nextSeqNo.seqNo ()) =
        some (true, (s.host.nextSeqNo.expectAck s.host.nextSeqNo.seqNo ()).storeResponse
          s.host.nextSeqNo.seqNo response) := by
    rw [receive, processPacket_response hn (Function.update_self _ _ _)]
    rfl
  have hfound : ((s.host.nextSeqNo.expectAck s.host.nextSeqNo.seqNo ()).storeResponse
      s.host.nextSeqNo.seqNo response).responses s.host.nextSeqNo.seqNo = some response :=
    Function.update_self _ _ _
  rw [remoteEndpointOperation, if_neg (Nat.not_le.mpr hinput)]
  simp only [if_true, sendAttempts, attempts, hanswer, hreceive, hfound]
  exact ⟨_, rfl⟩

end WODrive.Fibre.Host
