import WODrive.Fibre.Host

/-!
# Transferring the JSON descriptor

Endpoint 0 of the device serves the JSON description of its endpoints
(`fibre::endpoint0_handler`, fibre/cpp/protocol.cpp), and
`Channel.remote_endpoint_read_buffer` (fibre/python/fibre/protocol.py) reads it, a chunk at
a time. The host asks for 512 bytes, the device clamps this to its transmit buffer, and
the host goes on behind what it has got (`device_chunk`). As every chunk but the last one
has at least one byte and the chunks are consecutive, the loop ends with the whole
descriptor: `remoteEndpointReadBuffer_descriptor`.
-/

namespace WODrive.Fibre

open BidirectionalPacketBasedChannel Host

/-! ## The device -/

/-- `read_le<uint32_t>(input_buffer)` -/
def readLe32 (mem : Addr → Byte) (input : BufPtr) : Option (BitVec 32) :=
  if input.length < 4 then none
  else some (mem (input.begin + 3) ++ mem (input.begin + 2) ++ mem (input.begin + 1) ++
    mem input.begin)

/-- `fibre::endpoint0_handler`: what it puts into the output buffer, which has this much
room. -/
def endpoint0Handler (embeddedJson : List Byte) (jsonVersionId : BitVec 32)
    (mem : Addr → Byte) (input : BufPtr) (room : Nat) : { l : List Byte // l.length ≤ room } :=
  match readLe32 mem input with
  | none => ⟨[], Nat.zero_le _⟩
  | some offset =>
    if offset = 0xffffffff then
      -- the JSON version ID instead
      ⟨(packI jsonVersionId).take room, List.length_take_le _ _⟩
    else if offset.toNat ≥ embeddedJson.length then ⟨[], Nat.zero_le _⟩
    else ⟨(embeddedJson.drop offset.toNat).take room, List.length_take_le _ _⟩

variable {τ : Type}

/-- `fibre::endpoint_handler`, with the handlers of the other endpoints. -/
def endpointHandler (embeddedJson : List Byte) (jsonVersionId : BitVec 32)
    (others : EndpointHandler τ) : EndpointHandler τ := fun endpointId mem input room s =>
  if endpointId = 0 then (endpoint0Handler embeddedJson jsonVersionId mem input room, s)
  else others endpointId mem input room s

theorem endpointHandler_zero (embeddedJson : List Byte) (jsonVersionId : BitVec 32)
    (others : EndpointHandler τ) (mem : Addr → Byte) (input : BufPtr) (room : Nat) (s : τ) :
    endpointHandler embeddedJson jsonVersionId others 0 mem input room s =
      (endpoint0Handler embeddedJson jsonVersionId mem input room, s) := if_pos rfl

/-- A packet in the memory at an address. -/
def loaded (mem : Addr → Byte) (buffer : Addr) (packet : List Byte) : Addr → Byte :=
  fun a => packet.getD (a - buffer).toNat (mem a)

/-- A sink that passes its packets on. -/
def collectPackets : PacketSink (List (List Byte)) where
  processPacket packet sent := (0, sent ++ [packet])

/-- The device at the end of a channel that loses nothing and keeps the order: the packets
it sends while it processes a packet. -/
def device (jsonCrc : BitVec 16) (handler : EndpointHandler τ) (mem : Addr → Byte)
    (buffer : Addr) : Transport (ChannelState (List (List Byte)) τ) := fun packet s =>
  let (_, s) := processPacket jsonCrc handler collectPackets (loaded mem buffer packet) buffer
    (BitVec.ofNat 32 packet.length) { s with output := [] }
  (s.output, s)

/-! ## The transmit buffer -/

theorem store_cons {n : Nat} (buf : Vector Byte n) (i : Nat) (b : Byte) (bytes : List Byte) :
    store buf i (b :: bytes) = store (buf.setIfInBounds i b) (i + 1) bytes := rfl

theorem getElem?_store {n : Nat} (bytes : List Byte) (buf : Vector Byte n) (i j : Nat) :
    (store buf i bytes).toList[j]? =
      if i ≤ j ∧ j < i + bytes.length ∧ j < n then bytes[j - i]? else buf.toList[j]? := by
  induction bytes generalizing buf i with
  | nil =>
    rw [if_neg (by rw [List.length_nil]; omega)]
    rfl
  | cons b bytes ih =>
    rw [store_cons, ih, List.length_cons, Vector.toList_setIfInBounds, List.getElem?_set,
      Vector.length_toList]
    rcases Nat.lt_trichotomy i j with hlt | rfl | hgt
    · obtain ⟨k, rfl⟩ := Nat.exists_eq_add_of_lt hlt
      rw [show i + k + 1 - (i + 1) = k by omega, show i + k + 1 - i = k + 1 by omega,
        List.getElem?_cons_succ, if_neg (by omega : ¬ i = i + k + 1)]
      refine if_congr ?_ rfl rfl
      omega
    · rw [if_neg (by omega), if_pos rfl, Nat.sub_self, List.getElem?_cons_zero]
      by_cases hn : i < n
      · rw [if_pos hn, if_pos (by omega)]
      · rw [if_neg hn, if_neg (by omega), List.getElem?_eq_none (by simp; omega)]
    · rw [if_neg (by omega), if_neg (by omega), if_neg (by omega)]

/-- The packet that is sent: the number and the handler's bytes. -/
theorem take_store (buf : Vector Byte TX_BUF_SIZE) (a b : Byte) (bytes : List Byte)
    (hle : bytes.length ≤ TX_BUF_SIZE - 2) :
    (store (store buf 2 bytes) 0 [a, b]).toList.take (bytes.length + 2) = a :: b :: bytes := by
  have hsize : TX_BUF_SIZE = 32 := rfl
  rw [hsize] at hle
  apply List.ext_getElem?
  intro j
  rw [List.getElem?_take]
  by_cases hj : j < bytes.length + 2
  · rw [if_pos hj, getElem?_store, getElem?_store]
    match j with
    | 0 => rfl
    | 1 => rfl
    | j + 2 =>
      rw [if_neg (by simp), if_pos (by omega)]
      simp
  · rw [if_neg hj, List.getElem?_eq_none (by simp; omega)]

/-- The response to a request: the number, and what the handler put into the buffer. -/
theorem respond_output (handler : EndpointHandler τ) (mem : Addr → Byte)
    (seqNo endpointId expectedResponseLength : BitVec 16) (input : BufPtr)
    (s : ChannelState (List (List Byte)) τ) :
    (respond handler collectPackets mem seqNo endpointId true expectedResponseLength input
      s).2.output =
      s.output ++ [packH (seqNo ||| 0x8000) ++ (handler endpointId mem input
        (min expectedResponseLength.toNat (TX_BUF_SIZE - 2)) s.endpoints).1.1] := by
  have hle := (handler endpointId mem input
    (min expectedResponseLength.toNat (TX_BUF_SIZE - 2)) s.endpoints).1.2
  unfold respond
  simp only [if_true, collectPackets]
  rw [take_store _ _ _ _ (Nat.le_trans hle (Nat.min_le_right _ _))]
  rfl

/-! ## One chunk -/

theorem loaded_at {mem : Addr → Byte} {buffer : Addr} {packet : List Byte} {a : Addr} {k : Nat}
    {b : Byte} (ha : (a - buffer).toNat = k) (hb : packet[k]? = some b) :
    loaded mem buffer packet a = b := by
  rw [loaded, ha, List.getD_eq_getElem?_getD, hb]
  rfl

/-- Taking apart what `packI` has put together. -/
theorem packI_bytes (x : BitVec 32) :
    (x >>> 24).setWidth 8 ++ (x >>> 16).setWidth 8 ++ (x >>> 8).setWidth 8 ++ x.setWidth 8 = x := by
  apply BitVec.eq_of_getLsbD_eq
  intro i hi
  rw [BitVec.getLsbD_append, BitVec.getLsbD_append, BitVec.getLsbD_append]
  by_cases h8 : i < 8
  · simp [h8]
  by_cases h16 : i < 16
  · have h1 : i - 8 < 8 := by omega
    have hsum : 8 + (i - 8) = i := by omega
    simp [h8, h1, hsum]
  by_cases h24 : i < 24
  · have h1 : ¬ i - 8 < 8 := by omega
    have h2 : i - 8 - 8 < 8 := by omega
    have hsum : 16 + (i - 8 - 8) = i := by omega
    simp [h8, h1, h2, hsum]
  · have h1 : ¬ i - 8 < 8 := by omega
    have h2 : ¬ i - 8 - 8 < 8 := by omega
    have h3 : i - 8 - 8 - 8 < 8 := by omega
    have hsum : 24 + (i - 8 - 8 - 8) = i := by omega
    simp [h8, h1, h2, h3, hsum]

/-- A request for a chunk of the descriptor. -/
def chunkRequest (n : SeqNo) (offset : BitVec 32) : List Byte :=
  packH n ++ packH 0x8000 ++ packH 512 ++ packI offset ++ packH PROTOCOL_VERSION

section Chunk

variable (mem : Addr → Byte) (buffer : Addr) (n : SeqNo) (offset : BitVec 32)

theorem word_seqNo : word (loaded mem buffer (chunkRequest n offset)) buffer = n := by
  obtain ⟨⟨h0, h1, -⟩, -⟩ := requestOffsets buffer (show 4 ≤ (12 : BitVec 32).toNat by decide)
  rw [word, loaded_at h0 rfl, loaded_at h1 rfl]
  exact packH_bytes n

theorem word_endpointId :
    word (loaded mem buffer (chunkRequest n offset)) (buffer + 2) = 0x8000 := by
  obtain ⟨⟨-, -, h2, h3, -⟩, -⟩ := requestOffsets buffer (show 4 ≤ (12 : BitVec 32).toNat by decide)
  rw [word, loaded_at h2 rfl, loaded_at h3 rfl]
  exact packH_bytes 0x8000

theorem word_responseLength :
    word (loaded mem buffer (chunkRequest n offset)) (buffer + 4) = 512 := by
  obtain ⟨⟨-, -, -, -, h4, h5⟩, -⟩ :=
    requestOffsets buffer (show 4 ≤ (12 : BitVec 32).toNat by decide)
  have hfour : buffer + 4 = buffer + 2 + 2 := by ring
  rw [hfour, word, loaded_at h4 rfl, loaded_at h5 rfl]
  exact packH_bytes 512

theorem trailer_chunkRequest : actualTrailer (loaded mem buffer (chunkRequest n offset))
    buffer 12 = PROTOCOL_VERSION := by
  obtain ⟨-, hlo, hhi⟩ := requestOffsets buffer (show 4 ≤ (12 : BitVec 32).toNat by decide)
  rw [← actualTrailer_eq, actualTrailer, loaded_at hlo rfl, loaded_at hhi rfl]
  decide

theorem readLe32_offset : readLe32 (loaded mem buffer (chunkRequest n offset))
    ⟨buffer + 2 + 2 + 2, 12 - 2 - 2 - 2 - 2⟩ = some offset := by
  have h : ∀ k : BitVec 32, buffer + 2 + 2 + 2 + k - buffer = 6 + k := fun k => by ring
  have h0 : buffer + 2 + 2 + 2 - buffer = 6 := by ring
  have hlen : ¬ (12 - 2 - 2 - 2 - 2 : BitVec 32) < 4 := by decide
  rw [readLe32, if_neg hlen]
  show some (loaded _ _ _ (buffer + 2 + 2 + 2 + 3) ++ loaded _ _ _ (buffer + 2 + 2 + 2 + 2) ++
    loaded _ _ _ (buffer + 2 + 2 + 2 + 1) ++ loaded _ _ _ (buffer + 2 + 2 + 2)) = _
  rw [loaded_at (congrArg BitVec.toNat (h 3)) rfl, loaded_at (congrArg BitVec.toNat (h 2)) rfl,
    loaded_at (congrArg BitVec.toNat (h 1)) rfl, loaded_at (congrArg BitVec.toNat h0) rfl]
  exact congrArg some (packI_bytes offset)

/-- What endpoint 0 puts into the output buffer for a chunk. -/
theorem endpoint0Handler_chunk (embeddedJson : List Byte) (jsonVersionId : BitVec 32)
    (hoffset : offset ≠ 0xffffffff) (room : Nat) :
    (endpoint0Handler embeddedJson jsonVersionId (loaded mem buffer (chunkRequest n offset))
      ⟨buffer + 2 + 2 + 2, 12 - 2 - 2 - 2 - 2⟩ room).1 =
        (embeddedJson.drop offset.toNat).take room := by
  rw [endpoint0Handler, readLe32_offset]
  simp only [if_neg hoffset]
  by_cases hend : offset.toNat ≥ embeddedJson.length
  · rw [if_pos hend, List.drop_eq_nil_of_le hend, List.take_nil]
  · rw [if_neg hend]

/-- The device finds the request in the packet. -/
theorem processPacket_chunk (jsonCrc : BitVec 16) (handler : EndpointHandler τ)
    (hn : IsRequest n) (s : ChannelState (List (List Byte)) τ) : ∃ s₀, s₀.output = s.output ∧
      processPacket jsonCrc handler collectPackets (loaded mem buffer (chunkRequest n offset))
          buffer 12 s =
        respond handler collectPackets (loaded mem buffer (chunkRequest n offset)) n 0 true 512
          ⟨buffer + 2 + 2 + 2, 12 - 2 - 2 - 2 - 2⟩ s₀ := by
  have hid : (0x8000 : BitVec 16) &&& 0x7fff = 0 := by decide
  have hexpect : ((0x8000 : BitVec 16) &&& 0x8000 != 0) = true := by decide
  have hrequest : (requestAt (loaded mem buffer (chunkRequest n offset)) buffer 12).seqNo &&&
      0x8000 = 0 := by
    show word _ buffer &&& 0x8000 = 0
    rw [word_seqNo]
    exact hn
  obtain ⟨s₀, -, houtput, hprocess⟩ := processPacket_request jsonCrc handler collectPackets
    (loaded mem buffer (chunkRequest n offset)) buffer s
    (show 4 ≤ (12 : BitVec 32).toNat by decide) hrequest
  simp only [requestAt, Request.expectedTrailer, word_seqNo, word_endpointId, word_responseLength,
    trailer_chunkRequest, hid, hexpect] at hprocess
  exact ⟨s₀, houtput, hprocess.trans (if_pos rfl)⟩

/-- **One chunk.** The device answers the request with the next bytes of the descriptor, at
most 30 of them. -/
theorem device_chunk (jsonCrc : BitVec 16) (embeddedJson : List Byte) (jsonVersionId : BitVec 32)
    (others : EndpointHandler τ) (hn : IsRequest n) (hoffset : offset ≠ 0xffffffff)
    (s : ChannelState (List (List Byte)) τ) : ∃ s',
      device jsonCrc (endpointHandler embeddedJson jsonVersionId others) mem buffer
        (chunkRequest n offset) s =
          ([packH (n ||| 0x8000) ++ (embeddedJson.drop offset.toNat).take 30], s') := by
  have hlen : (chunkRequest n offset).length = 12 := rfl
  have hroom : min (512 : BitVec 16).toNat (TX_BUF_SIZE - 2) = 30 := by decide
  obtain ⟨s₀, hempty, hprocess⟩ := processPacket_chunk mem buffer n offset jsonCrc
    (endpointHandler embeddedJson jsonVersionId others) hn { s with output := [] }
  have houtput := respond_output (endpointHandler embeddedJson jsonVersionId others)
    (loaded mem buffer (chunkRequest n offset)) n 0 512
    ⟨buffer + 2 + 2 + 2, 12 - 2 - 2 - 2 - 2⟩ s₀
  rw [hempty, hroom, endpointHandler_zero, endpoint0Handler_chunk mem buffer n offset embeddedJson
    jsonVersionId hoffset 30, List.nil_append] at houtput
  rw [device, hlen, show BitVec.ofNat 32 12 = 12 from rfl, hprocess]
  exact ⟨_, Prod.ext houtput rfl⟩

end Chunk

/-! ## The whole descriptor -/

section Descriptor

variable (jsonCrc : BitVec 16) (embeddedJson : List Byte) (jsonVersionId : BitVec 32)
  (others : EndpointHandler τ) (mem : Addr → Byte) (buffer : Addr)
  (interfaceDefinitionCrc : BitVec 16)

/-- The operation that the host reads a chunk with. -/
theorem remoteEndpointOperation_chunk {offset : BitVec 32} (hoffset : offset ≠ 0xffffffff)
    (s : Session (ChannelState (List (List Byte)) τ)) : ∃ s',
      remoteEndpointOperation
        (device jsonCrc (endpointHandler embeddedJson jsonVersionId others) mem buffer)
        interfaceDefinitionCrc 0 (packI offset) true 512 s =
          (.ok (some ((embeddedJson.drop offset.toNat).take 30)), s') := by
  obtain ⟨remote, hchunk⟩ := device_chunk mem buffer s.host.nextSeqNo.seqNo offset jsonCrc
    embeddedJson jsonVersionId others (isRequest_seqNo s.host) hoffset s.remote
  have hid : (0 : BitVec 16) ||| 0x8000 = 0x8000 := by decide
  have hendpoint : (0x8000 : BitVec 16) &&& 0x7fff = 0 := by decide
  have hinput : (packI offset).length < 128 := by
    show 4 < 128
    decide
  have hanswer : device jsonCrc (endpointHandler embeddedJson jsonVersionId others) mem buffer
      (packH s.host.nextSeqNo.seqNo ++ packH (0 ||| 0x8000) ++ packH 512 ++ packI offset ++
        packH (if (0 ||| 0x8000 : BitVec 16) &&& 0x7fff = 0 then PROTOCOL_VERSION
          else interfaceDefinitionCrc)) s.remote =
        ([packH (s.host.nextSeqNo.seqNo ||| 0x8000) ++
          (embeddedJson.drop offset.toNat).take 30], remote) := by
    rw [hid, if_pos hendpoint]
    exact hchunk
  obtain ⟨host, hop⟩ := remoteEndpointOperation_eq hinput hanswer
  exact ⟨_, hop⟩

/-- The loop, from the point where the host has the beginning of the descriptor. -/
theorem readBuffer_rest (hlength : embeddedJson.length < 2 ^ 32 - 1) (fuel : Nat) :
    ∀ (received rest : List Byte) (s : Session (ChannelState (List (List Byte)) τ)),
      embeddedJson = received ++ rest → (rest.length + 29) / 30 + 1 ≤ fuel →
        ∃ s', readBuffer
          (device jsonCrc (endpointHandler embeddedJson jsonVersionId others) mem buffer)
          interfaceDefinitionCrc 0 fuel received s = some (.ok embeddedJson, s') := by
  induction fuel with
  | zero =>
    intro received rest s _ hfuel
    omega
  | succ fuel ih =>
    intro received rest s hjson hfuel
    have hlen : embeddedJson.length = received.length + rest.length := by
      rw [hjson, List.length_append]
    have htoNat : (BitVec.ofNat 32 received.length).toNat = received.length := by
      rw [BitVec.toNat_ofNat, Nat.mod_eq_of_lt (by omega)]
    have hoffset : BitVec.ofNat 32 received.length ≠ 0xffffffff := by
      intro h
      have hnat := congrArg BitVec.toNat h
      rw [htoNat, show (0xffffffff : BitVec 32).toNat = 2 ^ 32 - 1 from rfl] at hnat
      omega
    obtain ⟨s₁, hop⟩ := remoteEndpointOperation_chunk jsonCrc embeddedJson jsonVersionId others mem
      buffer interfaceDefinitionCrc hoffset s
    have hchunk : (embeddedJson.drop received.length).take 30 = rest.take 30 := by
      rw [hjson, List.drop_left]
    rw [htoNat, hchunk] at hop
    rw [readBuffer, if_neg (by omega)]
    simp only [hop, Option.getD_some, List.length_take]
    by_cases hend : rest.length = 0
    · -- the empty chunk
      rw [if_pos (by omega)]
      refine ⟨s₁, ?_⟩
      rw [List.length_eq_zero_iff.mp hend, List.append_nil] at hjson
      rw [← hjson]
    · rw [if_neg (by omega)]
      refine ih (received ++ rest.take 30) (rest.drop 30) s₁ ?_ ?_
      · rw [List.append_assoc, List.take_append_drop]
        exact hjson
      · rw [List.length_drop]
        omega

/-- **The descriptor is transferred.** Reading endpoint 0 of the device ends, after one
request for every 30 bytes and one more, with exactly the descriptor. -/
theorem remoteEndpointReadBuffer_descriptor (hlength : embeddedJson.length < 2 ^ 32 - 1)
    (s : Session (ChannelState (List (List Byte)) τ)) {fuel : Nat}
    (hfuel : (embeddedJson.length + 29) / 30 + 1 ≤ fuel) : ∃ s',
      remoteEndpointReadBuffer
        (device jsonCrc (endpointHandler embeddedJson jsonVersionId others) mem buffer)
        interfaceDefinitionCrc 0 fuel s = some (.ok embeddedJson, s') :=
  readBuffer_rest jsonCrc embeddedJson jsonVersionId others mem buffer interfaceDefinitionCrc
    hlength fuel [] embeddedJson s rfl hfuel

end Descriptor

/-- A descriptor of 31 bytes takes three requests. -/
theorem remoteEndpointReadBuffer_descriptor_two : ∃ s',
    remoteEndpointReadBuffer
      (device 0 (endpointHandler (List.replicate 31 0x7b) 0 fun _ _ _ _ _ =>
        (⟨[], Nat.zero_le _⟩, ())) (fun _ => 0) 0) 0 0 3
      ⟨.init, fresh (Vector.replicate TX_BUF_SIZE 0) [] ()⟩ =
        some (.ok (List.replicate 31 0x7b), s') :=
  remoteEndpointReadBuffer_descriptor 0 _ 0 _ _ _ _ (by rw [List.length_replicate]; decide) _
    (by rw [List.length_replicate])

end WODrive.Fibre
