import WODrive.Fibre.Stream
import Mathlib.Data.BitVec
import Mathlib.Tactic.Ring

/-!
# Requests (fibre/cpp/protocol.cpp)

`BidirectionalPacketBasedChannel::process_packet` takes a request apart, calls the
endpoint's handler and sends the response. It walks through the packet with a pointer
and a remaining length, both `size_t` values of 32 bits, over a memory that holds the
packet and everything else.

Next to its results the model keeps a record of what the function does with the packet:
the addresses it reads, the remaining lengths it computes (as integers, so that one that
wraps around is negative), and the calls of the endpoint handler, which is not part of
the library.

`processPacket_safe_iff`: the packets on which all of this is as it should be.
-/

namespace WODrive.Fibre

abbrev Addr := BitVec 32

def PROTOCOL_VERSION : BitVec 16 := 1

def TX_BUF_SIZE : Nat := 32

/-- `fibre::cbufptr_t` -/
structure BufPtr where
  begin : Addr
  length : BitVec 32

/-- `fibre::endpoint_handler`, which the firmware generates: from the endpoint, the
input buffer in the memory and the room in the output buffer to the bytes it puts
there. -/
abbrev EndpointHandler (τ : Type) :=
  BitVec 16 → (Addr → Byte) → BufPtr → (room : Nat) → τ → { l : List Byte // l.length ≤ room } × τ

/-- The channel's buffer and the state of its output and of the endpoints, and the
record of a call. -/
structure ChannelState (σ : Type) (τ : Type) where
  txBuf : Vector Byte TX_BUF_SIZE
  output : σ
  endpoints : τ
  /-- the addresses read -/
  reads : List Addr
  /-- the remaining lengths computed -/
  remaining : List Int
  /-- the endpoints whose handler was called -/
  calls : List (BitVec 16)

namespace BidirectionalPacketBasedChannel

variable {σ τ : Type}

/-- Store bytes in a buffer from an index on. -/
def store {n : Nat} (buf : Vector Byte n) (i : Nat) (bytes : List Byte) : Vector Byte n :=
  (bytes.zipIdx i).foldl (fun buf b => buf.setIfInBounds b.2 b.1) buf

/-- Read the byte at an address. -/
def readByte (mem : Addr → Byte) (a : Addr) : StateM (ChannelState σ τ) Byte := fun s =>
  (mem a, { s with reads := s.reads ++ [a] })

/-- Subtract from a remaining length. -/
def subLength (length k : BitVec 32) : StateM (ChannelState σ τ) (BitVec 32) := fun s =>
  (length - k, { s with remaining := s.remaining ++ [(length.toNat : Int) - k.toNat] })

/-- `read_le<uint16_t>(&buffer, &length)`: the value and the new `buffer` and `length`. -/
def readLe (mem : Addr → Byte) (buffer : Addr) (length : BitVec 32) :
    StateM (ChannelState σ τ) (BitVec 16 × Addr × BitVec 32) := do
  let lo ← readByte mem buffer
  let hi ← readByte mem (buffer + 1)
  let length ← subLength length 2
  return (hi ++ lo, buffer + 2, length)

/-- Call the endpoint handler and send the response, if one is expected. -/
def respond (handler : EndpointHandler τ) (output : PacketSink σ) (mem : Addr → Byte)
    (seqNo endpointId : BitVec 16) (expectResponse : Bool) (expectedResponseLength : BitVec 16)
    (input : BufPtr) : StateM (ChannelState σ τ) Result := fun s =>
  let room := min expectedResponseLength.toNat (TX_BUF_SIZE - 2)
  let (written, endpoints) := handler endpointId mem input room s.endpoints
  let s := { s with
    txBuf := store s.txBuf 2 written.val
    endpoints := endpoints
    calls := s.calls ++ [endpointId] }
  if expectResponse then
    let seqNo := seqNo ||| 0x8000
    let s := { s with
      txBuf := store s.txBuf 0 [seqNo.setWidth 8, (seqNo >>> 8).setWidth 8] }
    let (_, sent) := output.processPacket (s.txBuf.toList.take (written.val.length + 2)) s.output
    (0, { s with output := sent })
  else (0, s)

/-- The part of `process_packet` behind the sequence number of a request. -/
def processRequest (jsonCrc : BitVec 16) (handler : EndpointHandler τ) (output : PacketSink σ)
    (mem : Addr → Byte) (seqNo : BitVec 16) (buffer : Addr) (length : BitVec 32) :
    StateM (ChannelState σ τ) Result := do
  let (endpointId, buffer, length) ← readLe mem buffer length
  let expectResponse := endpointId &&& 0x8000 != 0
  let endpointId := endpointId &&& 0x7fff
  let expectedTrailer := if endpointId ≠ 0 then jsonCrc else PROTOCOL_VERSION
  let lo ← readByte mem (buffer + (← subLength length 2))
  let hi ← readByte mem (buffer + (← subLength length 1))
  let actualTrailer : BitVec 16 := lo.setWidth 16 ||| (hi.setWidth 16 <<< 8)
  if expectedTrailer ≠ actualTrailer then
    return -1
  else
    let (expectedResponseLength, buffer, length) ← readLe mem buffer length
    let inputLength ← subLength length 2
    respond handler output mem seqNo endpointId expectResponse expectedResponseLength
      ⟨buffer, inputLength⟩

/-- `BidirectionalPacketBasedChannel::process_packet` -/
def processPacket (jsonCrc : BitVec 16) (handler : EndpointHandler τ) (output : PacketSink σ)
    (mem : Addr → Byte) (buffer : Addr) (length : BitVec 32) :
    StateM (ChannelState σ τ) Result := do
  if length < 4 then
    return -1
  else
    let (seqNo, buffer, length) ← readLe mem buffer length
    if seqNo &&& 0x8000 ≠ 0 then
      -- an acknowledgement
      return 0
    else
      processRequest jsonCrc handler output mem seqNo buffer length

/-! ## What a call does with the packet -/

/-- The 16-bit value at an address. -/
def word (mem : Addr → Byte) (a : Addr) : BitVec 16 := mem (a + 1) ++ mem a

@[simp] theorem readLe_run (mem : Addr → Byte) (buffer : Addr) (length : BitVec 32)
    (s : ChannelState σ τ) :
    readLe mem buffer length s =
      ((word mem buffer, buffer + 2, length - 2),
        { s with
          reads := s.reads ++ [buffer, buffer + 1]
          remaining := s.remaining ++ [(length.toNat : Int) - 2] }) := by
  show ((_, _, _), ({ s with reads := s.reads ++ [buffer] ++ [buffer + 1], remaining := _ } :
    ChannelState σ τ)) = _
  rw [List.append_assoc]
  rfl

/-- Calling the handler leaves the record of the reads alone. -/
theorem respond_record (handler : EndpointHandler τ) (output : PacketSink σ)
    (mem : Addr → Byte) (seqNo endpointId : BitVec 16) (expectResponse : Bool)
    (expectedResponseLength : BitVec 16) (input : BufPtr) (s : ChannelState σ τ) :
    (respond handler output mem seqNo endpointId expectResponse expectedResponseLength input
        s).2.reads = s.reads ∧
      (respond handler output mem seqNo endpointId expectResponse expectedResponseLength input
        s).2.remaining = s.remaining ∧
      (respond handler output mem seqNo endpointId expectResponse expectedResponseLength input
        s).2.calls = s.calls ++ [endpointId] := by
  unfold respond
  cases expectResponse <;> exact ⟨rfl, rfl, rfl⟩

/-- The trailer of a packet of which `length` bytes remain at `buffer`. -/
def actualTrailer (mem : Addr → Byte) (buffer : Addr) (length : BitVec 32) : BitVec 16 :=
  (mem (buffer + (length - 2))).setWidth 16 |||
    ((mem (buffer + (length - 1))).setWidth 16 <<< 8)

/-- The trailer a request for an endpoint must have. -/
def expectedTrailer (jsonCrc endpointId : BitVec 16) : BitVec 16 :=
  if endpointId &&& 0x7fff ≠ 0 then jsonCrc else PROTOCOL_VERSION

/-- A request up to the check of its trailer. -/
def afterTrailer (buffer : Addr) (length : BitVec 32) (s : ChannelState σ τ) :
    ChannelState σ τ :=
  { s with
    reads := s.reads ++ [buffer, buffer + 1, buffer + 2 + (length - 2 - 2),
      buffer + 2 + (length - 2 - 1)]
    remaining := s.remaining ++ [(length.toNat : Int) - 2,
      ((length - 2).toNat : Int) - 2, ((length - 2).toNat : Int) - 1] }

/-- A request whose trailer is right up to the call of the handler. -/
def beforeHandler (buffer : Addr) (length : BitVec 32) (s : ChannelState σ τ) :
    ChannelState σ τ :=
  { s with
    reads := s.reads ++ [buffer + 2, buffer + 2 + 1]
    remaining := s.remaining ++ [((length - 2).toNat : Int) - 2,
      ((length - 2 - 2).toNat : Int) - 2] }

theorem processRequest_run (jsonCrc : BitVec 16) (handler : EndpointHandler τ)
    (output : PacketSink σ) (mem : Addr → Byte) (seqNo : BitVec 16) (buffer : Addr)
    (length : BitVec 32) (s : ChannelState σ τ) :
    processRequest jsonCrc handler output mem seqNo buffer length s =
      if expectedTrailer jsonCrc (word mem buffer) ≠
          actualTrailer mem (buffer + 2) (length - 2) then
        (-1, afterTrailer buffer length s)
      else
        respond handler output mem seqNo (word mem buffer &&& 0x7fff)
          (word mem buffer &&& 0x8000 != 0) (word mem (buffer + 2))
          ⟨buffer + 2 + 2, length - 2 - 2 - 2⟩
          (beforeHandler buffer length (afterTrailer buffer length s)) := by
  unfold processRequest
  simp only [bind, StateT.bind, readLe_run, readByte, subLength, pure]
  have hstate : ({ s with
      reads := s.reads ++ [buffer, buffer + 1] ++ [buffer + 2 + (length - 2 - 2)] ++
        [buffer + 2 + (length - 2 - 1)]
      remaining := s.remaining ++ [(length.toNat : Int) - 2] ++
        [((length - 2).toNat : Int) - BitVec.toNat (2 : BitVec 32)] ++
        [((length - 2).toNat : Int) - BitVec.toNat (1 : BitVec 32)] } : ChannelState σ τ) =
      afterTrailer buffer length s := by
    simp only [afterTrailer, List.append_assoc, List.cons_append, List.nil_append]
    rfl
  rw [hstate]
  by_cases hmatch : expectedTrailer jsonCrc (word mem buffer) =
      actualTrailer mem (buffer + 2) (length - 2)
  · rw [if_neg (not_not_intro hmatch)]
    have hmatch' := not_not_intro hmatch
    unfold expectedTrailer actualTrailer at hmatch'
    rw [if_neg hmatch']
    simp only [StateT.bind, readLe_run, subLength, bind]
    congr 1
    simp only [beforeHandler, List.append_assoc, List.cons_append, List.nil_append]
    rfl
  · rw [if_pos hmatch]
    unfold expectedTrailer actualTrailer at hmatch
    rw [if_pos hmatch]
    rfl

theorem processPacket_run (jsonCrc : BitVec 16) (handler : EndpointHandler τ)
    (output : PacketSink σ) (mem : Addr → Byte) (buffer : Addr) (length : BitVec 32)
    (s : ChannelState σ τ) :
    processPacket jsonCrc handler output mem buffer length s =
      if length < 4 then (-1, s)
      else if word mem buffer &&& 0x8000 ≠ 0 then (0, (readLe mem buffer length s).2)
      else
        processRequest jsonCrc handler output mem (word mem buffer) (buffer + 2) (length - 2)
          (readLe mem buffer length s).2 := by
  unfold processPacket
  by_cases hshort : length < 4
  · rw [if_pos hshort, if_pos hshort]
    rfl
  · rw [if_neg hshort, if_neg hshort]
    simp only [bind, StateT.bind, readLe_run]
    by_cases hack : word mem buffer &&& 0x8000 ≠ 0
    · rw [if_pos hack, if_pos hack]
      rfl
    · rw [if_neg hack, if_neg hack]

/-! ## The parts of a request -/

structure Request where
  seqNo : BitVec 16
  expectResponse : Bool
  endpointId : BitVec 16
  expectedResponseLength : BitVec 16
  payload : List Byte
  trailer : BitVec 16

/-- The request in the packet of `length` bytes at an address. -/
def requestAt (mem : Addr → Byte) (buffer : Addr) (length : BitVec 32) : Request where
  seqNo := word mem buffer
  expectResponse := word mem (buffer + 2) &&& 0x8000 != 0
  endpointId := word mem (buffer + 2) &&& 0x7fff
  expectedResponseLength := word mem (buffer + 4)
  payload := (List.range (length.toNat - 8)).map fun i => mem (buffer + 6 + BitVec.ofNat 32 i)
  trailer := actualTrailer mem buffer length

/-- The trailer that the endpoint demands. -/
def Request.expectedTrailer (jsonCrc : BitVec 16) (r : Request) : BitVec 16 :=
  if r.endpointId ≠ 0 then jsonCrc else PROTOCOL_VERSION

/-- The trailer relative to the beginning of the packet. -/
theorem actualTrailer_eq (mem : Addr → Byte) (buffer : Addr) (length : BitVec 32) :
    actualTrailer mem (buffer + 2 + 2) (length - 2 - 2) = actualTrailer mem buffer length := by
  have hlo : buffer + 2 + 2 + (length - 2 - 2 - 2) = buffer + (length - 2) := by ring
  have hhi : buffer + 2 + 2 + (length - 2 - 2 - 1) = buffer + (length - 1) := by ring
  unfold actualTrailer
  rw [hlo, hhi]

/-- A request goes to the handler of its endpoint, or is refused. -/
theorem processPacket_request (jsonCrc : BitVec 16) (handler : EndpointHandler τ)
    (output : PacketSink σ) (mem : Addr → Byte) (buffer : Addr) {length : BitVec 32}
    (s : ChannelState σ τ) (hlen : 4 ≤ length.toNat)
    (hseq : (requestAt mem buffer length).seqNo &&& 0x8000 = 0) :
    ∃ s₀, s₀.endpoints = s.endpoints ∧ s₀.output = s.output ∧
      processPacket jsonCrc handler output mem buffer length s =
        if (requestAt mem buffer length).expectedTrailer jsonCrc =
            (requestAt mem buffer length).trailer then
          respond handler output mem (requestAt mem buffer length).seqNo
            (requestAt mem buffer length).endpointId (requestAt mem buffer length).expectResponse
            (requestAt mem buffer length).expectedResponseLength
            ⟨buffer + 2 + 2 + 2, length - 2 - 2 - 2 - 2⟩ s₀
        else (-1, s₀) := by
  have hshort : ¬ length < 4 := Nat.not_lt.mpr hlen
  have hack : ¬ word mem buffer &&& 0x8000 ≠ 0 := fun h => h hseq
  have hword : word mem (buffer + 2 + 2) = (requestAt mem buffer length).expectedResponseLength :=
    congrArg (word mem) (by ring)
  have htrailer : actualTrailer mem (buffer + 2 + 2) (length - 2 - 2) =
      (requestAt mem buffer length).trailer := actualTrailer_eq mem buffer length
  have hexpected : expectedTrailer jsonCrc (word mem (buffer + 2)) =
      (requestAt mem buffer length).expectedTrailer jsonCrc := rfl
  rw [processPacket_run, if_neg hshort, if_neg hack, processRequest_run, hexpected, htrailer, hword]
  by_cases h : (requestAt mem buffer length).expectedTrailer jsonCrc =
      (requestAt mem buffer length).trailer
  · rw [if_neg (not_not_intro h)]
    refine ⟨_, ?_, ?_, (if_pos h).symm⟩
    · rfl
    · rfl
  · rw [if_pos h]
    refine ⟨_, ?_, ?_, (if_neg h).symm⟩
    · rfl
    · rfl

/-! ## The packets that are handled safely -/

/-- The state before a call. -/
def fresh (txBuf : Vector Byte TX_BUF_SIZE) (output : σ) (endpoints : τ) :
    ChannelState σ τ where
  txBuf := txBuf
  output := output
  endpoints := endpoints
  reads := []
  remaining := []
  calls := []

/-- What a call for the packet at `buffer` did is in order: it read bytes of the packet
only, computed no negative remaining length, and called a handler only if the packet is
long enough for all parts of a request. -/
structure MemorySafe (buffer : Addr) (length : BitVec 32) (t : ChannelState σ τ) : Prop where
  reads : ∀ a ∈ t.reads, (a - buffer).toNat < length.toNat
  remaining : ∀ r ∈ t.remaining, 0 ≤ r
  calls : t.calls ≠ [] → 8 ≤ length.toNat

/-- A length without some of its bytes. -/
theorem toNat_length_sub {length : BitVec 32} (k : BitVec 32) (h : k.toNat ≤ length.toNat) :
    (length - k).toNat = length.toNat - k.toNat :=
  BitVec.toNat_sub_of_le h

/-- The remaining length after two reads. -/
theorem toNat_length_sub_four {length : BitVec 32} (h : 4 ≤ length.toNat) :
    (length - 2 - 2).toNat = length.toNat - 4 := by
  have h2 : (length - 2).toNat = length.toNat - 2 := toNat_length_sub 2 (Nat.le_trans (by simp) h)
  rw [toNat_length_sub 2 (by rw [h2]; simp; omega), h2]
  rfl

/-- Where the bytes that a request is read from are in the packet: one of the first six,
or one of the last two. -/
theorem requestOffsets (buffer : Addr) {length : BitVec 32} (h : 4 ≤ length.toNat) :
    ((buffer - buffer).toNat = 0 ∧ (buffer + 1 - buffer).toNat = 1 ∧
      (buffer + 2 - buffer).toNat = 2 ∧ (buffer + 2 + 1 - buffer).toNat = 3 ∧
      (buffer + 2 + 2 - buffer).toNat = 4 ∧ (buffer + 2 + 2 + 1 - buffer).toNat = 5) ∧
    (buffer + 2 + 2 + (length - 2 - 2 - 2) - buffer).toNat = length.toNat - 2 ∧
      (buffer + 2 + 2 + (length - 2 - 2 - 1) - buffer).toNat = length.toNat - 1 := by
  have h0 : buffer - buffer = 0 := by ring
  have h1 : buffer + 1 - buffer = 1 := by ring
  have h2 : buffer + 2 - buffer = 2 := by ring
  have h3 : buffer + 2 + 1 - buffer = 3 := by ring
  have h4 : buffer + 2 + 2 - buffer = 4 := by ring
  have h5 : buffer + 2 + 2 + 1 - buffer = 5 := by ring
  have hlo : buffer + 2 + 2 + (length - 2 - 2 - 2) - buffer = length - 2 := by ring
  have hhi : buffer + 2 + 2 + (length - 2 - 2 - 1) - buffer = length - 1 := by ring
  rw [h0, h1, h2, h3, h4, h5, hlo, hhi, toNat_length_sub 2 (Nat.le_trans (by simp) h),
    toNat_length_sub 1 (Nat.le_trans (by simp) h)]
  exact ⟨⟨rfl, rfl, rfl, rfl, rfl, rfl⟩, rfl, rfl⟩

/-- A request with a wrong trailer. -/
theorem afterTrailer_safe_iff (buffer : Addr) (length : BitVec 32) (hlen : 4 ≤ length.toNat)
    (mem : Addr → Byte) (txBuf : Vector Byte TX_BUF_SIZE) (output : σ) (endpoints : τ) :
    MemorySafe buffer length (afterTrailer (buffer + 2) (length - 2)
        (readLe mem buffer length (fresh txBuf output endpoints)).2) ↔ 6 ≤ length.toNat := by
  obtain ⟨⟨h0, h1, h2, h3, -, -⟩, hlo, hhi⟩ := requestOffsets buffer hlen
  have hsub2 : (length - 2).toNat = length.toNat - 2 :=
    toNat_length_sub 2 (Nat.le_trans (by simp) hlen)
  have hsub4 := toNat_length_sub_four hlen
  constructor
  · intro h
    have hneg := h.remaining (((length - 2 - 2).toNat : Int) - 2) (by simp [afterTrailer])
    omega
  · intro h6
    refine ⟨?_, ?_, ?_⟩
    · intro a ha
      simp only [afterTrailer, readLe_run, fresh, List.nil_append, List.cons_append,
        List.mem_cons, List.not_mem_nil, or_false] at ha
      rcases ha with rfl | rfl | rfl | rfl | rfl | rfl
      · omega
      · omega
      · omega
      · omega
      · omega
      · omega
    · intro r hr
      simp only [afterTrailer, readLe_run, fresh, List.nil_append, List.cons_append,
        List.mem_cons, List.not_mem_nil, or_false] at hr
      omega
    · intro hcalls
      exact absurd rfl hcalls

/-- A request with the right trailer. -/
theorem beforeHandler_safe_iff (buffer : Addr) (length : BitVec 32) (hlen : 4 ≤ length.toNat)
    (mem : Addr → Byte) (txBuf : Vector Byte TX_BUF_SIZE) (output : σ) (endpoints : τ)
    (t : ChannelState σ τ) (endpointId : BitVec 16)
    (hreads : t.reads = (beforeHandler (buffer + 2) (length - 2) (afterTrailer (buffer + 2)
      (length - 2) (readLe mem buffer length (fresh txBuf output endpoints)).2)).reads)
    (hremaining : t.remaining = (beforeHandler (buffer + 2) (length - 2) (afterTrailer
      (buffer + 2) (length - 2)
        (readLe mem buffer length (fresh txBuf output endpoints)).2)).remaining)
    (hcalls : t.calls = [endpointId]) :
    MemorySafe buffer length t ↔ 8 ≤ length.toNat := by
  constructor
  · intro h
    exact h.calls (by simp [hcalls])
  · intro h8
    have hsafe := (afterTrailer_safe_iff buffer length hlen mem txBuf output endpoints).mpr
      (by omega)
    obtain ⟨⟨-, -, -, -, h4, h5⟩, -, -⟩ := requestOffsets buffer hlen
    have hsub4 := toNat_length_sub_four hlen
    have hsub6 : (length - 2 - 2 - 2).toNat = length.toNat - 6 := by
      rw [toNat_length_sub 2 (by rw [hsub4]; simp; omega), hsub4]
      rfl
    refine ⟨?_, ?_, fun _ => h8⟩
    · intro a ha
      rw [hreads] at ha
      rcases List.mem_append.mp ha with ha | ha
      · exact hsafe.reads a ha
      · simp only [List.mem_cons, List.not_mem_nil, or_false] at ha
        rcases ha with rfl | rfl
        · omega
        · omega
    · intro r hr
      rw [hremaining] at hr
      rcases List.mem_append.mp hr with hr | hr
      · exact hsafe.remaining r hr
      · simp only [List.mem_cons, List.not_mem_nil, or_false] at hr
        omega

/-- **Which packets are handled safely**: those too short to be looked at, all but those
of 4 to 7 bytes, acknowledgements, and those of 6 or 7 bytes whose trailer is wrong. -/
theorem processPacket_safe_iff (jsonCrc : BitVec 16) (handler : EndpointHandler τ)
    (sink : PacketSink σ) (mem : Addr → Byte) (buffer : Addr) (length : BitVec 32)
    (txBuf : Vector Byte TX_BUF_SIZE) (output : σ) (endpoints : τ) :
    MemorySafe buffer length
        (processPacket jsonCrc handler sink mem buffer length (fresh txBuf output endpoints)).2 ↔
      length.toNat < 4 ∨ 8 ≤ length.toNat ∨ word mem buffer &&& 0x8000 ≠ 0 ∨
        6 ≤ length.toNat ∧ expectedTrailer jsonCrc (word mem (buffer + 2)) ≠
          actualTrailer mem buffer length := by
  rw [processPacket_run]
  by_cases hshort : length < 4
  · rw [if_pos hshort]
    have hlen : length.toNat < 4 := hshort
    refine iff_of_true ⟨?_, ?_, ?_⟩ (.inl hlen) <;> intro h <;> simp [fresh] at h ⊢
  have hlen : 4 ≤ length.toNat := Nat.le_of_not_lt hshort
  rw [if_neg hshort]
  by_cases hack : word mem buffer &&& 0x8000 ≠ 0
  · rw [if_pos hack]
    refine iff_of_true ⟨?_, ?_, ?_⟩ (.inr (.inr (.inl hack)))
    · obtain ⟨⟨h0, h1, -⟩, -⟩ := requestOffsets buffer hlen
      intro a ha
      simp only [readLe_run, fresh, List.nil_append, List.mem_cons, List.not_mem_nil,
        or_false] at ha
      rcases ha with rfl | rfl
      · omega
      · omega
    · intro r hr
      simp only [readLe_run, fresh, List.nil_append, List.mem_singleton] at hr
      omega
    · intro hcalls
      exact absurd rfl hcalls
  rw [if_neg hack, processRequest_run, actualTrailer_eq]
  by_cases hmatch : expectedTrailer jsonCrc (word mem (buffer + 2)) =
      actualTrailer mem buffer length
  · rw [if_neg (not_not_intro hmatch)]
    obtain ⟨hreads, hremaining, hcalls⟩ := respond_record handler sink mem (word mem buffer)
      (word mem (buffer + 2) &&& 0x7fff) (word mem (buffer + 2) &&& 0x8000 != 0)
      (word mem (buffer + 2 + 2)) ⟨buffer + 2 + 2 + 2, length - 2 - 2 - 2 - 2⟩
      (beforeHandler (buffer + 2) (length - 2) (afterTrailer (buffer + 2) (length - 2)
        (readLe mem buffer length (fresh txBuf output endpoints)).2))
    rw [beforeHandler_safe_iff buffer length hlen mem txBuf output endpoints _ _ hreads
      hremaining hcalls]
    constructor
    · exact fun h => .inr (.inl h)
    · rintro (h | h | h | h)
      · omega
      · exact h
      · exact absurd h hack
      · exact absurd hmatch h.2
  · rw [if_pos hmatch, afterTrailer_safe_iff buffer length hlen]
    constructor
    · exact fun h => .inr (.inr (.inr ⟨h, hmatch⟩))
    · rintro (h | h | h | h)
      · omega
      · omega
      · exact absurd h hack
      · exact h.1

/-- Six bytes: a request for endpoint 0 with the right trailer and nothing else. -/
def shortRequest : Addr → Byte := fun a => if a = 4 then 1 else 0

theorem processPacket_not_safe :
    ¬ ∀ (handler : EndpointHandler Unit) (sink : PacketSink Unit),
      MemorySafe 0 6 (processPacket 0 handler sink shortRequest 0 6
        (fresh (Vector.replicate TX_BUF_SIZE 0) () ())).2 := by
  intro hsafe
  have hcall := (hsafe (fun _ _ _ _ _ => (⟨[], Nat.zero_le _⟩, ())) ⟨fun _ _ => (0, ())⟩).calls
  rw [processPacket_run, if_neg (by decide), if_neg (by decide), processRequest_run,
    if_neg (by decide)] at hcall
  exact absurd (hcall (by simp [(respond_record ..).2.2])) (by decide)

end BidirectionalPacketBasedChannel

end WODrive.Fibre
