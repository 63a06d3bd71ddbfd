import WODrive.Fibre.Codec

/-!
# Properties (fibre/cpp/protocol.cpp, protocol.hpp, function_stubs_template.j2)

A request for the endpoint of a property reads the property and, if there is a value in the
request, writes it. What the channel finds in the packet goes through the endpoint table and
a stub, both generated from the interface definition, to `Property<T>::exchange` and back.

`processPacket_property`: what all of this does to the properties and what it sends. A value
of which bytes are missing is not written at all, and of a response for which there is no
room the first bytes are sent.
-/

namespace WODrive.Fibre

open BidirectionalPacketBasedChannel Host

/-! ## Properties -/

/-- `Property<T>`, of a device with the state `σ`. -/
structure Property (σ α : Type) where
  getter : σ → α
  setter : σ → α → σ

namespace Property

variable {σ α : Type}

/-- `Property<T>::exchange` -/
def exchange (p : Property σ α) (value : Option α) (s : σ) : α × σ :=
  let oldValue := p.getter s
  match value with
  | some value => (oldValue, p.setter s value)
  | none => (oldValue, s)

/-- `Property<T>(T* ctx)`, of a variable. -/
def ofVariable {ι : Type} {α : ι → Type} [DecidableEq ι] (ctx : ι) :
    Property (∀ c, α c) (α ctx) where
  getter s := s ctx
  setter s val := Function.update s ctx val

theorem exchange_fst (p : Property σ α) (value : Option α) (s : σ) :
    (p.exchange value s).1 = p.getter s := by
  cases value with
  | none => rfl
  | some value => rfl

end Property

/-- The stub for `exchange`: what it writes to the output buffer, and whether these are all
bytes of the value. -/
def exchangeStub {σ : Type} (T : ArithType) (inObj : Property σ T.Val) (inValue : Option T.Val)
    (inputBuffer : List Byte) (room : Nat) (s : σ) : (List Byte × Bool) × σ :=
  -- `value` is optional: the stub goes on if it cannot be decoded
  let inValue := inValue.or (Codec.decode T inputBuffer).1
  let (ret, s) := inObj.exchange inValue s
  (Codec.encode T ret room, s)

theorem length_exchangeStub_le {σ : Type} {T : ArithType} (inObj : Property σ T.Val)
    (inValue : Option T.Val) (inputBuffer : List Byte) (room : Nat) (s : σ) :
    (exchangeStub T inObj inValue inputBuffer room s).1.1.length ≤ room :=
  Codec.length_encode_le _ room

/-- The stub exchanges the variable of an argument or of an output as the calls of functions
need it. -/
theorem exchangeStub_remote {ι : Type} {type : ι → ArithType} [DecidableEq ι] (ctx : ι)
    (inputBuffer : List Byte) (room : Nat) (s : ∀ c, (type c).Val) :
    let stub := exchangeStub (type ctx) (.ofVariable ctx) none inputBuffer room s
    let remote := (type ctx).remoteCodec.exchange (s ctx) inputBuffer room
    stub.1.1 = remote.1 ∧ stub.2 = Function.update s ctx remote.2 := by
  constructor
  · have hwhole : (type ctx).remoteCodec.encode (s ctx) =
        LittleEndian.encode (type ctx).width (ArithType.toNat (s ctx)) := by
      refine (Codec.encode_eq (s ctx) _).trans (List.take_of_length_le ?_)
      rw [LittleEndian.length_encode]
    have hold : (exchangeStub (type ctx) (.ofVariable ctx) none inputBuffer room s).1 =
        Codec.encode (type ctx) (s ctx) room :=
      congrArg (Codec.encode (type ctx) · room) (Property.exchange_fst ..)
    rw [hold, Remote.Codec.exchange, Remote.Codec.write, hwhole, Codec.encode_eq]
  · show (Property.exchange (.ofVariable ctx) (Codec.decode (type ctx) inputBuffer).1 s).2 =
      Function.update s ctx ((Codec.decode (type ctx) inputBuffer).1.getD (s ctx))
    cases (Codec.decode (type ctx) inputBuffer).1 with
    | none => exact (Function.update_eq_self ctx s).symm
    | some value => rfl

/-! ## The endpoint table -/

/-- What an endpoint is for: a property that is a variable, or something else. -/
inductive Endpoint (ι : Type) where
  | property (ctx : ι)
  | other
deriving DecidableEq

/-- What the endpoint table is generated from: the endpoints, and the types of the
variables. -/
structure Interfaces (ι : Type) where
  endpoint : BitVec 16 → Option (Endpoint ι)
  type : ι → ArithType

/-- The variables that are properties, and the rest of the device. -/
structure Device {ι : Type} (I : Interfaces ι) (ρ : Type) where
  storage : ∀ ctx, (I.type ctx).Val
  rest : ρ

/-- The bytes of a buffer. -/
def BufPtr.bytes (mem : Addr → Byte) (buffer : BufPtr) : List Byte :=
  (List.range buffer.length.toNat).map fun i => mem (buffer.begin + BitVec.ofNat 32 i)

namespace Interfaces

variable {ι ρ : Type} [DecidableEq ι] (I : Interfaces ι)

/-- `fibre::endpoint_handler`, where the endpoints that are no properties are handled by
`others`. -/
def endpointHandler (others : EndpointHandler (Device I ρ)) : EndpointHandler (Device I ρ) :=
  fun idx mem inputBuffer room d =>
    match I.endpoint idx with
    | some (.property ctx) =>
      let r :=
        exchangeStub (I.type ctx) (.ofVariable ctx) none (inputBuffer.bytes mem) room d.storage
      (⟨r.1.1, length_exchangeStub_le ..⟩, { d with storage := r.2 })
    | some .other => others idx mem inputBuffer room d
    | none => (⟨[], Nat.zero_le _⟩, d)

variable {I} (others : EndpointHandler (Device I ρ)) {idx : BitVec 16} (mem : Addr → Byte)
  (inputBuffer : BufPtr) (room : Nat) (d : Device I ρ)

/-- The bytes of the old value are written, and the new value is stored if there is one. -/
theorem endpointHandler_property {ctx : ι} (h : I.endpoint idx = some (.property ctx)) :
    (endpointHandler I others idx mem inputBuffer room d).1.1 =
        (LittleEndian.encode (I.type ctx).width (ArithType.toNat (d.storage ctx))).take room ∧
      (endpointHandler I others idx mem inputBuffer room d).2 =
        { d with storage :=
            if (I.type ctx).width ≤ (inputBuffer.bytes mem).length then
              Function.update d.storage ctx ((I.type ctx).ofNat
                (LittleEndian.decode ((inputBuffer.bytes mem).take (I.type ctx).width)))
            else d.storage } := by
  have hdecode := Codec.decode_eq (I.type ctx) (inputBuffer.bytes mem)
  unfold endpointHandler
  rw [h]
  simp only [exchangeStub, Option.none_or, hdecode]
  by_cases hlen : (I.type ctx).width ≤ (inputBuffer.bytes mem).length
  · rw [if_pos hlen, if_pos hlen]
    exact ⟨Codec.encode_eq .., rfl⟩
  · rw [if_neg hlen, if_neg hlen]
    exact ⟨Codec.encode_eq .., rfl⟩

theorem endpointHandler_unknown (h : I.endpoint idx = none) :
    (endpointHandler I others idx mem inputBuffer room d).2 = d := by
  unfold endpointHandler
  rw [h]

end Interfaces

/-! ## Requests -/

section Packet

variable {τ : Type} {mem : Addr → Byte} {buffer : Addr} {length : BitVec 32}

/-- The input of the endpoint handler is the payload. -/
theorem bytes_payload (hlen : 8 ≤ length.toNat) :
    BufPtr.bytes mem ⟨buffer + 2 + 2 + 2, length - 2 - 2 - 2 - 2⟩ =
      (requestAt mem buffer length).payload := by
  have hbegin : buffer + 2 + 2 + 2 = buffer + 6 := by ring
  have hrest : length - 2 - 2 - 2 - 2 = length - 8 := by ring
  have htoNat : (length - 8).toNat = length.toNat - 8 := toNat_length_sub 8 hlen
  rw [BufPtr.bytes, hbegin, hrest, htoNat]
  rfl

variable (handler : EndpointHandler τ) (s : ChannelState (List (List Byte)) τ)

/-- The endpoints after the call of a handler, and the response if one is expected. -/
theorem respond_eq (mem : Addr → Byte) (seqNo endpointId expectedResponseLength : BitVec 16)
    (expectResponse : Bool) (input : BufPtr) :
    let r := handler endpointId mem input (min expectedResponseLength.toNat (TX_BUF_SIZE - 2))
      s.endpoints
    let t := (respond handler collectPackets mem seqNo endpointId expectResponse
      expectedResponseLength input s).2
    t.endpoints = r.2 ∧ t.output = s.output ++
      if expectResponse then [packH (seqNo ||| 0x8000) ++ r.1.1] else [] := by
  cases expectResponse with
  | false => exact ⟨rfl, (List.append_nil _).symm⟩
  | true => exact ⟨rfl, respond_output handler mem seqNo endpointId expectedResponseLength input s⟩

end Packet

/-- **Requests for properties.** A request with the right trailer for a property stores the
number that the first bytes of the payload are if there are enough of them, and it is
answered, if it asks for that, with its number and the first bytes of the old value. A
request with a wrong trailer or for an unknown endpoint changes nothing. -/
theorem processPacket_property {ι ρ : Type} [DecidableEq ι] (I : Interfaces ι)
    (others : EndpointHandler (Device I ρ)) (jsonCrc : BitVec 16) (mem : Addr → Byte)
    (buffer : Addr) (length : BitVec 32) (s : ChannelState (List (List Byte)) (Device I ρ))
    (hlen : 8 ≤ length.toNat) (hseq : IsRequest (requestAt mem buffer length).seqNo) :
    let r := requestAt mem buffer length
    let t := (processPacket jsonCrc (I.endpointHandler others) collectPackets mem buffer length
      s).2
    (∀ ctx, r.trailer = r.expectedTrailer jsonCrc →
      I.endpoint r.endpointId = some (.property ctx) →
        let w := (I.type ctx).width
        let m := min w (min r.expectedResponseLength.toNat (TX_BUF_SIZE - 2))
        t.endpoints.storage =
            (if w ≤ r.payload.length then
              Function.update s.endpoints.storage ctx
                ((I.type ctx).ofNat (LittleEndian.decode (r.payload.take w)))
            else s.endpoints.storage) ∧
          t.endpoints.rest = s.endpoints.rest ∧
          t.output = s.output ++
            (if r.expectResponse then
              [packH (r.seqNo ||| 0x8000) ++
                (LittleEndian.encode w (ArithType.toNat (s.endpoints.storage ctx))).take m]
            else [])) ∧
    (r.trailer ≠ r.expectedTrailer jsonCrc ∨ I.endpoint r.endpointId = none →
      t.endpoints = s.endpoints) := by
  intro r t
  obtain ⟨s₀, hendpoints, houtput, hprocess⟩ := processPacket_request jsonCrc
    (I.endpointHandler others) collectPackets mem buffer s (Nat.le_trans (by simp) hlen) hseq
  obtain ⟨hresult, hresponse⟩ := respond_eq (I.endpointHandler others) s₀ mem r.seqNo
    r.endpointId r.expectedResponseLength r.expectResponse
    ⟨buffer + 2 + 2 + 2, length - 2 - 2 - 2 - 2⟩
  rw [hendpoints] at hresult hresponse
  rw [houtput] at hresponse
  constructor
  · intro ctx htrailer hctx w m
    obtain ⟨hwritten, hstored⟩ := Interfaces.endpointHandler_property others mem
      ⟨buffer + 2 + 2 + 2, length - 2 - 2 - 2 - 2⟩
      (min r.expectedResponseLength.toNat (TX_BUF_SIZE - 2)) s.endpoints hctx
    have hright : t = _ := congrArg Prod.snd (hprocess.trans (if_pos htrailer.symm))
    rw [bytes_payload hlen] at hstored
    have hdevice : t.endpoints = _ :=
      (congrArg ChannelState.endpoints hright).trans (hresult.trans hstored)
    refine ⟨by rw [hdevice], by rw [hdevice], ?_⟩
    rw [List.take_eq_take_min, LittleEndian.length_encode, Nat.min_comm _ w] at hwritten
    rw [hwritten] at hresponse
    exact (congrArg ChannelState.output hright).trans hresponse
  · intro h
    by_cases htrailer : r.expectedTrailer jsonCrc = r.trailer
    · have hunknown := h.resolve_left (not_not_intro htrailer.symm)
      have hright : t = _ := congrArg Prod.snd (hprocess.trans (if_pos htrailer))
      have hsame := hresult.trans (Interfaces.endpointHandler_unknown others mem
        ⟨buffer + 2 + 2 + 2, length - 2 - 2 - 2 - 2⟩
        (min r.expectedResponseLength.toNat (TX_BUF_SIZE - 2)) s.endpoints hunknown)
      exact (congrArg ChannelState.endpoints hright).trans hsame
    · have hwrong : t = _ := congrArg Prod.snd (hprocess.trans (if_neg htrailer))
      exact (congrArg ChannelState.endpoints hwrong).trans hendpoints

/-- A value that was there before comes back, and a new one is stored. -/
theorem processPacket_property_int16 :
    let packet : List Byte := [0x81, 0x00, 0x01, 0x80, 0x01, 0x00, 0x34, 0x12, 0xcd, 0xab]
    let I : Interfaces Unit := ⟨fun idx => if idx = 1 then some (.property ()) else none,
      fun _ => .int .int16⟩
    let t := (processPacket 0xabcd (I.endpointHandler fun _ _ _ _ d => (⟨[], Nat.zero_le _⟩, d))
      collectPackets (loaded (fun _ => 0) 0x20000000 packet) 0x20000000 10
      (fresh (Vector.replicate TX_BUF_SIZE 0) [] (⟨fun _ => (0x5678 : BitVec 16), ()⟩ :
        Device I Unit))).2
    t.endpoints.storage () = (0x1234 : BitVec 16) ∧ t.output = [[0x81, 0x80, 0x78]] := by
  intro packet I t
  obtain ⟨hproperty, -⟩ := processPacket_property I (fun _ _ _ _ d => (⟨[], Nat.zero_le _⟩, d))
    0xabcd (loaded (fun _ => 0) 0x20000000 packet) 0x20000000 10
    (fresh (Vector.replicate TX_BUF_SIZE 0) [] (⟨fun _ => (0x5678 : BitVec 16), ()⟩ :
      Device I Unit)) (by decide) (by unfold IsRequest; decide)
  obtain ⟨hstored, -, hsent⟩ := hproperty () (by decide) (by decide)
  have hpayload : (requestAt (loaded (fun _ => 0) 0x20000000 packet) 0x20000000 10).payload =
      [0x34, 0x12] := by decide
  have hvalue : LittleEndian.decode ([0x34, 0x12].take (ArithType.int .int16).width) = 0x1234 := by
    decide
  rw [hpayload, if_pos (by decide)] at hstored
  refine ⟨(congrFun hstored ()).trans ((Function.update_self ..).trans ?_), hsent.trans ?_⟩
  · exact congrArg (BitVec.ofNat 16) hvalue
  · decide

end WODrive.Fibre
