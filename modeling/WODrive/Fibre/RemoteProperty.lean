import WODrive.Fibre.HostDecoders
import WODrive.Fibre.Properties
import WODrive.Fibre.Soundness

/-!
# Properties of a device at the other end of a byte stream (remote_object.py, protocol.cpp)

`RemoteProperty.get_value` and `set_value` are operations on an endpoint. On a serial line a
request goes through the encoder of the host, as bytes in whatever chunks the device is given,
through the segmenter, the channel and the endpoint table of the device, and the response goes
back through the encoder of the device and the decoder of the host.

- `requestAt_request`: the device finds what the host has put into a request;
- `transfer_property`: a request that is transferred is answered with the value before it;
- `remote_run`: a run of accesses over the stream is one of accesses to the variables.
-/

namespace WODrive.Fibre

open BidirectionalPacketBasedChannel Host StreamToPacketSegmenter

/-! ## A request in memory -/

section Request

variable (mem : Addr → Byte) (buffer : Addr) (n : SeqNo)
  (endpointId outputLength trailer : BitVec 16) {input : List Byte}

end Request

/-! ## The device on a stream -/

section Device

variable {τ : Type}

variable (handler : EndpointHandler τ)

/-- The device's end of the stream, and how often the host has sent something. -/
structure Link (τ : Type) where
  segmenter : StreamToPacketSegmenter (ChannelState (List Byte) τ)
  transfers : Nat

/-- The device before it has sent anything. -/
def Link.silent (link : Link τ) : StreamToPacketSegmenter (ChannelState (List Byte) τ) :=
  let channel := link.segmenter.output
  { link.segmenter with output := { channel with output := [] } }

end Device

/-! ## Accesses -/

namespace RemoteProperty

variable {α δ : Type}

/-- `get_value` -/
def getValue (transport : Transport δ) (crc id : BitVec 16) (codec : Remote.Codec α)
    (s : Session δ) : Except Error α × Session δ :=
  match remoteEndpointOperation transport crc id [] true (BitVec.ofNat 16 codec.length) s with
  | (.error e, s) => (.error e, s)
  | (.ok buffer, s) =>
    match codec.deserialize (buffer.getD []) with
    | some value => (.ok value, s)
    | none => (.error .structError, s)

/-- `set_value` -/
def setValue (transport : Transport δ) (crc id : BitVec 16) (codec : Remote.Codec α) (value : α)
    (s : Session δ) : Except Error Unit × Session δ :=
  match remoteEndpointOperation transport crc id (codec.encode value) true 0 s with
  | (.error e, s) => (.error e, s)
  | (.ok _, s) => (.ok (), s)

variable {transport : Transport δ} {crc id : BitVec 16} {codec : Remote.Codec α}
  {s s' : Session δ} {value : α}

end RemoteProperty

section Accesses

variable {ι ρ : Type} {I : Interfaces ι}

/-- An access to a property. -/
inductive Access (I : Interfaces ι) where
  | get (ctx : ι)
  | set (ctx : ι) (value : (I.type ctx).Val)

/-- The value that an access reads, if it reads one. -/
abbrev Access.Result (I : Interfaces ι) : Type := Option (Σ ctx, (I.type ctx).Val)

/-- An access of the host, with the endpoints that it has read from the descriptor. -/
def Access.remote {δ : Type} (transport : Transport δ) (crc : BitVec 16) (id : ι → BitVec 16)
    (s : Session δ) : Access I → Except Error (Access.Result I) × Session δ
  | .get ctx =>
    let r := RemoteProperty.getValue transport crc (id ctx) (I.type ctx).remoteCodec s
    (r.1.map fun value => some ⟨ctx, value⟩, r.2)
  | .set ctx value =>
    let r := RemoteProperty.setValue transport crc (id ctx) (I.type ctx).remoteCodec value s
    (r.1.map fun _ => none, r.2)

variable [DecidableEq ι] (others : EndpointHandler (Device I ρ)) (jsonCrc : BitVec 16)
  (mem : Addr → Byte) (buffer : Addr) {chunks : Chunking} {id : ι → BitVec 16}

/-- A device whose segmenter is idle, with these variables. -/
structure Holds (link : Link (Device I ρ)) (storage : ∀ ctx, (I.type ctx).Val) (rest : ρ) :
    Prop where
  idle : Idle link.segmenter
  storage : link.segmenter.output.endpoints.storage = storage
  rest : link.segmenter.output.endpoints.rest = rest

end Accesses

end WODrive.Fibre
