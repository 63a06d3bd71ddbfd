import WODrive.Fibre.Segmenter

/-!
# Getting out of a packet

Once a header is accepted, the segmenter waits for as many bytes as it announces. It
can wait for `RX_BUF_SIZE` bytes at most, because it stores none behind the end of its
buffer and counts only what it stores. A header can announce `0x7f + 2` bytes, which is
one more: after such a header the segmenter never leaves the packet again (`Wedged`).

`unwedged_iff`: this is the only way to wedge it, whatever the stream.
-/

namespace WODrive.Fibre

universe u

namespace StreamToPacketSegmenter

variable {σ : Type u} (sink : PacketSink σ) {s : StreamToPacketSegmenter σ} {p : List Byte}
  {n : Nat}

/-- Where a header is completely accepted, the packet fits the buffer and the
segmenter gets out of it after at most `packet_length_` more bytes, whatever they are. -/
def Unwedged (sink : PacketSink σ) (s : StreamToPacketSegmenter σ) : Prop :=
  s.headerIndex = 3 →
    s.packetIndex < s.packetLength ∧ s.packetLength ≤ RX_BUF_SIZE ∧
      ∀ bytes : List Byte, bytes.length = s.packetLength →
        ∃ k ≤ s.packetLength,
          Idle ((streamToPacketSegmenter sink).feed [(bytes.take k, none)] s)

/-- The byte completes a header that announces a packet of `0x7f` bytes. -/
def OpensOversized (s : StreamToPacketSegmenter σ) (b : Byte) : Prop :=
  s.headerIndex = 2 ∧ s.headerByte 1 = 0x7f ∧ calcCrc8 [s.headerByte 0, 0x7f, b] = 0

/-- A packet that fits the buffer is complete after as many bytes as are missing. -/
theorem InPacket.idle_after (h : InPacket s n p) (hn : n < 127) (bytes : List Byte)
    (hlen : p.length + bytes.length = n + 2) : Idle (afterBytes sink s bytes) := by
  induction bytes generalizing s p with
  | nil =>
    have hshort := h.short
    rw [List.length_nil] at hlen
    omega
  | cons b bytes ih =>
    rw [List.length_cons] at hlen
    have hroom : p.length < RX_BUF_SIZE := by
      unfold RX_BUF_SIZE
      omega
    by_cases hmore : p.length < n + 1
    · refine ih (h.next sink hroom hmore b).1 ?_
      rw [List.length_append, List.length_singleton]
      omega
    · have hlast : p.length = n + 1 := by omega
      obtain rfl : bytes = [] := List.eq_nil_of_length_eq_zero (by omega)
      exact (h.complete sink hroom hlast b).1

theorem InPacket.unwedged (h : InPacket s n p) (hn : n < 127) : Unwedged sink s := by
  intro _
  have hindex := h.packetIndex
  have hlength := h.packetLength
  have hshort := h.short
  have hbuf : RX_BUF_SIZE = 128 := rfl
  refine ⟨by omega, by omega, ?_⟩
  intro bytes hbytes
  refine ⟨n + 2 - p.length, by omega, ?_⟩
  rw [feed_eq_afterBytes, List.flatMap_singleton]
  apply h.idle_after sink hn
  rw [List.length_take]
  omega

theorem InHeader.unwedged (h : InHeader s p) : Unwedged sink s := by
  intro hheader
  have hindex := h.headerIndex
  have hshort := h.short
  omega

/-- Inside a packet for which there is not enough room. -/
def Wedged (s : StreamToPacketSegmenter σ) : Prop := ∃ p, InPacket s 127 p

theorem Wedged.not_unwedged (h : Wedged s) : ¬ Unwedged sink s := by
  intro hun
  obtain ⟨p, h⟩ := h
  have hlength := h.packetLength
  have hroom := (hun h.headerIndex).2.1
  rw [hlength] at hroom
  exact absurd hroom (by decide)

theorem Wedged.processByte (h : Wedged s) (b : Byte) : Wedged (processByte sink b s).2 := by
  obtain ⟨p, h⟩ := h
  rcases h.stored.lt_or_eq with hroom | hfull
  · exact ⟨_, (h.next sink hroom hroom b).1⟩
  · rw [h.full sink hfull]
    exact ⟨p, h⟩

/-- Nothing gets the segmenter out. -/
theorem Wedged.afterBytes (h : Wedged s) (bytes : List Byte) :
    Wedged (afterBytes sink s bytes) := by
  refine (Run.foldl (fun s b => (StreamToPacketSegmenter.processByte sink b s).2) s
    bytes).invariant (I := Wedged) h ?_
  rintro s b t hs rfl
  exact hs.processByte sink b

theorem Wedged.not_idle (h : Wedged s) : ¬ Idle s := by
  intro hidle
  obtain ⟨p, h⟩ := h
  have hheader := h.headerIndex
  rw [hidle.headerIndex] at hheader
  cases hheader

/-- The header whose bytes the segmenter holds. -/
theorem InHeader.eq_pair (h : InHeader s p) (hindex : s.headerIndex = 2) :
    p = [s.headerByte 0, s.headerByte 1] := by
  have hlen := h.headerIndex
  rw [hindex] at hlen
  match p, h with
  | [b0, b1], h =>
    rw [headerByte_eq (i := 0) h.headerBuffer rfl, headerByte_eq (i := 1) h.headerBuffer rfl]
  | [], _ => cases hlen
  | [_], _ => cases hlen
  | _ :: _ :: _ :: _, h => exact absurd h.short (by simp)

/-- An oversized header wedges the segmenter. -/
theorem wedged_of_opensOversized {b : Byte} (hbetween : Between s) (h : OpensOversized s b) :
    Wedged (processByte sink b s).2 := by
  obtain ⟨hindex, hlength, hcrc⟩ := h
  rcases hbetween with ⟨p, hp⟩ | ⟨n, p, hp⟩
  · obtain rfl := hp.eq_pair hindex
    have hheader : IsHeader [s.headerByte 0, s.headerByte 1, b] := by
      refine ⟨hp.isHeader.1, hp.isHeader.2, ?_⟩
      rw [hlength]
      exact hcrc
    have hopen := (hp.open sink hheader).1
    rw [hlength] at hopen
    exact ⟨[], hopen⟩
  · have hheader := hp.headerIndex
    omega

/-- Between two bytes, with room for the packet if there is one. -/
def Fits (s : StreamToPacketSegmenter σ) : Prop :=
  (∃ p, InHeader s p) ∨ ∃ n p, InPacket s n p ∧ n < 127

theorem Fits.unwedged (h : Fits s) : Unwedged sink s := by
  rcases h with ⟨p, h⟩ | ⟨n, p, h, hn⟩
  · exact h.unwedged sink
  · exact h.unwedged sink hn

/-- Every other byte leaves a segmenter with room for its packet. -/
theorem Fits.processByte {b : Byte} (h : Fits s) (hb : ¬ OpensOversized s b) :
    Fits (processByte sink b s).2 := by
  rcases h with ⟨p, h⟩ | ⟨n, p, h, hn⟩
  · by_cases hheader : IsHeader (p ++ [b])
    · match p, h with
      | [], h => exact .inl ⟨_, (h.next sink hheader (by simp)).1⟩
      | [_], h => exact .inl ⟨_, (h.next sink hheader (by simp)).1⟩
      | [b0, b1], h =>
        obtain ⟨hopen, -⟩ := h.open sink hheader
        refine .inr ⟨_, _, hopen, ?_⟩
        have hsmall := hopen.small
        have h0 : s.headerByte 0 = b0 := headerByte_eq h.headerBuffer rfl
        have h1 : s.headerByte 1 = b1 := headerByte_eq h.headerBuffer rfl
        have hne : b1.toNat ≠ 127 := by
          intro hmax
          obtain rfl : b1 = 0x7f := BitVec.eq_of_toNat_eq hmax
          refine hb ⟨h.headerIndex, h1, ?_⟩
          rw [h0]
          exact hheader.2.2
        omega
      | _ :: _ :: _ :: _, h => exact absurd h.short (by simp)
    · exact .inl ⟨[], (h.reject sink hheader).1.inHeader⟩
  · have hroom : p.length < RX_BUF_SIZE := by
      have hshort := h.short
      have hbuf : RX_BUF_SIZE = 128 := rfl
      omega
    by_cases hlen : p.length < n + 1
    · exact .inr ⟨n, _, (h.next sink hroom hlen b).1, hn⟩
    · have hshort := h.short
      exact .inl ⟨[], (h.complete sink hroom (by omega) b).1.inHeader⟩

/-- **When the segmenter can be wedged.** From its initial state, in any chunking, it is
unwedged at every point of a stream if and only if no byte of the stream completes a
header that announces a packet of `0x7f` bytes. -/
theorem unwedged_iff (sink : PacketSink σ) (output : σ) (bytes : List Byte) :
    (∀ chunks : List (List Byte × Counter), chunks.flatMap Prod.fst <+: bytes →
      Unwedged sink ((streamToPacketSegmenter sink).feed chunks (initial output))) ↔
    ∀ (chunks : List (List Byte × Counter)) (b : Byte),
      chunks.flatMap Prod.fst ++ [b] <+: bytes →
        ¬ OpensOversized ((streamToPacketSegmenter sink).feed chunks (initial output)) b := by
  have hinit : InHeader (initial output) [] := (idle_initial output).inHeader
  constructor
  · intro hun chunks b hpre hopens
    have hw := wedged_of_opensOversized sink (b := b)
      (show Between ((streamToPacketSegmenter sink).feed chunks (initial output)) by
        rw [feed_eq_afterBytes]
        exact Between.afterBytes sink (.inl ⟨[], hinit⟩) _) hopens
    refine hw.not_unwedged sink ?_
    have hpoint := hun (chunks ++ [([b], none)]) (by simpa using hpre)
    rw [feed_eq_afterBytes] at hpoint
    rw [feed_eq_afterBytes]
    simpa using hpoint
  · intro hopens chunks hpre
    rw [feed_eq_afterBytes]
    refine Fits.unwedged sink ?_
    generalize chunks.flatMap Prod.fst = seen at hpre
    -- one byte after the other: no byte seen so far opened an oversized packet
    induction seen using List.reverseRecOn with
    | nil => exact .inl ⟨[], hinit⟩
    | append_singleton seen b ih =>
      rw [afterBytes_append]
      refine (ih ((List.prefix_append seen [b]).trans hpre)).processByte sink ?_
      have hb := hopens [(seen, none)] b (by simpa using hpre)
      rw [feed_eq_afterBytes] at hb
      simpa using hb

/-- A packet sink that accepts everything. -/
def acceptingSink : PacketSink Unit := ⟨fun _ _ => (0, ())⟩

/-- The header of a packet of 127 bytes wedges the segmenter. -/
theorem unwedged_oversized :
    ¬ ∀ chunks : List (List Byte × Counter),
      chunks.flatMap Prod.fst <+: [0xaa, 0x7f, calcCrc8 [0xaa, 0x7f]] →
        Unwedged acceptingSink
          ((streamToPacketSegmenter acceptingSink).feed chunks (initial ())) := by
  intro hun
  have hpoint := hun [([0xaa, 0x7f, calcCrc8 [0xaa, 0x7f]], none)] (by simp) (by decide +kernel)
  exact absurd hpoint.2.1 (by decide +kernel)

end StreamToPacketSegmenter

end WODrive.Fibre
