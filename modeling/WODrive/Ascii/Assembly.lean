import WODrive.Ascii.Lines
import Mathlib.Logic.Function.Basic

/-!
# How lines are assembled (communication/ascii_protocol.cpp)

`ASCII_protocol_parse_stream` with its buffer as memory: a round of the loop stores a
byte, processes a line, or does neither, and leaves these as events. `Lines` has the
same function without the memory, as `parseByte`; `streamByte_refines` connects the two.

- `parseStream_segments`: the lines handed over are the segments of the stream that a
  terminator ends and that fit into the buffer, each in one piece and in their order;
- `lines_assembled`: this for the calls with any chunks of the stream, with no store
  outside of the buffer.
-/

namespace WODrive.Ascii

/-! ## The loop on the buffer -/

/-- The static variables of `ASCII_protocol_parse_stream` in memory. -/
structure StreamState where
  /-- The memory from `parse_buffer` on; `maxLineLength` bytes of it are the buffer. -/
  parseBuffer : Nat → BitVec 8
  readActive : Bool
  parseBufferIdx : BitVec 32

/-- At program start. -/
def StreamState.start : StreamState := ⟨fun _ => 0, true, 0⟩

/-- The bytes that `ASCII_protocol_process_line` is given. -/
def StreamState.line (s : StreamState) : List (BitVec 8) :=
  (List.range s.parseBufferIdx.toNat).map s.parseBuffer

/-- What a round of the loop does. -/
inductive StreamEvent where
  /-- A store to `parse_buffer` at the index. -/
  | store (index : Nat) (c : BitVec 8)
  /-- A call of `ASCII_protocol_process_line`. -/
  | processLine (line : List (BitVec 8))
deriving DecidableEq, Repr

/-- One round of the loop. -/
def streamByte (c : BitVec 8) (s : StreamState) : List StreamEvent × StreamState :=
  -- if the line becomes too long, reset buffer and wait for the next line
  let s := if s.parseBufferIdx.toNat ≥ maxLineLength then
      { s with readActive := false, parseBufferIdx := 0 }
    else s
  if isEndOfLine c then
    (if s.readActive then [.processLine s.line] else [],
      { s with parseBufferIdx := 0, readActive := true })
  else if s.readActive then
    ([.store s.parseBufferIdx.toNat c],
      { s with
        parseBuffer := Function.update s.parseBuffer s.parseBufferIdx.toNat c
        parseBufferIdx := s.parseBufferIdx + 1 })
  else ([], s)

/-- One call of `ASCII_protocol_parse_stream`. -/
def streamBytes : List (BitVec 8) → StreamState → List StreamEvent × StreamState
  | [], s => ([], s)
  | c :: cs, s =>
    let (events, s) := streamByte c s
    let (events', s) := streamBytes cs s
    (events ++ events', s)

/-- The calls with the chunks of a stream. -/
def streamCalls : List (List (BitVec 8)) → StreamState → List StreamEvent × StreamState
  | [], s => ([], s)
  | chunk :: chunks, s =>
    let (events, s) := streamBytes chunk s
    let (events', s) := streamCalls chunks s
    (events ++ events', s)

/-- The line of an event. -/
def StreamEvent.line? : StreamEvent → Option (List (BitVec 8))
  | .store _ _ => none
  | .processLine line => some line

/-- The lines processed, in order. -/
def linesOf (events : List StreamEvent) : List (List (BitVec 8)) :=
  events.filterMap StreamEvent.line?

@[simp] theorem linesOf_nil : linesOf [] = [] := rfl

@[simp] theorem linesOf_append (xs ys : List StreamEvent) :
    linesOf (xs ++ ys) = linesOf xs ++ linesOf ys := List.filterMap_append

/-- All stores are to the buffer. -/
def StoresInside (events : List StreamEvent) : Prop :=
  ∀ index c, .store index c ∈ events → index < maxLineLength

theorem StoresInside.append {xs ys : List StreamEvent} (hx : StoresInside xs)
    (hy : StoresInside ys) : StoresInside (xs ++ ys) := by
  intro index c hmem
  rcases List.mem_append.mp hmem with h | h
  · exact hx index c h
  · exact hy index c h

theorem streamBytes_cons (c : BitVec 8) (cs : List (BitVec 8)) (s : StreamState) :
    streamBytes (c :: cs) s =
      ((streamByte c s).1 ++ (streamBytes cs (streamByte c s).2).1,
        (streamBytes cs (streamByte c s).2).2) := rfl

theorem streamCalls_cons (chunk : List (BitVec 8)) (chunks : List (List (BitVec 8)))
    (s : StreamState) : streamCalls (chunk :: chunks) s =
      ((streamBytes chunk s).1 ++ (streamCalls chunks (streamBytes chunk s).2).1,
        (streamCalls chunks (streamBytes chunk s).2).2) := rfl

theorem streamBytes_append (xs ys : List (BitVec 8)) (s : StreamState) :
    streamBytes (xs ++ ys) s =
      ((streamBytes xs s).1 ++ (streamBytes ys (streamBytes xs s).2).1,
        (streamBytes ys (streamBytes xs s).2).2) := by
  induction xs generalizing s with
  | nil => rfl
  | cons c xs ih => simp [streamBytes_cons, ih]

/-- Chunks are one stream. -/
theorem streamCalls_eq (chunks : List (List (BitVec 8))) (s : StreamState) :
    streamCalls chunks s = streamBytes chunks.flatten s := by
  induction chunks generalizing s with
  | nil => rfl
  | cons chunk chunks ih =>
    rw [streamCalls_cons, List.flatten_cons, streamBytes_append, ih]

/-! ## The buffer holds the line -/

/-- The variables without the memory. -/
def StreamState.abs (s : StreamState) : LineState := ⟨s.line, s.readActive⟩

@[simp] theorem line_length (s : StreamState) : s.line.length = s.parseBufferIdx.toNat := by
  simp [StreamState.line]

theorem line_of_idx_zero {s : StreamState} (h : s.parseBufferIdx = 0) : s.line = [] := by
  simp [StreamState.line, h]

/-- A store behind the line makes it longer by the byte. -/
theorem line_store {s : StreamState} (h : s.parseBufferIdx.toNat < maxLineLength)
    (c : BitVec 8) :
    StreamState.line { s with
      parseBuffer := Function.update s.parseBuffer s.parseBufferIdx.toNat c
      parseBufferIdx := s.parseBufferIdx + 1 } = s.line ++ [c] := by
  have hidx : (s.parseBufferIdx + 1).toNat = s.parseBufferIdx.toNat + 1 := by
    have : maxLineLength = 256 := rfl
    rw [BitVec.toNat_add, show (1 : BitVec 32).toNat = 1 from rfl]
    omega
  simp only [StreamState.line, hidx, List.range_succ, List.map_append, List.map_cons,
    List.map_nil, Function.update_self]
  congr 1
  refine List.map_congr_left fun i hi => ?_
  have := List.mem_range.mp hi
  rw [Function.update_of_ne (by omega)]

/-- What a round does, told by `parseByte`. -/
structure RoundRefines (c : BitVec 8) (s : StreamState) : Prop where
  lines : linesOf (streamByte c s).1 = (parseByte c s.abs).1.toList
  state : (streamByte c s).2.abs = (parseByte c s.abs).2
  stores : StoresInside (streamByte c s).1

/-- A round with room in the buffer refines `parseByte`. -/
theorem streamByte_refines_room (c : BitVec 8) {s : StreamState}
    (hroom : s.parseBufferIdx.toNat < maxLineLength) : RoundRefines c s := by
  have hlong : ¬ s.parseBufferIdx.toNat ≥ maxLineLength := Nat.not_le_of_lt hroom
  cases hc : isEndOfLine c with
  | true =>
    refine ⟨?_, ?_, ?_⟩
    · cases hactive : s.readActive <;>
        simp [streamByte, parseByte, StreamState.abs, linesOf, StreamEvent.line?, hlong, hc,
          hactive]
    · simp [streamByte, parseByte, StreamState.abs, LineState.start, line_of_idx_zero, hlong, hc]
    · cases hactive : s.readActive <;>
        simp [streamByte, hlong, hc, hactive, StoresInside]
  | false =>
    cases hactive : s.readActive with
    | true =>
      refine ⟨?_, ?_, ?_⟩
      · simp [streamByte, parseByte, StreamState.abs, linesOf, StreamEvent.line?, hlong, hc,
          hactive]
      · have hstore := line_store hroom c
        simp only [streamByte, if_neg hlong, hc, hactive, if_true, StreamState.abs] at hstore ⊢
        simp [parseByte, hlong, hc]
        exact hstore
      · intro index c' hmem
        simp only [streamByte, if_neg hlong, hc, hactive, if_true] at hmem
        simp at hmem
        omega
    | false =>
      refine ⟨?_, ?_, ?_⟩
      · simp [streamByte, parseByte, StreamState.abs, hlong, hc, hactive]
      · simp [streamByte, parseByte, StreamState.abs, hlong, hc, hactive]
      · simp [streamByte, hlong, hc, hactive, StoresInside]

/-- A round refines `parseByte`, from every state. If the line has become too long, this is
a round with an empty buffer. -/
theorem streamByte_refines (c : BitVec 8) (s : StreamState) : RoundRefines c s := by
  by_cases hlong : s.parseBufferIdx.toNat ≥ maxLineLength
  · have hempty : (0 : BitVec 32).toNat < maxLineLength := by decide
    have hround : RoundRefines c { s with readActive := false, parseBufferIdx := 0 } :=
      streamByte_refines_room c hempty
    have hreset : streamByte c { s with readActive := false, parseBufferIdx := 0 } =
        streamByte c s := by
      simp [streamByte, hlong]
    have habs : parseByte c (StreamState.abs
        { s with readActive := false, parseBufferIdx := 0 }) = parseByte c s.abs := by
      simp [parseByte, StreamState.abs, line_of_idx_zero, hlong]
    refine ⟨?_, ?_, ?_⟩
    · rw [← hreset, ← habs]
      exact hround.lines
    · rw [← hreset, ← habs]
      exact hround.state
    · rw [← hreset]
      exact hround.stores
  · exact streamByte_refines_room c (Nat.lt_of_not_le hlong)

/-- A call refines `parseStream`. -/
theorem streamBytes_refines (cs : List (BitVec 8)) (s : StreamState) :
    linesOf (streamBytes cs s).1 = (parseStream cs s.abs).1 ∧
      StoresInside (streamBytes cs s).1 := by
  induction cs generalizing s with
  | nil => exact ⟨rfl, fun _ _ h => absurd h List.not_mem_nil⟩
  | cons c cs ih =>
    have hround := streamByte_refines c s
    obtain ⟨hlines, hstores⟩ := ih (streamByte c s).2
    rw [streamBytes_cons, parseStream_cons]
    refine ⟨?_, hround.stores.append hstores⟩
    rw [linesOf_append, hround.lines, hlines, hround.state]

/-! ## The segments of a stream -/

/-- The segments that a terminator ends. What comes after the last terminator is not
one of them. -/
def segments (stream : List (BitVec 8)) : List (List (BitVec 8)) :=
  (stream.splitOnP isEndOfLine).dropLast

/-- The segments that fit into the buffer. -/
def fitting (pieces : List (List (BitVec 8))) : List (List (BitVec 8)) :=
  pieces.filter fun line => line.length ≤ maxLineLength - 1

theorem fitting_cons_of_le {line : List (BitVec 8)} (h : line.length < maxLineLength)
    (pieces : List (List (BitVec 8))) : fitting (line :: pieces) = line :: fitting pieces := by
  have : maxLineLength = 256 := rfl
  rw [fitting, List.filter_cons_of_pos (by simp; omega)]
  rfl

theorem fitting_cons_of_gt {line : List (BitVec 8)} (h : maxLineLength ≤ line.length)
    (pieces : List (List (BitVec 8))) : fitting (line :: pieces) = fitting pieces := by
  have : maxLineLength = 256 := rfl
  rw [fitting, List.filter_cons_of_neg (by simp; omega)]
  rfl

/-- From any state within bounds: the bytes in the buffer belong to the first piece of
the stream, and this piece is dropped while a line is being skipped. -/
theorem parseStream_pieces (stream : List (BitVec 8)) :
    (∀ buffer : List (BitVec 8), buffer.length ≤ maxLineLength →
      (parseStream stream ⟨buffer, true⟩).1 =
        fitting ((stream.splitOnP isEndOfLine).modifyHead (buffer ++ ·)).dropLast) ∧
      (parseStream stream ⟨[], false⟩).1 =
        fitting (stream.splitOnP isEndOfLine).tail.dropLast := by
  induction stream with
  | nil => exact ⟨fun _ _ => rfl, rfl⟩
  | cons c cs ih =>
    obtain ⟨ihActive, ihSkip⟩ := ih
    obtain ⟨piece, pieces, hpieces⟩ :=
      List.exists_cons_of_ne_nil (List.splitOnP_ne_nil isEndOfLine cs)
    have hmax : maxLineLength = 256 := rfl
    have hstart := ihActive [] (by simp)
    rw [hpieces] at hstart ihSkip
    simp only [List.modifyHead_cons, List.nil_append] at hstart
    refine ⟨fun buffer hbuffer => ?_, ?_⟩
    · rw [parseStream_cons, List.splitOnP_cons_eq_if_modifyHead, hpieces]
      cases hc : isEndOfLine c with
      | true =>
        have hdrop : ∀ line : List (BitVec 8),
            (line :: piece :: pieces).dropLast = line :: (piece :: pieces).dropLast :=
          fun line => rfl
        simp only [if_true, List.modifyHead_cons, List.append_nil, hdrop]
        by_cases hlong : maxLineLength ≤ buffer.length
        · rw [fitting_cons_of_gt hlong, ← hstart]
          simp [parseByte, hc, hlong, LineState.start]
        · rw [fitting_cons_of_le (by omega), ← hstart]
          simp [parseByte, hc, hlong, LineState.start]
      | false =>
        by_cases hlong : maxLineLength ≤ buffer.length
        · -- the buffer is full: what is left of the line is skipped
          have hstep : parseByte c ⟨buffer, true⟩ = (none, ⟨[], false⟩) := by
            simp [parseByte, hc, hlong]
          rw [hstep]
          simp only [Option.toList_none, List.nil_append, ihSkip]
          cases pieces with
          | nil => rfl
          | cons second pieces =>
            rw [if_neg (by simp), List.modifyHead_cons, List.modifyHead_cons,
              List.dropLast_cons_cons, fitting_cons_of_gt]
            · rfl
            · rw [List.length_append]
              omega
        · have hstep : parseByte c ⟨buffer, true⟩ = (none, ⟨buffer ++ [c], true⟩) := by
            simp [parseByte, hc, hlong]
          rw [hstep]
          simp only [Option.toList_none, List.nil_append]
          rw [ihActive (buffer ++ [c]) (by simp; omega), hpieces]
          simp
    · rw [parseStream_cons, List.splitOnP_cons_eq_if_modifyHead, hpieces]
      cases hc : isEndOfLine c with
      | true => simpa [parseByte, hc, maxLineLength, LineState.start] using hstart
      | false => simpa [parseByte, hc, maxLineLength] using ihSkip

/-- The lines of a stream are its segments that fit. -/
theorem parseStream_segments (stream : List (BitVec 8)) :
    (parseStream stream .start).1 = fitting (segments stream) := by
  have h := (parseStream_pieces stream).1 [] (by simp)
  rw [LineState.start, h, segments]
  cases stream.splitOnP isEndOfLine <;> rfl

/-- **Line assembly**: for every stream and every chunking of it, exactly the segments of
at most `MAX_LINE_LENGTH - 1` bytes are processed, and no store is outside of the buffer. -/
theorem lines_assembled (chunks : List (List (BitVec 8))) :
    linesOf (streamCalls chunks .start).1 =
        (segments chunks.flatten).filter (fun line => line.length ≤ maxLineLength - 1) ∧
      ∀ index c, .store index c ∈ (streamCalls chunks .start).1 → index < maxLineLength := by
  obtain ⟨hlines, hstores⟩ := streamBytes_refines chunks.flatten .start
  rw [streamCalls_eq]
  exact ⟨hlines.trans (parseStream_segments chunks.flatten), hstores⟩

end WODrive.Ascii
