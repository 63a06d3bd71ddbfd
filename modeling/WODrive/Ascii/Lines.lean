import Mathlib.Data.List.Induction

/-!
# Lines of the ASCII protocol (communication/ascii_protocol.cpp)

`ASCII_protocol_parse_stream` assembles lines from chunks of bytes, in variables that
keep their values between calls, and hands every line to
`ASCII_protocol_process_line`. Here the lines handed over are the result of a call.

`parseStream_line` says what becomes of the bytes up to the next end of line: one line,
together with what was there before, or none if this is too long.
-/

namespace WODrive.Ascii

/-- `MAX_LINE_LENGTH` -/
def maxLineLength : Nat := 256

/-- A carriage return, a line feed or an exclamation mark. -/
def isEndOfLine (c : BitVec 8) : Bool := c == 13 || c == 10 || c == 33

/-- The static variables of `ASCII_protocol_parse_stream`. -/
structure LineState where
  /-- `parse_buffer`, up to `parse_buffer_idx`. -/
  parseBuffer : List (BitVec 8)
  readActive : Bool
deriving DecidableEq, Repr

/-- At the start of a line, and of the program. -/
def LineState.start : LineState := ⟨[], true⟩

/-- One round of the loop: the line that it hands over, and the variables. -/
def parseByte (c : BitVec 8) (s : LineState) : Option (List (BitVec 8)) × LineState :=
  -- if the line becomes too long, reset buffer and wait for the next line
  let s := if s.parseBuffer.length ≥ maxLineLength then ⟨[], false⟩ else s
  if isEndOfLine c then
    (if s.readActive then some s.parseBuffer else none, .start)
  else
    (none, if s.readActive then { s with parseBuffer := s.parseBuffer ++ [c] } else s)

/-- `ASCII_protocol_parse_stream`: the lines it hands over, and the variables. -/
def parseStream : List (BitVec 8) → LineState → List (List (BitVec 8)) × LineState
  | [], s => ([], s)
  | c :: cs, s =>
    let (line, s) := parseByte c s
    let (lines, s) := parseStream cs s
    (line.toList ++ lines, s)

/-! ## Chunks -/

@[simp] theorem parseStream_nil (s : LineState) : parseStream [] s = ([], s) := rfl

theorem parseStream_cons (c : BitVec 8) (cs : List (BitVec 8)) (s : LineState) :
    parseStream (c :: cs) s =
      ((parseByte c s).1.toList ++ (parseStream cs (parseByte c s).2).1,
        (parseStream cs (parseByte c s).2).2) := rfl

/-- Chunks are one stream: only the bytes matter. -/
theorem parseStream_append (xs ys : List (BitVec 8)) (s : LineState) :
    parseStream (xs ++ ys) s =
      ((parseStream xs s).1 ++ (parseStream ys (parseStream xs s).2).1,
        (parseStream ys (parseStream xs s).2).2) := by
  induction xs generalizing s with
  | nil => rfl
  | cons c xs ih => simp [parseStream_cons, ih]

/-! ## One line -/

/-- The buffer is never overrun, and is empty while a line is being skipped. -/
structure LineState.Bounded (s : LineState) : Prop where
  length_le : s.parseBuffer.length ≤ maxLineLength
  skipped : s.readActive = false → s.parseBuffer = []

theorem LineState.bounded_start : LineState.start.Bounded :=
  ⟨Nat.zero_le _, fun _ => rfl⟩

theorem LineState.Bounded.parseByte {s : LineState} (h : s.Bounded) (c : BitVec 8) :
    (Ascii.parseByte c s).2.Bounded := by
  unfold Ascii.parseByte
  dsimp only
  split
  next => exact bounded_start
  next =>
    split
    next hlong => exact ⟨Nat.zero_le _, fun _ => rfl⟩
    next hshort =>
      cases hactive : s.readActive with
      | false => exact ⟨h.length_le, h.skipped⟩
      | true =>
        refine ⟨?_, fun hskip => ?_⟩
        · simp
          omega
        · simp at hskip

theorem LineState.Bounded.parseStream {s : LineState} (h : s.Bounded)
    (cs : List (BitVec 8)) : (Ascii.parseStream cs s).2.Bounded := by
  induction cs generalizing s with
  | nil => exact h
  | cons c cs ih =>
    rw [parseStream_cons]
    exact ih (h.parseByte c)

/-- What is left of a line that has become too long. -/
theorem parseStream_skip {cs : List (BitVec 8)} (hcs : ∀ c ∈ cs, isEndOfLine c = false)
    {c : BitVec 8} (hc : isEndOfLine c = true) :
    parseStream (cs ++ [c]) ⟨[], false⟩ = ([], .start) := by
  induction cs with
  | nil => simp [parseStream, parseByte, hc, maxLineLength]
  | cons d cs ih =>
    have hd : isEndOfLine d = false := hcs d (by simp)
    have hstep : parseByte d ⟨[], false⟩ = (none, ⟨[], false⟩) := by
      simp [parseByte, hd, maxLineLength]
    rw [List.cons_append, parseStream_cons, hstep, ih fun c hc => hcs c (by simp [hc])]
    rfl

/-- The bytes up to the end of a line, after those in the buffer: a line, if all of
them fit. -/
theorem parseStream_line (buffer : List (BitVec 8)) (hbuffer : buffer.length ≤ maxLineLength)
    {cs : List (BitVec 8)} (hcs : ∀ c ∈ cs, isEndOfLine c = false)
    {c : BitVec 8} (hc : isEndOfLine c = true) :
    parseStream (cs ++ [c]) ⟨buffer, true⟩ =
      (if buffer.length + cs.length < maxLineLength then [buffer ++ cs] else [], .start) := by
  induction cs generalizing buffer with
  | nil =>
    by_cases hlong : maxLineLength ≤ buffer.length
    · simp [parseStream, parseByte, hc, hlong]
    · simp [parseStream, parseByte, hc, hlong]
  | cons d cs ih =>
    have hd : isEndOfLine d = false := hcs d (by simp)
    have hcs' : ∀ c ∈ cs, isEndOfLine c = false := fun c hc => hcs c (by simp [hc])
    rw [List.cons_append, parseStream_cons]
    by_cases hlong : maxLineLength ≤ buffer.length
    · have hstep : parseByte d ⟨buffer, true⟩ = (none, ⟨[], false⟩) := by
        simp [parseByte, hd, hlong]
      rw [hstep, parseStream_skip hcs' hc, if_neg (by omega)]
      rfl
    · have hstep : parseByte d ⟨buffer, true⟩ = (none, ⟨buffer ++ [d], true⟩) := by
        simp [parseByte, hd, hlong]
      rw [hstep, ih (buffer ++ [d]) (by simp; omega) hcs']
      simp [Nat.add_assoc, Nat.add_comm 1]

end WODrive.Ascii
