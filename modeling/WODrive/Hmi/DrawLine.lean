import WODrive.Library.Accumulator
import Mathlib.Data.List.Chain
import Mathlib.Data.BitVec

/-!
# Lines on the display (HMI/LCD/lcd.cpp)

`LCD::DrawLine` plots a point in every round of its loop, and moves it in both axes as
their error accumulators say. The loop counter is a `uint16_t`, which is always less
than `distance + 1` for the longest lines: the loop is run with fuel.

- `drawLine_path`: a line shorter than 65535 is plotted in `distance + 1` points, starting
  in its first end, in steps of at most one, in the box of its ends, and stops short of
  its second end;
- `drawLine_connects_iff`: only the line from a point to itself is plotted up to its
  second end. The accumulators do not carry in the first round, so that the first point
  is plotted twice, and the last one is not reached.
-/

namespace WODrive.Hmi

/-- What the arguments of `DrawLine` are turned into. -/
structure Line where
  deltaX : Int
  deltaY : Int
  distance : Int
  incx : Int
  incy : Int

/-- The direction of a single step, and the length: both from the signed length. -/
def direction (delta : Int) : Int × Int :=
  if delta > 0 then (1, delta)
  else if delta = 0 then (0, delta)
  else (-1, -delta)

/-- The direction and the length of an axis. -/
def toward (a b : BitVec 16) : Int × Int := direction ((b.toNat : Int) - a.toNat)

/-- The variables before the loop. -/
def lineOf (x1 y1 x2 y2 : BitVec 16) : Line :=
  let (incx, deltaX) := toward x1 x2
  let (incy, deltaY) := toward y1 y2
  { deltaX, deltaY, incx, incy, distance := if deltaX > deltaY then deltaX else deltaY }

/-- The variables that the loop changes. -/
structure LoopState where
  t : BitVec 16
  xerr : Int
  yerr : Int
  uRow : Int
  uCol : Int

/-- One axis of a round: `err += delta`, and the step if it gets above `distance`. -/
def moveAxis (delta distance inc err u : Int) : Int × Int :=
  let (err, carry) := accumulate delta distance err
  (err, if carry then u + inc else u)

/-- A round of the loop, after the point has been plotted. -/
def LoopState.step (l : Line) (s : LoopState) : LoopState :=
  let (xerr, uRow) := moveAxis l.deltaX l.distance l.incx s.xerr s.uRow
  let (yerr, uCol) := moveAxis l.deltaY l.distance l.incy s.yerr s.uCol
  ⟨s.t + 1, xerr, yerr, uRow, uCol⟩

/-- The arguments of `DrawPoint`. -/
abbrev Pixel := BitVec 16 × BitVec 16

/-- `DrawPoint(uRow, uCol, color)` -/
def LoopState.point (s : LoopState) : Pixel :=
  (BitVec.ofInt 16 s.uRow, BitVec.ofInt 16 s.uCol)

/-- The loop: the points that it plots, if it ends within the fuel. -/
def plot (l : Line) : Nat → LoopState → Option (List Pixel)
  | 0, _ => none
  | fuel + 1, s =>
    if (s.t.toNat : Int) < l.distance + 1 then
      (plot l fuel (s.step l)).map (s.point :: ·)
    else some []

/-- `LCD::DrawLine` -/
def drawLine (fuel : Nat) (x1 y1 x2 y2 : BitVec 16) : Option (List Pixel) :=
  plot (lineOf x1 y1 x2 y2) fuel ⟨0, 0, 0, x1.toNat, y1.toNat⟩

example : drawLine 9 3 5 1 9 = some [(3, 5), (3, 5), (3, 6), (2, 7), (2, 8)] := by decide

/-! ## What a line is to be -/

/-- Not more than one apart. -/
def Near (a b : BitVec 16) : Prop := ((a.toNat : Int) - b.toNat).natAbs ≤ 1

/-- Between the ends, in any order. -/
def Between (a b c : BitVec 16) : Prop :=
  min a.toNat b.toNat ≤ c.toNat ∧ c.toNat ≤ max a.toNat b.toNat

/-- Points in steps of at most one in the box of the ends. -/
structure Path (x1 y1 x2 y2 : BitVec 16) (pixels : List Pixel) : Prop where
  starts : pixels.head? = some (x1, y1)
  connected : pixels.IsChain fun p q => Near p.1 q.1 ∧ Near p.2 q.2
  inside : ∀ p ∈ pixels, Between x1 x2 p.1 ∧ Between y1 y2 p.2

/-- A path from one end to the other. -/
structure Connects (x1 y1 x2 y2 : BitVec 16) (pixels : List Pixel) : Prop
    extends Path x1 y1 x2 y2 pixels where
  ends : pixels.getLast? = some (x2, y2)

/-! ## One axis -/

/-- The length is not negative, and the step goes to the other end. -/
theorem toward_spec (a b : BitVec 16) : 0 ≤ (toward a b).2 ∧
    ((b.toNat : Int) = a.toNat ∧ (toward a b).1 = 0 ∧ (toward a b).2 = 0 ∨
      (a.toNat : Int) < b.toNat ∧ (toward a b).1 = 1 ∧
        (toward a b).2 = (b.toNat : Int) - a.toNat ∨
      (b.toNat : Int) < a.toNat ∧ (toward a b).1 = -1 ∧
        (toward a b).2 = (a.toNat : Int) - b.toNat) := by
  unfold toward direction
  split
  next h => exact ⟨by dsimp only; omega, Or.inr (Or.inl ⟨by omega, rfl, rfl⟩)⟩
  next h =>
    split
    next h0 => exact ⟨by dsimp only; omega, Or.inl ⟨by omega, rfl, h0⟩⟩
    next h0 =>
      exact ⟨by dsimp only; omega, Or.inr (Or.inr ⟨by omega, rfl, by dsimp only; omega⟩)⟩

/-- An axis of a line from `a` to `b` with its variables after `n` rounds. -/
def Axis (a b : BitVec 16) (distance : Int) (n : Nat) (err u : Int) : Prop :=
  ∃ s, Carried (toward a b).2 distance n s err ∧ u = a.toNat + (toward a b).1 * s

variable {a b : BitVec 16} {distance err u : Int} {n : Nat}

theorem axis_start (a b : BitVec 16) (hdistance : 0 ≤ distance) :
    Axis a b distance 0 0 a.toNat :=
  ⟨0, carried_zero hdistance, by simp⟩

theorem Axis.move (h : Axis a b distance n err u) (hle : (toward a b).2 ≤ distance) :
    Axis a b distance (n + 1)
      (moveAxis (toward a b).2 distance (toward a b).1 err u).1
      (moveAxis (toward a b).2 distance (toward a b).1 err u).2 := by
  obtain ⟨s, hcarried, hu⟩ := h
  refine ⟨_, hcarried.round (toward_spec a b).1 hle, ?_⟩
  unfold moveAxis
  dsimp only
  cases (accumulate (toward a b).2 distance err).2 with
  | true =>
    simp only [if_true, Nat.cast_succ, Int.mul_add, Int.mul_one]
    omega
  | false => simpa using hu

/-- The coordinate is between the ends, so that nothing is cut off by the conversion. -/
theorem Axis.inside (h : Axis a b distance n err u) (hn : (n : Int) ≤ distance) :
    ((BitVec.ofInt 16 u).toNat : Int) = u ∧ Between a b (BitVec.ofInt 16 u) := by
  obtain ⟨s, hcarried, hu⟩ := h
  obtain ⟨hnonneg, hcases⟩ := toward_spec a b
  have hs := hcarried.carries_le_delta hnonneg hn
  have ha := a.isLt
  have hb := b.isLt
  have hrange : (a.toNat : Int) ≤ u ∧ u ≤ b.toNat ∨ (b.toNat : Int) ≤ u ∧ u ≤ a.toNat := by
    rcases hcases with ⟨h0, hinc, hlen⟩ | ⟨h0, hinc, hlen⟩ | ⟨h0, hinc, hlen⟩ <;>
      rw [hinc] at hu <;> rw [hlen] at hs <;> omega
  have htoNat : ((BitVec.ofInt 16 u).toNat : Int) = u := by
    rw [BitVec.toNat_ofInt]
    omega
  refine ⟨htoNat, ?_⟩
  unfold Between
  omega

/-- A round moves the coordinate by at most one. -/
theorem moveAxis_near (a b : BitVec 16) (distance err u : Int) :
    ((moveAxis (toward a b).2 distance (toward a b).1 err u).2 - u).natAbs ≤ 1 := by
  obtain ⟨-, hcases⟩ := toward_spec a b
  unfold moveAxis
  dsimp only
  cases (accumulate (toward a b).2 distance err).2 with
  | true =>
    rw [if_pos rfl]
    rcases hcases with ⟨-, hinc, -⟩ | ⟨-, hinc, -⟩ | ⟨-, hinc, -⟩ <;> rw [hinc] <;> omega
  | false => simp

/-- On the longer axis the coordinate is still short of the end after `distance` rounds. -/
theorem Axis.short (h : Axis a b distance n err u) (hlong : (toward a b).2 = distance)
    (hpos : 0 < distance) (hn : (n : Int) = distance) : u ≠ b.toNat := by
  obtain ⟨s, hcarried, hu⟩ := h
  obtain ⟨-, hcases⟩ := toward_spec a b
  rw [hlong] at hcarried hcases
  have hlt := hcarried.carries_lt hpos (by omega)
  rcases hcases with ⟨h0, hinc, hlen⟩ | ⟨h0, hinc, hlen⟩ | ⟨h0, hinc, hlen⟩ <;>
    rw [hinc] at hu <;> omega

/-! ## The loop -/

section Loop

variable {x1 y1 x2 y2 : BitVec 16}

/-- The length of the longer axis. -/
theorem distance_spec (x1 y1 x2 y2 : BitVec 16) :
    (toward x1 x2).2 ≤ (lineOf x1 y1 x2 y2).distance ∧
      (toward y1 y2).2 ≤ (lineOf x1 y1 x2 y2).distance ∧
      ((lineOf x1 y1 x2 y2).distance = (toward x1 x2).2 ∨
        (lineOf x1 y1 x2 y2).distance = (toward y1 y2).2) := by
  unfold lineOf
  dsimp only
  split <;> omega

/-- The variables at the head of the loop. -/
structure Drawing (x1 y1 x2 y2 : BitVec 16) (s : LoopState) : Prop where
  row : Axis x1 x2 (lineOf x1 y1 x2 y2).distance s.t.toNat s.xerr s.uRow
  col : Axis y1 y2 (lineOf x1 y1 x2 y2).distance s.t.toNat s.yerr s.uCol

theorem drawing_start (x1 y1 x2 y2 : BitVec 16) :
    Drawing x1 y1 x2 y2 ⟨0, 0, 0, x1.toNat, y1.toNat⟩ := by
  have hdistance : 0 ≤ (lineOf x1 y1 x2 y2).distance :=
    Int.le_trans (toward_spec x1 x2).1 (distance_spec x1 y1 x2 y2).1
  exact ⟨axis_start x1 x2 hdistance, axis_start y1 y2 hdistance⟩

/-- What a round preserves. -/
theorem Drawing.step {s : LoopState} (h : Drawing x1 y1 x2 y2 s)
    (ht : s.t.toNat + 1 < 65536) : Drawing x1 y1 x2 y2 (s.step (lineOf x1 y1 x2 y2)) ∧
      (s.step (lineOf x1 y1 x2 y2)).t.toNat = s.t.toNat + 1 := by
  obtain ⟨hx, hy, -⟩ := distance_spec x1 y1 x2 y2
  have hsucc : (s.t + 1).toNat = s.t.toNat + 1 := by
    rw [BitVec.toNat_add, show (1 : BitVec 16).toNat = 1 from rfl]
    omega
  have hrow := h.row.move hx
  have hcol := h.col.move hy
  rw [← hsucc] at hrow hcol
  exact ⟨⟨hrow, hcol⟩, hsucc⟩

/-- The point of a round is in the box of the ends, and within one of the next. -/
theorem Drawing.point {s : LoopState} (h : Drawing x1 y1 x2 y2 s)
    (hdistance : (s.t.toNat : Int) ≤ (lineOf x1 y1 x2 y2).distance) :
    (Between x1 x2 s.point.1 ∧ Between y1 y2 s.point.2) ∧
      ((s.point.1.toNat : Int) = s.uRow ∧ (s.point.2.toNat : Int) = s.uCol) := by
  obtain ⟨hrow, hrowIn⟩ := h.row.inside hdistance
  obtain ⟨hcol, hcolIn⟩ := h.col.inside hdistance
  exact ⟨⟨hrowIn, hcolIn⟩, hrow, hcol⟩

/-- What is plotted from a round on. -/
structure Rest (x1 y1 x2 y2 : BitVec 16) (s : LoopState) (pixels : List Pixel) : Prop where
  length : (pixels.length : Int) + s.t.toNat = (lineOf x1 y1 x2 y2).distance + 1
  starts : pixels.head? = some s.point
  connected : pixels.IsChain fun p q => Near p.1 q.1 ∧ Near p.2 q.2
  inside : ∀ p ∈ pixels, Between x1 x2 p.1 ∧ Between y1 y2 p.2
  short : 0 < (lineOf x1 y1 x2 y2).distance → pixels.getLast? ≠ some (x2, y2)

/-- The last point of the loop is not the second end. -/
theorem Drawing.short {s : LoopState} (h : Drawing x1 y1 x2 y2 s)
    (hlast : (s.t.toNat : Int) = (lineOf x1 y1 x2 y2).distance)
    (hpos : 0 < (lineOf x1 y1 x2 y2).distance) : s.point ≠ (x2, y2) := by
  obtain ⟨-, hrow, hcol⟩ := h.point (Int.le_of_eq hlast)
  intro heq
  rw [heq] at hrow hcol
  rcases (distance_spec x1 y1 x2 y2).2.2 with hlong | hlong
  · exact h.row.short hlong.symm hpos hlast hrow.symm
  · exact h.col.short hlong.symm hpos hlast hcol.symm

/-- The loop from the head of a round that is to come, by induction on the rounds left. -/
theorem plot_spec (hdistance : (lineOf x1 y1 x2 y2).distance < 65535) :
    ∀ (k : Nat) (s : LoopState), Drawing x1 y1 x2 y2 s →
      (s.t.toNat : Int) + k = (lineOf x1 y1 x2 y2).distance →
      ∃ pixels, plot (lineOf x1 y1 x2 y2) (k + 2) s = some pixels ∧
        Rest x1 y1 x2 y2 s pixels
  | 0, s, h, hk => by
    obtain ⟨hstep, ht⟩ := h.step (by omega)
    have hplot : plot (lineOf x1 y1 x2 y2) 2 s = some [s.point] := by
      rw [plot, if_pos (by omega), plot, if_neg (by omega)]
      rfl
    refine ⟨[s.point], hplot, ⟨by simp; omega, rfl, by simp, ?_, fun hpos => ?_⟩⟩
    · intro p hp
      rw [List.mem_singleton.mp hp]
      exact (h.point (by omega)).1
    · simpa using h.short (by omega) hpos
  | k + 1, s, h, hk => by
    obtain ⟨hstep, ht⟩ := h.step (by omega)
    obtain ⟨pixels, hplot, hrest⟩ := plot_spec hdistance k (s.step (lineOf x1 y1 x2 y2)) hstep
      (by omega)
    have hplot' : plot (lineOf x1 y1 x2 y2) (k + 1 + 2) s = some (s.point :: pixels) := by
      rw [plot, if_pos (by omega), hplot]
      rfl
    obtain ⟨hin, hrow, hcol⟩ := h.point (by omega)
    obtain ⟨-, hrow', hcol'⟩ := hstep.point (by omega)
    obtain ⟨second, pixels, rfl⟩ : ∃ p ps, pixels = p :: ps := by
      cases pixels with
      | nil => exact absurd hrest.starts (by simp)
      | cons p ps => exact ⟨p, ps, rfl⟩
    have hsecond : second = (s.step (lineOf x1 y1 x2 y2)).point := by
      simpa using hrest.starts
    refine ⟨_, hplot', ⟨?_, rfl, ?_, ?_, fun hpos => ?_⟩⟩
    · have := hrest.length
      rw [List.length_cons]
      push_cast
      omega
    · refine List.isChain_cons_cons.mpr ⟨?_, hrest.connected⟩
      rw [hsecond]
      unfold Near
      rw [hrow, hcol, hrow', hcol']
      have hnearRow := moveAxis_near x1 x2 (lineOf x1 y1 x2 y2).distance s.xerr s.uRow
      have hnearCol := moveAxis_near y1 y2 (lineOf x1 y1 x2 y2).distance s.yerr s.uCol
      exact ⟨by rwa [← Int.natAbs_neg, Int.neg_sub], by rwa [← Int.natAbs_neg, Int.neg_sub]⟩
    · intro p hp
      rcases List.mem_cons.mp hp with rfl | hp
      · exact hin
      · exact hrest.inside p hp
    · rw [List.getLast?_cons_cons]
      exact hrest.short hpos

/-- The counter is never more than 65535: the longest lines are drawn for ever. -/
theorem plot_endless {l : Line} (hlong : 65535 ≤ l.distance) (fuel : Nat) (s : LoopState) :
    plot l fuel s = none := by
  induction fuel generalizing s with
  | zero => rfl
  | succ fuel ih =>
    have := s.t.isLt
    rw [plot, if_pos (by omega), ih]
    rfl

/-- More fuel does not change what has been plotted. -/
theorem plot_mono {l : Line} {fuel : Nat} {s : LoopState} {pixels : List Pixel}
    (h : plot l fuel s = some pixels) (k : Nat) : plot l (fuel + k) s = some pixels := by
  induction fuel generalizing s pixels with
  | zero => exact absurd h (by simp [plot])
  | succ fuel ih =>
    rw [Nat.succ_add, plot]
    rw [plot] at h
    split
    next hlt =>
      rw [if_pos hlt] at h
      obtain ⟨rest, hrest, rfl⟩ := Option.map_eq_some_iff.mp h
      rw [ih hrest]
      rfl
    next hlt => rwa [if_neg hlt] at h

end Loop

/-! ## The function -/

/-- Lines shorter than 65535: all octants and slopes. -/
theorem drawLine_path {x1 y1 x2 y2 : BitVec 16}
    (hdistance : (lineOf x1 y1 x2 y2).distance < 65535) :
    ∃ fuel pixels, drawLine fuel x1 y1 x2 y2 = some pixels ∧
      Path x1 y1 x2 y2 pixels ∧
      (pixels.length : Int) = (lineOf x1 y1 x2 y2).distance + 1 ∧
      (0 < (lineOf x1 y1 x2 y2).distance → pixels.getLast? ≠ some (x2, y2)) := by
  have hnonneg : 0 ≤ (lineOf x1 y1 x2 y2).distance :=
    Int.le_trans (toward_spec x1 x2).1 (distance_spec x1 y1 x2 y2).1
  obtain ⟨pixels, hplot, hrest⟩ := plot_spec hdistance
    (lineOf x1 y1 x2 y2).distance.toNat _ (drawing_start x1 y1 x2 y2) (by simp; omega)
  refine ⟨_, pixels, hplot, ⟨?_, hrest.connected, hrest.inside⟩, ?_, hrest.short⟩
  · rw [hrest.starts]
    simp [LoopState.point]
  · simpa using hrest.length

/-- Two runs that end have plotted the same. -/
theorem drawLine_unique {x1 y1 x2 y2 : BitVec 16} {fuel fuel' : Nat} {pixels pixels' : List Pixel}
    (h : drawLine fuel x1 y1 x2 y2 = some pixels)
    (h' : drawLine fuel' x1 y1 x2 y2 = some pixels') : pixels = pixels' := by
  have hmono := plot_mono h fuel'
  rw [Nat.add_comm, plot_mono h' fuel] at hmono
  exact (Option.some.inj hmono).symm

/-- The line is drawn, from its first end to its second. -/
def Connected (x1 y1 x2 y2 : BitVec 16) : Prop :=
  ∃ fuel pixels, drawLine fuel x1 y1 x2 y2 = some pixels ∧ Connects x1 y1 x2 y2 pixels

/-- **When `DrawLine` connects its ends**: if they are one point. -/
theorem drawLine_connects_iff (x1 y1 x2 y2 : BitVec 16) :
    Connected x1 y1 x2 y2 ↔ x1 = x2 ∧ y1 = y2 := by
  have hdistance := distance_spec x1 y1 x2 y2
  constructor
  · rintro ⟨fuel, pixels, hdraw, hconnects⟩
    by_cases hlong : 65535 ≤ (lineOf x1 y1 x2 y2).distance
    · rw [drawLine, plot_endless hlong] at hdraw
      exact absurd hdraw (by simp)
    · obtain ⟨fuel', pixels', hdraw', -, -, hshort⟩ := drawLine_path (Int.lt_of_not_ge hlong)
      rw [← drawLine_unique hdraw hdraw'] at hshort
      have hzero : ¬ 0 < (lineOf x1 y1 x2 y2).distance := fun hpos =>
        hshort hpos hconnects.ends
      have hx := (toward_spec x1 x2).2
      have hy := (toward_spec y1 y2).2
      exact ⟨BitVec.eq_of_toNat_eq (by omega), BitVec.eq_of_toNat_eq (by omega)⟩
  · rintro ⟨rfl, rfl⟩
    have hzero : (lineOf x1 y1 x1 y1).distance = 0 := by
      have hx := (toward_spec x1 x1).2
      have hy := (toward_spec y1 y1).2
      omega
    obtain ⟨fuel, pixels, hdraw, hpath, hlength, -⟩ := drawLine_path
      (show (lineOf x1 y1 x1 y1).distance < 65535 by omega)
    refine ⟨fuel, pixels, hdraw, hpath, ?_⟩
    obtain ⟨p, rfl⟩ := List.length_eq_one_iff.mp (show pixels.length = 1 by omega)
    simpa using hpath.starts

/-- A line of two points: the first is plotted twice, and the second is not. -/
theorem drawLine_stops_short :
    drawLine 3 0 0 1 0 = some [(0, 0), (0, 0)] ∧ ¬ Connected 0 0 1 0 :=
  ⟨by decide, fun ⟨fuel, pixels, hdraw, hconnects⟩ => by
    have hpixels := drawLine_unique hdraw (show drawLine 3 0 0 1 0 = some [(0, 0), (0, 0)] by
      decide)
    have hends := hconnects.ends
    rw [hpixels] at hends
    exact absurd hends (by decide)⟩

end WODrive.Hmi
