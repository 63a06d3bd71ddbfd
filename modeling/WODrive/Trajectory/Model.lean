import Mathlib.Algebra.Order.Field.Basic
import WODrive.Library.Numerals

/-!
# Trapezoidal trajectories (trapTraj.cpp)

A trajectory from a position and a velocity to rest at another position: a ramp to the
velocity `Vr_`, a part at this velocity and a ramp to zero. `planTrapezoidal` decides on
the durations, and `eval` reads the trajectory off at a time.

The arithmetic is exact, with the square root as a parameter.
-/

namespace WODrive.Trajectory

universe u

variable {K : Type u} [Field K] [LinearOrder K]

/-- What `planTrapezoidal` leaves in a `TrapezoidalTrajectory`. -/
structure TrapezoidalTrajectory (K : Type u) where
  Xi : K
  Xf : K
  Vi : K
  Ar : K
  Vr : K
  Dr : K
  Ta : K
  Tv : K
  Td : K
  Tf : K
  yAccel : K
deriving DecidableEq, Repr

/-- `Step_t` -/
structure Step (K : Type u) where
  Y : K
  Yd : K
  Ydd : K
deriving DecidableEq, Repr

/-- `sign_hard`: the sign of 0 is positive. -/
def signHard (val : K) : K := if val < 0 then -1 else 1

/-- `std::copysign` -/
def copysign (mag sgn : K) : K := if sgn < 0 then -|mag| else |mag|

/-- The rest of the values used at evaluation time. -/
def fillIn (Xf Xi Vi Ar Vr Dr Ta Tv Td : K) : TrapezoidalTrajectory K where
  Xi := Xi
  Xf := Xf
  Vi := Vi
  Ar := Ar
  Vr := Vr
  Dr := Dr
  Ta := Ta
  Tv := Tv
  Td := Td
  Tf := Ta + Tv + Td
  -- position at the end of the first ramp
  yAccel := Xi + Vi * Ta + 1 / 2 * Ar * (Ta * Ta)

/-- `TrapezoidalTrajectory::planTrapezoidal` -/
def planTrapezoidal (sqrtf : K → K) (Xf Xi Vi Vmax Amax Dmax : K) : TrapezoidalTrajectory K :=
  -- distance to travel, and what it takes to stop
  let dX := Xf - Xi
  let stopDist := Vi * Vi / (2 * Dmax)
  let dXstop := copysign stopDist Vi
  let s := signHard (dX - dXstop)
  let Dr := -s * Dmax
  let Vr := s * Vmax
  -- faster than cruising: slow down instead
  let Ar := if s * Vi > s * Vr then -s * Amax else s * Amax
  -- to and from cruising
  let Ta := (Vr - Vi) / Ar
  let Td := -Vr / Dr
  let dXmin := 1 / 2 * Ta * (Vr + Vi) + 1 / 2 * Td * Vr
  if s * dX < s * dXmin then
    -- short move
    let Vr := s * sqrtf (max ((Dr * (Vi * Vi) + 2 * Ar * Dr * dX) / (Dr - Ar)) 0)
    fillIn Xf Xi Vi Ar Vr Dr (max 0 ((Vr - Vi) / Ar)) 0 (max 0 (-Vr / Dr))
  else
    -- long move
    fillIn Xf Xi Vi Ar Vr Dr Ta ((dX - dXmin) / Vr) Td

/-- `TrapezoidalTrajectory::eval` -/
def eval (p : TrapezoidalTrajectory K) (t : K) : Step K :=
  if t < 0 then
    { Y := p.Xi, Yd := p.Vi, Ydd := 0 }
  else if t < p.Ta then
    { Y := p.Xi + p.Vi * t + 1 / 2 * p.Ar * (t * t), Yd := p.Vi + p.Ar * t, Ydd := p.Ar }
  else if t < p.Ta + p.Tv then
    { Y := p.yAccel + p.Vr * (t - p.Ta), Yd := p.Vr, Ydd := 0 }
  else if t < p.Tf then
    let td := t - p.Tf
    { Y := p.Xf + 1 / 2 * p.Dr * (td * td), Yd := p.Dr * td, Ydd := p.Dr }
  else
    { Y := p.Xf, Yd := 0, Ydd := 0 }

end WODrive.Trajectory
