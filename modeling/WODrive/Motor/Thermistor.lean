import WODrive.Library.Signs

/-!
# Thermistors (thermistor.cpp)

A thermistor reports when it is too hot, and lowers the current limit before.

- `currentLimit_mem`: the limit is a number between 0 and the one that it lowers, whatever the
  temperature;
- `currentLimit_hot`: nothing is left of it at the upper limit, or without a temperature.
-/

namespace WODrive.Motor

universe u

variable {F : Type u}

/-- `ThermistorCurrentLimiter` -/
structure Thermistor (F : Type u) where
  temperature : F
  tempLimitLower : F
  tempLimitUpper : F
  enabled : Bool
  /-- `error_`, of which `ERROR_OVER_TEMP` is the only flag -/
  overTemp : Bool

namespace Thermistor

variable [Add F] [LE F] [DecidableLE F] [CFloat F]

/-- It is hotter than it may be. A temperature that is not a number is not. -/
def TooHot (t : Thermistor F) : Prop :=
  t.enabled = true ∧ t.tempLimitUpper + CFloat.ofNat 5 ≤ t.temperature

instance (t : Thermistor F) : Decidable t.TooHot := inferInstanceAs (Decidable (_ ∧ _))

/-- `do_checks`, which adds to the errors of the axis if it returns false. -/
def doChecks (t : Thermistor F) : Bool × Thermistor F :=
  if t.TooHot then (false, { t with overTemp := true }) else (true, t)

section

variable [Sub F] [Mul F] [Div F] [LT F] [DecidableLT F]

/-- `get_current_limit` -/
def getCurrentLimit (t : Thermistor F) (baseCurrentLim : F) : F :=
  if !t.enabled then baseCurrentLim
  else
    let tempMargin := t.tempLimitUpper - t.temperature
    let deratingRange := t.tempLimitUpper - t.tempLimitLower
    let thermalCurrentLim := baseCurrentLim * (tempMargin / deratingRange)
    -- funny polarity to also catch NaN
    let thermalCurrentLim :=
      if ¬thermalCurrentLim ≥ CFloat.ofNat 0 then CFloat.ofNat 0 else thermalCurrentLim
    stdMin thermalCurrentLim baseCurrentLim

end

/-! ## Single precision -/

open Binary32

variable {t : Thermistor Float32} {base : Float32}

/-- The limit is a number between 0 and the one that it lowers. -/
theorem currentLimit_mem (t : Thermistor Float32) (hbase : 0 ≤ base) :
    0 ≤ t.getCurrentLimit base ∧ t.getCurrentLimit base ≤ base := by
  obtain ⟨hzero, hnan⟩ := not_isNaN_of_le hbase
  unfold getCurrentLimit
  dsimp only
  split
  · exact ⟨hbase, le_rfl_of_not_isNaN hnan⟩
  · split
    next => exact ⟨le_stdMin (le_rfl_of_not_isNaN hzero) hbase, stdMin_le_right hzero hnan⟩
    next hnot =>
      have hge := not_not.mp hnot
      exact ⟨le_stdMin hge hbase, stdMin_le_right (not_isNaN_of_le hge).2 hnan⟩

/-- Nothing is left at the upper limit, or without a temperature. -/
theorem currentLimit_hot (hbase : 0 ≤ base) (henabled : t.enabled = true)
    (hrange : t.tempLimitLower < t.tempLimitUpper) (hhot : ¬t.temperature < t.tempLimitUpper) :
    ¬0 < t.getCurrentLimit base := by
  have hmargin : ¬0 < t.tempLimitUpper - t.temperature := not_pos_sub hhot
  have hquotient := not_pos_div hmargin (pos_sub hrange)
  have hthermal := not_pos_mul hbase hquotient
  have hlimit : t.getCurrentLimit base = stdMin _ base := if_neg (by simp [henabled])
  rw [hlimit]
  refine not_pos_stdMin ?_
  split
  · exact fun h => absurd h (by decide)
  · exact hthermal

end Thermistor

end WODrive.Motor
