import Mathlib.Algebra.Order.Field.Basic
import Mathlib.Data.List.Induction
import Mathlib.Algebra.Order.Ring.Rat
import Mathlib.Tactic.NormNum
import WODrive.LowLevel.NextTimings

/-!
# Endstops (MotorControl/endstop.cpp, timer.hpp)

An endstop reads a pin at every update and reports its level, with the polarity of the
configuration, once its timer has expired; a change of the level resets the timer.

`update_config` hands the debounce time to the timer as its increment, which the
constructor then replaces, and nobody sets a timeout: the timer has always expired
(`Idle`), so every level is reported at once (`Idle.update`). `debounced_iff` says what is
left of the debouncing.

The arithmetic is exact.
-/

namespace WODrive

universe u

variable {K : Type u} [Field K] [LinearOrder K]

/-! ## The timer -/

/-- `Timer<T>` -/
structure Timer (K : Type u) where
  /-- current state -/
  timer : K
  /-- time to count -/
  timeout : K
  /-- added by each update -/
  increment : K
  running : Bool
deriving DecidableEq, Repr

namespace Timer

/-- The member initialisers. -/
def initial : Timer K where
  timer := 0
  timeout := 0
  increment := 0
  running := false

def setTimeout (timeout : K) (t : Timer K) : Timer K := { t with timeout }

def setIncrement (increment : K) (t : Timer K) : Timer K := { t with increment }

def start (t : Timer K) : Timer K := { t with running := true }

def stop (t : Timer K) : Timer K := { t with running := false }

def update (t : Timer K) : Timer K :=
  if t.running then { t with timer := min (t.timer + t.increment) t.timeout } else t

def reset (t : Timer K) : Timer K := { t with timer := 0 }

def expired (t : Timer K) : Bool := decide (t.timer ≥ t.timeout)

end Timer

/-! ## The endstop -/

/-- `TIM_1_8_CLOCK_HZ` and `TIM_1_8_RCR` -/
def tim18ClockHz : Nat := 168000000
def tim18Rcr : Nat := 2

/-- `current_meas_period` -/
def currentMeasPeriod : K :=
  (2 * LowLevel.tim18PeriodClocks.toNat * (tim18Rcr + 1) : Nat) / (tim18ClockHz : Nat)

/-- What an endstop uses of its `Config_t`. -/
structure Endstop.Config where
  debounceMs : BitVec 32
  gpioNum : BitVec 16
  enabled : Bool
  isActiveHigh : Bool
  pullup : Bool
deriving DecidableEq, Repr

structure Endstop (K : Type u) where
  config : Endstop.Config
  endstopState : Bool
  pinState : Bool
  debounceTimer : Timer K
  /-- The pin that `HAL_GPIO_Init` was last called for, and whether it pulls up. -/
  gpioInit : Option (BitVec 16 × Bool)
deriving Repr

namespace Endstop

/-- `set_enabled` -/
def setEnabled (enable : Bool) (e : Endstop K) : Endstop K :=
  let e := { e with debounceTimer := e.debounceTimer.reset }
  if e.config.gpioNum ≠ 0 then
    if enable then
      { e with
        gpioInit := some (e.config.gpioNum, e.config.pullup)
        debounceTimer := e.debounceTimer.start }
    else { e with debounceTimer := e.debounceTimer.stop }
  else e

/-- `update_config` -/
def updateConfig (e : Endstop K) : Endstop K :=
  let e := e.setEnabled e.config.enabled
  { e with
    debounceTimer := e.debounceTimer.setIncrement (e.config.debounceMs.toNat * (1 / 1000)) }

/-- The constructor. -/
def construct (config : Config) : Endstop K :=
  let e : Endstop K := updateConfig
    { config
      endstopState := false
      pinState := false
      debounceTimer := .initial
      gpioInit := none }
  { e with debounceTimer := e.debounceTimer.setIncrement currentMeasPeriod }

/-- The level of the endstop for a level of its pin. -/
def Config.logical (config : Config) (pin : Bool) : Bool :=
  if config.isActiveHigh then pin else !pin

/-- `update`, which reads the level `pin`. -/
def update (pin : Bool) (e : Endstop K) : Endstop K :=
  let e := { e with debounceTimer := e.debounceTimer.update }
  if e.config.enabled then
    let lastPinState := e.pinState
    let e := { e with pinState := pin }
    -- a change restarts the timer
    let e :=
      if e.pinState ≠ lastPinState then { e with debounceTimer := e.debounceTimer.reset } else e
    if e.debounceTimer.expired then { e with endstopState := e.config.logical e.pinState } else e
  else { e with endstopState := false }

/-- The updates that read these levels, one after the other. -/
def after (e : Endstop K) (levels : List Bool) : Endstop K :=
  levels.foldl (fun e level => e.update level) e

@[simp] theorem after_nil (e : Endstop K) : e.after [] = e := rfl

@[simp] theorem after_concat (e : Endstop K) (levels : List Bool) (level : Bool) :
    e.after (levels ++ [level]) = (e.after levels).update level :=
  List.foldl_append

/-- What can be reached through the constructor, changes of the configuration and
updates. -/
inductive Reachable : Endstop K → Prop where
  | construct (config : Config) : Reachable (construct config)
  | configure {e : Endstop K} (config : Config) (h : Reachable e) :
      Reachable (updateConfig { e with config })
  | update {e : Endstop K} (pin : Bool) (h : Reachable e) : Reachable (e.update pin)

/-! ## Debouncing -/

/-- The last `n` of the updates that read `levels` read `level`. -/
def HeldFor (level : Bool) (n : Nat) (levels : List Bool) : Prop :=
  List.replicate n level <:+ levels

/-- `n` update periods span the debounce time. -/
def Config.Spans (K : Type u) [Field K] [LinearOrder K] (config : Config) (n : Nat) : Prop :=
  (config.debounceMs.toNat : K) * (1 / 1000) ≤ n * currentMeasPeriod

/-- The reported level only changes to one that the pin has held for the debounce time,
and does so once it has. -/
structure Debounced (e : Endstop K) (levels : List Bool) : Prop where
  changes : ∀ before level, before ++ [level] <+: levels →
    (e.after (before ++ [level])).endstopState ≠ (e.after before).endstopState →
    (e.after (before ++ [level])).endstopState = e.config.logical level ∧
      ∃ n, HeldFor level n (before ++ [level]) ∧ e.config.Spans K n
  settles : ∀ before level n, before <+: levels → 0 < n → HeldFor level n before →
    e.config.Spans K n → (e.after before).endstopState = e.config.logical level

/-- The invariant: the timer is at its timeout, which is zero. -/
structure Idle (e : Endstop K) : Prop where
  timer : e.debounceTimer.timer = 0
  timeout : e.debounceTimer.timeout = 0
  increment : 0 ≤ e.debounceTimer.increment

variable {e : Endstop K}

/-- The timer stays where it is, and the level is reported at once. -/
theorem Idle.update (h : Idle e) (pin : Bool) :
    Idle (e.update pin) ∧ (e.update pin).config = e.config ∧
      (e.update pin).endstopState = (e.config.enabled && e.config.logical pin) := by
  have htick : e.debounceTimer.update.timer = 0 ∧ e.debounceTimer.update.timeout = 0 ∧
      0 ≤ e.debounceTimer.update.increment := by
    unfold Timer.update
    split
    · refine ⟨?_, h.timeout, h.increment⟩
      show min (e.debounceTimer.timer + e.debounceTimer.increment) e.debounceTimer.timeout = 0
      rw [h.timer, h.timeout, zero_add]
      exact min_eq_right h.increment
    · exact ⟨h.timer, h.timeout, h.increment⟩
  obtain ⟨htimer, htimeout, hincrement⟩ := htick
  unfold Endstop.update
  cases henabled : e.config.enabled with
  | false =>
    simp only [henabled, Bool.false_eq_true, if_false, Bool.false_and]
    exact ⟨⟨htimer, htimeout, hincrement⟩, trivial, trivial⟩
  | true =>
    simp only [henabled, if_true, Bool.true_and]
    split
    · simp only [Timer.expired, Timer.reset, htimeout, ge_iff_le, le_refl, decide_true, if_true]
      exact ⟨⟨rfl, rfl, hincrement⟩, trivial, trivial⟩
    · simp only [Timer.expired, htimer, htimeout, ge_iff_le, le_refl, decide_true, if_true]
      exact ⟨⟨htimer, htimeout, hincrement⟩, trivial, trivial⟩

theorem Idle.after (h : Idle e) (levels : List Bool) :
    Idle (e.after levels) ∧ (e.after levels).config = e.config := by
  induction levels using List.reverseRecOn with
  | nil => exact ⟨h, rfl⟩
  | append_singleton levels level ih =>
    rw [after_concat]
    exact ⟨(ih.1.update level).1, (ih.1.update level).2.1.trans ih.2⟩

theorem Idle.after_concat (h : Idle e) (henabled : e.config.enabled = true) (before : List Bool)
    (level : Bool) : (e.after (before ++ [level])).endstopState = e.config.logical level := by
  obtain ⟨hbefore, hconfig⟩ := h.after before
  rw [Endstop.after_concat, (hbefore.update level).2.2, hconfig, henabled, Bool.true_and]

/-- Two updates that read the same level report the same. -/
theorem Idle.after_of_heldFor (h : Idle e) (henabled : e.config.enabled = true)
    {before : List Bool} {level : Bool} {n : Nat} (hpos : 0 < n) (hheld : HeldFor level n before) :
    (e.after before).endstopState = e.config.logical level := by
  obtain ⟨n, rfl⟩ : ∃ m, n = m + 1 := ⟨n - 1, by omega⟩
  obtain ⟨rest, rfl⟩ := hheld
  rw [List.replicate_succ', ← List.append_assoc]
  exact h.after_concat henabled _ level

section

variable [IsStrictOrderedRing K]

theorem currentMeasPeriod_pos : (0 : K) < currentMeasPeriod := by
  refine div_pos ?_ ?_
  · exact Nat.cast_pos.mpr (by decide)
  · exact Nat.cast_pos.mpr (by decide)

theorem Idle.updateConfig (h : e.debounceTimer.timeout = 0) : Idle e.updateConfig := by
  have hincrement : (0 : K) ≤ e.config.debounceMs.toNat * (1 / 1000) :=
    mul_nonneg (Nat.cast_nonneg _) (div_nonneg zero_le_one (Nat.ofNat_nonneg 1000))
  unfold Endstop.updateConfig setEnabled
  simp only
  split <;> (try split) <;> exact ⟨rfl, h, hincrement⟩

theorem Idle.construct (config : Config) : Idle (construct (K := K) config) := by
  obtain ⟨htimer, htimeout, -⟩ := Idle.updateConfig (K := K)
    (e := ⟨config, false, false, .initial, none⟩) rfl
  exact ⟨htimer, htimeout, currentMeasPeriod_pos.le⟩

theorem Reachable.idle (h : Reachable e) : Idle e := by
  induction h with
  | construct config => exact .construct config
  | configure config _ ih => exact .updateConfig ih.timeout
  | update pin _ ih => exact (ih.update pin).1

theorem currentMeasPeriod_eq : (currentMeasPeriod : K) = 1 / 8000 := by
  have hclocks : 2 * LowLevel.tim18PeriodClocks.toNat * (tim18Rcr + 1) = 21000 := rfl
  unfold currentMeasPeriod tim18ClockHz
  rw [hclocks]
  norm_num

/-- One update is shorter than the shortest debounce time. -/
theorem Config.spans_iff (config : Config) {n : Nat} (hn : n ≤ 1) :
    config.Spans K n ↔ config.debounceMs = 0 := by
  unfold Spans
  constructor
  · intro hspans
    by_contra hne
    have hms : 1 ≤ config.debounceMs.toNat := by
      by_contra hlt
      exact hne (BitVec.eq_of_toNat_eq (Nat.lt_one_iff.mp (Nat.not_le.mp hlt)))
    have hmsK : (1 : K) ≤ config.debounceMs.toNat := by exact_mod_cast hms
    have hnK : (n : K) ≤ 1 := by exact_mod_cast hn
    rw [currentMeasPeriod_eq] at hspans
    have hshort : (n : K) * (1 / 8000) ≤ 1 * (1 / 8000) :=
      mul_le_mul_of_nonneg_right hnK (by norm_num)
    have hlong : (1 : K) * (1 / 1000) ≤ config.debounceMs.toNat * (1 / 1000) :=
      mul_le_mul_of_nonneg_right hmsK (by norm_num)
    have habsurd := hlong.trans (hspans.trans hshort)
    norm_num at habsurd
  · intro hzero
    rw [hzero]
    simpa using mul_nonneg (Nat.cast_nonneg n) currentMeasPeriod_pos.le

/-- With a debounce time, the first update that reports another level would have to be the
second of its kind. -/
theorem Debounced.after_eq {levels : List Bool} (hdebounced : Debounced e levels) (hidle : Idle e)
    (henabled : e.config.enabled = true) (hms : e.config.debounceMs ≠ 0) {before : List Bool}
    (hinit : before <+: levels) : (e.after before).endstopState = e.endstopState := by
  induction before using List.reverseRecOn with
  | nil => rfl
  | append_singleton before level ih =>
    rw [← ih ((List.prefix_append before [level]).trans hinit)]
    by_contra hchange
    obtain ⟨hnew, n, hheld, hspans⟩ := hdebounced.changes before level hinit hchange
    have hn : 1 < n := by
      by_contra hle
      exact hms ((Config.spans_iff _ (Nat.not_lt.mp hle)).mp hspans)
    obtain ⟨n, rfl⟩ : ∃ m, n = m + 1 := ⟨n - 1, by omega⟩
    have hbefore : HeldFor level n before := by
      obtain ⟨rest, hrest⟩ := hheld
      rw [List.replicate_succ', ← List.append_assoc] at hrest
      exact ⟨rest, (List.append_inj' hrest rfl).1⟩
    rw [hnew, hidle.after_of_heldFor henabled (by omega) hbefore] at hchange
    exact hchange rfl

omit [IsStrictOrderedRing K] in
/-- Updates that read nothing but the level reported at first. -/
theorem Idle.after_of_forall (h : Idle e) (henabled : e.config.enabled = true)
    {before : List Bool} (hlevels : ∀ level ∈ before, e.config.logical level = e.endstopState) :
    (e.after before).endstopState = e.endstopState := by
  rcases List.eq_nil_or_concat before with rfl | ⟨before, level, rfl⟩
  · rfl
  · rw [List.concat_eq_append, h.after_concat henabled]
    exact hlevels level (by simp)

/-- **Debouncing**, exactly: an enabled endstop debounces its pin if and only if its
debounce time is 0 ms, or no update reads a level other than the one reported at first. -/
theorem debounced_iff (h : Reachable e) (henabled : e.config.enabled = true)
    (levels : List Bool) :
    Debounced e levels ↔
      e.config.debounceMs = 0 ∨ ∀ level ∈ levels, e.config.logical level = e.endstopState := by
  have hidle := h.idle
  have hsettles : ∀ before level n, before <+: levels → 0 < n → HeldFor level n before →
      e.config.Spans K n → (e.after before).endstopState = e.config.logical level :=
    fun before level n _ hpos hheld _ => hidle.after_of_heldFor henabled hpos hheld
  constructor
  · intro hdebounced
    by_contra hnot
    obtain ⟨hms, hlevels⟩ := not_or.mp hnot
    apply hlevels
    intro level hlevel
    obtain ⟨before, rest, rfl⟩ := List.append_of_mem hlevel
    have hinit : before ++ [level] <+: before ++ level :: rest := ⟨rest, by simp⟩
    rw [← hdebounced.after_eq hidle henabled hms hinit, hidle.after_concat henabled]
  · rintro (hms | hlevels)
    · refine ⟨fun before level _ _ => ⟨hidle.after_concat henabled before level, 1, ?_, ?_⟩,
        hsettles⟩
      · exact List.suffix_append before [level]
      · exact (Config.spans_iff _ le_rfl).mpr hms
    · refine ⟨fun before level hinit hchange => absurd ?_ hchange, hsettles⟩
      have hbefore := (List.prefix_append before [level]).trans hinit
      rw [hidle.after_of_forall henabled fun l hl => hlevels l (hinit.subset hl),
        hidle.after_of_forall henabled fun l hl => hlevels l (hbefore.subset hl)]

end

/-- An enabled endstop that is active high, with this debounce time. -/
def activeHigh (debounceMs : BitVec 32) : Endstop ℚ :=
  construct
    { debounceMs, gpioNum := 3, enabled := true, isActiveHigh := true, pullup := false }

theorem debounced_iff_zero : Debounced (activeHigh 0) [true, false] :=
  (debounced_iff (.construct _) rfl _).mpr (.inl rfl)

/-- With the default of 50 ms the first update that reads a high level reports it. -/
theorem not_debounced : ¬ Debounced (activeHigh 50) [true] := by
  intro h
  have hcond := (debounced_iff (.construct _) rfl _).mp h
  revert hcond
  decide

end Endstop

end WODrive
