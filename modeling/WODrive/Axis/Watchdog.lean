import WODrive.Axis.Deenergized

/-!
# The watchdog of an axis (axis.hpp, axis.cpp)

Each iteration of a control loop counts the watchdog down, and whoever talks to the axis feeds
it.

- `watchdog_expires_iff`: it raises its error exactly if there are more checks than it has been
  fed for;
- `watchdog_deenergizes`: an axis that is not fed in time stops its motor;
- `getWatchdogReset_exact`, `getWatchdogReset_single`: what it is fed, in exact arithmetic and
  in single precision.
-/

namespace WODrive.Axis

open LowLevel

universe u

variable {F : Type u}

/-- The flag of the watchdog. -/
def watchdogExpired (error : AxisError) : Bool := error.getLsbD 11

@[simp] theorem watchdogExpired_or (e f : AxisError) :
    watchdogExpired (e ||| f) = (watchdogExpired e || watchdogExpired f) :=
  BitVec.getLsbD_or

namespace AxisEvent

def isWatchdogCheck : AxisEvent F → Bool
  | .watchdogCheck => true
  | _ => false

/-- The event is none that feeds the watchdog, changes its configuration, or raises or clears
its error. -/
def LeavesWatchdog : AxisEvent F → Prop
  | .watchdogFeed | .configureWatchdog .. | .clearErrors => False
  | .raise errors | .doUpdates errors => watchdogExpired errors = false
  | _ => True

end AxisEvent

namespace Thread

/-! ## Counting down -/

section Parts

variable {s : Thread F} {errors : AxisError} {brake : BrakeCurrent}

theorem expired_addError (herrors : watchdogExpired errors = false) :
    watchdogExpired (s.addError errors).error = watchdogExpired s.error := by
  simp [addError, herrors]

theorem expired_addErrorIf (herrors : watchdogExpired errors = false) (condition : Prop)
    [Decidable condition] :
    watchdogExpired (s.addErrorIf condition errors).error = watchdogExpired s.error := by
  unfold addErrorIf
  split
  · exact expired_addError herrors
  · rfl

theorem enableWatchdog_addErrorIf (condition : Prop) [Decidable condition] :
    (s.addErrorIf condition errors).enableWatchdog = s.enableWatchdog :=
  congrArg (fun frame => frame.2.2.2.1) (frame_addErrorIf (s := s) condition)

theorem watchdogCurrentValue_addErrorIf (condition : Prop) [Decidable condition] :
    (s.addErrorIf condition errors).watchdogCurrentValue = s.watchdogCurrentValue :=
  congrArg (fun frame => frame.2.2.2.2) (frame_addErrorIf (s := s) condition)

theorem expired_setMotorError (error : MotorError) :
    watchdogExpired (s.setMotorError error brake).error = watchdogExpired s.error :=
  expired_addError (by decide)

theorem expired_motorDoChecks :
    watchdogExpired (s.motorDoChecks brake).error = watchdogExpired s.error := by
  unfold motorDoChecks
  split
  · exact expired_setMotorError _
  · rfl

theorem expired_checkEndstops :
    watchdogExpired s.checkEndstops.error = watchdogExpired s.error := by
  unfold checkEndstops
  dsimp only
  split_ifs
  · exact expired_addError (by decide)
  · exact expired_addError (by decide)
  · rfl

/-- The watchdog is on, has been counted down by a number of checks from a value, and has
expired if there were more. -/
structure Counted (reset checks : Nat) (s : Thread F) : Prop where
  enabled : s.enableWatchdog = true
  value : s.watchdogCurrentValue.toNat = reset - checks
  expired : watchdogExpired s.error = decide (reset < checks)

/-- It is counted the same where nothing happens to it. -/
theorem Counted.congr {t : Thread F} {reset checks : Nat} (h : s.Counted reset checks)
    (henabled : t.enableWatchdog = s.enableWatchdog)
    (hvalue : t.watchdogCurrentValue = s.watchdogCurrentValue)
    (hexpired : watchdogExpired t.error = watchdogExpired s.error) : t.Counted reset checks :=
  ⟨henabled.trans h.enabled, (congrArg BitVec.toNat hvalue).trans h.value,
    hexpired.trans h.expired⟩

theorem Counted.watchdogCheck {reset checks : Nat} (h : s.Counted reset checks) :
    s.watchdogCheck.2.Counted reset (checks + 1) := by
  have hvalue := h.value
  unfold Thread.watchdogCheck
  split_ifs with hdisabled hpos
  · simp [h.enabled] at hdisabled
  · have hpos' : 0 < s.watchdogCurrentValue.toNat := hpos
    refine ⟨h.enabled, ?_, ?_⟩
    · show (s.watchdogCurrentValue - 1).toNat = _
      have hone : (1 : BitVec 32) ≤ s.watchdogCurrentValue := BitVec.le_def.mpr hpos'
      rw [BitVec.toNat_sub_of_le hone]
      show s.watchdogCurrentValue.toNat - 1 = _
      omega
    · show watchdogExpired s.error = _
      rw [h.expired]
      apply decide_eq_decide.mpr
      omega
  · have hzero : ¬0 < s.watchdogCurrentValue.toNat := hpos
    refine ⟨h.enabled, ?_, ?_⟩
    · show s.watchdogCurrentValue.toNat = _
      omega
    · have hflag : watchdogExpired ERROR_WATCHDOG_TIMER_EXPIRED = true := by decide
      show watchdogExpired (s.error ||| ERROR_WATCHDOG_TIMER_EXPIRED) = _
      rw [watchdogExpired_or, hflag, Bool.or_true]
      exact (decide_eq_true (by omega)).symm

end Parts

variable [Add F] [Mul F] [LT F] [DecidableLT F] [LE F] [DecidableLE F] [CFloat F]
  {s t u : Thread F} {e : AxisEvent F} {es : List (AxisEvent F)}

omit [Mul F] [LT F] [DecidableLT F] in
theorem expired_checkThermistors :
    watchdogExpired s.checkThermistors.error = watchdogExpired s.error := by
  unfold checkThermistors
  dsimp only
  rw [expired_addErrorIf (by decide), expired_addErrorIf (by decide)]

omit [Mul F] [LT F] [DecidableLT F] in
theorem expired_doChecks (brake : BrakeCurrent) :
    watchdogExpired (s.doChecks brake).2.error = watchdogExpired s.error := by
  unfold doChecks
  dsimp only
  rw [expired_checkEndstops, expired_motorDoChecks, expired_checkThermistors,
    expired_addErrorIf (by decide), expired_addErrorIf (by decide),
    expired_addErrorIf (by decide), expired_addErrorIf (by decide)]

omit [Mul F] [LT F] [DecidableLT F] in
theorem Counted.doChecks {reset checks : Nat} (h : s.Counted reset checks) (brake : BrakeCurrent) :
    (s.doChecks brake).2.Counted reset checks := by
  have hframe : (s.doChecks brake).2.frame = s.frame := frame_doChecks
  exact h.congr (congrArg (fun frame => frame.2.2.2.1) hframe)
    (congrArg (fun frame => frame.2.2.2.2) hframe) (expired_doChecks brake)

/-! ## Runs -/

theorem expired_and {error mask : AxisError} (hmask : watchdogExpired mask = false) :
    watchdogExpired (error &&& ~~~mask) = watchdogExpired error := by
  simp only [watchdogExpired] at hmask ⊢
  rw [BitVec.getLsbD_and, BitVec.getLsbD_not, hmask]
  simp

theorem Counted.step_check {reset checks : Nat} (h : s.Counted reset checks)
    (hstep : Steps s .watchdogCheck t) : t.Counted reset (checks + 1) := by
  have hcounted := h.watchdogCheck
  cases stepped hstep with
  | givesUp | passes => exact hcounted.congr rfl rfl rfl

/-- Nothing else does anything to the watchdog. -/
theorem Counted.step_other {reset checks : Nat} (h : s.Counted reset checks)
    (hstep : Steps s e t) (he : e.LeavesWatchdog) (hcheck : e.isWatchdogCheck = false) :
    t.Counted reset checks := by
  cases stepped hstep with
  | givesUp | passes => cases hcheck
  | arm | enqueueModulationTimings =>
    exact h.congr (enableWatchdog_addErrorIf _) (watchdogCurrentValue_addErrorIf _)
      (expired_addErrorIf (by decide) _)
  | accept | leaveEndstop => exact h.congr rfl rfl (expired_and (by decide))
  | doChecks => exact (h.doChecks _).congr rfl rfl rfl
  | doUpdates | raise => exact h.congr rfl rfl (expired_addError he)
  | timesOut => exact h.congr rfl rfl (expired_addError (by decide))
  | setMotorError => exact h.congr rfl rfl (expired_setMotorError _)
  | clearErrors | watchdogFeed | configureWatchdog => exact he.elim
  | _ => exact h.congr rfl rfl rfl

theorem Counted.run {reset checks : Nat} (h : s.Counted reset checks) (hrun : Run Steps s es t)
    (hes : ∀ e ∈ es, e.LeavesWatchdog) :
    t.Counted reset (checks + es.countP AxisEvent.isWatchdogCheck) := by
  induction hrun with
  | nil => exact h
  | @snoc es t u e hrun he ih =>
    rw [List.forall_mem_append, List.forall_mem_singleton] at hes
    have hcounted := ih hes.1
    rw [List.countP_append, List.countP_singleton, ← Nat.add_assoc]
    cases hcheck : e.isWatchdogCheck with
    | false => exact hcounted.step_other he hes.2 hcheck
    | true =>
      cases e with
      | watchdogCheck => exact hcounted.step_check he
      | _ => cases hcheck

omit [Add F] [LE F] [DecidableLE F] in
/-- A watchdog that has just been fed. -/
theorem fed_counted (henabled : s.enableWatchdog = true)
    (hexpired : watchdogExpired s.error = false) :
    s.watchdogFeed.Counted (getWatchdogReset s.watchdogTimeout).toNat 0 :=
  ⟨henabled, rfl, hexpired⟩

/-- A motor that runs in closed loop control, with a watchdog that has been fed for no time. -/
def hungry : Thread Float32 :=
  { estopped with
    point := .watchdogCheck true true
    error := 0
    enableWatchdog := true }

omit [Add F] [Mul F] [LT F] [DecidableLT F] [LE F] [DecidableLE F] [CFloat F] in
theorem not_clears (h : e.LeavesWatchdog) : ¬e.Clears 11 := by
  have hinvalid : ¬ERROR_INVALID_STATE.getLsbD 11 = true := by decide
  have hendstop : ¬ERROR_MIN_ENDSTOP_PRESSED.getLsbD 11 = true := by decide
  cases e with
  | accept state => exact hinvalid
  | leaveEndstop => exact hendstop
  | clearErrors => exact h.elim
  | _ => exact id

/-- A check that finds the watchdog run down ends the control loop. -/
theorem quiet_of_check {reset checks : Nat} (h : s.Counted reset checks) (hdown : reset ≤ checks)
    (hstep : Steps s .watchdogCheck t) : t.Quiet 11 := by
  have hcounted := h.step_check hstep
  have herror : t.error.getLsbD 11 = true := by
    rw [← watchdogExpired, hcounted.expired, decide_eq_true_iff]
    exact Nat.lt_succ_of_le hdown
  refine ⟨herror, ?_⟩
  rintro ⟨hidle, hask⟩
  cases reached_of_moves hstep trivial with
  | outside hchecks hupdates hhandler => exact hask.elim (hupdates true true) hhandler
  | watchdogCheck checksOk updatesOk hstate hfrom hpoint hok =>
    rw [hstate] at hidle
    obtain ⟨-, -, hfine⟩ := hok hidle
    have hvalue := h.value
    have hzero : ¬0 < s.watchdogCurrentValue := by
      rw [BitVec.lt_def]
      show ¬0 < s.watchdogCurrentValue.toNat
      omega
    rw [Thread.watchdogCheck, if_neg (by simp [h.enabled]), if_neg hzero] at hfine
    cases hfine

/-- An axis that has been checked more often than its watchdog was fed for is quiet. -/
theorem starved_quiet (henabled : s.enableWatchdog = true)
    (hexpired : watchdogExpired s.error = false) (hrun : Run Steps s.watchdogFeed es t)
    (hes : ∀ e ∈ es, e.LeavesWatchdog)
    (hchecks : (getWatchdogReset s.watchdogTimeout).toNat < es.countP AxisEvent.isWatchdogCheck) :
    t.Quiet 11 := by
  induction hrun with
  | nil => exact absurd hchecks (Nat.not_lt_zero _)
  | @snoc es t u e hrun he ih =>
    rw [List.forall_mem_append, List.forall_mem_singleton] at hes
    rw [List.countP_append, List.countP_singleton] at hchecks
    by_cases hbefore : (getWatchdogReset s.watchdogTimeout).toNat <
        es.countP AxisEvent.isWatchdogCheck
    · exact (ih hes.1 hbefore).step he (not_clears hes.2)
    · have hcounted := (fed_counted henabled hexpired).run hrun hes.1
      cases e with
      | watchdogCheck =>
        exact quiet_of_check hcounted (Nat.zero_add _ ▸ Nat.le_of_lt_succ hchecks) he
      | _ => exact absurd hchecks hbefore

/-- **An axis that is not fed in time stops its motor**, two updates of the timings after more
checks than it was fed for. Once it has expired, it does not help to feed it. -/
theorem watchdog_deenergizes {first second : ControlEvent} {es₁ es₂ es₃ : List (AxisEvent F)}
    (henabled : s.enableWatchdog = true) (hexpired : watchdogExpired s.error = false)
    (hrun : Run Steps s.watchdogFeed (es ++
      (es₁ ++ [.interrupt first] ++ es₂ ++ [.interrupt second] ++ es₃)) t)
    (hes : ∀ e ∈ es, e.LeavesWatchdog)
    (hchecks : (getWatchdogReset s.watchdogTimeout).toNat < es.countP AxisEvent.isWatchdogCheck)
    (hkept : ∀ e ∈ es₁ ++ es₂ ++ es₃, ¬e.Clears 11)
    (hfirst : first.Updates s.axisNum) (hsecond : second.Updates s.axisNum) :
    t.Deenergized 11 := by
  obtain ⟨u, hstarving, hrest⟩ := hrun.split
  have haxis : u.axisNum = s.axisNum := (run_axisNum hstarving).trans rfl
  exact (starved_quiet henabled hexpired hstarving hes hchecks).deenergizes hrest hkept
    (haxis ▸ hfirst) (haxis ▸ hsecond)

/-- It is fed too late, and switched off. -/
def fedLate : List (AxisEvent Float32) :=
  [.watchdogCheck] ++ ([.watchdogFeed] ++ [.interrupt updateOfM0] ++
    [.configureWatchdog false (CFloat.ofNat 0)] ++ [.interrupt updateOfM0] ++ estopRetry)

theorem watchdog_deenergizes_hungry :
    ∃ t, Run Steps hungry.watchdogFeed fedLate t ∧ t.currentState = .IDLE ∧
      t.Deenergized 11 := by
  have hcomputes : (fedLate.foldlM step hungry.watchdogFeed).map currentState = some .IDLE := by
    decide +kernel
  obtain ⟨t, hrun, hidle⟩ := Run.exists_foldlM hcomputes
  refine ⟨t, hrun, hidle,
    watchdog_deenergizes rfl (by decide) hrun ?_ (by decide +kernel) ?_ rfl rfl⟩
  · simp [AxisEvent.LeavesWatchdog]
  · simp [AxisEvent.Clears, estopRetry, ERROR_INVALID_STATE]

end Thread

/-! ## What it is fed -/

section Exact

variable {K : Type u} [Field K] [LinearOrder K] [IsStrictOrderedRing K] [FloorRing K]

attribute [local instance] CFloat.exact

/-- In exact arithmetic it is fed for the timeout, limited to what fits. -/
theorem getWatchdogReset_exact (timeout : K) :
    ((Thread.getWatchdogReset timeout).toNat : Int) = ⌊max 0 (min 536803 timeout) * 8000⌋ := by
  have hclamp : stdClamp timeout (CFloat.ofNat 0 : K) (CFloat.ofNat 536803) =
      max 0 (min 536803 timeout) := by
    have hle : ((0 : Nat) : K) ≤ (536803 : Nat) := by exact_mod_cast Nat.zero_le _
    show stdClamp timeout ((0 : Nat) : K) ((536803 : Nat) : K) = _
    rw [clamp_exact hle]
    norm_num
  have hge : (0 : K) ≤ max 0 (min 536803 timeout) * 8000 :=
    mul_nonneg (le_max_left _ _) (by norm_num)
  have hle : max 0 (min 536803 timeout) * 8000 ≤ ((4294424000 : Int) : K) := by
    have hmax : max 0 (min 536803 timeout) ≤ (536803 : K) :=
      max_le (by norm_num) (min_le_left _ _)
    push_cast
    linarith
  have hfloor : ⌊max 0 (min 536803 timeout) * 8000⌋ ≤ 4294424000 :=
    (Int.floor_mono hle).trans_eq (Int.floor_intCast _)
  have hfloor' : 0 ≤ ⌊max 0 (min 536803 timeout) * 8000⌋ := Int.floor_nonneg.mpr hge
  have hreset : Thread.getWatchdogReset timeout =
      BitVec.ofInt 32 ⌊max 0 (min 536803 timeout) * 8000⌋ := by
    show BitVec.ofInt 32 (CFloat.toInt (stdClamp timeout (CFloat.ofNat 0 : K)
      (CFloat.ofNat 536803) * CFloat.ofNat 8000)) = _
    have hrate : (CFloat.ofNat 8000 : K) = 8000 := by
      show ((8000 : Nat) : K) = 8000
      norm_num
    rw [hclamp, hrate]
    show BitVec.ofInt 32 (if max 0 (min 536803 timeout) * 8000 < 0 then _ else _) = _
    rw [if_neg hge.not_gt]
  rw [hreset, BitVec.toNat_ofInt]
  generalize ⌊max 0 (min 536803 timeout) * 8000⌋ = n at hfloor hfloor'
  omega

end Exact

open Binary32 in
/-- In single precision too it is fed for the integer part of what is computed, unless the timeout
is not a number: the number of checks fits. -/
theorem getWatchdogReset_single {timeout : Float32} (htimeout : timeout.isNaN = false) :
    let product := stdClamp timeout (CFloat.ofNat 0) (CFloat.ofNat 536803) * CFloat.ofNat 8000
    product.isFinite = true ∧
      ((Thread.getWatchdogReset timeout).toNat : Int) = ⌊toRat product⌋ := by
  intro product
  have hlimit : toRat (CFloat.ofNat 536803) = 536803 := by
    rw [toRat_of_unpack (m := 536803 * 2 ^ 4) (e := -4) rfl]
    norm_num
  have hrate : toRat (CFloat.ofNat 8000) = 8000 := by
    rw [toRat_of_unpack (m := 8000 * 2 ^ 11) (e := -11) rfl]
    norm_num
  -- the product of the limit, rounded
  have hmost : toRat (CFloat.ofNat 4294424064) = 4294424064 := by
    rw [toRat_of_unpack (m := 16775094) (e := 8) rfl]
    norm_num
  have hclamp : Between (CFloat.ofNat 0) (CFloat.ofNat 536803)
      (stdClamp timeout (CFloat.ofNat 0) (CFloat.ofNat 536803)) :=
    clamp_between rfl rfl (by rw [toRat_zero, hlimit]; norm_num) htimeout
  have hge := hclamp.ge
  have hle := hclamp.le
  rw [toRat_zero] at hge
  rw [hlimit] at hle
  have hproduct : Between (CFloat.ofNat 0) (CFloat.ofNat 4294424064) product := by
    refine mul_mem rfl rfl hclamp.isFinite rfl ?_ ?_
    · rw [toRat_zero, hrate]
      linarith
    · rw [hmost, hrate]
      linarith
  have hnonneg : 0 ≤ toRat product := toRat_zero ▸ hproduct.ge
  obtain ⟨hfrom, hto⟩ := truncate_mem (n := 0) (k := 4294424064) hproduct (by norm_num)
    (by rw [toRat_zero]; norm_num) (by rw [hmost]; norm_num)
  refine ⟨hproduct.isFinite, ?_⟩
  rw [← truncate_eq_floor hproduct.isFinite hnonneg]
  show ((BitVec.ofInt 32 (truncate product)).toNat : Int) = _
  rw [BitVec.toNat_ofInt]
  generalize truncate product = n at hfrom hto ⊢
  omega

end WODrive.Axis
