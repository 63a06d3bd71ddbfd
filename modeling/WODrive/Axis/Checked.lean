import WODrive.Axis.ControlLoop

/-!
# Every timing has been checked for

Whatever the other threads and the interrupts do meanwhile, a procedure only asks for timings
in an iteration in which it has found nothing wrong.

- `Reached`: how the points of an iteration are reached;
- `timings_checked`: timings are asked for after checks that found a healthy device and no error,
  updates after which there was none, and a watchdog that had not expired.
-/

namespace WODrive.Axis

open LowLevel

universe u

variable {F : Type u}

/-- A step of the thread, other than a call that an update handler makes. -/
def AxisEvent.Moves : AxisEvent F → Prop
  | .arm _ | .accept _ | .advance _ | .leaveEndstop | .runControlLoop | .whileCondition
  | .doChecks _ | .doUpdates _ | .watchdogCheck | .updateHandler _ | .waitForCurrentMeas .. => True
  | _ => False

namespace Thread

variable [Add F] [Mul F] [LT F] [DecidableLT F] [LE F] [DecidableLE F] [CFloat F]
  {s t u : Thread F} {e : AxisEvent F} {es : List (AxisEvent F)}

/-- Nobody else moves the thread. -/
theorem step_of_not_moves (h : Steps s e t) (he : ¬e.Moves) :
    t.point = s.point ∧ t.currentState = s.currentState := by
  cases stepped h with
  | enqueueModulationTimings hpoint hidle =>
    exact ⟨point_addErrorIf _, currentState_addErrorIf _⟩
  | setMotorError | raise | clearErrors | request | watchdogFeed | measure | configureWatchdog
  | interrupt => exact ⟨rfl, rfl⟩
  | _ => exact absurd trivial he

/-- How a point of an iteration is reached, from its checks to its update handler. -/
inductive Reached (s t : Thread F) : AxisEvent F → Prop where
  | outside {e : AxisEvent F} (hchecks : ∀ c, t.point ≠ .doUpdates c)
      (hupdates : ∀ c d, t.point ≠ .watchdogCheck c d) (hhandler : t.point ≠ .updateHandler) :
      Reached s t e
  | doChecks (brake : BrakeCurrent) (hstate : t.currentState = s.currentState)
      (hpoint : t.point = .doUpdates (s.doChecks brake).1) : Reached s t (.doChecks brake)
  | doUpdates (errors : AxisError) (checksOk : Bool) (hstate : t.currentState = s.currentState)
      (hfrom : s.point = .doUpdates checksOk)
      (hpoint : t.point = .watchdogCheck checksOk (s.doUpdates errors).1) :
      Reached s t (.doUpdates errors)
  | watchdogCheck (checksOk updatesOk : Bool) (hstate : t.currentState = s.currentState)
      (hfrom : s.point = .watchdogCheck checksOk updatesOk) (hpoint : t.point = .updateHandler)
      (hok : s.currentState ≠ .IDLE →
        checksOk = true ∧ updatesOk = true ∧ s.watchdogCheck.1 = true) :
      Reached s t .watchdogCheck

omit [Mul F] [LT F] [DecidableLT F] in
theorem reached_of_left (h : t.point = .arm ∨ t.point = .procedure) : Reached s t e := by
  rcases h with h | h
  · exact .outside (by simp [h]) (by simp [h]) (by simp [h])
  · exact .outside (by simp [h]) (by simp [h]) (by simp [h])

theorem reached_of_moves (h : Steps s e t) (he : e.Moves) : Reached s t e := by
  cases stepped h with
  | arm => exact reached_of_left (.inr rfl)
  | accept hpoint | advance hpoint | leaveEndstop hpoint => exact reached_of_left (.inr hpoint)
  | requested | givesUp | timesOut | ends => exact reached_of_left (leave_point _)
  | idles | runs | goesOn | updateHandler | repeats =>
    exact .outside (by simp) (by simp) (by simp)
  | doChecks => exact .doChecks _ (currentState_doChecks _) rfl
  | doUpdates hpoint => exact .doUpdates _ _ rfl hpoint rfl
  | passes hpoint hok => exact .watchdogCheck _ _ currentState_watchdogCheck hpoint rfl hok
  | _ => exact he.elim

/-! ## Runs -/

/-- A point is entered by a step of the thread, and left alone by all that follows. -/
theorem exists_entering (hrun : Run Steps s es t) (hpoint : t.point ≠ s.point) :
    ∃ before e rest u v, es = before ++ e :: rest ∧ Run Steps s before u ∧ Steps u e v ∧
      e.Moves ∧ (∀ f ∈ rest, ¬f.Moves) ∧ v.point = t.point ∧ v.currentState = t.currentState := by
  induction hrun with
  | nil => exact absurd rfl hpoint
  | @snoc es t u e hrun he ih =>
    by_cases hmoves : e.Moves
    · exact ⟨es, e, [], t, u, rfl, hrun, he, hmoves, by simp, rfl, rfl⟩
    · obtain ⟨hsame, hstate⟩ := step_of_not_moves he hmoves
      rw [hsame] at hpoint
      obtain ⟨before, f, rest, v, w, rfl, hbefore, hf, hfmoves, hrest, hw, hwstate⟩ := ih hpoint
      refine ⟨before, f, rest ++ [e], v, w, by simp, hbefore, hf, hfmoves, ?_, hw.trans hsame.symm,
        hwstate.trans hstate.symm⟩
      intro g hg
      rcases List.mem_append.mp hg with hg | hg
      · exact hrest g hg
      · rw [List.mem_singleton.mp hg]
        exact hmoves

/-- The iteration that the events end in has found nothing wrong. -/
def Passed (s : Thread F) (es : List (AxisEvent F)) : Prop :=
  ∃ before brake mid errors late rest u v w,
    es = before ++ .doChecks brake :: mid ++ .doUpdates errors :: late ++ .watchdogCheck :: rest ∧
    (∀ e ∈ mid ++ late ++ rest, ¬e.Moves) ∧
    Run Steps s before u ∧ u.error = 0 ∧ u.Healthy ∧ u.currentState ≠ .IDLE ∧
    Run Steps s (before ++ .doChecks brake :: mid) v ∧ (v.addError errors).error = 0 ∧
    Run Steps s (before ++ .doChecks brake :: mid ++ .doUpdates errors :: late) w ∧
    w.watchdogCheck.1 = true

/-- In front of its checks the thread has found a healthy device. -/
theorem checks_passed (hs : ∀ c, s.point ≠ .doUpdates c) (hrun : Run Steps s es t)
    (hpoint : t.point = .doUpdates true) :
    ∃ before brake rest u, es = before ++ .doChecks brake :: rest ∧ (∀ e ∈ rest, ¬e.Moves) ∧
      Run Steps s before u ∧ u.error = 0 ∧ u.Healthy ∧ u.currentState = t.currentState := by
  obtain ⟨before, e, rest, u, v, rfl, hbefore, he, hmoves, hrest, hv, hstate⟩ :=
    exists_entering hrun fun hsame => hs true (hsame.symm.trans hpoint)
  rw [hpoint] at hv
  cases reached_of_moves he hmoves with
  | outside hchecks => exact absurd hv (hchecks true)
  | doChecks brake hstate' hpoint' =>
    obtain ⟨herror, hhealthy⟩ := doChecks_iff.mp (ThreadPoint.doUpdates.inj (hpoint'.symm.trans hv))
    exact ⟨before, brake, rest, u, rfl, hrest, hbefore, herror, hhealthy,
      hstate'.symm.trans hstate⟩
  | doUpdates errors checksOk hstate' hfrom hpoint' => cases hpoint'.symm.trans hv
  | watchdogCheck checksOk updatesOk hstate' hfrom hpoint' => cases hpoint'.symm.trans hv

/-- In front of its watchdog check, it has also found no error after the updates. -/
theorem updates_passed (hs : s.point = .arm) (hrun : Run Steps s es t)
    (hpoint : t.point = .watchdogCheck true true) :
    ∃ before brake mid errors rest u v,
      es = before ++ .doChecks brake :: mid ++ .doUpdates errors :: rest ∧
      (∀ e ∈ mid ++ rest, ¬e.Moves) ∧ Run Steps s before u ∧ u.error = 0 ∧ u.Healthy ∧
      Run Steps s (before ++ .doChecks brake :: mid) v ∧ (v.addError errors).error = 0 ∧
      u.currentState = t.currentState := by
  obtain ⟨es, e, rest, v, w, rfl, hrun', he, hmoves, hrest, hw, hstate⟩ :=
    exists_entering hrun fun hsame => by simp [hs, hpoint] at hsame
  rw [hpoint] at hw
  cases reached_of_moves he hmoves with
  | outside hchecks hupdates => exact absurd hw (hupdates true true)
  | doChecks brake hstate' hpoint' => cases hpoint'.symm.trans hw
  | doUpdates errors checksOk hstate' hfrom hpoint' =>
    obtain ⟨rfl, hok⟩ := ThreadPoint.watchdogCheck.inj (hpoint'.symm.trans hw)
    obtain ⟨before, brake, mid, u, rfl, hmid, hbefore, herror, hhealthy, hu⟩ :=
      checks_passed (by simp [hs]) hrun' hfrom
    refine ⟨before, brake, mid, errors, rest, u, v, rfl, ?_, hbefore, herror, hhealthy, hrun',
      of_decide_eq_true hok, hu.trans (hstate'.symm.trans hstate)⟩
    exact fun f hf => (List.mem_append.mp hf).elim (hmid f) (hrest f)
  | watchdogCheck checksOk updatesOk hstate' hfrom hpoint' => cases hpoint'.symm.trans hw

theorem handler_passed (hs : s.point = .arm) (hrun : Run Steps s es t)
    (hpoint : t.point = .updateHandler) (hstate : t.currentState ≠ .IDLE) : Passed s es := by
  obtain ⟨es, e, rest, w, x, rfl, hrun', he, hmoves, hrest, hx, hxstate⟩ :=
    exists_entering hrun fun hsame => by simp [hs, hpoint] at hsame
  rw [hpoint] at hx
  cases reached_of_moves he hmoves with
  | outside hchecks hupdates hhandler => exact absurd hx hhandler
  | doChecks brake hstate' hpoint' => cases hpoint'.symm.trans hx
  | doUpdates errors checksOk hstate' hfrom hpoint' => cases hpoint'.symm.trans hx
  | watchdogCheck checksOk updatesOk hstate' hfrom hpoint' hok =>
    have hw : w.currentState = t.currentState := hstate'.symm.trans hxstate
    obtain ⟨rfl, rfl, hwatchdog⟩ := hok (hw ▸ hstate)
    obtain ⟨before, brake, mid, errors, late, u, v, rfl, hmid, hbefore, herror, hhealthy, hchecked,
      hupdated, hu⟩ := updates_passed hs hrun' hfrom
    refine ⟨before, brake, mid, errors, late, rest, u, v, w, rfl, ?_, hbefore, herror, hhealthy,
      hu.trans hw ▸ hstate, hchecked, hupdated, hrun', hwatchdog⟩
    exact fun f hf => (List.mem_append.mp hf).elim (hmid f) (hrest f)

/-- **Every timing has been checked for.** Timings are only asked for in an iteration whose
checks, updates and watchdog were well, whatever the others do. -/
theorem timings_checked (hs : s.point = .arm) (hrun : Run Steps s es t) {svm : Option Timings}
    {brake : BrakeCurrent} (henqueue : Steps t (.enqueueModulationTimings svm brake) u) :
    Passed s es := by
  simp only [Steps, step] at henqueue
  split at henqueue
  next h => exact handler_passed hs hrun h.1 h.2
  next => cases henqueue

/-- Readings of a device that is well. -/
def healthyReadings : Readings Float32 where
  vbusVoltage := CFloat.ofNat 24
  dcBusUndervoltageTripLevel := CFloat.ofNat 8
  dcBusOvervoltageTripLevel := CFloat.ofNat 59
  fetThermistor := ⟨CFloat.ofNat 40, CFloat.ofNat 100, CFloat.ofNat 120, true, false⟩
  motorThermistor := ⟨CFloat.ofNat 40, CFloat.ofNat 100, CFloat.ofNat 120, false, false⟩
  nFault := true
  minEndstopEnabled := false
  minEndstopState := false
  maxEndstopEnabled := false
  maxEndstopState := false

/-- The thread of the first axis when it is started, with the brake resistor armed. -/
def powerUp : Thread Float32 where
  axisNum := axis0
  point := .arm
  currentState := .UNDEFINED
  requestedState := .UNDEFINED
  error := 0
  readings := healthyReadings
  enableWatchdog := false
  watchdogTimeout := CFloat.ofNat 0
  watchdogCurrentValue := 0
  loopCounter := 0
  control := (Control.powerUp resetState).step .armBrakeResistor

/-- It arms its motor, and gets to the update handler of closed loop control. -/
def firstIteration : List (AxisEvent Float32) :=
  [.arm true, .advance .CLOSED_LOOP_CONTROL, .runControlLoop, .whileCondition,
    .doChecks (.highOn 4096), .doUpdates 0,
    .interrupt (.pwmTrigAdcCb .hadc3 true false (.highOn 4096)), .watchdogCheck]

theorem timings_checked_closedLoop : Passed powerUp firstIteration := by
  have hcomputes : (firstIteration.foldlM step powerUp).map
      (fun s => (s.point, s.currentState)) = some (.updateHandler, .CLOSED_LOOP_CONTROL) := by
    decide +kernel
  obtain ⟨t, hrun, ht⟩ := Run.exists_foldlM hcomputes
  obtain ⟨hpoint, hstate⟩ := Prod.mk.inj ht
  have hcloses : t.currentState ≠ .IDLE := by
    rw [hstate]
    decide
  have henqueue : Steps t (.enqueueModulationTimings none (.highOn 4096)) _ :=
    if_pos ⟨hpoint, hcloses⟩
  exact timings_checked rfl hrun henqueue

end Thread

end WODrive.Axis
