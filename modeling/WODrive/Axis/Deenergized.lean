import WODrive.Axis.Checked

/-!
# Errors stop the motor

An error that nobody clears ends the control loop at the latest when the update handler that is
running has returned and its iteration is over; if it is raised by the checks, it is left before
that. No procedure asks for timings after that, so that the slot of the motor stays empty once it
has been loaded, and the update after that floats the phases.

- `Quiet`: the axis has an error, and is not about to ask for timings;
- `error_deenergizes`: after the end of an iteration and two updates the outputs are off, and
  stay off as long as the error is there.
-/

namespace WODrive.LowLevel

variable {low : State} {s : Control} {m : Fin axisCount} {e : ControlEvent}

/-! ## Outputs that stay off -/

theorem Motor.KeptOrFaulted.moe {r t : Motor} (h : r.KeptOrFaulted t) (hoff : r.moe = false) :
    t.moe = false := by
  obtain rfl | ⟨error, -, rfl⟩ := h
  · exact hoff
  · rfl

theorem updateMotor_moe {f : Motor → Motor}
    (hf : ∀ motor, motor.moe = false → (f motor).moe = false)
    (hoff : (low.motors m).moe = false) (i : Fin axisCount) :
    ((low.updateMotor i f).motors m).moe = false := by
  by_cases him : m = i
  · subst him
    rw [updateMotor_self]
    exact hf _ hoff
  · rw [updateMotor_other f him]
    exact hoff

theorem disarmMotorPwm_moe (hoff : (low.motors m).moe = false) (i : Fin axisCount) :
    ((safetyCriticalDisarmMotorPwm i low).2.motors m).moe = false := by
  simp only [safetyCriticalDisarmMotorPwm]
  refine updateMotor_moe ?_ hoff i
  exact fun _ _ => rfl

theorem setError_moe (hoff : (s.low.motors m).moe = false) (i : Fin axisCount)
    (error : MotorError) (brake : BrakeCurrent) :
    ((setError i error brake s).low.motors m).moe = false := by
  have herror : ((setMotorError i error s.low).motors m).moe = false := by
    refine updateMotor_moe ?_ hoff i
    exact fun _ hmotor => hmotor
  exact (updateBrakeCurrent_kept brake _ m).moe (disarmMotorPwm_moe herror i)

/-- Nothing is to be loaded for the motor, and its outputs are off. -/
structure Control.Off (s : Control) (m : Fin axisCount) : Prop where
  slot : (s.next m).valid = false
  moe : (s.low.motors m).moe = false

/-- A slot is only filled by the motor's own thread. -/
theorem step_slot (hslot : (s.next m).valid = false) (henqueues : e.enqueues m = none) :
    ((s.step e).next m).valid = false := by
  obtain ⟨timings, hsome, -⟩ | ⟨-, hnext⟩ | ⟨-, -, hnext⟩ := step_next s e m
  · rw [henqueues] at hsome
    cases hsome
  · rw [hnext]
  · rw [hnext]
    exact hslot

/-- Without timings in the slot no call enables the outputs. -/
theorem step_moe (h : s.Off m) (e : ControlEvent) : ((s.step e).low.motors m).moe = false := by
  cases e with
  | enqueueModulationTimings i svm brake =>
    cases svm with
    | none => exact setError_moe h.moe i _ brake
    | some timings => exact h.moe
  | arm i measured =>
    cases measured with
    | false => exact h.moe
    | true =>
      show ((safetyCriticalArmMotorPwm i s.low).motors m).moe = false
      unfold safetyCriticalArmMotorPwm
      split
      · refine updateMotor_moe ?_ h.moe i
        exact fun _ hmotor => hmotor
      · exact h.moe
  | disarm i => exact disarmMotorPwm_moe h.moe i
  | setError i error brake => exact setError_moe h.moe i error brake
  | pwmTrigAdcCb hadc injected countingDown brake =>
    by_cases hupdates : (ControlEvent.pwmTrigAdcCb hadc injected countingDown brake).Updates m
    · exact (step_missed hupdates h.slot).moe
    · simp only [Control.step, pwmTrigAdcCb]
      split
      · rw [lowLevelFault_motors_eq]
      · cases hupdated : updatedMotor hadc injected countingDown with
        | none => exact h.moe
        | some i =>
          have him : m ≠ i := by
            rintro rfl
            exact hupdates hupdated
          show ((updateTimings i brake s).low.motors m).moe = false
          cases hvalid : (s.next i).valid with
          | false =>
            rw [updateTimings_empty brake hvalid]
            refine (updateBrakeCurrent_kept brake _ m).moe ?_
            split
            · refine updateMotor_moe ?_ (disarmMotorPwm_moe h.moe i) i
              exact fun _ hmotor => hmotor
            · exact disarmMotorPwm_moe h.moe i
          | true =>
            rw [updateTimings_full brake hvalid]
            refine (updateBrakeCurrent_kept brake _ m).moe ?_
            rw [applyMotorPwmTimings_other _ him]
            exact h.moe
  | armBrakeResistor => exact h.moe
  | disarmBrakeResistor =>
    show ((safetyCriticalDisarmBrakeResistor s.low).motors m).moe = false
    rw [disarmBrakeResistor_motors]
  | lowLevelFault error =>
    show ((lowLevelFault error s.low).motors m).moe = false
    rw [lowLevelFault_motors_eq]

theorem Control.Off.step (h : s.Off m) (henqueues : e.enqueues m = none) : (s.step e).Off m :=
  ⟨step_slot h.slot henqueues, step_moe h e⟩

/-- No timings come into the slot, and what is off stays off. -/
structure Control.Idles (s t : Control) (m : Fin axisCount) : Prop where
  slot : (s.next m).valid = false → (t.next m).valid = false
  off : s.Off m → t.Off m

theorem Control.Idles.refl : s.Idles s m := ⟨id, id⟩

theorem idles_step (henqueues : e.enqueues m = none) : s.Idles (s.step e) m :=
  ⟨fun hslot => step_slot hslot henqueues, fun h => h.step henqueues⟩

theorem enqueues_of_not_ofThread (h : ¬e.OfThread m) : e.enqueues m = none := by
  cases e with
  | enqueueModulationTimings i svm brake =>
    have him : i ≠ m := by simpa [ControlEvent.OfThread] using h
    simp [ControlEvent.enqueues, him]
  | _ => rfl

end WODrive.LowLevel

namespace WODrive.Axis

open LowLevel

universe u

variable {F : Type u}

/-- The event clears a flag. -/
def AxisEvent.Clears (b : Nat) : AxisEvent F → Prop
  | .clearErrors => True
  | .accept _ => ERROR_INVALID_STATE.getLsbD b = true
  | .leaveEndstop => ERROR_MIN_ENDSTOP_PRESSED.getLsbD b = true
  | _ => False

/-- No iteration of a control loop is running. -/
def ThreadPoint.BetweenIterations : ThreadPoint → Prop
  | .arm | .procedure | .whileCondition => True
  | _ => False

namespace Thread

theorem hasError_and {x y : AxisError} {b : Nat} (h : x.getLsbD b = true) (hb : b < 32)
    (hy : ¬y.getLsbD b = true) : (x &&& ~~~y).getLsbD b = true := by
  rw [Bool.not_eq_true] at hy
  rw [BitVec.getLsbD_and, BitVec.getLsbD_not, h, hy, decide_eq_true hb]
  rfl

/-- The thread is about to ask for timings, or may be doing so. -/
def MayAsk (s : Thread F) : Prop :=
  s.currentState ≠ .IDLE ∧ (s.point = .watchdogCheck true true ∨ s.point = .updateHandler)

theorem error_ne_zero {s : Thread F} {b : Nat} (h : s.error.getLsbD b = true) : s.error ≠ 0 := by
  rintro hzero
  simp [hzero] at h

/-- There is an error, and the thread is not about to ask for timings. -/
structure Quiet (b : Nat) (s : Thread F) : Prop where
  error : s.error.getLsbD b = true
  silent : ¬s.MayAsk

variable [Add F] [Mul F] [LT F] [DecidableLT F] [LE F] [DecidableLE F] [CFloat F]
  {s t u : Thread F} {e : AxisEvent F} {es : List (AxisEvent F)} {b : Nat}

/-! ## Errors stay -/

theorem step_hasError (h : Steps s e t) (hkept : ¬e.Clears b) (herror : s.error.getLsbD b = true) :
    t.error.getLsbD b = true := by
  have hb : b < 32 := BitVec.lt_of_getLsbD herror
  cases stepped h with
  | arm | enqueueModulationTimings => exact hasError_addErrorIf herror _
  | accept | leaveEndstop => exact hasError_and herror hb hkept
  | doChecks => exact hasError_doChecks herror
  | givesUp | passes => exact hasError_watchdogCheck herror
  | doUpdates | timesOut | setMotorError | raise => exact hasError_addError herror
  | clearErrors => exact absurd trivial hkept
  | _ => exact herror

/-! ## A quiet thread -/

/-- It stays quiet while the error is there. -/
theorem Quiet.step (h : s.Quiet b) (hstep : Steps s e t) (hkept : ¬e.Clears b) : t.Quiet b := by
  refine ⟨step_hasError hstep hkept h.error, ?_⟩
  by_cases hmoves : e.Moves
  · cases reached_of_moves hstep hmoves with
    | outside hchecks hupdates hhandler =>
      exact fun hask => hask.2.elim (hupdates true true) hhandler
    | doChecks brake hstate hpoint => simp [MayAsk, hpoint]
    | doUpdates errors checksOk hstate hfrom hpoint =>
      have hfailed : (s.doUpdates errors).1 = false :=
        decide_eq_false (error_ne_zero (hasError_addError h.error))
      simp [MayAsk, hpoint, hfailed]
    | watchdogCheck checksOk updatesOk hstate hfrom hpoint hok =>
      rintro ⟨hidle, -⟩
      rw [hstate] at hidle
      obtain ⟨rfl, rfl, -⟩ := hok hidle
      exact h.silent ⟨hidle, .inl hfrom⟩
  · obtain ⟨hpoint, hstate⟩ := step_of_not_moves hstep hmoves
    unfold MayAsk
    rw [hpoint, hstate]
    exact h.silent

/-! ## What becomes of the motor -/

/-- Unless it may ask for timings, the thread does not fill the slot of its motor, nor does
anybody else. -/
theorem step_idles (hstep : Steps s e t) :
    t.axisNum = s.axisNum ∧ (¬s.MayAsk → s.control.Idles t.control s.axisNum) := by
  cases stepped hstep with
  | arm => exact ⟨axisNum_addErrorIf _, fun _ => idles_step (e := .arm s.axisNum _) rfl⟩
  | idles => exact ⟨rfl, fun _ => idles_step (e := .disarm s.axisNum) rfl⟩
  | doChecks =>
    refine ⟨axisNum_doChecks _, fun _ => ?_⟩
    obtain hsame | hfault := control_doChecks (s := s) _
    · exact hsame ▸ .refl
    · exact hfault ▸ idles_step rfl
  | givesUp | passes =>
    obtain ⟨haxis, hcontrol⟩ := control_watchdogCheck (s := s)
    exact ⟨haxis, fun _ => hcontrol ▸ .refl⟩
  | enqueueModulationTimings hpoint hidle =>
    exact ⟨axisNum_addErrorIf _, fun hsilent => absurd ⟨hidle, .inr hpoint⟩ hsilent⟩
  | timesOut =>
    refine ⟨rfl, fun _ => ⟨fun hslot => hslot, fun hoff => ⟨hoff.slot, ?_⟩⟩⟩
    exact (updateBrakeCurrent_kept _ _ _).moe (disarmMotorPwm_moe hoff.moe _)
  | setMotorError => exact ⟨rfl, fun _ => idles_step (e := .setError s.axisNum _ _) rfl⟩
  | clearErrors =>
    refine ⟨rfl, fun _ => ⟨fun hslot => hslot, fun hoff => ⟨hoff.slot, ?_⟩⟩⟩
    simp only [clearErrors]
    refine updateMotor_moe ?_ hoff.moe _
    exact fun _ hmotor => hmotor
  | interrupt hother => exact ⟨rfl, fun _ => idles_step (enqueues_of_not_ofThread hother)⟩
  | _ => exact ⟨rfl, fun _ => .refl⟩

theorem run_axisNum (hrun : Run Steps s es t) : t.axisNum = s.axisNum :=
  hrun.invariant (I := fun t => t.axisNum = s.axisNum) rfl
    fun _ _ _ h hstep => (step_idles hstep).1.trans h

/-- The slot of the motor is empty, and stays so. -/
structure Drained (b : Nat) (s : Thread F) : Prop extends s.Quiet b where
  slot : (s.control.next s.axisNum).valid = false

/-- The motor is off, and stays so. -/
structure Deenergized (b : Nat) (s : Thread F) : Prop extends s.Quiet b where
  off : s.control.Off s.axisNum

theorem Drained.step (h : s.Drained b) (hstep : Steps s e t) (hkept : ¬e.Clears b) :
    t.Drained b := by
  obtain ⟨haxis, hidles⟩ := step_idles hstep
  exact ⟨h.toQuiet.step hstep hkept, haxis ▸ (hidles h.silent).slot h.slot⟩

theorem Deenergized.step (h : s.Deenergized b) (hstep : Steps s e t) (hkept : ¬e.Clears b) :
    t.Deenergized b := by
  obtain ⟨haxis, hidles⟩ := step_idles hstep
  exact ⟨h.toQuiet.step hstep hkept, haxis ▸ (hidles h.silent).off h.off⟩

/-- The first update loads what is in the slot. -/
theorem Quiet.update {i : ControlEvent} (h : s.Quiet b) (hstep : Steps s (.interrupt i) t)
    (hupdates : i.Updates s.axisNum) : t.Drained b := by
  refine ⟨h.step hstep id, ?_⟩
  cases stepped hstep with
  | interrupt hother => exact step_next_of_updates hupdates

/-- The second one floats the phases. -/
theorem Drained.update {i : ControlEvent} (h : s.Drained b) (hstep : Steps s (.interrupt i) t)
    (hupdates : i.Updates s.axisNum) : t.Deenergized b := by
  refine ⟨h.toQuiet.step hstep id, ?_⟩
  cases stepped hstep with
  | interrupt hother =>
    exact ⟨step_next_of_updates hupdates, (step_missed hupdates h.slot).moe⟩

/-- What is kept by all steps that do not clear the error. -/
theorem run_of_step {P : Thread F → Prop}
    (hstep : ∀ s e t, P s → Steps s e t → ¬e.Clears b → P t) (h : P s) (hrun : Run Steps s es t)
    (hkept : ∀ e ∈ es, ¬e.Clears b) : P t := by
  induction hrun with
  | nil => exact h
  | snoc hrun he ih =>
    rw [List.forall_mem_append, List.forall_mem_singleton] at hkept
    exact hstep _ _ _ (ih hkept.1) he hkept.2

/-- The end of an iteration quiets the thread, whichever way it has been left. -/
theorem quiet_of_ended (herror : s.error.getLsbD b = true) (hrun : Run Steps s es u)
    (hkept : ∀ e ∈ es, ¬e.Clears b) (hended : u.point.BetweenIterations) : u.Quiet b := by
  have herror' : u.error.getLsbD b = true :=
    run_of_step (P := fun s => s.error.getLsbD b = true)
      (fun _ _ _ h hstep hkept => step_hasError hstep hkept h) herror hrun hkept
  refine ⟨herror', ?_⟩
  rintro ⟨-, hask⟩
  rcases hask with hpoint | hpoint <;> rw [hpoint] at hended <;> exact hended

/-- The first update empties the slot for good, and the second one finds it empty. -/
theorem Quiet.deenergizes {first second : ControlEvent} {es₁ es₂ es₃ : List (AxisEvent F)}
    (h : s.Quiet b)
    (hrun : Run Steps s (es₁ ++ [.interrupt first] ++ es₂ ++ [.interrupt second] ++ es₃) t)
    (hkept : ∀ e ∈ es₁ ++ es₂ ++ es₃, ¬e.Clears b)
    (hfirst : first.Updates s.axisNum) (hsecond : second.Updates s.axisNum) :
    t.Deenergized b := by
  simp only [List.forall_mem_append] at hkept
  obtain ⟨⟨hkept₁, hkept₂⟩, hkept₃⟩ := hkept
  obtain ⟨s₄, hrun₄, hlast⟩ := hrun.split
  obtain ⟨s₃, hrun₃, hupdate₂⟩ := hrun₄.of_snoc
  obtain ⟨s₂, hrun₂, hmid⟩ := hrun₃.split
  obtain ⟨s₁, hrun₁, hupdate₁⟩ := hrun₂.of_snoc
  have hquiet : s₁.Quiet b := run_of_step (fun _ _ _ h => h.step) h hrun₁ hkept₁
  have hdrained : s₃.Drained b :=
    run_of_step (fun _ _ _ h => h.step)
      (hquiet.update hupdate₁ (run_axisNum hrun₁ ▸ hfirst)) hmid hkept₂
  exact run_of_step (fun _ _ _ h => h.step)
    (hdrained.update hupdate₂ (run_axisNum hrun₃ ▸ hsecond)) hlast hkept₃

/-- **An error stops the motor.** Once the iteration that an error is raised in has ended, and
the interrupt has updated the timings of the motor twice, its outputs are off, and they stay off
as long as nobody clears the error, whatever is requested and in whatever order all of this
happens. -/
theorem error_deenergizes {first second : ControlEvent} {es₁ es₂ es₃ : List (AxisEvent F)}
    (herror : s.error.getLsbD b = true) (hrun : Run Steps s es u)
    (hended : u.point.BetweenIterations)
    (hrun' : Run Steps u (es₁ ++ [.interrupt first] ++ es₂ ++ [.interrupt second] ++ es₃) t)
    (hkept : ∀ e ∈ es ++ (es₁ ++ es₂ ++ es₃), ¬e.Clears b)
    (hfirst : first.Updates s.axisNum) (hsecond : second.Updates s.axisNum) :
    t.Deenergized b := by
  rw [List.forall_mem_append] at hkept
  have haxis := run_axisNum hrun
  exact (quiet_of_ended herror hrun hkept.1 hended).deenergizes hrun' hkept.2
    (haxis ▸ hfirst) (haxis ▸ hsecond)

/-- A motor that runs in closed loop control, when an emergency stop is requested. -/
def estopped : Thread Float32 :=
  { powerUp with
    point := .doChecks
    currentState := .CLOSED_LOOP_CONTROL
    error := 0x4000
    control :=
      { powerUp.control with
        low := powerUp.control.low.updateMotor axis0 fun motor =>
          { motor with armedState := .ARMED, moe := true } } }

/-- The update of the timings of the first motor. -/
def updateOfM0 : ControlEvent := .pwmTrigAdcCb .hadc2 false true (.highOn 4096)

/-- The checks that the loop is left after, and another try. -/
def estopChecks : List (AxisEvent Float32) :=
  [.doChecks (.highOn 4096), .doUpdates 0, .watchdogCheck]
def estopRetry : List (AxisEvent Float32) := [.request .CLOSED_LOOP_CONTROL, .accept .IDLE]
def estopUpdates : List (AxisEvent Float32) :=
  [] ++ [.interrupt updateOfM0] ++ estopRetry ++ [.interrupt updateOfM0] ++
    [.advance .CLOSED_LOOP_CONTROL, .runControlLoop, .whileCondition, .doChecks (.highOn 4096)]

theorem error_deenergizes_estop :
    ∃ u t, Run Steps estopped estopChecks u ∧ u.point = .procedure ∧
      Run Steps u estopUpdates t ∧ t.point = .doUpdates false ∧ t.Deenergized 14 := by
  have hcomputes : ((estopChecks.foldlM step estopped).bind fun u =>
      (estopUpdates.foldlM step u).map fun t => (u.point, t.point)) =
        some (.procedure, .doUpdates false) := by
    decide +kernel
  obtain ⟨u, hu, hrest⟩ := Option.bind_eq_some_iff.mp hcomputes
  obtain ⟨t, ht, hpoints⟩ := Option.map_eq_some_iff.mp hrest
  obtain ⟨hleft, hpoint⟩ := Prod.mk.inj hpoints
  refine ⟨u, t, .foldlM hu, hleft, .foldlM ht, hpoint,
    error_deenergizes (by decide) (.foldlM hu) ?_ (.foldlM ht) ?_ rfl rfl⟩
  · rw [hleft]
    exact trivial
  · simp [AxisEvent.Clears, estopChecks, estopRetry, ERROR_INVALID_STATE]

end Thread

end WODrive.Axis
