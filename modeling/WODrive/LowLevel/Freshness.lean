import WODrive.LowLevel.NextTimings

/-!
# No stale timings

`Recorded` runs the two sides of the slot of one motor and writes down which timings
were enqueued and which of them, by their position among these, were loaded into the
timer. `Fresh` is the invariant: positions only go up, so that nothing is loaded twice,
and the timer holds what was loaded last. `freshness` adds what happens when nothing
was enqueued in time.
-/

namespace WODrive.LowLevel

variable {low : State} {s : Control} {m : Fin axisCount} {e : ControlEvent}

/-! ## Faults -/

theorem setMotorError_disarm (error : MotorError) (i : Fin axisCount) (low : State) :
    setMotorError i error (safetyCriticalDisarmMotorPwm i low).2 =
      low.updateMotor i fun motor =>
        { motor with armedState := .DISARMED, moe := false, error := motor.error ||| error } := by
  simp [setMotorError, safetyCriticalDisarmMotorPwm, State.updateMotor]

/-- A fault disarms every motor, and adds its flag to what the motor had. -/
theorem lowLevelFault_motors_eq (error : MotorError) (low : State) (m : Fin axisCount) :
    (lowLevelFault error low).motors m =
      { low.motors m with
        armedState := .DISARMED
        moe := false
        error := (low.motors m).error ||| error } := by
  unfold lowLevelFault
  rw [disarmBrakeResistor_motors]
  simp only [setMotorError_disarm]
  rw [foldl_updateMotor_motors _ (List.nodup_finRange axisCount), if_pos (List.mem_finRange m)]

/-- The motor is as before, or it is disarmed by a fault other than a missed deadline. -/
def Motor.KeptOrFaulted (r t : Motor) : Prop :=
  t = r ∨ ∃ error : MotorError, error.deadlineMissed = false ∧
    t = { r with armedState := .DISARMED, moe := false, error := r.error ||| error }

theorem lowLevelFault_kept (error : MotorError) (h : error.deadlineMissed = false)
    (low : State) (m : Fin axisCount) :
    (low.motors m).KeptOrFaulted ((lowLevelFault error low).motors m) :=
  .inr ⟨error, h, lowLevelFault_motors_eq error low m⟩

theorem applyBrakeResistorTimings_kept (lowOff highOn : BitVec 32) (low : State)
    (m : Fin axisCount) :
    (low.motors m).KeptOrFaulted
      ((safetyCriticalApplyBrakeResistorTimings lowOff highOn low).motors m) := by
  unfold safetyCriticalApplyBrakeResistorTimings
  rw [writeBrakeResistorTimings_motors]
  split
  · exact lowLevelFault_kept .ERROR_BRAKE_DEADTIME_VIOLATION (by decide +kernel) low m
  · exact .inl rfl

/-- Braking may shut everything down, with errors of its own. -/
theorem updateBrakeCurrent_kept (brake : BrakeCurrent) (low : State) (m : Fin axisCount) :
    (low.motors m).KeptOrFaulted ((updateBrakeCurrent brake low).motors m) := by
  cases brake with
  | dutyNan =>
    exact lowLevelFault_kept .ERROR_BRAKE_DUTY_CYCLE_NAN (by decide +kernel) low m
  | overCurrent =>
    exact lowLevelFault_kept .ERROR_DC_BUS_OVER_CURRENT (by decide +kernel) low m
  | overRegenCurrent =>
    exact lowLevelFault_kept .ERROR_DC_BUS_OVER_REGEN_CURRENT (by decide +kernel) low m
  | highOn highOn =>
    unfold updateBrakeCurrent
    apply applyBrakeResistorTimings_kept

theorem updateBrakeCurrent_ccr (brake : BrakeCurrent) (low : State) (m : Fin axisCount) :
    ((updateBrakeCurrent brake low).motors m).ccr = (low.motors m).ccr := by
  obtain h | ⟨error, -, h⟩ := updateBrakeCurrent_kept brake low m <;> rw [h]

/-! ## The timer registers -/

theorem applyMotorPwmTimings_ccr (timings : Timings) (low : State) (m : Fin axisCount) :
    ((safetyCriticalApplyMotorPwmTimings m timings low).motors m).ccr = timings := by
  unfold safetyCriticalApplyMotorPwmTimings safetyCriticalDisarmMotorPwm
  cases hbrake : low.brakeResistorArmed <;> cases hstate : (low.motors m).armedState <;>
    simp [hstate]

theorem updateMotor_ccr {f : Motor → Motor} (hf : ∀ motor, (f motor).ccr = motor.ccr)
    (i : Fin axisCount) : ((low.updateMotor i f).motors m).ccr = (low.motors m).ccr := by
  by_cases him : m = i
  · rw [him, updateMotor_self, hf]
  · rw [updateMotor_other f him]

theorem disarmMotorPwm_ccr (i : Fin axisCount) :
    ((safetyCriticalDisarmMotorPwm i low).2.motors m).ccr = (low.motors m).ccr := by
  simp only [safetyCriticalDisarmMotorPwm]
  apply updateMotor_ccr
  exact fun _ => rfl

theorem armMotorPwm_ccr (i : Fin axisCount) :
    ((safetyCriticalArmMotorPwm i low).motors m).ccr = (low.motors m).ccr := by
  unfold safetyCriticalArmMotorPwm
  split
  · apply updateMotor_ccr
    exact fun _ => rfl
  · rfl

theorem setMotorError_ccr (error : MotorError) (i : Fin axisCount) :
    ((setMotorError i error low).motors m).ccr = (low.motors m).ccr := by
  apply updateMotor_ccr
  exact fun _ => rfl

theorem setError_ccr (error : MotorError) (brake : BrakeCurrent) (i : Fin axisCount) :
    ((setError i error brake s).low.motors m).ccr = (s.low.motors m).ccr := by
  unfold setError
  rw [updateBrakeCurrent_ccr, disarmMotorPwm_ccr, setMotorError_ccr]

/-- The timings that an event loads into the motor's timer. -/
def Control.loads (s : Control) (m : Fin axisCount) : ControlEvent → Option Timings
  | .pwmTrigAdcCb hadc injected countingDown _ =>
    if updatedMotor hadc injected countingDown = some m ∧ (s.next m).valid = true then
      some (s.next m).timings
    else none
  | _ => none

theorem updateTimings_ccr (i : Fin axisCount) (brake : BrakeCurrent) :
    ((updateTimings i brake s).low.motors m).ccr =
      if i = m ∧ (s.next m).valid = true then (s.next m).timings else (s.low.motors m).ccr := by
  cases hvalid : (s.next i).valid with
  | false =>
    have hnot : ¬ (i = m ∧ (s.next m).valid = true) := by
      rintro ⟨rfl, h⟩
      simp [hvalid] at h
    rw [updateTimings_empty brake hvalid, if_neg hnot, updateBrakeCurrent_ccr]
    split
    · rw [setMotorError_ccr, disarmMotorPwm_ccr]
    · rw [disarmMotorPwm_ccr]
  | true =>
    rw [updateTimings_full brake hvalid]
    by_cases him : i = m
    · subst him
      rw [if_pos ⟨rfl, hvalid⟩, updateBrakeCurrent_ccr, applyMotorPwmTimings_ccr]
    · rw [if_neg (by simp [him]), updateBrakeCurrent_ccr,
        applyMotorPwmTimings_other _ (Ne.symm him)]

/-- Nothing but an update with timings in the slot writes the timer registers. -/
theorem step_ccr (s : Control) (e : ControlEvent) (m : Fin axisCount) :
    ((s.step e).low.motors m).ccr = (s.loads m e).getD (s.low.motors m).ccr := by
  cases e with
  | enqueueModulationTimings i svm brake =>
    cases svm with
    | none => exact setError_ccr ..
    | some timings => rfl
  | arm i measured =>
    cases measured with
    | false => rfl
    | true => exact armMotorPwm_ccr i
  | disarm i => exact disarmMotorPwm_ccr i
  | setError i error brake => exact setError_ccr ..
  | pwmTrigAdcCb hadc injected countingDown brake =>
    simp only [Control.step, pwmTrigAdcCb, Control.loads]
    by_cases hother : hadc = .other
    · have hnone : updatedMotor hadc injected countingDown = none := by
        simp [updatedMotor, hother]
      rw [if_pos hother, hnone, lowLevelFault_motors_eq]
      simp
    · rw [if_neg hother]
      cases hupdated : updatedMotor hadc injected countingDown with
      | none => simp
      | some i =>
        simp only [updateTimings_ccr, Option.some.injEq]
        split <;> rfl
  | armBrakeResistor => rfl
  | disarmBrakeResistor =>
    show ((safetyCriticalDisarmBrakeResistor s.low).motors m).ccr = _
    rw [disarmBrakeResistor_motors]
    rfl
  | lowLevelFault error =>
    show ((lowLevelFault error s.low).motors m).ccr = _
    rw [lowLevelFault_motors_eq]
    rfl

/-! ## A missed deadline -/

/-- The motor is disarmed, its outputs are off, and the missed deadline is added to its
errors unless it was disarmed before. -/
structure Missed (r t : Motor) : Prop where
  disarmed : t.armedState = .DISARMED
  moe : t.moe = false
  error : t.error.deadlineMissed = (r.error.deadlineMissed || decide (r.armedState ≠ .DISARMED))

theorem Missed.kept {r t u : Motor} (h : Missed r t) (hkept : t.KeptOrFaulted u) :
    Missed r u := by
  obtain rfl | ⟨error, hother, rfl⟩ := hkept
  · exact h
  · exact ⟨rfl, rfl, by simp [hother, h.error]⟩

/-- An update with an empty slot floats all phases. -/
theorem step_missed (hupdates : e.Updates m) (hempty : (s.next m).valid = false) :
    Missed (s.low.motors m) ((s.step e).low.motors m) := by
  obtain ⟨brake, hstep⟩ := step_of_updates (s := s) hupdates
  rw [hstep, updateTimings_empty brake hempty]
  refine Missed.kept ?_ (updateBrakeCurrent_kept brake _ m)
  split
  next harmed =>
    rw [setMotorError_disarm, updateMotor_self]
    have hflag : MotorError.deadlineMissed .ERROR_CONTROL_DEADLINE_MISSED = true := by
      decide +kernel
    have harmed' : (s.low.motors m).armedState ≠ .DISARMED := of_decide_eq_true harmed
    exact ⟨rfl, rfl, by simp [hflag, harmed']⟩
  next hdisarmed =>
    have hdisarmed' : (s.low.motors m).armedState = .DISARMED := by
      simpa [safetyCriticalDisarmMotorPwm] using hdisarmed
    simp only [safetyCriticalDisarmMotorPwm, updateMotor_self]
    exact ⟨rfl, rfl, by simp [hdisarmed']⟩

/-! ## Runs -/

/-- The state after a sequence of calls. -/
def Control.run (s : Control) (es : List ControlEvent) : Control := es.foldl Control.step s

@[simp] theorem Control.run_nil (s : Control) : s.run [] = s := rfl

theorem Control.run_snoc (s : Control) (es : List ControlEvent) (e : ControlEvent) :
    s.run (es ++ [e]) = (s.run es).step e := by
  simp [Control.run]

/-- The slots when the constructors have run. -/
def Control.powerUp (low : State) : Control where
  low := low
  next := fun _ =>
    { timings := ⟨tim18PeriodClocks / 2, tim18PeriodClocks / 2, tim18PeriodClocks / 2⟩
      valid := false }

/-- A state, and what the calls up to it have enqueued for one motor and loaded. -/
structure Recorded where
  control : Control
  /-- The timings that were enqueued for the motor, in order. -/
  enqueued : List Timings
  /-- Those loaded into its timer, in order, with their positions in `enqueued`: what
  is loaded is what was enqueued last. -/
  loaded : List (Nat × Timings)

def Recorded.step (m : Fin axisCount) (r : Recorded) (e : ControlEvent) : Recorded where
  control := r.control.step e
  enqueued := r.enqueued ++ (e.enqueues m).toList
  loaded := r.loaded ++ ((r.control.loads m e).map fun t => (r.enqueued.length - 1, t)).toList

def record (m : Fin axisCount) (s : Control) (es : List ControlEvent) : Recorded :=
  es.foldl (Recorded.step m) ⟨s, [], []⟩

theorem record_snoc (m : Fin axisCount) (s : Control) (es : List ControlEvent)
    (e : ControlEvent) : record m s (es ++ [e]) = (record m s es).step m e := by
  simp [record]

/-- No enqueued timings are loaded twice, what is loaded was enqueued, and the timer
holds what was loaded last. -/
structure Fresh (m : Fin axisCount) (ccr : Timings) (r : Recorded) : Prop where
  once : (r.loaded.map Prod.fst).Pairwise (· < ·)
  source : ∀ k t, (k, t) ∈ r.loaded → r.enqueued[k]? = some t
  timer : (r.control.low.motors m).ccr = (r.loaded.getLast?.map Prod.snd).getD ccr

/-- The invariant: the slot holds what was enqueued last, and while it is valid this
has not been loaded. -/
structure FreshInv (m : Fin axisCount) (ccr : Timings) (r : Recorded) : Prop
    extends Fresh m ccr r where
  slot : (r.control.next m).valid = true →
    r.enqueued.getLast? = some (r.control.next m).timings
  pending : ∀ p ∈ r.loaded,
    p.1 + (if (r.control.next m).valid then 1 else 0) < r.enqueued.length

theorem loads_eq_some {t : Timings} (h : s.loads m e = some t) :
    e.Updates m ∧ (s.next m).valid = true ∧ t = (s.next m).timings ∧ e.enqueues m = none := by
  cases e with
  | pwmTrigAdcCb hadc injected countingDown brake =>
    simp only [Control.loads] at h
    split at h
    next hif =>
      cases h
      exact ⟨hif.1, hif.2, rfl, rfl⟩
    next => cases h
  | _ => cases h

@[simp] theorem step_control (r : Recorded) :
    (r.step m e).control = r.control.step e := rfl

theorem FreshInv.lt_length {ccr : Timings} {r : Recorded} (h : FreshInv m ccr r)
    {p : Nat × Timings} (hp : p ∈ r.loaded) : p.1 < r.enqueued.length := by
  have := h.pending p hp
  omega

/-- A call that loads nothing may enqueue something. -/
theorem FreshInv.fresh_of_not_loads {ccr : Timings} {r : Recorded} (h : FreshInv m ccr r)
    (hloads : r.control.loads m e = none) : Fresh m ccr (r.step m e) := by
  have hloaded : (r.step m e).loaded = r.loaded := by simp [Recorded.step, hloads]
  refine ⟨?_, ?_, ?_⟩
  · rw [hloaded]
    exact h.once
  · intro k t hmem
    rw [hloaded] at hmem
    simp only [Recorded.step]
    rw [List.getElem?_append_left (h.lt_length hmem)]
    exact h.source k t hmem
  · rw [hloaded, step_control, step_ccr, hloads, Option.getD_none]
    exact h.timer

/-- A call that loads the slot empties it. -/
theorem FreshInv.step_loads {ccr : Timings} {r : Recorded} (h : FreshInv m ccr r)
    {t : Timings} (hloads : r.control.loads m e = some t) : FreshInv m ccr (r.step m e) := by
  obtain ⟨hupdates, hvalid, rfl, hnone⟩ := loads_eq_some hloads
  have hlast := h.slot hvalid
  have hempty := step_next_of_updates (s := r.control) hupdates
  have henq : (r.step m e).enqueued = r.enqueued := by simp [Recorded.step, hnone]
  have hloaded : (r.step m e).loaded =
      r.loaded ++ [(r.enqueued.length - 1, (r.control.next m).timings)] := by
    simp [Recorded.step, hloads]
  have hpending : ∀ p ∈ r.loaded, p.1 + 1 < r.enqueued.length := by
    simpa [hvalid] using h.pending
  have hpos : 0 < r.enqueued.length := by
    rw [List.length_pos_iff]
    rintro hnil
    simp [hnil] at hlast
  refine ⟨⟨?_, ?_, ?_⟩, ?_, ?_⟩
  · rw [hloaded, List.map_append]
    refine List.pairwise_append.mpr ⟨h.once, List.pairwise_singleton .., ?_⟩
    rintro a ha b hb
    obtain ⟨p, hp, rfl⟩ := List.mem_map.mp ha
    rw [List.mem_singleton.mp hb]
    have := hpending p hp
    omega
  · intro k t hmem
    rw [hloaded, List.mem_append, List.mem_singleton, Prod.mk.injEq] at hmem
    rw [henq]
    rcases hmem with hmem | ⟨rfl, rfl⟩
    · exact h.source k t hmem
    · rw [← List.getLast?_eq_getElem?]
      exact hlast
  · rw [hloaded, step_control, step_ccr, hloads]
    simp
  · rw [step_control, hempty]
    rintro ⟨⟩
  · intro p hp
    rw [hloaded, List.mem_append, List.mem_singleton] at hp
    rw [henq, step_control, hempty]
    rcases hp with hp | rfl
    · exact h.lt_length hp
    · exact Nat.sub_lt hpos Nat.one_pos

theorem FreshInv.step {ccr : Timings} {r : Recorded} (h : FreshInv m ccr r)
    (e : ControlEvent) : FreshInv m ccr (r.step m e) := by
  cases hloads : r.control.loads m e with
  | some t => exact h.step_loads hloads
  | none =>
    have hloaded : (r.step m e).loaded = r.loaded := by simp [Recorded.step, hloads]
    refine ⟨h.fresh_of_not_loads hloads, ?_, ?_⟩ <;> rw [step_control]
    · obtain ⟨timings, hsome, hnext⟩ | ⟨hnone, hnext⟩ | ⟨hnone, -, hnext⟩ :=
        step_next r.control e m
      · simp [Recorded.step, hsome, hnext]
      · simp [hnext]
      · simpa [Recorded.step, hnone, hnext] using h.slot
    · intro p hp
      rw [hloaded] at hp
      obtain ⟨timings, hsome, hnext⟩ | ⟨hnone, hnext⟩ | ⟨hnone, -, hnext⟩ :=
        step_next r.control e m
      · have := h.lt_length hp
        simpa [Recorded.step, hsome, hnext] using this
      · have := h.lt_length hp
        simpa [Recorded.step, hnone, hnext] using this
      · have := h.pending p hp
        simpa [Recorded.step, hnone, hnext] using this

theorem freshInv_record (m : Fin axisCount) (low : State) (es : List ControlEvent) :
    FreshInv m (low.motors m).ccr (record m (.powerUp low) es) := by
  induction es using List.reverseRecOn with
  | nil =>
    exact ⟨⟨.nil, by simp [record], rfl⟩, by simp [record, Control.powerUp], by simp [record]⟩
  | append_singleton es e ih =>
    rw [record_snoc]
    exact ih.step e

/-- A slot that is empty stays so while nothing is enqueued. -/
theorem run_next_valid {es : List ControlEvent} (hempty : (s.next m).valid = false)
    (hnone : ∀ e ∈ es, e.enqueues m = none) : ((s.run es).next m).valid = false := by
  induction es using List.reverseRecOn with
  | nil => exact hempty
  | append_singleton es e ih =>
    rw [Control.run_snoc]
    have hes := ih fun f hf => hnone f (List.mem_append_left _ hf)
    have he := hnone e (by simp)
    obtain ⟨timings, hsome, -⟩ | ⟨-, hnext⟩ | ⟨-, -, hnext⟩ := step_next (s.run es) e m
    · rw [he] at hsome
      cases hsome
    · rw [hnext]
    · rw [hnext]
      exact hes

/-- In every run of calls from power-up, enqueued timings are loaded at most once, and an
update finds the motor disarmed, or disarms it and says so, if nothing was enqueued for
it since its update before. -/
theorem freshness (m : Fin axisCount) (low : State) :
    (∀ es, Fresh m (low.motors m).ccr (record m (.powerUp low) es)) ∧
    (∀ before between e,
      (before = [] ∨ ∃ es u, before = es ++ [u] ∧ u.Updates m) →
      (∀ f ∈ between, f.enqueues m = none) → e.Updates m →
      Missed (((Control.powerUp low).run (before ++ between)).low.motors m)
        (((Control.powerUp low).run (before ++ between ++ [e])).low.motors m)) := by
  refine ⟨fun es => (freshInv_record m low es).toFresh, ?_⟩
  intro before between e hbefore hbetween hupdates
  have hempty : (((Control.powerUp low).run before).next m).valid = false := by
    obtain rfl | ⟨es, u, rfl, hu⟩ := hbefore
    · rfl
    · rw [Control.run_snoc]
      exact step_next_of_updates hu
  rw [Control.run_snoc]
  apply step_missed hupdates
  rw [show (Control.powerUp low).run (before ++ between) =
    ((Control.powerUp low).run before).run between from List.foldl_append]
  exact run_next_valid hempty hbetween

/-- Armed, but without timings at the next update. -/
theorem freshness_arm :
    Missed
      (((Control.powerUp resetState).run [.armBrakeResistor, .arm axis0 true]).low.motors axis0)
      (((Control.powerUp resetState).run ([.armBrakeResistor, .arm axis0 true] ++
        [.pwmTrigAdcCb .hadc2 false true (.highOn 4096)])).low.motors axis0) :=
  (freshness axis0 resetState).2 [] [.armBrakeResistor, .arm axis0 true]
    (.pwmTrigAdcCb .hadc2 false true (.highOn 4096)) (.inl rfl) (by decide)
    (show updatedMotor .hadc2 false true = some axis0 by decide)

end WODrive.LowLevel
