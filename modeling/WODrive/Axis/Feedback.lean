import WODrive.Axis.StateMachine

/-!
# Calibrated feedback

Two states feed controller output that is computed from the encoder into the motor:
closed loop control and homing. `runState_feedback_iff` says for one iteration, and
`feedbackSafe_iff` for all runs, when they only do so with a calibrated motor and a
ready encoder: closed loop control checks it, homing does not.
-/

namespace WODrive.Axis

/-- What closed loop feedback rests on. -/
structure Calibrated (v : AxisVars) : Prop where
  motor : v.isCalibrated = true
  direction : v.direction ≠ 0
  encoder : v.isReady = true

/-- The states that close the loop over the encoder. -/
def IsFeedback (state : AxisState) : Prop :=
  state = .CLOSED_LOOP_CONTROL ∨ state = .HOMING

/-- In this iteration feedback is only started when calibrated; otherwise the state is
rejected as invalid and the axis goes to idle. -/
structure FeedbackSafe (r : Record) : Prop where
  guarded : ∀ p v, (p, v) ∈ r.outcome.started →
    p = .runClosedLoopControlLoop ∨ p = .runHoming → Calibrated v
  rejected : IsFeedback r.executed → ¬ Calibrated r.vars →
    r.outcome.started = [] ∧ r.outcome.vars.error &&& ERROR_INVALID_STATE ≠ 0 ∧
      r.chain.head = .IDLE

theorem invalidState_error (v : AxisVars) :
    (invalidState v).vars.error &&& ERROR_INVALID_STATE ≠ 0 := by
  intro h
  have hbit := congrArg (fun e : AxisError => e.getLsbD 0) h
  simp [invalidState, ERROR_INVALID_STATE] at hbit

/-- Feedback is started in its two states only, with the variables they are entered
with, and closed loop control has checked them. -/
theorem runState_started (oracle : Oracle) (state : AxisState) (v : AxisVars)
    {p : Procedure} {w : AxisVars} (hstarted : (p, w) ∈ (runState oracle state v).started)
    (hp : p = .runClosedLoopControlLoop ∨ p = .runHoming) :
    w = v ∧ (state = .HOMING ∨ Calibrated v) := by
  cases state with
  | CLOSED_LOOP_CONTROL =>
    simp only [runState] at hstarted
    split at hstarted
    next => simp [invalidState] at hstarted
    next hmotor =>
      split at hstarted
      next => simp [invalidState] at hstarted
      next hready =>
        simp only [start, List.mem_singleton, Prod.mk.injEq] at hstarted
        simp at hmotor hready
        exact ⟨hstarted.2, .inr ⟨hmotor.1, hmotor.2, hready⟩⟩
  | HOMING =>
    simp only [runState, start, List.mem_singleton, Prod.mk.injEq] at hstarted
    exact ⟨hstarted.2, .inl rfl⟩
  | _ =>
    -- no other state starts one of the two procedures
    exfalso
    simp only [runState, Outcome.andStart] at hstarted
    (try split_ifs at hstarted) <;> rcases hp with rfl | rfl <;>
      simp [invalidState, start] at hstarted

/-- Closed loop control without calibration is an invalid state. -/
theorem runState_closedLoop (oracle : Oracle) (v : AxisVars) (h : ¬ Calibrated v) :
    runState oracle .CLOSED_LOOP_CONTROL v = invalidState v := by
  simp only [runState]
  split
  next => rfl
  next hmotor =>
    split
    next => rfl
    next hready =>
      simp at hmotor hready
      exact absurd ⟨hmotor.1, hmotor.2, hready⟩ h

/-- One iteration is as it should be if and only if it does not run homing without
calibration. -/
theorem iterate_feedbackSafe_iff (i : Input) (chain : TaskChain) :
    FeedbackSafe (iterate i chain) ↔
      ((iterate i chain).executed = .HOMING → Calibrated (iterate i chain).vars) := by
  have houtcome : (iterate i chain).outcome =
      runState i.oracle (iterate i chain).executed (iterate i chain).vars := rfl
  have hchain : ∃ before, (iterate i chain).chain =
      advance (iterate i chain).outcome.status before := ⟨_, rfl⟩
  generalize iterate i chain = r at houtcome hchain ⊢
  obtain ⟨before, hchain⟩ := hchain
  constructor
  · rintro ⟨hguarded, -⟩ hhoming
    apply hguarded .runHoming r.vars _ (.inr rfl)
    rw [houtcome, hhoming]
    exact List.mem_singleton_self _
  · intro hcond
    constructor
    · intro p v hstarted hp
      rw [houtcome] at hstarted
      obtain ⟨rfl, hhoming | hcal⟩ := runState_started _ _ _ hstarted hp
      · exact hcond hhoming
      · exact hcal
    · rintro (hclosed | hhoming) hcal
      · rw [hclosed, runState_closedLoop _ _ hcal] at houtcome
        rw [hchain, houtcome]
        exact ⟨rfl, invalidState_error r.vars, advance_false_head before⟩
      · exact absurd (hcond hhoming) hcal

/-- **Only calibrated feedback drives the motor**, exactly: in every run of the loop
every iteration is as it should be if and only if every iteration that runs homing
finds the motor calibrated, its direction known and the encoder ready. -/
theorem feedbackSafe_iff (inputs : List Input) :
    (∀ r ∈ run initialChain inputs, FeedbackSafe r) ↔
      ∀ r ∈ run initialChain inputs, r.executed = .HOMING → Calibrated r.vars := by
  generalize initialChain = chain
  induction inputs generalizing chain with
  | nil => simp [run]
  | cons i is ih =>
    rw [run, List.forall_mem_cons, List.forall_mem_cons, iterate_feedbackSafe_iff, ih]

/-- An axis after reset that is asked to home. -/
def homingRequest : AxisVars where
  requestedState := .HOMING
  error := 0
  startupMotorCalibration := false
  startupEncoderIndexSearch := false
  startupEncoderOffsetCalibration := false
  startupHoming := false
  startupClosedLoopControl := false
  startupSensorlessControl := false
  useIndex := false
  idxSearchUnidirectional := false
  isReady := false
  isCalibrated := false
  direction := 0

/-- It starts to home without calibration. -/
theorem feedbackSafe_homing :
    ¬ ∀ r ∈ run initialChain [⟨homingRequest, fun _ v => (true, v)⟩], FeedbackSafe r := by
  rw [run, run, List.forall_mem_singleton]
  intro h
  have hcal := (iterate_feedbackSafe_iff _ _).mp h (by decide)
  exact absurd hcal.motor (by decide)

end WODrive.Axis
