import WODrive.Library.Runs
import WODrive.LowLevel.Model

/-!
# Arming the motors

From the point of view of one motor every event is one of five moves of a small
automaton (`Move`): the event leaves the motor's armed state and its MOE bit alone, or
disarms it, or takes one of the three steps towards enabled outputs. `step_move` is the
inversion lemma of the section: it finds the move behind every event, for every motor.

- `Armable`: a motor that is not disarmed has an armed brake resistor, and enabled
  outputs belong to a motor that is not disarmed. Every event keeps this.
- `ArmedSince`: the motor has been armed by a call of `safety_critical_arm_motor_pwm`
  among the last events, was not disarmed since, and was given timings at least `n`
  times. `Motor.level` says how many are needed to get where the motor is.
-/

namespace WODrive.LowLevel

variable {s : State} {m : Fin axisCount} {e : Event}

/-! ## What an event does to one motor -/

/-- The two fields of a motor that decide whether its outputs are enabled. -/
def Motor.SameOutput (r t : Motor) : Prop := t.armedState = r.armedState ∧ t.moe = r.moe

/-- The call that gives timings to the motor `m`. -/
def Event.IsTimings (m : Fin axisCount) (e : Event) : Bool :=
  match e with
  | .applyMotorPwmTimings i _ => i = m
  | _ => false

/-- What the event `e` does to the motor `m` while the brake resistor is (not) armed:
from the motor `r` to the motor `t`. -/
inductive Move (m : Fin axisCount) (brake : Bool) (e : Event) (r t : Motor) : Prop where
  | keep (h : r.SameOutput t)
  | disarm (hstate : t.armedState = .DISARMED) (hmoe : t.moe = false)
  | arm (hevent : e = .armMotorPwm m) (hbrake : brake = true)
      (hstate : t.armedState = .WAITING_FOR_TIMINGS) (hmoe : t.moe = r.moe)
  | load (hevent : e.IsTimings m = true) (hbrake : brake = true)
      (hfrom : r.armedState = .WAITING_FOR_TIMINGS)
      (hstate : t.armedState = .WAITING_FOR_UPDATE) (hmoe : t.moe = r.moe)
  | enable (hevent : e.IsTimings m = true) (hbrake : brake = true)
      (hfrom : r.armedState = .WAITING_FOR_UPDATE)
      (hstate : t.armedState = .ARMED) (hmoe : t.moe = true)

theorem Motor.SameOutput.refl (r : Motor) : r.SameOutput r := ⟨rfl, rfl⟩

@[simp] theorem updateMotor_brake (f : Motor → Motor) :
    (s.updateMotor m f).brakeResistorArmed = s.brakeResistorArmed := rfl

@[simp] theorem updateMotor_self (f : Motor → Motor) :
    (s.updateMotor m f).motors m = f (s.motors m) :=
  Function.update_self ..

theorem updateMotor_other (f : Motor → Motor) {i : Fin axisCount} (h : m ≠ i) :
    (s.updateMotor i f).motors m = s.motors m :=
  Function.update_of_ne h ..

/-- An assignment to one motor in a loop over a list of motors. -/
theorem foldl_updateMotor_motors (f : Motor → Motor) {l : List (Fin axisCount)}
    (hl : l.Nodup) (s : State) :
    (l.foldl (fun s i => s.updateMotor i f) s).motors m =
      if m ∈ l then f (s.motors m) else s.motors m := by
  induction l generalizing s with
  | nil => rfl
  | cons i l ih =>
    obtain ⟨hi, hl⟩ := List.nodup_cons.mp hl
    rw [List.foldl_cons, ih hl]
    by_cases hm : m = i
    · subst hm
      simp [hi]
    · simp [hm, updateMotor_other f hm]

theorem foldl_updateMotor_brake (f : Motor → Motor) (l : List (Fin axisCount)) (s : State) :
    (l.foldl (fun s i => s.updateMotor i f) s).brakeResistorArmed =
      s.brakeResistorArmed := by
  induction l generalizing s with
  | nil => rfl
  | cons i l ih =>
    rw [List.foldl_cons, ih]
    rfl

/-- Disarming the brake resistor disarms all motors. -/
theorem disarmBrakeResistor_motors (s : State) (m : Fin axisCount) :
    (safetyCriticalDisarmBrakeResistor s).motors m =
      { s.motors m with armedState := .DISARMED, moe := false } := by
  have h := foldl_updateMotor_motors (m := m)
    (fun motor => { motor with armedState := .DISARMED, moe := false })
    (List.nodup_finRange axisCount)
    { s with
      brakeResistorArmed := false
      htim2Ccr3 := 0
      htim2Ccr4 := timApb1PeriodClocks + 1 }
  rw [if_pos (List.mem_finRange m)] at h
  exact h

theorem disarmBrakeResistor_brake (s : State) :
    (safetyCriticalDisarmBrakeResistor s).brakeResistorArmed = false :=
  foldl_updateMotor_brake (fun motor => { motor with armedState := .DISARMED, moe := false })
    (List.finRange axisCount) _

theorem lowLevelFault_motors (error : MotorError) (s : State) (m : Fin axisCount) :
    ((lowLevelFault error s).motors m).armedState = .DISARMED ∧
      ((lowLevelFault error s).motors m).moe = false := by
  unfold lowLevelFault
  rw [disarmBrakeResistor_motors]
  exact ⟨rfl, rfl⟩

@[simp] theorem writeBrakeResistorTimings_motors (lowOff highOn : BitVec 32) (s : State) :
    (writeBrakeResistorTimings lowOff highOn s).motors = s.motors := by
  unfold writeBrakeResistorTimings
  split <;> rfl

@[simp] theorem writeBrakeResistorTimings_brake (lowOff highOn : BitVec 32) (s : State) :
    (writeBrakeResistorTimings lowOff highOn s).brakeResistorArmed =
      s.brakeResistorArmed := by
  unfold writeBrakeResistorTimings
  split <;> rfl

/-- A call that gives timings to a motor leaves the others alone. -/
theorem applyMotorPwmTimings_other (timings : Timings) {i : Fin axisCount} (h : m ≠ i) :
    (safetyCriticalApplyMotorPwmTimings i timings s).motors m = s.motors m := by
  unfold safetyCriticalApplyMotorPwmTimings safetyCriticalDisarmMotorPwm
  cases hbrake : s.brakeResistorArmed <;> cases hstate : (s.motors i).armedState <;>
    simp [hstate, updateMotor_other _ h]

theorem applyMotorPwmTimings_brake (timings : Timings) (s : State) (m : Fin axisCount) :
    (safetyCriticalApplyMotorPwmTimings m timings s).brakeResistorArmed =
      s.brakeResistorArmed := by
  unfold safetyCriticalApplyMotorPwmTimings safetyCriticalDisarmMotorPwm
  cases hbrake : s.brakeResistorArmed <;> cases hstate : (s.motors m).armedState <;>
    simp [hstate, hbrake]

theorem applyMotorPwmTimings_move (timings : Timings) (s : State) (m : Fin axisCount) :
    Move m s.brakeResistorArmed (.applyMotorPwmTimings m timings) (s.motors m)
      ((safetyCriticalApplyMotorPwmTimings m timings s).motors m) := by
  have hevent : (Event.applyMotorPwmTimings m timings).IsTimings m = true := by
    simp [Event.IsTimings]
  unfold safetyCriticalApplyMotorPwmTimings safetyCriticalDisarmMotorPwm
  cases hbrake : s.brakeResistorArmed with
  | false =>
    apply Move.disarm <;> simp
  | true =>
    cases hstate : (s.motors m).armedState with
    | DISARMED =>
      apply Move.disarm <;> simp [hstate]
    | WAITING_FOR_TIMINGS =>
      apply Move.load hevent rfl hstate <;> simp [hstate]
    | WAITING_FOR_UPDATE =>
      apply Move.enable hevent rfl hstate <;> simp [hstate]
    | ARMED =>
      apply Move.keep
      simp [Motor.SameOutput, hstate]

/-- Whatever the event, every motor makes one of the five moves. -/
theorem step_move (s : State) (e : Event) (m : Fin axisCount) :
    Move m s.brakeResistorArmed e (s.motors m) ((step s e).motors m) := by
  cases e with
  | armMotorPwm i =>
    show Move m _ _ _ ((safetyCriticalArmMotorPwm i s).motors m)
    unfold safetyCriticalArmMotorPwm
    split
    next hbrake =>
      by_cases hm : m = i
      · subst hm
        exact .arm rfl hbrake (by simp) (by simp)
      · rw [updateMotor_other _ hm]
        exact .keep (.refl _)
    next =>
      exact .keep (.refl _)
  | disarmMotorPwm i =>
    show Move m _ _ _ ((safetyCriticalDisarmMotorPwm i s).2.motors m)
    unfold safetyCriticalDisarmMotorPwm
    by_cases hm : m = i
    · subst hm
      exact .disarm (by simp) (by simp)
    · rw [updateMotor_other _ hm]
      exact .keep (.refl _)
  | applyMotorPwmTimings i timings =>
    show Move m _ _ _ ((safetyCriticalApplyMotorPwmTimings i timings s).motors m)
    by_cases hm : m = i
    · subst hm
      exact applyMotorPwmTimings_move timings s m
    · rw [applyMotorPwmTimings_other timings hm]
      exact .keep (.refl _)
  | armBrakeResistor => exact .keep (.refl _)
  | disarmBrakeResistor =>
    show Move m _ _ _ ((safetyCriticalDisarmBrakeResistor s).motors m)
    rw [disarmBrakeResistor_motors]
    exact .disarm rfl rfl
  | applyBrakeResistorTimings lowOff highOn =>
    show Move m _ _ _ ((safetyCriticalApplyBrakeResistorTimings lowOff highOn s).motors m)
    unfold safetyCriticalApplyBrakeResistorTimings
    rw [writeBrakeResistorTimings_motors]
    split
    · exact .disarm (lowLevelFault_motors _ s m).1 (lowLevelFault_motors _ s m).2
    · exact .keep (.refl _)
  | writeBrakeResistorTimings lowOff highOn =>
    show Move m _ _ _ ((writeBrakeResistorTimings lowOff highOn s).motors m)
    rw [writeBrakeResistorTimings_motors]
    exact .keep (.refl _)
  | lowLevelFault error =>
    exact .disarm (lowLevelFault_motors error s m).1 (lowLevelFault_motors error s m).2
  | setMotorError i error =>
    show Move m _ _ _ ((setMotorError i error s).motors m)
    unfold setMotorError
    by_cases hm : m = i
    · subst hm
      rw [updateMotor_self]
      exact .keep (.refl _)
    · rw [updateMotor_other _ hm]
      exact .keep (.refl _)

/-- An event that disarms the brake resistor disarms all motors. -/
theorem step_brake (s : State) (e : Event) (m : Fin axisCount)
    (hbrake : s.brakeResistorArmed = true)
    (hlive : ((step s e).motors m).armedState ≠ .DISARMED) :
    (step s e).brakeResistorArmed = true := by
  cases e with
  | armMotorPwm i =>
    show (safetyCriticalArmMotorPwm i s).brakeResistorArmed = true
    unfold safetyCriticalArmMotorPwm
    rw [if_pos hbrake]
    exact hbrake
  | disarmMotorPwm i => exact hbrake
  | applyMotorPwmTimings i timings =>
    show (safetyCriticalApplyMotorPwmTimings i timings s).brakeResistorArmed = true
    rw [applyMotorPwmTimings_brake]
    exact hbrake
  | armBrakeResistor => rfl
  | disarmBrakeResistor =>
    refine absurd ?_ hlive
    show ((safetyCriticalDisarmBrakeResistor s).motors m).armedState = .DISARMED
    rw [disarmBrakeResistor_motors]
  | applyBrakeResistorTimings lowOff highOn =>
    show (safetyCriticalApplyBrakeResistorTimings lowOff highOn s).brakeResistorArmed = true
    change ((safetyCriticalApplyBrakeResistorTimings lowOff highOn s).motors m).armedState ≠
      .DISARMED at hlive
    unfold safetyCriticalApplyBrakeResistorTimings at hlive ⊢
    rw [writeBrakeResistorTimings_motors] at hlive
    rw [writeBrakeResistorTimings_brake]
    split at hlive
    next => exact absurd (lowLevelFault_motors _ s m).1 hlive
    next h =>
      rw [if_neg h]
      exact hbrake
  | writeBrakeResistorTimings lowOff highOn =>
    show (writeBrakeResistorTimings lowOff highOn s).brakeResistorArmed = true
    rw [writeBrakeResistorTimings_brake]
    exact hbrake
  | lowLevelFault error => exact absurd (lowLevelFault_motors error s m).1 hlive
  | setMotorError i error => exact hbrake

/-! ## The invariant -/

/-- A motor that is not disarmed needs the brake resistor, and only such a motor has
its outputs enabled. -/
structure Armable (s : State) (m : Fin axisCount) : Prop where
  brake : (s.motors m).armedState ≠ .DISARMED → s.brakeResistorArmed = true
  moe : (s.motors m).moe = true → (s.motors m).armedState ≠ .DISARMED

theorem Armable.of_disarmed (hstate : (s.motors m).armedState = .DISARMED)
    (hmoe : (s.motors m).moe = false) : Armable s m where
  brake h := absurd hstate h
  moe h := by
    rw [hmoe] at h
    cases h

theorem Armable.step (h : Armable s m) (e : Event) : Armable (step s e) m := by
  constructor
  · intro hlive
    apply step_brake s e m ?_ hlive
    cases step_move s e m with
    | keep hsame =>
      rw [hsame.1] at hlive
      exact h.brake hlive
    | disarm hstate _ => exact absurd hstate hlive
    | arm _ hbrake => exact hbrake
    | load _ hbrake => exact hbrake
    | enable _ hbrake => exact hbrake
  · intro hmoe
    cases step_move s e m with
    | keep hsame =>
      rw [hsame.1]
      rw [hsame.2] at hmoe
      exact h.moe hmoe
    | disarm _ hoff =>
      rw [hoff] at hmoe
      cases hmoe
    | arm _ _ hstate => simp [hstate]
    | load _ _ _ hstate => simp [hstate]
    | enable _ _ _ hstate => simp [hstate]

theorem Armable.run (h : Armable s m) (es : List Event) : Armable (run s es) m := by
  refine (Run.foldl LowLevel.step s es).invariant (I := fun s => Armable s m) h ?_
  rintro s e t hs rfl
  exact hs.step e

/-! ## The way to enabled outputs -/

/-- How many times a motor must have been given timings since it was armed to get
where it is. -/
def Motor.level (motor : Motor) : Nat :=
  if motor.moe then 2
  else
    match motor.armedState with
    | .DISARMED => 0
    | .WAITING_FOR_TIMINGS => 0
    | .WAITING_FOR_UPDATE => 1
    | .ARMED => 2

/-- The level rises by one at most, and only where the motor is given timings. -/
theorem Move.level_le {brake : Bool} {r t : Motor} (h : Move m brake e r t)
    (hlive : t.armedState ≠ .DISARMED) :
    t.level ≤ r.level + if e.IsTimings m then 1 else 0 := by
  cases h with
  | keep hsame =>
    unfold Motor.level
    rw [hsame.1, hsame.2]
    exact Nat.le_add_right _ _
  | disarm hstate _ => exact absurd hstate hlive
  | arm _ _ hstate hmoe =>
    unfold Motor.level
    rw [hstate, hmoe]
    cases r.moe <;> simp
  | load hevent _ hfrom hstate hmoe =>
    unfold Motor.level
    rw [hstate, hmoe, hfrom, hevent]
    cases r.moe <;> simp
  | enable hevent _ hfrom hstate hmoe =>
    unfold Motor.level
    rw [hstate, hmoe, hfrom, hevent]
    cases r.moe <;> simp

/-- In the events `es` from the state `s` the motor `m` is armed, from then on it is
never disarmed, and it is given timings at least `n` times. -/
def ArmedSince (m : Fin axisCount) (n : Nat) (s : State) (es : List Event) : Prop :=
  ∃ before after : List Event, es = before ++ .armMotorPwm m :: after ∧
    (∀ mid, mid <+: after →
      ((run s (before ++ .armMotorPwm m :: mid)).motors m).armedState ≠ .DISARMED) ∧
    n ≤ after.countP (Event.IsTimings m)

theorem ArmedSince.mono {n k : Nat} {es : List Event} (h : ArmedSince m n s es)
    (hk : k ≤ n) : ArmedSince m k s es := by
  obtain ⟨before, after, heq, hlive, hn⟩ := h
  exact ⟨before, after, heq, hlive, hk.trans hn⟩

/-- The call that arms the motor starts the count. -/
theorem ArmedSince.of_arm {es : List Event}
    (hlive : ((run s (es ++ [.armMotorPwm m])).motors m).armedState ≠ .DISARMED) :
    ArmedSince m 0 s (es ++ [.armMotorPwm m]) := by
  refine ⟨es, [], rfl, ?_, Nat.zero_le _⟩
  intro mid hmid
  rw [List.prefix_nil.mp hmid]
  exact hlive

/-- One more event that does not disarm the motor. -/
theorem ArmedSince.snoc {n : Nat} {es : List Event} (h : ArmedSince m n s es)
    (hlive : ((run s (es ++ [e])).motors m).armedState ≠ .DISARMED) :
    ArmedSince m (n + if e.IsTimings m then 1 else 0) s (es ++ [e]) := by
  obtain ⟨before, after, rfl, hkept, hn⟩ := h
  refine ⟨before, after ++ [e], by simp, ?_, ?_⟩
  · intro mid hmid
    rcases List.prefix_concat_iff.mp hmid with rfl | hmid
    · simpa using hlive
    · exact hkept mid hmid
  · rw [List.countP_append, List.countP_singleton]
    exact Nat.add_le_add_right hn _

/-- A motor that was disarmed and is not any more went all the way: it was armed, and
was given timings as many times as its state says. -/
theorem armedSince_of_live (hdis : (s.motors m).armedState = .DISARMED)
    (hinv : Armable s m) (es : List Event)
    (hlive : ((run s es).motors m).armedState ≠ .DISARMED) :
    ArmedSince m ((run s es).motors m).level s es := by
  induction es using List.reverseRecOn with
  | nil => exact absurd hdis hlive
  | append_singleton es e ih =>
    have hafter := hlive
    rw [run_append] at hlive ⊢
    rw [run_cons, run_nil] at hlive ⊢
    by_cases hbefore : ((run s es).motors m).armedState = .DISARMED
    · -- only a call that arms the motor leads out of the disarmed state
      have hoff : ((run s es).motors m).moe ≠ true := fun h => (hinv.run es).moe h hbefore
      cases step_move (run s es) e m with
      | keep hsame => exact absurd (hsame.1.trans hbefore) hlive
      | disarm hstate _ => exact absurd hstate hlive
      | arm hevent _ hstate hmoe =>
        subst hevent
        refine (ArmedSince.of_arm hafter).mono (Nat.le_of_eq ?_)
        simp [Motor.level, hmoe, hoff, hstate]
      | load _ _ hfrom => simp [hfrom] at hbefore
      | enable _ _ hfrom => simp [hfrom] at hbefore
    · exact ((ih hbefore).snoc hafter).mono ((step_move _ e m).level_le hlive)

/-- **Arming safety.** From all motors disarmed with MOE off, after any sequence of
events: a motor with MOE on is not disarmed and the brake resistor is armed; and
since any earlier moment at which it was disarmed it was armed again, was never
disarmed from then on, and was given timings at least twice. -/
theorem moe_safe (s : State)
    (hinit : ∀ m, (s.motors m).armedState = .DISARMED ∧ (s.motors m).moe = false)
    (m : Fin axisCount) (es : List Event) (hmoe : ((run s es).motors m).moe = true) :
    ((run s es).motors m).armedState ≠ .DISARMED ∧
      (run s es).brakeResistorArmed = true ∧
      ∀ earlier later, es = earlier ++ later →
        ((run s earlier).motors m).armedState = .DISARMED →
          ((run s earlier).motors m).moe = false ∧
            ArmedSince m 2 (run s earlier) later := by
  have hinv : Armable s m := .of_disarmed (hinit m).1 (hinit m).2
  have hlive := (hinv.run es).moe hmoe
  refine ⟨hlive, (hinv.run es).brake hlive, ?_⟩
  rintro earlier later rfl hdis
  rw [run_append] at hmoe hlive
  have hsince := armedSince_of_live hdis (hinv.run earlier) later hlive
  constructor
  · cases hoff : ((run s earlier).motors m).moe with
    | false => rfl
    | true => exact absurd hdis ((hinv.run earlier).moe hoff)
  · refine hsince.mono (Nat.le_of_eq ?_)
    simp [Motor.level, hmoe]

/-- After reset nothing is armed and no output is enabled. -/
def resetState : State where
  brakeResistorArmed := false
  htim2Ccr3 := 0
  htim2Ccr4 := timApb1PeriodClocks + 1
  motors := fun _ => { armedState := .DISARMED, error := 0, moe := false, ccr := ⟨0, 0, 0⟩ }

theorem moe_safe_start :
    ArmedSince 0 2 (run resetState [.armBrakeResistor])
      [.armMotorPwm 0, .applyMotorPwmTimings 0 ⟨1, 2, 3⟩, .applyMotorPwmTimings 0 ⟨4, 5, 6⟩] :=
  ((moe_safe resetState (fun _ => ⟨rfl, rfl⟩) 0
    [.armBrakeResistor, .armMotorPwm 0, .applyMotorPwmTimings 0 ⟨1, 2, 3⟩,
      .applyMotorPwmTimings 0 ⟨4, 5, 6⟩] (by decide)).2.2
    [.armBrakeResistor] _ rfl (by decide)).2

end WODrive.LowLevel
