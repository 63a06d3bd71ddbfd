import WODrive.LowLevel.Arming
import WODrive.LowLevel.NextTimings

/-!
# The dead time of the brake resistor

The two sides of the brake resistor's half bridge must not conduct at once: while the
brake resistor is armed, `CCR4` is at least `TIM_APB1_DEADTIME_CLOCKS` above `CCR3`
(`DeadTime`). The timer reads both registers at any time, so this has to hold after each
of the assignments that `safety_critical_apply_brake_resistor_timings` makes, which
`applyBrakeResistorTimingsWrites` lists.

The check at the top of the function subtracts without a sign. It finds the pairs that are
too close, but a low side that switches off well after the high side switches on looks like
a long dead time. Nor does it see that the third of the four writes meets the value with
which the registers were reset. `deadTimeKept_iff` says for which pairs and states the
function is safe, and `updateBrakeCurrent_separated` that its caller only passes such pairs.
-/

namespace WODrive.LowLevel

variable {s : State} {lowOff highOn : BitVec 32}

/-! ## Assignments -/

/-- One assignment of a critical section. -/
inductive Write where
  | armedState (m : Fin axisCount) (armedState : ArmedState)
  | moe (m : Fin axisCount) (enabled : Bool)
  | error (m : Fin axisCount) (error : MotorError)
  | brakeResistorArmed (armed : Bool)
  | htim2Ccr3 (value : BitVec 32)
  | htim2Ccr4 (value : BitVec 32)
deriving DecidableEq, Repr

def State.write (s : State) : Write → State
  | .armedState m armedState => s.updateMotor m fun motor => { motor with armedState }
  | .moe m enabled => s.updateMotor m fun motor => { motor with moe := enabled }
  | .error m error => setMotorError m error s
  | .brakeResistorArmed armed => { s with brakeResistorArmed := armed }
  | .htim2Ccr3 value => { s with htim2Ccr3 := value }
  | .htim2Ccr4 value => { s with htim2Ccr4 := value }

/-- The assignments of `safety_critical_disarm_motor_pwm`. -/
def disarmMotorPwmWrites (m : Fin axisCount) : List Write :=
  [.armedState m .DISARMED, .moe m false]

/-- The assignments of `safety_critical_disarm_brake_resistor`. -/
def disarmBrakeResistorWrites : List Write :=
  [.brakeResistorArmed false, .htim2Ccr3 0, .htim2Ccr4 (timApb1PeriodClocks + 1)] ++
    (List.finRange axisCount).flatMap disarmMotorPwmWrites

/-- The assignments of `low_level_fault`. -/
def lowLevelFaultWrites (error : MotorError) : List Write :=
  (List.finRange axisCount).flatMap (fun i => disarmMotorPwmWrites i ++ [.error i error]) ++
    disarmBrakeResistorWrites

/-- The assignments of `safety_critical_apply_brake_resistor_timings`. -/
def applyBrakeResistorTimingsWrites (lowOff highOn : BitVec 32) (s : State) : List Write :=
  let fault :=
    if highOn - lowOff < timApb1DeadtimeClocks then
      lowLevelFaultWrites .ERROR_BRAKE_DEADTIME_VIOLATION
    else []
  fault ++
    if (fault.foldl State.write s).brakeResistorArmed then
      [.htim2Ccr3 0, .htim2Ccr4 (timApb1PeriodClocks + 1), .htim2Ccr3 lowOff, .htim2Ccr4 highOn]
    else []

theorem updateMotor_updateMotor (m : Fin axisCount) (f g : Motor → Motor) (s : State) :
    (s.updateMotor m f).updateMotor m g = s.updateMotor m fun motor => g (f motor) := by
  simp [State.updateMotor]

theorem foldl_disarmMotorPwmWrites (m : Fin axisCount) (s : State) :
    (disarmMotorPwmWrites m).foldl State.write s = (safetyCriticalDisarmMotorPwm m s).2 := by
  simp [disarmMotorPwmWrites, State.write, safetyCriticalDisarmMotorPwm, updateMotor_updateMotor]

theorem foldl_disarmBrakeResistorWrites (s : State) :
    disarmBrakeResistorWrites.foldl State.write s = safetyCriticalDisarmBrakeResistor s := by
  unfold disarmBrakeResistorWrites safetyCriticalDisarmBrakeResistor
  rw [List.foldl_append, List.foldl_flatMap]
  simp only [foldl_disarmMotorPwmWrites]
  rfl

theorem foldl_lowLevelFaultWrites (error : MotorError) (s : State) :
    (lowLevelFaultWrites error).foldl State.write s = lowLevelFault error s := by
  unfold lowLevelFaultWrites lowLevelFault
  rw [List.foldl_append, foldl_disarmBrakeResistorWrites, List.foldl_flatMap]
  simp only [List.foldl_append, foldl_disarmMotorPwmWrites]
  rfl

/-- Made one after the other, the assignments are the function. -/
theorem foldl_applyBrakeResistorTimingsWrites (lowOff highOn : BitVec 32) (s : State) :
    (applyBrakeResistorTimingsWrites lowOff highOn s).foldl State.write s =
      safetyCriticalApplyBrakeResistorTimings lowOff highOn s := by
  have hwrites : ∀ t : State,
      (if t.brakeResistorArmed then
        [.htim2Ccr3 0, .htim2Ccr4 (timApb1PeriodClocks + 1), .htim2Ccr3 lowOff,
          .htim2Ccr4 highOn] else ([] : List Write)).foldl State.write t =
        writeBrakeResistorTimings lowOff highOn t := by
    intro t
    unfold writeBrakeResistorTimings
    split <;> rfl
  unfold applyBrakeResistorTimingsWrites safetyCriticalApplyBrakeResistorTimings
  rw [List.foldl_append, hwrites]
  split
  · rw [foldl_lowLevelFaultWrites]
  · rfl

/-! ## After every assignment -/

/-- `P` holds before, between and after the assignments. -/
def Throughout (P : State → Prop) (ws : List Write) (s : State) : Prop :=
  ∀ vs, vs <+: ws → P (vs.foldl State.write s)

@[simp] theorem throughout_nil (P : State → Prop) (s : State) : Throughout P [] s ↔ P s := by
  simp [Throughout]

@[simp] theorem throughout_cons (P : State → Prop) (w : Write) (ws : List Write) (s : State) :
    Throughout P (w :: ws) s ↔ P s ∧ Throughout P ws (s.write w) := by
  constructor
  · intro h
    refine ⟨h [] List.nil_prefix, fun vs hvs => ?_⟩
    exact h (w :: vs) (List.cons_prefix_cons.mpr ⟨rfl, hvs⟩)
  · rintro ⟨h, hrest⟩ vs hvs
    obtain rfl | ⟨us, rfl, hus⟩ := List.prefix_cons_iff.mp hvs
    · exact h
    · exact hrest us hus

theorem throughout_append (P : State → Prop) (ws xs : List Write) (s : State) :
    Throughout P (ws ++ xs) s ↔ Throughout P ws s ∧ Throughout P xs (ws.foldl State.write s) := by
  induction ws generalizing s with
  | nil =>
    constructor
    · intro h
      exact ⟨(throughout_nil P s).mpr (h [] List.nil_prefix), h⟩
    · exact fun h => h.2
  | cons w ws ih =>
    rw [List.cons_append, throughout_cons, throughout_cons, ih, List.foldl_cons, and_assoc]

theorem Throughout.last {P : State → Prop} {ws : List Write} (h : Throughout P ws s) :
    P (ws.foldl State.write s) :=
  h ws (List.prefix_refl ws)

/-! ## The dead time -/

/-- While the brake resistor is armed its two sides are apart, as integers. -/
def DeadTime (s : State) : Prop :=
  s.brakeResistorArmed = true →
    s.htim2Ccr3.toNat + timApb1DeadtimeClocks.toNat ≤ s.htim2Ccr4.toNat

/-- Nothing is armed. -/
structure AllDisarmed (s : State) : Prop where
  brake : s.brakeResistorArmed = false
  motors : ∀ m, (s.motors m).armedState = .DISARMED ∧ (s.motors m).moe = false

/-- The pair is apart, and its low side from the value to which the high side is reset. -/
structure Separated (lowOff highOn : BitVec 32) : Prop where
  pair : lowOff.toNat + timApb1DeadtimeClocks.toNat ≤ highOn.toNat
  reset : lowOff.toNat + timApb1DeadtimeClocks.toNat ≤ (timApb1PeriodClocks + 1).toNat

/-- The registers are apart after each write, and a pair whose writes are not leaves
everything disarmed. -/
structure DeadTimeKept (lowOff highOn : BitVec 32) (s : State) : Prop where
  throughout : Throughout DeadTime (applyBrakeResistorTimingsWrites lowOff highOn s) s
  disarmed : ¬ Separated lowOff highOn →
    AllDisarmed (safetyCriticalApplyBrakeResistorTimings lowOff highOn s)

theorem allDisarmed_lowLevelFault (error : MotorError) (s : State) :
    AllDisarmed (lowLevelFault error s) :=
  ⟨disarmBrakeResistor_brake _, lowLevelFault_motors error s⟩

/-- Without the flag there is nothing to keep apart. -/
theorem deadTime_of_disarmed (h : s.brakeResistorArmed = false) : DeadTime s := by
  intro harmed
  rw [h] at harmed
  cases harmed

/-- The assignments to the motors do not touch the brake resistor. -/
theorem throughout_motors {ws : List Write} (hs : DeadTime s)
    (hws : ∀ w ∈ ws, (∃ m a, w = .armedState m a) ∨ (∃ m b, w = .moe m b) ∨
      ∃ m e, w = .error m e) :
    Throughout DeadTime ws s := by
  induction ws generalizing s with
  | nil => exact (throughout_nil _ s).mpr hs
  | cons w ws ih =>
    refine (throughout_cons _ w ws s).mpr ⟨hs, ih ?_ fun v hv => hws v (List.mem_cons_of_mem w hv)⟩
    obtain ⟨m, a, rfl⟩ | ⟨m, b, rfl⟩ | ⟨m, e, rfl⟩ := hws w List.mem_cons_self <;> exact hs

/-- A fault disarms the brake resistor before it touches its registers. -/
theorem throughout_lowLevelFaultWrites (error : MotorError) (hs : DeadTime s) :
    Throughout DeadTime (lowLevelFaultWrites error) s := by
  unfold lowLevelFaultWrites disarmBrakeResistorWrites
  rw [throughout_append, List.cons_append, throughout_cons]
  have hfirst : Throughout DeadTime
      ((List.finRange axisCount).flatMap fun i => disarmMotorPwmWrites i ++ [.error i error])
      s := by
    refine throughout_motors hs fun w hw => ?_
    obtain ⟨i, -, hi⟩ := List.mem_flatMap.mp hw
    simp only [disarmMotorPwmWrites, List.cons_append, List.nil_append, List.mem_cons,
      List.not_mem_nil, or_false] at hi
    obtain rfl | rfl | rfl := hi
    · exact .inl ⟨_, _, rfl⟩
    · exact .inr (.inl ⟨_, _, rfl⟩)
    · exact .inr (.inr ⟨_, _, rfl⟩)
  refine ⟨hfirst, hfirst.last, ?_⟩
  rw [List.cons_append, throughout_cons, List.cons_append, throughout_cons, List.nil_append]
  refine ⟨deadTime_of_disarmed rfl, deadTime_of_disarmed rfl,
    throughout_motors (deadTime_of_disarmed rfl) fun w hw => ?_⟩
  obtain ⟨i, -, hi⟩ := List.mem_flatMap.mp hw
  simp only [disarmMotorPwmWrites, List.mem_cons, List.not_mem_nil, or_false] at hi
  obtain rfl | rfl := hi
  · exact .inl ⟨_, _, rfl⟩
  · exact .inr (.inl ⟨_, _, rfl⟩)

/-- The four writes to an armed brake resistor: the third and the fourth decide. -/
theorem throughout_armed_iff (hs : DeadTime s) (harmed : s.brakeResistorArmed = true) :
    Throughout DeadTime [.htim2Ccr3 0, .htim2Ccr4 (timApb1PeriodClocks + 1), .htim2Ccr3 lowOff,
      .htim2Ccr4 highOn] s ↔ Separated lowOff highOn := by
  have hlast := hs harmed
  have hdead : timApb1DeadtimeClocks.toNat = 40 := rfl
  have hperiod : (timApb1PeriodClocks + 1).toNat = 4097 := rfl
  simp only [throughout_cons, throughout_nil, DeadTime, State.write, harmed, true_implies,
    hdead, hperiod] at hs ⊢
  constructor
  · rintro ⟨-, -, -, hreset, hpair⟩
    exact ⟨hpair, hreset⟩
  · rintro ⟨hpair, hreset⟩
    refine ⟨hs, ?_, by decide, hreset, hpair⟩
    show 0 + 40 ≤ s.htim2Ccr4.toNat
    omega

/-- **The dead time is kept**, exactly: by the pairs that the check refuses, by those that
are separated, and where nothing is armed. -/
theorem deadTimeKept_iff (lowOff highOn : BitVec 32) (s : State)
    (hs : s.htim2Ccr3.toNat + timApb1DeadtimeClocks.toNat ≤ s.htim2Ccr4.toNat) :
    DeadTimeKept lowOff highOn s ↔
      highOn - lowOff < timApb1DeadtimeClocks ∨ Separated lowOff highOn ∨ AllDisarmed s := by
  have hdead : DeadTime s := fun _ => hs
  by_cases hfault : highOn - lowOff < timApb1DeadtimeClocks
  · refine iff_of_true ?_ (.inl hfault)
    have hdisarmed := allDisarmed_lowLevelFault .ERROR_BRAKE_DEADTIME_VIOLATION s
    constructor
    · simp only [applyBrakeResistorTimingsWrites, if_pos hfault, foldl_lowLevelFaultWrites,
        hdisarmed.brake, Bool.false_eq_true, if_false, List.append_nil]
      exact throughout_lowLevelFaultWrites _ hdead
    · intro _
      simp only [safetyCriticalApplyBrakeResistorTimings, if_pos hfault,
        writeBrakeResistorTimings, hdisarmed.brake, Bool.false_eq_true, if_false]
      exact hdisarmed
  · have hreturn : safetyCriticalApplyBrakeResistorTimings lowOff highOn s =
        writeBrakeResistorTimings lowOff highOn s := by
      simp only [safetyCriticalApplyBrakeResistorTimings, if_neg hfault]
    have hwrites : applyBrakeResistorTimingsWrites lowOff highOn s =
        if s.brakeResistorArmed then [.htim2Ccr3 0, .htim2Ccr4 (timApb1PeriodClocks + 1),
          .htim2Ccr3 lowOff, .htim2Ccr4 highOn] else [] := by
      simp only [applyBrakeResistorTimingsWrites, if_neg hfault, List.foldl_nil, List.nil_append]
    -- the writes do not disarm anything
    have hsame : AllDisarmed (writeBrakeResistorTimings lowOff highOn s) ↔ AllDisarmed s := by
      constructor
      · rintro ⟨hbrake, hmotors⟩
        exact ⟨by simpa using hbrake, by simpa using hmotors⟩
      · rintro ⟨hbrake, hmotors⟩
        exact ⟨by simpa using hbrake, by simpa using hmotors⟩
    constructor
    · rintro ⟨-, hdisarmed⟩
      by_cases hsep : Separated lowOff highOn
      · exact .inr (.inl hsep)
      · exact .inr (.inr (hsame.mp (hreturn ▸ hdisarmed hsep)))
    · rintro (h | hsep | hall)
      · exact absurd h hfault
      · refine ⟨?_, fun h => absurd hsep h⟩
        rw [hwrites]
        split
        next harmed => exact (throughout_armed_iff hdead harmed).mpr hsep
        next => exact (throughout_nil _ s).mpr hdead
      · refine ⟨?_, fun _ => hreturn ▸ hsame.mpr hall⟩
        rw [hwrites, hall.brake]
        exact (throughout_nil _ s).mpr hdead

theorem deadTimeKept_iff_duty :
    DeadTimeKept 1960 2000
      { brakeResistorArmed := true, htim2Ccr3 := 0, htim2Ccr4 := 4097,
        motors := fun _ => ⟨.DISARMED, 0, false, ⟨0, 0, 0⟩⟩ } :=
  (deadTimeKept_iff _ _ _ (by decide)).mpr (.inr (.inl ⟨by decide, by decide⟩))

/-- The low side off at 100, the high side on at 50: the difference wraps around and
passes the check, and both sides conduct. -/
theorem deadTime_not_kept :
    ¬ DeadTimeKept 100 50
      { brakeResistorArmed := true, htim2Ccr3 := 0, htim2Ccr4 := 4097,
        motors := fun _ => ⟨.DISARMED, 0, false, ⟨0, 0, 0⟩⟩ } := by
  rintro ⟨-, hdisarmed⟩
  have hsep : ¬ Separated 100 50 := fun h => absurd h.pair (by decide)
  exact absurd (hdisarmed hsep).brake (by decide)

/-! ## Whole runs -/

/-- `update_brake_current` passes a pair that is separated, which is written without a fault: for
a duty of at most 95 % the high side is on from clock 204 or later. -/
theorem updateBrakeCurrent_separated (hlo : timApb1DeadtimeClocks ≤ highOn)
    (hhi : highOn ≤ timApb1PeriodClocks + 1) (s : State) :
    Separated (highOn - timApb1DeadtimeClocks) highOn ∧
      updateBrakeCurrent (.highOn highOn) s =
        writeBrakeResistorTimings (highOn - timApb1DeadtimeClocks) highOn s := by
  have hdead : timApb1DeadtimeClocks.toNat = 40 := rfl
  have hperiod : (timApb1PeriodClocks + 1).toNat = 4097 := rfl
  have hlo' : 40 ≤ highOn.toNat := by simpa [BitVec.le_def, hdead] using hlo
  have hhi' : highOn.toNat ≤ 4097 := by simpa only [BitVec.le_def, hperiod] using hhi
  have hsub : (highOn - timApb1DeadtimeClocks).toNat = highOn.toNat - 40 :=
    BitVec.toNat_sub_of_le hlo
  have hsigned : ¬ (highOn - timApb1DeadtimeClocks).slt 0 = true := by
    rw [BitVec.slt_iff_toInt_lt, BitVec.toInt_eq_toNat_of_lt (by rw [hsub]; omega), hsub]
    show ¬ ((highOn.toNat - 40 : Nat) : Int) < 0
    omega
  have hapart : ¬highOn - (highOn - timApb1DeadtimeClocks) < timApb1DeadtimeClocks := by
    have hle : highOn - timApb1DeadtimeClocks ≤ highOn := by
      rw [BitVec.le_def, hsub]
      omega
    rw [BitVec.lt_def, BitVec.toNat_sub_of_le hle, hsub, hdead]
    omega
  refine ⟨⟨?_, ?_⟩, ?_⟩
  · rw [hsub, hdead]
    omega
  · rw [hsub, hdead, hperiod]
    omega
  · unfold updateBrakeCurrent safetyCriticalApplyBrakeResistorTimings
    simp only [if_neg hsigned, if_neg hapart]

/-- The pair that an event brings is separated. -/
def Event.Separated : Event → Prop
  | .applyBrakeResistorTimings lowOff highOn | .writeBrakeResistorTimings lowOff highOn =>
    LowLevel.Separated lowOff highOn
  | _ => True

theorem DeadTime.writeBrakeResistorTimings (h : DeadTime s) (hsep : Separated lowOff highOn) :
    DeadTime (writeBrakeResistorTimings lowOff highOn s) := by
  unfold LowLevel.writeBrakeResistorTimings
  split
  · exact fun _ => hsep.pair
  · exact h

/-- Sections that leave the flag and the two registers alone. -/
theorem DeadTime.congr {t : State} (h : DeadTime s)
    (hbrake : t.brakeResistorArmed = s.brakeResistorArmed) (hccr3 : t.htim2Ccr3 = s.htim2Ccr3)
    (hccr4 : t.htim2Ccr4 = s.htim2Ccr4) : DeadTime t := by
  unfold DeadTime
  rw [hbrake, hccr3, hccr4]
  exact h

theorem DeadTime.step (h : DeadTime s) {e : Event} (he : e.Separated) : DeadTime (step s e) := by
  cases e with
  | armMotorPwm m =>
    simp only [LowLevel.step, safetyCriticalArmMotorPwm]
    split <;> exact h
  | disarmMotorPwm m => exact h
  | applyMotorPwmTimings m timings =>
    simp only [LowLevel.step, safetyCriticalApplyMotorPwmTimings]
    split <;> split <;> exact h
  | armBrakeResistor => exact fun _ => (by decide : 0 + 40 ≤ 4097)
  | disarmBrakeResistor => exact deadTime_of_disarmed (disarmBrakeResistor_brake s)
  | applyBrakeResistorTimings lowOff highOn =>
    simp only [LowLevel.step, safetyCriticalApplyBrakeResistorTimings]
    split
    · exact (deadTime_of_disarmed
        (allDisarmed_lowLevelFault _ s).brake).writeBrakeResistorTimings he
    · exact h.writeBrakeResistorTimings he
  | writeBrakeResistorTimings lowOff highOn => exact h.writeBrakeResistorTimings he
  | lowLevelFault error => exact deadTime_of_disarmed (allDisarmed_lowLevelFault error s).brake
  | setMotorError m error => exact h

/-- The sides stay apart in every run whose pairs are separated. -/
theorem deadTime_run {es : List Event} (h : DeadTime s) (hes : ∀ e ∈ es, e.Separated) :
    DeadTime (run s es) := by
  induction es generalizing s with
  | nil => exact h
  | cons e es ih =>
    exact ih (h.step (hes e List.mem_cons_self)) fun f hf => hes f (List.mem_cons_of_mem e hf)

end WODrive.LowLevel
