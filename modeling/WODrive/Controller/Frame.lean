import WODrive.Controller.Model
import WODrive.Library.Failing

/-!
# What an update leaves alone (MotorControl/controller.cpp)

What follows the calibration in `update` does not touch its variables, and sets no error
unless it fails.

- `Keeps`, `KeepsErrors`: what does not change in any case, and unless it fails;
- `updateInputs_keeps`, `positionControl_keeps`, …: the parts of `update`;
- `update_keeps`: all that follows the calibration;
- `axisError_update`: an update that does not fail sets no error.
-/

namespace WODrive.Controller

universe u

variable {K : Type u} [Field K] [LinearOrder K] [FloorRing K]

/-- The variables of the calibration have the same values. -/
structure Keeps (c c' : Controller K) : Prop where
  inputPos : c'.inputPos = c.inputPos
  anticogging : c'.config.anticogging = c.config.anticogging
  anticoggingValid : c'.anticoggingValid = c.anticoggingValid

/-- So has the `error_` of the axis. -/
structure KeepsErrors (c c' : Controller K) : Prop extends Keeps c c' where
  axisError : c'.axisError = c.axisError

section Keeps

omit [Field K] [LinearOrder K] [FloorRing K]

variable {c c' c'' : Controller K}

theorem Keeps.trans (h : Keeps c c') (h' : Keeps c' c'') : Keeps c c'' where
  inputPos := h'.inputPos.trans h.inputPos
  anticogging := h'.anticogging.trans h.anticogging
  anticoggingValid := h'.anticoggingValid.trans h.anticoggingValid

theorem KeepsErrors.rfl : KeepsErrors c c := ⟨⟨Eq.refl _, Eq.refl _, Eq.refl _⟩, Eq.refl _⟩

theorem KeepsErrors.trans (h : KeepsErrors c c') (h' : KeepsErrors c' c'') :
    KeepsErrors c c'' where
  toKeeps := h.toKeeps.trans h'.toKeeps
  axisError := h'.axisError.trans h.axisError

theorem keeps_setError (error : BitVec 32) : Keeps c (setError error c) := ⟨rfl, rfl, rfl⟩

end Keeps

variable {sqrtf : K → K} {i : Inputs K} {c : Controller K}

omit [FloorRing K] in
theorem keeps_planInputPos : KeepsErrors c (planInputPos sqrtf i c) := by
  unfold planInputPos
  split
  · exact ⟨⟨rfl, rfl, rfl⟩, rfl⟩
  · exact KeepsErrors.rfl

omit [FloorRing K] in
theorem keeps_followTrajectory : KeepsErrors c (followTrajectory c) := by
  unfold followTrajectory
  split
  · exact ⟨⟨rfl, rfl, rfl⟩, rfl⟩
  · exact ⟨⟨rfl, rfl, rfl⟩, rfl⟩

omit [FloorRing K] in
theorem updateInputs_keeps (anticoggingPos : K) :
    Leaves (Keeps c) (fun r => KeepsErrors c r.2) (updateInputs sqrtf i anticoggingPos c) := by
  unfold updateInputs
  split
  · exact KeepsErrors.rfl
  · exact ⟨⟨rfl, rfl, rfl⟩, rfl⟩
  · exact ⟨⟨rfl, rfl, rfl⟩, rfl⟩
  · exact ⟨⟨rfl, rfl, rfl⟩, rfl⟩
  · exact ⟨⟨rfl, rfl, rfl⟩, rfl⟩
  · split
    · exact ⟨⟨rfl, rfl, rfl⟩, rfl⟩
    · exact keeps_setError _
  · simp only
    split
    · exact keeps_planInputPos
    · exact keeps_planInputPos.trans keeps_followTrajectory
  · exact keeps_setError _
  · exact keeps_setError _

theorem positionControl_keeps :
    Leaves (Keeps c) (fun r => KeepsErrors c r.2.2) (positionControl i c) := by
  unfold positionControl
  split
  · refine Leaves.map (Q := fun r => KeepsErrors c r.2) ?_ fun _ h => h
    split
    · split
      · exact keeps_setError _
      · exact ⟨⟨rfl, rfl, rfl⟩, rfl⟩
    · split
      · exact keeps_setError _
      · exact KeepsErrors.rfl
  · exact KeepsErrors.rfl

omit [FloorRing K] in
theorem checkOverspeed_keeps : Leaves (Keeps c) (KeepsErrors c) (checkOverspeed i c) := by
  unfold checkOverspeed
  split
  · split
    · exact keeps_setError _
    · split
      · exact keeps_setError _
      · exact KeepsErrors.rfl
  · exact KeepsErrors.rfl

omit [LinearOrder K] [FloorRing K] in
theorem velocityControl_keeps (velDes gain torque : K) :
    Leaves (Keeps c) (fun _ => True) (velocityControl i velDes gain torque c) := by
  unfold velocityControl
  split
  · split
    · exact keeps_setError _
    · trivial
  · trivial

omit [FloorRing K] in
theorem limitTorqueMode_keeps (velGain torque : K) :
    Leaves (Keeps c) (fun _ => True) (limitTorqueMode i velGain torque c) := by
  unfold limitTorqueMode
  split
  · split
    · exact keeps_setError _
    · trivial
  · trivial

omit [LinearOrder K] [FloorRing K] in
theorem keeps_integrate (limited : Bool) (gain vErr : K) :
    KeepsErrors c (integrate limited gain vErr c) := by
  unfold integrate
  split
  · exact ⟨⟨rfl, rfl, rfl⟩, rfl⟩
  · split
    · exact ⟨⟨rfl, rfl, rfl⟩, rfl⟩
    · exact ⟨⟨rfl, rfl, rfl⟩, rfl⟩

variable (sqrtf) in
/-- What follows the inputs in `update` leaves the calibration alone, and so do they. -/
theorem update_keeps {c₁ : Controller K} (hcalibrate : calibrate i c = .ok c₁) :
    Leaves (Keeps (wrapInputPos c₁)) (fun r => KeepsErrors (wrapInputPos c₁) r.2)
      (update sqrtf i c) := by
  unfold update
  rw [hcalibrate]
  refine Leaves.bind (Q := fun c => c = c₁) rfl ?_
  rintro _ rfl
  refine Leaves.bind (updateInputs_keeps _) ?_
  rintro ⟨anticoggingPos, c₂⟩ h₂
  refine Leaves.bind (positionControl_keeps.imp (fun _ => h₂.toKeeps.trans) (fun _ => h₂.trans)) ?_
  rintro ⟨velDes, multiplier, c₃⟩ h₃
  refine Leaves.bind (checkOverspeed_keeps.imp (fun _ => h₃.toKeeps.trans) (fun _ => h₃.trans)) ?_
  rintro c₄ h₄
  refine Leaves.bind
    ((velocityControl_keeps _ _ _).imp (fun _ => h₄.toKeeps.trans) (fun _ h => h)) ?_
  rintro ⟨vErr, torque⟩ -
  refine Leaves.bind ((limitTorqueMode_keeps _ _).imp (fun _ => h₄.toKeeps.trans) (fun _ h => h)) ?_
  rintro torque -
  exact h₄.trans (keeps_integrate _ _ _)

theorem wrapInputPos_anticogging (c : Controller K) :
    (wrapInputPos c).config.anticogging = c.config.anticogging ∧
      (wrapInputPos c).anticoggingValid = c.anticoggingValid := by
  unfold wrapInputPos
  split
  · exact ⟨rfl, rfl⟩
  · exact ⟨rfl, rfl⟩

theorem wrapInputPos_inputPos (c : Controller K) :
    (wrapInputPos c).inputPos =
      if c.config.circularSetpoints then fmodfPos c.inputPos c.config.circularSetpointRange
      else c.inputPos := by
  unfold wrapInputPos
  split
  · rfl
  · rfl

/-! ## The error of the axis -/

theorem axisError_wrapInputPos (c : Controller K) : (wrapInputPos c).axisError = c.axisError := by
  unfold wrapInputPos
  split
  · rfl
  · rfl

omit [FloorRing K] in
theorem axisError_anticoggingCalibration (i : Inputs K) (c : Controller K) :
    (anticoggingCalibration i c).2.axisError = c.axisError := by
  unfold anticoggingCalibration
  simp only
  split
  · split
    · rfl
    · rfl
  · split
    · rfl
    · rfl

omit [FloorRing K] in
theorem axisError_calibrate {c₁ : Controller K} (h : calibrate i c = .ok c₁) :
    c₁.axisError = c.axisError := by
  unfold calibrate at h
  split at h
  · split at h
    · cases h
    · cases h
      exact axisError_anticoggingCalibration i c
  · cases h
    rfl

/-- An update that does not fail sets no error. -/
theorem axisError_update {out : Output K} {c' : Controller K}
    (h : update sqrtf i c = .ok (out, c')) : c'.axisError = c.axisError := by
  obtain ⟨c₁, hcalibrate, -⟩ := exists_of_bind_eq_ok h
  have hkeeps := update_keeps sqrtf hcalibrate
  rw [h] at hkeeps
  calc c'.axisError = (wrapInputPos c₁).axisError := hkeeps.axisError
    _ = c₁.axisError := axisError_wrapInputPos c₁
    _ = c.axisError := axisError_calibrate hcalibrate

end WODrive.Controller
