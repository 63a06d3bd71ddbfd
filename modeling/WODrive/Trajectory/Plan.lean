import Mathlib.Tactic.LinearCombination
import WODrive.Library.Joined
import WODrive.Trajectory.Model

/-!
# Where the parts of a trajectory join

The parts of a trajectory are ramps and a part at constant velocity, which `eval` reads
off on their own. `Joins` says that they meet at the borders between them; then the
trajectory is `Smooth`.

`planTrapezoidal` leaves parts that meet, in all its cases but one. A start that cannot
stop before the target with `Dmax` is planned as a move back from behind the target, whose
first ramp is with `Amax`. If `Amax` is larger then this ramp may come to rest in front of
the target (`StartsTooHard`), and the position jumps (`planTrapezoidal_smooth_iff`).
-/

namespace WODrive.Trajectory

variable {p : TrapezoidalTrajectory ℝ}

/-! ## Parts that meet -/

/-- The durations are not negative, and the parts meet at their borders. -/
structure Joins (p : TrapezoidalTrajectory ℝ) : Prop where
  Ta_nonneg : 0 ≤ p.Ta
  Tv_nonneg : 0 ≤ p.Tv
  Td_nonneg : 0 ≤ p.Td
  Tf_eq : p.Tf = p.Ta + p.Tv + p.Td
  accel : p.Vi + p.Ar * p.Ta = p.Vr
  decel : p.Dr * -p.Td = p.Vr
  yAccel_eq : p.yAccel = p.Xi + p.Vi * p.Ta + 1 / 2 * p.Ar * (p.Ta * p.Ta)
  coast : p.yAccel + p.Vr * p.Tv = p.Xf + 1 / 2 * p.Dr * (p.Td * p.Td)

/-- What a trajectory from `Xi` and `Vi` to rest at `Xf` should be like. -/
structure Smooth (p : TrapezoidalTrajectory ℝ) (Xf Xi Vi Vmax : ℝ) : Prop where
  durations : 0 ≤ p.Ta ∧ 0 ≤ p.Tv ∧ 0 ≤ p.Td
  continuousOn_Y : ContinuousOn (fun t => (eval p t).Y) (Set.Ici 0)
  continuousOn_Yd : ContinuousOn (fun t => (eval p t).Yd) (Set.Ici 0)
  eval_zero : 0 < p.Tf → (eval p 0).Y = Xi ∧ (eval p 0).Yd = Vi
  eval_end : ∀ t, p.Tf ≤ t → (eval p t).Y = Xf ∧ (eval p t).Yd = 0
  abs_Yd_le : ∀ t, |(eval p t).Yd| ≤ max |Vi| Vmax

/-- The position from time 0 on, in pieces. -/
theorem eval_Y {t : ℝ} (ht : 0 ≤ t) :
    (eval p t).Y = join p.Ta (fun t => p.Xi + p.Vi * t + 1 / 2 * p.Ar * (t * t))
      (join (p.Ta + p.Tv) (fun t => p.yAccel + p.Vr * (t - p.Ta))
        (join p.Tf (fun t => p.Xf + 1 / 2 * p.Dr * ((t - p.Tf) * (t - p.Tf)))
          fun _ => p.Xf)) t := by
  unfold eval join
  rw [if_neg (not_lt.mpr ht)]
  split_ifs <;> rfl

/-- The velocity from time 0 on, in pieces. -/
theorem eval_Yd {t : ℝ} (ht : 0 ≤ t) :
    (eval p t).Yd = join p.Ta (fun t => p.Vi + p.Ar * t)
      (join (p.Ta + p.Tv) (fun _ => p.Vr)
        (join p.Tf (fun t => p.Dr * (t - p.Tf)) fun _ => 0)) t := by
  unfold eval join
  rw [if_neg (not_lt.mpr ht)]
  split_ifs <;> rfl

namespace Joins

variable (h : Joins p)

include h

theorem coast_end : p.Ta + p.Tv ≤ p.Tf := by
  rw [h.Tf_eq]
  linarith [h.Td_nonneg]

theorem accel_end : p.Ta ≤ p.Ta + p.Tv := by linarith [h.Tv_nonneg]

/-- Where the part at constant velocity ends. -/
theorem coast_meets_Y : p.yAccel + p.Vr * (p.Ta + p.Tv - p.Ta) =
    join p.Tf (fun t => p.Xf + 1 / 2 * p.Dr * ((t - p.Tf) * (t - p.Tf))) (fun _ => p.Xf)
      (p.Ta + p.Tv) := by
  have htd : p.Ta + p.Tv - p.Tf = -p.Td := by linarith [h.Tf_eq]
  rw [join_of_le (by simp) h.coast_end]
  simp only [htd, neg_mul_neg, add_sub_cancel_left, h.coast]

/-- Where the first ramp ends. -/
theorem accel_meets_Y : p.Xi + p.Vi * p.Ta + 1 / 2 * p.Ar * (p.Ta * p.Ta) =
    join (p.Ta + p.Tv) (fun t => p.yAccel + p.Vr * (t - p.Ta))
      (join p.Tf (fun t => p.Xf + 1 / 2 * p.Dr * ((t - p.Tf) * (t - p.Tf))) fun _ => p.Xf)
      p.Ta := by
  rw [join_of_le h.coast_meets_Y h.accel_end, sub_self, mul_zero, add_zero, h.yAccel_eq]

theorem coast_meets_Yd :
    p.Vr = join p.Tf (fun t => p.Dr * (t - p.Tf)) (fun _ => 0) (p.Ta + p.Tv) := by
  have htd : p.Ta + p.Tv - p.Tf = -p.Td := by linarith [h.Tf_eq]
  rw [join_of_le (by simp) h.coast_end, htd, h.decel]

theorem accel_meets_Yd : p.Vi + p.Ar * p.Ta =
    join (p.Ta + p.Tv) (fun _ => p.Vr)
      (join p.Tf (fun t => p.Dr * (t - p.Tf)) fun _ => 0) p.Ta := by
  rw [join_of_le (f := fun _ => p.Vr) h.coast_meets_Yd h.accel_end, h.accel]

theorem continuousOn_Y : ContinuousOn (fun t => (eval p t).Y) (Set.Ici 0) := by
  refine ContinuousOn.congr (Continuous.continuousOn ?_) fun t ht => eval_Y ht
  have hend : Continuous (join p.Tf
      (fun t => p.Xf + 1 / 2 * p.Dr * ((t - p.Tf) * (t - p.Tf))) fun _ => p.Xf) :=
    continuous_join (by fun_prop) (by fun_prop) (by simp)
  exact continuous_join (by fun_prop)
    (continuous_join (by fun_prop) hend h.coast_meets_Y) h.accel_meets_Y

theorem continuousOn_Yd : ContinuousOn (fun t => (eval p t).Yd) (Set.Ici 0) := by
  refine ContinuousOn.congr (Continuous.continuousOn ?_) fun t ht => eval_Yd ht
  have hend : Continuous (join p.Tf (fun t => p.Dr * (t - p.Tf)) fun _ => 0) :=
    continuous_join (by fun_prop) (by fun_prop) (by simp)
  exact continuous_join (by fun_prop)
    (continuous_join (by fun_prop) hend h.coast_meets_Yd) h.accel_meets_Yd

theorem eval_zero : (eval p 0).Y = p.Xi ∧ (eval p 0).Yd = p.Vi := by
  rw [eval_Y le_rfl, eval_Yd le_rfl, join_of_le h.accel_meets_Y h.Ta_nonneg,
    join_of_le h.accel_meets_Yd h.Ta_nonneg]
  simp

end Joins

/-- After its end a trajectory is at rest at its goal. -/
theorem eval_end (hTa : 0 ≤ p.Ta) (hTv : 0 ≤ p.Tv) (hTd : 0 ≤ p.Td)
    (hTf : p.Tf = p.Ta + p.Tv + p.Td) {t : ℝ} (ht : p.Tf ≤ t) :
    (eval p t).Y = p.Xf ∧ (eval p t).Yd = 0 := by
  unfold eval
  rw [if_neg (by linarith), if_neg (by linarith), if_neg (by linarith), if_neg (by linarith)]
  exact ⟨rfl, rfl⟩

namespace Joins

variable (h : Joins p)

include h

/-- The velocity is largest at the ends of the ramps. -/
theorem abs_Yd_le {Vmax : ℝ} (hVr : |p.Vr| ≤ max |p.Vi| Vmax) (t : ℝ) :
    |(eval p t).Yd| ≤ max |p.Vi| Vmax := by
  unfold eval
  split
  · exact le_max_left _ _
  · split
    next h0 hTa =>
      refine (abs_ramp_le (not_lt.mp h0) hTa.le).trans ?_
      rw [h.accel]
      exact max_le (le_max_left _ _) hVr
    next h0 hTa =>
      split
      · exact hVr
      · split
        next hTv hTf =>
          -- the time that is left
          have hramp := abs_ramp_le (v := 0) (a := -p.Dr) (t := p.Tf - t) (d := p.Td)
            (by linarith) (by linarith [h.Tf_eq])
          have hVr' : 0 + -p.Dr * p.Td = p.Vr := by rw [← h.decel]; ring
          rw [hVr', abs_zero, max_eq_right (abs_nonneg _)] at hramp
          refine le_trans (le_of_eq ?_) (hramp.trans hVr)
          show |p.Dr * (t - p.Tf)| = _
          congr 1
          ring
        next =>
          rw [abs_zero]
          exact (abs_nonneg _).trans (le_max_left _ _)

theorem smooth {Vmax : ℝ} (hVr : |p.Vr| ≤ max |p.Vi| Vmax) : Smooth p p.Xf p.Xi p.Vi Vmax where
  durations := ⟨h.Ta_nonneg, h.Tv_nonneg, h.Td_nonneg⟩
  continuousOn_Y := h.continuousOn_Y
  continuousOn_Yd := h.continuousOn_Yd
  eval_zero := fun _ => h.eval_zero
  eval_end := fun _ => Trajectory.eval_end h.Ta_nonneg h.Tv_nonneg h.Td_nonneg h.Tf_eq
  abs_Yd_le := h.abs_Yd_le hVr

end Joins

/-! ## The plan in the direction of travel -/

/-- The acceleration of the first ramp, for a velocity `v` in the direction of travel. -/
noncomputable def rampAccel (v Vmax Amax : ℝ) : ℝ := if v > Vmax then -Amax else Amax

/-- What both ramps take together, if the first one goes up to `Vmax`. -/
noncomputable def rampDist (v Vmax a Dmax : ℝ) : ℝ :=
  1 / 2 * ((Vmax - v) / a) * (Vmax + v) + 1 / 2 * (Vmax / Dmax) * Vmax

/-- The square of the velocity between two ramps that take the distance `x`. -/
noncomputable def peakSq (v x a Dmax : ℝ) : ℝ := Dmax * (v ^ 2 + 2 * a * x) / (Dmax + a)

section

variable {s v x Xf Xi Vi Vmax Amax Dmax : ℝ}

theorem rampAccel_of_lt (h : Vmax < v) : rampAccel v Vmax Amax = -Amax := if_pos h

theorem rampAccel_of_le (h : v ≤ Vmax) : rampAccel v Vmax Amax = Amax := if_neg (not_lt.mpr h)

theorem rampAccel_ne_zero (hA : 0 < Amax) : rampAccel v Vmax Amax ≠ 0 := by
  rcases lt_or_ge Vmax v with hfast | hslow
  · rw [rampAccel_of_lt hfast]
    exact neg_ne_zero.mpr hA.ne'
  · rw [rampAccel_of_le hslow]
    exact hA.ne'

theorem copysign_stopDist (hD : 0 < Dmax) :
    copysign (Vi * Vi / (2 * Dmax)) Vi = Vi * |Vi| / (2 * Dmax) := by
  have hstop : 0 ≤ Vi * Vi / (2 * Dmax) := div_nonneg (mul_self_nonneg Vi) (by linarith)
  unfold copysign
  rw [abs_of_nonneg hstop]
  split
  next h => rw [abs_of_neg h, mul_neg, neg_div]
  next h => rw [abs_of_nonneg (not_lt.mp h)]

/-- The direction of travel is 1 or -1, and the distance is enough to stop with `Dmax`. -/
theorem signHard_direction (hD : 0 < Dmax) (dX : ℝ)
    (hs : s = signHard (dX - copysign (Vi * Vi / (2 * Dmax)) Vi)) :
    s * s = 1 ∧ s * Vi * |s * Vi| ≤ 2 * Dmax * (s * dX) := by
  rw [copysign_stopDist hD] at hs
  have hdist : Vi * |Vi| / (2 * Dmax) * (2 * Dmax) = Vi * |Vi| :=
    div_mul_cancel₀ _ (by linarith)
  unfold signHard at hs
  split at hs
  next h =>
    subst hs
    have habs : |-1 * Vi| = |Vi| := by rw [neg_one_mul, abs_neg]
    exact ⟨by norm_num, by rw [habs]; nlinarith⟩
  next h =>
    subst hs
    exact ⟨by norm_num, by rw [one_mul, one_mul]; nlinarith⟩

/-- The plan, in the direction of travel. -/
theorem planTrapezoidal_eq
    (hs : s = signHard (Xf - Xi - copysign (Vi * Vi / (2 * Dmax)) Vi)) (hss : s * s = 1)
    (hv : Vi = s * v) (hx : Xf - Xi = s * x) :
    planTrapezoidal Real.sqrt Xf Xi Vi Vmax Amax Dmax =
      let a := rampAccel v Vmax Amax
      let w := √(max (peakSq v x a Dmax) 0)
      if x < rampDist v Vmax a Dmax then
        fillIn Xf Xi Vi (s * a) (s * w) (-s * Dmax) (max 0 ((w - v) / a)) 0 (max 0 (w / Dmax))
      else
        fillIn Xf Xi Vi (s * a) (s * Vmax) (-s * Dmax) ((Vmax - v) / a)
          ((x - rampDist v Vmax a Dmax) / Vmax) (Vmax / Dmax) := by
  have hs0 : s ≠ 0 := by rintro rfl; norm_num at hss
  have hcancel : ∀ y, s * (s * y) = y := fun y => by rw [← mul_assoc, hss, one_mul]
  have hAr : (if s * Vi > s * (s * Vmax) then -s * Amax else s * Amax) =
      s * rampAccel v Vmax Amax := by
    rw [hv, hcancel, hcancel]
    unfold rampAccel
    split
    · ring
    · rfl
  have hTa : ∀ u, (s * u - Vi) / (s * rampAccel v Vmax Amax) =
      (u - v) / rampAccel v Vmax Amax := fun u => by
    rw [hv, ← mul_sub, mul_div_mul_left _ _ hs0]
  have hTd : ∀ u, -(s * u) / (-s * Dmax) = u / Dmax := fun u => by
    rw [neg_mul, neg_div_neg_eq, mul_div_mul_left _ _ hs0]
  have hmin : 1 / 2 * ((Vmax - v) / rampAccel v Vmax Amax) * (s * Vmax + Vi) +
      1 / 2 * (Vmax / Dmax) * (s * Vmax) = s * rampDist v Vmax (rampAccel v Vmax Amax) Dmax := by
    rw [hv]
    unfold rampDist
    ring
  have hpeak : (-s * Dmax * (Vi * Vi) + 2 * (s * rampAccel v Vmax Amax) * (-s * Dmax) *
        (Xf - Xi)) / (-s * Dmax - s * rampAccel v Vmax Amax) =
      peakSq v x (rampAccel v Vmax Amax) Dmax := by
    have hnum : -s * Dmax * (Vi * Vi) + 2 * (s * rampAccel v Vmax Amax) * (-s * Dmax) *
        (Xf - Xi) = -s * (Dmax * (v ^ 2 + 2 * rampAccel v Vmax Amax * x)) := by
      rw [hv, hx]
      linear_combination (-s * Dmax * v ^ 2 - 2 * s * rampAccel v Vmax Amax * Dmax * x) * hss
    have hden : -s * Dmax - s * rampAccel v Vmax Amax =
        -s * (Dmax + rampAccel v Vmax Amax) := by ring
    rw [hnum, hden, mul_div_mul_left _ _ (neg_ne_zero.mpr hs0)]
    rfl
  unfold planTrapezoidal
  simp only [← hs, hAr, hTa, hTd, hmin, hpeak]
  simp only [hcancel, hx, ← mul_sub, mul_div_mul_left _ _ hs0]

/-! ## Joining the parts -/

/-- A ramp from one velocity to another. -/
theorem ramp_dist {a u : ℝ} (ha : a ≠ 0) :
    v * ((u - v) / a) + 1 / 2 * a * ((u - v) / a * ((u - v) / a)) =
      1 / 2 * ((u - v) / a) * (u + v) := by
  have hu : a * ((u - v) / a) = u - v := mul_div_cancel₀ _ ha
  linear_combination (1 / 2 * ((u - v) / a)) * hu

/-- Two ramps with `u` between them, and a part at `u` that takes the rest of the way. -/
theorem joins_of_ramps {a u c : ℝ} (hv : Vi = s * v) (hx : Xf - Xi = s * x) (hD : 0 < Dmax)
    (ha : a ≠ 0) (hu : 0 ≤ u) (hTa : 0 ≤ (u - v) / a) (hc : 0 ≤ c)
    (hdist : rampDist v u a Dmax + u * c = x) :
    Joins (fillIn Xf Xi Vi (s * a) (s * u) (-s * Dmax) ((u - v) / a) c (u / Dmax)) := by
  have hstop : Dmax * (u / Dmax) = u := mul_div_cancel₀ _ hD.ne'
  have hramp := ramp_dist (v := v) (u := u) ha
  unfold rampDist at hdist
  exact {
    Ta_nonneg := hTa
    Tv_nonneg := hc
    Td_nonneg := div_nonneg hu hD.le
    Tf_eq := rfl
    accel := by
      show Vi + s * a * ((u - v) / a) = s * u
      rw [mul_assoc, mul_div_cancel₀ _ ha, hv]
      ring
    decel := by
      show -s * Dmax * -(u / Dmax) = s * u
      rw [neg_mul, neg_mul_neg, mul_assoc, hstop]
    yAccel_eq := rfl
    coast := by
      show Xi + Vi * ((u - v) / a) + 1 / 2 * (s * a) * ((u - v) / a * ((u - v) / a)) +
        s * u * c = Xf + 1 / 2 * (-s * Dmax) * (u / Dmax * (u / Dmax))
      linear_combination (u - v) / a * hv - hx + s * hramp + s * hdist +
        1 / 2 * s * (u / Dmax) * hstop }

/-! ## The cases of the plan -/

/-- The velocity between the ramps of a short move is such that they take all the way. -/
theorem rampDist_peak {a w : ℝ} (ha : a ≠ 0) (hD : 0 < Dmax)
    (hpeak : w ^ 2 * (Dmax + a) = Dmax * (v ^ 2 + 2 * a * x)) : rampDist v w a Dmax = x := by
  unfold rampDist
  field_simp
  linear_combination hpeak

/-- What a plan can do: the way is long enough for `Vmax`, or there is a velocity for two
ramps. -/
structure Peak (v x Vmax a Dmax : ℝ) : Prop where
  peakSq_nonneg : 0 ≤ peakSq v x a Dmax
  ramp_nonneg : 0 ≤ (√(peakSq v x a Dmax) - v) / a
  le_max : √(peakSq v x a Dmax) ≤ max |v| Vmax
  rampDist_eq : rampDist v √(peakSq v x a Dmax) a Dmax = x

/-- A short move that speeds up first. It has to turn around in time if it starts away
from the target. -/
theorem peak_of_accel (hV : 0 < Vmax) (hA : 0 < Amax) (hD : 0 < Dmax)
    (hstop : v * |v| ≤ 2 * Dmax * x) (hshort : x < rampDist v Vmax Amax Dmax)
    (hturn : v < 0 → -v ^ 2 ≤ 2 * Amax * x) : Peak v x Vmax Amax Dmax := by
  have hsum : 0 < Dmax + Amax := by linarith
  have hpeak : peakSq v x Amax Dmax * (Dmax + Amax) = Dmax * (v ^ 2 + 2 * Amax * x) :=
    div_mul_cancel₀ _ hsum.ne'
  have hless : 2 * Amax * Dmax * x < Dmax * (Vmax ^ 2 - v ^ 2) + Amax * Vmax ^ 2 := by
    unfold rampDist at hshort
    field_simp at hshort
    nlinarith
  have hnonneg : 0 ≤ peakSq v x Amax Dmax := by
    refine div_nonneg (mul_nonneg hD.le ?_) hsum.le
    rcases lt_or_ge v 0 with hneg | hpos
    · linarith [hturn hneg]
    · rw [abs_of_nonneg hpos] at hstop
      have hx : 0 ≤ x := by nlinarith
      positivity
  have hle : peakSq v x Amax Dmax ≤ Vmax ^ 2 := by nlinarith
  refine ⟨hnonneg, div_nonneg ?_ hA.le, ?_, ?_⟩
  · rw [sub_nonneg]
    rcases lt_or_ge v 0 with hneg | hpos
    · exact hneg.le.trans (Real.sqrt_nonneg _)
    · rw [abs_of_nonneg hpos] at hstop
      apply Real.le_sqrt_of_sq_le
      nlinarith
  · exact (Real.sqrt_le_iff.mpr ⟨hV.le, hle⟩).trans (le_max_right _ _)
  · exact rampDist_peak hA.ne' hD (by rw [Real.sq_sqrt hnonneg, hpeak])

/-- A short move that slows down all the way. -/
theorem peak_of_decel (hV : 0 < Vmax) (hA : 0 < Amax) (hD : 0 < Dmax) (hv : Vmax < v)
    (hstop : v * |v| ≤ 2 * Dmax * x) (hshort : x < rampDist v Vmax (-Amax) Dmax) :
    Peak v x Vmax (-Amax) Dmax := by
  have hpos : 0 < v := hV.trans hv
  rw [abs_of_pos hpos] at hstop
  have hless : 2 * Amax * Dmax * x < Dmax * (v ^ 2 - Vmax ^ 2) + Amax * Vmax ^ 2 := by
    unfold rampDist at hshort
    field_simp at hshort
    nlinarith
  -- the brake is stronger, or the move would not be short
  have hAD : Amax < Dmax := by
    by_contra hle
    have hprod : 0 ≤ (Amax - Dmax) * (v ^ 2 - Vmax ^ 2) :=
      mul_nonneg (by linarith) (by nlinarith)
    have htravel : Amax * (v * v) ≤ Amax * (2 * Dmax * x) :=
      mul_le_mul_of_nonneg_left hstop hA.le
    linarith
  have hsum : 0 < Dmax + -Amax := by linarith
  have hpeak : peakSq v x (-Amax) Dmax * (Dmax + -Amax) =
      Dmax * (v ^ 2 + 2 * -Amax * x) := div_mul_cancel₀ _ hsum.ne'
  have hnonneg : 0 ≤ peakSq v x (-Amax) Dmax := by
    refine div_nonneg ?_ hsum.le
    nlinarith
  have hle : peakSq v x (-Amax) Dmax ≤ v ^ 2 := by nlinarith
  have hsqrt : √(peakSq v x (-Amax) Dmax) ≤ v := Real.sqrt_le_iff.mpr ⟨hpos.le, hle⟩
  refine ⟨hnonneg, ?_, ?_, ?_⟩
  · exact div_nonneg_of_nonpos (by linarith) (by linarith)
  · exact hsqrt.trans ((le_abs_self v).trans (le_max_left _ _))
  · exact rampDist_peak (neg_ne_zero.mpr hA.ne') hD (by rw [Real.sq_sqrt hnonneg, hpeak])

/-- In the direction of travel: away from the target, and at rest too soon. -/
def TurnsTooSoon (v x Amax : ℝ) : Prop := v < 0 ∧ 2 * Amax * x < -v ^ 2

/-- The plan is smooth unless it turns too soon. -/
theorem smooth_of_not_turnsTooSoon
    (hs : s = signHard (Xf - Xi - copysign (Vi * Vi / (2 * Dmax)) Vi)) (hss : s * s = 1)
    (hv : Vi = s * v) (hx : Xf - Xi = s * x) (hV : 0 < Vmax) (hA : 0 < Amax) (hD : 0 < Dmax)
    (hstop : v * |v| ≤ 2 * Dmax * x) (hturn : ¬ TurnsTooSoon v x Amax) :
    Smooth (planTrapezoidal Real.sqrt Xf Xi Vi Vmax Amax Dmax) Xf Xi Vi Vmax := by
  have hsign : ∀ y, |s * y| = |y| := fun y => by
    have hone : |s| * |s| = 1 := by rw [← abs_mul, hss, abs_one]
    have habs : |s| = 1 := by nlinarith [abs_nonneg s]
    rw [abs_mul, habs, one_mul]
  have habs : |Vi| = |v| := by rw [hv, hsign]
  have hturn' : v < 0 → -v ^ 2 ≤ 2 * Amax * x := fun hneg =>
    not_lt.mp fun hlt => hturn ⟨hneg, hlt⟩
  rw [planTrapezoidal_eq hs hss hv hx]
  dsimp only
  have hne : rampAccel v Vmax Amax ≠ 0 := rampAccel_ne_zero hA
  split
  next hshort =>
    have hpeak : Peak v x Vmax (rampAccel v Vmax Amax) Dmax := by
      rcases lt_or_ge Vmax v with hfast | hslow
      · rw [rampAccel_of_lt hfast] at hshort ⊢
        exact peak_of_decel hV hA hD hfast hstop hshort
      · rw [rampAccel_of_le hslow] at hshort ⊢
        exact peak_of_accel hV hA hD hstop hshort hturn'
    have hw := Real.sqrt_nonneg (peakSq v x (rampAccel v Vmax Amax) Dmax)
    rw [max_eq_left hpeak.peakSq_nonneg, max_eq_right hpeak.ramp_nonneg,
      max_eq_right (div_nonneg hw hD.le)]
    refine (joins_of_ramps hv hx hD hne hw hpeak.ramp_nonneg le_rfl ?_).smooth ?_
    · rw [mul_zero, add_zero, hpeak.rampDist_eq]
    · show |s * _| ≤ max |Vi| Vmax
      rw [hsign, abs_of_nonneg hw, habs]
      exact hpeak.le_max
  next hlong =>
    have hrest : Vmax * ((x - rampDist v Vmax (rampAccel v Vmax Amax) Dmax) / Vmax) =
        x - rampDist v Vmax (rampAccel v Vmax Amax) Dmax := mul_div_cancel₀ _ hV.ne'
    have hTa : 0 ≤ (Vmax - v) / rampAccel v Vmax Amax := by
      rcases lt_or_ge Vmax v with hfast | hslow
      · rw [rampAccel_of_lt hfast]
        exact div_nonneg_of_nonpos (by linarith) (by linarith)
      · rw [rampAccel_of_le hslow]
        exact div_nonneg (by linarith) hA.le
    refine (joins_of_ramps hv hx hD hne hV.le hTa
      (div_nonneg (sub_nonneg.mpr (not_lt.mp hlong)) hV.le) ?_).smooth ?_
    · rw [hrest, add_sub_cancel]
    · show |s * Vmax| ≤ max |Vi| Vmax
      rw [hsign, abs_of_pos hV]
      exact le_max_right _ _

/-- A plan that turns too soon is at rest before the target, and jumps there. -/
theorem not_smooth_of_turnsTooSoon
    (hs : s = signHard (Xf - Xi - copysign (Vi * Vi / (2 * Dmax)) Vi)) (hss : s * s = 1)
    (hv : Vi = s * v) (hx : Xf - Xi = s * x) (hV : 0 < Vmax) (hA : 0 < Amax) (hD : 0 < Dmax)
    (hturn : TurnsTooSoon v x Amax) :
    ¬ Smooth (planTrapezoidal Real.sqrt Xf Xi Vi Vmax Amax Dmax) Xf Xi Vi Vmax := by
  obtain ⟨hneg, hfar⟩ := hturn
  have hshort : x < rampDist v Vmax Amax Dmax := by
    unfold rampDist
    field_simp
    nlinarith [mul_pos hA (mul_pos hV hV), mul_pos hD (mul_pos hV hV)]
  have hpeak : peakSq v x Amax Dmax ≤ 0 :=
    div_nonpos_of_nonpos_of_nonneg (mul_nonpos_of_nonneg_of_nonpos hD.le (by linarith))
      (by linarith)
  have hTa : 0 < -v / Amax := div_pos (neg_pos.mpr hneg) hA
  rw [planTrapezoidal_eq hs hss hv hx, rampAccel_of_le (hneg.le.trans hV.le)]
  simp only [if_pos hshort, max_eq_right hpeak, Real.sqrt_zero, zero_sub, zero_div, mul_zero,
    max_self, max_eq_right hTa.le]
  intro hsmooth
  set p := fillIn Xf Xi Vi (s * Amax) 0 (-s * Dmax) (-v / Amax) 0 0
  have hTf : p.Tf = -v / Amax := by
    show -v / Amax + 0 + 0 = _
    ring
  -- the position at the end of the ramp is the limit of those before it
  have hend : (eval p (-v / Amax)).Y =
      Xi + Vi * (-v / Amax) + 1 / 2 * (s * Amax) * (-v / Amax * (-v / Amax)) :=
    eq_of_continuousOn hTa hsmooth.continuousOn_Y
      (f := fun t => Xi + Vi * t + 1 / 2 * (s * Amax) * (t * t)) (by fun_prop)
      fun t h0 hlt => (eval_Y h0).trans (join_of_lt _ _ hlt)
  rw [(hsmooth.eval_end _ hTf.le).1] at hend
  have hramp := ramp_dist (v := v) (u := 0) hA.ne'
  rw [zero_sub, zero_add] at hramp
  have hx' : x = 1 / 2 * (-v / Amax) * v := by
    linear_combination s * hend - s * hx + s * (-v / Amax) * hv + hramp -
      (x - (v * (-v / Amax) + 1 / 2 * Amax * (-v / Amax * (-v / Amax)))) * hss
  have hsq : 2 * Amax * x = -v ^ 2 := by
    rw [hx']
    field_simp
  exact hfar.ne hsq

/-! ## The plan -/

/-- The target is where a start towards it comes to rest with less than `Amax`, and with
more than `Dmax`. -/
def StartsTooHard (Xf Xi Vi Amax Dmax : ℝ) : Prop :=
  (Vi < 0 ∧ -(Vi ^ 2 / (2 * Dmax)) ≤ Xf - Xi ∧ Xf - Xi < -(Vi ^ 2 / (2 * Amax))) ∨
    (0 < Vi ∧ Vi ^ 2 / (2 * Amax) < Xf - Xi ∧ Xf - Xi < Vi ^ 2 / (2 * Dmax))

/-- Which side the plan takes the target to be on decides between the two cases. -/
theorem turnsTooSoon_iff (hA : 0 < Amax) (hD : 0 < Dmax)
    (hs : s = signHard (Xf - Xi - copysign (Vi * Vi / (2 * Dmax)) Vi)) :
    TurnsTooSoon (s * Vi) (s * (Xf - Xi)) Amax ↔ StartsTooHard Xf Xi Vi Amax Dmax := by
  have hA2 : 0 < 2 * Amax := by linarith
  have hD2 : 0 < 2 * Dmax := by linarith
  have hfar : Vi ^ 2 / (2 * Amax) < Xf - Xi ↔ Vi ^ 2 < (Xf - Xi) * (2 * Amax) :=
    div_lt_iff₀ hA2
  have hfar' : Xf - Xi < -(Vi ^ 2 / (2 * Amax)) ↔ (Xf - Xi) * (2 * Amax) < -Vi ^ 2 := by
    rw [← neg_div, lt_div_iff₀ hA2]
  have hnear : Xf - Xi < Vi ^ 2 / (2 * Dmax) ↔ (Xf - Xi) * (2 * Dmax) < Vi ^ 2 :=
    lt_div_iff₀ hD2
  have hnear' : -(Vi ^ 2 / (2 * Dmax)) ≤ Xf - Xi ↔ -Vi ^ 2 ≤ (Xf - Xi) * (2 * Dmax) := by
    rw [← neg_div, div_le_iff₀ hD2]
  have hstop : Vi * |Vi| / (2 * Dmax) * (2 * Dmax) = Vi * |Vi| :=
    div_mul_cancel₀ _ (by linarith)
  rw [copysign_stopDist hD] at hs
  unfold TurnsTooSoon StartsTooHard
  rw [hfar, hfar', hnear, hnear']
  unfold signHard at hs
  split at hs
  next hback =>
    subst hs
    -- backwards
    constructor
    · rintro ⟨hneg, hlt⟩
      rw [abs_of_pos (by linarith)] at hback hstop
      exact .inr ⟨by linarith, by linarith, by nlinarith⟩
    · rintro (⟨hneg, hle, hlt⟩ | ⟨hpos, hlt, hle⟩)
      · rw [abs_of_neg hneg] at hback hstop
        exact absurd hle (by nlinarith)
      · exact ⟨by linarith, by linarith⟩
  next hahead =>
    subst hs
    constructor
    · rintro ⟨hneg, hlt⟩
      rw [abs_of_neg (by linarith)] at hahead hstop
      exact .inl ⟨by linarith, by nlinarith, by linarith⟩
    · rintro (⟨hneg, hle, hlt⟩ | ⟨hpos, hlt, hle⟩)
      · exact ⟨by linarith, by linarith⟩
      · rw [abs_of_pos hpos] at hahead hstop
        exact absurd hle (by nlinarith)

end

/-- **Trapezoidal trajectories.** The parts of the plan join to a smooth trajectory unless
it starts too hard. -/
theorem planTrapezoidal_smooth_iff {Xf Xi Vi Vmax Amax Dmax : ℝ} (hV : 0 < Vmax)
    (hA : 0 < Amax) (hD : 0 < Dmax) :
    Smooth (planTrapezoidal Real.sqrt Xf Xi Vi Vmax Amax Dmax) Xf Xi Vi Vmax ↔
      ¬ StartsTooHard Xf Xi Vi Amax Dmax := by
  obtain ⟨s, hs⟩ : ∃ s, s = signHard (Xf - Xi - copysign (Vi * Vi / (2 * Dmax)) Vi) := ⟨_, rfl⟩
  obtain ⟨hss, hstop⟩ := signHard_direction hD (Xf - Xi) hs
  have hcancel : ∀ y, y = s * (s * y) := fun y => by rw [← mul_assoc, hss, one_mul]
  rw [← turnsTooSoon_iff hA hD hs]
  constructor
  · intro hsmooth hturn
    exact not_smooth_of_turnsTooSoon hs hss (hcancel Vi) (hcancel _) hV hA hD hturn hsmooth
  · exact smooth_of_not_turnsTooSoon hs hss (hcancel Vi) (hcancel _) hV hA hD hstop

/-- From rest. -/
theorem planTrapezoidal_smooth_iff_rest :
    Smooth (planTrapezoidal Real.sqrt 3 0 0 2 (1 / 2) (1 / 2)) 3 0 0 2 := by
  refine (planTrapezoidal_smooth_iff (by norm_num) (by norm_num) (by norm_num)).mpr ?_
  rintro (⟨h, -⟩ | ⟨h, -⟩) <;> exact lt_irrefl 0 h

/-- At a velocity of -2 with the target 1.5 ahead, the plan stops after 1. -/
theorem planTrapezoidal_jumps :
    ¬ Smooth (planTrapezoidal Real.sqrt (-3 / 2) 0 (-2) 1 2 1) (-3 / 2) 0 (-2) 1 := by
  have hs : (1 : ℝ) = signHard (-3 / 2 - 0 - copysign (-2 * -2 / (2 * 1)) (-2)) := by
    norm_num [signHard, copysign]
  exact not_smooth_of_turnsTooSoon hs (by norm_num) (v := -2) (x := -3 / 2) (by norm_num)
    (by norm_num) (by norm_num) (by norm_num) (by norm_num) ⟨by norm_num, by norm_num⟩

end WODrive.Trajectory
