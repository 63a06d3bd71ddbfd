import WODrive.Library.Binary32

/-!
# Rounding in single precision

A number with a mantissa of any length is rounded to one that single precision has. Nothing
here depends on which of its two neighbours is taken: rounding does not cross any number of
single precision (`RoundsTo`), so that it keeps every bound which is such a number.

- `value`: the rational number that an unpacked float stands for;
- `roundsTo_roundWithAccuracy`, `roundsTo_normalize`: rounding does not cross numbers;
- `roundsTo_add`, `roundsTo_sub`, `roundsTo_mul`: nor do sums, differences and products.
-/

namespace WODrive.Binary32

open Float.Model (Format UnpackedFloat totalExponent)
open Float.Model.UnpackedFloat

/-! ## Mantissas -/

/-- A shift to the right divides, and its residual bits tell whether it has dropped any. -/
theorem shiftRight_spec (m k : Nat) :
    ((⟨m, false, false⟩ : ExtendedMantissa) >>> k).mantissa = m / 2 ^ k ∧
      (((⟨m, false, false⟩ : ExtendedMantissa) >>> k).roundBit = false ∧
        ((⟨m, false, false⟩ : ExtendedMantissa) >>> k).stickyBit = false ↔ 2 ^ k ∣ m) := by
  show (Nat.repeat ExtendedMantissa.shiftRightOne k _).mantissa = _ ∧
    ((Nat.repeat ExtendedMantissa.shiftRightOne k _).roundBit = false ∧
      (Nat.repeat ExtendedMantissa.shiftRightOne k _).stickyBit = false ↔ _)
  induction k with
  | zero => exact ⟨by simp [Nat.repeat], by simp [Nat.repeat]⟩
  | succ k ih =>
    obtain ⟨hmantissa, hresidue⟩ := ih
    rw [Nat.repeat]
    refine ⟨?_, ?_⟩
    · show ExtendedMantissa.mantissa _ / 2 = _
      rw [hmantissa, Nat.div_div_eq_div_mul, pow_succ]
    · show (ExtendedMantissa.mantissa _ % 2 != 0) = false ∧ (_ || _) = false ↔ _
      rw [hmantissa, Bool.or_eq_false_iff, hresidue, bne_eq_false_iff_eq,
        ← Nat.dvd_iff_mod_eq_zero]
      constructor
      · rintro ⟨⟨c, hc⟩, ⟨d, rfl⟩⟩
        rw [Nat.mul_div_cancel_left d (Nat.two_pow_pos k)] at hc
        exact ⟨c, by rw [hc, pow_succ, Nat.mul_assoc]⟩
      · rintro ⟨c, rfl⟩
        refine ⟨⟨c, ?_⟩, ⟨2 * c, by rw [pow_succ, Nat.mul_assoc]⟩⟩
        rw [pow_succ, Nat.mul_assoc, Nat.mul_div_cancel_left _ (Nat.two_pow_pos k)]

/-- The mantissa after a shift and rounding. -/
def roundedShift (m k : Nat) : Nat :=
  ((⟨m, false, false⟩ : ExtendedMantissa) >>> k).roundedMantissa

/-- It is one of the two neighbours, and the exact quotient if there is one. -/
theorem roundedShift_cases (m k : Nat) :
    roundedShift m k = m / 2 ^ k ∨ ¬2 ^ k ∣ m ∧ roundedShift m k = m / 2 ^ k + 1 := by
  obtain ⟨hmantissa, hresidue⟩ := shiftRight_spec m k
  unfold roundedShift ExtendedMantissa.roundedMantissa
  rcases hem : (⟨m, false, false⟩ : ExtendedMantissa) >>> k with ⟨q, r, t⟩
  rw [hem] at hmantissa hresidue
  simp only at hmantissa hresidue
  rw [← hmantissa]
  cases r <;> cases t <;>
    simp only [ExtendedMantissa.accuracy, Accuracy.roundToNearestEven, Bool.true_eq_false,
      and_false, and_true, false_iff] at hresidue ⊢
  · exact .inl trivial
  · exact .inl trivial
  · rcases Nat.mod_two_eq_zero_or_one q with h | h
    · exact .inl (by omega)
    · exact .inr ⟨hresidue, by omega⟩
  · exact .inr hresidue

theorem le_roundedShift {m k n : Nat} (h : n * 2 ^ k ≤ m) : n ≤ roundedShift m k := by
  have hn : n ≤ m / 2 ^ k := (Nat.le_div_iff_mul_le (Nat.two_pow_pos k)).mpr h
  rcases roundedShift_cases m k with hq | ⟨-, hq⟩ <;> omega

theorem roundedShift_le {m k n : Nat} (h : m ≤ n * 2 ^ k) : roundedShift m k ≤ n := by
  have hn : m / 2 ^ k ≤ n := Nat.div_le_of_le_mul (by rwa [Nat.mul_comm])
  rcases roundedShift_cases m k with hq | ⟨hdvd, hq⟩
  · omega
  · have hne : m / 2 ^ k ≠ n := by
      rintro rfl
      exact hdvd ⟨m / 2 ^ k, by
        rw [Nat.mul_comm]
        exact Nat.le_antisymm h (Nat.div_mul_le_self m (2 ^ k))⟩
    omega

/-! ## Values -/

/-- The number that an unpacked float stands for; 0 unless it is a finite number. -/
def value : UnpackedFloat → ℚ
  | .finite .positive m e _ => m * 2 ^ e
  | .finite .negative m e _ => -(m * 2 ^ e)
  | _ => 0

/-- A number over a smaller exponent. -/
theorem natCast_mul_zpow (m : Nat) {e f : Int} (h : e ≤ f) :
    (m : ℚ) * 2 ^ f = ((m * 2 ^ (f - e).toNat : Nat) : ℚ) * 2 ^ e := by
  obtain ⟨k, rfl⟩ := Int.le.dest h
  have hk : (e + k - e).toNat = k := by omega
  rw [hk, zpow_add₀ (by norm_num), zpow_natCast]
  push_cast
  ring

/-- Numbers over one exponent compare as their mantissas. -/
theorem natCast_mul_zpow_le {a b : Nat} {e : Int} :
    (a : ℚ) * 2 ^ e ≤ b * 2 ^ e ↔ a ≤ b := by
  rw [mul_le_mul_iff_left₀ (zpow_pos (by norm_num) e), Nat.cast_le]

/-! ## Rounding a magnitude -/

/-- The exponent over which a number is rounded. -/
def target (m : Nat) (e : Int) : Int := max (m.log2 + e - 23) (-149)

theorem targetExponent_eq (m : Nat) (e : Int) :
    Format.binary32.targetExponent (totalExponent m e) = target m e := by
  simp only [Format.targetExponent, Format.minExponent, Format.mantissaBits, totalExponent, target]
  omega

/-- The mantissa over the target exponent. -/
def targetMantissa (m : Nat) (e : Int) : Nat := roundedShift m (target m e - e).toNat

theorem targetMantissa_le (m : Nat) (e : Int) : targetMantissa m e ≤ 2 ^ 24 := by
  refine roundedShift_le ?_
  have hlt : m < 2 ^ (m.log2 + 1) := Nat.lt_log2_self
  have hexp : m.log2 + 1 ≤ 24 + (target m e - e).toNat := by
    unfold target
    omega
  rw [← pow_add]
  exact hlt.le.trans (Nat.pow_le_pow_right (by decide) hexp)

/-- Above the smallest exponent the mantissa has all its bits. -/
theorem le_targetMantissa {m : Nat} {e : Int} (hm : 0 < m) (he : e ≤ target m e)
    (ht : -149 < target m e) : 2 ^ 23 ≤ targetMantissa m e := by
  refine le_roundedShift ?_
  have hexp : 23 + (target m e - e).toNat = m.log2 := by
    unfold target at he ht ⊢
    omega
  rw [← pow_add, hexp]
  exact Nat.log2_self_le (Nat.pos_iff_ne_zero.mp hm)

/-- The number of a rounded mantissa, which may have got a bit too many. -/
def renormalize (s : Sign) (q : Nat) (t : Int) : UnpackedFloat :=
  let k := (target q t - t).toNat
  if h : q / 2 ^ k = 0 then .zero s else .finite s (q / 2 ^ k) (t + k) (Nat.pos_of_ne_zero h)

theorem roundWithAccuracy_eq (s : Sign) {m : Nat} {e : Int} (he : e ≤ target m e) :
    roundWithAccuracy .binary32 s m e .exact =
      renormalize s (targetMantissa m e) (target m e) := by
  have hsum : e + ((target m e - e).toNat : Int) = target m e := by omega
  have hdef : ((⟨m, false, false⟩ : ExtendedMantissa) >>> (target m e - e).toNat).roundedMantissa =
    targetMantissa m e := rfl
  simp only [roundWithAccuracy, shiftToTargetExponent, shiftToExponent, targetExponent_eq,
    ExtendedMantissa.ofMantissaAndAccuracy, hsum, hdef, (shiftRight_spec _ _).1]
  rfl

theorem renormalize_zero (s : Sign) (t : Int) : renormalize s 0 t = .zero s := by
  simp [renormalize]

theorem renormalize_pos (s : Sign) {q : Nat} {t : Int} (hq : 0 < q) (hle : q ≤ 2 ^ 24)
    (ht : -149 ≤ t) (hge : -149 < t → 2 ^ 23 ≤ q) :
    ∃ n f hn, renormalize s q t = .finite s n f hn ∧ Canonical (.finite s n f hn) ∧
      (n : ℚ) * 2 ^ f = q * 2 ^ t := by
  have hne : q ≠ 0 := Nat.pos_iff_ne_zero.mp hq
  rcases Nat.lt_or_eq_of_le hle with hlt | rfl
  · have hlog : q.log2 < 24 := (Nat.log2_lt hne).mpr hlt
    have hshift : (target q t - t).toNat = 0 := by
      unfold target
      omega
    refine ⟨q, t, hq, ?_, ?_, rfl⟩
    · simp only [renormalize, hshift, pow_zero, Nat.div_one, Nat.cast_zero, add_zero, dif_neg hne]
    · refine canonical_iff.mpr ?_
      rcases ht.lt_or_eq with ht' | ht'
      · have hlog' : 23 ≤ q.log2 := (Nat.le_log2 hne).mpr (hge ht')
        exact .inl ⟨by omega, ht⟩
      · exact .inr ⟨by omega, ht'.symm⟩
  · -- the bit that is too many leaves a zero behind
    have hlog : (2 ^ 24).log2 = 24 := Nat.log2_two_pow
    have hlog' : (2 ^ 23).log2 = 23 := Nat.log2_two_pow
    have hshift : (target (2 ^ 24) t - t).toNat = 1 := by
      unfold target
      rw [hlog]
      omega
    refine ⟨2 ^ 23, t + 1, by decide, ?_, canonical_iff.mpr (.inl ⟨hlog', by omega⟩), ?_⟩
    · simp only [renormalize, hshift]
      rfl
    · rw [zpow_add_one₀ (by norm_num)]
      push_cast
      ring

/-! ## Rounding does not cross numbers -/

/-- The mantissa and the exponent of a number of single precision. -/
def CanonicalPair (n : Nat) (f : Int) : Prop := n < 2 ^ 24 ∧ -149 ≤ f

/-- A number of single precision below a magnitude is below the rounded one. -/
theorem le_targetMantissa_mul {m n : Nat} {e f : Int} (hm : 0 < m) (he : e ≤ target m e)
    (hn : CanonicalPair n f) (h : (n : ℚ) * 2 ^ f ≤ m * 2 ^ e) :
    (n : ℚ) * 2 ^ f ≤ targetMantissa m e * 2 ^ target m e := by
  rcases le_or_gt (target m e) f with hf | hf
  · rw [natCast_mul_zpow n hf, natCast_mul_zpow_le]
    rw [natCast_mul_zpow n (he.trans hf), natCast_mul_zpow_le] at h
    refine le_roundedShift ?_
    have hexp : (f - target m e).toNat + (target m e - e).toNat = (f - e).toNat := by omega
    rw [Nat.mul_assoc, ← pow_add, hexp]
    exact h
  · -- it has fewer bits than those left of the target exponent
    have hge := le_targetMantissa hm he (hn.2.trans_lt hf)
    rw [natCast_mul_zpow (targetMantissa m e) hf.le, natCast_mul_zpow_le]
    have hpow : 2 ≤ 2 ^ (target m e - f).toNat := Nat.le_self_pow (by omega) 2
    have hmul := Nat.mul_le_mul hge hpow
    have hlt := hn.1
    omega

/-- A number of single precision above a magnitude is above the rounded one. -/
theorem targetMantissa_mul_le {m n : Nat} {e f : Int} (hm : 0 < m) (he : e ≤ target m e)
    (hn : CanonicalPair n f) (h : (m : ℚ) * 2 ^ e ≤ n * 2 ^ f) :
    (targetMantissa m e : ℚ) * 2 ^ target m e ≤ n * 2 ^ f := by
  have hf : target m e ≤ f := by
    by_contra hf
    rw [not_le] at hf
    have ht : -149 < target m e := hn.2.trans_lt hf
    have hlog := Nat.log2_self_le (Nat.pos_iff_ne_zero.mp hm)
    have hexp : m.log2 + e = target m e + 23 := by
      unfold target at ht ⊢
      omega
    rcases le_total e f with hef | hef
    · rw [natCast_mul_zpow n hef, natCast_mul_zpow_le] at h
      have hpow : 24 + (f - e).toNat ≤ m.log2 := by omega
      have hlt := Nat.mul_lt_mul_of_pos_right hn.1 (Nat.two_pow_pos (f - e).toNat)
      rw [← pow_add] at hlt
      exact absurd h (hlt.trans_le ((Nat.pow_le_pow_right (by decide) hpow).trans hlog)).not_ge
    · rw [natCast_mul_zpow m hef, natCast_mul_zpow_le] at h
      have hpow : 24 ≤ m.log2 + (e - f).toNat := by omega
      have hmul := Nat.mul_le_mul_right (2 ^ (e - f).toNat) hlog
      rw [← pow_add] at hmul
      have hlt := Nat.pow_le_pow_right (n := 2) (by decide) hpow
      have hn' := hn.1
      omega
  rw [natCast_mul_zpow n hf, natCast_mul_zpow_le]
  rw [natCast_mul_zpow n (he.trans hf), natCast_mul_zpow_le] at h
  refine roundedShift_le ?_
  have hexp : (f - target m e).toNat + (target m e - e).toNat = (f - e).toNat := by omega
  rw [Nat.mul_assoc, ← pow_add, hexp]
  exact h

/-- `r` is a number of single precision, and `x` is on the same side as `r`, if not equal, of
every other one. -/
structure RoundsTo (x : ℚ) (r : UnpackedFloat) : Prop where
  isFinite : r.isFinite = true
  canonical : Canonical r
  le : ∀ u : UnpackedFloat, u.isFinite = true → Canonical u → value u ≤ x → value u ≤ value r
  ge : ∀ u : UnpackedFloat, u.isFinite = true → Canonical u → x ≤ value u → value r ≤ value u

theorem canonicalPair {s : Sign} {m : Nat} {e : Int} {hm : 0 < m}
    (h : Canonical (.finite s m e hm)) : CanonicalPair m e := by
  have hlog : m < 2 ^ (m.log2 + 1) := Nat.lt_log2_self
  rcases canonical_iff.mp h with ⟨hm', he⟩ | ⟨hm', he⟩
  · exact ⟨hlog.trans_le (Nat.pow_le_pow_right (by decide) (by omega)), he⟩
  · exact ⟨hlog.trans_le (Nat.pow_le_pow_right (by decide) (by omega)), he.ge⟩

theorem RoundsTo.self {u : UnpackedFloat} (hu : u.isFinite = true) (hcanonical : Canonical u) :
    RoundsTo (value u) u :=
  ⟨hu, hcanonical, fun _ _ _ h => h, fun _ _ _ h => h⟩

theorem mul_zpow_nonneg (m : Nat) (e : Int) : 0 ≤ (m : ℚ) * 2 ^ e :=
  mul_nonneg (Nat.cast_nonneg m) (zpow_nonneg (by norm_num) e)

/-- A positive magnitude is rounded without crossing a number. -/
theorem roundsTo_positive {m : Nat} {e : Int} (hm : 0 < m) (he : e ≤ target m e) :
    RoundsTo (m * 2 ^ e) (roundWithAccuracy .binary32 .positive m e .exact) := by
  obtain ⟨r, hr, hfinite, hcanonical, hvalue⟩ : ∃ r,
      roundWithAccuracy .binary32 .positive m e .exact = r ∧ r.isFinite = true ∧
        Canonical r ∧ value r = targetMantissa m e * 2 ^ target m e := by
    rw [roundWithAccuracy_eq _ he]
    rcases Nat.eq_zero_or_pos (targetMantissa m e) with hq | hq
    · rw [hq, renormalize_zero]
      exact ⟨_, rfl, rfl, trivial, by simp [value]⟩
    · obtain ⟨n, f, hn, hr, hcanonical, hvalue⟩ := renormalize_pos .positive hq
        (targetMantissa_le m e) (le_max_right _ _) (le_targetMantissa hm he)
      exact ⟨_, hr, rfl, hcanonical, hvalue⟩
  rw [hr]
  have hnonneg := mul_zpow_nonneg (targetMantissa m e) (target m e)
  have hpos := mul_pos (Nat.cast_pos.mpr hm) (zpow_pos (by norm_num : (0 : ℚ) < 2) e)
  refine ⟨hfinite, hcanonical, fun u hu hu' h => ?_, fun u hu hu' h => ?_⟩
  · rw [hvalue]
    rcases u with _ | _ | _ | ⟨s, n, f, hn⟩
    · exact hnonneg
    · exact hnonneg
    · exact hnonneg
    · cases s with
      | negative =>
        have := mul_zpow_nonneg n f
        show -((n : ℚ) * 2 ^ f) ≤ _
        linarith
      | positive => exact le_targetMantissa_mul hm he (canonicalPair hu') h
  · rw [hvalue]
    rcases u with _ | _ | _ | ⟨s, n, f, hn⟩
    · exact absurd h hpos.not_ge
    · exact absurd h hpos.not_ge
    · exact absurd h hpos.not_ge
    · cases s with
      | negative =>
        have := mul_zpow_nonneg n f
        have hle : (m : ℚ) * 2 ^ e ≤ -((n : ℚ) * 2 ^ f) := h
        linarith
      | positive => exact targetMantissa_mul_le hm he (canonicalPair hu') h

/-! ## Signs -/

@[simp] theorem value_neg (u : UnpackedFloat) : value u.neg = -value u := by
  rcases u with _ | _ | _ | ⟨s, m, e, hm⟩
  · exact neg_zero.symm
  · exact neg_zero.symm
  · exact neg_zero.symm
  · cases s with
    | negative => exact (neg_neg _).symm
    | positive => rfl

@[simp] theorem isFinite_neg (u : UnpackedFloat) : u.neg.isFinite = u.isFinite := by
  cases u <;> rfl

theorem Canonical.neg {u : UnpackedFloat} (h : Canonical u) : Canonical u.neg := by
  cases u <;> exact h

/-- Rounding is symmetric. -/
theorem RoundsTo.neg {x : ℚ} {r : UnpackedFloat} (h : RoundsTo x r) : RoundsTo (-x) r.neg where
  isFinite := by rw [isFinite_neg, h.isFinite]
  canonical := h.canonical.neg
  le u hu hu' hle := by
    have := h.ge u.neg (by rwa [isFinite_neg]) hu'.neg (by rw [value_neg]; linarith)
    rw [value_neg] at this ⊢
    linarith
  ge u hu hu' hle := by
    have := h.le u.neg (by rwa [isFinite_neg]) hu'.neg (by rw [value_neg]; linarith)
    rw [value_neg] at this ⊢
    linarith

theorem roundWithAccuracy_neg (m : Nat) (e : Int) :
    roundWithAccuracy .binary32 .negative m e .exact =
      (roundWithAccuracy .binary32 .positive m e .exact).neg := by
  simp only [roundWithAccuracy]
  split <;> rfl

/-- What a sign makes of a magnitude. -/
def signed (s : Sign) (x : ℚ) : ℚ :=
  match s with
  | .negative => -x
  | .positive => x

theorem value_finite (s : Sign) (m : Nat) (e : Int) (hm : 0 < m) :
    value (.finite s m e hm) = signed s (m * 2 ^ e) := by
  cases s <;> rfl

theorem roundsTo_roundWithAccuracy (s : Sign) {m : Nat} {e : Int} (hm : 0 < m)
    (he : e ≤ target m e) :
    RoundsTo (signed s (m * 2 ^ e)) (roundWithAccuracy .binary32 s m e .exact) := by
  cases s with
  | positive => exact roundsTo_positive hm he
  | negative =>
    rw [roundWithAccuracy_neg]
    exact (roundsTo_positive hm he).neg

/-- Zeros behind the mantissa do not change the target. -/
theorem target_shiftLeft {m : Nat} (hm : 0 < m) (e : Int) (k : Nat) :
    target (m <<< k) (e - k) = target m e := by
  rw [← targetExponent_eq, ← targetExponent_eq, totalExponent_shiftLeft hm]

theorem roundsTo_round (s : Sign) {m : Nat} (e : Int) (hm : 0 < m) :
    RoundsTo (signed s (m * 2 ^ e)) (UnpackedFloat.round .binary32 s m e) := by
  set k := (e - target m e).toNat with hk
  have hround : UnpackedFloat.round .binary32 s m e =
      roundWithAccuracy .binary32 s (m <<< k) (e - k) .exact := by
    simp only [UnpackedFloat.round, decreaseExponent, targetExponent_eq, ← hk]
  have hvalue : (m : ℚ) * 2 ^ e = ((m <<< k : Nat) : ℚ) * 2 ^ (e - k) := by
    have hsub : (e - (e - k)).toNat = k := by omega
    rw [natCast_mul_zpow m (by omega : e - k ≤ e), hsub, Nat.shiftLeft_eq]
  rw [hround, hvalue]
  refine roundsTo_roundWithAccuracy s ?_ ?_
  · rw [Nat.shiftLeft_eq]
    positivity
  · rw [target_shiftLeft hm]
    omega

theorem roundsTo_normalize (m e : Int) (zeroSign : Sign) :
    RoundsTo (m * 2 ^ e) (UnpackedFloat.normalize .binary32 m e zeroSign) := by
  unfold UnpackedFloat.normalize
  rcases lt_trichotomy m 0 with hm | rfl | hm
  · have hnat : ((-m).toNat : ℚ) = -(m : ℚ) := by
      have hcast : ((-m).toNat : Int) = -m := Int.toNat_of_nonneg (by omega)
      exact_mod_cast hcast
    have hround := roundsTo_round .negative e (by omega : 0 < (-m).toNat)
    rw [Int.compare_eq_lt.mpr hm]
    simpa [signed, hnat] using hround
  · simpa [value] using
      RoundsTo.self (u := .zero zeroSign) rfl trivial
  · have hnat : (m.toNat : ℚ) = (m : ℚ) := by
      have hcast : (m.toNat : Int) = m := Int.toNat_of_nonneg hm.le
      exact_mod_cast hcast
    have hround := roundsTo_round .positive e (by omega : 0 < m.toNat)
    rw [Int.compare_eq_gt.mpr hm]
    simpa [signed, hnat] using hround

/-! ## Operations -/

theorem apply_decreaseExponent (s : Sign) (m : Nat) {e t : Int} (h : t ≤ e) :
    ((s.apply ((decreaseExponent m e t).1 : Nat) : Int) : ℚ) * 2 ^ t = signed s (m * 2 ^ e) := by
  have hmantissa : (decreaseExponent m e t).1 = m <<< (e - t).toNat := rfl
  rw [natCast_mul_zpow m h, ← Nat.shiftLeft_eq, hmantissa]
  generalize m <<< (e - t).toNat = n
  cases s with
  | negative => simp [Sign.apply, signed]
  | positive => simp [Sign.apply, signed]

theorem roundsTo_add {u v : UnpackedFloat} (hu : u.isFinite = true) (hv : v.isFinite = true)
    (hu' : Canonical u) (hv' : Canonical v) :
    RoundsTo (value u + value v) (UnpackedFloat.add .binary32 u v) := by
  rcases u with _ | _ | s₁ | ⟨s₁, m₁, e₁, hm₁⟩
  · cases hu
  · cases hu
  · rcases v with _ | _ | s₂ | ⟨s₂, m₂, e₂, hm₂⟩
    · cases hv
    · cases hv
    · have hzero : ∃ s, UnpackedFloat.add .binary32 (.zero s₁) (.zero s₂) = .zero s := by
        cases s₁ <;> cases s₂ <;> exact ⟨_, rfl⟩
      obtain ⟨s, hs⟩ := hzero
      simpa [hs, value] using RoundsTo.self (u := .zero s) rfl trivial
    · have hself := RoundsTo.self hv hv'
      rwa [← zero_add (value (.finite s₂ m₂ e₂ hm₂))] at hself
  · rcases v with _ | _ | s₂ | ⟨s₂, m₂, e₂, hm₂⟩
    · cases hv
    · cases hv
    · have hself := RoundsTo.self hu hu'
      rwa [← add_zero (value (.finite s₁ m₁ e₁ hm₁))] at hself
    · have hsum := roundsTo_normalize
        (s₁.apply ((decreaseExponent m₁ e₁ (min e₁ e₂)).1 : Nat) +
          s₂.apply ((decreaseExponent m₂ e₂ (min e₁ e₂)).1 : Nat)) (min e₁ e₂) .positive
      rw [Int.cast_add, add_mul, apply_decreaseExponent s₁ m₁ (min_le_left _ _),
        apply_decreaseExponent s₂ m₂ (min_le_right _ _), ← value_finite s₁ m₁ e₁ hm₁,
        ← value_finite s₂ m₂ e₂ hm₂] at hsum
      exact hsum

theorem sub_eq_add (u v : UnpackedFloat) :
    UnpackedFloat.sub .binary32 u v = UnpackedFloat.add .binary32 u v.neg := by
  have happly : ∀ (s : Sign) (n : Int), (-s).apply n = -s.apply n := by
    intro s n
    cases s with
    | negative => exact (neg_neg n).symm
    | positive => rfl
  rcases u with s₁ | _ | s₁ | ⟨s₁, m₁, e₁, hm₁⟩ <;>
    rcases v with s₂ | _ | s₂ | ⟨s₂, m₂, e₂, hm₂⟩ <;>
    first
    | rfl
    | simp only [UnpackedFloat.sub, UnpackedFloat.neg, UnpackedFloat.add, happly,
        Int.sub_eq_add_neg]

theorem roundsTo_sub {u v : UnpackedFloat} (hu : u.isFinite = true) (hv : v.isFinite = true)
    (hu' : Canonical u) (hv' : Canonical v) :
    RoundsTo (value u - value v) (UnpackedFloat.sub .binary32 u v) := by
  rw [sub_eq_add, sub_eq_add_neg, ← value_neg]
  exact roundsTo_add hu (by rwa [isFinite_neg]) hu' hv'.neg

/-- A product has at least the bits of the factor that has all of them. -/
theorem add_le_target_mul {s₁ s₂ : Sign} {m₁ m₂ : Nat} {e₁ e₂ : Int} {hm₁ : 0 < m₁}
    {hm₂ : 0 < m₂} (h₁ : Canonical (.finite s₁ m₁ e₁ hm₁)) (h₂ : Canonical (.finite s₂ m₂ e₂ hm₂)) :
    e₁ + e₂ ≤ target (m₁ * m₂) (e₁ + e₂) := by
  have hlog : ∀ {a b : Nat}, 0 < a → 0 < b → a.log2 ≤ (a * b).log2 := by
    intro a b ha hb
    refine (Nat.le_log2 (Nat.mul_pos ha hb).ne').mpr ?_
    exact (Nat.log2_self_le ha.ne').trans (Nat.le_mul_of_pos_right a hb)
  have hlog₁ := hlog hm₁ hm₂
  have hlog₂ := hlog hm₂ hm₁
  rw [Nat.mul_comm m₂] at hlog₂
  unfold target
  rcases canonical_iff.mp h₁ with ⟨hm, -⟩ | ⟨-, he₁⟩
  · omega
  · rcases canonical_iff.mp h₂ with ⟨hm, -⟩ | ⟨-, he₂⟩ <;> omega

theorem roundsTo_mul {u v : UnpackedFloat} (hu : u.isFinite = true) (hv : v.isFinite = true)
    (hu' : Canonical u) (hv' : Canonical v) :
    RoundsTo (value u * value v) (UnpackedFloat.mul .binary32 u v) := by
  have hzero : ∀ s, RoundsTo 0 (.zero s) := fun s => RoundsTo.self (u := .zero s) rfl trivial
  rcases u with _ | _ | s₁ | ⟨s₁, m₁, e₁, hm₁⟩
  · cases hu
  · cases hu
  · rcases v with _ | _ | s₂ | ⟨s₂, m₂, e₂, hm₂⟩
    · cases hv
    · cases hv
    · exact (zero_mul (0 : ℚ)).symm ▸ hzero (s₁ * s₂)
    · exact (zero_mul (value (.finite s₂ m₂ e₂ hm₂))).symm ▸ hzero (s₁ * s₂)
  · rcases v with _ | _ | s₂ | ⟨s₂, m₂, e₂, hm₂⟩
    · cases hv
    · cases hv
    · exact (mul_zero (value (.finite s₁ m₁ e₁ hm₁))).symm ▸ hzero (s₁ * s₂)
    · have hmul := roundsTo_roundWithAccuracy (s₁ * s₂) (Nat.mul_pos hm₁ hm₂)
        (add_le_target_mul hu' hv')
      have hvalue : signed (s₁ * s₂) ((m₁ * m₂ : Nat) * 2 ^ (e₁ + e₂)) =
          value (.finite s₁ m₁ e₁ hm₁) * value (.finite s₂ m₂ e₂ hm₂) := by
        rw [value_finite, value_finite, zpow_add₀ (by norm_num)]
        push_cast
        cases s₁ <;> cases s₂ <;> simp only [signed] <;> ring_nf
      rw [← hvalue]
      exact hmul

end WODrive.Binary32
