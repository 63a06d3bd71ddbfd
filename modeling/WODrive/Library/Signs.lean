import WODrive.Library.CFloat

/-!
# NaN, signs and limits in single precision

What becomes of NaN, what the sign of a result is, and what is left by a limit, whatever the
operands are, infinities and NaN included.

- `isNaN_add`, `isNaN_sub`, `isNaN_mul`, `isNaN_div`, `isNaN_neg`: NaN is passed on;
- `not_pos_sub`, `pos_sub`: the sign of a difference is that of the comparison;
- `not_pos_div`, `not_pos_mul`: a quotient and a product that are not positive;
- `le_stdMin`, `stdMin_le_left`, `stdMin_le_right`: the smaller of two;
- `clamp_le_le`: what is not NaN is clamped to between two limits, that may be infinite.
-/

namespace WODrive.Binary32

open Float.Model (Format UnpackedFloat)
open Float.Model.UnpackedFloat

variable {x y : Float32}

/-! ## NaN -/

theorem isNaN_eq_true {u : UnpackedFloat} (h : u.isNaN = true) : u = .notANumber := by
  cases u with
  | notANumber => rfl
  | _ => cases h

/-- A result that is not a number is packed as such. -/
theorem isNaN_pack {r : UnpackedFloat} (h : r = .notANumber) :
    (Float32.ofModel (.pack r)).isNaN = true := by
  subst h
  rfl

theorem isNaN_add (h : x.isNaN = true ∨ y.isNaN = true) : (x + y).isNaN = true := by
  apply isNaN_pack
  rcases h with h | h
  · rw [isNaN_eq_true (u := x.toModel.unpack) h, UnpackedFloat.add]
  · rw [isNaN_eq_true (u := y.toModel.unpack) h]
    cases x.toModel.unpack <;> rfl

theorem isNaN_sub (h : x.isNaN = true ∨ y.isNaN = true) : (x - y).isNaN = true := by
  apply isNaN_pack
  rcases h with h | h
  · rw [isNaN_eq_true (u := x.toModel.unpack) h, UnpackedFloat.sub]
  · rw [isNaN_eq_true (u := y.toModel.unpack) h]
    cases x.toModel.unpack <;> rfl

theorem isNaN_mul (h : x.isNaN = true ∨ y.isNaN = true) : (x * y).isNaN = true := by
  apply isNaN_pack
  rcases h with h | h
  · rw [isNaN_eq_true (u := x.toModel.unpack) h, UnpackedFloat.mul]
  · rw [isNaN_eq_true (u := y.toModel.unpack) h]
    cases x.toModel.unpack <;> rfl

theorem isNaN_div (h : x.isNaN = true ∨ y.isNaN = true) : (x / y).isNaN = true := by
  apply isNaN_pack
  rcases h with h | h
  · rw [isNaN_eq_true (u := x.toModel.unpack) h, UnpackedFloat.div]
  · rw [isNaN_eq_true (u := y.toModel.unpack) h]
    cases x.toModel.unpack <;> rfl

theorem isNaN_neg (h : x.isNaN = true) : (-x).isNaN = true := by
  apply isNaN_pack
  rw [isNaN_eq_true (u := x.toModel.unpack) h, UnpackedFloat.neg]

/-- Nothing that NaN is passed on from is NaN unless the result is. -/
theorem not_isNaN_of_passed {z : Float32} (h : x.isNaN = true ∨ y.isNaN = true → z.isNaN = true)
    (hz : z.isNaN = false) : x.isNaN = false ∧ y.isNaN = false := by
  rw [← Bool.not_eq_true, ← Bool.not_eq_true, ← not_or]
  intro hnan
  rw [h hnan] at hz
  cases hz

theorem not_isNaN_of_add (h : (x + y).isNaN = false) : x.isNaN = false ∧ y.isNaN = false :=
  not_isNaN_of_passed isNaN_add h

theorem not_isNaN_of_sub (h : (x - y).isNaN = false) : x.isNaN = false ∧ y.isNaN = false :=
  not_isNaN_of_passed isNaN_sub h

theorem not_isNaN_of_mul (h : (x * y).isNaN = false) : x.isNaN = false ∧ y.isNaN = false :=
  not_isNaN_of_passed isNaN_mul h

theorem not_isNaN_of_div (h : (x / y).isNaN = false) : x.isNaN = false ∧ y.isNaN = false :=
  not_isNaN_of_passed isNaN_div h

theorem not_isNaN_of_neg (h : (-x).isNaN = false) : x.isNaN = false := by
  by_contra hnan
  rw [isNaN_neg (Bool.not_eq_false _ ▸ hnan)] at h
  cases h

/-! ## Signs -/

/-- The sign of what is not NaN. -/
def signOf : UnpackedFloat → Option Sign
  | .notANumber => none
  | .infinity s | .zero s | .finite s _ _ _ => some s

/-- A positive number or infinity. -/
def Positive : UnpackedFloat → Prop
  | .infinity .positive | .finite .positive _ _ _ => True
  | _ => False

theorem pos_iff : (0 : Float32) < x ↔ Positive x.toModel.unpack := by
  have hzero : (0 : Float32).toModel.unpack = .zero .positive := rfl
  show decide ((0 : Float32).toModel.unpack.lt x.toModel.unpack = true) = true ↔ _
  rw [hzero, decide_eq_true_iff]
  rcases x.toModel.unpack with s | _ | s | ⟨s, m, e, hm⟩
  · cases s <;> simp [UnpackedFloat.lt, UnpackedFloat.compare, Positive]
  · simp [UnpackedFloat.lt, UnpackedFloat.compare, Positive]
  · simp [UnpackedFloat.lt, UnpackedFloat.compare, Positive]
  · cases s <;> simp [UnpackedFloat.lt, UnpackedFloat.compare, Positive]

/-- What is packed with a sign is unpacked with it, unless as NaN. -/
theorem signOf_unpack (s : Sign) (b : BitVec 8) (m : BitVec 23) :
    ∀ s', signOf (unpack .binary32 (packComponents .binary32 s b m)) = some s' → s' = s := by
  intro s' h
  unfold unpack at h
  simp only [unpackSign_packComponents, ofBitVec_toBitVec] at h
  split_ifs at h <;> cases h <;> rfl

theorem signOf_unpack_pack (r : UnpackedFloat) {s' : Sign}
    (h : signOf (unpack .binary32 (pack .binary32 r)) = some s') : signOf r = some s' := by
  rcases r with s | _ | s | ⟨s, m, e, hm⟩
  · exact congrArg some (signOf_unpack s _ _ s' h).symm
  · cases h
  · exact congrArg some (signOf_unpack s _ _ s' h).symm
  · rw [pack_finite] at h
    split_ifs at h
    · exact congrArg some (signOf_unpack s _ _ s' h).symm
    · exact congrArg some (signOf_unpack s _ _ s' h).symm
    · exact congrArg some (signOf_unpack s _ _ s' h).symm

theorem signOf_of_positive {u : UnpackedFloat} (h : Positive u) : signOf u = some .positive := by
  rcases u with s | _ | s | ⟨s, m, e, hm⟩
  · cases s with
    | negative => exact h.elim
    | positive => rfl
  · exact h.elim
  · exact h.elim
  · cases s with
    | negative => exact h.elim
    | positive => rfl

/-- A result that is not positive is packed as such. -/
theorem not_pos_pack {r : UnpackedFloat} (h : ¬Positive r) :
    ¬(0 : Float32) < Float32.ofModel (.pack r) := by
  rw [pos_iff]
  show ¬Positive (unpack .binary32 (pack .binary32 r))
  intro hpos
  have hsign := signOf_unpack_pack r (signOf_of_positive hpos)
  rcases r with s | _ | s | ⟨s, m, e, hm⟩
  · cases hsign
    exact h trivial
  · cases hsign
  · rw [unpack_pack_zero] at hpos
    exact hpos
  · cases hsign
    exact h trivial

/-- A positive result is packed as such, if it is rounded. -/
theorem pos_pack {r : UnpackedFloat} (h : Positive r) (hcanonical : Canonical r) :
    (0 : Float32) < Float32.ofModel (.pack r) := by
  rw [pos_iff]
  show Positive (unpack .binary32 (pack .binary32 r))
  rcases r with s | _ | s | ⟨s, m, e, hm⟩
  · cases s with
    | negative => exact h.elim
    | positive => trivial
  · exact h.elim
  · exact h.elim
  · cases s with
    | negative => exact h.elim
    | positive =>
      by_cases he : e ≤ 104
      · rw [unpack_pack_finite .positive hm hcanonical he]
        trivial
      · rw [pack_finite, if_pos (by omega)]
        trivial

/-! ## Operations -/

theorem lt_iff_compare :
    x < y ↔ x.toModel.unpack.compare y.toModel.unpack = some .lt := by
  show decide (x.toModel.unpack.lt y.toModel.unpack = true) = true ↔ _
  rw [decide_eq_true_iff, UnpackedFloat.lt, beq_iff_eq]

theorem positive_iff_value {u : UnpackedFloat} (h : u.isFinite = true) :
    Positive u ↔ 0 < value u := by
  rcases u with s | _ | s | ⟨s, m, e, hm⟩
  · cases h
  · cases h
  · exact iff_of_false id (lt_irrefl 0)
  · cases s with
    | negative => exact iff_of_false id (value_neg_lt m e hm).not_gt
    | positive => exact iff_of_true trivial (value_pos m e hm)

/-- All numbers are multiples of the smallest one. -/
theorem exists_value_eq {u : UnpackedFloat} (h : Canonical u) :
    ∃ n : ℤ, value u = n * 2 ^ (-149 : ℤ) := by
  rcases u with s | _ | s | ⟨s, m, e, hm⟩
  · exact ⟨0, by simp [value]⟩
  · exact ⟨0, by simp [value]⟩
  · exact ⟨0, by simp [value]⟩
  · have he : -149 ≤ e := (canonicalPair h).2
    have hscale := natCast_mul_zpow m he
    cases s with
    | negative =>
      refine ⟨-(m * 2 ^ (e - -149).toNat : Nat), ?_⟩
      rw [value_finite, signed, hscale]
      push_cast
      ring
    | positive =>
      refine ⟨(m * 2 ^ (e - -149).toNat : Nat), ?_⟩
      rw [value_finite, signed, hscale]
      push_cast
      ring

/-- A difference that is not 0 is not rounded to 0. -/
theorem RoundsTo.pos_sub {u v r : UnpackedFloat} (h : RoundsTo (value u - value v) r)
    (hu : Canonical u) (hv : Canonical v) (hlt : value v < value u) : 0 < value r := by
  obtain ⟨n, hn⟩ := exists_value_eq hu
  obtain ⟨k, hk⟩ := exists_value_eq hv
  have hpos : (0 : ℚ) < 2 ^ (-149 : ℤ) := zpow_pos (by norm_num) _
  have hkn : k + 1 ≤ n := by
    rw [hn, hk, mul_lt_mul_iff_of_pos_right hpos, Int.cast_lt] at hlt
    omega
  have hsmallest : value (.finite .positive 1 (-149) Nat.one_pos) = 2 ^ (-149 : ℤ) := by
    rw [value_finite, signed, Nat.cast_one, one_mul]
  have hle : value (.finite .positive 1 (-149) Nat.one_pos) ≤ value u - value v := by
    rw [hsmallest, hn, hk, ← sub_mul]
    refine le_mul_of_one_le_left hpos.le ?_
    have hcast : ((k + 1 : ℤ) : ℚ) ≤ n := by exact_mod_cast hkn
    push_cast at hcast
    linarith
  have hcanonical : Canonical (.finite .positive 1 (-149) Nat.one_pos) :=
    canonical_iff.mpr (.inr ⟨by decide, rfl⟩)
  have hround := h.le _ rfl hcanonical hle
  rw [hsmallest] at hround
  exact hpos.trans_le hround

/-- The sign of a difference is that of the comparison. -/
theorem positive_sub_iff {u v : UnpackedFloat} (hu : Canonical u) (hv : Canonical v) :
    Positive (sub .binary32 u v) ↔ v.compare u = some .lt := by
  by_cases hfinite : u.isFinite = true ∧ v.isFinite = true
  · obtain ⟨hu', hv'⟩ := hfinite
    have hround := roundsTo_sub hu' hv' hu hv
    rw [positive_iff_value hround.isFinite, compare_of_isFinite hv' hu' hv hu, Option.some_inj,
      cmp_eq_lt_iff]
    refine ⟨fun hpos => ?_, hround.pos_sub hu hv⟩
    by_contra hle
    have hzero : value u - value v ≤ value (.zero .positive) := sub_nonpos.mpr (not_lt.mp hle)
    exact (hround.ge (.zero .positive) rfl trivial hzero).not_gt hpos
  · rcases u with s₁ | _ | s₁ | ⟨s₁, m₁, e₁, hm₁⟩
    · rcases v with s₂ | _ | s₂ | ⟨s₂, m₂, e₂, hm₂⟩
      · cases s₁ <;> cases s₂
        · exact iff_of_false id nofun
        · exact iff_of_false id nofun
        · exact iff_of_true trivial rfl
        · exact iff_of_false id nofun
      · cases s₁ <;> simp [sub, UnpackedFloat.compare, Positive]
      · cases s₁ <;> simp [sub, UnpackedFloat.compare, Positive]
      · cases s₁ <;> simp [sub, UnpackedFloat.compare, Positive]
    · rcases v with s₂ | _ | s₂ | ⟨s₂, m₂, e₂, hm₂⟩ <;>
        simp [sub, UnpackedFloat.compare, Positive]
    all_goals
      rcases v with s₂ | _ | s₂ | ⟨s₂, m₂, e₂, hm₂⟩
      · cases s₂ <;> simp [sub, UnpackedFloat.compare, Positive]
      · simp [sub, UnpackedFloat.compare, Positive]
      · exact absurd ⟨rfl, rfl⟩ hfinite
      · exact absurd ⟨rfl, rfl⟩ hfinite

theorem canonical_sub {u v : UnpackedFloat} (hu : Canonical u) (hv : Canonical v) :
    Canonical (sub .binary32 u v) := by
  by_cases hfinite : u.isFinite = true ∧ v.isFinite = true
  · exact (roundsTo_sub hfinite.1 hfinite.2 hu hv).canonical
  · rcases u with s₁ | _ | s₁ | ⟨s₁, m₁, e₁, hm₁⟩
    · rcases v with s₂ | _ | s₂ | ⟨s₂, m₂, e₂, hm₂⟩
      · cases s₁ <;> cases s₂ <;> trivial
      all_goals trivial
    · cases v <;> trivial
    all_goals
      rcases v with s₂ | _ | s₂ | ⟨s₂, m₂, e₂, hm₂⟩
      · trivial
      · trivial
      · exact absurd ⟨rfl, rfl⟩ hfinite
      · exact absurd ⟨rfl, rfl⟩ hfinite

theorem not_positive_roundWithAccuracy (m : Nat) (e : Int) (acc : Accuracy) :
    ¬Positive (roundWithAccuracy .binary32 .negative m e acc) := by
  unfold roundWithAccuracy
  dsimp only
  split
  · exact id
  · exact id

theorem not_pos_sub (h : ¬y < x) : ¬(0 : Float32) < x - y := by
  refine not_pos_pack ?_
  rw [positive_sub_iff (canonical_unpack _) (canonical_unpack _), ← lt_iff_compare]
  exact h

theorem pos_sub (h : y < x) : (0 : Float32) < x - y := by
  have hpos : Positive (sub .binary32 x.toModel.unpack y.toModel.unpack) := by
    rw [positive_sub_iff (canonical_unpack _) (canonical_unpack _), ← lt_iff_compare]
    exact h
  exact pos_pack hpos (canonical_sub (canonical_unpack _) (canonical_unpack _))

/-- A quotient has the sign of the two. -/
theorem not_pos_div (hx : ¬(0 : Float32) < x) (hy : 0 < y) : ¬(0 : Float32) < x / y := by
  rw [pos_iff] at hx hy
  refine not_pos_pack ?_
  generalize x.toModel.unpack = u at hx
  generalize y.toModel.unpack = v at hy
  rcases v with s₂ | _ | s₂ | ⟨s₂, m₂, e₂, hm₂⟩
  · cases s₂ with
    | negative => exact hy.elim
    | positive => cases u <;> exact id
  · exact hy.elim
  · exact hy.elim
  · cases s₂ with
    | negative => exact hy.elim
    | positive =>
      rcases u with s₁ | _ | s₁ | ⟨s₁, m₁, e₁, hm₁⟩
      · cases s₁ with
        | negative => exact id
        | positive => exact absurd trivial hx
      · exact id
      · exact id
      · cases s₁ with
        | negative => exact not_positive_roundWithAccuracy _ _ _
        | positive => exact absurd trivial hx

theorem not_pos_mul (hx : (0 : Float32) ≤ x) (hy : ¬(0 : Float32) < y) :
    ¬(0 : Float32) < x * y := by
  have hzero : (0 : Float32).toModel.unpack = .zero .positive := rfl
  have hle : decide ((0 : Float32).toModel.unpack.le x.toModel.unpack = true) = true := hx
  rw [hzero, decide_eq_true_iff] at hle
  rw [pos_iff] at hy
  refine not_pos_pack ?_
  generalize x.toModel.unpack = u at hle
  generalize y.toModel.unpack = v at hy
  rcases u with s₁ | _ | s₁ | ⟨s₁, m₁, e₁, hm₁⟩
  · cases s₁ with
    | negative => cases hle
    | positive =>
      rcases v with s₂ | _ | s₂ | ⟨s₂, m₂, e₂, hm₂⟩
      · cases s₂ with
        | negative => exact id
        | positive => exact absurd trivial hy
      · exact id
      · exact id
      · cases s₂ with
        | negative => exact id
        | positive => exact absurd trivial hy
  · exact id
  · cases v <;> exact id
  · cases s₁ with
    | negative => cases hle
    | positive =>
      rcases v with s₂ | _ | s₂ | ⟨s₂, m₂, e₂, hm₂⟩
      · cases s₂ with
        | negative => exact id
        | positive => exact absurd trivial hy
      · exact id
      · exact id
      · cases s₂ with
        | negative => exact not_positive_roundWithAccuracy _ _ _
        | positive => exact absurd trivial hy

/-! ## Limits -/

theorem le_rfl_of_not_isNaN (h : x.isNaN = false) : x ≤ x :=
  (le_iff_place h h).mpr le_rfl

theorem le_trans_float {z : Float32} (hxy : x ≤ y) (hyz : y ≤ z) : x ≤ z := by
  obtain ⟨hx, hy⟩ := not_isNaN_of_le hxy
  obtain ⟨-, hz⟩ := not_isNaN_of_le hyz
  rw [le_iff_place hx hy] at hxy
  rw [le_iff_place hy hz] at hyz
  exact (le_iff_place hx hz).mpr (hxy.trans hyz)

theorem lt_of_lt_of_le_float {z : Float32} (hxy : x < y) (hyz : y ≤ z) : x < z := by
  obtain ⟨hx, hy⟩ := not_isNaN_of_lt hxy
  obtain ⟨-, hz⟩ := not_isNaN_of_le hyz
  rw [lt_iff_place hx hy] at hxy
  rw [le_iff_place hy hz] at hyz
  exact (lt_iff_place hx hz).mpr (hxy.trans_le hyz)

theorem le_stdMin {a : Float32} (hx : a ≤ x) (hy : a ≤ y) : a ≤ stdMin x y := by
  unfold stdMin
  split
  · exact hy
  · exact hx

theorem stdMin_le_left (hx : x.isNaN = false) : stdMin x y ≤ x := by
  unfold stdMin
  split
  next hlt =>
    have hy := (not_isNaN_of_lt hlt).1
    rw [lt_iff_place hy hx] at hlt
    exact (le_iff_place hy hx).mpr hlt.le
  next => exact le_rfl_of_not_isNaN hx

theorem stdMin_le_right (hx : x.isNaN = false) (hy : y.isNaN = false) : stdMin x y ≤ y := by
  unfold stdMin
  split
  next => exact le_rfl_of_not_isNaN hy
  next hlt => exact le_of_not_lt hy hx hlt

theorem not_pos_stdMin (h : ¬(0 : Float32) < x) : ¬(0 : Float32) < stdMin x y := by
  unfold stdMin
  split
  next hlt =>
    intro hpos
    obtain ⟨hzero, hy⟩ := not_isNaN_of_lt hpos
    have hx := (not_isNaN_of_lt hlt).2
    rw [lt_iff_place hzero hy] at hpos
    rw [lt_iff_place hy hx] at hlt
    exact h ((lt_iff_place hzero hx).mpr (hpos.trans hlt))
  next => exact h

theorem neg_le_zero (h : (0 : Float32) ≤ x) : -x ≤ 0 := by
  have hzero : (0 : Float32).toModel.unpack = .zero .positive := rfl
  have hle : decide ((0 : Float32).toModel.unpack.le x.toModel.unpack = true) = true := h
  rw [hzero, decide_eq_true_iff] at hle
  show decide ((unpack .binary32 (pack .binary32 x.toModel.unpack.neg)).le
    (0 : Float32).toModel.unpack = true) = true
  rw [decide_eq_true_iff, hzero]
  have hcanonical := canonical_unpack x.toModel
  have hfits : ExponentFits x.toModel.unpack := exponentFits_unpack _
  generalize x.toModel.unpack = u at hle hcanonical hfits
  rcases u with s | _ | s | ⟨s, m, e, hm⟩
  · cases s with
    | negative => cases hle
    | positive => rfl
  · cases hle
  · cases s <;> rfl
  · cases s with
    | negative => cases hle
    | positive =>
      rw [UnpackedFloat.neg, unpack_pack_finite (-Sign.positive) hm hcanonical hfits]
      rfl

/-- What is not negative is not below its opposite. -/
theorem neg_le_self_of_nonneg (h : (0 : Float32) ≤ x) : -x ≤ x :=
  le_trans_float (neg_le_zero h) h

/-- What is not NaN is clamped to between two limits. -/
theorem clamp_le_le {v lo hi : Float32} (hle : lo ≤ hi) (hv : v.isNaN = false) :
    lo ≤ stdClamp v lo hi ∧ stdClamp v lo hi ≤ hi := by
  obtain ⟨hlo, hhi⟩ := not_isNaN_of_le hle
  unfold stdClamp
  split
  next => exact ⟨le_rfl_of_not_isNaN hlo, hle⟩
  next hlow =>
    split
    next => exact ⟨hle, le_rfl_of_not_isNaN hhi⟩
    next hhigh => exact ⟨le_of_not_lt hv hlo hlow, le_of_not_lt hhi hv hhigh⟩

/-- NaN is clamped to NaN. -/
theorem isNaN_of_isNaN_clamp {v lo hi : Float32} (h : (stdClamp v lo hi).isNaN = false) :
    v.isNaN = false := by
  by_contra hv
  rw [Bool.not_eq_false] at hv
  have hlow : ¬v < lo := by
    intro hlt
    rw [(not_isNaN_of_lt hlt).1] at hv
    cases hv
  have hhigh : ¬hi < v := by
    intro hlt
    rw [(not_isNaN_of_lt hlt).2] at hv
    cases hv
  rw [stdClamp, if_neg hlow, if_neg hhigh, hv] at h
  cases h

end WODrive.Binary32
