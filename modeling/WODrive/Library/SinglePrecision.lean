import WODrive.Library.Rounding

/-!
# Arithmetic in single precision

What the operations of `Float32` do to numbers, infinities and NaN, without their rounding:
a result stays between any two numbers that the exact result is between (`add_mem`,
`sub_mem`, `mul_mem`), and comparisons are those of the numbers (`lt_iff`, `le_iff`).

- `toRat`: the rational number that a finite one stands for;
- `unpack_pack`: what is not too large is packed without a loss;
- `Between`, `isFinite_of_le_of_le`: what is between two numbers is a number;
- `truncate_mem`: the integer part stays between integers.
-/

namespace WODrive.Binary32

open Float.Model (Format UnpackedFloat totalExponent)
open Float.Model.UnpackedFloat

/-! ## Packing -/

theorem unpackSign_packComponents (s : Sign) (e : BitVec 8) (m : BitVec 23) :
    unpackSign (packComponents .binary32 s e m) = s.toBitVec := by
  change (s.toBitVec ++ e ++ m).extractLsb' 31 1 = s.toBitVec
  rw [BitVec.extractLsb'_append_eq_of_le (by decide),
    BitVec.extractLsb'_append_eq_of_le (by decide)]
  cases s <;> rfl

theorem ofBitVec_toBitVec (s : Sign) : Sign.ofBitVec s.toBitVec = s := by
  cases s <;> rfl

/-- The mantissa gets the bit back that packing leaves out. -/
theorem one_append_ofNat {m : Nat} (hm : m.log2 = 23) :
    (1#1 ++ BitVec.ofNat 23 m).toNat = m := by
  have hne : m ≠ 0 := by
    rintro rfl
    cases hm
  obtain ⟨hle, hlt⟩ := (Nat.log2_eq_iff hne).mp hm
  have hmod : (BitVec.ofNat 23 m).toNat = m % 2 ^ 23 := BitVec.toNat_ofNat m 23
  rw [BitVec.toNat_append, ← Nat.shiftLeft_add_eq_or_of_lt (BitVec.isLt _), hmod]
  show 1 <<< 23 + m % 2 ^ 23 = m
  rw [Nat.shiftLeft_eq]
  omega

theorem finite_congr (s : Sign) {m n : Nat} {e f : Int} {hm : 0 < m} {hn : 0 < n} (h : m = n)
    (h' : e = f) : UnpackedFloat.finite s m e hm = .finite s n f hn := by
  subst h
  subst h'
  rfl

/-- What is unpacked with an exponent field that is neither of the two special ones. -/
theorem unpack_normal (s : Sign) {b : BitVec 8} (mv : BitVec 23) (hinf : b ≠ -1#8)
    (hzero : b ≠ 0#8) :
    unpack .binary32 (packComponents .binary32 s b mv) =
      .finite s (1#1 ++ mv).toNat (b.toNat - 150)
        (by rw [BitVec.toNat_append]; exact Nat.pos_of_ne_zero (by simp)) := by
  unfold unpack
  simp only [unpackMantissa_packComponents, unpackExponent_packComponents,
    unpackSign_packComponents, ofBitVec_toBitVec, if_neg hinf, if_neg hzero]
  exact finite_congr s rfl rfl

theorem unpack_subnormal (s : Sign) {mv : BitVec 23} (hmv : mv ≠ 0#23) :
    unpack .binary32 (packComponents .binary32 s 0#8 mv) =
      .finite s mv.toNat (-149) (by simpa [BitVec.toNat_pos, BitVec.pos_iff_ne_zero]) := by
  unfold unpack
  have hinf : 0#8 ≠ -1#8 := by decide
  simp only [unpackMantissa_packComponents, unpackExponent_packComponents,
    unpackSign_packComponents, ofBitVec_toBitVec, if_neg hinf, if_pos, dif_neg hmv]
  exact finite_congr s rfl rfl

theorem pack_finite (s : Sign) (m : Nat) (e : Int) (hm : 0 < m) :
    pack .binary32 (.finite s m e hm) =
      if 2 ^ 8 ≤ (e + 127 + 23).toNat + 1 then packedInfinity .binary32 s
      else if m.log2 + 1 = 24 then
        packComponents .binary32 s (BitVec.ofNat 8 (e + 127 + 23).toNat) (BitVec.ofNat 23 m)
      else packComponents .binary32 s 0#8 (BitVec.ofNat 23 m) := rfl

/-- A number that is not too large is packed without a loss. -/
theorem unpack_pack_finite (s : Sign) {m : Nat} {e : Int} (hm : 0 < m)
    (h : Canonical (.finite s m e hm)) (he : e ≤ 104) :
    unpack .binary32 (pack .binary32 (.finite s m e hm)) = .finite s m e hm := by
  have hsmall : ¬2 ^ 8 ≤ (e + 127 + 23).toNat + 1 := by omega
  by_cases hlog : m.log2 = 23
  · have hge : -149 ≤ e := (canonicalPair h).2
    have hexp : (BitVec.ofNat 8 (e + 127 + 23).toNat).toNat = (e + 150).toNat := by
      rw [BitVec.toNat_ofNat]
      omega
    rw [pack_finite, if_neg hsmall, if_pos (by omega), unpack_normal]
    · refine finite_congr s (one_append_ofNat hlog) ?_
      rw [hexp]
      omega
    · intro hall
      have hfield := congrArg BitVec.toNat hall
      rw [hexp] at hfield
      change (e + 150).toNat = 255 at hfield
      omega
    · intro hall
      have hfield := congrArg BitVec.toNat hall
      rw [hexp] at hfield
      change (e + 150).toNat = 0 at hfield
      omega
  · obtain ⟨hlog', rfl⟩ : m.log2 ≤ 23 ∧ e = -149 := by
      rcases canonical_iff.mp h with ⟨hm', -⟩ | hm'
      · exact absurd hm' hlog
      · exact hm'
    have hlt : m < 2 ^ 23 := (Nat.log2_lt hm.ne').mp (by omega)
    have hmantissa : (BitVec.ofNat 23 m).toNat = m := by
      rw [BitVec.toNat_ofNat]
      omega
    rw [pack_finite, if_neg hsmall, if_neg (by omega), unpack_subnormal]
    · exact finite_congr s hmantissa rfl
    · intro hall
      rw [hall] at hmantissa
      exact hm.ne hmantissa

theorem unpack_pack_zero (s : Sign) : unpack .binary32 (pack .binary32 (.zero s)) = .zero s := by
  cases s <;> rfl

/-! ## Order -/

/-- Where an unpacked float is among the numbers and the infinities; NaN is put at 0. -/
def extended : UnpackedFloat → WithBot (WithTop ℚ)
  | .infinity .negative => ⊥
  | .infinity .positive => ((⊤ : WithTop ℚ) : WithBot (WithTop ℚ))
  | u => ((value u : WithTop ℚ) : WithBot (WithTop ℚ))

theorem mul_zpow_lt {s₁ s₂ : Sign} {m₁ m₂ : Nat} {e₁ e₂ : Int} {hm₁ : 0 < m₁} {hm₂ : 0 < m₂}
    (h₁ : Canonical (.finite s₁ m₁ e₁ hm₁)) (h₂ : Canonical (.finite s₂ m₂ e₂ hm₂))
    (h : e₁ < e₂) : (m₁ : ℚ) * 2 ^ e₁ < m₂ * 2 ^ e₂ := by
  have hpair := canonicalPair h₁
  have hlog : m₂.log2 = 23 := by
    rcases canonical_iff.mp h₂ with ⟨hlog, -⟩ | ⟨-, he⟩
    · exact hlog
    · have := hpair.2
      omega
  have hbits := Nat.log2_self_le hm₂.ne'
  rw [hlog] at hbits
  have hpow : 2 ≤ 2 ^ (e₂ - e₁).toNat := Nat.le_self_pow (by omega) 2
  have hmul := Nat.mul_le_mul hbits hpow
  rw [natCast_mul_zpow m₂ h.le, ← not_le, natCast_mul_zpow_le, not_le]
  have hlt := hpair.1
  omega

/-- Exponents first, mantissas next. -/
theorem compare_then {s₁ s₂ : Sign} {m₁ m₂ : Nat} {e₁ e₂ : Int} {hm₁ : 0 < m₁} {hm₂ : 0 < m₂}
    (h₁ : Canonical (.finite s₁ m₁ e₁ hm₁)) (h₂ : Canonical (.finite s₂ m₂ e₂ hm₂)) :
    (compare e₁ e₂).then (compare m₁ m₂) = cmp ((m₁ : ℚ) * 2 ^ e₁) (m₂ * 2 ^ e₂) := by
  rcases lt_trichotomy e₁ e₂ with h | rfl | h
  · rw [Int.compare_eq_lt.mpr h, (cmp_eq_lt_iff _ _).mpr (mul_zpow_lt h₁ h₂ h)]
    rfl
  · rw [Int.compare_eq_eq.mpr rfl]
    have hpos : (0 : ℚ) < 2 ^ e₁ := zpow_pos (by norm_num) e₁
    rcases lt_trichotomy m₁ m₂ with hm | rfl | hm
    · rw [Nat.compare_eq_lt.mpr hm, (cmp_eq_lt_iff _ _).mpr]
      · rfl
      · exact mul_lt_mul_of_pos_right (Nat.cast_lt.mpr hm) hpos
    · rw [Nat.compare_eq_eq.mpr rfl, cmp_self_eq_eq]
      rfl
    · rw [Nat.compare_eq_gt.mpr hm, (cmp_eq_gt_iff _ _).mpr]
      · rfl
      · exact mul_lt_mul_of_pos_right (Nat.cast_lt.mpr hm) hpos
  · rw [Int.compare_eq_gt.mpr h, (cmp_eq_gt_iff _ _).mpr (mul_zpow_lt h₂ h₁ h)]
    rfl

theorem cmp_extended_coe (x y : ℚ) :
    cmp ((x : WithTop ℚ) : WithBot (WithTop ℚ)) ((y : WithTop ℚ) : WithBot (WithTop ℚ)) =
      cmp x y :=
  (WithBot.coe_strictMono.comp WithTop.coe_strictMono).cmp_map_eq x y

theorem extended_of_isFinite {u : UnpackedFloat} (h : u.isFinite = true) :
    extended u = ((value u : WithTop ℚ) : WithBot (WithTop ℚ)) := by
  cases u with
  | infinity s => cases h
  | notANumber => cases h
  | zero s => rfl
  | finite s m e hm => rfl

theorem cmp_extended {u v : UnpackedFloat} (hu : u.isFinite = true) (hv : v.isFinite = true) :
    cmp (extended u) (extended v) = cmp (value u) (value v) := by
  rw [extended_of_isFinite hu, extended_of_isFinite hv, cmp_extended_coe]

theorem value_pos (m : Nat) (e : Int) (hm : 0 < m) : 0 < value (.finite .positive m e hm) :=
  mul_pos (Nat.cast_pos.mpr hm) (zpow_pos (by norm_num) e)

theorem value_neg_lt (m : Nat) (e : Int) (hm : 0 < m) : value (.finite .negative m e hm) < 0 :=
  neg_lt_zero.mpr (value_pos m e hm)

/-- Two numbers compare as their values. -/
theorem compare_of_isFinite {u v : UnpackedFloat} (hu : u.isFinite = true)
    (hv : v.isFinite = true) (hu' : Canonical u) (hv' : Canonical v) :
    u.compare v = some (cmp (value u) (value v)) := by
  rcases u with _ | _ | s₁ | ⟨s₁, m₁, e₁, hm₁⟩
  · cases hu
  · cases hu
  · rcases v with _ | _ | s₂ | ⟨s₂, m₂, e₂, hm₂⟩
    · cases hv
    · cases hv
    · exact congrArg some (cmp_self_eq_eq (0 : ℚ)).symm
    · cases s₂ with
      | negative => exact congrArg some ((cmp_eq_gt_iff _ _).mpr (value_neg_lt _ _ _)).symm
      | positive => exact congrArg some ((cmp_eq_lt_iff _ _).mpr (value_pos _ _ _)).symm
  · rcases v with _ | _ | s₂ | ⟨s₂, m₂, e₂, hm₂⟩
    · cases hv
    · cases hv
    · cases s₁ with
      | negative => exact congrArg some ((cmp_eq_lt_iff _ _).mpr (value_neg_lt _ _ _)).symm
      | positive => exact congrArg some ((cmp_eq_gt_iff _ _).mpr (value_pos _ _ _)).symm
    · cases s₁ <;> cases s₂
      · refine congrArg some ?_
        rw [compare_then hu' hv', cmp_swap]
        exact (StrictAnti.cmp_map_eq (fun _ _ => neg_lt_neg) _ _).symm
      · have hlt := (value_neg_lt m₁ e₁ hm₁).trans (value_pos m₂ e₂ hm₂)
        exact congrArg some ((cmp_eq_lt_iff _ _).mpr hlt).symm
      · have hlt := (value_neg_lt m₂ e₂ hm₂).trans (value_pos m₁ e₁ hm₁)
        exact congrArg some ((cmp_eq_gt_iff _ _).mpr hlt).symm
      · exact congrArg some (compare_then hu' hv')

theorem bot_lt_extended {u : UnpackedFloat} (h : u ≠ .infinity .negative) :
    ⊥ < extended u := by
  rcases u with s | _ | s | ⟨s, m, e, hm⟩
  · cases s with
    | negative => exact absurd rfl h
    | positive => exact WithBot.bot_lt_coe _
  all_goals exact WithBot.bot_lt_coe _

theorem extended_lt_top {u : UnpackedFloat} (h : u ≠ .infinity .positive) :
    extended u < ((⊤ : WithTop ℚ) : WithBot (WithTop ℚ)) := by
  rcases u with s | _ | s | ⟨s, m, e, hm⟩
  · cases s with
    | negative => exact WithBot.bot_lt_coe _
    | positive => exact absurd rfl h
  all_goals exact WithBot.coe_lt_coe.mpr (WithTop.coe_lt_top _)

/-- Two that are not NaN compare as their places among the numbers and the infinities. -/
theorem compare_eq {u v : UnpackedFloat} (hu : u.isNaN = false) (hv : v.isNaN = false)
    (hu' : Canonical u) (hv' : Canonical v) :
    u.compare v = some (cmp (extended u) (extended v)) := by
  have hlt : ∀ {x y : WithBot (WithTop ℚ)}, x < y → some Ordering.lt = some (cmp x y) :=
    fun h => congrArg some ((cmp_eq_lt_iff _ _).mpr h).symm
  have hgt : ∀ {x y : WithBot (WithTop ℚ)}, y < x → some Ordering.gt = some (cmp x y) :=
    fun h => congrArg some ((cmp_eq_gt_iff _ _).mpr h).symm
  have heq : ∀ x : WithBot (WithTop ℚ), some Ordering.eq = some (cmp x x) :=
    fun x => congrArg some (cmp_self_eq_eq x).symm
  by_cases hfinite : u.isFinite = true ∧ v.isFinite = true
  · rw [compare_of_isFinite hfinite.1 hfinite.2 hu' hv', cmp_extended hfinite.1 hfinite.2]
  rcases u with s₁ | _ | s₁ | ⟨s₁, m₁, e₁, hm₁⟩
  · cases s₁ with
    | negative =>
      rcases v with s₂ | _ | s₂ | ⟨s₂, m₂, e₂, hm₂⟩
      · cases s₂ with
        | negative => exact heq _
        | positive => exact hlt (bot_lt_extended (by simp))
      · cases hv
      · exact hlt (bot_lt_extended (by simp))
      · exact hlt (bot_lt_extended (by simp))
    | positive =>
      rcases v with s₂ | _ | s₂ | ⟨s₂, m₂, e₂, hm₂⟩
      · cases s₂ with
        | negative => exact hgt (extended_lt_top (by simp))
        | positive => exact heq _
      · cases hv
      · exact hgt (extended_lt_top (by simp))
      · exact hgt (extended_lt_top (by simp))
  · cases hu
  all_goals
    rcases v with s₂ | _ | s₂ | ⟨s₂, m₂, e₂, hm₂⟩
    · cases s₂ with
      | negative => exact hgt (bot_lt_extended (by simp))
      | positive => exact hlt (extended_lt_top (by simp))
    · cases hv
    · exact absurd ⟨rfl, rfl⟩ hfinite
    · exact absurd ⟨rfl, rfl⟩ hfinite

/-! ## Comparisons -/

/-- The number that `x` stands for; 0 for an infinity or NaN. -/
def toRat (x : Float32) : ℚ := value x.toModel.unpack

/-- Where `x` is among the numbers and the infinities. -/
def place (x : Float32) : WithBot (WithTop ℚ) := extended x.toModel.unpack

variable {x y : Float32}

theorem isNaN_of_isFinite (h : x.isFinite = true) : x.isNaN = false := by
  have hu : x.toModel.unpack.isFinite = true := h
  show x.toModel.unpack.isNaN = false
  cases hx : x.toModel.unpack <;> simp_all [UnpackedFloat.isFinite, UnpackedFloat.isNaN]

theorem place_of_isFinite (h : x.isFinite = true) :
    place x = ((toRat x : WithTop ℚ) : WithBot (WithTop ℚ)) :=
  extended_of_isFinite h

theorem lt_iff_place (hx : x.isNaN = false) (hy : y.isNaN = false) :
    x < y ↔ place x < place y := by
  have hcompare := compare_eq hx hy (canonical_unpack _) (canonical_unpack _)
  show decide (x.toModel.unpack.lt y.toModel.unpack = true) = true ↔
    extended x.toModel.unpack < extended y.toModel.unpack
  rw [decide_eq_true_iff, UnpackedFloat.lt, hcompare, ← cmp_eq_lt_iff]
  generalize cmp (extended x.toModel.unpack) (extended y.toModel.unpack) = o
  cases o <;> decide

theorem le_iff_place (hx : x.isNaN = false) (hy : y.isNaN = false) :
    x ≤ y ↔ place x ≤ place y := by
  have hcompare := compare_eq hx hy (canonical_unpack _) (canonical_unpack _)
  show decide (x.toModel.unpack.le y.toModel.unpack = true) = true ↔
    extended x.toModel.unpack ≤ extended y.toModel.unpack
  rw [decide_eq_true_iff, UnpackedFloat.le, hcompare, ← not_lt, ← cmp_eq_gt_iff]
  generalize cmp (extended x.toModel.unpack) (extended y.toModel.unpack) = o
  cases o <;> decide

/-- NaN is not at most anything, and nothing is at most NaN. -/
theorem not_isNaN_of_le (h : x ≤ y) : x.isNaN = false ∧ y.isNaN = false := by
  have hle : decide (x.toModel.unpack.le y.toModel.unpack = true) = true := h
  rw [decide_eq_true_iff, UnpackedFloat.le] at hle
  show x.toModel.unpack.isNaN = false ∧ y.toModel.unpack.isNaN = false
  cases hx : x.toModel.unpack with
  | notANumber => simp [hx, UnpackedFloat.compare] at hle
  | _ =>
    refine ⟨rfl, ?_⟩
    cases hy : y.toModel.unpack with
    | notANumber => simp [hx, hy, UnpackedFloat.compare] at hle
    | _ => rfl

theorem not_isNaN_of_lt (h : x < y) : x.isNaN = false ∧ y.isNaN = false := by
  have hlt : decide (x.toModel.unpack.lt y.toModel.unpack = true) = true := h
  rw [decide_eq_true_iff, UnpackedFloat.lt] at hlt
  show x.toModel.unpack.isNaN = false ∧ y.toModel.unpack.isNaN = false
  cases hx : x.toModel.unpack with
  | notANumber => simp [hx, UnpackedFloat.compare] at hlt
  | _ =>
    refine ⟨rfl, ?_⟩
    cases hy : y.toModel.unpack with
    | notANumber => simp [hx, hy, UnpackedFloat.compare] at hlt
    | _ => rfl

theorem le_of_not_lt (hx : x.isNaN = false) (hy : y.isNaN = false) (h : ¬x < y) : y ≤ x := by
  rw [lt_iff_place hx hy, not_lt] at h
  exact (le_iff_place hy hx).mpr h

theorem lt_iff (hx : x.isFinite = true) (hy : y.isFinite = true) :
    x < y ↔ toRat x < toRat y := by
  rw [lt_iff_place (isNaN_of_isFinite hx) (isNaN_of_isFinite hy), place_of_isFinite hx,
    place_of_isFinite hy, WithBot.coe_lt_coe, WithTop.coe_lt_coe]

theorem le_iff (hx : x.isFinite = true) (hy : y.isFinite = true) :
    x ≤ y ↔ toRat x ≤ toRat y := by
  rw [le_iff_place (isNaN_of_isFinite hx) (isNaN_of_isFinite hy), place_of_isFinite hx,
    place_of_isFinite hy, WithBot.coe_le_coe, WithTop.coe_le_coe]

/-- What is between two numbers is a number. -/
theorem isFinite_of_le_of_le {a b : Float32} (ha : a.isFinite = true) (hb : b.isFinite = true)
    (hax : a ≤ x) (hxb : x ≤ b) : x.isFinite = true := by
  have hx := (not_isNaN_of_le hax).2
  rw [le_iff_place (isNaN_of_isFinite ha) hx, place_of_isFinite ha] at hax
  rw [le_iff_place hx (isNaN_of_isFinite hb), place_of_isFinite hb] at hxb
  show x.toModel.unpack.isFinite = true
  unfold place at hax hxb
  have hx' : x.toModel.unpack.isNaN = false := hx
  rcases hu : x.toModel.unpack with s | _ | s | ⟨s, m, e, hm⟩
  · rw [hu] at hax hxb
    cases s with
    | negative => exact absurd hax (WithBot.bot_lt_coe _).not_ge
    | positive =>
      exact absurd hxb (WithBot.coe_lt_coe.mpr (WithTop.coe_lt_top _)).not_ge
  · rw [hu] at hx'
    cases hx'
  · rfl
  · rfl

/-! ## Results of operations -/

/-- An exponent that leaves the field of the infinities out. -/
def ExponentFits : UnpackedFloat → Prop
  | .finite _ _ e _ => e ≤ 104
  | _ => True

theorem exponentFits_unpack (b : BitVec 32) : ExponentFits (unpack .binary32 b) := by
  fun_cases unpack with
  | case1 => trivial
  | case2 => trivial
  | case3 => trivial
  | case4 mvec evec e svec s _ hzero hne =>
    show (evec.toNat : Int) - (127 + 23) + 1 ≤ 104
    rw [hzero]
    decide
  | case5 mvec evec e svec s hinf hzero =>
    have hlt : evec.toNat < 256 := evec.isLt
    have hne : evec.toNat ≠ 255 := fun h => hinf (BitVec.eq_of_toNat_eq h)
    show (evec.toNat : Int) - (127 + 23) ≤ 104
    omega

theorem abs_toRat_lt (h : x.isFinite = true) : |toRat x| < 2 ^ (128 : Int) := by
  unfold toRat
  rcases hu : x.toModel.unpack with s | _ | s | ⟨s, m, e, hm⟩
  · exact absurd h (by simp [Float32.isFinite, Float32.Model.isFinite, hu, UnpackedFloat.isFinite])
  · exact absurd h (by simp [Float32.isFinite, Float32.Model.isFinite, hu, UnpackedFloat.isFinite])
  · simp [value]
  · have hcanonical := canonical_unpack x.toModel
    rw [hu] at hcanonical
    have hpair := canonicalPair hcanonical
    have he : ExponentFits x.toModel.unpack := exponentFits_unpack _
    rw [hu] at he
    change e ≤ 104 at he
    have hnonneg := mul_zpow_nonneg m e
    have hlt : (m : ℚ) * 2 ^ e < 2 ^ (128 : Int) := by
      have hpos : (0 : ℚ) < 2 ^ e := zpow_pos (by norm_num) e
      have hmul : (m : ℚ) * 2 ^ e < 2 ^ (24 : Int) * 2 ^ e :=
        mul_lt_mul_of_pos_right (by exact_mod_cast hpair.1) hpos
      rw [← zpow_add₀ (by norm_num)] at hmul
      exact hmul.trans_le (zpow_le_zpow_right₀ (by norm_num) (by omega))
    rw [value_finite]
    cases s with
    | negative => rwa [signed, abs_neg, abs_of_nonneg hnonneg]
    | positive => rwa [signed, abs_of_nonneg hnonneg]

/-- A canonical number below the infinities is packed without a loss. -/
theorem unpack_pack {r : UnpackedFloat} (hr : r.isFinite = true) (hcanonical : Canonical r)
    (h : |value r| < 2 ^ (128 : Int)) : (Float32.Model.pack r).unpack = r := by
  rcases r with s | _ | s | ⟨s, m, e, hm⟩
  · cases hr
  · cases hr
  · exact unpack_pack_zero s
  · refine unpack_pack_finite s hm hcanonical ?_
    by_contra he
    rw [not_le] at he
    have hlog : m.log2 = 23 := by
      rcases canonical_iff.mp hcanonical with ⟨hlog, -⟩ | ⟨-, he'⟩ <;> omega
    have hbits := Nat.log2_self_le hm.ne'
    rw [hlog] at hbits
    have hge : (2 : ℚ) ^ (128 : Int) ≤ m * 2 ^ e := by
      have hpos : (0 : ℚ) < 2 ^ e := zpow_pos (by norm_num) e
      have hmul : (2 : ℚ) ^ (23 : Int) * 2 ^ e ≤ m * 2 ^ e :=
        mul_le_mul_of_nonneg_right (by exact_mod_cast hbits) hpos.le
      rw [← zpow_add₀ (by norm_num)] at hmul
      exact (zpow_le_zpow_right₀ (by norm_num) (by omega)).trans hmul
    rw [value_finite] at h
    have hnonneg := mul_zpow_nonneg m e
    cases s with
    | negative =>
      rw [signed, abs_neg, abs_of_nonneg hnonneg] at h
      exact absurd h hge.not_gt
    | positive =>
      rw [signed, abs_of_nonneg hnonneg] at h
      exact absurd h hge.not_gt

/-- The number is between the two. -/
structure Between (a b x : Float32) : Prop where
  isFinite : x.isFinite = true
  ge : toRat a ≤ toRat x
  le : toRat x ≤ toRat b

/-- A rounded result is between two numbers if the exact one is. -/
theorem between_of_roundsTo {q : ℚ} {r : UnpackedFloat} {a b : Float32} (h : RoundsTo q r)
    (ha : a.isFinite = true) (hb : b.isFinite = true) (haq : toRat a ≤ q) (hqb : q ≤ toRat b) :
    Between a b (Float32.ofModel (.pack r)) := by
  have har : toRat a ≤ value r := h.le _ ha (canonical_unpack _) haq
  have hrb : value r ≤ toRat b := h.ge _ hb (canonical_unpack _) hqb
  have habs : |value r| < 2 ^ (128 : Int) := by
    have ha' := abs_lt.mp (abs_toRat_lt ha)
    have hb' := abs_lt.mp (abs_toRat_lt hb)
    exact abs_lt.mpr ⟨ha'.1.trans_le har, hrb.trans_lt hb'.2⟩
  have hunpack := unpack_pack h.isFinite h.canonical habs
  refine ⟨?_, ?_, ?_⟩
  · show (Float32.Model.pack r).unpack.isFinite = true
    rw [hunpack, h.isFinite]
  · show _ ≤ value (Float32.Model.pack r).unpack
    rwa [hunpack]
  · show value (Float32.Model.pack r).unpack ≤ _
    rwa [hunpack]

variable {a b : Float32}

theorem add_mem (ha : a.isFinite = true) (hb : b.isFinite = true) (hx : x.isFinite = true)
    (hy : y.isFinite = true) (hge : toRat a ≤ toRat x + toRat y)
    (hle : toRat x + toRat y ≤ toRat b) : Between a b (x + y) :=
  between_of_roundsTo (roundsTo_add hx hy (canonical_unpack _) (canonical_unpack _)) ha hb hge hle

theorem sub_mem (ha : a.isFinite = true) (hb : b.isFinite = true) (hx : x.isFinite = true)
    (hy : y.isFinite = true) (hge : toRat a ≤ toRat x - toRat y)
    (hle : toRat x - toRat y ≤ toRat b) : Between a b (x - y) :=
  between_of_roundsTo (roundsTo_sub hx hy (canonical_unpack _) (canonical_unpack _)) ha hb hge hle

theorem mul_mem (ha : a.isFinite = true) (hb : b.isFinite = true) (hx : x.isFinite = true)
    (hy : y.isFinite = true) (hge : toRat a ≤ toRat x * toRat y)
    (hle : toRat x * toRat y ≤ toRat b) : Between a b (x * y) :=
  between_of_roundsTo (roundsTo_mul hx hy (canonical_unpack _) (canonical_unpack _)) ha hb hge hle

/-! ## Integers -/

theorem shiftRight_mantissa (m k : Nat) :
    ((⟨m, false, false⟩ : ExtendedMantissa) >>> k).mantissa = m / 2 ^ k :=
  (shiftRight_spec m k).1

/-- What a shift to the exponent 0 leaves is the integer part. -/
theorem roundToInt_positive (m : Nat) (e : Int) :
    roundToInt .positive m e = ⌊(m : ℚ) * 2 ^ e⌋ := by
  simp only [roundToInt, decreaseExponent, shiftToExponent,
    ExtendedMantissa.ofMantissaAndAccuracy, shiftRight_mantissa, Sign.apply]
  rcases le_total 0 e with he | he
  · have hshift : (0 - (e - ((e - 0).toNat : Int))).toNat = 0 := by omega
    obtain ⟨k, rfl⟩ := Int.eq_ofNat_of_zero_le he
    have hk : ((k : Int) - 0).toNat = k := by omega
    rw [hshift, hk, pow_zero, Nat.div_one, Nat.shiftLeft_eq, zpow_natCast]
    have hcast : (m : ℚ) * 2 ^ k = ((m * 2 ^ k : Nat) : ℚ) := by push_cast; rfl
    rw [hcast, Int.floor_natCast]
  · obtain ⟨k, hk⟩ := Int.eq_ofNat_of_zero_le (neg_nonneg.mpr he)
    obtain rfl : e = -(k : Int) := by omega
    have hzero : (-(k : Int) - 0).toNat = 0 := by omega
    have hshift : (0 - (-(k : Int) - ((-(k : Int) - 0).toNat : Int))).toNat = k := by omega
    rw [hshift, hzero, Nat.shiftLeft_zero, zpow_neg, zpow_natCast, ← div_eq_mul_inv]
    have hcast : (m : ℚ) / 2 ^ k = (m : ℚ) / ((2 ^ k : Nat) : ℚ) := by push_cast; rfl
    rw [hcast, Rat.floor_natCast_div_natCast]
    norm_cast

theorem truncate_eq_floor (hx : x.isFinite = true) (h : 0 ≤ toRat x) :
    truncate x = ⌊toRat x⌋ := by
  have hfinite : x.toModel.unpack.isFinite = true := hx
  unfold truncate
  unfold toRat at h ⊢
  generalize x.toModel.unpack = u at hfinite h ⊢
  rcases u with s | _ | s | ⟨s, m, e, hm⟩
  · cases hfinite
  · cases hfinite
  · exact Int.floor_zero.symm
  · cases s with
    | negative => exact absurd (value_neg_lt m e hm) h.not_gt
    | positive => exact roundToInt_positive m e

/-- The integer part of a number between two integers. -/
theorem truncate_mem {n k : Int} (h : Between a b x) (hn : 0 ≤ n) (hna : n ≤ toRat a)
    (hbk : toRat b < k + 1) : n ≤ truncate x ∧ truncate x ≤ k := by
  have hn' : (0 : ℚ) ≤ n := by exact_mod_cast hn
  rw [truncate_eq_floor h.isFinite (hn'.trans (hna.trans h.ge))]
  refine ⟨Int.le_floor.mpr (hna.trans h.ge), Int.lt_add_one_iff.mp (Int.floor_lt.mpr ?_)⟩
  push_cast
  exact h.le.trans_lt hbk

end WODrive.Binary32
