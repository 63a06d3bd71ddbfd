import WODrive.Library.Crc

/-!
# Cyclic redundancy checks, bit by bit

With a polynomial whose lowest bit is set, a step of the division loses nothing. So the
register after some bits tells the register before them apart (`crcBits_injective`),
and it tells bit strings that are not longer than the register apart
(`crcBits_bits_injective`). Two consequences:

- `crc_append_eq_zero_iff`: the only trailer that leaves nothing in the register is the
  remainder of the message;
- `crc_burst`: messages that differ, but only within as many consecutive bits as the
  register has, have different remainders.
-/

namespace WODrive.Crc

variable {w : Nat} (poly r : BitVec w)

/-! ## One step loses nothing -/

theorem shiftBit_xor (x y : BitVec w) :
    shiftBit poly (x ^^^ y) = shiftBit poly x ^^^ shiftBit poly y := by
  unfold shiftBit
  rw [BitVec.msb_xor, BitVec.shiftLeft_xor_distrib]
  cases x.msb <;> cases y.msb
  · rfl
  · simp [BitVec.xor_assoc]
  · simp only [Bool.xor_false, if_true, Bool.false_eq_true, if_false]
    rw [BitVec.xor_assoc, BitVec.xor_comm (y <<< 1), ← BitVec.xor_assoc]
  · simp only [Bool.xor_self, Bool.false_eq_true, if_false, if_true]
    rw [BitVec.xor_assoc, BitVec.xor_comm poly, BitVec.xor_assoc, BitVec.xor_self]
    simp

variable {poly} in
/-- The lowest bit of the result says whether the polynomial was subtracted. -/
theorem eq_zero_of_shiftBit (hpoly : poly.getLsbD 0 = true) (h : shiftBit poly r = 0) :
    r = 0 := by
  have hw : 0 < w := BitVec.lt_of_getLsbD hpoly
  unfold shiftBit at h
  cases hmsb : r.msb with
  | true =>
    rw [hmsb, if_pos rfl] at h
    have hbit := congrArg (fun x : BitVec w => x.getLsbD 0) h
    simp [hpoly] at hbit
  | false =>
    rw [hmsb, if_neg Bool.false_ne_true] at h
    have hzero : ∀ i, (0 : BitVec w).getMsbD i = false := fun i => BitVec.getMsbD_zero
    apply BitVec.eq_of_getMsbD_eq
    intro i hi
    rw [hzero]
    cases i with
    | zero => exact hmsb
    | succ i =>
      have hbit := congrArg (fun x : BitVec w => x.getMsbD i) h
      simp only [BitVec.getMsbD_shiftLeft, hzero] at hbit
      exact hbit

variable {poly} in
theorem iterate_shiftBit_injective (hpoly : poly.getLsbD 0 = true) (n : Nat) :
    Function.Injective (shiftBit poly)^[n] := by
  refine Function.Injective.iterate (fun x y h => ?_) n
  have hdiff : shiftBit poly (x ^^^ y) = 0 := by
    rw [shiftBit_xor, h]
    exact BitVec.xor_self
  exact BitVec.xor_eq_zero_iff.mp (eq_zero_of_shiftBit _ hpoly hdiff)

/-! ## Bits -/

/-- The bits of a byte, the most significant one first. -/
def byteBits (b : BitVec 8) : List Bool := (List.range 8).map b.getMsbD

/-- The bits of a message. -/
def bits (bytes : List (BitVec 8)) : List Bool := bytes.flatMap byteBits

/-- A bit at the top of a register. -/
def topBit (b : Bool) : BitVec w := if b then BitVec.twoPow w (w - 1) else 0

/-- The remainder after one more bit. -/
def crcBit (b : Bool) : BitVec w := shiftBit poly (r ^^^ topBit b)

/-- The remainder after a sequence of bits. -/
def crcBits (bs : List Bool) : BitVec w := bs.foldl (crcBit poly) r

/-- The register with these bits at its top. -/
def place : List Bool → BitVec w
  | [] => 0
  | b :: bs => topBit b ^^^ (place bs >>> 1)

theorem getMsbD_topBit (hw : 0 < w) (b : Bool) (i : Nat) :
    (topBit b : BitVec w).getMsbD i = (b && decide (i = 0)) := by
  unfold topBit
  cases b with
  | false => simp
  | true =>
    simp only [if_true, BitVec.getMsbD, BitVec.getLsbD_twoPow, Bool.true_and]
    by_cases hi : i = 0
    · have hlast : w - 1 < w := by omega
      simp [hi, hlast, hw]
    · simp only [hi, decide_false, Bool.and_eq_false_iff, decide_eq_false_iff_not]
      omega

theorem getMsbD_place (bs : List Bool) (i : Nat) :
    (place bs : BitVec w).getMsbD i = (decide (i < w) && bs.getD i false) := by
  induction bs generalizing i with
  | nil => simp [place]
  | cons b bs ih =>
    by_cases hi : i < w
    · simp only [place, BitVec.getMsbD_xor, getMsbD_topBit (by omega : 0 < w),
        BitVec.getMsbD_ushiftRight, ih]
      cases i with
      | zero => simp [hi]
      | succ i =>
        have hi' : i < w := by omega
        simp [hi, hi']
    · simp [BitVec.getMsbD_of_ge _ _ (Nat.not_lt.mp hi), hi]

/-- Moving the register up undoes moving it down, where nothing is lost. -/
theorem shiftBit_place {bs : List Bool} (h : bs.length < w) :
    shiftBit poly (place bs >>> 1) = place bs := by
  have hmsb : (place bs >>> 1 : BitVec w).msb = false := by
    rw [BitVec.msb, BitVec.getMsbD_ushiftRight]
    simp
  unfold shiftBit
  rw [hmsb, if_neg Bool.false_ne_true]
  apply BitVec.eq_of_getMsbD_eq
  intro i hi
  rw [BitVec.getMsbD_shiftLeft, BitVec.getMsbD_ushiftRight, getMsbD_place, getMsbD_place]
  by_cases hlast : i + 1 < w
  · simp [hlast, hi]
  · have hnone : bs[i]? = none := List.getElem?_eq_none (by omega)
    simp [hlast, hnone]

/-- Bits that fit into the register may be put there at once. -/
theorem crcBits_eq_iterate {bs : List Bool} (h : bs.length ≤ w) :
    crcBits poly r bs = (shiftBit poly)^[bs.length] (r ^^^ place bs) := by
  induction bs generalizing r with
  | nil =>
    show r = r ^^^ 0
    exact BitVec.xor_zero.symm
  | cons b bs ih =>
    have hlen : bs.length < w := h
    show crcBits poly (crcBit poly r b) bs = _
    rw [ih _ hlen.le, List.length_cons, Function.iterate_succ_apply, place, ← BitVec.xor_assoc,
      shiftBit_xor, shiftBit_place poly hlen]
    rfl

theorem crcBits_append (as bs : List Bool) :
    crcBits poly r (as ++ bs) = crcBits poly (crcBits poly r as) bs :=
  List.foldl_append

theorem length_byteBits (b : BitVec 8) : (byteBits b).length = 8 := by
  simp [byteBits]

/-- A byte in the register, and its bits. -/
theorem place_byteBits (hw : 8 ≤ w) (b : BitVec 8) :
    (place (byteBits b) : BitVec w) = b.setWidth w <<< (w - 8) := by
  apply BitVec.eq_of_getMsbD_eq
  intro i hi
  rw [getMsbD_place, BitVec.getMsbD_shiftLeft, BitVec.getMsbD_setWidth]
  by_cases hi8 : i < 8
  · have h1 : i + (w - 8) + 8 - w = i := by omega
    have h2 : w - 8 ≤ i + (w - 8) := by omega
    simp [byteBits, hi, hi8, h1, h2]
  · have hnone : (byteBits b)[i]? = none :=
      List.getElem?_eq_none (by rw [length_byteBits]; omega)
    have hout : b.getMsbD (i + (w - 8) + 8 - w) = false :=
      BitVec.getMsbD_of_ge _ _ (by omega)
    simp [hnone, hout]

theorem crcByte_eq_crcBits (hw : 8 ≤ w) (b : BitVec 8) :
    crcByte poly r b = crcBits poly r (byteBits b) := by
  rw [crcBits_eq_iterate _ _ (by rw [length_byteBits]; exact hw), length_byteBits,
    place_byteBits hw]
  rfl

theorem crc_eq_crcBits (hw : 8 ≤ w) (bytes : List (BitVec 8)) :
    crc poly r bytes = crcBits poly r (bits bytes) := by
  induction bytes generalizing r with
  | nil => rfl
  | cons b bytes ih =>
    rw [crc_cons, ih, crcByte_eq_crcBits _ _ hw]
    exact (crcBits_append poly r (byteBits b) (bits bytes)).symm

theorem length_bits (bytes : List (BitVec 8)) : (bits bytes).length = 8 * bytes.length := by
  induction bytes with
  | nil => rfl
  | cons b bytes ih =>
    rw [bits, List.flatMap_cons, List.length_append, length_byteBits, List.length_cons]
    show 8 + (bits bytes).length = _
    omega

theorem byteBits_injective : Function.Injective byteBits := by
  intro a b h
  apply BitVec.eq_of_getMsbD_eq
  intro i hi
  have hget := congrArg (fun l : List Bool => l[i]?) h
  simpa [byteBits, hi] using hget

theorem bits_injective : Function.Injective bits := by
  intro as
  induction as with
  | nil =>
    intro bs h
    have hlen := congrArg List.length h
    rw [length_bits, length_bits, List.length_nil] at hlen
    exact (List.eq_nil_of_length_eq_zero (by omega)).symm
  | cons a as ih =>
    intro bs h
    cases bs with
    | nil =>
      have hlen := congrArg List.length h
      rw [length_bits, length_bits, List.length_nil, List.length_cons] at hlen
      omega
    | cons b bs =>
      obtain ⟨hbyte, hrest⟩ := List.append_inj
        (show byteBits a ++ bits as = byteBits b ++ bits bs from h)
        (by rw [length_byteBits, length_byteBits])
      rw [byteBits_injective hbyte, ih hrest]

/-- Exclusive or acts on each bit. -/
theorem byteBits_xor (a b : BitVec 8) :
    byteBits (a ^^^ b) = List.zipWith Bool.xor (byteBits a) (byteBits b) := by
  unfold byteBits
  rw [List.zipWith_map_left, List.zipWith_map_right, List.zipWith_self]
  exact List.map_congr_left fun i _ => BitVec.getMsbD_xor

theorem bits_zipWith_xor {as bs : List (BitVec 8)} (hlen : as.length = bs.length) :
    bits (List.zipWith (· ^^^ ·) as bs) = List.zipWith Bool.xor (bits as) (bits bs) := by
  induction as generalizing bs with
  | nil => rfl
  | cons a as ih =>
    cases bs with
    | nil => cases hlen
    | cons b bs =>
      have hrest := ih (Nat.succ.inj hlen)
      show byteBits (a ^^^ b) ++ bits (List.zipWith (· ^^^ ·) as bs) =
        List.zipWith Bool.xor (byteBits a ++ bits as) (byteBits b ++ bits bs)
      rw [hrest, byteBits_xor, List.zipWith_append]
      rw [length_byteBits, length_byteBits]

/-- The bits in which a message and what is made of it differ. -/
theorem bits_xor_ne_iff {as errors : List (BitVec 8)} (hlen : errors.length = as.length)
    (i : Nat) :
    (bits (List.zipWith (· ^^^ ·) as errors))[i]? ≠ (bits as)[i]? ↔
      (bits errors)[i]? = some true := by
  rw [bits_zipWith_xor hlen.symm, List.getElem?_zipWith]
  by_cases hi : i < (bits as).length
  · have hi' : i < (bits errors).length := by
      rw [length_bits, hlen, ← length_bits]
      exact hi
    rw [List.getElem?_eq_getElem hi, List.getElem?_eq_getElem hi']
    cases (bits errors)[i] <;> simp
  · have hi' : ¬ i < (bits errors).length := by
      rw [length_bits, hlen, ← length_bits]
      exact hi
    rw [List.getElem?_eq_none (Nat.not_lt.mp hi), List.getElem?_eq_none (Nat.not_lt.mp hi')]
    simp

/-! ## What a remainder tells apart -/

section

variable {poly} (hpoly : poly.getLsbD 0 = true)

include hpoly

/-- The register before some bits. -/
theorem crcBits_injective (bs : List Bool) : Function.Injective fun r => crcBits poly r bs := by
  induction bs with
  | nil => exact fun _ _ h => h
  | cons b bs ih =>
    intro x y h
    have hbit : crcBit poly x b = crcBit poly y b := ih h
    have hxor := iterate_shiftBit_injective hpoly 1 hbit
    exact (BitVec.xor_left_inj _).mp hxor

/-- Bit strings of the same length that fit into the register. -/
theorem crcBits_bits_injective {as bs : List Bool} (hlen : as.length = bs.length)
    (hw : as.length ≤ w) (h : crcBits poly r as = crcBits poly r bs) : as = bs := by
  rw [crcBits_eq_iterate _ _ hw, crcBits_eq_iterate _ _ (hlen ▸ hw), hlen] at h
  have hplace : (place as : BitVec w) = place bs :=
    (BitVec.xor_right_inj r).mp (iterate_shiftBit_injective hpoly _ h)
  apply List.ext_getElem hlen
  intro i hi hi'
  have hbit := congrArg (fun x : BitVec w => x.getMsbD i) hplace
  simp only [getMsbD_place] at hbit
  have hiw : i < w := by omega
  simpa [hiw, hi, hi'] using hbit

/-- The remainder is the only trailer that leaves nothing in the register. -/
theorem crc_append_eq_zero_iff {n : Nat} (hn : w = 8 * n) (hpos : 0 < n)
    (bytes : List (BitVec 8)) {trailer : List (BitVec 8)} (hlen : trailer.length = n) :
    crc poly r (bytes ++ trailer) = 0 ↔ trailer = bigEndian n (crc poly r bytes) := by
  have hw : 8 ≤ w := by omega
  have hzero := crc_append_bigEndian poly r hw n (by omega) bytes
  constructor
  · intro h
    rw [← h, crc_append, crc_append] at hzero
    generalize crc poly r bytes = s at hzero ⊢
    rw [crc_eq_crcBits _ _ hw, crc_eq_crcBits _ _ hw] at hzero
    have hbits := crcBits_bits_injective _ hpoly
      (by rw [length_bits, length_bits, length_bigEndian, hlen])
      (by rw [length_bits, length_bigEndian]; omega) hzero
    exact (bits_injective hbits).symm
  · rintro rfl
    exact hzero

/-- Messages of one length that differ, but only within a window of as many consecutive
bits as the register has, have different remainders. -/
theorem crc_burst (hw : 8 ≤ w) {as bs : List (BitVec 8)} (hlen : as.length = bs.length)
    (hne : as ≠ bs) {k : Nat}
    (hwindow : ∀ i, (bits as)[i]? ≠ (bits bs)[i]? → k ≤ i ∧ i < k + w) :
    crc poly r as ≠ crc poly r bs := by
  intro h
  rw [crc_eq_crcBits _ _ hw, crc_eq_crcBits _ _ hw] at h
  -- what is before the window, in it, and after it
  have hsplit : ∀ l : List Bool, l = l.take k ++ ((l.drop k).take w ++ l.drop (k + w)) := by
    intro l
    rw [← List.drop_drop, List.take_append_drop, List.take_append_drop]
  have hbefore : (bits as).take k = (bits bs).take k := by
    apply List.ext_getElem?
    intro i
    rw [List.getElem?_take, List.getElem?_take]
    split
    next hi =>
      by_contra hdiff
      exact absurd (hwindow i hdiff).1 (Nat.not_le.mpr hi)
    next => rfl
  have hafter : (bits as).drop (k + w) = (bits bs).drop (k + w) := by
    apply List.ext_getElem?
    intro i
    rw [List.getElem?_drop, List.getElem?_drop]
    by_contra hdiff
    have := (hwindow _ hdiff).2
    omega
  rw [hsplit (bits as), hsplit (bits bs), hbefore, hafter, crcBits_append, crcBits_append,
    crcBits_append, crcBits_append] at h
  have hinside : ((bits as).drop k).take w = ((bits bs).drop k).take w :=
    crcBits_bits_injective _ hpoly (by simp [length_bits, hlen])
      (by rw [List.length_take]; omega) (crcBits_injective hpoly _ h)
  apply hne
  apply bits_injective
  rw [hsplit (bits as), hsplit (bits bs), hbefore, hinside, hafter]

end

end WODrive.Crc
