import WODrive.Fibre.RequestDecoder
import WODrive.Library.LittleEndian

/-!
# What a varint decoder accepts (fibre/cpp/include/fibre/decoders.hpp)

A sequence of bytes is terminated if its last byte, and no other, is without the mark
`0x80`. `leb128` is the number that the seven lower bits of its bytes denote, the lowest
first. `Receiving k v` is the state of the decoder after `k` bytes with the mark, which
denote `v`: the overflow test of the next byte fails exactly if the number gets too large
for the variable (`processByte_spec`).

- `loop_encoding`: the encodings of numbers that fit are decoded;
- `loop_rejected`: all other terminated sequences, and those that are too long, are errors;
- `terminated_of_loop`: the decoder does not complete on other sequences;
- `varintDecoder_correct`: all of this for a decoder as it is constructed, that it never
  shifts by the width or more, and that it undoes the encoder.
-/

namespace WODrive.Fibre

open Wrap

/-! ## Encodings -/

/-- The byte has the mark of a byte that others follow. -/
def Marked (byte : Byte) : Prop := byte &&& 0x80 ≠ 0

instance (byte : Byte) : Decidable (Marked byte) := inferInstanceAs (Decidable (_ ≠ _))

/-- The number that the bytes denote. -/
def leb128 : List Byte → Nat
  | [] => 0
  | byte :: bytes => (byte &&& 0x7f).toNat + 2 ^ 7 * leb128 bytes

/-- All bytes but the last have the mark. -/
def Terminated : List Byte → Prop
  | [] => False
  | [byte] => ¬ Marked byte
  | byte :: bytes => Marked byte ∧ Terminated bytes

/-- The number of septets of a value of `w` bits. -/
def septets (w : Nat) : Nat := (w + 6) / 7

/-- A terminated sequence of no more bytes than a value has septets, which denotes a
number that fits. -/
structure Encoding (w : Nat) (bytes : List Byte) : Prop where
  terminated : Terminated bytes
  length_le : bytes.length ≤ septets w
  fits : leb128 bytes < 2 ^ w

/-- As many bytes with the mark as a value has septets, or more. -/
def OverLong (w : Nat) (bytes : List Byte) : Prop :=
  septets w ≤ bytes.length ∧ ∀ byte ∈ bytes.take (septets w), Marked byte

theorem terminated_cons {byte : Byte} {bytes : List Byte} (hbytes : bytes ≠ []) :
    Terminated (byte :: bytes) ↔ Marked byte ∧ Terminated bytes := by
  obtain ⟨second, bytes, rfl⟩ := List.exists_cons_of_ne_nil hbytes
  rfl

theorem Terminated.ne_nil {bytes : List Byte} (h : Terminated bytes) : bytes ≠ [] := by
  rintro rfl
  exact h

namespace VarintByteDecoder

variable {w : Nat}

/-! ## One byte -/

/-- After `k` bytes with the mark, which denote `v`. -/
structure Receiving (k v : Nat) (s : VarintByteDecoder w) : Prop where
  status : s.status = 0
  done : s.done = false
  bitPos : s.bitPos = 7 * k
  bitPos_lt : 7 * k < w
  value : (if s.bitPos = 0 then 0 else s.stateVariable) = BitVec.ofNat w v
  value_lt : v < 2 ^ (7 * k)

/-- The number after one byte more. -/
def extended (k v : Nat) (byte : Byte) : Nat := v + 2 ^ (7 * k) * (byte &&& 0x7f).toNat

theorem and_septetMask_lt (byte : Byte) : (byte &&& 0x7f).toNat < 2 ^ 7 := by
  rw [BitVec.toNat_and]
  exact Nat.lt_succ_of_le Nat.and_le_right

theorem extended_lt {k v : Nat} (hv : v < 2 ^ (7 * k)) (byte : Byte) :
    extended k v byte < 2 ^ (7 * (k + 1)) := by
  have hbyte := and_septetMask_lt byte
  have hmul : 2 ^ (7 * k) * ((byte &&& 0x7f).toNat + 1) ≤ 2 ^ (7 * k) * 2 ^ 7 :=
    Nat.mul_le_mul_left _ hbyte
  rw [Nat.mul_succ] at hmul
  rw [extended, Nat.mul_succ 7 k, Nat.pow_add]
  omega

/-- The next septet of a number that is put together. -/
theorem stored_eq {k v : Nat} (byte : Byte) (hv : v < 2 ^ (7 * k)) :
    BitVec.ofNat w v ||| ((byte &&& 0x7f).setWidth w <<< (7 * k)) =
      BitVec.ofNat w (extended k v byte) := by
  have hnext : (byte &&& 0x7f).setWidth w <<< (7 * k) =
      BitVec.ofNat w (2 ^ (7 * k) * (byte &&& 0x7f).toNat) := by
    rw [Nat.mul_comm (2 ^ (7 * k)), ← Nat.shiftLeft_eq, LittleEndian.ofNat_shiftLeft,
      BitVec.ofNat_toNat]
  rw [hnext, ← BitVec.ofNat_or, extended, Nat.add_comm v, Nat.two_pow_add_eq_or_of_lt hv,
    Nat.or_comm]

/-- The overflow test of a number that fits. -/
theorem shiftedBack_eq {k v : Nat} {byte : Byte} (hv : v < 2 ^ (7 * k))
    (hfits : extended k v byte < 2 ^ w) :
    (BitVec.ofNat w (extended k v byte) >>> (7 * k)) &&& 0x7f#w =
      (byte &&& 0x7f).setWidth w := by
  have hbyte := and_septetMask_lt byte
  have hdiv : extended k v byte / 2 ^ (7 * k) = (byte &&& 0x7f).toNat := by
    rw [extended, Nat.add_mul_div_left _ _ (Nat.two_pow_pos _), Nat.div_eq_of_lt hv, Nat.zero_add]
  have hmask : (byte &&& 0x7f).toNat &&& 127 = (byte &&& 0x7f).toNat := by
    rw [show 127 = 2 ^ 7 - 1 from rfl, Nat.and_two_pow_sub_one_eq_mod, Nat.mod_eq_of_lt hbyte]
  apply BitVec.eq_of_toNat_eq
  rw [BitVec.toNat_and, BitVec.toNat_ushiftRight, BitVec.toNat_ofNat, Nat.mod_eq_of_lt hfits,
    Nat.shiftRight_eq_div_pow, hdiv, BitVec.toNat_ofNat, BitVec.toNat_setWidth]
  have hle : (byte &&& 0x7f).toNat ≤ extended k v byte := by
    rw [← hdiv]
    exact Nat.div_le_self _ _
  have hmod : (byte &&& 0x7f).toNat % 2 ^ w = (byte &&& 0x7f).toNat :=
    Nat.mod_eq_of_lt (Nat.lt_of_le_of_lt hle hfits)
  calc (byte &&& 0x7f).toNat &&& 127 % 2 ^ w
      = ((byte &&& 0x7f).toNat % 2 ^ w) &&& (127 % 2 ^ w) := by rw [hmod]
    _ = ((byte &&& 0x7f).toNat &&& 127) % 2 ^ w := (Nat.and_mod_two_pow ..).symm
    _ = (byte &&& 0x7f).toNat % 2 ^ w := by rw [hmask]

/-- A number that does not fit fails the overflow test. -/
theorem shiftedBack_ne {k v : Nat} {byte : Byte} (hw : 7 ≤ w) (hk : 7 * k < w)
    (hv : v < 2 ^ (7 * k)) (hover : 2 ^ w ≤ extended k v byte) (stored : BitVec w) :
    (stored >>> (7 * k)) &&& 0x7f#w ≠ (byte &&& 0x7f).setWidth w := by
  intro heq
  have hbyte := and_septetMask_lt byte
  have hpow : 2 ^ 7 ≤ 2 ^ w := Nat.pow_le_pow_right (by decide) hw
  have hdigit : (byte &&& 0x7f).toNat ≤ stored.toNat / 2 ^ (7 * k) := by
    have htoNat := congrArg BitVec.toNat heq
    rw [BitVec.toNat_setWidth, Nat.mod_eq_of_lt (by omega), BitVec.toNat_and,
      BitVec.toNat_ushiftRight, Nat.shiftRight_eq_div_pow] at htoNat
    rw [← htoNat]
    exact Nat.and_le_left
  have hlt : stored.toNat / 2 ^ (7 * k) < 2 ^ (w - 7 * k) := by
    rw [Nat.div_lt_iff_lt_mul (Nat.two_pow_pos _), ← Nat.pow_add, Nat.sub_add_cancel (by omega)]
    exact stored.isLt
  have hmul : 2 ^ (7 * k) * ((byte &&& 0x7f).toNat + 1) ≤ 2 ^ w := by
    rw [show 2 ^ w = 2 ^ (7 * k) * 2 ^ (w - 7 * k) by
      rw [← Nat.pow_add, Nat.add_sub_cancel' (by omega)]]
    exact Nat.mul_le_mul_left _ (by omega)
  rw [Nat.mul_succ] at hmul
  rw [extended] at hover
  omega

/-- What a byte does: the number becomes the extended one, or there is an error. -/
theorem processByte_spec {k v : Nat} {s : VarintByteDecoder w} (hw : 7 ≤ w)
    (h : Receiving k v s) (byte : Byte) :
    (extended k v byte < 2 ^ w → (processByte byte s).2 =
      { stateVariable := BitVec.ofNat w (extended k v byte)
        bitPos := 7 * (k + 1)
        status := if ¬ Marked byte ∨ 7 * (k + 1) < w then 0 else -1
        done := ¬ Marked byte }) ∧
      (2 ^ w ≤ extended k v byte → (processByte byte s).2.status = -1) := by
  have hbitPos := h.bitPos
  have hvalue := h.value
  rw [hbitPos] at hvalue
  constructor
  · intro hfits
    have hstored := stored_eq (w := w) byte h.value_lt
    simp only [processByte, hbitPos, hvalue, hstored]
    rw [if_neg (not_not.mpr (shiftedBack_eq h.value_lt hfits))]
    simp only [Marked, not_not, Nat.mul_succ]
  · intro hover
    have hne := shiftedBack_ne hw h.bitPos_lt h.value_lt hover
      (BitVec.ofNat w v ||| ((byte &&& 0x7f).setWidth w <<< (7 * k)))
    simp only [processByte, hbitPos, hvalue]
    rw [if_pos hne]

/-- After a byte with the mark the decoder goes on, or there is an error. -/
theorem processByte_marked {k v : Nat} {s : VarintByteDecoder w} (hw : 7 ≤ w)
    (h : Receiving k v s) {byte : Byte} (hmarked : Marked byte) :
    (extended k v byte < 2 ^ w ∧ 7 * (k + 1) < w →
      Receiving (k + 1) (extended k v byte) (processByte byte s).2) ∧
      (¬ (extended k v byte < 2 ^ w ∧ 7 * (k + 1) < w) →
        (processByte byte s).2.status = -1) := by
  obtain ⟨hfit, hover⟩ := processByte_spec hw h byte
  constructor
  · rintro ⟨hfits, hpos⟩
    rw [hfit hfits]
    exact ⟨if_pos (.inr hpos), decide_eq_false (not_not.mpr hmarked), rfl, hpos,
      if_neg (by simp), extended_lt h.value_lt byte⟩
  · intro hnot
    by_cases hfits : extended k v byte < 2 ^ w
    · rw [hfit hfits]
      exact if_neg fun hc => hc.elim (fun hc => hc hmarked) fun hpos => hnot ⟨hfits, hpos⟩
    · exact hover (Nat.le_of_not_lt hfits)

/-! ## The loop -/

theorem one_ne_zero (hw : 7 ≤ w) : (1 : BitVec w) ≠ 0 := by
  rw [Ne, eq_zero_iff_toNat]
  exact (BitVec.toNat_one (by omega)).trans_ne Nat.one_ne_zero

/-- The loop ends with an error, and at the end of a value. -/
theorem loop_stop {s : VarintByteDecoder w} (h : s.status ≠ 0 ∨ s.done = true)
    (bytes : List Byte) : (varintByteDecoder w).loop bytes s = (0, s) := by
  cases bytes with
  | nil => rfl
  | cons byte bytes =>
    rw [ByteDecoder.loop, if_neg]
    rintro ⟨hstatus, hexpected⟩
    rcases h with h | h
    · exact h hstatus
    · exact hexpected (if_pos h)

theorem Receiving.loop_cons {k v : Nat} {s : VarintByteDecoder w} (hw : 7 ≤ w)
    (h : Receiving k v s) (byte : Byte) (bytes : List Byte) :
    (varintByteDecoder w).loop (byte :: bytes) s =
      (((varintByteDecoder w).loop bytes (processByte byte s).2).1 + 1,
        ((varintByteDecoder w).loop bytes (processByte byte s).2).2) := by
  have hexpected : (varintByteDecoder w).getExpectedBytes s ≠ 0 := by
    simpa [varintByteDecoder, h.done] using one_ne_zero hw
  rw [ByteDecoder.loop, if_pos ⟨h.status, hexpected⟩]
  rfl

theorem leb128_cons (k v : Nat) (byte : Byte) (bytes : List Byte) :
    extended k v byte + 2 ^ (7 * (k + 1)) * leb128 bytes =
      v + 2 ^ (7 * k) * leb128 (byte :: bytes) := by
  rw [leb128, extended, Nat.mul_succ 7 k, Nat.pow_add]
  ring

/-- The rest of an encoding. -/
theorem loop_encoding (hw : 7 ≤ w) {bytes : List Byte} (hbytes : Terminated bytes) :
    ∀ {k v : Nat} {s : VarintByteDecoder w}, Receiving k v s →
      k + bytes.length ≤ septets w → v + 2 ^ (7 * k) * leb128 bytes < 2 ^ w →
      ∃ s', (varintByteDecoder w).loop bytes s = (bytes.length, s') ∧ s'.status = 0 ∧
        s'.done = true ∧ s'.stateVariable = BitVec.ofNat w (v + 2 ^ (7 * k) * leb128 bytes) := by
  induction bytes with
  | nil => exact absurd hbytes id
  | cons byte bytes ih =>
    intro k v s h hlength hfits
    rw [h.loop_cons hw, ← leb128_cons] at *
    by_cases hnil : bytes = []
    · -- the last byte
      subst hnil
      have hlast : ¬ Marked byte := hbytes
      have hvalue : extended k v byte + 2 ^ (7 * (k + 1)) * leb128 [] = extended k v byte := by
        rw [leb128, Nat.mul_zero, Nat.add_zero]
      rw [hvalue] at hfits ⊢
      rw [(processByte_spec hw h byte).1 hfits]
      exact ⟨_, rfl, if_pos (.inl hlast), decide_eq_true hlast, rfl⟩
    · obtain ⟨hmarked, hrest⟩ := (terminated_cons hnil).mp hbytes
      have hpos := List.length_pos_iff.mpr hnil
      rw [List.length_cons] at hlength ⊢
      have hmore : 7 * (k + 1) < w := by
        unfold septets at hlength
        omega
      have hnext := (processByte_marked hw h hmarked).1
        ⟨Nat.lt_of_le_of_lt (Nat.le_add_right _ _) hfits, hmore⟩
      obtain ⟨s', hloop, hstatus, hdone, hvalue⟩ := ih hrest hnext (by omega) hfits
      exact ⟨s', by rw [hloop], hstatus, hdone, hvalue⟩

/-- The rest of a sequence that is to be rejected. -/
theorem loop_rejected (hw : 7 ≤ w) {bytes : List Byte} :
    ∀ {k v : Nat} {s : VarintByteDecoder w}, Receiving k v s →
      (Terminated bytes ∧
          ¬ (k + bytes.length ≤ septets w ∧ v + 2 ^ (7 * k) * leb128 bytes < 2 ^ w)) ∨
        (septets w - k ≤ bytes.length ∧ ∀ byte ∈ bytes.take (septets w - k), Marked byte) →
      ((varintByteDecoder w).loop bytes s).2.status = -1 := by
  induction bytes with
  | nil =>
    intro k v s h hcases
    have hk := h.bitPos_lt
    rcases hcases with ⟨hterminated, -⟩ | ⟨hlength, -⟩
    · exact absurd hterminated id
    · unfold septets at hlength
      rw [List.length_nil] at hlength
      omega
  | cons byte bytes ih =>
    intro k v s h hcases
    have hk := h.bitPos_lt
    have hsucc : septets w - k = septets w - (k + 1) + 1 := by
      unfold septets
      omega
    rw [h.loop_cons hw]
    by_cases hmarked : Marked byte
    · -- an error now, or the rest is to be rejected
      by_cases hgo : extended k v byte < 2 ^ w ∧ 7 * (k + 1) < w
      · refine ih ((processByte_marked hw h hmarked).1 hgo) ?_
        rcases hcases with ⟨hterminated, hnot⟩ | ⟨hlength, hall⟩
        · have hnil : bytes ≠ [] := by
            rintro rfl
            exact hterminated hmarked
          refine .inl ⟨((terminated_cons hnil).mp hterminated).2, fun hc => hnot ⟨?_, ?_⟩⟩
          · rw [List.length_cons]
            omega
          · rw [← leb128_cons]
            exact hc.2
        · rw [hsucc, List.length_cons] at hlength
          rw [hsucc, List.take_succ_cons] at hall
          exact .inr ⟨by omega, fun b hb => hall b (List.mem_cons_of_mem _ hb)⟩
      · have herror := (processByte_marked hw h hmarked).2 hgo
        rw [loop_stop (.inl (by rw [herror]; decide))]
        exact herror
    · rcases hcases with ⟨hterminated, hnot⟩ | ⟨hlength, hall⟩
      · have hnil : bytes = [] := by
          by_contra hne
          exact hmarked ((terminated_cons hne).mp hterminated).1
        subst hnil
        refine (processByte_spec hw h byte).2 (Nat.le_of_not_lt fun hfits => hnot ⟨?_, ?_⟩)
        · unfold septets
          rw [List.length_singleton]
          omega
        · rw [← leb128_cons, leb128, Nat.mul_zero, Nat.add_zero]
          exact hfits
      · rw [hsucc, List.take_succ_cons] at hall
        exact absurd (hall byte List.mem_cons_self) hmarked

/-- A sequence that the decoder processes to its end, and to the end of a value, is
terminated. -/
theorem terminated_of_loop (hw : 7 ≤ w) {bytes : List Byte} :
    ∀ {k v : Nat} {s : VarintByteDecoder w}, Receiving k v s →
      ((varintByteDecoder w).loop bytes s).1 = bytes.length →
      ((varintByteDecoder w).loop bytes s).2.status = 0 →
      ((varintByteDecoder w).loop bytes s).2.done = true → Terminated bytes := by
  induction bytes with
  | nil =>
    intro k v s h _ _ hdone
    exact absurd (h.done.symm.trans hdone) (by decide)
  | cons byte bytes ih =>
    intro k v s h hlength hstatus hdone
    rw [h.loop_cons hw] at hlength hstatus hdone
    rw [List.length_cons] at hlength
    by_cases hmarked : Marked byte
    · by_cases hgo : extended k v byte < 2 ^ w ∧ 7 * (k + 1) < w
      · have hrest := ih ((processByte_marked hw h hmarked).1 hgo) (by omega) hstatus hdone
        exact (terminated_cons hrest.ne_nil).mpr ⟨hmarked, hrest⟩
      · have herror := (processByte_marked hw h hmarked).2 hgo
        have hnot : (processByte byte s).2.status ≠ 0 := by
          rw [herror]
          decide
        rw [loop_stop (.inl hnot)] at hstatus
        exact absurd hstatus hnot
    · by_cases hfits : extended k v byte < 2 ^ w
      · have hend : (processByte byte s).2.done = true := by
          rw [(processByte_spec hw h byte).1 hfits]
          exact decide_eq_true hmarked
        rw [loop_stop (.inr hend)] at hlength
        have hnil : bytes = [] := List.length_eq_zero_iff.mp (by omega)
        rw [hnil]
        exact hmarked
      · have herror := (processByte_spec hw h byte).2 (Nat.le_of_not_lt hfits)
        have hnot : (processByte byte s).2.status ≠ 0 := by
          rw [herror]
          decide
        rw [loop_stop (.inl hnot)] at hstatus
        exact absurd hstatus hnot

/-! ## Shifts -/

/-- The numbers of bits by which the calls of `process_byte` shift. -/
def shifts : List Byte → VarintByteDecoder w → List Nat
  | [], _ => []
  | byte :: bytes, s =>
    if s.status = 0 ∧ (varintByteDecoder w).getExpectedBytes s ≠ 0 then
      s.bitPos :: shifts bytes (processByte byte s).2
    else []

/-- A decoder that would process another byte is not at the end of its variable. -/
def ShiftsInside (s : VarintByteDecoder w) : Prop :=
  s.status = 0 → s.done = false → s.bitPos < w

theorem ShiftsInside.processByte (byte : Byte) (s : VarintByteDecoder w) :
    ShiftsInside (VarintByteDecoder.processByte byte s).2 := by
  unfold ShiftsInside VarintByteDecoder.processByte
  dsimp only
  generalize (if s.bitPos = 0 then 0 else s.stateVariable) = stored
  split
  next => exact fun hstatus => absurd hstatus (show (-1 : Result) ≠ 0 by decide)
  next =>
    intro hstatus hdone
    dsimp only at hstatus hdone ⊢
    by_contra hlong
    rw [if_neg (fun hc => hc.elim (fun hc => of_decide_eq_false hdone hc) hlong)] at hstatus
    exact absurd hstatus (by decide)

theorem shifts_lt (bytes : List Byte) {s : VarintByteDecoder w} (h : ShiftsInside s) :
    ∀ pos ∈ shifts bytes s, pos < w := by
  induction bytes generalizing s with
  | nil => exact fun pos hpos => absurd hpos List.not_mem_nil
  | cons byte bytes ih =>
    intro pos hpos
    rw [shifts] at hpos
    split at hpos
    next hactive =>
      rcases List.mem_cons.mp hpos with rfl | hpos
      · refine h hactive.1 ?_
        cases hdone : s.done with
        | false => rfl
        | true => exact absurd (if_pos hdone) hactive.2
      · exact ih (.processByte byte s) pos hpos
    next => exact absurd hpos List.not_mem_nil

/-! ## The decoder as it is constructed -/

theorem receiving_initial (hw : 7 ≤ w) (stateVariable : BitVec w) :
    Receiving 0 0 (initial stateVariable) :=
  ⟨rfl, rfl, rfl, by omega, rfl, Nat.two_pow_pos _⟩

/-- The decoder has processed the bytes without error, waits for no more, and has
written the value. -/
structure Completes (stateVariable : BitVec w) (bytes : List Byte) (value : BitVec w) :
    Prop where
  status : ((varintStreamDecoder w).processBytes bytes (initial stateVariable)).1 = 0
  processed :
    ((varintStreamDecoder w).processBytes bytes (initial stateVariable)).2.1 = bytes.length
  expected : (varintStreamDecoder w).getExpectedBytes
    ((varintStreamDecoder w).processBytes bytes (initial stateVariable)).2.2 = 0
  value : ((varintStreamDecoder w).processBytes bytes
    (initial stateVariable)).2.2.stateVariable = value

theorem done_of_expected (hw : 7 ≤ w) {s : VarintByteDecoder w}
    (h : (varintByteDecoder w).getExpectedBytes s = 0) : s.done = true := by
  cases hdone : s.done with
  | true => rfl
  | false =>
    have hone : (varintByteDecoder w).getExpectedBytes s = 1 := by
      simp [varintByteDecoder, hdone]
    exact absurd (hone.symm.trans h) (one_ne_zero hw)

theorem completes_iff (hw : 7 ≤ w) (stateVariable : BitVec w) (bytes : List Byte)
    (value : BitVec w) :
    Completes stateVariable bytes value ↔ Encoding w bytes ∧ value.toNat = leb128 bytes := by
  have hstart := receiving_initial hw stateVariable
  have hsum : 0 + 2 ^ (7 * 0) * leb128 bytes = leb128 bytes := by simp
  constructor
  · intro h
    have hdone := done_of_expected hw h.expected
    have hterminated := terminated_of_loop hw hstart h.processed h.status hdone
    by_cases hencoding : Encoding w bytes
    · obtain ⟨s', hloop, -, -, hvalue⟩ := loop_encoding hw hterminated hstart
        (by rw [Nat.zero_add]; exact hencoding.length_le) (by rw [hsum]; exact hencoding.fits)
      have hstored := h.value
      simp only [varintStreamDecoder, streamDecoderFromByteDecoder, hloop] at hstored
      rw [hvalue, hsum] at hstored
      refine ⟨hencoding, ?_⟩
      rw [← hstored, BitVec.toNat_ofNat, Nat.mod_eq_of_lt hencoding.fits]
    · have herror := loop_rejected hw hstart (.inl ⟨hterminated, fun hc => hencoding
        ⟨hterminated, by rw [Nat.zero_add] at hc; exact hc.1, by rw [hsum] at hc; exact hc.2⟩⟩)
      exact absurd (herror.symm.trans h.status) (by decide)
  · rintro ⟨hencoding, hvalue⟩
    obtain ⟨s', hloop, hstatus, hdone, hstored⟩ := loop_encoding hw hencoding.terminated hstart
      (by rw [Nat.zero_add]; exact hencoding.length_le) (by rw [hsum]; exact hencoding.fits)
    rw [hsum, ← hvalue, BitVec.ofNat_toNat, BitVec.setWidth_eq] at hstored
    constructor <;> simp only [varintStreamDecoder, streamDecoderFromByteDecoder, hloop]
    · exact hstatus
    · exact if_pos hdone
    · exact hstored

/-- What is to be rejected is an error. -/
theorem rejected (hw : 7 ≤ w) (stateVariable : BitVec w) {bytes : List Byte}
    (h : Terminated bytes ∧ ¬ Encoding w bytes ∨ OverLong w bytes) :
    ((varintStreamDecoder w).processBytes bytes (initial stateVariable)).1 = -1 := by
  refine loop_rejected hw (receiving_initial hw stateVariable) ?_
  rcases h with ⟨hterminated, hnot⟩ | hlong
  · refine .inl ⟨hterminated, fun hc => hnot ⟨hterminated, ?_, ?_⟩⟩
    · have := hc.1
      rwa [Nat.zero_add] at this
    · simpa using hc.2
  · exact .inr hlong

/-- The bytes of a value are decoded to it. -/
theorem completes_varint (hw : 7 ≤ w) (stateVariable value : BitVec w) :
    Completes stateVariable (varint value 0) value := by
  have haccepts := accepts_varintStreamDecoder (show 0 < w by omega) value
  have hwaits := waits_initial (show 0 < w by omega) value stateVariable
  obtain ⟨hstatus, hprocessed, hrest⟩ := haccepts.processBytes hwaits (varint value 0).length []
  rw [List.append_nil, List.take_length] at hstatus hprocessed hrest
  rw [List.drop_length] at hrest
  rw [Nat.min_self] at hprocessed
  exact ⟨hstatus, hprocessed, (haccepts.expected_eq_zero hrest).mpr rfl,
    stateVariable_of_waits hrest⟩

/-- **The varint decoder**, for every unsigned type with room for a septet: the sequences
that it accepts and their values, those that it rejects, the shifts, and the encoder. -/
theorem varintDecoder_correct (hw : 7 ≤ w) (stateVariable : BitVec w) :
    (∀ bytes value, Completes stateVariable bytes value ↔
      Encoding w bytes ∧ value.toNat = leb128 bytes) ∧
    (∀ bytes, Terminated bytes ∧ ¬ Encoding w bytes ∨ OverLong w bytes →
      ((varintStreamDecoder w).processBytes bytes (initial stateVariable)).1 = -1) ∧
    (∀ bytes, ∀ pos ∈ shifts bytes (initial stateVariable), pos < w) ∧
    ∀ value n, septets w ≤ n → Completes stateVariable
      ((varintStreamEncoder w).getBytes n (VarintByteEncoder.initial value)).2.1 value := by
  refine ⟨completes_iff hw stateVariable, fun bytes => rejected hw stateVariable,
    fun bytes => shifts_lt bytes fun _ _ => by show 0 < w; omega, fun value n hn => ?_⟩
  have hcompletes := completes_varint hw stateVariable value
  have hlength := ((completes_iff hw _ _ _).mp hcompletes).1.length_le
  have hbytes : ((varintStreamEncoder w).getBytes n (VarintByteEncoder.initial value)).2.1 =
      varint value 0 := by
    rw [(emits_varintStreamEncoder (show 0 < w by omega)).getBytes_bytes]
    exact List.take_of_length_le (Nat.le_trans hlength hn)
  rw [hbytes]
  exact hcompletes

/-- The decoder of a `uint32_t`. -/
theorem varintDecoder_uint32 :
    (∀ bytes value, Completes (0 : BitVec 32) bytes value ↔
      Encoding 32 bytes ∧ value.toNat = leb128 bytes) ∧
    (∀ bytes, Terminated bytes ∧ ¬ Encoding 32 bytes ∨ OverLong 32 bytes →
      ((varintStreamDecoder 32).processBytes bytes (initial 0)).1 = -1) ∧
    (∀ bytes, ∀ pos ∈ shifts bytes (initial (0 : BitVec 32)), pos < 32) ∧
    ∀ value n, septets 32 ≤ n → Completes (0 : BitVec 32)
      ((varintStreamEncoder 32).getBytes n (VarintByteEncoder.initial value)).2.1 value :=
  varintDecoder_correct (by decide) 0

end VarintByteDecoder

end WODrive.Fibre
