import WODrive.Fibre.Stream
import WODrive.Library.CrcBits

/-!
# What a zero residue guarantees (fibre/cpp/include/fibre/crc.hpp)

The segmenter accepts a header and a payload, and the configuration loader a block,
when `calc_crc` over the bytes and the CRC behind them is 0.

- `framed`: a message and its CRC, most significant byte first;
- `crc_framing_guarantee`: a framed message has the residue 0, and no burst of errors
  that fits into the register of the CRC leaves the residue at 0.
-/

namespace WODrive.Fibre

open Crc

variable {w : Nat}

/-- A message with the CRC of `n` bytes behind it. -/
def framed (n : Nat) (polynomial init : BitVec w) (message : List Byte) : List Byte :=
  message ++ bigEndian n (crc polynomial init message)

/-- The bytes with those bits flipped that are set in `errors`. -/
def flipped (bytes errors : List Byte) : List Byte :=
  List.zipWith (fun byte error => byte ^^^ error) bytes errors

/-- Some bits are set, and all of them within `n` consecutive ones. -/
structure IsBurst (n : Nat) (errors : List Byte) : Prop where
  nonempty : true ∈ bits errors
  window : ∃ k, ∀ i, (bits errors)[i]? = some true → k ≤ i ∧ i < k + n

/-- A CRC guards the messages that it follows. -/
def Guards (n : Nat) (polynomial init : BitVec w) : Prop :=
  ∀ message : List Byte,
    crc polynomial init (framed n polynomial init message) = 0 ∧
      ∀ errors : List Byte, errors.length = (framed n polynomial init message).length →
        IsBurst w errors →
        crc polynomial init (flipped (framed n polynomial init message) errors) ≠ 0

theorem length_flipped {bytes errors : List Byte} (hlen : errors.length = bytes.length) :
    (flipped bytes errors).length = bytes.length := by
  rw [flipped, List.length_zipWith, hlen, Nat.min_self]

/-- An error is one somewhere. -/
theorem flipped_ne {bytes errors : List Byte} (hlen : errors.length = bytes.length)
    (herror : true ∈ bits errors) : flipped bytes errors ≠ bytes := by
  intro heq
  obtain ⟨i, hi⟩ := List.mem_iff_getElem?.mp herror
  refine (bits_xor_ne_iff hlen i).mpr hi ?_
  show (bits (flipped bytes errors))[i]? = _
  rw [heq]

/-! ## Errors in a part of the bytes -/

section

variable {n : Nat} {as bs : List Byte}

theorem bits_append (as bs : List Byte) :
    bits (as ++ bs) = bits as ++ bits bs :=
  List.flatMap_append

/-- The errors in the first bytes. -/
theorem IsBurst.left (h : IsBurst n (as ++ bs)) (has : true ∈ bits as) : IsBurst n as := by
  obtain ⟨k, hk⟩ := h.window
  refine ⟨has, k, fun i hi => hk i ?_⟩
  rw [bits_append, List.getElem?_append_left (List.getElem?_eq_some_iff.mp hi).1]
  exact hi

/-- The errors behind bytes without errors. -/
theorem IsBurst.right (h : IsBurst n (as ++ bs)) (has : true ∉ bits as) :
    IsBurst n bs := by
  obtain ⟨k, hk⟩ := h.window
  have hnonempty := h.nonempty
  rw [bits_append, List.mem_append] at hnonempty
  refine ⟨hnonempty.resolve_left has, k - (bits as).length, fun i hi => ?_⟩
  have hwindow := hk ((bits as).length + i) (by
    rw [bits_append, List.getElem?_append_right (Nat.le_add_right _ _), Nat.add_sub_cancel_left]
    exact hi)
  omega

theorem flipped_append {errors errors' : List Byte} (hlength : errors.length = as.length) :
    flipped (as ++ bs) (errors ++ errors') = flipped as errors ++ flipped bs errors' :=
  List.zipWith_append hlength.symm

/-- Without errors nothing is flipped. -/
theorem flipped_zero {errors : List Byte} (hlength : errors.length = as.length)
    (hzero : true ∉ bits errors) : flipped as errors = as := by
  apply bits_injective
  apply List.ext_getElem?
  intro i
  by_contra hne
  exact hzero (List.mem_of_getElem? ((bits_xor_ne_iff hlength i).mp hne))

end

/-! ## The CRCs -/

/-- A CRC of whole bytes whose polynomial has its last term. -/
theorem guards_of_getLsbD {n : Nat} {polynomial : BitVec w} (hn : w = 8 * n) (hpos : 0 < n)
    (hpoly : polynomial.getLsbD 0 = true) (init : BitVec w) : Guards n polynomial init := by
  intro message
  have hw : 8 ≤ w := by omega
  have hzero : crc polynomial init (framed n polynomial init message) = 0 :=
    crc_append_bigEndian polynomial init hw n (Nat.le_of_eq hn) message
  refine ⟨hzero, fun errors hlen hburst => ?_⟩
  obtain ⟨k, hwindow⟩ := hburst.window
  rw [← hzero]
  exact crc_burst init hpoly hw (length_flipped hlen) (flipped_ne hlen hburst.nonempty)
    fun i hdiff => hwindow i ((bits_xor_ne_iff hlen i).mp hdiff)

/-- **The CRCs of the frames and of the configuration.** -/
theorem crc_framing_guarantee :
    (∀ init : BitVec 8, Guards 1 CANONICAL_CRC8_POLYNOMIAL init) ∧
      ∀ init : BitVec 16, Guards 2 CANONICAL_CRC16_POLYNOMIAL init :=
  ⟨guards_of_getLsbD rfl (by decide) (by decide),
    guards_of_getLsbD rfl (by decide) (by decide)⟩

end WODrive.Fibre
