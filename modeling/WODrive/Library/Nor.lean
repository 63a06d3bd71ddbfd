import Mathlib.Data.List.GetD

/-!
# NOR flash memory

A byte-addressed memory whose programming can only clear bits and whose erase
sets all bits of a range. Two views of it are used by log-structured drivers:
byte strings, and *lanes* of two bits packed four to a byte (`cell`), the usual
format of an allocation table that is updated in place by clearing bits.
-/

namespace WODrive.Nor

/-- A memory, from addresses to bytes. -/
abbrev Mem := Nat → BitVec 8

/-- Programs bytes at an address: every programmed byte keeps only the bits that
are set in both the old and the new value. -/
def program (m : Mem) (addr : Nat) (bytes : List (BitVec 8)) : Mem :=
  fun a => if addr ≤ a then m a &&& bytes.getD (a - addr) (BitVec.allOnes 8) else m a

/-- Sets all bits of the `len` bytes from `addr` on. -/
def erase (m : Mem) (addr len : Nat) : Mem :=
  fun a => if addr ≤ a ∧ a < addr + len then BitVec.allOnes 8 else m a

/-- The `len` bytes from `addr` on. -/
def read (m : Mem) (addr len : Nat) : List (BitVec 8) :=
  (List.range len).map fun i => m (addr + i)

variable {m m' : Mem} {addr len a : Nat} {bytes : List (BitVec 8)}

theorem program_outside (h : a < addr ∨ addr + bytes.length ≤ a) :
    program m addr bytes a = m a := by
  unfold program
  rcases h with h | h
  · rw [if_neg (Nat.not_le.mpr h)]
  · rw [if_pos (by omega), List.getD_eq_getElem?_getD,
      List.getElem?_eq_none (by omega), Option.getD_none, BitVec.and_allOnes]

theorem program_nil (m : Mem) (addr : Nat) : program m addr [] = m :=
  funext fun a => program_outside (by simp; omega)

theorem program_append (m : Mem) (addr : Nat) (xs ys : List (BitVec 8)) :
    program m addr (xs ++ ys) = program (program m addr xs) (addr + xs.length) ys := by
  funext a
  by_cases h1 : a < addr
  · rw [program_outside (Or.inl h1), program_outside (Or.inl (by omega)),
      program_outside (Or.inl h1)]
  · by_cases h2 : a < addr + xs.length
    · rw [program_outside (m := program m addr xs) (Or.inl h2)]
      unfold program
      rw [if_pos (by omega), if_pos (by omega), List.getD_append _ _ _ _ (by omega)]
    · rw [program, program, if_pos (by omega), if_pos (by omega),
        program_outside (Or.inr (by omega)), List.getD_append_right _ _ _ _ (by omega),
        Nat.sub_sub]

theorem erase_inside (h : addr ≤ a) (h' : a < addr + len) :
    erase m addr len a = BitVec.allOnes 8 := if_pos ⟨h, h'⟩

theorem erase_outside (h : a < addr ∨ addr + len ≤ a) :
    erase m addr len a = m a := if_neg (by omega)

@[simp] theorem length_read (m : Mem) (addr len : Nat) : (read m addr len).length = len := by
  simp [read]

theorem read_congr (h : ∀ i, i < len → m (addr + i) = m' (addr + i)) :
    read m addr len = read m' addr len := by
  unfold read
  refine List.map_congr_left fun i hi => h i (List.mem_range.mp hi)

theorem read_add (m : Mem) (addr n k : Nat) :
    read m addr (n + k) = read m addr n ++ read m (addr + n) k := by
  unfold read
  rw [List.range_add, List.map_append, List.map_map]
  congr 1
  exact List.map_congr_left fun i _ => by
    show m (addr + (n + i)) = m (addr + n + i)
    rw [Nat.add_assoc]

theorem read_eq_replicate {b : BitVec 8} (h : ∀ i, i < len → m (addr + i) = b) :
    read m addr len = List.replicate len b := by
  have hconst : read m addr len = (List.range len).map fun _ => b :=
    List.map_congr_left fun i hi => h i (List.mem_range.mp hi)
  rw [hconst, List.map_const', List.length_range]

theorem eq_of_read_replicate {b : BitVec 8} (h : read m addr len = List.replicate len b) {i : Nat}
    (hi : i < len) : m (addr + i) = b := by
  have hget := congrArg (fun l => l[i]?) h
  simpa [read, hi] using hget

theorem getElem_read (m : Mem) (addr len : Nat) {i : Nat} (h : i < (read m addr len).length) :
    (read m addr len)[i] = m (addr + i) := by
  simp [read]

/-- Programming stores the bytes exactly where no bit that they need set is cleared. -/
theorem read_program_eq_iff (m : Mem) (addr : Nat) (bytes : List (BitVec 8)) :
    read (program m addr bytes) addr bytes.length = bytes ↔
      ∀ i (hi : i < bytes.length), m (addr + i) &&& bytes[i] = bytes[i] := by
  have hbyte : ∀ i (hi : i < bytes.length),
      program m addr bytes (addr + i) = m (addr + i) &&& bytes[i] := by
    intro i hi
    unfold program
    rw [if_pos (Nat.le_add_right _ _), Nat.add_sub_cancel_left, List.getD_eq_getElem _ _ hi]
  constructor
  · intro h i hi
    have hget := getElem_read (program m addr bytes) addr bytes.length (i := i) (by simpa using hi)
    rw [← hbyte i hi, ← hget]
    exact List.getElem_of_eq h _
  · intro h
    refine List.ext_getElem (length_read _ _ _) fun i h1 h2 => ?_
    rw [getElem_read, hbyte i h2]
    exact h i h2

/-- Programming an erased range stores the bytes. -/
theorem read_program_erased
    (h : ∀ i, i < bytes.length → m (addr + i) = BitVec.allOnes 8) :
    read (program m addr bytes) addr bytes.length = bytes := by
  refine (read_program_eq_iff m addr bytes).mpr fun i hi => ?_
  rw [h i hi, BitVec.allOnes_and]

/-- Programming behind what is stored in an erased range appends to it. -/
theorem read_program_append {xs ys : List (BitVec 8)} {rest : Nat}
    (h : read m addr (xs.length + (ys.length + rest)) =
      xs ++ List.replicate (ys.length + rest) (BitVec.allOnes 8)) :
    read (program m (addr + xs.length) ys) addr (xs.length + (ys.length + rest)) =
      xs ++ ys ++ List.replicate rest (BitVec.allOnes 8) := by
  rw [read_add] at h
  obtain ⟨hxs, herased⟩ := List.append_inj h (length_read _ _ _)
  rw [read_add, read_add, List.append_assoc]
  congr 1
  · refine (read_congr fun i hi => ?_).trans hxs
    exact program_outside (Or.inl (by omega))
  congr 1
  · refine read_program_erased fun i hi => ?_
    exact eq_of_read_replicate herased (by omega)
  · refine read_eq_replicate fun i hi => ?_
    rw [program_outside (Or.inr (Nat.le_add_right _ _)), Nat.add_assoc]
    exact eq_of_read_replicate herased (by omega)

/-! ## Two-bit cells, packed four to a byte -/

/-- The `j`-th two-bit lane of a byte. -/
def lane (b : BitVec 8) (j : Nat) : BitVec 2 := b.extractLsb' (2 * j) 2

/-- The `i`-th cell of the table that starts at `base`. -/
def cell (m : Mem) (base i : Nat) : BitVec 2 := lane (m (base + i / 4)) (i % 4)

theorem lane_and (a b : BitVec 8) (j : Nat) : lane (a &&& b) j = lane a j &&& lane b j :=
  BitVec.extractLsb'_and

theorem lane_allOnes : ∀ j : Fin 4, lane (BitVec.allOnes 8) j = BitVec.allOnes 2 := by
  decide

/-- A byte is determined by its four lanes. -/
theorem eq_of_lanes {a b : BitVec 8} (h : ∀ j < 4, lane a j = lane b j) : a = b := by
  refine BitVec.eq_of_getLsbD_eq fun i hi => ?_
  have hj := congrArg (fun x : BitVec 2 => x.getLsbD (i % 2)) (h (i / 2) (by omega))
  have h2 : i % 2 < 2 := Nat.mod_lt _ (by decide)
  simp only [lane, BitVec.getLsbD_extractLsb', h2, decide_true, Bool.true_and,
    Nat.div_add_mod] at hj
  exact hj

theorem cell_congr {base base' i : Nat} (h : m (base + i / 4) = m' (base' + i / 4)) :
    cell m base i = cell m' base' i := by
  rw [cell, cell, h]

/-- A table byte is determined by its four cells. -/
theorem byte_eq_of_cells {base q : Nat}
    (h : ∀ i, i / 4 = q → cell m base i = cell m' base i) : m (base + q) = m' (base + q) := by
  refine eq_of_lanes fun j hj => ?_
  have hq : (4 * q + j) / 4 = q := by omega
  have hr : (4 * q + j) % 4 = j := by omega
  have := h (4 * q + j) hq
  rwa [cell, cell, hq, hr] at this

/-- Programming one byte of the table clears bits in its four cells only. -/
theorem cell_program_byte (m : Mem) (base q i : Nat) (v : BitVec 8) :
    cell (program m (base + q) [v]) base i =
      if i / 4 = q then cell m base i &&& lane v (i % 4) else cell m base i := by
  by_cases h : i / 4 = q
  · rw [if_pos h, cell, cell, ← lane_and, program, if_pos (by omega), h]
    simp
  · rw [if_neg h]
    refine cell_congr (program_outside ?_)
    simp only [List.length_singleton]
    omega

theorem cell_erase {base len i : Nat} (h : i / 4 < len) :
    cell (erase m base len) base i = BitVec.allOnes 2 := by
  rw [cell, erase_inside (by omega) (by omega)]
  exact lane_allOnes ⟨i % 4, Nat.mod_lt _ (by decide)⟩

end WODrive.Nor
