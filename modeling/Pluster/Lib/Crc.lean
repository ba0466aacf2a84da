import Mathlib

/-!
# Cyclic redundancy checks by table

A remainder register of width `w` takes one byte by eight conditional shifts.
The shifts are linear in exclusive or, so a byte can also be taken by one table
lookup. This file compares the lookup for an arbitrary table with the shifts,
and follows the error that wrong table entries leave in the register.
-/

namespace Crc

variable {w : ℕ} (poly : BitVec w)

/-- One shift of the remainder, most significant bit first. -/
def shift (c : BitVec w) : BitVec w :=
  if c.msb then (c <<< 1) ^^^ poly else c <<< 1

/-- `k` shifts of the remainder. -/
def shifts : ℕ → BitVec w → BitVec w
  | 0, c => c
  | k + 1, c => shifts k (shift poly c)

/-- A byte placed at the top of the register. -/
def atTop (b : BitVec 8) : BitVec w := b.setWidth w <<< (w - 8)

/-- The top byte of the register. -/
def top (c : BitVec w) : BitVec 8 := (c >>> (w - 8)).setWidth 8

/-- Take one byte: exclusive or at the top, then eight shifts. -/
def pushByte (c : BitVec w) (b : BitVec 8) : BitVec w := shifts poly 8 (c ^^^ atTop b)

/-- The bitwise remainder of a byte string from a zero register, without
reflection and without a final exclusive or. -/
def remainder (bytes : List (BitVec 8)) : BitVec w := bytes.foldl (pushByte poly) 0

/-- Take one byte by a table lookup. -/
def tableByte (table : BitVec 8 → BitVec w) (c : BitVec w) (b : BitVec 8) : BitVec w :=
  (c <<< 8) ^^^ table (top c ^^^ b)

/-- The table whose lookups agree with the shifts. -/
def exactTable (i : BitVec 8) : BitVec w := shifts poly 8 (atTop i)

/-- The error of one table entry. -/
def tableError (table : BitVec 8 → BitVec w) (i : BitVec 8) : BitVec w :=
  table i ^^^ exactTable poly i

/-- The error a table leaves in the register: `c` is the correct register, `e`
the error so far. Every further byte advances the error by eight shifts and adds
the error of the entry it looks up. -/
def errorAfter (table : BitVec 8 → BitVec w) : BitVec w → BitVec w → List (BitVec 8) → BitVec w
  | _, e, [] => e
  | c, e, b :: bytes =>
    errorAfter table (pushByte poly c b)
      (shifts poly 8 e ^^^ tableError poly table (top (c ^^^ e) ^^^ b)) bytes

private theorem xor_cancel (a b p : BitVec w) : a ^^^ p ^^^ (b ^^^ p) = a ^^^ b := by
  rw [BitVec.xor_assoc a p, BitVec.xor_comm b p, ← BitVec.xor_assoc p p, BitVec.xor_self,
    BitVec.zero_xor]

/-- An error-free register is one whose error is zero. -/
theorem xor_eq_self_iff (c e : BitVec w) : c ^^^ e = c ↔ e = 0#w := by
  constructor
  · intro h
    exact (BitVec.xor_right_inj c).mp (h.trans BitVec.xor_zero.symm)
  rintro rfl
  exact BitVec.xor_zero

theorem shift_xor (a b : BitVec w) : shift poly (a ^^^ b) = shift poly a ^^^ shift poly b := by
  unfold shift
  simp only [BitVec.msb_xor, BitVec.shiftLeft_xor_distrib]
  cases a.msb <;> cases b.msb <;> simp only [Bool.xor_false, Bool.xor_true, Bool.not_true,
    Bool.not_false, Bool.false_eq_true, if_true, if_false]
  · rw [BitVec.xor_assoc]
  · rw [BitVec.xor_assoc, BitVec.xor_assoc, BitVec.xor_comm (b <<< 1)]
  · exact (xor_cancel _ _ _).symm

/-- The shifts are linear, which is what a table lookup rests on. -/
theorem shifts_xor (k : ℕ) (a b : BitVec w) :
    shifts poly k (a ^^^ b) = shifts poly k a ^^^ shifts poly k b := by
  induction k generalizing a b with
  | zero => rfl
  | succ k ih => simp only [shifts, shift_xor, ih]

/-- A register whose top `k` bits are clear only moves up through `k` shifts. -/
theorem shifts_eq_shiftLeft (k : ℕ) (c : BitVec w)
    (hclear : ∀ i, w - k ≤ i → c.getLsbD i = false) : shifts poly k c = c <<< k := by
  induction k generalizing c with
  | zero => simp [shifts]
  | succ k ih =>
    have hmsb : c.msb = false := by
      rw [BitVec.msb_eq_getLsbD_last]
      exact hclear _ (by omega)
    have hnext : ∀ i, w - k ≤ i → (c <<< 1).getLsbD i = false := by
      intro i hi
      rw [BitVec.getLsbD_shiftLeft]
      by_cases hi0 : i < 1
      · simp [hi0]
      · simp [hclear (i - 1) (by omega)]
    rw [shifts, shift, hmsb, if_neg Bool.false_ne_true, ih _ hnext, ← BitVec.shiftLeft_add,
      Nat.add_comm]

theorem atTop_xor (a b : BitVec 8) : (atTop (a ^^^ b) : BitVec w) = atTop a ^^^ atTop b := by
  simp only [atTop, BitVec.setWidth_xor, BitVec.shiftLeft_xor_distrib]

variable (hw : 8 ≤ w)
include hw

/-- A register is its top byte, put back at the top, and the rest. -/
theorem eq_atTop_top_xor (c : BitVec w) :
    ∃ rest : BitVec w, c = atTop (top c) ^^^ rest ∧ rest <<< 8 = c <<< 8 ∧
      ∀ i, w - 8 ≤ i → rest.getLsbD i = false := by
  refine ⟨c ^^^ atTop (top c), ?_, ?_, ?_⟩
  · rw [BitVec.xor_comm c, ← BitVec.xor_assoc, BitVec.xor_self, BitVec.zero_xor]
  · apply BitVec.eq_of_getLsbD_eq
    intro i hi
    simp only [BitVec.getLsbD_shiftLeft, BitVec.getLsbD_xor, atTop, BitVec.getLsbD_setWidth]
    by_cases hlow : i < 8
    · simp [hlow]
    have hbelow : i - 8 < w - 8 := by omega
    simp [hbelow]
  · intro i hi
    by_cases hin : i < w
    · simp only [BitVec.getLsbD_xor, atTop, top, BitVec.getLsbD_shiftLeft,
        BitVec.getLsbD_setWidth, BitVec.getLsbD_ushiftRight]
      have hback : w - 8 + (i - (w - 8)) = i := by omega
      have hbyte : i - (w - 8) < 8 := by omega
      have hreg : i - (w - 8) < w := by omega
      have hnot : ¬ i < w - 8 := by omega
      simp [hin, hbyte, hreg, hnot, hback]
    · exact BitVec.getLsbD_of_ge _ _ (by omega)

/-- The lookup in the exact table takes a byte exactly as eight shifts do. -/
theorem pushByte_eq_tableByte (c : BitVec w) (b : BitVec 8) :
    pushByte poly c b = tableByte (exactTable poly) c b := by
  obtain ⟨rest, hc, hshift, hclear⟩ := eq_atTop_top_xor hw c
  have hsplit : c ^^^ atTop b = atTop (top c ^^^ b) ^^^ rest := by
    conv_lhs => rw [hc]
    rw [atTop_xor, BitVec.xor_assoc, BitVec.xor_comm rest, ← BitVec.xor_assoc]
  rw [pushByte, hsplit, shifts_xor, shifts_eq_shiftLeft poly 8 rest hclear, hshift, tableByte,
    exactTable, BitVec.xor_comm]

/-- One lookup in an arbitrary table from a register off by `e`. -/
theorem tableByte_xor (table : BitVec 8 → BitVec w) (c e : BitVec w) (b : BitVec 8) :
    tableByte table (c ^^^ e) b = pushByte poly c b ^^^
      (shifts poly 8 e ^^^ tableError poly table (top (c ^^^ e) ^^^ b)) := by
  have hexact : tableByte (exactTable poly) (c ^^^ e) b = pushByte poly c b ^^^ shifts poly 8 e := by
    rw [← pushByte_eq_tableByte poly hw, pushByte, pushByte, BitVec.xor_assoc,
      BitVec.xor_comm e, ← BitVec.xor_assoc, shifts_xor]
  have hentry : table (top (c ^^^ e) ^^^ b) = exactTable poly (top (c ^^^ e) ^^^ b) ^^^
      tableError poly table (top (c ^^^ e) ^^^ b) := by
    rw [tableError, BitVec.xor_comm (table _), ← BitVec.xor_assoc, BitVec.xor_self,
      BitVec.zero_xor]
  rw [tableByte, hentry, ← BitVec.xor_assoc, ← tableByte, hexact, BitVec.xor_assoc]

/-- The register of an arbitrary table after a byte string is the correct
register off by `errorAfter`. -/
theorem foldl_tableByte (table : BitVec 8 → BitVec w) (bytes : List (BitVec 8))
    (c e : BitVec w) :
    bytes.foldl (tableByte table) (c ^^^ e) =
      bytes.foldl (pushByte poly) c ^^^ errorAfter poly table c e bytes := by
  induction bytes generalizing c e with
  | nil => rfl
  | cons b bytes ih => rw [List.foldl_cons, tableByte_xor poly hw, ih, List.foldl_cons, errorAfter]

end Crc
