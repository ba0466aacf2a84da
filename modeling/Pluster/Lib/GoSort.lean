import Mathlib

/-!
# Sorting strings

`sort.Strings` sorts byte by byte. The result does not depend on the order in which the
strings come, for example from the range over a map.
-/

namespace GoSort

variable {strs : List (List UInt8)}

/-- `sort.Strings`. -/
def sortStrings (strs : List (List UInt8)) : List (List UInt8) := strs.insertionSort (· ≤ ·)

instance isTrans : IsTrans (List UInt8) (· ≤ ·) := ⟨fun _ _ _ => List.le_trans⟩

instance total : Std.Total (α := List UInt8) (· ≤ ·) := ⟨fun a b => List.le_total a b⟩

instance antisymm : Std.Antisymm (α := List UInt8) (· ≤ ·) := ⟨fun _ _ => List.le_antisymm⟩

theorem perm_sortStrings (strs : List (List UInt8)) : (sortStrings strs).Perm strs :=
  List.perm_insertionSort _ strs

theorem sorted_sortStrings (strs : List (List UInt8)) : (sortStrings strs).Pairwise (· ≤ ·) :=
  List.pairwise_insertionSort _ strs

theorem nodup_of_sorted (h : strs.Pairwise (· < ·)) : strs.Nodup := by
  refine h.imp ?_
  rintro s _ hlt rfl
  exact List.lt_irrefl s hlt

/-- The order in which the strings come does not matter. -/
theorem sortStrings_eq_of_perm {strs' : List (List UInt8)} (h : strs.Perm strs') :
    sortStrings strs = sortStrings strs' :=
  ((perm_sortStrings strs).trans (h.trans (perm_sortStrings strs').symm)).eq_of_pairwise'
    (sorted_sortStrings strs) (sorted_sortStrings strs')

theorem sortStrings_eq_nil : sortStrings strs = [] ↔ strs = [] := by
  rw [← List.length_eq_zero_iff, (perm_sortStrings strs).length_eq, List.length_eq_zero_iff]

end GoSort
