import Mathlib

/-!
# Totals over a store

The total of a natural number kept at each key of a store, of which all but finitely
many are zero, and how it changes when the number at one key changes.
-/

namespace Tally

variable {α : Type*} [DecidableEq α] {f : α → ℕ}

open Function

omit [DecidableEq α] in
theorem finite_support_zero : (support fun _ : α => 0).Finite := by simp

theorem finite_support_update (hf : (support f).Finite) (a : α) (v : ℕ) :
    (support (update f a v)).Finite := by
  refine (hf.insert a).subset fun b hb => ?_
  by_cases hab : b = a
  · exact Or.inl hab
  rw [mem_support, update_of_ne hab] at hb
  exact Or.inr hb

theorem finsum_update (hf : (support f).Finite) (a : α) (v : ℕ) :
    ∑ᶠ b, update f a v b + f a = ∑ᶠ b, f b + v := by
  let s := insert a hf.toFinset
  have hold : support f ⊆ s := fun b hb => by simp [s, hb]
  have hnew : support (update f a v) ⊆ s := by
    intro b hb
    by_cases hab : b = a
    · simp [s, hab]
    rw [mem_support, update_of_ne hab] at hb
    simp [s, hb]
  have ha : a ∈ s := Finset.mem_insert_self a _
  rw [finsum_eq_sum_of_support_subset _ hold, finsum_eq_sum_of_support_subset _ hnew,
    Finset.sum_update_of_mem ha, ← Finset.add_sum_erase s f ha, Finset.sdiff_singleton_eq_erase]
  omega

omit [DecidableEq α] in
theorem le_finsum (hf : (support f).Finite) (a : α) : f a ≤ ∑ᶠ b, f b := by
  classical
  rw [finsum_eq_sum_of_support_subset f (s := insert a hf.toFinset) fun b hb => by simp [hb]]
  exact Finset.single_le_sum (fun _ _ => Nat.zero_le _) (Finset.mem_insert_self a _)

end Tally
