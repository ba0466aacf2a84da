import Mathlib

/-!
# Parties of a concurrent system

The parties of a system are listed with what each of them is doing. One step changes what
one party is doing, or adds a party. The lemmas say how the number of parties that do
something of a kind changes.
-/

namespace Parties

variable {α : Type*} {parties : List α} {i : ℕ} {a b : α} {p : α → Bool}

/-- One party goes from `a` to `b`. -/
theorem countP_set (h : parties[i]? = some a) (b : α) :
    (parties.set i b).countP p + (p a).toNat = parties.countP p + (p b).toNat := by
  obtain ⟨hlt, hget⟩ := List.getElem?_eq_some_iff.mp h
  have hpos : p a = true → 0 < parties.countP p := fun hp =>
    List.countP_pos_iff.mpr ⟨a, List.mem_of_getElem? h, hp⟩
  rw [List.countP_set hlt, hget]
  cases hp : p a
  · cases p b <;> simp
  have := hpos hp
  cases p b <;> simp <;> omega

/-- What the parties weigh together when one of them goes from `a` to `b`. -/
theorem sum_map_set (weight : α → ℕ) (h : parties[i]? = some a) (b : α) :
    ((parties.set i b).map weight).sum + weight a = (parties.map weight).sum + weight b := by
  induction parties generalizing i with
  | nil => cases h
  | cons first parties ih =>
    cases i with
    | zero =>
      cases h
      simp only [List.set_cons_zero, List.map_cons, List.sum_cons]
      omega
    | succ i =>
      have hrest := ih (i := i) h
      simp only [List.set_cons_succ, List.map_cons, List.sum_cons]
      omega

theorem countP_append_singleton (parties : List α) (a : α) :
    (parties ++ [a]).countP p = parties.countP p + (p a).toNat := by
  rw [List.countP_append, List.countP_singleton]
  cases p a <;> rfl

/-- After a step a party does what it did, or it is the one that moved. -/
theorem set_some {j : ℕ} {x : α} (h : (parties.set i b)[j]? = some x) :
    parties[j]? = some x ∨ (i = j ∧ b = x) := by
  by_cases hij : i = j
  · subst hij
    have hlt : i < parties.length := by
      simpa using (List.getElem?_eq_some_iff.mp h).1
    rw [List.getElem?_set_self hlt] at h
    exact .inr ⟨rfl, Option.some.inj h⟩
  · rw [List.getElem?_set_ne hij] at h
    exact .inl h

/-- Some party does something of the kind. -/
theorem exists_of_countP_pos (h : 0 < parties.countP p) :
    ∃ (i : ℕ) (a : α), parties[i]? = some a ∧ p a = true := by
  obtain ⟨a, ha, hp⟩ := List.countP_pos_iff.mp h
  obtain ⟨i, hi, hget⟩ := List.getElem_of_mem ha
  exact ⟨i, a, by rw [List.getElem?_eq_getElem hi, hget], hp⟩

theorem countP_pos_of (h : parties[i]? = some a) (hp : p a = true) : 0 < parties.countP p :=
  List.countP_pos_iff.mpr ⟨a, List.mem_of_getElem? h, hp⟩

end Parties
