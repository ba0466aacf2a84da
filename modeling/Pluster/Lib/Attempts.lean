import Mathlib

/-!
# Logs of attempts

A log of attempts to get something done by another party. An attempt may reach the party,
and the party may refuse it, which proves that it did nothing. If a later attempt reaches
the party only after all the earlier ones that did were refused, the party does the thing
at most once.
-/

namespace Attempts

variable {α : Type*} (sent refused : α → Bool)
variable {log log' : List α}

/-- Every attempt that reached the other party was refused. -/
def AllRefused (log : List α) : Prop := ∀ x ∈ log, sent x = true → refused x = true

/-- The other party is reached again only after it has refused. -/
def ResentAfterRefusal (log : List α) : Prop :=
  (log.filter sent).Pairwise fun x _ => refused x = true

variable {sent refused}

theorem AllRefused.append (h : AllRefused sent refused log) (h' : AllRefused sent refused log') :
    AllRefused sent refused (log ++ log') := by
  intro x hx
  rcases List.mem_append.mp hx with hx | hx
  · exact h x hx
  · exact h' x hx

theorem resentAfterRefusal_singleton (x : α) : ResentAfterRefusal sent refused [x] := by
  unfold ResentAfterRefusal
  cases hsent : sent x <;> simp [hsent]

/-- After refused attempts anything may follow. -/
theorem ResentAfterRefusal.append (h : AllRefused sent refused log)
    (h' : ResentAfterRefusal sent refused log') :
    ResentAfterRefusal sent refused (log ++ log') := by
  unfold ResentAfterRefusal
  rw [List.filter_append, List.pairwise_append]
  refine ⟨?_, h', ?_⟩
  · rw [List.pairwise_iff_forall_sublist]
    intro x y hsub
    have hx := List.mem_filter.mp (hsub.subset (List.mem_cons_self ..))
    exact h x hx.1 hx.2
  · intro x hx y _
    have hx := List.mem_filter.mp hx
    exact h x hx.1 hx.2

/-- What can only be done by an attempt that was sent and not refused is done at most
once. -/
theorem ResentAfterRefusal.done_at_most_once {done : α → Bool}
    (h : ResentAfterRefusal sent refused log)
    (hdone : ∀ x ∈ log, done x = true → sent x = true ∧ refused x = false) :
    (log.filter done).length ≤ 1 := by
  induction log with
  | nil => simp
  | cons x log ih =>
    have htail : ResentAfterRefusal sent refused log :=
      h.sublist ((List.sublist_cons_self x log).filter sent)
    have ih := ih htail fun y hy => hdone y (List.mem_cons_of_mem _ hy)
    cases hx : done x with
    | false => rwa [List.filter_cons_of_neg (by simp [hx])]
    | true =>
      obtain ⟨hsent, hrefused⟩ := hdone x (List.mem_cons_self ..) hx
      -- A later attempt that was done would have been sent after one that was not refused.
      have hnone : log.filter done = [] := by
        rw [List.filter_eq_nil_iff]
        intro y hy hdoney
        obtain ⟨hsenty, -⟩ := hdone y (List.mem_cons_of_mem _ hy) hdoney
        rw [ResentAfterRefusal, List.filter_cons_of_pos hsent, List.pairwise_cons] at h
        have := h.1 y (List.mem_filter.mpr ⟨hy, hsenty⟩)
        rw [hrefused] at this
        cases this
      simp [List.filter_cons_of_pos hx, hnone]

end Attempts
