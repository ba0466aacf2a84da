import Mathlib

/-!
# Reorder buffers

A reorder buffer hands out positions in order, accepts a value for a position
at any time and releases values in the order of the positions. The first
position that still waits holds back all later ones.
-/

namespace ReorderBuffer

variable {α : Type*}

/-- Released values in order, and the positions not released yet. -/
structure Buffer (α : Type*) where
  /-- The values released so far. -/
  done : List α
  /-- The later positions, each with its value if it has one. -/
  waiting : List (Option α)

/-- Split off the values in front of the first position without one. -/
def release : List (Option α) → List α × List (Option α)
  | some v :: rest => (v :: (release rest).1, (release rest).2)
  | rest => ([], rest)

namespace Buffer

/-- Hand out the next position. -/
def alloc (b : Buffer α) : Buffer α := { b with waiting := b.waiting ++ [none] }

/-- Put a value at a position that still waits and release what has become free.
Positions already released or never handed out are ignored. -/
def complete (b : Buffer α) (k : ℕ) (v : α) : Buffer α :=
  if k < b.done.length ∨ b.done.length + b.waiting.length ≤ k then b
  else
    let next := release (b.waiting.set (k - b.done.length) (some v))
    { done := b.done ++ next.1, waiting := next.2 }

/-- Nothing is held back without need: the first waiting position has no value. -/
def Blocked (b : Buffer α) : Prop := ∀ v, b.waiting.head? ≠ some (some v)

/-- Every value in the buffer was supplied for its position. -/
def All (S : ℕ → α → Prop) (b : Buffer α) : Prop :=
  (∀ k v, b.done[k]? = some v → S k v) ∧
  (∀ i v, b.waiting[i]? = some (some v) → S (b.done.length + i) v)

end Buffer

theorem release_length (l : List (Option α)) :
    (release l).1.length + (release l).2.length = l.length := by
  induction l with
  | nil => rfl
  | cons a rest ih =>
    cases a with
    | none => simp [release]
    | some v => simp only [release, List.length_cons]; omega

theorem release_head (l : List (Option α)) (v : α) : (release l).2.head? ≠ some (some v) := by
  induction l with
  | nil => simp [release]
  | cons a rest ih =>
    cases a with
    | none => simp [release]
    | some v => simpa only [release] using ih

/-- A blocked list releases nothing. -/
theorem release_of_blocked {l : List (Option α)} (h : ∀ v, l.head? ≠ some (some v)) :
    release l = ([], l) := by
  cases l with
  | nil => rfl
  | cons a rest =>
    cases a with
    | none => rfl
    | some v => exact absurd rfl (h v)

theorem release_fst_getElem? {l : List (Option α)} {i : ℕ} {v : α}
    (h : (release l).1[i]? = some v) : l[i]? = some (some v) := by
  induction l generalizing i with
  | nil => simp [release] at h
  | cons a rest ih =>
    cases a with
    | none => simp [release] at h
    | some u =>
      cases i with
      | zero => simpa [release] using h
      | succ i => exact ih (by simpa [release] using h)

theorem release_snd_getElem? (l : List (Option α)) (i : ℕ) :
    (release l).2[i]? = l[(release l).1.length + i]? := by
  induction l with
  | nil => rfl
  | cons a rest ih =>
    cases a with
    | none => simp [release]
    | some u =>
      have hindex : (release rest).1.length + 1 + i = (release rest).1.length + i + 1 := by omega
      simp only [release, List.length_cons, hindex, List.getElem?_cons_succ, ih]

namespace Buffer

theorem Blocked.alloc {b : Buffer α} (h : b.Blocked) : b.alloc.Blocked := by
  intro v
  cases hw : b.waiting with
  | nil => simp [Buffer.alloc, hw]
  | cons a rest =>
    have := h v
    simpa [Buffer.alloc, hw] using this

theorem Blocked.complete {b : Buffer α} (h : b.Blocked) (k : ℕ) (v : α) :
    (b.complete k v).Blocked := by
  unfold Buffer.complete
  split
  · exact h
  · exact release_head _

theorem All.mono {S T : ℕ → α → Prop} {b : Buffer α} (h : b.All S)
    (hST : ∀ k v, S k v → T k v) : b.All T :=
  ⟨fun k v hk => hST _ _ (h.1 k v hk), fun i v hi => hST _ _ (h.2 i v hi)⟩

theorem All.alloc {S : ℕ → α → Prop} {b : Buffer α} (h : b.All S) : b.alloc.All S := by
  refine ⟨h.1, fun i v hi => h.2 i v ?_⟩
  simp only [Buffer.alloc, List.getElem?_append] at hi
  split at hi
  · exact hi
  rw [List.getElem?_singleton] at hi
  split at hi <;> simp at hi

/-- Completing a position with a value supplied for it keeps every value supplied. -/
theorem All.complete {S : ℕ → α → Prop} {b : Buffer α} (h : b.All S) {k : ℕ} {v : α}
    (hkv : S k v) : (b.complete k v).All S := by
  unfold Buffer.complete
  split
  · exact h
  rename_i hk
  have hset : ∀ i u, (b.waiting.set (k - b.done.length) (some v))[i]? = some (some u) →
      S (b.done.length + i) u := by
    intro i u hi
    by_cases hik : k - b.done.length = i
    · have hki : b.done.length + i = k := by omega
      rw [hik, List.getElem?_set_self (by omega)] at hi
      rw [hki, ← Option.some.inj (Option.some.inj hi)]
      exact hkv
    · rw [List.getElem?_set_ne hik] at hi
      exact h.2 i u hi
  constructor
  · intro i u hi
    simp only [List.getElem?_append] at hi
    split at hi
    · exact h.1 i u hi
    have hrel := hset _ u (release_fst_getElem? hi)
    rwa [Nat.add_sub_of_le (by omega)] at hrel
  · intro i u hi
    have hrel := hset _ u ((release_snd_getElem? _ i).symm.trans hi)
    simpa only [List.length_append, Nat.add_assoc] using hrel

/-- Positions are never lost: they are released or still waiting. -/
theorem complete_length (b : Buffer α) (k : ℕ) (v : α) :
    (b.complete k v).done.length + (b.complete k v).waiting.length =
      b.done.length + b.waiting.length := by
  unfold Buffer.complete
  split
  · rfl
  have h := release_length (b.waiting.set (k - b.done.length) (some v))
  simp only [List.length_append, List.length_set] at h ⊢
  omega

end Buffer

end ReorderBuffer
