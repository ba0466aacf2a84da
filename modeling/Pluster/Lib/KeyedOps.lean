import Mathlib

/-!
# Operations on single keys of a partitioned store

A store maps keys to cells. An operation reads and changes the cell of one key.
The keys are divided into classes, and each class has a home shard. A sequence of
operations can be split by class and the parts run on their shards in any order:
each operation returns what it returns in the whole sequence, and each key ends
with the same cell.
-/

namespace KeyedOps

variable {K V O R C A : Type*}
variable {order : List C} {α : Type*} {l : List α} {pairs : List (ℕ × α)}

/-- What an operation does: the key it is for, what it returns and the new cell. -/
structure Semantics (K V O R : Type*) where
  key : O → K
  act : O → V → R × V

variable [DecidableEq K] (sem : Semantics K V O R)

/-- Run operations one after the other. -/
def run : List O → (K → V) → List R × (K → V)
  | [], s => ([], s)
  | o :: os, s =>
    let (r, v) := sem.act o (s (sem.key o))
    let (rs, s') := run os (Function.update s (sem.key o) v)
    (r :: rs, s')

theorem run_cons (o : O) (os : List O) (s : K → V) :
    run sem (o :: os) s =
      ((sem.act o (s (sem.key o))).1 ::
          (run sem os (Function.update s (sem.key o) (sem.act o (s (sem.key o))).2)).1,
        (run sem os (Function.update s (sem.key o) (sem.act o (s (sem.key o))).2)).2) := rfl

@[simp] theorem run_length (os : List O) (s : K → V) : (run sem os s).1.length = os.length := by
  induction os generalizing s with
  | nil => rfl
  | cons o os ih => simp [run_cons, ih]

/-- The operations on selected keys, run alone on a store with the same cells there,
return what they return in the whole sequence. They leave the same cells at the
selected keys and do not touch the others. -/
theorem run_filter (sel : K → Bool) (os : List O) {s t : K → V}
    (hagree : ∀ k, sel k = true → t k = s k) :
    (run sem (os.filter fun o => sel (sem.key o)) t).1 =
        ((os.zip (run sem os s).1).filter fun x => sel (sem.key x.1)).map Prod.snd ∧
      (∀ k, sel k = true →
        (run sem (os.filter fun o => sel (sem.key o)) t).2 k = (run sem os s).2 k) ∧
      (∀ k, sel k = false → (run sem (os.filter fun o => sel (sem.key o)) t).2 k = t k) := by
  induction os generalizing s t with
  | nil => exact ⟨rfl, hagree, fun _ _ => rfl⟩
  | cons o os ih =>
    cases hsel : sel (sem.key o) with
    | false =>
      have hagree' : ∀ k, sel k = true →
          t k = Function.update s (sem.key o) (sem.act o (s (sem.key o))).2 k := by
        intro k hk
        have hne : k ≠ sem.key o := by
          rintro rfl
          rw [hsel] at hk
          cases hk
        rw [Function.update_of_ne hne, hagree k hk]
      rw [List.filter_cons_of_neg (by simp [hsel]), run_cons, List.zip_cons_cons,
        List.filter_cons_of_neg (by simp [hsel])]
      exact ih hagree'
    | true =>
      have hcell := hagree _ hsel
      have hagree' : ∀ k, sel k = true →
          Function.update t (sem.key o) (sem.act o (t (sem.key o))).2 k =
            Function.update s (sem.key o) (sem.act o (s (sem.key o))).2 k := by
        intro k hk
        by_cases heq : k = sem.key o
        · subst heq
          rw [Function.update_self, Function.update_self, hcell]
        · rw [Function.update_of_ne heq, Function.update_of_ne heq, hagree k hk]
      obtain ⟨hresults, hselected, hothers⟩ := ih hagree'
      rw [List.filter_cons_of_pos (by simp [hsel]), run_cons, run_cons, List.zip_cons_cons,
        List.filter_cons_of_pos (by simp [hsel]), List.map_cons]
      refine ⟨?_, hselected, fun k hk => ?_⟩
      · rw [hresults, hcell]
      have hne : k ≠ sem.key o := by
        rintro rfl
        rw [hsel] at hk
        cases hk
      rw [hothers k hk, Function.update_of_ne hne]

/-- A key that no operation is for keeps its cell. -/
theorem run_untouched (os : List O) (s : K → V) {k : K} (hk : ∀ o ∈ os, sem.key o ≠ k) :
    (run sem os s).2 k = s k := by
  have h := (run_filter sem (fun k' => decide (k' ≠ k)) os (s := s) (t := s) fun _ _ => rfl).2.2 k
    (by simp)
  rwa [List.filter_eq_self.mpr (by simpa using hk)] at h

/-! ### Shards -/

variable [DecidableEq A] [DecidableEq C] (cls : K → C) (home : C → A)

/-- Run the operations of some classes, each on the home shard of its class. -/
def runClasses (os : List O) : List C → (A → K → V) → List (List R) × (A → K → V)
  | [], shards => ([], shards)
  | c :: cs, shards =>
    let part := run sem (os.filter fun o => cls (sem.key o) = c) (shards (home c))
    let (rest, final) := runClasses os cs (Function.update shards (home c) part.2)
    (part.1 :: rest, final)

/-- The results of the operations of a class in a run of all operations. -/
def resultsOf (os : List O) (s : K → V) (c : C) : List R :=
  ((os.zip (run sem os s).1).filter fun x => cls (sem.key x.1) = c).map Prod.snd

/-- Running the classes in any order gives the results and the cells of the whole run.
A shard changes only at the keys of the classes that are at home there. -/
theorem runClasses_spec (os : List O) (s : K → V) (hnodup : order.Nodup) {shards : A → K → V}
    (hagree : ∀ k, cls k ∈ order → shards (home (cls k)) k = s k) :
    (runClasses sem cls home os order shards).1 = order.map (resultsOf sem cls os s) ∧
      (∀ k, cls k ∈ order →
        (runClasses sem cls home os order shards).2 (home (cls k)) k = (run sem os s).2 k) ∧
      (∀ a k, (cls k ∈ order → a ≠ home (cls k)) →
        (runClasses sem cls home os order shards).2 a k = shards a k) := by
  induction order generalizing shards with
  | nil => simp [runClasses]
  | cons c cs ih =>
    obtain ⟨hnotMem, hnodup⟩ := List.nodup_cons.mp hnodup
    have hpart := run_filter sem (fun k => decide (cls k = c)) os (s := s) (t := shards (home c))
      fun k hk => by
        have hclass : cls k = c := by simpa using hk
        rw [← hclass]
        exact hagree k (by simp [hclass])
    obtain ⟨hresults, hselected, hothers⟩ := hpart
    -- The shard of `c` has changed at the keys of `c` only.
    have hchanged : ∀ a k, (cls k = c → a ≠ home c) → Function.update shards (home c)
        (run sem (os.filter fun o => decide (cls (sem.key o) = c)) (shards (home c))).2 a k =
          shards a k := by
      intro a k hne
      by_cases ha : a = home c
      · subst ha
        rw [Function.update_self]
        exact hothers k (by simpa using fun hclass => hne hclass rfl)
      · rw [Function.update_of_ne ha]
    have hagree' : ∀ k, cls k ∈ cs → Function.update shards (home c)
        (run sem (os.filter fun o => decide (cls (sem.key o) = c)) (shards (home c))).2
          (home (cls k)) k = s k := by
      intro k hk
      have hne : cls k ≠ c := fun h => hnotMem (h ▸ hk)
      rw [hchanged _ k fun hclass => absurd hclass hne]
      exact hagree k (List.mem_cons_of_mem _ hk)
    obtain ⟨hrest, hfinal, huntouched⟩ := ih hnodup hagree'
    refine ⟨?_, fun k hk => ?_, fun a k hk => ?_⟩
    · rw [List.map_cons, ← hrest]
      exact congrArg (· :: _) hresults
    · by_cases hclass : cls k = c
      · have hnot : cls k ∉ cs := hclass ▸ hnotMem
        refine (huntouched (home (cls k)) k fun hmem => absurd hmem hnot).trans ?_
        rw [hclass, Function.update_self]
        exact hselected k (by simpa using hclass)
      · exact hfinal k ((List.mem_cons.mp hk).resolve_left hclass)
    · refine (huntouched a k fun hmem => hk (List.mem_cons_of_mem _ hmem)).trans ?_
      exact hchanged a k fun hclass => hclass ▸ hk (by simp [hclass])

/-! ### Counting and scattering results -/

omit [DecidableEq K] in
private theorem sum_indicator (hnodup : order.Nodup) {c : C} (hc : c ∈ order) (n : ℕ) :
    (order.map fun c' => if c = c' then n else 0).sum = n := by
  induction order with
  | nil => cases hc
  | cons c' cs ih =>
    obtain ⟨hnotMem, hnodup⟩ := List.nodup_cons.mp hnodup
    rw [List.map_cons, List.sum_cons]
    rcases List.mem_cons.mp hc with rfl | hc
    · have hzero : (cs.map fun c' => if c = c' then n else 0).sum = 0 := by
        refine List.sum_eq_zero fun x hx => ?_
        obtain ⟨c', hc', rfl⟩ := List.mem_map.mp hx
        have hne : c ≠ c' := fun h => hnotMem (h ▸ hc')
        exact if_neg hne
      rw [if_pos rfl, hzero, Nat.add_zero]
    · have hne : c ≠ c' := fun h => hnotMem (h ▸ hc)
      rw [if_neg hne, ih hnodup hc, Nat.zero_add]

omit [DecidableEq K] in
/-- A count over a list is the sum of the counts over its classes. -/
theorem countP_eq_sum_classes (f : α → C) (p : α → Bool) (hnodup : order.Nodup) (l : List α)
    (hcover : ∀ a ∈ l, f a ∈ order) :
    l.countP p = (order.map fun c => (l.filter fun a => f a = c).countP p).sum := by
  induction l with
  | nil => simp
  | cons a l ih =>
    have hsplit : ∀ c, ((a :: l).filter fun a => f a = c).countP p =
        (if f a = c then if p a then 1 else 0 else 0) + (l.filter fun a => f a = c).countP p := by
      intro c
      by_cases hc : f a = c
      · simp [hc, List.countP_cons, Nat.add_comm]
      · simp [hc]
    simp only [hsplit]
    rw [List.sum_map_add, sum_indicator hnodup (hcover a (by simp)), List.countP_cons,
      ih fun a' ha' => hcover a' (List.mem_cons_of_mem _ ha'), Nat.add_comm]

/-- Store values at positions of a list. -/
def scatter {α : Type*} (l : List α) (pairs : List (ℕ × α)) : List α :=
  pairs.foldl (fun l x => l.set x.1 x.2) l

omit [DecidableEq K] in
@[simp] theorem length_scatter (l : List α) (pairs : List (ℕ × α)) :
    (scatter l pairs).length = l.length := by
  induction pairs generalizing l with
  | nil => rfl
  | cons pair pairs ih => simpa [scatter] using ih (l.set pair.1 pair.2)

omit [DecidableEq K] in
/-- What is in the list afterwards was there before or was scattered. -/
theorem mem_scatter {a : α} (h : a ∈ scatter l pairs) : a ∈ l ∨ ∃ pair ∈ pairs, a = pair.2 := by
  induction pairs generalizing l with
  | nil => exact .inl h
  | cons pair pairs ih =>
    rcases ih h with hset | ⟨later, hlater, rfl⟩
    · rcases List.mem_or_eq_of_mem_set hset with hmem | rfl
      · exact .inl hmem
      · exact .inr ⟨pair, List.mem_cons_self .., rfl⟩
    · exact .inr ⟨later, List.mem_cons_of_mem _ hlater, rfl⟩

omit [DecidableEq K] in
theorem scatter_append (l : List α) (pairs later : List (ℕ × α)) :
    scatter l (pairs ++ later) = scatter (scatter l pairs) later := List.foldl_append

omit [DecidableEq K] in
theorem map_scatter {β : Type*} (f : α → β) (l : List α) (pairs : List (ℕ × α)) :
    (scatter l pairs).map f = scatter (l.map f) (pairs.map fun x => (x.1, f x.2)) := by
  induction pairs generalizing l with
  | nil => rfl
  | cons pair pairs ih =>
    have hstep := ih (l.set pair.1 pair.2)
    rwa [List.map_set] at hstep

omit [DecidableEq K] in
/-- Values for different positions may be stored in any order. -/
theorem scatter_perm {pairs' : List (ℕ × α)} (h : pairs.Perm pairs')
    (hnodup : (pairs.map Prod.fst).Nodup) (l : List α) : scatter l pairs = scatter l pairs' := by
  apply h.foldl_eq'
  intro x hx y hy l
  by_cases heq : x.1 = y.1
  · rw [List.inj_on_of_nodup_map hnodup hx hy heq]
  · rw [List.set_comm _ _ heq]

omit [DecidableEq K] in
/-- If every pair holds the value of a target at its position and every position occurs,
the result is the target. -/
theorem scatter_eq {target : List α} (hlength : l.length = target.length)
    (hpairs : ∀ x ∈ pairs, target[x.1]? = some x.2)
    (hall : ∀ i < target.length, l[i]? = target[i]? ∨ ∃ x ∈ pairs, x.1 = i) :
    scatter l pairs = target := by
  induction pairs generalizing l with
  | nil =>
    refine List.ext_getElem? fun i => ?_
    by_cases hi : i < target.length
    · exact (hall i hi).resolve_right (by simp)
    rw [scatter, List.foldl_nil, List.getElem?_eq_none (by omega),
      List.getElem?_eq_none (by omega)]
  | cons x pairs ih =>
    have hx := hpairs x (by simp)
    refine ih (by simpa using hlength) (fun y hy => hpairs y (List.mem_cons_of_mem _ hy)) ?_
    intro i hi
    by_cases heq : x.1 = i
    · left
      rw [List.getElem?_set, if_pos heq, if_pos (by omega), ← hx, heq]
    rcases hall i hi with hsame | ⟨y, hy, hyi⟩
    · left
      rw [List.getElem?_set_ne heq, hsame]
    right
    rcases List.mem_cons.mp hy with rfl | hy
    · exact absurd hyi heq
    · exact ⟨y, hy, hyi⟩

end KeyedOps
