import Mathlib

/-!
# Glob patterns

Patterns of literal bytes, `?` for one character and `*` for any number of characters. Readers
differ in what a character is and in which characters `?` and `*` do not match.
-/

namespace Glob

variable {c : UInt8}

/-- How a reader sees a string: the length of the character in front, and the bytes that end
what `?` and `*` match. -/
structure Reading where
  width : List UInt8 → ℕ
  stops : UInt8 → Bool

namespace Reading

variable (r : Reading)

/-- What is left of a string when `*` has matched some bytes of it. -/
def skips : List UInt8 → List (List UInt8)
  | [] => [[]]
  | c :: s => (c :: s) :: if r.stops c then [] else skips s

/-- The pattern, with literal bytes except `?` and `*`, matches the whole string. -/
def accepts : List UInt8 → List UInt8 → Bool
  | [], s => s.isEmpty
  | b :: p, s =>
    if b = 42 then (r.skips s).any (accepts p)
    else
      match s with
      | [] => false
      | c :: rest =>
        if b = 63 then !r.stops c && accepts p ((c :: rest).drop (r.width (c :: rest)))
        else b = c && accepts p rest

end Reading

/-- Every byte is a character, and `?` and `*` match all of them. -/
def bytewise : Reading := ⟨fun _ => 1, fun _ => false⟩

/-- The length of a character of UTF-8, by its first byte. -/
def runeLength (c : UInt8) : ℕ :=
  if 0xC2 ≤ c ∧ c ≤ 0xDF then 2 else if 0xE0 ≤ c ∧ c ≤ 0xEF then 3
  else if 0xF0 ≤ c ∧ c ≤ 0xF4 then 4 else 1

/-- The range of the second byte, by the first byte. -/
def acceptRange (c : UInt8) : UInt8 × UInt8 :=
  if c = 0xE0 then (0xA0, 0xBF) else if c = 0xED then (0x80, 0x9F)
  else if c = 0xF0 then (0x90, 0xBF) else if c = 0xF4 then (0x80, 0x8F) else (0x80, 0xBF)

/-- The width that `utf8.DecodeRune` returns: an invalid encoding is one byte wide. -/
def runeWidth : List UInt8 → ℕ
  | [] => 0
  | c :: s =>
    let rest := s.take (runeLength c - 1)
    if rest.length = runeLength c - 1 ∧
        rest.head?.all (fun d => (acceptRange c).1 ≤ d ∧ d ≤ (acceptRange c).2) ∧
        rest.tail.all (fun d => 0x80 ≤ d ∧ d ≤ 0xBF) then runeLength c
    else 1

/-- Characters are encoded in UTF-8, and `?` and `*` do not match `/`. -/
def pathwise : Reading := ⟨runeWidth, fun c => c = 47⟩

theorem runeWidth_bounds (c : UInt8) (s : List UInt8) :
    1 ≤ runeWidth (c :: s) ∧ runeWidth (c :: s) ≤ (c :: s).length := by
  have hpos : 1 ≤ runeLength c := by
    unfold runeLength
    split_ifs <;> decide
  rw [runeWidth]
  split
  · rename_i hvalid
    have hlength := hvalid.1
    rw [List.length_take] at hlength
    rw [List.length_cons]
    omega
  · simp

/-- Every character of the string is one byte wide. -/
def SingleBytes (s : List UInt8) : Prop := ∀ t ∈ s.tails, t ≠ [] → runeWidth t = 1

instance (s : List UInt8) : Decidable (SingleBytes s) := inferInstanceAs (Decidable (∀ _ ∈ _, _))

theorem singleBytes_cons {s : List UInt8} :
    SingleBytes (c :: s) ↔ runeWidth (c :: s) = 1 ∧ SingleBytes s := by
  simp [SingleBytes]

namespace Reading

variable {r : Reading} {s t p : List UInt8}

theorem skips_eq_tails (h : ∀ c ∈ s, r.stops c = false) : r.skips s = s.tails := by
  induction s with
  | nil => rfl
  | cons c s ih =>
    obtain ⟨hc, hs⟩ := List.forall_mem_cons.mp h
    rw [skips, hc, if_neg Bool.false_ne_true, ih hs, List.tails_cons]

/-- `*` alone matches the strings without a byte that ends it. -/
theorem accepts_star : r.accepts [42] s = true ↔ ∀ c ∈ s, r.stops c = false := by
  rw [accepts.eq_def]
  simp only [if_true]
  induction s with
  | nil => simp [skips, accepts]
  | cons c s ih =>
    rw [List.forall_mem_cons, ← ih, skips, List.any_cons]
    cases r.stops c <;> simp [accepts]

end Reading

/-- A run of `?` is as long as the string for a reader of bytes. -/
theorem bytewise_accepts_replicate (k : ℕ) (s : List UInt8) :
    bytewise.accepts (List.replicate k 63) s = true ↔ s.length = k := by
  induction k generalizing s with
  | zero => simp [Reading.accepts]
  | succ k ih =>
    cases s with
    | nil => simp [List.replicate_succ, Reading.accepts]
    | cons c s =>
      rw [List.replicate_succ, Reading.accepts, if_neg (by decide), if_pos rfl,
        List.length_cons, Nat.add_right_cancel_iff, ← ih]
      rfl

section Pathwise

variable {s : List UInt8}

theorem pathwise_accepts_any (hc : c ≠ 47) (p : List UInt8) :
    pathwise.accepts (63 :: p) (c :: s) =
      pathwise.accepts p ((c :: s).drop (runeWidth (c :: s))) := by
  rw [Reading.accepts, if_neg (by decide), if_pos rfl]
  simp [pathwise, hc]

/-- Some run of `?` matches, one for each character. -/
theorem exists_pathwise_accepts (hs : 47 ∉ s) :
    ∃ k ≤ s.length, pathwise.accepts (List.replicate k 63) s = true := by
  induction hn : s.length using Nat.strong_induction_on generalizing s with
  | _ n ih =>
    cases s with
    | nil => exact ⟨0, Nat.zero_le _, rfl⟩
    | cons c s =>
      obtain ⟨hlow, hhigh⟩ := runeWidth_bounds c s
      have hlength : ((c :: s).drop (runeWidth (c :: s))).length = n - runeWidth (c :: s) := by
        rw [List.length_drop, hn]
      obtain ⟨k, hk, haccepts⟩ := ih _ (by omega)
        (fun hmem => hs (List.mem_of_mem_drop hmem)) hlength
      refine ⟨k + 1, by omega, ?_⟩
      rwa [List.replicate_succ, pathwise_accepts_any fun hc => hs (hc ▸ List.mem_cons_self)]

/-- The run is shorter than the string if a character is wider than one byte. -/
theorem exists_short_pathwise (hs : 47 ∉ s) (hwide : ¬ SingleBytes s) :
    ∃ k < s.length, pathwise.accepts (List.replicate k 63) s = true := by
  induction s with
  | nil => exact absurd (by decide) hwide
  | cons c s ih =>
    have hc : c ≠ 47 := fun hc => hs (hc ▸ List.mem_cons_self)
    by_cases hone : runeWidth (c :: s) = 1
    · rw [singleBytes_cons, not_and] at hwide
      obtain ⟨k, hk, haccepts⟩ := ih (fun hmem => hs (List.mem_cons_of_mem _ hmem)) (hwide hone)
      refine ⟨k + 1, Nat.succ_lt_succ hk, ?_⟩
      rwa [List.replicate_succ, pathwise_accepts_any hc, hone]
    · obtain ⟨hlow, hhigh⟩ := runeWidth_bounds c s
      obtain ⟨k, hk, haccepts⟩ := exists_pathwise_accepts
        (fun hmem => hs (List.mem_of_mem_drop (i := runeWidth (c :: s)) hmem))
      rw [List.length_drop] at hk
      refine ⟨k + 1, by omega, ?_⟩
      rwa [List.replicate_succ, pathwise_accepts_any hc]

/-- Without `/` and wide characters the two readers agree. -/
theorem pathwise_accepts_eq (hs : 47 ∉ s) (hsingle : SingleBytes s) (p : List UInt8) :
    pathwise.accepts p s = bytewise.accepts p s := by
  induction p generalizing s with
  | nil => rfl
  | cons b p ih =>
    have hsuffix : ∀ t, t <:+ s → pathwise.accepts p t = bytewise.accepts p t := by
      intro t ht
      refine ih (fun hmem => hs (ht.subset hmem)) fun u hu => hsingle u ?_
      rw [List.mem_tails] at hu ⊢
      exact hu.trans ht
    have hstops : ∀ c ∈ s, pathwise.stops c = false := fun c hc =>
      decide_eq_false fun heq => hs (heq ▸ hc)
    rw [Reading.accepts.eq_def, Reading.accepts.eq_def]
    dsimp only
    rw [Reading.skips_eq_tails hstops, Reading.skips_eq_tails fun _ _ => rfl]
    split
    · rw [Bool.eq_iff_iff, List.any_eq_true, List.any_eq_true]
      refine exists_congr fun t => and_congr_right fun ht => ?_
      rw [hsuffix t ((List.mem_tails t s).mp ht)]
    · cases s with
      | nil => rfl
      | cons c s =>
        have hwidth : pathwise.width (c :: s) = 1 := (singleBytes_cons.mp hsingle).1
        have hrest := hsuffix s (List.suffix_cons c s)
        simp only [hstops c List.mem_cons_self, hwidth, List.drop_succ_cons, List.drop_zero, hrest]
        rfl

end Pathwise

/-- No byte of the pattern but `?` and `*` is special: it has no brackets and backslashes. -/
def Plain (p : List UInt8) : Prop := 91 ∉ p ∧ 92 ∉ p

instance (p : List UInt8) : Decidable (Plain p) := inferInstanceAs (Decidable (_ ∧ _))

/-- The two readers agree on a string for all patterns if and only if it has no `/` and no wide
character. -/
theorem pathwise_eq_bytewise_iff (s : List UInt8) :
    (∀ p, Plain p → pathwise.accepts p s = bytewise.accepts p s) ↔
      47 ∉ s ∧ SingleBytes s := by
  constructor
  · intro hagree
    have hslash : 47 ∉ s := by
      intro hmem
      have hstar := hagree [42] (by decide)
      have htrue : bytewise.accepts [42] s = true := Reading.accepts_star.mpr fun _ _ => rfl
      rw [htrue, Reading.accepts_star] at hstar
      exact absurd (hstar 47 hmem) (by decide)
    refine ⟨hslash, by_contra fun hwide => ?_⟩
    obtain ⟨k, hk, haccepts⟩ := exists_short_pathwise hslash hwide
    have hruns := hagree (List.replicate k 63) (by simp [Plain, List.mem_replicate])
    rw [haccepts, eq_comm, bytewise_accepts_replicate] at hruns
    omega
  · rintro ⟨hslash, hsingle⟩ p -
    exact pathwise_accepts_eq hslash hsingle p

end Glob
