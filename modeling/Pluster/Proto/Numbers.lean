import Pluster.Proto.OpenRequests

/-!
# The numbers of the protocol

`parseIntBytes` computes the number that a line writes modulo `2 ^ 64`, and it takes a sign
alone for zero. On every other line it is exact.
-/

namespace Pluster.Proto

open GoStrings GoRuntime

variable {n v : ℤ} {num b : Bytes}

/-- The line is a sign, if any, and decimal digits with this value. -/
def Writes (b : Bytes) (v : ℤ) : Prop :=
  ∃ num n, IsNumeral num n ∧ (b = num ∧ v = n ∨ b = 45 :: num ∧ v = -n)

/-- The range of `int64`. -/
def IsInt64 (n : ℤ) : Prop := -2 ^ 63 ≤ n ∧ n < 2 ^ 63

theorem IsInt64.wrap64_eq_self (h : IsInt64 n) : wrap64 n = n :=
  GoRuntime.wrap64_eq_self h.1 h.2

theorem IsNumeral.parseDigits {n : ℕ} (h : IsNumeral num n) :
    parseDigits 0 num = some (wrap64 n) := by
  have hparse := parseDigits_of_digitsVal h.2
  rwa [show wrap64 ((0 : ℕ) : ℤ) = 0 from rfl] at hparse

theorem IsNumeral.head_ne {n : ℕ} (h : IsNumeral num n) : 45 ∉ num := fun hmem =>
  digits_of_digitsVal h.2 45 hmem (by decide)

theorem not_writes_sign (v : ℤ) : ¬ Writes [45] v := by
  rintro ⟨num, n, h, ⟨rfl, -⟩ | ⟨hnum, -⟩⟩
  · exact h.head_ne (List.mem_singleton_self _)
  · exact h.1 (List.cons.inj hnum).2.symm

/-- A line writes one number. -/
theorem Writes.unique {w : ℤ} (hv : Writes b v) (hw : Writes b w) : v = w := by
  obtain ⟨num, n, h, ⟨rfl, rfl⟩ | ⟨rfl, rfl⟩⟩ := hv <;>
    obtain ⟨num', n', h', ⟨hnum, rfl⟩ | ⟨hnum, rfl⟩⟩ := hw
  · rw [hnum] at h
    rw [Option.some.inj (h.2.symm.trans h'.2)]
  · exact absurd (hnum ▸ List.mem_cons_self) h.head_ne
  · exact absurd (hnum ▸ List.mem_cons_self) h'.head_ne
  · rw [(List.cons.inj hnum).2] at h
    rw [Option.some.inj (h.2.symm.trans h'.2)]

/-- A line that writes a number is read as that number in 64 bits. -/
theorem Writes.parseIntBytes (hwrites : Writes b v) : parseIntBytes b = some (wrap64 v) := by
  obtain ⟨num, n, h, ⟨rfl, rfl⟩ | ⟨rfl, rfl⟩⟩ := hwrites
  · obtain ⟨c, rest, rfl⟩ := List.exists_cons_of_ne_nil h.1
    have hc : c ≠ 45 := fun hc => h.head_ne (hc ▸ List.mem_cons_self)
    rw [Proto.parseIntBytes, if_neg hc, h.parseDigits]
  · have hneg : wrap64 (-wrap64 n) = wrap64 (-n) := by
      simp only [wrap64, Int.bmod_def]
      omega
    rw [Proto.parseIntBytes, if_pos rfl, h.parseDigits, Option.map_some, hneg]

/-- What is read as a number writes one, or is a sign alone. -/
theorem writes_of_parseIntBytes (h : parseIntBytes b = some n) (hsign : b ≠ [45]) :
    ∃ m, Writes b m := by
  have hdigits := signedDigits_of_parseIntBytes h
  by_cases hminus : b.head? = some 45
  · obtain ⟨num, rfl⟩ := List.head?_eq_some_iff.mp hminus
    obtain ⟨m, hm⟩ := exists_digitsVal hdigits 0
    exact ⟨_, num, m, ⟨fun hnil => hsign (by rw [hnil]), hm⟩, .inr ⟨rfl, rfl⟩⟩
  rw [SignedDigits, unsigned, if_neg hminus] at hdigits
  obtain ⟨m, hm⟩ := exists_digitsVal hdigits 0
  refine ⟨_, b, m, ⟨?_, hm⟩, .inl ⟨rfl, rfl⟩⟩
  rintro rfl
  cases h

/-- `parseIntBytes` is exact on a line unless the line is a sign alone or writes a number that
is out of range. -/
theorem parseIntBytes_exact_iff (b : Bytes) :
    (∀ n, parseIntBytes b = some n ↔ Writes b n ∧ IsInt64 n) ↔
      b ≠ [45] ∧ ∀ n, Writes b n → IsInt64 n := by
  constructor
  · intro hexact
    refine ⟨?_, fun n hn => ?_⟩
    · rintro rfl
      exact not_writes_sign 0 ((hexact 0).mp rfl).1
    · -- Both numbers are written on the line, so they are the same.
      obtain ⟨hwrap, hrange⟩ := (hexact (wrap64 n)).mp hn.parseIntBytes
      rwa [hn.unique hwrap]
  · rintro ⟨hsign, hrange⟩ n
    constructor
    · intro hparse
      obtain ⟨m, hm⟩ := writes_of_parseIntBytes hparse hsign
      have hrange := hrange m hm
      have heq := hm.parseIntBytes
      rw [hrange.wrap64_eq_self, hparse, Option.some.injEq] at heq
      exact heq ▸ ⟨hm, hrange⟩
    · rintro ⟨hwrites, hrange⟩
      rw [hwrites.parseIntBytes, hrange.wrap64_eq_self]

/-- A sign alone is read as zero, and a count of `2 ^ 64 + 1` as one: a request that announces it
is accepted with one argument. -/
theorem parseIntBytes_inexact :
    (parseIntBytes (bytes "-") = some 0 ∧ ¬ Writes (bytes "-") 0) ∧
      (Writes (bytes "18446744073709551617") (2 ^ 64 + 1) ∧
        parseIntBytes (bytes "18446744073709551617") = some 1 ∧
        (parseRequest (bytes "*18446744073709551617\r\n$4\r\nPING\r\n")).map
          (fun r => r.1.args) = .ok [bytes "PING"]) := by
  refine ⟨⟨rfl, not_writes_sign 0⟩, ⟨_, 2 ^ 64 + 1, ⟨by decide, ?_⟩, .inl ⟨rfl, rfl⟩⟩, ?_, ?_⟩
  · decide +kernel
  · decide +kernel
  · decide +kernel

end Pluster.Proto
