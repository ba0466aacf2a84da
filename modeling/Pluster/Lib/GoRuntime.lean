import Mathlib

/-!
# Machine integers and slices of Go

64-bit `int` arithmetic, and the index, slice and `make` expressions that the
run time checks. They return `none` where Go panics. An upper bound between the
length and the capacity of a slice, which Go allows, counts as out of range here.
-/

namespace GoRuntime

/-- The value of an integer as a 64-bit `int`. -/
def wrap64 (n : ℤ) : ℤ := Int.bmod n (2 ^ 64)

theorem wrap64_eq_self {n : ℤ} (hlow : -2 ^ 63 ≤ n) (hhigh : n < 2 ^ 63) : wrap64 n = n := by
  simp only [wrap64, Int.bmod_def]
  omega

theorem wrap64_bounds (n : ℤ) : -2 ^ 63 ≤ wrap64 n ∧ wrap64 n < 2 ^ 63 := by
  simp only [wrap64, Int.bmod_def]
  omega

/-- An integer in the upper half of the unsigned range wraps to a negative one. -/
theorem wrap64_neg {n : ℤ} (hlow : 2 ^ 63 ≤ n) (hhigh : n < 2 ^ 64) : wrap64 n < 0 := by
  simp only [wrap64, Int.bmod_def]
  omega

theorem wrap64_wrap64_add (m n : ℤ) : wrap64 (wrap64 m + n) = wrap64 (m + n) := by
  simp only [wrap64, Int.bmod_def]
  omega

/-- The size of the address space on amd64, in bytes: the limit of `make`. -/
def maxAlloc : ℕ := 2 ^ 48

/-- A `make` of `n` elements of the given size is in range. -/
def MakeOk (size n : ℤ) : Prop := 0 ≤ n ∧ n * size ≤ maxAlloc

instance (size n : ℤ) : Decidable (MakeOk size n) := inferInstanceAs (Decidable (_ ∧ _))

variable {α : Type*}

/-- The index expression `s[i]`. -/
def index (s : List α) (i : ℤ) : Option α := if 0 ≤ i then s[i.toNat]? else none

/-- The slice expression `s[lo:hi]`. -/
def slice (s : List α) (lo hi : ℤ) : Option (List α) :=
  if 0 ≤ lo ∧ lo ≤ hi ∧ hi ≤ s.length then some ((s.drop lo.toNat).take (hi - lo).toNat) else none

theorem index_natCast (s : List α) (i : ℕ) : index s i = s[i]? := by simp [index]

theorem index_of_neg (s : List α) {i : ℤ} (h : i < 0) : index s i = none := by
  rw [index, if_neg (by omega)]

theorem slice_natCast {s : List α} {lo hi : ℕ} (hle : lo ≤ hi) (hhi : hi ≤ s.length) :
    slice s lo hi = some ((s.drop lo).take (hi - lo)) := by
  have hlength : ((hi : ℤ) - lo).toNat = hi - lo := by omega
  rw [slice, if_pos (by omega), Int.toNat_natCast, hlength]

theorem slice_bounds {s t : List α} {lo hi : ℤ} (h : slice s lo hi = some t) :
    0 ≤ lo ∧ lo ≤ hi ∧ hi ≤ s.length := by
  unfold slice at h
  split at h
  · assumption
  · cases h

theorem slice_eq_none {s : List α} {lo hi : ℤ} (h : hi < lo ∨ (s.length : ℤ) < hi) :
    slice s lo hi = none := by
  rw [slice, if_neg (by omega)]

end GoRuntime
