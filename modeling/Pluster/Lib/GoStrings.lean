import Mathlib

/-!
# Byte strings of the Go standard library

The functions of `bytes`, `strings` and `strconv` that a program over byte
slices uses, on lists of bytes, with 64-bit integers.
-/

namespace GoStrings

variable {s : List UInt8} {c : UInt8} {skip : ℕ}

/-- `bytes.IndexByte`, with `none` for a result of `-1`. -/
def indexByte (s : List UInt8) (c : UInt8) : Option ℕ := s.findIdx? (· == c)

theorem indexByte_append (hs : c ∉ s) (rest : List UInt8) :
    indexByte (s ++ c :: rest) c = some s.length := by
  have hnone : s.findIdx? (· == c) = none := by
    rw [List.findIdx?_eq_none_iff]
    intro x hx
    simp only [beq_eq_false_iff_ne]
    rintro rfl
    exact hs hx
  rw [indexByte, List.findIdx?_append, hnone, List.findIdx?_cons]
  simp

theorem split_of_indexByte {i : ℕ} (h : indexByte s c = some i) :
    s = s.take i ++ c :: s.drop (i + 1) ∧ c ∉ s.take i := by
  obtain ⟨hlt, hget, hbefore⟩ := List.findIdx?_eq_some_iff_getElem.mp h
  have hget' : s[i] = c := by simpa using hget
  refine ⟨?_, fun hmem => ?_⟩
  · rw [← hget', List.getElem_cons_drop, List.take_append_drop]
  obtain ⟨j, hj, hjc⟩ := List.getElem_of_mem hmem
  rw [List.length_take] at hj
  rw [List.getElem_take] at hjc
  have := hbefore j (by omega)
  simp [hjc] at this

/-- `bytes.HasPrefix`. -/
def hasPrefix (s pre : List UInt8) : Bool := pre.isPrefixOf s

/-- `bytes.SplitN` with a separator of one byte. -/
def splitN (s : List UInt8) (sep : UInt8) : ℕ → List (List UInt8)
  | 0 => []
  | 1 => [s]
  | n + 2 =>
    match indexByte s sep with
    | none => [s]
    | some i => s.take i :: splitN (s.drop (i + 1)) sep (n + 1)

theorem mem_of_mem_splitN {part : List UInt8} {sep : UInt8} {n : ℕ}
    (hpart : part ∈ splitN s sep n) (hc : c ∈ part) : c ∈ s := by
  fun_induction splitN s sep n with
  | case1 => cases hpart
  | case2 s =>
    cases List.mem_singleton.mp hpart
    exact hc
  | case3 s _ _ =>
    cases List.mem_singleton.mp hpart
    exact hc
  | case4 s n i _ ih =>
    rcases List.mem_cons.mp hpart with rfl | hpart
    · exact List.mem_of_mem_take hc
    · exact List.mem_of_mem_drop (ih hpart)

/-- The length of the white space character at the front of a string, `0` if there is
none. The white space of `unicode.IsSpace` is recognised by its UTF-8 encoding; no
other rune, valid or not, contains one of these encodings. -/
def spaceLen : List UInt8 → ℕ
  | 0xC2 :: 0x85 :: _ => 2
  | 0xC2 :: 0xA0 :: _ => 2
  | 0xE1 :: 0x9A :: 0x80 :: _ => 3
  | 0xE2 :: 0x80 :: c :: _ =>
    if 0x80 ≤ c ∧ c ≤ 0x8A ∨ c = 0xA8 ∨ c = 0xA9 ∨ c = 0xAF then 3 else 0
  | 0xE2 :: 0x81 :: 0x9F :: _ => 3
  | 0xE3 :: 0x80 :: 0x80 :: _ => 3
  | c :: _ => if 9 ≤ c ∧ c ≤ 13 ∨ c = 32 then 1 else 0
  | [] => 0

/-- The string is white space, after `skip` bytes of a white space character. -/
def allSpace : List UInt8 → ℕ → Bool
  | [], _ => true
  | _ :: rest, skip + 1 => allSpace rest skip
  | c :: rest, 0 =>
    match spaceLen (c :: rest) with
    | 0 => false
    | k + 1 => allSpace rest k

/-- `bytes.TrimLeft` of white space, after `skip` bytes of a white space character. -/
def trimLeft : List UInt8 → ℕ → List UInt8
  | [], _ => []
  | _ :: rest, skip + 1 => trimLeft rest skip
  | c :: rest, 0 =>
    match spaceLen (c :: rest) with
    | 0 => c :: rest
    | k + 1 => trimLeft rest k

/-- `bytes.TrimRight` of white space. -/
def trimRight : List UInt8 → List UInt8
  | [] => []
  | c :: rest => if allSpace (c :: rest) 0 then [] else c :: trimRight rest

/-- `bytes.TrimSpace`. -/
def trimSpace (s : List UInt8) : List UInt8 := trimRight (trimLeft s 0)

/-- The loop of `bytes.Fields`: `cur` is the field being read and `skip` the rest of a
white space character. -/
def fieldsLoop : List UInt8 → ℕ → List UInt8 → List (List UInt8)
  | [], _, cur => if cur = [] then [] else [cur]
  | _ :: rest, skip + 1, cur => fieldsLoop rest skip cur
  | c :: rest, 0, cur =>
    match spaceLen (c :: rest) with
    | 0 => fieldsLoop rest 0 (cur ++ [c])
    | k + 1 => (if cur = [] then [] else [cur]) ++ fieldsLoop rest k []

/-- `bytes.Fields`. -/
def fields (s : List UInt8) : List (List UInt8) := fieldsLoop s 0 []

theorem length_trimLeft_le (s : List UInt8) (skip : ℕ) : (trimLeft s skip).length ≤ s.length := by
  fun_induction trimLeft s skip with
  | case1 _ => exact le_refl _
  | case2 _ rest skip ih =>
    rw [List.length_cons]
    omega
  | case3 c rest _ => exact le_refl _
  | case4 c rest k _ ih =>
    rw [List.length_cons]
    omega

theorem length_trimRight_le (s : List UInt8) : (trimRight s).length ≤ s.length := by
  fun_induction trimRight s with
  | case1 => exact le_refl _
  | case2 c rest _ => exact Nat.zero_le _
  | case3 c rest _ ih =>
    rw [List.length_cons, List.length_cons]
    omega

theorem length_trimSpace_le (s : List UInt8) : (trimSpace s).length ≤ s.length :=
  Nat.le_trans (length_trimRight_le _) (length_trimLeft_le s 0)

theorem length_fieldsLoop_le (s : List UInt8) (skip : ℕ) (cur : List UInt8) :
    (fieldsLoop s skip cur).length ≤ s.length + if cur = [] then 0 else 1 := by
  fun_induction fieldsLoop s skip cur with
  | case1 _ => simp
  | case2 _ cur h => simp [h]
  | case3 _ rest skip cur ih =>
    rw [List.length_cons]
    omega
  | case4 c rest cur _ ih =>
    rw [if_neg (by simp)] at ih
    rw [List.length_cons]
    omega
  | case5 c rest cur k _ ih =>
    rw [if_pos rfl] at ih
    rw [List.length_append, List.length_cons]
    split <;> simp <;> omega

/-- A field takes a byte of the string. -/
theorem length_fields_le (s : List UInt8) : (fields s).length ≤ s.length := by
  have := length_fieldsLoop_le s 0 []
  rwa [if_pos rfl] at this

theorem spaceLen_of_ascii (hc : 9 ≤ c ∧ c ≤ 13 ∨ c = 32) (rest : List UInt8) :
    spaceLen (c :: rest) = 1 := by
  have hsmall : c ≤ 32 := by
    rcases hc with ⟨-, hc⟩ | rfl
    · exact UInt8.le_trans hc (by decide)
    · decide
  unfold spaceLen
  split
  case h_7 heq =>
    obtain ⟨rfl, -⟩ := List.cons.inj heq
    exact if_pos hc
  all_goals simp_all

/-- What follows a white space character does not matter. -/
theorem spaceLen_append (h : spaceLen s ≠ 0) (rest : List UInt8) :
    spaceLen (s ++ rest) = spaceLen s := by
  fun_cases spaceLen s with
  | case8 c tail _ _ _ _ _ _ hc => exact spaceLen_of_ascii hc _
  | _ => simp_all [spaceLen]

theorem trimRight_isPrefix (s : List UInt8) : trimRight s <+: s := by
  fun_induction trimRight s with
  | case1 => exact List.nil_prefix
  | case2 c rest _ => exact List.nil_prefix
  | case3 c rest _ ih => exact List.cons_prefix_cons.mpr ⟨rfl, ih⟩

theorem spaceLen_of_trimLeft {rest : List UInt8} (h : trimLeft s skip = c :: rest) :
    spaceLen (c :: rest) = 0 := by
  fun_induction trimLeft s skip with
  | case1 _ => cases h
  | case2 _ _ _ ih => exact ih h
  | case3 c' rest' hspace =>
    rw [← h]
    exact hspace
  | case4 _ _ _ _ ih => exact ih h

theorem fieldsLoop_ne_nil {cur : List UInt8} (hcur : cur ≠ []) : fieldsLoop s skip cur ≠ [] := by
  fun_induction fieldsLoop s skip cur with
  | case1 _ => exact absurd rfl hcur
  | case2 _ cur _ => exact List.cons_ne_nil _ _
  | case3 _ _ _ _ ih => exact ih hcur
  | case4 _ _ _ _ ih => exact ih (by simp)
  | case5 _ _ _ _ _ _ => simp [hcur]

/-- A string that is not blank has a field: its first byte does not start a white space
character. -/
theorem fields_trimSpace_ne_nil (h : trimSpace s ≠ []) : fields (trimSpace s) ≠ [] := by
  unfold trimSpace at h ⊢
  cases hleft : trimLeft s 0 with
  | nil =>
    rw [hleft] at h
    exact absurd rfl h
  | cons c rest =>
    have hspace := spaceLen_of_trimLeft hleft
    rw [hleft, trimRight] at h
    split at h
    · exact absurd rfl h
    rename_i hall
    have hfront : spaceLen (c :: trimRight rest) = 0 := by
      by_contra hne
      obtain ⟨tail, htail⟩ := trimRight_isPrefix rest
      have := spaceLen_append hne tail
      rw [List.cons_append, htail, hspace] at this
      exact hne this.symm
    rw [trimRight, if_neg hall, fields, fieldsLoop]
    simp only [hfront]
    exact fieldsLoop_ne_nil (by simp)

/-- The value of a decimal digit. -/
def digitVal (c : UInt8) : Option ℕ := if 48 ≤ c ∧ c ≤ 57 then some (c.toNat - 48) else none

/-- The value of a string of decimal digits, after the digits read so far. -/
def digitsVal (acc : ℕ) : List UInt8 → Option ℕ
  | [] => some acc
  | c :: rest => (digitVal c).bind fun d => digitsVal (acc * 10 + d) rest

/-- `strconv.Atoi` on a 64-bit platform. -/
def atoi (s : List UInt8) : Option ℤ :=
  let neg := s.head? = some 45
  let digits := if neg ∨ s.head? = some 43 then s.tail else s
  if digits = [] then none
  else
    (digitsVal 0 digits).bind fun n =>
      if neg then if n ≤ 2 ^ 63 then some (-n) else none
      else if n < 2 ^ 63 then some n else none

/-- `Atoi` returns 64-bit integers. -/
theorem atoi_bounds {n : ℤ} (h : atoi s = some n) : -2 ^ 63 ≤ n ∧ n < 2 ^ 63 := by
  unfold atoi at h
  extract_lets neg digits at h
  split at h
  · cases h
  obtain ⟨m, -, h⟩ := Option.bind_eq_some_iff.mp h
  split at h
  · split at h
    · cases h
      omega
    · cases h
  · split at h
    · cases h
      omega
    · cases h

/-- The decimal digits of a number in front of other bytes; `fuel` bounds their count. -/
def appendDigits : ℕ → ℕ → List UInt8 → List UInt8
  | 0, _, rest => rest
  | fuel + 1, n, rest =>
    let rest := UInt8.ofNat (48 + n % 10) :: rest
    if n < 10 then rest else appendDigits fuel (n / 10) rest

/-- `strconv.Itoa` of a number that is not negative. -/
def formatNat (n : ℕ) : List UInt8 := appendDigits (n + 1) n []

/-- `strconv.Itoa`. -/
def itoa (n : ℤ) : List UInt8 := if n < 0 then 45 :: formatNat n.natAbs else formatNat n.natAbs

/-- `strings.ToUpper`, for ASCII letters and the two other letters whose upper case is an
ASCII letter: dotless i (U+0131) and long s (U+017F). Other letters stay as they are. -/
def toUpper : List UInt8 → List UInt8
  | 0xC4 :: 0xB1 :: rest => 73 :: toUpper rest
  | 0xC5 :: 0xBF :: rest => 83 :: toUpper rest
  | c :: rest => (if 97 ≤ c ∧ c ≤ 122 then c - 32 else c) :: toUpper rest
  | [] => []

/-- `strings.ToLower`, for ASCII letters and the two other letters whose lower case is an
ASCII letter: dotted I (U+0130) and the Kelvin sign (U+212A). -/
def toLower : List UInt8 → List UInt8
  | 0xC4 :: 0xB0 :: rest => 105 :: toLower rest
  | 0xE2 :: 0x84 :: 0xAA :: rest => 107 :: toLower rest
  | c :: rest => (if 65 ≤ c ∧ c ≤ 90 then c + 32 else c) :: toLower rest
  | [] => []

private theorem lf_ne_sub (hlow : 97 ≤ c) : (10 : UInt8) ≠ c - 32 := by
  intro h
  have hnat := congrArg UInt8.toNat h
  have hlow : 97 ≤ c.toNat := UInt8.le_iff_toNat_le.mp hlow
  rw [UInt8.toNat_sub] at hnat
  have := c.toNat_lt
  simp at hnat
  omega

private theorem lf_ne_add (hlow : 65 ≤ c) (hhigh : c ≤ 90) : (10 : UInt8) ≠ c + 32 := by
  intro h
  have hnat := congrArg UInt8.toNat h
  have hlow : 65 ≤ c.toNat := UInt8.le_iff_toNat_le.mp hlow
  have hhigh : c.toNat ≤ 90 := UInt8.le_iff_toNat_le.mp hhigh
  rw [UInt8.toNat_add] at hnat
  simp at hnat
  omega

/-- Upper-casing neither adds nor removes line feeds. -/
theorem lf_mem_toUpper (s : List UInt8) : 10 ∈ toUpper s ↔ 10 ∈ s := by
  fun_induction toUpper s with
  | case1 rest ih => simp [ih]
  | case2 rest ih => simp [ih]
  | case3 c rest _ _ ih =>
    rw [List.mem_cons, List.mem_cons, ih]
    split
    · rename_i hlower
      have hne : ¬ (10 : UInt8) = c := by rintro rfl; exact absurd hlower.1 (by decide)
      simp [lf_ne_sub hlower.1, hne]
    · rfl
  | case4 => rfl

/-- Lower-casing neither adds nor removes line feeds. -/
theorem lf_mem_toLower (s : List UInt8) : 10 ∈ toLower s ↔ 10 ∈ s := by
  fun_induction toLower s with
  | case1 rest ih => simp [ih]
  | case2 rest ih => simp [ih]
  | case3 c rest _ _ ih =>
    rw [List.mem_cons, List.mem_cons, ih]
    split
    · rename_i hupper
      have hne : ¬ (10 : UInt8) = c := by rintro rfl; exact absurd hupper.1 (by decide)
      simp [lf_ne_add hupper.1 hupper.2, hne]
    · rfl
  | case4 => rfl

theorem length_toUpper_le (s : List UInt8) : (toUpper s).length ≤ s.length := by
  fun_induction toUpper s <;> simp only [List.length_cons, List.length_nil] at * <;> omega

theorem length_toLower_le (s : List UInt8) : (toLower s).length ≤ s.length := by
  fun_induction toLower s <;> simp only [List.length_cons, List.length_nil] at * <;> omega

/-- The case folding of `bytes.EqualFold`: long s folds to s and the Kelvin sign to k. -/
def foldCase : List UInt8 → List UInt8
  | 0xC5 :: 0xBF :: rest => 115 :: foldCase rest
  | 0xE2 :: 0x84 :: 0xAA :: rest => 107 :: foldCase rest
  | c :: rest => (if 65 ≤ c ∧ c ≤ 90 then c + 32 else c) :: foldCase rest
  | [] => []

/-- `bytes.EqualFold`, where one side is an ASCII string. -/
def equalFold (s t : List UInt8) : Bool := foldCase s = foldCase t

end GoStrings
