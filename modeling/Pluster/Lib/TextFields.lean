import Pluster.Lib.GoStrings

/-!
# Texts made of fields

A text is written as lines of fields, and read again with `strings.Split`,
`strings.TrimSpace` and `strings.Fields`. Nothing is lost if the fields are not empty and
contain no white space character, and the separators are ASCII characters: an ASCII
character is never part of the encoding of another one.
-/

namespace GoStrings

variable {c sep : UInt8} {s t field part : List UInt8} {skip : ℕ}
  {rest line parts : List (List UInt8)} {lines : List (List (List UInt8))}

/-- No white space character begins in the string. -/
def NoSpace (s : List UInt8) : Prop := ∀ t ∈ s.tails, spaceLen t = 0

instance (s : List UInt8) : Decidable (NoSpace s) := inferInstanceAs (Decidable (∀ _ ∈ _, _))

theorem noSpace_nil : NoSpace [] := by decide

theorem noSpace_cons : NoSpace (c :: s) ↔ spaceLen (c :: s) = 0 ∧ NoSpace s := by
  simp [NoSpace]

theorem NoSpace.spaceLen_eq (h : NoSpace s) : spaceLen s = 0 := by
  cases s with
  | nil => rfl
  | cons c s => exact (noSpace_cons.mp h).1

theorem spaceLen_le_length (s : List UInt8) : spaceLen s ≤ s.length := by
  unfold spaceLen
  split
  case h_4 => split <;> simp
  case h_7 => split <;> simp
  all_goals simp

/-- White space is recognised by three bytes. -/
theorem spaceLen_three (a b c : UInt8) (s t : List UInt8) :
    spaceLen (a :: b :: c :: s) = spaceLen (a :: b :: c :: t) := by
  unfold spaceLen
  split
  case h_7 heq =>
    obtain ⟨rfl, rfl⟩ := List.cons.inj heq
    symm
    split
    case h_7 heq' =>
      obtain ⟨rfl, rfl⟩ := List.cons.inj heq'
      rfl
    all_goals simp_all
  all_goals simp_all

/-- A white space character does not go on with an ASCII character. -/
theorem spaceLen_append_ascii (hs : s ≠ []) (hc : c < 0x80) (rest : List UInt8) :
    spaceLen (s ++ c :: rest) = spaceLen s := by
  match s with
  | [] => exact absurd rfl hs
  | [a] =>
    simp only [List.cons_append, List.nil_append]
    unfold spaceLen
    split
    case h_7 heq =>
      obtain ⟨rfl, rfl⟩ := List.cons.inj heq
      simp
    all_goals simp_all
  | [a, b] =>
    simp only [List.cons_append, List.nil_append]
    unfold spaceLen
    split
    case h_4 heq =>
      obtain ⟨rfl, rfl, rfl, rfl⟩ : a = 0xE2 ∧ b = 0x80 ∧ c = _ ∧ rest = _ := by simpa using heq
      have hne (d : UInt8) (hd : 0x80 ≤ d) : c ≠ d := by
        rintro rfl
        exact UInt8.not_le.mpr hc hd
      simp [UInt8.not_le.mpr hc, hne]
    case h_7 heq =>
      obtain ⟨rfl, rfl⟩ := List.cons.inj heq
      split <;> simp_all
    all_goals simp_all
  | a :: b :: d :: s => exact spaceLen_three a b d _ _

/-- A white space character does not go beyond an ASCII byte. -/
theorem spaceLen_append_last_le (hs : s ≠ []) (hc : c < 0x80) : spaceLen (s ++ [c]) ≤ s.length := by
  rw [spaceLen_append_ascii hs hc]
  exact spaceLen_le_length s

/-- A string is not blank if it ends with an ASCII byte that is no white space. -/
theorem allSpace_append_last (hskip : skip ≤ s.length) (hc : c < 0x80) (hspace : spaceLen [c] = 0) :
    allSpace (s ++ [c]) skip = false := by
  induction s generalizing skip with
  | nil =>
    cases Nat.le_zero.mp hskip
    rw [List.nil_append, allSpace, hspace]
  | cons a rest ih =>
    cases skip with
    | succ skip => exact ih (Nat.le_of_succ_le_succ hskip)
    | zero =>
      have hle := spaceLen_append_last_le (List.cons_ne_nil a rest) hc
      rw [List.cons_append] at hle ⊢
      rw [allSpace]
      cases hlen : spaceLen (a :: (rest ++ [c])) with
      | zero => rfl
      | succ k =>
        rw [hlen] at hle
        exact ih (Nat.le_of_succ_le_succ hle)

theorem exists_trimLeft_append (hskip : skip ≤ s.length) (hc : c < 0x80)
    (hspace : spaceLen [c] = 0) : ∃ t, trimLeft (s ++ [c]) skip = t ++ [c] := by
  induction s generalizing skip with
  | nil =>
    cases Nat.le_zero.mp hskip
    exact ⟨[], by rw [List.nil_append, trimLeft, hspace]⟩
  | cons a rest ih =>
    cases skip with
    | succ skip => exact ih (Nat.le_of_succ_le_succ hskip)
    | zero =>
      have hle := spaceLen_append_last_le (List.cons_ne_nil a rest) hc
      rw [List.cons_append] at hle ⊢
      rw [trimLeft]
      cases hlen : spaceLen (a :: (rest ++ [c])) with
      | zero => exact ⟨a :: rest, rfl⟩
      | succ k =>
        rw [hlen] at hle
        exact ih (Nat.le_of_succ_le_succ hle)

theorem trimSpace_append_ne_nil (s : List UInt8) (hc : c < 0x80) (hspace : spaceLen [c] = 0) :
    trimSpace (s ++ [c]) ≠ [] := by
  obtain ⟨t, ht⟩ := exists_trimLeft_append (Nat.zero_le s.length) hc hspace
  have hall := allSpace_append_last (Nat.zero_le t.length) hc hspace
  obtain ⟨a, rest, hcons⟩ := List.exists_cons_of_ne_nil (List.append_ne_nil_of_right_ne_nil t
    (List.cons_ne_nil c []))
  rw [trimSpace, ht, hcons, trimRight, ← hcons, hall]
  exact List.cons_ne_nil _ _

theorem spaceLen_of_visible (hlow : 32 < c) (hhigh : c < 0x80) (rest : List UInt8) :
    spaceLen (c :: rest) = 0 := by
  have hne (d : UInt8) (hd : d ≤ 32) : c ≠ d := by
    rintro rfl
    exact UInt8.not_le.mpr hlow hd
  unfold spaceLen
  split
  case h_7 heq =>
    obtain ⟨rfl, rfl⟩ := List.cons.inj heq
    have hle : ¬c ≤ 13 := UInt8.not_le.mpr (UInt8.lt_trans (by decide) hlow)
    simp [hle, hne]
  case h_4 heq =>
    obtain ⟨rfl, -⟩ := List.cons.inj heq
    exact absurd hhigh (by decide)
  all_goals simp_all

/-- A string of visible ASCII characters. -/
theorem noSpace_of_visible (h : ∀ c ∈ s, 32 < c ∧ c < 0x80) : NoSpace s := by
  induction s with
  | nil => exact noSpace_nil
  | cons c s ih =>
    have hc := h c List.mem_cons_self
    exact noSpace_cons.mpr
      ⟨spaceLen_of_visible hc.1 hc.2 s, ih fun d hd => h d (List.mem_cons_of_mem _ hd)⟩

/-- Two strings without white space, the second of which begins with an ASCII character. -/
theorem NoSpace.append (hs : NoSpace s) (ht : NoSpace (c :: t)) (hascii : c < 0x80) :
    NoSpace (s ++ c :: t) := by
  induction s with
  | nil => exact ht
  | cons d s ih =>
    obtain ⟨hfirst, hrest⟩ := noSpace_cons.mp hs
    refine noSpace_cons.mpr ⟨?_, ih hrest⟩
    exact (spaceLen_append_ascii (List.cons_ne_nil d s) hascii t).trans hfirst

/-! ### Fields -/

/-- Fields with a separator between them. -/
def join (sep : UInt8) : List (List UInt8) → List UInt8
  | [] => []
  | [field] => field
  | field :: rest => field ++ sep :: join sep rest

theorem join_cons (sep : UInt8) (field : List UInt8) (h : rest ≠ []) :
    join sep (field :: rest) = field ++ sep :: join sep rest := by
  cases rest with
  | nil => exact absurd rfl h
  | cons next rest => rfl

theorem fieldsLoop_append (h : NoSpace field) (cur rest : List UInt8) (hne : cur ++ field ≠ []) :
    fieldsLoop (field ++ 32 :: rest) 0 cur = (cur ++ field) :: fieldsLoop rest 0 [] := by
  induction field generalizing cur with
  | nil =>
    have hcur : cur ≠ [] := by simpa using hne
    have hspace : spaceLen (32 :: rest) = 1 := spaceLen_of_ascii (Or.inr rfl) rest
    simp [fieldsLoop, hspace, hcur]
  | cons c field ih =>
    obtain ⟨hfirst, hrest⟩ := noSpace_cons.mp h
    have hspace : spaceLen (c :: (field ++ 32 :: rest)) = 0 :=
      (spaceLen_append_ascii (List.cons_ne_nil c field) (by decide) rest).trans hfirst
    rw [List.cons_append, fieldsLoop, hspace]
    simpa using ih hrest (cur ++ [c]) (by simp)

theorem fieldsLoop_last (h : NoSpace field) (cur : List UInt8) (hne : cur ++ field ≠ []) :
    fieldsLoop field 0 cur = [cur ++ field] := by
  induction field generalizing cur with
  | nil =>
    have hcur : cur ≠ [] := by simpa using hne
    simp [fieldsLoop, hcur]
  | cons c field ih =>
    obtain ⟨hfirst, hrest⟩ := noSpace_cons.mp h
    rw [fieldsLoop, hfirst]
    simpa using ih hrest (cur ++ [c]) (by simp)

/-- `Fields` finds the fields of a line. -/
theorem fields_join (h : ∀ field ∈ line, field ≠ [] ∧ NoSpace field) :
    fields (join 32 line) = line := by
  unfold fields
  induction line with
  | nil => rfl
  | cons field rest ih =>
    obtain ⟨hne, hspace⟩ := h field List.mem_cons_self
    cases rest with
    | nil => exact fieldsLoop_last hspace [] (by simpa using hne)
    | cons next rest =>
      rw [join_cons _ _ (List.cons_ne_nil _ _), fieldsLoop_append hspace [] _ (by simpa using hne),
        ih fun f hf => h f (List.mem_cons_of_mem _ hf)]
      rfl

/-! ### White space around a text -/

theorem trimLeft_of_noSpace (h : spaceLen (c :: s) = 0) : trimLeft (c :: s) 0 = c :: s := by
  rw [trimLeft, h]

theorem allSpace_of_noSpace (hne : s ≠ []) (h : NoSpace s) : allSpace s 0 = false := by
  obtain ⟨c, rest, rfl⟩ := List.exists_cons_of_ne_nil hne
  rw [allSpace, h.spaceLen_eq]

/-- A text that ends with a field is not blank. -/
theorem allSpace_append (hne : field ≠ []) (hfield : NoSpace field) (hskip : skip ≤ s.length + 1) :
    allSpace (s ++ 32 :: field) skip = false := by
  have hlast := allSpace_of_noSpace hne hfield
  induction s generalizing skip with
  | nil =>
    have hspace : spaceLen (32 :: field) = 1 := spaceLen_of_ascii (Or.inr rfl) field
    rcases skip with _ | _ | skip
    · rw [List.nil_append, allSpace, hspace]
      exact hlast
    · exact hlast
    · simp at hskip
  | cons d s ih =>
    cases skip with
    | succ skip => exact ih (by simpa using hskip)
    | zero =>
      have hspace : spaceLen (d :: (s ++ 32 :: field)) = spaceLen (d :: s) :=
        spaceLen_append_ascii (List.cons_ne_nil d s) (by decide) field
      have hle := spaceLen_le_length (d :: s)
      rw [List.cons_append, allSpace, hspace]
      split
      · rfl
      rename_i k hk
      rw [hk, List.length_cons] at hle
      exact ih (by omega)

/-- White space at the end does not change whether a text is blank. -/
theorem allSpace_concat (hskip : skip ≤ s.length) :
    allSpace (s ++ [10]) skip = allSpace s skip := by
  induction s generalizing skip with
  | nil =>
    obtain rfl : skip = 0 := by simpa using hskip
    decide
  | cons c s ih =>
    cases skip with
    | succ skip => exact ih (by simpa using hskip)
    | zero =>
      have hspace : spaceLen (c :: (s ++ [10])) = spaceLen (c :: s) :=
        spaceLen_append_ascii (List.cons_ne_nil c s) (by decide) []
      have hle := spaceLen_le_length (c :: s)
      rw [List.cons_append, allSpace, allSpace, hspace]
      split
      · rfl
      rename_i k hk
      rw [hk, List.length_cons] at hle
      exact ih (by omega)

theorem trimRight_of_noSpace (h : NoSpace s) : trimRight s = s := by
  induction s with
  | nil => rfl
  | cons c s ih =>
    have hblank : allSpace (c :: s) 0 = false := allSpace_of_noSpace (List.cons_ne_nil c s) h
    rw [trimRight, hblank, ih (noSpace_cons.mp h).2]
    rfl

theorem trimRight_append (hne : field ≠ []) (hfield : NoSpace field) :
    trimRight (s ++ 32 :: field) = s ++ 32 :: field := by
  induction s with
  | nil =>
    have hblank : allSpace (32 :: field) 0 = false := by
      simpa using allSpace_append (s := []) hne hfield (Nat.zero_le 1)
    rw [List.nil_append, trimRight, hblank, trimRight_of_noSpace hfield]
    rfl
  | cons c s ih =>
    have hblank : allSpace (c :: (s ++ 32 :: field)) 0 = false := by
      simpa using allSpace_append (s := c :: s) hne hfield (Nat.zero_le _)
    rw [List.cons_append, trimRight, hblank, ih]
    rfl

theorem trimRight_concat (s : List UInt8) : trimRight (s ++ [10]) = trimRight s := by
  induction s with
  | nil => decide
  | cons c s ih =>
    have hblank : allSpace (c :: (s ++ [10])) 0 = allSpace (c :: s) 0 := by
      simpa using allSpace_concat (s := c :: s) (Nat.zero_le _)
    rw [List.cons_append, trimRight, trimRight, hblank, ih]

/-- The text begins and ends with a field. -/
def Framed (t : List UInt8) : Prop :=
  ∃ s field, t = s ++ 32 :: field ∧ s ≠ [] ∧ spaceLen s = 0 ∧ field ≠ [] ∧ NoSpace field

theorem Framed.spaceLen_eq (h : Framed t) : spaceLen t = 0 := by
  obtain ⟨s, field, rfl, hs, hfront, -, -⟩ := h
  exact (spaceLen_append_ascii hs (by decide) field).trans hfront

theorem Framed.ne_nil (h : Framed t) : t ≠ [] := by
  obtain ⟨s, field, rfl, -⟩ := h
  simp

theorem Framed.trimLeft_append (h : Framed t) (rest : List UInt8)
    (hrest : ∀ c ∈ rest.head?, c < 0x80) : trimLeft (t ++ rest) 0 = t ++ rest := by
  have hspace : spaceLen (t ++ rest) = 0 := by
    cases rest with
    | nil => simpa using h.spaceLen_eq
    | cons c rest => exact (spaceLen_append_ascii h.ne_nil (hrest c rfl) rest).trans h.spaceLen_eq
  obtain ⟨c, tail, ht⟩ := List.exists_cons_of_ne_nil h.ne_nil
  rw [ht, List.cons_append] at hspace ⊢
  exact trimLeft_of_noSpace hspace

theorem Framed.trimRight (h : Framed t) : trimRight t = t := by
  obtain ⟨s, field, rfl, -, -, hne, hfield⟩ := h
  exact trimRight_append hne hfield

/-- `TrimSpace` takes nothing from the text, -/
theorem Framed.trimSpace (h : Framed t) : trimSpace t = t := by
  have hleft := h.trimLeft_append [] (by simp)
  rw [List.append_nil] at hleft
  rw [GoStrings.trimSpace, hleft, h.trimRight]

/-- and only the line feed after it. -/
theorem Framed.trimSpace_concat (h : Framed t) : GoStrings.trimSpace (t ++ [10]) = t := by
  rw [GoStrings.trimSpace, h.trimLeft_append [10] (by simp), trimRight_concat, h.trimRight]

/-- A text in front of it, with a line feed between them. -/
theorem Framed.append {u : List UInt8} (ht : Framed t) (hu : Framed u) : Framed (t ++ 10 :: u) := by
  obtain ⟨s, field, rfl, hs, hfront, hne, hfield⟩ := hu
  refine ⟨t ++ 10 :: s, field, by simp, by simp, ?_, hne, hfield⟩
  exact (spaceLen_append_ascii ht.ne_nil (by decide) s).trans ht.spaceLen_eq

/-! ### Lines -/

/-- The loop of `strings.Split` with a separator of one byte. -/
def splitLoop (sep : UInt8) : List UInt8 → List UInt8 → List (List UInt8)
  | [], cur => [cur]
  | c :: rest, cur => if c = sep then cur :: splitLoop sep rest [] else splitLoop sep rest (cur ++ [c])

/-- `strings.Split` with a separator of one byte. -/
def split (s : List UInt8) (sep : UInt8) : List (List UInt8) := splitLoop sep s []

theorem splitLoop_append (h : sep ∉ part) (cur rest : List UInt8) :
    splitLoop sep (part ++ sep :: rest) cur = (cur ++ part) :: splitLoop sep rest [] := by
  induction part generalizing cur with
  | nil => simp [splitLoop]
  | cons c part ih =>
    obtain ⟨hc, hpart⟩ := not_or.mp (fun hor => h (List.mem_cons.mpr hor))
    rw [List.cons_append, splitLoop, if_neg (Ne.symm hc), ih hpart]
    simp

theorem splitLoop_last (h : sep ∉ part) (cur : List UInt8) :
    splitLoop sep part cur = [cur ++ part] := by
  induction part generalizing cur with
  | nil => simp [splitLoop]
  | cons c part ih =>
    obtain ⟨hc, hpart⟩ := not_or.mp (fun hor => h (List.mem_cons.mpr hor))
    rw [splitLoop, if_neg (Ne.symm hc), ih hpart]
    simp

/-- `Split` finds the parts that were joined. -/
theorem split_join (hne : parts ≠ []) (h : ∀ part ∈ parts, sep ∉ part) :
    split (join sep parts) sep = parts := by
  unfold split
  induction parts with
  | nil => exact absurd rfl hne
  | cons part rest ih =>
    have hpart := h part List.mem_cons_self
    cases rest with
    | nil => exact splitLoop_last hpart []
    | cons next rest =>
      rw [join_cons _ _ (List.cons_ne_nil _ _), splitLoop_append hpart [],
        ih (List.cons_ne_nil _ _) fun p hp => h p (List.mem_cons_of_mem _ hp)]
      rfl

theorem NoSpace.lf_notMem (h : NoSpace s) : 10 ∉ s := by
  induction s with
  | nil => simp
  | cons c s ih =>
    obtain ⟨hfirst, hrest⟩ := noSpace_cons.mp h
    intro hmem
    rcases List.mem_cons.mp hmem with rfl | hmem
    · rw [spaceLen_of_ascii (Or.inl (by decide))] at hfirst
      cases hfirst
    · exact ih hrest hmem

/-- A line of at least two fields. -/
structure IsLine (line : List (List UInt8)) : Prop where
  two : 2 ≤ line.length
  field : ∀ f ∈ line, f ≠ [] ∧ NoSpace f

/-- A text of lines, each with its line feed. -/
def text (lines : List (List (List UInt8))) : List UInt8 :=
  lines.flatMap fun line => join 32 line ++ [10]

theorem mem_join (h : c ∈ join sep parts) : c = sep ∨ ∃ part ∈ parts, c ∈ part := by
  fun_induction join sep parts with
  | case1 => cases h
  | case2 part => exact .inr ⟨part, List.mem_cons_self, h⟩
  | case3 part rest _ ih =>
    rcases List.mem_append.mp h with hpart | hrest
    · exact .inr ⟨part, List.mem_cons_self, hpart⟩
    rcases List.mem_cons.mp hrest with rfl | hrest
    · exact .inl rfl
    refine (ih hrest).imp_right ?_
    rintro ⟨p, hp, hc⟩
    exact ⟨p, List.mem_cons_of_mem _ hp, hc⟩

theorem mem_join_of_mem (hpart : part ∈ parts) (hc : c ∈ part) : c ∈ join sep parts := by
  fun_induction join sep parts with
  | case1 => cases hpart
  | case2 first =>
    rw [← List.mem_singleton.mp hpart]
    exact hc
  | case3 first rest _ ih =>
    rcases List.mem_cons.mp hpart with rfl | hrest
    · exact List.mem_append_left _ hc
    · exact List.mem_append_right _ (List.mem_cons_of_mem _ (ih hrest))

theorem framed_fields {first : List UInt8} (hrest : rest ≠ [])
    (h : ∀ field ∈ first :: rest, field ≠ [] ∧ NoSpace field) :
    Framed (join 32 (first :: rest)) := by
  obtain ⟨hne, hfirst⟩ := h first List.mem_cons_self
  induction rest generalizing first with
  | nil => exact absurd rfl hrest
  | cons next rest ih =>
    rw [join_cons _ _ (List.cons_ne_nil _ _)]
    have htail : ∀ field ∈ next :: rest, field ≠ [] ∧ NoSpace field :=
      fun field hfield => h field (List.mem_cons_of_mem _ hfield)
    obtain ⟨hnext, hspace⟩ := htail next List.mem_cons_self
    cases rest with
    | nil => exact ⟨first, next, rfl, hne, hfirst.spaceLen_eq, hnext, hspace⟩
    | cons other rest =>
      obtain ⟨s, field, heq, -, -, hfield, hlast⟩ :=
        ih (List.cons_ne_nil _ _) htail hnext hspace
      refine ⟨first ++ 32 :: s, field, ?_, by simp, ?_, hfield, hlast⟩
      · rw [heq]
        simp
      · exact (spaceLen_append_ascii hne (by decide) s).trans hfirst.spaceLen_eq

theorem IsLine.framed (h : IsLine line) : Framed (join 32 line) := by
  have htwo := h.two
  match line with
  | [] => cases htwo
  | [_] => exact absurd htwo (by simp)
  | first :: next :: rest => exact framed_fields (List.cons_ne_nil next rest) h.field

theorem IsLine.lf_notMem (h : IsLine line) : 10 ∉ join 32 line := by
  intro hmem
  rcases mem_join hmem with heq | ⟨field, hfield, hc⟩
  · cases heq
  · exact (h.field field hfield).2.lf_notMem hc

theorem IsLine.fields (h : IsLine line) : GoStrings.fields (join 32 line) = line := fields_join h.field

theorem framed_join {lines : List (List UInt8)} (hne : lines ≠ []) (h : ∀ l ∈ lines, Framed l) :
    Framed (join 10 lines) := by
  induction lines with
  | nil => exact absurd rfl hne
  | cons l rest ih =>
    have hl := h l List.mem_cons_self
    cases rest with
    | nil => exact hl
    | cons next rest =>
      have hrest := ih (List.cons_ne_nil _ _) fun l hl => h l (List.mem_cons_of_mem _ hl)
      rw [join_cons _ _ (List.cons_ne_nil _ _)]
      exact hl.append hrest

theorem text_eq (hne : lines ≠ []) : text lines = join 10 (lines.map (join 32)) ++ [10] := by
  unfold text
  induction lines with
  | nil => exact absurd rfl hne
  | cons line rest ih =>
    cases rest with
    | nil => simp [join]
    | cons next rest =>
      have hrest := ih (List.cons_ne_nil next rest)
      have hjoin : join 10 ((line :: next :: rest).map (join 32)) =
          join 32 line ++ 10 :: join 10 ((next :: rest).map (join 32)) := join_cons 10 _ (by simp)
      rw [List.flatMap_cons, hrest, hjoin]
      simp only [List.append_assoc, List.cons_append, List.nil_append]

/-- The lines of a text, as a program finds them that trims the text and splits it. -/
theorem split_text (hne : lines ≠ []) (h : ∀ line ∈ lines, IsLine line) :
    split (trimSpace (text lines)) 10 = lines.map (join 32) := by
  have hframed : Framed (join 10 (lines.map (join 32))) := by
    refine framed_join (by simpa using hne) fun l hl => ?_
    obtain ⟨line, hline, rfl⟩ := List.mem_map.mp hl
    exact (h line hline).framed
  rw [text_eq hne, hframed.trimSpace_concat]
  refine split_join (by simpa using hne) fun l hl => ?_
  obtain ⟨line, hline, rfl⟩ := List.mem_map.mp hl
  exact (h line hline).lf_notMem

end GoStrings
