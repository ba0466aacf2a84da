import Pluster.Lib.TextFields
import Pluster.Proto.RequestGrammar

/-!
# Beginnings of requests

`ParseRequest` asks for more data on a buffer that is not a request yet. Here are the buffers
that can still become one: the parser has come to the end of the buffer, in front of an argument,
inside a header line that is a number so far, or inside a payload for which there is room. On the
other buffers the parser asks for data that never helps: the byte of an argument is not `$`, or a
header line is no number, but its end has not come.
-/

namespace Pluster.Proto

open GoStrings GoRuntime

variable {num front line back e b rest : Bytes} {n room : ℕ} {c : UInt8} {items : List Item}

/-! ### Beginnings of lines -/

/-- The bytes behind a sign. -/
def unsigned (line : Bytes) : Bytes := if line.head? = some 45 then line.tail else line

/-- A sign, if any, and decimal digits. -/
def SignedDigits (line : Bytes) : Prop := ∀ c ∈ unsigned line, ¬ (c < 48 ∨ 57 < c)

/-- The beginning of a header line, without its line feed. More digits can follow, or the line
ends with a carriage return and its number is accepted. -/
def OpenLine (accepts : ℕ → Prop) (line : Bytes) : Prop :=
  SignedDigits line ∨
    ∃ (body : Bytes) (n : ℕ), line = body ++ [13] ∧ parseIntBytes body = some (n : ℤ) ∧ accepts n

theorem digits_of_parseDigits {acc n : ℤ} (h : parseDigits acc num = some n) :
    ∀ c ∈ num, ¬ (c < 48 ∨ 57 < c) := by
  induction num generalizing acc with
  | nil => simp
  | cons c rest ih =>
    rw [parseDigits] at h
    split at h
    · cases h
    rename_i hc
    exact List.forall_mem_cons.mpr ⟨hc, ih h⟩

theorem signedDigits_of_parseIntBytes {n : ℤ} (h : parseIntBytes num = some n) :
    SignedDigits num := by
  cases num with
  | nil => cases h
  | cons c rest =>
    rw [parseIntBytes] at h
    by_cases hsign : c = 45
    · rw [if_pos hsign] at h
      obtain ⟨m, hm, -⟩ := Option.map_eq_some_iff.mp h
      rw [SignedDigits, unsigned, hsign]
      exact digits_of_parseDigits hm
    · rw [if_neg hsign] at h
      rw [SignedDigits, unsigned, if_neg (by simpa using hsign)]
      exact digits_of_parseDigits h

theorem SignedDigits.of_prefix (h : SignedDigits line) (hfront : front <+: line) :
    SignedDigits front := by
  obtain ⟨back, rfl⟩ := hfront
  cases front with
  | nil => simp [SignedDigits, unsigned]
  | cons c rest =>
    intro x hx
    apply h x
    by_cases hsign : c = 45
    · simp only [unsigned, hsign, List.head?_cons, if_true, List.tail_cons, List.cons_append] at hx ⊢
      exact List.mem_append_left back hx
    simp only [unsigned, List.head?_cons, Option.some.injEq, hsign, if_false,
      List.cons_append] at hx ⊢
    exact List.mem_append_left back hx

theorem SignedDigits.mem (h : SignedDigits line) (hc : c ∈ line) :
    c = 45 ∨ ¬ (c < 48 ∨ 57 < c) := by
  by_cases hsign : line.head? = some 45
  · obtain ⟨digits, rfl⟩ := List.head?_eq_some_iff.mp hsign
    exact (List.mem_cons.mp hc).imp id (h c)
  rw [SignedDigits, unsigned, if_neg hsign] at h
  exact .inr (h c hc)

theorem SignedDigits.not_mem (h : SignedDigits line) (hc : c < 45) : c ∉ line := by
  intro hmem
  rcases h.mem hmem with rfl | hdigit
  · exact absurd hc (by decide)
  · exact hdigit (.inl (UInt8.lt_trans hc (by decide)))

/-- A header line that is a number and a line feed. -/
def Header.ofDigits {body : Bytes} {n : ℕ} (h : parseIntBytes body = some (n : ℤ)) : Header where
  body
  value := n
  body_no_lf := (signedDigits_of_parseIntBytes h).not_mem (by decide)
  parses := by
    have hcr : body.getLast? ≠ some 13 := fun hlast =>
      (signedDigits_of_parseIntBytes h).not_mem (by decide) (List.mem_of_getLast? hlast)
    rw [stripCR, if_neg hcr, h]

/-- A header line that ends with a carriage return and a line feed. -/
def Header.ofLine {body : Bytes} {n : ℕ} (h : parseIntBytes body = some (n : ℤ)) : Header where
  body := body ++ [13]
  value := n
  body_no_lf := by simpa using (signedDigits_of_parseIntBytes h).not_mem (by decide)
  parses := by rw [stripCR_append, h]

/-- The beginning of a header is the beginning of a line. The number matters only if nothing but
the line feed is missing. -/
theorem Header.openLine (h : Header) (hbody : front ++ back = h.body) {accepts : ℕ → Prop}
    (haccepts : back = [] → accepts h.value) : OpenLine accepts front := by
  have hdigits : SignedDigits (stripCR h.body) := signedDigits_of_parseIntBytes h.parses
  by_cases hback : back = []
  · rw [hback, List.append_nil] at hbody
    subst hbody
    by_cases hcr : h.body.getLast? = some 13
    · obtain ⟨body, hsplit⟩ := List.getLast?_eq_some_iff.mp hcr
      refine .inr ⟨body, h.value, hsplit, ?_, haccepts hback⟩
      rw [← stripCR_append body, ← hsplit]
      exact h.parses
    · rw [stripCR, if_neg hcr] at hdigits
      exact .inl hdigits
  · refine .inl (hdigits.of_prefix ?_)
    have hfront : front <+: h.body := ⟨back, hbody⟩
    have hlength := congrArg List.length hbody
    have hpos := List.length_pos_of_ne_nil hback
    rw [List.length_append] at hlength
    unfold stripCR
    split
    · apply List.prefix_of_prefix_length_le hfront (List.dropLast_prefix _)
      rw [List.length_dropLast]
      omega
    · exact hfront

/-! ### Numbers that wrap around -/

theorem digitsVal_add {acc : ℕ} (h : digitsVal acc num = some n) (k : ℕ) :
    digitsVal (acc + k) num = some (n + k * 10 ^ num.length) := by
  induction num generalizing acc k with
  | nil =>
    cases h
    simp [digitsVal]
  | cons c rest ih =>
    rw [digitsVal] at h ⊢
    obtain ⟨d, hd, h⟩ := Option.bind_eq_some_iff.mp h
    have hacc : (acc + k) * 10 + d = acc * 10 + d + k * 10 := by ring
    rw [hd, Option.bind_some, hacc, ih h, List.length_cons, pow_succ]
    congr 2
    ring

theorem digitsVal_append (front back : Bytes) (acc : ℕ) :
    digitsVal acc (front ++ back) = (digitsVal acc front).bind fun n => digitsVal n back := by
  induction front generalizing acc with
  | nil => rfl
  | cons c rest ih =>
    rw [List.cons_append, digitsVal, digitsVal, Option.bind_assoc]
    congr 1
    funext d
    exact ih _

theorem exists_digitsVal (h : ∀ c ∈ num, ¬ (c < 48 ∨ 57 < c)) (acc : ℕ) :
    ∃ n, digitsVal acc num = some n := by
  induction num generalizing acc with
  | nil => exact ⟨acc, rfl⟩
  | cons c rest ih =>
    obtain ⟨hc, hrest⟩ := List.forall_mem_cons.mp h
    have hdigit : digitVal c = some (c.toNat - 48) := by
      rw [digitVal, if_pos]
      simp only [UInt8.le_iff_toNat_le, UInt8.lt_iff_toNat_lt, UInt8.reduceToNat] at hc ⊢
      omega
    obtain ⟨n, hn⟩ := ih hrest (acc * 10 + (c.toNat - 48))
    exact ⟨n, by rw [digitsVal, hdigit, Option.bind_some, hn]⟩

/-- The last 64 digits decide about a number in 64 bits, because `2 ^ 64` divides `10 ^ 64`. -/
theorem parseDigits_append {m : ℕ} (hfront : ∀ c ∈ front, ¬ (c < 48 ∨ 57 < c))
    (hback : digitsVal 0 back = some m) (hlength : back.length = 64) :
    parseDigits 0 (front ++ back) = some (wrap64 m) := by
  obtain ⟨n, hn⟩ := exists_digitsVal hfront 0
  have hvalue : digitsVal 0 (front ++ back) = some (m + n * 10 ^ 64) := by
    have := digitsVal_add hback n
    rw [Nat.zero_add, hlength] at this
    rw [digitsVal_append, hn, Option.bind_some, this]
  have hparse := parseDigits_of_digitsVal hvalue
  have hzero : wrap64 ((0 : ℕ) : ℤ) = 0 := rfl
  rw [hzero] at hparse
  have hpow : ((m + n * 10 ^ 64 : ℕ) : ℤ) = m + ((2 ^ 64 : ℕ) : ℤ) * (n * 5 ^ 64) := by
    push_cast
    ring
  rw [hparse, wrap64, hpow, Int.add_mul_bmod_self_left, wrap64]

/-- 64 digits with the value 1, and 64 digits with the value `-1` in 64 bits. -/
def digitsOfOne : Bytes := List.replicate 63 48 ++ [49]

def digitsOfMinusOne : Bytes := List.replicate 44 48 ++ bytes "18446744073709551615"

/-- Every sign and digits are the beginning of a header of the number 1. -/
theorem exists_header_of_signedDigits (h : SignedDigits line) :
    ∃ (header : Header) (back : Bytes), header.body = line ++ back ∧ back.length = 64 ∧
      header.value = 1 := by
  have hone : digitsVal 0 digitsOfOne = some 1 := by decide +kernel
  have hminus : digitsVal 0 digitsOfMinusOne = some (2 ^ 64 - 1) := by decide +kernel
  by_cases hsign : line.head? = some 45
  · obtain ⟨digits, rfl⟩ := List.head?_eq_some_iff.mp hsign
    have hdigits : ∀ c ∈ digits, ¬ (c < 48 ∨ 57 < c) := h
    have hparse : parseIntBytes (45 :: digits ++ digitsOfMinusOne) = some ((1 : ℕ) : ℤ) := by
      rw [List.cons_append, parseIntBytes, if_pos rfl, parseDigits_append hdigits hminus rfl]
      rfl
    exact ⟨.ofDigits hparse, digitsOfMinusOne, rfl, rfl, rfl⟩
  · have hdigits : ∀ c ∈ line, ¬ (c < 48 ∨ 57 < c) := by
      rwa [SignedDigits, unsigned, if_neg hsign] at h
    have hparse : parseIntBytes (line ++ digitsOfOne) = some ((1 : ℕ) : ℤ) := by
      cases line with
      | nil => decide +kernel
      | cons c rest =>
        rw [List.cons_append, parseIntBytes, if_neg (by simpa using hsign), ← List.cons_append,
          parseDigits_append hdigits hone rfl]
        rfl
    exact ⟨.ofDigits hparse, digitsOfOne, rfl, rfl, rfl⟩

/-! ### Beginnings of arguments -/

/-- The beginning of `n` arguments that are not complete, with room for `room` more bytes. An
argument takes at least five bytes. -/
inductive OpenArgs (room : ℕ) : ℕ → Bytes → Prop
  | start {n : ℕ} : OpenArgs room (n + 1) []
  | line {n : ℕ} {line : Bytes} : 10 ∉ line →
      OpenLine (fun len => 1 + len + 2 + 5 * n ≤ room) line → OpenArgs room (n + 1) (36 :: line)
  | payload {n : ℕ} {header : Header} {front : Bytes} : front.length < header.value + 2 →
      header.value + 2 + 5 * n ≤ front.length + room →
      OpenArgs room (n + 1) (36 :: (header.bytes ++ front))
  | arg {n : ℕ} {i : Item} {rest : Bytes} : OpenArgs room n rest →
      OpenArgs room (n + 1) (i.bytes ++ rest)

/-- The beginning of an array that is not a complete request, with room for `room` more
bytes. -/
inductive OpenRequest (room : ℕ) : Bytes → Prop
  | line {line : Bytes} : 10 ∉ line → OpenLine (fun n => 0 < n ∧ MakeOk sizeofSlice n) line →
      OpenRequest room (42 :: line)
  | args {header : Header} {rest : Bytes} : MakeOk sizeofSlice header.value →
      OpenArgs room header.value rest → OpenRequest room (42 :: (header.bytes ++ rest))

theorem Item.bytes_eq (i : Item) : i.bytes = 36 :: (i.header.bytes ++ (i.payload ++ i.tail)) := by
  simp [bytes]

theorem Header.body_ne_nil (h : Header) : h.body ≠ [] := by
  intro hnil
  have hparses := h.parses
  rw [hnil] at hparses
  cases hparses

theorem Item.five_le_length (i : Item) : 5 ≤ i.bytes.length := by
  have hbody := List.length_pos_of_ne_nil i.header.body_ne_nil
  rw [i.length_bytes, Header.bytes, List.length_append, List.length_singleton]
  omega

theorem five_mul_le_length (items : List Item) :
    5 * items.length ≤ (items.flatMap Item.bytes).length := by
  induction items with
  | nil => simp
  | cons i items ih =>
    have hi := i.five_le_length
    rw [List.flatMap_cons, List.length_append, List.length_cons]
    omega

/-- What is missing of a header line is its end. -/
theorem Header.split_bytes (h : Header) (hbytes : h.bytes = front ++ back) (hback : back ≠ []) :
    ∃ more, front ++ more = h.body ∧ back = more ++ [10] := by
  have hlast : back = back.dropLast ++ [back.getLast hback] :=
    (List.dropLast_append_getLast hback).symm
  rw [Header.bytes, hlast, ← List.append_assoc] at hbytes
  obtain ⟨hbody, hten⟩ := List.append_inj' hbytes rfl
  refine ⟨back.dropLast, hbody.symm, ?_⟩
  rw [← List.singleton_inj.mp hten] at hlast
  exact hlast

/-- The front of two strings ends in the first one or behind it. -/
theorem split_front {a : Bytes} (h : front ++ e = a ++ b) :
    (∃ back, back ≠ [] ∧ a = front ++ back ∧ e = back ++ b) ∨
      ∃ more, front = a ++ more ∧ more ++ e = b := by
  rcases List.append_eq_append_iff.mp h with ⟨back, rfl, rfl⟩ | ⟨more, rfl, rfl⟩
  · by_cases hback : back = []
    · right
      exact ⟨[], by simp [hback], by simp [hback]⟩
    · exact .inl ⟨back, hback, rfl, rfl⟩
  · exact .inr ⟨more, rfl, rfl⟩

/-- The beginning of arguments. -/
theorem openArgs_of_prefix (h : rest ++ e = items.flatMap Item.bytes) (hne : e ≠ [])
    (hroom : e.length ≤ room) : OpenArgs room items.length rest := by
  induction items generalizing rest with
  | nil => exact absurd (List.append_eq_nil_iff.mp h).2 hne
  | cons i items ih =>
    cases rest with
    | nil => exact .start
    | cons c rest =>
      have hsplit : c = 36 ∧
          rest ++ e = i.header.bytes ++ ((i.payload ++ i.tail) ++ items.flatMap Item.bytes) := by
        rw [List.flatMap_cons, i.bytes_eq, List.cons_append, List.cons_append] at h
        simpa using h
      obtain ⟨rfl, hrest⟩ := hsplit
      have hitems := five_mul_le_length items
      have hpayload := i.length_payload
      have htail := i.length_tail
      rw [List.length_cons]
      rcases split_front hrest with ⟨back, hback, hbytes, rfl⟩ | ⟨front, rfl, hmore⟩
      · obtain ⟨more, hbody, rfl⟩ := i.header.split_bytes hbytes hback
        refine .line ?_ (i.header.openLine hbody ?_)
        · intro hlf
          exact i.header.body_no_lf (hbody ▸ List.mem_append_left more hlf)
        rintro rfl
        simp only [List.length_append, List.length_cons, List.length_nil] at hroom
        omega
      · rcases split_front hmore with ⟨back, hback, hend, rfl⟩ | ⟨behind, rfl, hbehind⟩
        · have hlength := congrArg List.length hend
          have hpos := List.length_pos_of_ne_nil hback
          rw [List.length_append, List.length_append] at hlength
          rw [List.length_append] at hroom
          exact .payload (by omega) (by omega)
        · have hopen : OpenArgs room (items.length + 1) (i.bytes ++ behind) := .arg (ih hbehind)
          rw [i.bytes_eq] at hopen
          simpa using hopen

theorem parseIntBytes_zero : parseIntBytes [48] = some ((0 : ℕ) : ℤ) := by decide +kernel

/-- An argument of five bytes. -/
def shortItem : Item where
  header := .ofDigits parseIntBytes_zero
  payload := []
  tail := crlf
  length_payload := rfl
  length_tail := length_crlf

theorem length_shortItems (n : ℕ) :
    ((List.replicate n shortItem).flatMap Item.bytes).length = 5 * n := by
  induction n with
  | zero => rfl
  | succ n ih =>
    rw [List.replicate_succ, List.flatMap_cons, List.length_append, ih]
    have hshort : shortItem.bytes.length = 5 := by decide
    omega

/-- The argument with a header and given bytes behind it. -/
def Item.ofHeader (header : Header) (more : Bytes) (hlength : more.length = header.value + 2) :
    Item where
  header
  payload := more.take header.value
  tail := more.drop header.value
  length_payload := by rw [List.length_take]; omega
  length_tail := by rw [List.length_drop]; omega

theorem Item.bytes_ofHeader (header : Header) (more : Bytes)
    (hlength : more.length = header.value + 2) :
    (Item.ofHeader header more hlength).bytes = 36 :: (header.bytes ++ more) := by
  rw [Item.bytes_eq]
  simp [Item.ofHeader]

/-- One argument has begun, and the others are missing. -/
theorem complete_of_header (header : Header) (line front back : Bytes)
    (hlength : (front ++ back).length = header.value + 2)
    (hrest : rest ++ line = 36 :: (header.bytes ++ front))
    (hroom : line.length + back.length + 5 * n ≤ room) :
    ∃ (items : List Item) (e : Bytes), items.length = n + 1 ∧ e.length ≤ room ∧
      rest ++ e = items.flatMap Item.bytes := by
  refine ⟨Item.ofHeader header (front ++ back) hlength :: List.replicate n shortItem,
    line ++ back ++ (List.replicate n shortItem).flatMap Item.bytes, by simp, ?_, ?_⟩
  · rw [List.length_append, List.length_append, length_shortItems]
    exact hroom
  rw [List.flatMap_cons, Item.bytes_ofHeader, ← List.append_assoc, ← List.append_assoc, hrest]
  simp

/-- Arguments that have begun can be completed. -/
theorem OpenArgs.complete (h : OpenArgs room n rest) (hroom : 68 + 5 * n ≤ room) :
    ∃ (items : List Item) (e : Bytes), items.length = n ∧ e.length ≤ room ∧
      rest ++ e = items.flatMap Item.bytes := by
  induction h with
  | @start n =>
    refine ⟨List.replicate (n + 1) shortItem, _, by simp, ?_, List.nil_append _⟩
    rw [length_shortItems]
    omega
  | @line n line _ hline =>
    rcases hline with hdigits | ⟨body, len, rfl, hparse, hfits⟩
    · obtain ⟨header, back, hbody, hlength, hvalue⟩ := exists_header_of_signedDigits hdigits
      apply complete_of_header header (back ++ [10]) [] [0, 0, 0]
      · simp [hvalue]
      · simp [Header.bytes, hbody]
      simp [hlength]
      omega
    · apply complete_of_header (.ofLine hparse) [10] [] (List.replicate (len + 2) 0)
      · simp [Header.ofLine]
      · simp [Header.bytes, Header.ofLine]
      simp
      omega
  | @payload n header front hlt hfits =>
    apply complete_of_header header [] front (List.replicate (header.value + 2 - front.length) 0)
    · simp
      omega
    · simp
    simp
    omega
  | @arg n i rest _ ih =>
    obtain ⟨items, e, hlength, he, hitems⟩ := ih (by omega)
    exact ⟨i :: items, e, by simp [hlength], he, by
      rw [List.append_assoc, hitems, List.flatMap_cons]⟩

/-! ### Beginnings of requests -/

/-- More data can make the buffer a request, and Go can hold it. -/
def Completable (b : Bytes) : Prop :=
  ∃ (e : Bytes) (req : Request) (n : ℤ), (b ++ e).length ≤ maxAlloc ∧
    parseRequest (b ++ e) = .ok (req, n)

/-- The buffer is the beginning of a request: of a line, or of an array that stops at its end. -/
def Begins (b : Bytes) : Prop :=
  b.head? ≠ some typeArray ∨ OpenRequest (maxAlloc - b.length) b

/-- A frame that Go can hold is a request. -/
theorem RequestFrame.completable (f : RequestFrame) (hbytes : b ++ e = f.bytes)
    (hlength : (b ++ e).length ≤ maxAlloc) (hmake : MakeOk sizeofSlice f.header.value) :
    Completable b := by
  have hcount : (f.items.length : ℤ) = (f.header.value : ℕ) := congrArg _ f.length_items
  refine ⟨e, f.request, f.bytes.length, hlength, ?_⟩
  rw [hbytes] at hlength ⊢
  have hparse := f.parseRequest_append [] (by rwa [List.append_nil])
  rwa [List.append_nil, makeSlice, if_pos (hcount ▸ hmake), bind_ok] at hparse

/-- A header and as many arguments are a request. -/
theorem completable_of_items {header : Header} (hitems : items.length = header.value)
    (hpos : 0 < header.value) (hmake : MakeOk sizeofSlice header.value)
    (hbytes : b ++ e = 42 :: (header.bytes ++ items.flatMap Item.bytes))
    (hlength : (b ++ e).length ≤ maxAlloc) : Completable b := by
  cases items with
  | nil =>
    rw [← hitems] at hpos
    cases hpos
  | cons first others =>
    let f : RequestFrame := ⟨header, first, others, hitems⟩
    exact f.completable hbytes hlength hmake

theorem OpenArgs.pos (h : OpenArgs room n rest) : 0 < n := by
  cases h <;> exact Nat.succ_pos _

/-- An array that has begun can be completed. -/
theorem OpenRequest.completable (h : OpenRequest (maxAlloc - b.length) b) (hb : b.length ≤ 2 ^ 43) :
    Completable b := by
  generalize hroom : maxAlloc - b.length = room at h
  have hmax : maxAlloc = 2 ^ 48 := rfl
  cases h with
  | @line line _ hline =>
    rcases hline with hdigits | ⟨body, n, rfl, hparse, hpos, hmake⟩
    · obtain ⟨header, back, hbody, hback, hvalue⟩ := exists_header_of_signedDigits hdigits
      have hbytes : 42 :: line ++ (back ++ [10] ++ [shortItem].flatMap Item.bytes) =
          42 :: (header.bytes ++ [shortItem].flatMap Item.bytes) := by
        simp [Header.bytes, hbody]
      refine completable_of_items (by simp [hvalue]) (by omega) ?_ hbytes ?_
      · rw [hvalue]
        decide
      have hshort : ([shortItem].flatMap Item.bytes).length = 5 := by decide
      rw [List.length_append, List.length_append, List.length_append, hback, hshort]
      simp only [List.length_singleton]
      omega
    · have hbytes : 42 :: (body ++ [13]) ++ (10 :: (List.replicate n shortItem).flatMap Item.bytes) =
          42 :: ((Header.ofLine hparse).bytes ++
            (List.replicate n shortItem).flatMap Item.bytes) := by
        simp [Header.bytes, Header.ofLine]
      refine completable_of_items (by simp [Header.ofLine]) hpos hmake hbytes ?_
      have hcount : n * 24 ≤ maxAlloc := by
        have := hmake.2
        unfold sizeofSlice at this
        omega
      have hshort := length_shortItems n
      rw [List.length_append]
      simp only [List.length_cons] at hb ⊢
      omega
  | @args header rest hmake hargs =>
    have hcount : header.value * 24 ≤ maxAlloc := by
      have := hmake.2
      unfold sizeofSlice at this
      omega
    obtain ⟨items, e, hlength, he, hitems⟩ := hargs.complete (by omega)
    have hbytes : 42 :: (header.bytes ++ rest) ++ e =
        42 :: (header.bytes ++ items.flatMap Item.bytes) := by
      rw [← hitems]
      simp
    refine completable_of_items hlength hargs.pos hmake hbytes ?_
    rw [List.length_append]
    omega

/-- A line that has begun can be completed: one more letter makes it a command. -/
theorem completable_of_line (hhead : b.head? ≠ some typeArray) (hline : 10 ∉ b)
    (hb : b.length ≤ 2 ^ 43) : Completable b := by
  have hmax : maxAlloc = 2 ^ 48 := rfl
  have hlength : (b ++ [120] ++ 10 :: []).length ≤ maxAlloc := by
    simp only [List.length_append, List.length_cons, List.length_nil]
    omega
  have hhead' : (b ++ [120] ++ [10]).head? ≠ some typeArray := by
    cases b with
    | nil => decide
    | cons c rest => exact hhead
  have hno : 10 ∉ b ++ [120] := by simpa using hline
  have hparse := parseRequest_line hhead' hno [] hlength
  have hstrip : stripCR (b ++ [120]) = b ++ [120] := by simp [stripCR]
  have hblank : trimSpace (b ++ [120]) ≠ [] := trimSpace_append_ne_nil b (by decide) (by decide)
  have hmake : MakeOk sizeofSlice (fields (trimSpace (b ++ [120]))).length := by
    have hfields := length_fields_le (trimSpace (b ++ [120]))
    have htrim := length_trimSpace_le (b ++ [120])
    rw [List.length_append, List.length_singleton] at htrim
    refine ⟨by omega, ?_⟩
    unfold sizeofSlice
    omega
  have hfields : inlineFields sizeofSlice (b ++ [120]) =
      .ok (fields (trimSpace (b ++ [120]))) := by
    simp only [inlineFields, if_neg hblank, makeSlice, if_pos hmake]
    rfl
  rw [hstrip, hfields, bind_ok, List.append_assoc] at hparse
  rw [List.append_assoc] at hlength
  exact ⟨_, _, _, hlength, hparse⟩

/-- On a line the parser waits for a line feed only. -/
theorem no_lf_of_incomplete (hhead : b.head? ≠ some typeArray) (hb : b.length ≤ maxAlloc)
    (h : parseRequest b = .error .incomplete) : 10 ∉ b := by
  intro hlf
  obtain ⟨line, rest, rfl, hline⟩ : ∃ line rest, b = line ++ 10 :: rest ∧ 10 ∉ line := by
    cases hidx : indexByte b 10 with
    | none =>
      rw [indexByte, List.findIdx?_eq_none_iff] at hidx
      exact absurd (hidx 10 hlf) (by decide)
    | some idx => exact ⟨_, _, split_of_indexByte hidx⟩
  rw [parseRequest_line (by simpa using hhead) hline rest hb] at h
  unfold inlineFields at h
  split at h
  · cases h
  simp only [makeSlice] at h
  split at h <;> cases h

/-- The beginning of an array. -/
theorem openRequest_of_completable (hhead : b.head? = some typeArray)
    (h : parseRequest b = .error .incomplete) (hcomplete : Completable b) :
    OpenRequest (maxAlloc - b.length) b := by
  obtain ⟨e, req, n, hlength, hparse⟩ := hcomplete
  obtain ⟨tail, rfl⟩ := List.head?_eq_some_iff.mp hhead
  obtain ⟨f, rest, hbytes, -, -, hmake⟩ :=
    RequestFrame.exists_of_parseRequest hlength (by simp) hparse
  have hcount : (f.items.length : ℤ) = (f.header.value : ℕ) := congrArg _ f.length_items
  rcases split_front hbytes with ⟨back, hback, hfront, rfl⟩ | ⟨more, hmore, -⟩
  · have hroom : back.length ≤ maxAlloc - (typeArray :: tail).length := by
      simp only [List.length_append] at hlength
      omega
    have htail : tail ++ back = f.header.bytes ++ f.items.flatMap Item.bytes := by
      have := hfront.symm
      rw [RequestFrame.bytes] at this
      simpa [typeArray] using this
    rcases split_front htail with ⟨end_, hend, hheader, rfl⟩ | ⟨args, rfl, hargs⟩
    · obtain ⟨more, hbody, rfl⟩ := f.header.split_bytes hheader hend
      refine .line ?_ (f.header.openLine hbody fun _ => ?_)
      · intro hlf
        exact f.header.body_no_lf (hbody ▸ List.mem_append_left more hlf)
      have hpos := f.length_items
      exact ⟨by omega, hcount ▸ hmake⟩
    · have hopen := openArgs_of_prefix hargs hback hroom
      rw [show f.items.length = f.header.value from f.length_items] at hopen
      exact .args (hcount ▸ hmake) hopen
  · -- The buffer is a request already.
    have hbuf : (f.bytes ++ more).length ≤ maxAlloc := by
      rw [← hmore]
      rw [List.length_append] at hlength
      omega
    rw [hmore, f.parseRequest_append more hbuf, makeSlice, if_pos hmake] at h
    cases h

/-- A buffer on which the parser asks for more data can become a request exactly if it is the
beginning of one. -/
theorem incomplete_completable_iff {b : Bytes} (hb : b.length ≤ 2 ^ 43)
    (h : parseRequest b = .error .incomplete) : Completable b ↔ Begins b := by
  have hmax : maxAlloc = 2 ^ 48 := rfl
  by_cases hhead : b.head? = some typeArray
  · constructor
    · intro hcomplete
      exact .inr (openRequest_of_completable hhead h hcomplete)
    rintro (hline | hopen)
    · exact absurd hhead hline
    · exact hopen.completable hb
  · refine iff_of_true (completable_of_line hhead ?_ hb) (.inl hhead)
    exact no_lf_of_incomplete hhead (by omega) h

theorem incomplete_completable_get :
    parseRequest (bytes "*2\r\n$3\r\nGET\r\n$1") = .error .incomplete ∧
      Completable (bytes "*2\r\n$3\r\nGET\r\n$1") := by
  have hincomplete : parseRequest (bytes "*2\r\n$3\r\nGET\r\n$1") = .error .incomplete := by
    decide +kernel
  refine ⟨hincomplete, (incomplete_completable_iff (by decide) hincomplete).mpr (.inr ?_)⟩
  have hsplit : bytes "*2\r\n$3\r\nGET\r\n$1" = 42 :: ((Header.ofNat 2 (by decide)).bytes ++
      ((Item.ofBytes (bytes "GET") (by decide)).bytes ++ [36, 49])) := by decide +kernel
  have hdigits : SignedDigits [49] := by simp [SignedDigits, unsigned]
  rw [hsplit]
  exact .args (by decide) (.arg (.line (by decide) (.inl hdigits)))

theorem not_openArgs_of_head (hc : c ≠ 36) (rest : Bytes) : ¬ OpenArgs room n (c :: rest) := by
  intro h
  generalize hb : c :: rest = b at h
  cases h with
  | start => cases hb
  | line | payload => exact hc (List.cons.inj hb).1
  | arg =>
    rw [Item.bytes_eq, List.cons_append] at hb
    exact hc (List.cons.inj hb).1

/-- Buffers that are kept for good: the byte of an argument is not `$`, and a header line that is
no number has no end yet. -/
theorem incomplete_for_good :
    (parseRequest (bytes "*1\r\nX") = .error .incomplete ∧ ¬ Completable (bytes "*1\r\nX")) ∧
      parseRequest (bytes "*X") = .error .incomplete ∧ ¬ Completable (bytes "*X") := by
  have hfirst : parseRequest (bytes "*1\r\nX") = .error .incomplete := by decide +kernel
  have hsecond : parseRequest (bytes "*X") = .error .incomplete := by decide +kernel
  refine ⟨⟨hfirst, fun hcomplete => ?_⟩, hsecond, fun hcomplete => ?_⟩
  · have hopen := openRequest_of_completable (by decide) hfirst hcomplete
    have hsplit : bytes "*1\r\nX" = 42 :: ((Header.ofNat 1 (by decide)).bytes ++ [88]) := by
      decide +kernel
    rw [hsplit] at hopen
    generalize hb : (42 : UInt8) :: (_ ++ [88]) = b at hopen
    cases hopen with
    | line hline =>
      have hlf : (10 : UInt8) ∈ _ := (List.cons.inj hb).2 ▸ List.mem_append_left _ (by decide)
      exact hline hlf
    | args _ hargs =>
      obtain ⟨-, rfl⟩ := Header.unique (List.cons.inj hb).2
      exact not_openArgs_of_head (by decide) [] hargs
  · have hopen := openRequest_of_completable (by decide) hsecond hcomplete
    have hsplit : bytes "*X" = [42, 88] := by decide
    rw [hsplit] at hopen
    generalize hb : ([42, 88] : Bytes) = b at hopen
    cases hopen with
    | line _ hline =>
      obtain rfl := (List.cons.inj hb).2
      rcases hline with hdigits | ⟨body, n, hbody, -⟩
      · exact hdigits 88 (by decide) (by decide)
      have hlast := congrArg List.getLast? hbody
      simp at hlast
    | args _ _ =>
      have hlf : (10 : UInt8) ∈ [88] := by
        rw [(List.cons.inj hb).2]
        simp [Header.bytes]
      exact absurd hlf (by decide)

end Pluster.Proto
