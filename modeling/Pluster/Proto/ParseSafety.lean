import Pluster.Proto.Parse

/-!
# Safety of the buffer parsers

A parser of a buffer reads lengths that the sender declares: the end of each
bulk string and the number of elements of each array. `walkRequest` and
`walkValue` collect them with exact arithmetic, in the order in which the parser
meets them, up to the end of the value or to the place where it stops. The
parsers are safe exactly if all these lengths are in range.
-/

namespace Pluster.Proto

open GoStrings GoRuntime

variable {last len k : ℕ} {buf line b : Bytes}
  {pos n cur size : ℤ} {ε α β : Type} {a : α} {result : Parse (α × ℤ)}
  {spans : List (ℤ × ℤ)}

/-- A length that a parser reads from the buffer. -/
inductive Declared
  /-- A bulk string that would end at this position. -/
  | bulkEnd (need : ℕ)
  /-- A slice of this many elements of the given size. -/
  | elems (size : ℤ) (count : ℕ)

/-- The length is one that Go can handle: the end of a bulk string is an `int`, and a
slice of elements can be made. -/
def Declared.InRange : Declared → Prop
  | .bulkEnd need => need < 2 ^ 63
  | .elems size count => MakeOk size count

instance : DecidablePred Declared.InRange
  | .bulkEnd need => inferInstanceAs (Decidable (need < 2 ^ 63))
  | .elems size count => inferInstanceAs (Decidable (MakeOk size count))

/-- What a parser meets: the declared lengths, and the position after the value if
the buffer holds all of it. -/
structure Walk where
  declared : List Declared := []
  stop : Option ℕ := none

variable {w : Walk} {next : Bytes → ℕ → Walk} {walk : ℕ → Walk}

/-- All declared lengths are in range. -/
def Walk.Safe (w : Walk) : Prop := ∀ d ∈ w.declared, d.InRange

instance (w : Walk) : Decidable w.Safe :=
  inferInstanceAs (Decidable (∀ d ∈ w.declared, d.InRange))

/-- The walk with one more length in front. -/
def Walk.cons (d : Declared) (w : Walk) : Walk := { w with declared := d :: w.declared }

@[simp] theorem Walk.safe_stop (stop : Option ℕ) : Walk.Safe { stop := stop } := by
  simp [Walk.Safe]

@[simp] theorem Walk.safe_cons (d : Declared) (w : Walk) :
    (w.cons d).Safe ↔ d.InRange ∧ w.Safe := by
  simp [Walk.Safe, Walk.cons]

@[simp] theorem Walk.stop_cons (d : Declared) (w : Walk) : (w.cons d).stop = w.stop := rfl

/-- One walk after another. -/
def Walk.append (w : Walk) (next : ℕ → Walk) : Walk :=
  match w.stop with
  | none => w
  | some last => ⟨w.declared ++ (next last).declared, (next last).stop⟩

theorem Walk.safe_append {next : ℕ → Walk} (hstop : w.stop = some last) :
    (w.append next).Safe ↔ w.Safe ∧ (next last).Safe := by
  simp only [Walk.append, hstop, Walk.Safe, List.mem_append]
  constructor
  · exact fun hall => ⟨fun d hd => hall d (Or.inl hd), fun d hd => hall d (Or.inr hd)⟩
  rintro ⟨hfirst, hrest⟩ d (hd | hd)
  · exact hfirst d hd
  · exact hrest d hd

/-- The line at a position and the position after it. -/
def lineAt (buf : Bytes) (pos : ℕ) : Option (Bytes × ℕ) :=
  (indexByte (buf.drop pos) 10).map fun idx =>
    (stripCR ((buf.drop pos).take idx), pos + idx + 1)

/-- Go on with the line at a position. -/
def walkLine (buf : Bytes) (pos : ℕ) (next : Bytes → ℕ → Walk) : Walk :=
  match lineAt buf pos with
  | none => {}
  | some (line, last) => next line last

/-- The payload of a bulk string of a declared length. -/
def walkBulk (buf : Bytes) (last len : ℕ) : Walk :=
  let need := last + len + 2
  Walk.cons (.bulkEnd need) { stop := if need ≤ buf.length then some need else none }

/-- The loop over the elements of an array. -/
def walkElems (walk : ℕ → Walk) : ℕ → ℕ → Walk
  | 0, cur => { stop := some cur }
  | n + 1, cur => (walk cur).append (walkElems walk n)

/-- The fields of an inline command. -/
def walkInline (size : ℤ) (line : Bytes) (last : ℕ) : Walk :=
  if trimSpace line = [] then {}
  else Walk.cons (.elems size (fields (trimSpace line)).length) { stop := some last }

/-- One argument of a request. -/
def walkArg (buf : Bytes) (cur : ℕ) : Walk :=
  if buf[cur]? = some typeBulkString then
    walkLine buf (cur + 1) fun line last =>
      match parseIntBytes line with
      | none => {}
      | some len => if len < 0 then {} else walkBulk buf last len.toNat
  else {}

/-- The lengths that `ParseRequest` meets. -/
def walkRequest (buf : Bytes) : Walk :=
  if buf = [] then {}
  else if buf[0]? = some typeArray then
    walkLine buf 1 fun line last =>
      match parseIntBytes line with
      | none => {}
      | some n =>
        if n ≤ 0 then {}
        else (walkElems (walkArg buf) n.toNat last).cons (.elems sizeofSlice n.toNat)
  else walkLine buf 0 (walkInline sizeofSlice)

/-- The two readers of values. -/
inductive ValueReader
  | parseValue
  | scanValue
  deriving DecidableEq

/-- The lengths that `ParseValue` or `ScanValue` meets at a position. `ScanValue` makes no
slices, and looks neither at the digits of an integer nor at an inline command. -/
def walkValueAt (reader : ValueReader) (buf : Bytes) : ℕ → ℕ → Walk
  | 0, _ => {}
  | fuel + 1, pos =>
    match buf[pos]? with
    | none => {}
    | some typ =>
      if typ = typeSimpleString ∨ typ = typeError then
        walkLine buf (pos + 1) fun _ last => { stop := some last }
      else if typ = typeInteger then
        walkLine buf (pos + 1) fun line last =>
          if reader = .parseValue ∧ parseIntBytes line = none then {} else { stop := some last }
      else if typ = typeBulkString then
        walkLine buf (pos + 1) fun line last =>
          match parseIntBytes line with
          | none => {}
          | some len => if len < 0 then { stop := some last } else walkBulk buf last len.toNat
      else if typ = typeArray then
        walkLine buf (pos + 1) fun line last =>
          match parseIntBytes line with
          | none => {}
          | some n =>
            if n < 0 then { stop := some last }
            else
              let w := walkElems (walkValueAt reader buf fuel) n.toNat last
              if reader = .parseValue then w.cons (.elems sizeofPointer n.toNat) else w
      else
        walkLine buf pos fun line last =>
          if reader = .parseValue then walkInline sizeofPointer line last
          else { stop := some last }

/-- The lengths that a reader of values meets. -/
def walkValue (reader : ValueReader) (buf : Bytes) : Walk :=
  walkValueAt reader buf (buf.length + 1) 0

/-! ### Where a walk stops -/

/-- The walk goes forward and stays in the buffer. -/
def Walk.Within (w : Walk) (buf : Bytes) (pos : ℕ) : Prop :=
  ∀ last, w.stop = some last → pos < last ∧ last ≤ buf.length

theorem lineAt_bounds {pos : ℕ} (h : lineAt buf pos = some (line, last)) :
    pos < last ∧ last ≤ buf.length := by
  obtain ⟨idx, hidx, heq⟩ := Option.map_eq_some_iff.mp h
  obtain ⟨hlt, -⟩ := List.findIdx?_eq_some_iff_getElem.mp hidx
  rw [List.length_drop] at hlt
  obtain ⟨-, rfl⟩ := Prod.mk.inj heq
  omega

theorem walkLine_within {pos start : ℕ} (hstart : start ≤ pos)
    (hnext : ∀ line last, pos < last → last ≤ buf.length →
      ∀ k, (next line last).stop = some k → last ≤ k ∧ k ≤ buf.length) :
    (walkLine buf pos next).Within buf start := by
  intro k hk
  unfold walkLine at hk
  cases hline : lineAt buf pos with
  | none => simp [hline] at hk
  | some found =>
    obtain ⟨line, last⟩ := found
    obtain ⟨hlt, hle⟩ := lineAt_bounds hline
    rw [hline] at hk
    have := hnext line last hlt hle k hk
    omega

theorem walkBulk_stop (h : (walkBulk buf last len).stop = some k) :
    k = last + len + 2 ∧ k ≤ buf.length := by
  simp only [walkBulk, Walk.stop_cons] at h
  split at h
  · cases h
    omega
  · cases h

theorem walkBulk_safe : (walkBulk buf last len).Safe ↔ last + len + 2 < 2 ^ 63 := by
  simp [walkBulk, Declared.InRange]

theorem walkElems_stop (hwalk : ∀ pos, (walk pos).Within buf pos) {n cur : ℕ}
    (hcur : cur ≤ buf.length) (h : (walkElems walk n cur).stop = some k) :
    cur ≤ k ∧ k ≤ buf.length := by
  induction n generalizing cur with
  | zero =>
    simp only [walkElems, Option.some.injEq] at h
    omega
  | succ n ih =>
    simp only [walkElems, Walk.append] at h
    cases hstop : (walk cur).stop with
    | none =>
      rw [hstop] at h
      simp [hstop] at h
    | some next =>
      obtain ⟨hlt, hle⟩ := hwalk cur next hstop
      rw [hstop] at h
      have := ih hle h
      omega

theorem walkArg_within (buf : Bytes) (cur : ℕ) : (walkArg buf cur).Within buf cur := by
  unfold walkArg
  split
  · refine walkLine_within (Nat.le_succ cur) fun line last _ hlast k hk => ?_
    split at hk
    · cases hk
    split at hk
    · cases hk
    have := walkBulk_stop hk
    omega
  · intro k hk
    cases hk

theorem walkInline_stop (h : (walkInline size line last).stop = some k) : k = last := by
  unfold walkInline at h
  split at h
  · cases h
  · exact (Option.some.inj h).symm

theorem walkValueAt_within (reader : ValueReader) (buf : Bytes) (fuel pos : ℕ) :
    (walkValueAt reader buf fuel pos).Within buf pos := by
  induction fuel generalizing pos with
  | zero =>
    intro k hk
    cases hk
  | succ fuel ih =>
    unfold walkValueAt
    split
    · intro k hk
      cases hk
    split
    · refine walkLine_within (Nat.le_succ pos) fun _ last _ hlast k hk => ?_
      cases hk
      omega
    split
    · refine walkLine_within (Nat.le_succ pos) fun line last _ hlast k hk => ?_
      split at hk
      · cases hk
      cases hk
      omega
    split
    · refine walkLine_within (Nat.le_succ pos) fun line last _ hlast k hk => ?_
      split at hk
      · cases hk
      split at hk
      · cases hk
        omega
      have := walkBulk_stop hk
      omega
    split
    · refine walkLine_within (Nat.le_succ pos) fun line last _ hlast k hk => ?_
      split at hk
      · cases hk
      split at hk
      · cases hk
        omega
      simp only at hk
      split at hk
      · exact walkElems_stop ih hlast hk
      · exact walkElems_stop ih hlast hk
    · refine walkLine_within (le_refl pos) fun line last _ hlast k hk => ?_
      split at hk
      · rw [walkInline_stop hk]
        omega
      cases hk
      omega

/-! ### The parsers follow the walk -/

/-- The parser stops where the walk stops, and panics if a length is out of range. -/
def Agrees {α : Type} (result : Parse (α × ℤ)) (w : Walk) : Prop :=
  (w.Safe → match w.stop with
    | some last => ∃ a, result = .ok (a, (last : ℤ))
    | none => result = .error .incomplete ∨ result = .error .invalidProtocol) ∧
  (¬ w.Safe → result = .error .panic)

theorem bind_ok (a : α) (f : α → Except ε β) : (Except.ok a >>= f) = f a := rfl

theorem bind_error (e : ParseError) (f : α → Parse β) : (Except.error e >>= f) = Except.error e := rfl

theorem bind_eq_ok {x : Except ε α} {f : α → Except ε β} {b : β} (h : (x >>= f) = .ok b) :
    ∃ a, x = .ok a ∧ f a = .ok b := by
  cases x with
  | error e => cases h
  | ok a => exact ⟨a, rfl, h⟩

theorem orPanic_eq_ok {x : Option α} (h : orPanic x = .ok a) : x = some a := by
  cases x with
  | none => cases h
  | some b =>
    cases h
    rfl

theorem agrees_incomplete : Agrees (.error .incomplete : Parse (α × ℤ)) {} :=
  ⟨fun _ => Or.inl rfl, fun h => absurd (Walk.safe_stop none) h⟩

theorem agrees_invalid : Agrees (.error .invalidProtocol : Parse (α × ℤ)) {} :=
  ⟨fun _ => Or.inr rfl, fun h => absurd (Walk.safe_stop none) h⟩

theorem agrees_ok (a : α) (hpos : pos = last) : Agrees (.ok (a, pos)) { stop := some last } :=
  ⟨fun _ => ⟨a, by rw [hpos]⟩, fun h => absurd (Walk.safe_stop _) h⟩

@[simp] theorem Walk.append_stop (w : Walk) : w.append (fun last => { stop := some last }) = w := by
  obtain ⟨declared, stop⟩ := w
  cases stop <;> simp [Walk.append]

theorem Agrees.bind {next : ℕ → Walk} {f : α × ℤ → Parse (β × ℤ)} (h : Agrees result w)
    (hf : ∀ a last, w.stop = some last → result = .ok (a, (last : ℤ)) →
      Agrees (f (a, (last : ℤ))) (next last)) : Agrees (result >>= f) (w.append next) := by
  obtain ⟨hsafe, hpanic⟩ := h
  cases hstop : w.stop with
  | none =>
    have hsame : w.append next = w := by simp [Walk.append, hstop]
    simp only [hstop] at hsafe
    rw [hsame]
    refine ⟨fun hall => ?_, fun hbad => by rw [hpanic hbad, bind_error]⟩
    simp only [hstop]
    rcases hsafe hall with herr | herr
    · rw [herr, bind_error]
      exact Or.inl rfl
    rw [herr, bind_error]
    exact Or.inr rfl
  | some last =>
    have hnext : (w.append next).stop = (next last).stop := by simp [Walk.append, hstop]
    simp only [hstop] at hsafe
    by_cases hfirst : w.Safe
    · obtain ⟨a, ha⟩ := hsafe hfirst
      obtain ⟨hrest, hbadRest⟩ := hf a last hstop ha
      rw [ha, bind_ok, Agrees, Walk.safe_append hstop, hnext]
      exact ⟨fun hall => hrest hall.2, fun hbad => hbadRest fun hall => hbad ⟨hfirst, hall⟩⟩
    · refine ⟨fun hall => absurd ((Walk.safe_append hstop).mp hall).1 hfirst, fun _ => ?_⟩
      rw [hpanic hfirst, bind_error]

/-- The value of a result does not matter. -/
theorem Agrees.map (h : Agrees result w) (g : α → β) :
    Agrees (result >>= fun p => .ok (g p.1, p.2)) w := by
  have hbind : Agrees (result >>= fun p => .ok (g p.1, p.2))
      (w.append fun last => { stop := some last }) := h.bind fun a last _ _ => agrees_ok (g a) rfl
  rwa [Walk.append_stop] at hbind

theorem Agrees.make (h : Agrees result w) {count : ℕ} (hn : n = count) :
    Agrees (makeSlice size n >>= fun _ => result) (w.cons (.elems size count)) := by
  subst hn
  unfold makeSlice
  split
  · rename_i hok
    refine ⟨fun hall => h.1 ((Walk.safe_cons _ _).mp hall).2, fun hbad => h.2 fun hall => hbad ?_⟩
    exact (Walk.safe_cons _ _).mpr ⟨hok, hall⟩
  rename_i hout
  exact ⟨fun hall => absurd ((Walk.safe_cons _ _).mp hall).1 hout, fun _ => rfl⟩

/-- A result comes from a walk that ends there. -/
theorem Agrees.stop {next : ℤ} (h : Agrees (.ok (a, next)) w) :
    ∃ last : ℕ, w.stop = some last ∧ next = last := by
  by_cases hsafe : w.Safe
  · have hstop := h.1 hsafe
    cases hlast : w.stop with
    | none => simp [hlast] at hstop
    | some last =>
      rw [hlast] at hstop
      obtain ⟨_, hok⟩ := hstop
      cases hok
      exact ⟨last, rfl, rfl⟩
  · cases h.2 hsafe

/-- The loop over the elements, by induction on their number. -/
theorem Agrees.elems {parse : ℤ → Parse (α × ℤ)} (start : ℕ) (hwalk : ∀ k, (walk k).Within buf k)
    (hparse : ∀ (cur : ℤ) (k : ℕ), cur = k → start ≤ k → k ≤ buf.length →
      Agrees (parse cur) (walk k)) (n : ℕ) (cur : ℤ) (k : ℕ) (hcur : cur = k) (hstart : start ≤ k)
    (hk : k ≤ buf.length) : Agrees (parseElems parse n cur) (walkElems walk n k) := by
  induction n generalizing cur k with
  | zero => exact agrees_ok [] hcur
  | succ n ih =>
    rw [parseElems, walkElems]
    refine (hparse cur k hcur hstart hk).bind fun a last hstop _ => ?_
    obtain ⟨hlt, hle⟩ := hwalk k last hstop
    exact (ih last last rfl (by omega) hle).map (fun vs => a :: vs)

section Buffer

variable {buf : Bytes}

theorem readLine_of_lineAt_none (hpos : pos = k) (hk : k ≤ buf.length) (h : lineAt buf k = none) :
    readLine buf pos = .error .incomplete := by
  have hrest : slice buf pos buf.length = some (buf.drop k) := by
    rw [hpos, slice_natCast hk (le_refl _), List.take_of_length_le (by simp)]
  rw [lineAt, Option.map_eq_none_iff] at h
  rw [readLine, hrest, orPanic, bind_ok]
  simp only [h]

variable (hbuf : buf.length ≤ maxAlloc)
include hbuf

theorem readLine_of_lineAt_some (hpos : pos = k) (hk : k ≤ buf.length)
    (h : lineAt buf k = some (line, last)) : readLine buf pos = .ok (line, (last : ℤ)) := by
  have hrest : slice buf pos buf.length = some (buf.drop k) := by
    rw [hpos, slice_natCast hk (le_refl _), List.take_of_length_le (by simp)]
  have hbounds := lineAt_bounds h
  obtain ⟨idx, hidx, heq⟩ := Option.map_eq_some_iff.mp h
  obtain ⟨rfl, hlast⟩ := Prod.mk.inj heq
  unfold maxAlloc at hbuf
  have hend : wrap64 (pos + idx) = ((k + idx : ℕ) : ℤ) := by
    rw [wrap64_eq_self (by omega) (by omega)]
    omega
  have hnext : wrap64 (wrap64 (pos + idx) + 1) = (last : ℤ) := by
    rw [wrap64_wrap64_add, wrap64_eq_self (by omega) (by omega)]
    omega
  have hline : slice buf pos (wrap64 (pos + idx)) = some ((buf.drop k).take idx) := by
    rw [hend, hpos, slice_natCast (by omega) (by omega), Nat.add_sub_cancel_left]
  rw [readLine, hrest, orPanic, bind_ok]
  simp only [hidx]
  rw [hline, orPanic, bind_ok, hnext]
  rfl

/-- The line that has been read. -/
theorem lineAt_of_readLine (hpos : pos = k) (hk : k ≤ buf.length) {next : ℤ}
    (h : readLine buf pos = .ok (line, next)) :
    ∃ last : ℕ, next = last ∧ lineAt buf k = some (line, last) := by
  cases hline : lineAt buf k with
  | none =>
    rw [readLine_of_lineAt_none hpos hk hline] at h
    cases h
  | some found =>
    obtain ⟨line', last⟩ := found
    rw [readLine_of_lineAt_some hbuf hpos hk hline] at h
    cases h
    exact ⟨last, rfl, rfl⟩

theorem Agrees.readLine (hpos : pos = k) (hk : k ≤ buf.length) {f : Bytes × ℤ → Parse (α × ℤ)}
    (hf : ∀ line last, k < last → last ≤ buf.length →
      Agrees (f (line, (last : ℤ))) (next line last)) :
    Agrees (Proto.readLine buf pos >>= f) (walkLine buf k next) := by
  unfold walkLine
  cases hline : lineAt buf k with
  | none =>
    rw [readLine_of_lineAt_none hpos hk hline, bind_error]
    exact agrees_incomplete
  | some found =>
    obtain ⟨line, last⟩ := found
    obtain ⟨hlt, hle⟩ := lineAt_bounds hline
    rw [readLine_of_lineAt_some hbuf hpos hk hline, bind_ok]
    exact hf line last hlt hle

end Buffer

theorem parseDigits_bounds {m : ℤ} (hn : -2 ^ 63 ≤ n ∧ n < 2 ^ 63) (h : parseDigits n b = some m) :
    -2 ^ 63 ≤ m ∧ m < 2 ^ 63 := by
  induction b generalizing n with
  | nil =>
    cases h
    exact hn
  | cons c rest ih =>
    rw [parseDigits] at h
    split at h
    · cases h
    · exact ih (wrap64_bounds _) h

/-- The number read is a 64-bit integer. -/
theorem parseIntBytes_bounds (h : parseIntBytes b = some n) : -2 ^ 63 ≤ n ∧ n < 2 ^ 63 := by
  unfold parseIntBytes at h
  split at h
  · cases h
  split at h
  · obtain ⟨m, -, rfl⟩ := Option.map_eq_some_iff.mp h
    exact wrap64_bounds _
  · exact parseDigits_bounds (by decide) h

/-! ### Bulk payloads -/

section Bulk

variable {buf : Bytes} (hbuf : buf.length ≤ maxAlloc) {pos n : ℤ} {last len : ℕ} (hpos : pos = last)
  (hlast : last ≤ buf.length) (hn : n = len)
include hbuf hpos hlast hn

theorem bulk_in_range (hrange : last + len + 2 < 2 ^ 63) :
    wrap64 (pos + n) = ((last + len : ℕ) : ℤ) ∧
      wrap64 (((last + len : ℕ) : ℤ) + 2) = ((last + len + 2 : ℕ) : ℤ) := by
  unfold maxAlloc at hbuf
  refine ⟨?_, ?_⟩
  · rw [wrap64_eq_self (by omega) (by omega)]
    omega
  rw [wrap64_eq_self (by omega) (by omega)]
  omega

/-- The end of the bulk string wraps around to a negative position. -/
theorem bulk_out_of_range (hlen : len < 2 ^ 63) (hrange : ¬ last + len + 2 < 2 ^ 63) :
    wrap64 (wrap64 (pos + n) + 2) < 0 ∧ slice buf pos (wrap64 (pos + n)) = none ∧
      ¬ MakeOk 1 n := by
  unfold maxAlloc at hbuf
  refine ⟨?_, slice_eq_none ?_, ?_⟩
  · rw [wrap64_wrap64_add]
    exact wrap64_neg (by omega) (by omega)
  · by_cases hint : pos + n < 2 ^ 63
    · rw [wrap64_eq_self (by omega) hint]
      omega
    have := wrap64_neg (n := pos + n) (by omega) (by omega)
    omega
  · simp only [MakeOk, maxAlloc]
    omega

/-- What the parsers do with a bulk string of a declared length: its end is out of range, or
beyond the buffer, or the payload is taken. -/
theorem parseArgPayload_eq (hlen : len < 2 ^ 63) :
    parseArgPayload buf pos n =
      if last + len + 2 < 2 ^ 63 then
        if last + len + 2 ≤ buf.length then
          .ok (((last : ℤ), ((last + len : ℕ) : ℤ)), ((last + len + 2 : ℕ) : ℤ))
        else .error .incomplete
      else .error .panic := by
  split
  · rename_i hrange
    obtain ⟨hhi, hneed⟩ := bulk_in_range hbuf hpos hlast hn hrange
    simp only [parseArgPayload, hhi, hneed]
    by_cases hfits : last + len + 2 ≤ buf.length
    · have hslice : slice buf pos ((last + len : ℕ) : ℤ) = some ((buf.drop last).take len) := by
        rw [hpos, slice_natCast (by omega) (by omega), Nat.add_sub_cancel_left]
      rw [if_pos hfits, if_neg (by omega), hslice, orPanic, bind_ok, hpos]
      rfl
    · rw [if_neg hfits, if_pos (by omega)]
  · rename_i hrange
    obtain ⟨hneed, hslice, -⟩ := bulk_out_of_range hbuf hpos hlast hn hlen hrange
    simp only [parseArgPayload, hslice]
    rw [if_neg (by omega)]
    rfl

theorem parseBulkPayload_eq (hlen : len < 2 ^ 63) :
    parseBulkPayload buf pos n =
      if last + len + 2 < 2 ^ 63 then
        if last + len + 2 ≤ buf.length then
          .ok (.bulkString ((buf.drop last).take len), ((last + len + 2 : ℕ) : ℤ))
        else .error .incomplete
      else .error .panic := by
  split
  · rename_i hrange
    obtain ⟨hhi, hneed⟩ := bulk_in_range hbuf hpos hlast hn hrange
    simp only [parseBulkPayload, hhi, hneed]
    by_cases hfits : last + len + 2 ≤ buf.length
    · have hslice : slice buf pos ((last + len : ℕ) : ℤ) = some ((buf.drop last).take len) := by
        rw [hpos, slice_natCast (by omega) (by omega), Nat.add_sub_cancel_left]
      have hmake : MakeOk 1 n := by
        simp only [MakeOk]
        omega
      rw [if_pos hfits, if_neg (by omega), makeSlice, if_pos hmake, bind_ok, hslice, orPanic, bind_ok]
      rfl
    · rw [if_neg hfits, if_pos (by omega)]
  · rename_i hrange
    obtain ⟨hneed, -, hmake⟩ := bulk_out_of_range hbuf hpos hlast hn hlen hrange
    simp only [parseBulkPayload, makeSlice, if_neg hmake]
    rw [if_neg (by omega)]
    rfl

omit hbuf hpos hlast hn in
private theorem agrees_bulk (a : α) :
    Agrees (if last + len + 2 < 2 ^ 63 then
        if last + len + 2 ≤ buf.length then .ok (a, ((last + len + 2 : ℕ) : ℤ))
        else .error .incomplete
      else .error .panic) (walkBulk buf last len) := by
  split
  · rename_i hrange
    refine ⟨fun _ => ?_, fun hbad => absurd (walkBulk_safe.mpr hrange) hbad⟩
    simp only [walkBulk, Walk.stop_cons]
    by_cases hfits : last + len + 2 ≤ buf.length
    · rw [if_pos hfits, if_pos hfits]
      exact ⟨a, rfl⟩
    rw [if_neg hfits, if_neg hfits]
    exact Or.inl rfl
  · rename_i hrange
    exact ⟨fun hall => absurd (walkBulk_safe.mp hall) hrange, fun _ => rfl⟩

theorem parseArgPayload_agrees (hlen : len < 2 ^ 63) :
    Agrees (parseArgPayload buf pos n) (walkBulk buf last len) := by
  rw [parseArgPayload_eq hbuf hpos hlast hn hlen]
  exact agrees_bulk _

theorem parseBulkPayload_agrees (hlen : len < 2 ^ 63) :
    Agrees (parseBulkPayload buf pos n) (walkBulk buf last len) := by
  rw [parseBulkPayload_eq hbuf hpos hlast hn hlen]
  exact agrees_bulk _

end Bulk

/-! ### Requests and values -/

section Buffer

variable {buf : Bytes} (hbuf : buf.length ≤ maxAlloc)
include hbuf

/-- Positions in a buffer do not wrap around. -/
theorem wrap64_succ (hpos : pos = k) (hk : k ≤ buf.length) :
    wrap64 (pos + 1) = ((k + 1 : ℕ) : ℤ) := by
  unfold maxAlloc at hbuf
  rw [wrap64_eq_self (by omega) (by omega)]
  omega

theorem parseArg_agrees (cur : ℤ) (k : ℕ) (hcur : cur = k) (hk : k ≤ buf.length) :
    Agrees (parseArg buf cur) (walkArg buf k) := by
  unfold parseArg walkArg
  split
  · rename_i hend
    rw [List.getElem?_eq_none (by omega), if_neg (by simp)]
    exact agrees_incomplete
  rename_i hin
  have hlt : k < buf.length := by omega
  have hindex : index buf cur = some buf[k] := by
    rw [hcur, index_natCast, List.getElem?_eq_getElem hlt]
  rw [hindex, orPanic, bind_ok, List.getElem?_eq_getElem hlt]
  by_cases hc : buf[k] = typeBulkString
  · rw [if_neg (by simpa using hc), if_pos (by rw [hc])]
    refine Agrees.readLine hbuf (wrap64_succ hbuf hcur hk) hlt fun line last _ hlast => ?_
    simp only
    cases hint : parseIntBytes line with
    | none => exact agrees_invalid
    | some len =>
      have := parseIntBytes_bounds hint
      simp only
      split
      · exact agrees_invalid
      · exact parseArgPayload_agrees hbuf rfl hlast (by omega) (by omega)
  · rw [if_pos hc, if_neg (by simpa using hc)]
    exact agrees_incomplete

omit hbuf in
theorem inlineFields_agrees (size : ℤ) (line : Bytes) (hpos : pos = last) (g : List Bytes → α) :
    Agrees (inlineFields size line >>= fun parts => .ok (g parts, pos))
      (walkInline size line last) := by
  unfold inlineFields walkInline
  split
  · exact agrees_invalid
  have hmake : Agrees (makeSlice size (fields (trimSpace line)).length >>= fun _ =>
      Except.ok (g (fields (trimSpace line)), pos))
      (Walk.cons (.elems size (fields (trimSpace line)).length) { stop := some last }) :=
    (agrees_ok _ hpos).make rfl
  cases hresult : makeSlice size (fields (trimSpace line)).length with
  | error e =>
    rw [hresult] at hmake
    simpa only [hresult, bind_error] using hmake
  | ok _ =>
    rw [hresult, bind_ok] at hmake
    simp only [hresult, bind_ok]
    exact hmake

theorem parseValueAt_agrees (fuel : ℕ) (pos : ℤ) (k : ℕ) (hpos : pos = k)
    (hfuel : buf.length < fuel + k) (hk : k ≤ buf.length) :
    Agrees (parseValueAt buf fuel pos) (walkValueAt .parseValue buf fuel k) := by
  induction fuel generalizing pos k with
  | zero => omega
  | succ fuel ih =>
    rw [parseValueAt, walkValueAt]
    split
    · rename_i hend
      rw [List.getElem?_eq_none (by omega)]
      exact agrees_incomplete
    rename_i hin
    have hlt : k < buf.length := by omega
    have hindex : index buf pos = some buf[k] := by
      rw [hpos, index_natCast, List.getElem?_eq_getElem hlt]
    have hnext := wrap64_succ hbuf hpos hk
    rw [hindex, orPanic, bind_ok, List.getElem?_eq_getElem hlt]
    simp only
    split
    · refine Agrees.readLine hbuf hnext hlt fun line last _ _ => ?_
      exact agrees_ok _ rfl
    split
    · refine Agrees.readLine hbuf hnext hlt fun line last _ _ => ?_
      cases hint : parseIntBytes line with
      | none =>
        simp only [and_self, if_true]
        exact agrees_invalid
      | some n =>
        simp only [reduceCtorEq, and_false, if_false]
        exact agrees_ok _ rfl
    split
    · refine Agrees.readLine hbuf hnext hlt fun line last _ hlast => ?_
      simp only
      cases hint : parseIntBytes line with
      | none => exact agrees_invalid
      | some n =>
        have := parseIntBytes_bounds hint
        simp only
        split
        · exact agrees_ok _ rfl
        · exact parseBulkPayload_agrees hbuf rfl hlast (by omega) (by omega)
    split
    · refine Agrees.readLine hbuf hnext hlt fun line last hlt' hlast => ?_
      simp only
      cases hint : parseIntBytes line with
      | none => exact agrees_invalid
      | some n =>
        simp only [if_true]
        split
        · exact agrees_ok _ rfl
        refine Agrees.make (Agrees.map ?_ Value.array) (by omega)
        exact Agrees.elems last (walkValueAt_within .parseValue buf fuel)
          (fun cur j hcur hj hjle => ih cur j hcur (by omega) hjle) n.toNat last last rfl
          (le_refl last) hlast
    · unfold parseInlineAt
      refine Agrees.readLine hbuf hpos hk fun line last _ _ => ?_
      simp only [if_true]
      exact inlineFields_agrees sizeofPointer line rfl _

theorem parseValue_agrees : Agrees (parseValue buf) (walkValue .parseValue buf) :=
  parseValueAt_agrees hbuf _ 0 0 rfl (by omega) (Nat.zero_le _)

theorem parseArg_span {next : ℤ} {span : ℤ × ℤ} (h : parseArg buf cur = .ok (span, next)) :
    0 ≤ span.1 ∧ span.1 ≤ span.2 ∧ span.2 ≤ next := by
  unfold parseArg at h
  split at h
  · cases h
  obtain ⟨c, -, h⟩ := bind_eq_ok h
  split at h
  · cases h
  obtain ⟨⟨line, bend⟩, -, h⟩ := bind_eq_ok h
  simp only at h
  split at h
  · cases h
  split at h
  · cases h
  unfold parseArgPayload at h
  simp only at h
  split at h
  · cases h
  obtain ⟨_, hslice, h⟩ := bind_eq_ok h
  have hbounds := slice_bounds (orPanic_eq_ok hslice)
  unfold maxAlloc at hbuf
  obtain ⟨rfl, rfl⟩ := Prod.mk.inj (Except.ok.inj h)
  rw [wrap64_eq_self (n := wrap64 _ + 2) (by omega) (by omega)]
  simp only
  omega

/-- The arguments of a request lie in front of the position after the request. -/
theorem parseArgs_spans {n : ℕ} {last : ℤ} (hcur : cur = k) (hk : k ≤ buf.length)
    (h : parseElems (parseArg buf) n cur = .ok (spans, last)) :
    cur ≤ last ∧ ∀ span ∈ spans, 0 ≤ span.1 ∧ span.1 ≤ span.2 ∧ span.2 ≤ last := by
  induction n generalizing cur k spans with
  | zero =>
    obtain ⟨rfl, rfl⟩ := Prod.mk.inj (Except.ok.inj h)
    exact ⟨Int.le_refl _, by simp⟩
  | succ n ih =>
    rw [parseElems] at h
    obtain ⟨⟨span, next⟩, harg, h⟩ := bind_eq_ok h
    obtain ⟨⟨rest, last'⟩, hrest, h⟩ := bind_eq_ok h
    obtain ⟨rfl, rfl⟩ := Prod.mk.inj (Except.ok.inj h)
    have hagrees := parseArg_agrees hbuf cur k hcur hk
    rw [harg] at hagrees
    obtain ⟨stop, hstop, hnext⟩ := hagrees.stop
    have hwithin := walkArg_within buf k stop hstop
    obtain ⟨hle, hspans⟩ := ih hnext hwithin.2 hrest
    have hspan := parseArg_span hbuf harg
    refine ⟨by omega, fun other hother => ?_⟩
    rcases List.mem_cons.mp hother with rfl | hother
    · omega
    · exact hspans other hother

omit hbuf in
theorem requestOfSpans_ok {raw : Bytes}
    (h : ∀ span ∈ spans, 0 ≤ span.1 ∧ span.1 ≤ span.2 ∧ span.2 ≤ raw.length) :
    ∃ req, requestOfSpans raw spans = .ok req := by
  have hargs : ∃ args, spans.mapM (fun span => orPanic (slice raw span.1 span.2)) = .ok args := by
    induction spans with
    | nil => exact ⟨[], rfl⟩
    | cons span rest ih =>
      obtain ⟨args, hrest⟩ := ih fun other hother => h other (List.mem_cons_of_mem _ hother)
      have hspan := h span (List.mem_cons_self ..)
      rw [List.mapM_cons, slice, if_pos hspan, orPanic, bind_ok, hrest]
      exact ⟨_, rfl⟩
  obtain ⟨args, hargs⟩ := hargs
  rw [requestOfSpans, hargs, bind_ok]
  cases args <;> cases spans <;> exact ⟨_, rfl⟩

theorem parseArrayRequest_agrees (hne : buf ≠ []) :
    Agrees (parseArrayRequest buf) (walkLine buf 1 fun line last =>
      match parseIntBytes line with
      | none => {}
      | some n =>
        if n ≤ 0 then {}
        else (walkElems (walkArg buf) n.toNat last).cons (.elems sizeofSlice n.toNat)) := by
  have hlength := List.length_pos_of_ne_nil hne
  unfold parseArrayRequest
  refine Agrees.readLine hbuf rfl hlength fun line last _ hlast => ?_
  simp only
  cases hint : parseIntBytes line with
  | none => exact agrees_invalid
  | some n =>
    simp only
    split
    · exact agrees_invalid
    refine Agrees.make ?_ (by omega)
    have helems := Agrees.elems 0 (walkArg_within buf)
      (fun cur k hcur _ hk => parseArg_agrees hbuf cur k hcur hk) n.toNat last last rfl
      (Nat.zero_le _) hlast
    rw [← Walk.append_stop (walkElems (walkArg buf) n.toNat last)]
    refine helems.bind fun spans stop hstop hok => ?_
    have hbound := (walkElems_stop (walkArg_within buf) hlast hstop).2
    have hspans := (parseArgs_spans hbuf rfl hlast hok).2
    have hraw : slice buf 0 (stop : ℤ) = some (buf.take stop) := by
      have := slice_natCast (s := buf) (Nat.zero_le stop) hbound
      simpa using this
    have hfits : ∀ span ∈ spans, 0 ≤ span.1 ∧ span.1 ≤ span.2 ∧
        span.2 ≤ (buf.take stop).length := by
      rw [List.length_take_of_le hbound]
      exact hspans
    obtain ⟨req, hreq⟩ := requestOfSpans_ok hfits
    simp only [hraw, orPanic]
    rw [bind_ok, hreq, bind_ok]
    exact agrees_ok req rfl

theorem parseInlineLine_agrees {idx : ℤ} (hidx : idx = k) (hk : k < buf.length) :
    Agrees (parseInlineLine buf idx)
      (walkInline sizeofSlice (stripCR (buf.take k)) (k + 1)) := by
  have hline : slice buf 0 idx = some (buf.take k) := by
    have := slice_natCast (s := buf) (Nat.zero_le k) (by omega)
    simpa [hidx] using this
  have hend : wrap64 (idx + 1) = ((k + 1 : ℕ) : ℤ) := wrap64_succ hbuf hidx (by omega)
  have hraw : slice buf 0 (wrap64 (idx + 1)) = some (buf.take (k + 1)) := by
    have := slice_natCast (s := buf) (Nat.zero_le (k + 1)) hk
    rw [hend]
    simpa using this
  rw [parseInlineLine, hline, hraw, orPanic, bind_ok]
  exact inlineFields_agrees sizeofSlice _ hend fun args => inlineRequest args (buf.take (k + 1))

theorem parseInlineRequest_agrees :
    Agrees (parseInlineRequest buf) (walkLine buf 0 (walkInline sizeofSlice)) := by
  unfold parseInlineRequest walkLine lineAt
  rw [List.drop_zero]
  cases hidx : indexByte buf 10 with
  | none => exact agrees_incomplete
  | some k =>
    obtain ⟨hlt, -⟩ := List.findIdx?_eq_some_iff_getElem.mp hidx
    simp only [Option.map_some, Nat.zero_add]
    exact parseInlineLine_agrees hbuf rfl hlt

/-- `ParseRequest` follows the walk. -/
theorem parseRequest_agrees : Agrees (parseRequest buf) (walkRequest buf) := by
  unfold parseRequest walkRequest
  split
  · exact agrees_incomplete
  rename_i hne
  have hlt := List.length_pos_of_ne_nil hne
  have hindex : index buf 0 = some buf[0] := by
    have := index_natCast buf 0
    rwa [List.getElem?_eq_getElem hlt] at this
  rw [hindex, orPanic, bind_ok, List.getElem?_eq_getElem hlt]
  by_cases hc : buf[0] = typeArray
  · rw [if_neg (by simpa using hc), if_pos (by rw [hc])]
    exact parseArrayRequest_agrees hbuf hne
  rw [if_pos hc, if_neg (by simpa using hc)]
  exact parseInlineRequest_agrees hbuf

end Buffer

/-! ### Scanning -/

/-- The scanner stops where the walk stops. If a length is out of range it panics or
reports a negative end. -/
def ScanAgrees (result : Parse Scan) (w : Walk) : Prop :=
  (w.Safe → match w.stop with
    | some last => ∃ kind msg, result = .ok ((last : ℤ), kind, msg)
    | none => result = .ok scanNone) ∧
  (¬ w.Safe → result = .error .panic ∨
    ∃ last kind msg, last < 0 ∧ result = .ok (last, kind, msg))

theorem scanAgrees_none : ScanAgrees (.ok scanNone) {} :=
  ⟨fun _ => rfl, fun h => absurd (Walk.safe_stop none) h⟩

theorem scanAgrees_ok (hpos : pos = last) (kind : ErrorKind) (msg : Bytes) :
    ScanAgrees (.ok (pos, kind, msg)) { stop := some last } :=
  ⟨fun _ => ⟨kind, msg, by rw [hpos]⟩, fun h => absurd (Walk.safe_stop _) h⟩

theorem scanValueAt_neg (buf : Bytes) (fuel : ℕ) (hpos : pos < 0) :
    scanValueAt buf fuel pos = .error .panic := by
  cases fuel with
  | zero => rfl
  | succ fuel =>
    rw [scanValueAt, if_neg (by omega), index_of_neg buf hpos, orPanic, bind_error]

/-- The loop over the elements. A negative end is the end of the last element, or the
position of the next one. -/
theorem ScanAgrees.elems {scan : ℤ → Parse Scan} (start : ℕ) (hwalk : ∀ k, (walk k).Within buf k)
    (hneg : ∀ pos, pos < 0 → scan pos = .error .panic)
    (hscan : ∀ (cur : ℤ) (k : ℕ), cur = k → start ≤ k → k ≤ buf.length →
      ScanAgrees (scan cur) (walk k)) (n : ℕ) (cur : ℤ) (k : ℕ) (hcur : cur = k)
    (hstart : start ≤ k) (hk : k ≤ buf.length) :
    ScanAgrees (scanElems scan n cur) (walkElems walk n k) := by
  induction n generalizing cur k with
  | zero => exact scanAgrees_ok hcur .none []
  | succ n ih =>
    obtain ⟨hsafe, hfail⟩ := hscan cur k hcur hstart hk
    rw [scanElems, walkElems]
    have hbad : ¬ (walk k).Safe → (scan cur >>= fun p => if p.1 = 0 then pure scanNone
        else scanElems scan n p.1) = .error .panic ∨ ∃ last kind msg, last < 0 ∧
        (scan cur >>= fun p => if p.1 = 0 then pure scanNone else scanElems scan n p.1) =
          .ok (last, kind, msg) := by
      intro hfirst
      rcases hfail hfirst with hpanic | ⟨last, kind, msg, hlast, hok⟩
      · rw [hpanic, bind_error]
        exact Or.inl rfl
      rw [hok, bind_ok]
      simp only
      rw [if_neg (by omega)]
      cases n with
      | zero => exact Or.inr ⟨last, .none, [], hlast, rfl⟩
      | succ n =>
        rw [scanElems, hneg last hlast, bind_error]
        exact Or.inl rfl
    cases hstop : (walk k).stop with
    | none =>
      have hsame : (walk k).append (walkElems walk n) = walk k := by simp [Walk.append, hstop]
      simp only [hstop] at hsafe
      rw [hsame]
      refine ⟨fun hall => ?_, hbad⟩
      simp only [hstop]
      rw [hsafe hall, bind_ok]
      rfl
    | some last =>
      have hnext : ((walk k).append (walkElems walk n)).stop = (walkElems walk n last).stop := by
        simp [Walk.append, hstop]
      simp only [hstop] at hsafe
      obtain ⟨hlt, hle⟩ := hwalk k last hstop
      rw [ScanAgrees, Walk.safe_append hstop, hnext]
      by_cases hfirst : (walk k).Safe
      · obtain ⟨kind, msg, hok⟩ := hsafe hfirst
        have hrest := ih last last rfl (by omega) hle
        rw [hok, bind_ok]
        simp only
        rw [if_neg (by omega)]
        exact ⟨fun hall => hrest.1 hall.2,
          fun hunsafeAll => hrest.2 fun hall => hunsafeAll ⟨hfirst, hall⟩⟩
      · exact ⟨fun hall => absurd hall.1 hfirst, fun _ => hbad hfirst⟩

section Scan

variable {buf : Bytes} (hbuf : buf.length ≤ maxAlloc)
include hbuf

theorem ScanAgrees.scanLine (hpos : pos = k) (hk : k ≤ buf.length) {f : Bytes × ℤ → Parse Scan}
    (hf : ∀ line last, k < last → last ≤ buf.length →
      ScanAgrees (f (line, (last : ℤ))) (next line last)) :
    ScanAgrees (Proto.scanLine buf pos f) (walkLine buf k next) := by
  unfold Proto.scanLine walkLine
  cases hline : lineAt buf k with
  | none =>
    rw [readLine_of_lineAt_none hpos hk hline]
    exact scanAgrees_none
  | some found =>
    obtain ⟨line, last⟩ := found
    obtain ⟨hlt, hle⟩ := lineAt_bounds hline
    rw [readLine_of_lineAt_some hbuf hpos hk hline]
    exact hf line last hlt hle

theorem scanBulkPayload_agrees (hpos : pos = last) (hlast : last ≤ buf.length) (hn : n = len)
    (hlen : len < 2 ^ 63) : ScanAgrees (scanBulkPayload buf pos n) (walkBulk buf last len) := by
  by_cases hrange : last + len + 2 < 2 ^ 63
  · obtain ⟨hhi, hneed⟩ := bulk_in_range hbuf hpos hlast hn hrange
    refine ⟨fun _ => ?_, fun hbad => absurd (walkBulk_safe.mpr hrange) hbad⟩
    simp only [walkBulk, Walk.stop_cons, scanBulkPayload, hhi, hneed]
    by_cases hfits : last + len + 2 ≤ buf.length
    · rw [if_pos hfits, if_neg (by omega)]
      exact ⟨.none, [], rfl⟩
    · rw [if_neg hfits, if_pos (by omega)]
  · obtain ⟨hneed, -, -⟩ := bulk_out_of_range hbuf hpos hlast hn hlen hrange
    refine ⟨fun hall => absurd (walkBulk_safe.mp hall) hrange, fun _ => Or.inr ?_⟩
    simp only [scanBulkPayload]
    rw [if_neg (by omega)]
    exact ⟨_, .none, [], hneed, rfl⟩

theorem scanValueAt_agrees (fuel : ℕ) (pos : ℤ) (k : ℕ) (hpos : pos = k)
    (hfuel : buf.length < fuel + k) (hk : k ≤ buf.length) :
    ScanAgrees (scanValueAt buf fuel pos) (walkValueAt .scanValue buf fuel k) := by
  induction fuel generalizing pos k with
  | zero => omega
  | succ fuel ih =>
    rw [scanValueAt, walkValueAt]
    split
    · rename_i hend
      rw [List.getElem?_eq_none (by omega)]
      exact scanAgrees_none
    rename_i hin
    have hlt : k < buf.length := by omega
    have hindex : index buf pos = some buf[k] := by
      rw [hpos, index_natCast, List.getElem?_eq_getElem hlt]
    have hnext := wrap64_succ hbuf hpos hk
    rw [hindex, orPanic, bind_ok, List.getElem?_eq_getElem hlt]
    simp only [reduceCtorEq, false_and, if_false]
    by_cases hsimple : buf[k] = typeSimpleString
    · rw [if_pos (Or.inl hsimple), if_pos (Or.inl hsimple)]
      exact ScanAgrees.scanLine hbuf hnext hlt fun line last _ _ => scanAgrees_ok rfl _ _
    by_cases herror : buf[k] = typeError
    · rw [if_neg (by rw [herror]; decide), if_pos herror, if_pos (Or.inr herror)]
      exact ScanAgrees.scanLine hbuf hnext hlt fun line last _ _ => scanAgrees_ok rfl _ _
    have hline : ¬ (buf[k] = typeSimpleString ∨ buf[k] = typeError) := by
      simp [hsimple, herror]
    by_cases hinteger : buf[k] = typeInteger
    · rw [if_pos (Or.inr hinteger), if_neg hline, if_pos hinteger]
      exact ScanAgrees.scanLine hbuf hnext hlt fun line last _ _ => scanAgrees_ok rfl _ _
    rw [if_neg (by simp [hsimple, hinteger]), if_neg herror, if_neg hline, if_neg hinteger]
    split
    · refine ScanAgrees.scanLine hbuf hnext hlt fun line last _ hlast => ?_
      simp only
      cases hint : parseIntBytes line with
      | none => exact scanAgrees_none
      | some n =>
        have := parseIntBytes_bounds hint
        simp only
        split
        · exact scanAgrees_ok rfl _ _
        · exact scanBulkPayload_agrees hbuf rfl hlast (by omega) (by omega)
    split
    · refine ScanAgrees.scanLine hbuf hnext hlt fun line last _ hlast => ?_
      simp only
      cases hint : parseIntBytes line with
      | none => exact scanAgrees_none
      | some n =>
        simp only
        split
        · exact scanAgrees_ok rfl _ _
        exact ScanAgrees.elems last (walkValueAt_within .scanValue buf fuel)
          (fun pos hneg => scanValueAt_neg buf fuel hneg)
          (fun cur j hcur hj hjle => ih cur j hcur (by omega) hjle) n.toNat last last rfl
          (le_refl last) hlast
    · exact ScanAgrees.scanLine hbuf hpos hk fun line last _ _ => scanAgrees_ok rfl _ _

/-- `ScanValue` follows the walk. -/
theorem scanValue_agrees : ScanAgrees (scanValue buf) (walkValue .scanValue buf) :=
  scanValueAt_agrees hbuf _ 0 0 rfl (by omega) (Nat.zero_le _)

end Scan

theorem walkRequest_within (buf : Bytes) : (walkRequest buf).Within buf 0 := by
  unfold walkRequest
  split
  · intro k hk
    cases hk
  split
  · refine walkLine_within (Nat.zero_le _) fun line last _ hlast k hk => ?_
    split at hk
    · cases hk
    split at hk
    · cases hk
    · exact walkElems_stop (walkArg_within buf) hlast hk
  · refine walkLine_within (le_refl 0) fun line last _ hlast k hk => ?_
    rw [walkInline_stop hk]
    omega

/-- A parser is safe on a buffer: it does not panic, and the count of a result lies in
the buffer. -/
def ParserSafe {α : Type} (result : Parse (α × ℤ)) (buf : Bytes) : Prop :=
  result ≠ .error .panic ∧ ∀ a n, result = .ok (a, n) → 0 < n ∧ n ≤ buf.length

/-- The scanner is safe on a buffer. The end `0` is not progress. -/
def ScannerSafe (result : Parse Scan) (buf : Bytes) : Prop :=
  result ≠ .error .panic ∧
    ∀ last kind msg, result = .ok (last, kind, msg) → last ≠ 0 → 0 < last ∧ last ≤ buf.length

theorem Agrees.parserSafe_iff (h : Agrees result w) (hwithin : w.Within buf 0) :
    ParserSafe result buf ↔ w.Safe := by
  constructor
  · intro hsafe
    by_contra hbad
    exact hsafe.1 (h.2 hbad)
  intro hsafe
  refine ⟨fun hpanic => ?_, fun a n hok => ?_⟩
  · have hstop := h.1 hsafe
    rw [hpanic] at hstop
    split at hstop
    · obtain ⟨_, hok⟩ := hstop
      cases hok
    · rcases hstop with herr | herr <;> cases herr
  · rw [hok] at h
    obtain ⟨last, hlast, rfl⟩ := h.stop
    have := hwithin last hlast
    omega

theorem ScanAgrees.scannerSafe_iff {result : Parse Scan} (h : ScanAgrees result w)
    (hwithin : w.Within buf 0) : ScannerSafe result buf ↔ w.Safe := by
  constructor
  · intro hsafe
    by_contra hbad
    rcases h.2 hbad with hpanic | ⟨last, kind, msg, hneg, hok⟩
    · exact hsafe.1 hpanic
    have := hsafe.2 last kind msg hok (by omega)
    omega
  · intro hsafe
    have hstop := h.1 hsafe
    cases hlast : w.stop with
    | none =>
      simp only [hlast] at hstop
      rw [hstop]
      refine ⟨by simp, fun last kind msg hok hne => ?_⟩
      cases hok
      exact absurd rfl hne
    | some last =>
      simp only [hlast] at hstop
      obtain ⟨kind, msg, hok⟩ := hstop
      have := hwithin last hlast
      rw [hok]
      refine ⟨by simp, fun last' kind' msg' hok' _ => ?_⟩
      cases hok'
      omega

/-- The three parsers are safe on a buffer exactly if the lengths that it declares, where
the parser reads them, are in range. -/
theorem parsers_safe_iff (buf : Bytes) (hbuf : buf.length ≤ maxAlloc) :
    (ParserSafe (parseRequest buf) buf ↔ (walkRequest buf).Safe) ∧
      (ParserSafe (parseValue buf) buf ↔ (walkValue .parseValue buf).Safe) ∧
      (ScannerSafe (scanValue buf) buf ↔ (walkValue .scanValue buf).Safe) :=
  ⟨(parseRequest_agrees hbuf).parserSafe_iff (walkRequest_within buf),
    (parseValue_agrees hbuf).parserSafe_iff (walkValueAt_within .parseValue buf _ 0),
    (scanValue_agrees hbuf).scannerSafe_iff (walkValueAt_within .scanValue buf _ 0)⟩

/-- A request of one argument is safe to parse, and so is a bulk string as a value. -/
theorem parsers_safe_bulk :
    ParserSafe (parseRequest (bytes "*1\r\n$1\r\na\r\n")) (bytes "*1\r\n$1\r\na\r\n") ∧
      ParserSafe (parseValue (bytes "$1\r\na\r\n")) (bytes "$1\r\na\r\n") ∧
      ScannerSafe (scanValue (bytes "$1\r\na\r\n")) (bytes "$1\r\na\r\n") := by
  exact ⟨(parsers_safe_iff _ (by decide)).1.mpr (by decide +kernel),
    (parsers_safe_iff _ (by decide)).2.1.mpr (by decide +kernel),
    (parsers_safe_iff _ (by decide)).2.2.mpr (by decide +kernel)⟩

/-- A declared length near the largest integer crashes each parser: as the number of
arguments, as the length of an argument and as the length of a value. The scanner
reports a negative end, or panics at it inside an array. -/
theorem parsers_panic_on_large_lengths :
    parseRequest (bytes "*9223372036854775807\r\n") = .error .panic ∧
      parseRequest (bytes "*1\r\n$9223372036854775807\r\n") = .error .panic ∧
      parseValue (bytes "$9223372036854775807\r\n") = .error .panic ∧
      scanValue (bytes "$9223372036854775807\r\n") =
        .ok (-9223372036854775785, .none, []) ∧
      scanValue (bytes "*2\r\n$9223372036854775807\r\n") = .error .panic := by
  have hvalue : ¬ (walkValue .parseValue (bytes "$9223372036854775807\r\n")).Safe := by
    decide +kernel
  exact ⟨by decide +kernel, by decide +kernel, (parseValue_agrees (by decide)).2 hvalue,
    by decide +kernel, by decide +kernel⟩

end Pluster.Proto
