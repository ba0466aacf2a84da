import Pluster.Proto.RoundTrip

/-!
# The requests that `ParseRequest` accepts

What the parser of arrays takes for a request, as data: header lines that end with a
line feed and hold a number to `parseIntBytes`, payloads of the declared lengths and
two bytes after each payload. The parser accepts a buffer exactly if such a frame
stands at its front, and Go can make a slice for its arguments.
-/

namespace Pluster.Proto

open GoStrings GoRuntime

/-- A header line as the parser reads it, without its type byte. -/
structure Header where
  body : Bytes
  value : ℕ
  body_no_lf : 10 ∉ body
  parses : parseIntBytes (stripCR body) = some (value : ℤ)

namespace Header

def bytes (h : Header) : Bytes := h.body ++ [10]

theorem value_lt (h : Header) : h.value < 2 ^ 63 := by
  have := (parseIntBytes_bounds h.parses).2
  omega

/-- The line of a header is the line that the parser reads. -/
theorem lineAt (h : Header) {buf rest : Bytes} {k : ℕ} (hdrop : buf.drop k = h.bytes ++ rest) :
    Proto.lineAt buf k = some (stripCR h.body, k + h.bytes.length) := by
  have hsplit : h.bytes ++ rest = h.body ++ 10 :: rest := by simp [bytes]
  rw [Proto.lineAt, hdrop, hsplit, indexByte_append h.body_no_lf, Option.map_some, List.take_left,
    bytes, List.length_append]
  rfl

/-- A line with a number is a header. -/
theorem exists_of_lineAt {buf line : Bytes} {k last n : ℕ}
    (hline : Proto.lineAt buf k = some (line, last)) (hint : parseIntBytes line = some (n : ℤ)) :
    ∃ h : Header, h.value = n ∧ last = k + h.bytes.length ∧
      buf.drop k = h.bytes ++ buf.drop last := by
  obtain ⟨idx, hidx, heq⟩ := Option.map_eq_some_iff.mp hline
  obtain ⟨rfl, rfl⟩ := Prod.mk.inj heq
  obtain ⟨hsplit, hno⟩ := split_of_indexByte hidx
  have hlength : ((buf.drop k).take idx).length = idx :=
    List.length_take_of_le (Nat.le_of_lt (List.findIdx?_eq_some_iff_getElem.mp hidx).1)
  refine ⟨⟨(buf.drop k).take idx, n, hno, hint⟩, rfl, ?_, ?_⟩
  · rw [bytes, List.length_append, hlength]
    rfl
  rw [List.drop_drop] at hsplit
  rw [bytes, List.append_assoc]
  exact hsplit

/-- A header is determined by its front in a buffer. -/
theorem unique {g h : Header} {r r' : Bytes} (heq : g.bytes ++ r = h.bytes ++ r') :
    g = h ∧ r = r' := by
  have hsplit : g.body ++ 10 :: r = h.body ++ 10 :: r' := by
    simpa [bytes, List.append_assoc] using heq
  have hlength : g.body.length = h.body.length := by
    have := congrArg (indexByte · 10) hsplit
    simpa [indexByte_append g.body_no_lf, indexByte_append h.body_no_lf] using this
  obtain ⟨hbody, hrest⟩ := List.append_inj hsplit hlength
  obtain ⟨gbody, gvalue, _, gparses⟩ := g
  obtain ⟨hbody', hvalue, _, hparses⟩ := h
  simp only at hbody
  subst hbody
  rw [gparses] at hparses
  obtain rfl : gvalue = hvalue := by
    have := Option.some.inj hparses
    omega
  exact ⟨rfl, (List.cons.inj hrest).2⟩

end Header

/-- An argument as the parser reads it. -/
structure Item where
  header : Header
  payload : Bytes
  tail : Bytes
  length_payload : payload.length = header.value
  length_tail : tail.length = 2

namespace Item

def bytes (i : Item) : Bytes := [36] ++ i.header.bytes ++ i.payload ++ i.tail

/-- The positions of the payload, for an argument that starts at a position. -/
def span (i : Item) (k : ℕ) : ℤ × ℤ :=
  (((k + 1 + i.header.bytes.length : ℕ) : ℤ),
    ((k + 1 + i.header.bytes.length + i.payload.length : ℕ) : ℤ))

/-- The argument with its payload in upper case. -/
def upper (i : Item) : Item :=
  { i with
    payload := upperASCII i.payload
    length_payload := by rw [upperASCII, List.length_map, i.length_payload] }

theorem length_bytes (i : Item) :
    i.bytes.length = 1 + i.header.bytes.length + i.payload.length + 2 := by
  simp [bytes, i.length_tail]
  omega

theorem unique {i j : Item} {r r' : Bytes} (heq : i.bytes ++ r = j.bytes ++ r') :
    i = j ∧ r = r' := by
  have hsplit : i.header.bytes ++ (i.payload ++ (i.tail ++ r)) =
      j.header.bytes ++ (j.payload ++ (j.tail ++ r')) := by
    simpa [bytes, List.append_assoc] using heq
  obtain ⟨hheader, hrest⟩ := Header.unique hsplit
  obtain ⟨hpayload, hend⟩ :=
    List.append_inj hrest (by rw [i.length_payload, j.length_payload, hheader])
  obtain ⟨htail, hr⟩ := List.append_inj hend (by rw [i.length_tail, j.length_tail])
  obtain ⟨_, _, _, _, _⟩ := i
  obtain ⟨_, _, _, _, _⟩ := j
  simp only at hheader hpayload htail
  subst hheader hpayload htail
  exact ⟨rfl, hr⟩

end Item

/-- The positions of the payloads of arguments that follow each other. -/
def spansFrom (k : ℕ) : List Item → List (ℤ × ℤ)
  | [] => []
  | i :: items => i.span k :: spansFrom (k + i.bytes.length) items

/-- A header, a payload of the declared length and two more bytes are an argument. -/
private theorem exists_item_of_fits {buf : Bytes} {k : ℕ} {header : Header}
    (hdrop : buf.drop (k + 1) = header.bytes ++ buf.drop (k + 1 + header.bytes.length))
    (hbulk : buf[k]? = some typeBulkString)
    (hfits : k + 1 + header.bytes.length + header.value + 2 ≤ buf.length) :
    ∃ i : Item, buf.drop k = i.bytes ++ buf.drop (k + i.bytes.length) ∧
      k + i.bytes.length ≤ buf.length := by
  have hpayload : ((buf.drop (k + 1 + header.bytes.length)).take header.value).length =
      header.value := List.length_take_of_le (by rw [List.length_drop]; omega)
  have htail : ((buf.drop (k + 1 + header.bytes.length + header.value)).take 2).length = 2 :=
    List.length_take_of_le (by rw [List.length_drop]; omega)
  have hcut : ∀ j m : ℕ, buf.drop j = (buf.drop j).take m ++ buf.drop (j + m) := by
    intro j m
    rw [← List.drop_drop, List.take_append_drop]
  obtain ⟨i, hheader, hpay, htl⟩ : ∃ i : Item, i.header = header ∧
      i.payload = (buf.drop (k + 1 + header.bytes.length)).take header.value ∧
      i.tail = (buf.drop (k + 1 + header.bytes.length + header.value)).take 2 :=
    ⟨⟨header, _, _, hpayload, htail⟩, rfl, rfl, rfl⟩
  have hlength : k + i.bytes.length = k + 1 + header.bytes.length + header.value + 2 := by
    rw [i.length_bytes, i.length_payload, hheader]
    omega
  obtain ⟨hlt, hc⟩ := List.getElem?_eq_some_iff.mp hbulk
  refine ⟨i, ?_, by omega⟩
  calc buf.drop k
      = [36] ++ (header.bytes ++ buf.drop (k + 1 + header.bytes.length)) := by
        rw [List.drop_eq_getElem_cons hlt, hc, hdrop]
        rfl
    _ = [36] ++ (header.bytes ++ (i.payload ++ (i.tail ++ buf.drop (k + i.bytes.length)))) := by
        rw [hlength, htl, ← hcut, hpay, ← hcut]
    _ = i.bytes ++ buf.drop (k + i.bytes.length) := by
        simp [Item.bytes, hheader]

section Parse

variable {buf : Bytes} (hbuf : buf.length ≤ maxAlloc)
include hbuf

theorem parseArg_item (i : Item) {cur : ℤ} {k : ℕ} (hcur : cur = k) {rest : Bytes}
    (hdrop : buf.drop k = i.bytes ++ rest) :
    parseArg buf cur = .ok (i.span k, ((k + i.bytes.length : ℕ) : ℤ)) := by
  have hlength := congrArg List.length hdrop
  rw [List.length_drop, List.length_append, i.length_bytes] at hlength
  have hget : buf[k]? = some typeBulkString := by
    rw [← List.head?_drop, hdrop]
    rfl
  have htail : buf.drop (k + 1) = i.header.bytes ++ (i.payload ++ i.tail ++ rest) := by
    rw [← List.tail_drop, hdrop]
    simp [Item.bytes]
  have hvalue := i.header.value_lt
  have hneed : k + 1 + i.header.bytes.length + i.payload.length + 2 = k + i.bytes.length := by
    rw [i.length_bytes]
    omega
  have hpay : parseArgPayload buf ((k + 1 + i.header.bytes.length : ℕ) : ℤ) i.payload.length =
      .ok (i.span k, ((k + i.bytes.length : ℕ) : ℤ)) := by
    rw [parseArgPayload_eq hbuf rfl (by omega) rfl (by rw [i.length_payload]; exact hvalue),
      if_pos (by unfold maxAlloc at hbuf; omega), if_pos (by omega), ← hneed]
    rfl
  rw [parseArg, if_neg (by omega), hcur, index_natCast, hget, orPanic, bind_ok,
    if_neg (by simp),
    readLine_of_lineAt_some hbuf (wrap64_succ hbuf rfl (by omega)) (by omega)
      (i.header.lineAt htail), bind_ok]
  simp only [i.header.parses]
  rw [if_neg (by omega), ← i.length_payload]
  exact hpay

theorem exists_item_of_parseArg {cur next : ℤ} {k : ℕ} (hcur : cur = k) {span : ℤ × ℤ}
    (h : parseArg buf cur = .ok (span, next)) :
    ∃ i : Item, buf.drop k = i.bytes ++ buf.drop (k + i.bytes.length) ∧
      k + i.bytes.length ≤ buf.length := by
  unfold parseArg at h
  split at h
  · cases h
  rename_i hlt
  obtain ⟨c, hc, h⟩ := bind_eq_ok h
  have hget := orPanic_eq_ok hc
  rw [hcur, index_natCast] at hget
  split at h
  · cases h
  rename_i hbulk
  obtain ⟨⟨line, last⟩, hread, h⟩ := bind_eq_ok h
  obtain ⟨last, rfl, hline⟩ :=
    lineAt_of_readLine hbuf (wrap64_succ hbuf hcur (by omega)) (by omega) hread
  obtain ⟨hafter, hle⟩ := lineAt_bounds hline
  simp only at h
  cases hint : parseIntBytes line with
  | none =>
    simp only [hint] at h
    cases h
  | some n =>
    simp only [hint] at h
    split at h
    · cases h
    rename_i hneg
    obtain ⟨len, rfl⟩ : ∃ len : ℕ, n = len := ⟨n.toNat, by omega⟩
    have hlen := (parseIntBytes_bounds hint).2
    obtain ⟨header, rfl, rfl, hdrop⟩ := Header.exists_of_lineAt hline hint
    rw [parseArgPayload_eq hbuf rfl hle rfl (by omega)] at h
    split at h
    · split at h
      · rename_i hfits
        refine exists_item_of_fits hdrop ?_ hfits
        rw [hget]
        exact congrArg some (not_not.mp hbulk)
      · cases h
    · cases h

theorem parseElems_items (items : List Item) {cur : ℤ} {k : ℕ} (hcur : cur = k) {rest : Bytes}
    (hdrop : buf.drop k = items.flatMap Item.bytes ++ rest) :
    parseElems (parseArg buf) items.length cur =
      .ok (spansFrom k items, ((k + (items.flatMap Item.bytes).length : ℕ) : ℤ)) := by
  induction items generalizing cur k with
  | nil => simp [parseElems, spansFrom, hcur]
  | cons i items ih =>
    rw [List.flatMap_cons, List.append_assoc] at hdrop
    have hnext : buf.drop (k + i.bytes.length) = items.flatMap Item.bytes ++ rest := by
      rw [← List.drop_drop, hdrop, List.drop_left]
    rw [List.length_cons, parseElems, parseArg_item hbuf i hcur hdrop, bind_ok]
    simp only
    rw [ih rfl hnext, bind_ok, List.flatMap_cons, List.length_append, ← Nat.add_assoc]
    rfl

theorem exists_items_of_parseElems {n : ℕ} {cur last : ℤ} {k : ℕ} (hcur : cur = k)
    {spans : List (ℤ × ℤ)} (h : parseElems (parseArg buf) n cur = .ok (spans, last)) :
    ∃ items : List Item, items.length = n ∧
      buf.drop k = items.flatMap Item.bytes ++ buf.drop (k + (items.flatMap Item.bytes).length) := by
  induction n generalizing cur k spans last with
  | zero => exact ⟨[], rfl, by simp⟩
  | succ n ih =>
    rw [parseElems] at h
    obtain ⟨⟨span, next⟩, harg, h⟩ := bind_eq_ok h
    obtain ⟨⟨spans', last'⟩, helems, -⟩ := bind_eq_ok h
    obtain ⟨i, hdrop, -⟩ := exists_item_of_parseArg hbuf hcur harg
    rw [parseArg_item hbuf i hcur hdrop] at harg
    cases harg
    obtain ⟨items, hlength, hrest⟩ := ih rfl helems
    refine ⟨i :: items, by rw [List.length_cons, hlength], ?_⟩
    rw [List.flatMap_cons, List.length_append, List.append_assoc, ← Nat.add_assoc, ← hrest]
    exact hdrop

end Parse

/-! ### Frames -/

/-- A request as the parser of arrays reads it. -/
structure RequestFrame where
  header : Header
  first : Item
  others : List Item
  length_items : others.length + 1 = header.value

namespace RequestFrame

def items (f : RequestFrame) : List Item := f.first :: f.others

/-- The bytes of the arguments follow the header of their number. -/
def bytes (f : RequestFrame) : Bytes := [42] ++ f.header.bytes ++ f.items.flatMap Item.bytes

/-- The frame with the command name in upper case. -/
def upper (f : RequestFrame) : RequestFrame := { f with first := f.first.upper }

/-- The request that the parser returns. -/
def request (f : RequestFrame) : Request :=
  { args := upperASCII f.first.payload :: f.others.map Item.payload
    raw := f.upper.bytes
    cmd := upperASCII f.first.payload }

theorem unique {f g : RequestFrame} {r r' : Bytes} (heq : f.bytes ++ r = g.bytes ++ r') :
    f = g ∧ r = r' := by
  have hsplit : f.header.bytes ++ (f.items.flatMap Item.bytes ++ r) =
      g.header.bytes ++ (g.items.flatMap Item.bytes ++ r') := by
    simpa [bytes, List.append_assoc] using heq
  obtain ⟨hheader, hrest⟩ := Header.unique hsplit
  have hitems : ∀ (xs ys : List Item), xs.length = ys.length →
      xs.flatMap Item.bytes ++ r = ys.flatMap Item.bytes ++ r' → xs = ys ∧ r = r' := by
    intro xs
    induction xs with
    | nil =>
      intro ys hlength heq
      obtain rfl := List.length_eq_zero_iff.mp hlength.symm
      exact ⟨rfl, heq⟩
    | cons x xs ih =>
      intro ys hlength heq
      obtain _ | ⟨y, ys⟩ := ys
      · cases hlength
      rw [List.flatMap_cons, List.flatMap_cons, List.append_assoc, List.append_assoc] at heq
      obtain ⟨rfl, hrest⟩ := Item.unique heq
      obtain ⟨rfl, hr⟩ := ih ys (by simpa using hlength) hrest
      exact ⟨rfl, hr⟩
  have hlength : f.items.length = g.items.length := by
    rw [items, items, List.length_cons, List.length_cons, f.length_items, g.length_items, hheader]
  obtain ⟨heq, hr⟩ := hitems f.items g.items hlength hrest
  obtain ⟨fheader, ffirst, fothers, _⟩ := f
  obtain ⟨gheader, gfirst, gothers, _⟩ := g
  simp only [items, List.cons.injEq] at heq hheader
  obtain ⟨rfl, rfl⟩ := heq
  subst hheader
  exact ⟨rfl, hr⟩

/-- The payloads are the slices at their positions. -/
theorem slices_spansFrom {raw : Bytes} (items : List Item) {k : ℕ} {rest : Bytes}
    (hdrop : raw.drop k = items.flatMap Item.bytes ++ rest) :
    ((spansFrom k items).mapM fun span => orPanic (slice raw span.1 span.2)) =
      .ok (items.map Item.payload) := by
  induction items generalizing k with
  | nil => rfl
  | cons i items ih =>
    rw [List.flatMap_cons, List.append_assoc] at hdrop
    have hnext : raw.drop (k + i.bytes.length) = items.flatMap Item.bytes ++ rest := by
      rw [← List.drop_drop, hdrop, List.drop_left]
    have hlength := congrArg List.length hdrop
    rw [List.length_drop, List.length_append, i.length_bytes] at hlength
    have hpayload : raw.drop (k + 1 + i.header.bytes.length) =
        i.payload ++ (i.tail ++ (items.flatMap Item.bytes ++ rest)) := by
      have hsplit : i.bytes = ([36] ++ i.header.bytes) ++ (i.payload ++ i.tail) := by
        simp [Item.bytes]
      have hfront : 1 + i.header.bytes.length = ([36] ++ i.header.bytes).length := by
        simp
        omega
      rw [Nat.add_assoc, ← List.drop_drop, hdrop, hsplit, List.append_assoc, hfront,
        List.drop_left, List.append_assoc]
    have hslice : slice raw (i.span k).1 (i.span k).2 = some i.payload := by
      rw [Item.span, slice_natCast (by omega) (by omega), hpayload, Nat.add_sub_cancel_left,
        List.take_left]
    rw [spansFrom, List.mapM_cons, hslice, orPanic, bind_ok, ih hnext, bind_ok]
    rfl

theorem upperSpan_eq (front payload back : Bytes) {span : ℤ × ℤ}
    (hspan : span = ((front.length : ℤ), ((front.length + payload.length : ℕ) : ℤ))) :
    upperSpan (front ++ payload ++ back) span = front ++ upperASCII payload ++ back := by
  have hlength : (((front.length + payload.length : ℕ) : ℤ) - front.length).toNat =
      payload.length := by omega
  have hback : (front ++ (payload ++ back)).drop (front.length + payload.length) = back := by
    rw [← List.append_assoc, ← List.length_append, List.drop_left]
  rw [upperSpan, hspan, List.append_assoc front payload]
  simp only
  rw [Int.toNat_natCast, Int.toNat_natCast, hlength, hback, List.take_left, List.drop_left,
    List.take_left]

theorem requestOfSpans_bytes (f : RequestFrame) :
    requestOfSpans f.bytes (spansFrom (1 + f.header.bytes.length) f.items) = .ok f.request := by
  have hdrop : f.bytes.drop (1 + f.header.bytes.length) = f.items.flatMap Item.bytes ++ [] := by
    have hfront : 1 + f.header.bytes.length = ([42] ++ f.header.bytes).length := by
      simp
      omega
    rw [bytes, hfront, List.drop_left, List.append_nil]
  have hsplit : f.bytes = ([42] ++ f.header.bytes ++ [36] ++ f.first.header.bytes) ++
      f.first.payload ++ (f.first.tail ++ f.others.flatMap Item.bytes) := by
    simp [bytes, items, Item.bytes]
  have hupper : f.upper.bytes = ([42] ++ f.header.bytes ++ [36] ++ f.first.header.bytes) ++
      upperASCII f.first.payload ++ (f.first.tail ++ f.others.flatMap Item.bytes) := by
    simp [bytes, items, Item.bytes, upper, Item.upper]
  have hspan : f.first.span (1 + f.header.bytes.length) =
      ((([42] ++ f.header.bytes ++ [36] ++ f.first.header.bytes).length : ℤ),
        ((([42] ++ f.header.bytes ++ [36] ++ f.first.header.bytes).length +
          f.first.payload.length : ℕ) : ℤ)) := by
    simp only [Item.span, List.length_append, List.length_cons, List.length_nil]
  rw [requestOfSpans, slices_spansFrom f.items hdrop, bind_ok]
  simp only [items, spansFrom, List.map_cons]
  rw [hsplit, upperSpan_eq _ _ _ hspan, ← hupper]
  rfl

/-- A frame at the front of a buffer is parsed, if Go can make a slice for the arguments. -/
theorem parseRequest_append (f : RequestFrame) (rest : Bytes)
    (hbuf : (f.bytes ++ rest).length ≤ maxAlloc) :
    parseRequest (f.bytes ++ rest) =
      (makeSlice sizeofSlice f.items.length >>= fun _ => .ok (f.request, (f.bytes.length : ℤ))) := by
  have hvalue : f.header.value = f.items.length := f.length_items.symm
  have hbytes : f.bytes ++ rest =
      42 :: (f.header.bytes ++ (f.items.flatMap Item.bytes ++ rest)) := by
    simp [bytes]
  have hheader : (f.bytes ++ rest).drop 1 =
      f.header.bytes ++ (f.items.flatMap Item.bytes ++ rest) := by
    rw [hbytes]
    rfl
  have hitems : (f.bytes ++ rest).drop (1 + f.header.bytes.length) =
      f.items.flatMap Item.bytes ++ rest := by
    rw [← List.drop_drop, hheader, List.drop_left]
  have hlast : 1 + f.header.bytes.length + (f.items.flatMap Item.bytes).length =
      f.bytes.length := by
    simp [bytes]
    omega
  have hraw : slice (f.bytes ++ rest) 0 (f.bytes.length : ℤ) = some f.bytes := by
    have := slice_natCast (s := f.bytes ++ rest) (Nat.zero_le f.bytes.length) (by simp)
    simpa using this
  have hone : (1 : ℤ) = (1 : ℕ) := rfl
  have hline := readLine_of_lineAt_some hbuf hone (by rw [hbytes]; simp)
    (f.header.lineAt hheader)
  have hne : f.bytes ++ rest ≠ [] := by
    rw [hbytes]
    exact List.cons_ne_nil _ _
  have hfirst : index (f.bytes ++ rest) 0 = some typeArray := by
    rw [hbytes]
    rfl
  rw [parseRequest, if_neg hne, hfirst, orPanic, bind_ok, if_neg (by simp), parseArrayRequest,
    hline, bind_ok]
  simp only [f.header.parses]
  rw [if_neg (by rw [hvalue, items, List.length_cons]; omega), hvalue, Int.toNat_natCast,
    parseElems_items hbuf f.items rfl hitems, hlast, bind_ok]
  simp only [hraw]
  rw [orPanic, bind_ok, f.requestOfSpans_bytes, bind_ok]
  rfl

/-- A request that is parsed stands at the front of the buffer as a frame. -/
theorem exists_of_parseRequest {buf : Bytes} (hbuf : buf.length ≤ maxAlloc)
    (hstar : buf.head? = some typeArray) {req : Request} {n : ℤ}
    (h : parseRequest buf = .ok (req, n)) :
    ∃ (f : RequestFrame) (rest : Bytes), buf = f.bytes ++ rest ∧ n = f.bytes.length ∧
      req = f.request ∧ MakeOk sizeofSlice f.items.length := by
  obtain ⟨tail, rfl⟩ : ∃ tail, buf = typeArray :: tail := List.head?_eq_some_iff.mp hstar
  have harray : parseArrayRequest (typeArray :: tail) = .ok (req, n) := h
  unfold parseArrayRequest at harray
  obtain ⟨⟨line, pos⟩, hread, harray⟩ := bind_eq_ok harray
  obtain ⟨last, rfl, hline⟩ := lineAt_of_readLine hbuf rfl (by simp) hread
  simp only at harray
  cases hint : parseIntBytes line with
  | none =>
    simp only [hint] at harray
    cases harray
  | some count =>
    simp only [hint] at harray
    split at harray
    · cases harray
    rename_i hpos
    obtain ⟨count, rfl⟩ : ∃ k : ℕ, count = k := ⟨count.toNat, by omega⟩
    obtain ⟨-, -, harray⟩ := bind_eq_ok harray
    obtain ⟨⟨spans, cur⟩, helems, -⟩ := bind_eq_ok harray
    obtain ⟨header, rfl, rfl, hdrop⟩ := Header.exists_of_lineAt hline hint
    obtain ⟨items, hlength, hitems⟩ := exists_items_of_parseElems hbuf rfl helems
    rw [Int.toNat_natCast] at hlength
    obtain _ | ⟨first, others⟩ := items
    · rw [List.length_nil] at hlength
      omega
    let f : RequestFrame := ⟨header, first, others, by simpa using hlength⟩
    obtain ⟨rest, hsplit⟩ : ∃ rest, typeArray :: tail = f.bytes ++ rest := by
      have htail : tail = header.bytes ++ List.drop (1 + header.bytes.length) (typeArray :: tail) :=
        hdrop
      rw [hitems] at htail
      exact ⟨_, by rw [bytes, List.append_assoc, List.append_assoc]; exact congrArg _ htail⟩
    rw [hsplit] at h hbuf
    rw [f.parseRequest_append rest hbuf] at h
    obtain ⟨_, hmake, h⟩ := bind_eq_ok h
    cases h
    refine ⟨f, rest, hsplit, rfl, rfl, ?_⟩
    unfold makeSlice at hmake
    split at hmake
    · assumption
    · cases hmake

end RequestFrame

end Pluster.Proto
