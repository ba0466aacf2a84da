import Pluster.Proto.ParseSafety
import Pluster.Lib.Framing

/-!
# Parsers on a growing buffer

A parser that has come to a result does not change it when more bytes arrive: the
positions, lines and lengths that it has read are the same. So the frames that the
loops over a connection extract do not depend on how the stream was split into reads.
-/

namespace Pluster.Proto

open GoStrings GoRuntime

variable {α : Type} {k : ℕ} {pos : ℤ} {walk : ℕ → Walk}

/-- The result on a longer buffer is the same, unless the parser has asked for more. -/
def Extends {α : Type} (result result' : Parse α) : Prop :=
  result = .error .incomplete ∨ result' = result

theorem Extends.same (result : Parse α) : Extends result result := Or.inr rfl

theorem Extends.incomplete (result : Parse α) : Extends (.error .incomplete) result :=
  Or.inl rfl

/-- A result stays. -/
theorem Extends.eq {result result' : Parse α} (h : Extends result result')
    (hresult : result ≠ .error .incomplete) : result' = result :=
  h.resolve_left hresult

theorem Extends.bind {β : Type} {x x' : Parse α} {f f' : α → Parse β} (h : Extends x x')
    (hf : ∀ a, x = .ok a → Extends (f a) (f' a)) : Extends (x >>= f) (x' >>= f') := by
  rcases h with hx | hx
  · rw [hx, bind_error]
    exact .incomplete _
  rw [hx]
  cases x with
  | error e => exact .same _
  | ok a => exact hf a rfl

/-- A line of a buffer is a line of a longer one. -/
theorem lineAt_append {b : Bytes} {line : Bytes} {last : ℕ} (h : lineAt b k = some (line, last))
    (e : Bytes) : lineAt (b ++ e) k = some (line, last) := by
  obtain ⟨hlt, hle⟩ := lineAt_bounds h
  obtain ⟨idx, hidx, heq⟩ := Option.map_eq_some_iff.mp h
  have hdrop : (b ++ e).drop k = b.drop k ++ e := List.drop_append_of_le_length (by omega)
  have hlength : idx < (b.drop k).length := (List.findIdx?_eq_some_iff_getElem.mp hidx).1
  have hidx' : indexByte ((b ++ e).drop k) 10 = some idx := by
    unfold indexByte at hidx ⊢
    rw [hdrop, List.findIdx?_append, hidx]
    rfl
  rw [lineAt, hidx', Option.map_some, ← heq, hdrop, List.take_append_of_le_length (Nat.le_of_lt hlength)]

section Buffer

variable {b e : Bytes} (hbuf : (b ++ e).length ≤ maxAlloc)
include hbuf

private theorem length_le_maxAlloc : b.length ≤ maxAlloc := by
  rw [List.length_append] at hbuf
  omega

/-- Go on with a line. -/
theorem Extends.readLine (hpos : pos = k) (hk : k ≤ b.length) {f f' : Bytes × ℤ → Parse α}
    (hf : ∀ line (last : ℕ), k < last → last ≤ b.length →
      Extends (f (line, (last : ℤ))) (f' (line, (last : ℤ)))) :
    Extends (Proto.readLine b pos >>= f) (Proto.readLine (b ++ e) pos >>= f') := by
  cases hline : lineAt b k with
  | none =>
    rw [readLine_of_lineAt_none hpos hk hline, bind_error]
    exact .incomplete _
  | some found =>
    obtain ⟨line, last⟩ := found
    obtain ⟨hlt, hle⟩ := lineAt_bounds hline
    have hk' : k ≤ (b ++ e).length := by
      rw [List.length_append]
      omega
    rw [readLine_of_lineAt_some (length_le_maxAlloc hbuf) hpos hk hline,
      readLine_of_lineAt_some hbuf hpos hk' (lineAt_append hline e), bind_ok, bind_ok]
    exact hf line last hlt hle

omit hbuf in
/-- The choice that a bulk string of a declared length leaves. -/
private theorem extends_bulk (a : α) (last len : ℕ) :
    Extends (if last + len + 2 < 2 ^ 63 then
        if last + len + 2 ≤ b.length then (.ok (a, ((last + len + 2 : ℕ) : ℤ)) : Parse (α × ℤ))
        else .error .incomplete
      else .error .panic)
      (if last + len + 2 < 2 ^ 63 then
        if last + len + 2 ≤ (b ++ e).length then .ok (a, ((last + len + 2 : ℕ) : ℤ))
        else .error .incomplete
      else .error .panic) := by
  rw [List.length_append]
  split
  · by_cases hfits : last + len + 2 ≤ b.length
    · rw [if_pos hfits, if_pos (by omega)]
      exact .same _
    rw [if_neg hfits]
    exact .incomplete _
  · exact .same _

section Payload

variable {pos n : ℤ} {last len : ℕ} (hpos : pos = last) (hlast : last ≤ b.length) (hn : n = len)
  (hlen : len < 2 ^ 63)
include hpos hlast hn hlen

theorem extends_parseArgPayload :
    Extends (parseArgPayload b pos n) (parseArgPayload (b ++ e) pos n) := by
  have hlast' : last ≤ (b ++ e).length := by
    rw [List.length_append]
    omega
  rw [parseArgPayload_eq (length_le_maxAlloc hbuf) hpos hlast hn hlen,
    parseArgPayload_eq hbuf hpos hlast' hn hlen]
  exact extends_bulk _ last len

theorem extends_parseBulkPayload :
    Extends (parseBulkPayload b pos n) (parseBulkPayload (b ++ e) pos n) := by
  have hlast' : last ≤ (b ++ e).length := by
    rw [List.length_append]
    omega
  rw [parseBulkPayload_eq (length_le_maxAlloc hbuf) hpos hlast hn hlen,
    parseBulkPayload_eq hbuf hpos hlast' hn hlen]
  by_cases hfits : last + len + 2 ≤ b.length
  · -- The payload is in the shorter buffer.
    have hdata : ((b ++ e).drop last).take len = (b.drop last).take len := by
      rw [List.drop_append_of_le_length hlast, List.take_append_of_le_length]
      rw [List.length_drop]
      omega
    rw [hdata]
    exact extends_bulk _ last len
  · rw [if_neg hfits]
    split
    · exact .incomplete _
    · exact .same _

end Payload

omit hbuf in
/-- The byte at a position of the shorter buffer. -/
private theorem index_append (hpos : pos = k) (hk : k < b.length) :
    index b pos = some b[k] ∧ index (b ++ e) pos = some b[k] := by
  rw [hpos, index_natCast, index_natCast, List.getElem?_append_left hk,
    List.getElem?_eq_getElem hk]
  exact ⟨rfl, rfl⟩

theorem extends_parseArg (cur : ℤ) (k : ℕ) (hcur : cur = k) :
    Extends (parseArg b cur) (parseArg (b ++ e) cur) := by
  unfold parseArg
  by_cases hend : (b.length : ℤ) ≤ cur
  · rw [if_pos hend]
    exact .incomplete _
  have hlt : k < b.length := by omega
  obtain ⟨hindex, hindex'⟩ := index_append hcur hlt
  have hnext := wrap64_succ (length_le_maxAlloc hbuf) hcur (Nat.le_of_lt hlt)
  rw [if_neg hend, if_neg (by rw [List.length_append]; omega), hindex, hindex', orPanic, bind_ok,
    bind_ok]
  split
  · exact .incomplete _
  refine Extends.readLine hbuf hnext hlt fun line last _ hlast => ?_
  simp only
  cases hint : parseIntBytes line with
  | none => exact .same _
  | some len =>
    have := parseIntBytes_bounds hint
    simp only
    split
    · exact .same _
    · exact extends_parseArgPayload hbuf rfl hlast (by omega : len = (len.toNat : ℕ)) (by omega)

omit hbuf in
/-- The loop over the elements, by induction on their number. -/
theorem Extends.elems {parse parse' : ℤ → Parse (α × ℤ)} (start : ℕ)
    (hwalk : ∀ k, (walk k).Within b k)
    (hagrees : ∀ (cur : ℤ) (k : ℕ), cur = k → start ≤ k → k ≤ b.length →
      Agrees (parse cur) (walk k))
    (hparse : ∀ (cur : ℤ) (k : ℕ), cur = k → start ≤ k → k ≤ b.length →
      Extends (parse cur) (parse' cur)) (n : ℕ) (cur : ℤ) (k : ℕ) (hcur : cur = k)
    (hstart : start ≤ k) (hk : k ≤ b.length) :
    Extends (parseElems parse n cur) (parseElems parse' n cur) := by
  induction n generalizing cur k with
  | zero => exact .same _
  | succ n ih =>
    rw [parseElems, parseElems]
    refine (hparse cur k hcur hstart hk).bind fun found hfound => ?_
    obtain ⟨a, next⟩ := found
    have hstop := hagrees cur k hcur hstart hk
    rw [hfound] at hstop
    obtain ⟨last, hlast, hnext⟩ := hstop.stop
    obtain ⟨hlt, hle⟩ := hwalk k last hlast
    exact (ih next last hnext (by omega) hle).bind fun _ _ => .same _

omit hbuf in
/-- The front of the shorter buffer. -/
private theorem slice_append {hi : ℕ} (hhi : hi ≤ b.length) :
    slice (b ++ e) 0 hi = slice b 0 hi := by
  have hfront : ∀ buf : Bytes, hi ≤ buf.length → slice buf 0 hi = some (buf.take hi) := by
    intro buf hle
    have := slice_natCast (s := buf) (Nat.zero_le hi) hle
    simpa using this
  rw [hfront b hhi, hfront (b ++ e) (by rw [List.length_append]; omega),
    List.take_append_of_le_length hhi]

theorem extends_parseArrayRequest (hne : b ≠ []) :
    Extends (parseArrayRequest b) (parseArrayRequest (b ++ e)) := by
  have hbuf' := length_le_maxAlloc hbuf
  unfold parseArrayRequest
  refine Extends.readLine hbuf rfl (List.length_pos_of_ne_nil hne) fun line last _ hlast => ?_
  simp only
  cases hint : parseIntBytes line with
  | none => exact .same _
  | some n =>
    simp only
    split
    · exact .same _
    refine Extends.bind (.same _) fun _ _ => ?_
    have hagrees := Agrees.elems 0 (walkArg_within b)
      (fun cur k hcur _ hk => parseArg_agrees hbuf' cur k hcur hk) n.toNat last last rfl
      (Nat.zero_le _) hlast
    refine Extends.bind (Extends.elems 0 (walkArg_within b)
      (fun cur k hcur _ hk => parseArg_agrees hbuf' cur k hcur hk)
      (fun cur k hcur _ _ => extends_parseArg hbuf cur k hcur) n.toNat last last rfl
      (Nat.zero_le _) hlast) fun found hfound => ?_
    obtain ⟨spans, cur⟩ := found
    rw [hfound] at hagrees
    obtain ⟨stop, hstop, hcur⟩ := hagrees.stop
    have hbound := (walkElems_stop (walkArg_within b) hlast hstop).2
    have hraw := slice_append (e := e) hbound
    simp only [hcur]
    rw [hraw]
    exact .same _

theorem extends_parseInlineRequest :
    Extends (parseInlineRequest b) (parseInlineRequest (b ++ e)) := by
  unfold parseInlineRequest
  cases hidx : indexByte b 10 with
  | none => exact .incomplete _
  | some k =>
    have hlt : k < b.length := (List.findIdx?_eq_some_iff_getElem.mp hidx).1
    have hidx' : indexByte (b ++ e) 10 = some k := by
      unfold indexByte at hidx ⊢
      rw [List.findIdx?_append, hidx]
      rfl
    have hline := slice_append (e := e) (Nat.le_of_lt hlt)
    have hraw : slice (b ++ e) 0 (k + 1 : ℕ) = slice b 0 (k + 1 : ℕ) := slice_append hlt
    have hend := wrap64_succ (length_le_maxAlloc hbuf) (rfl : (k : ℤ) = k) (Nat.le_of_lt hlt)
    rw [hidx']
    simp only [parseInlineLine, hend]
    rw [hline, hraw]
    exact .same _

/-- `ParseRequest` on a growing buffer. -/
theorem extends_parseRequest : Extends (parseRequest b) (parseRequest (b ++ e)) := by
  unfold parseRequest
  by_cases hne : b = []
  · rw [if_pos hne]
    exact .incomplete _
  have hlt := List.length_pos_of_ne_nil hne
  have hzero : (0 : ℤ) = (0 : ℕ) := rfl
  obtain ⟨hindex, hindex'⟩ := index_append (e := e) hzero hlt
  rw [if_neg hne, if_neg (by simp [hne]), hindex, hindex', orPanic, bind_ok, bind_ok]
  split
  · exact extends_parseInlineRequest hbuf
  · exact extends_parseArrayRequest hbuf hne

theorem extends_parseValueAt (fuel fuel' : ℕ) (pos : ℤ) (k : ℕ) (hpos : pos = k)
    (hfuel : b.length < fuel + k) (hfuel' : fuel ≤ fuel') (hk : k ≤ b.length) :
    Extends (parseValueAt b fuel pos) (parseValueAt (b ++ e) fuel' pos) := by
  have hbuf' := length_le_maxAlloc hbuf
  induction fuel generalizing fuel' pos k with
  | zero => omega
  | succ fuel ih =>
    obtain ⟨fuel', rfl⟩ : ∃ m, fuel' = m + 1 := ⟨fuel' - 1, by omega⟩
    rw [parseValueAt, parseValueAt]
    by_cases hend : (b.length : ℤ) ≤ pos
    · rw [if_pos hend]
      exact .incomplete _
    have hlt : k < b.length := by omega
    obtain ⟨hindex, hindex'⟩ := index_append (e := e) hpos hlt
    have hnext := wrap64_succ hbuf' hpos hk
    rw [if_neg hend, if_neg (by rw [List.length_append]; omega), hindex, hindex', orPanic,
      bind_ok, bind_ok]
    split
    · exact Extends.readLine hbuf hnext hlt fun line last _ _ => .same _
    split
    · refine Extends.readLine hbuf hnext hlt fun line last _ _ => ?_
      exact .same _
    split
    · refine Extends.readLine hbuf hnext hlt fun line last _ hlast => ?_
      simp only
      cases hint : parseIntBytes line with
      | none => exact .same _
      | some n =>
        have := parseIntBytes_bounds hint
        simp only
        split
        · exact .same _
        · exact extends_parseBulkPayload hbuf rfl hlast (by omega : n = (n.toNat : ℕ)) (by omega)
    split
    · refine Extends.readLine hbuf hnext hlt fun line last _ hlast => ?_
      simp only
      cases hint : parseIntBytes line with
      | none => exact .same _
      | some n =>
        simp only
        split
        · exact .same _
        refine Extends.bind (.same _) fun _ _ => ?_
        refine Extends.bind (Extends.elems last (walkValueAt_within .parseValue b fuel)
          (fun cur j hcur hj hjle => parseValueAt_agrees hbuf' fuel cur j hcur (by omega) hjle)
          (fun cur j hcur hj hjle => ih fuel' cur j hcur (by omega) (by omega) hjle)
          n.toNat last last rfl (le_refl last) hlast) fun _ _ => .same _
    · unfold parseInlineAt
      exact Extends.readLine hbuf hpos hk fun line last _ _ => .same _

/-- `ParseValue` on a growing buffer. -/
theorem extends_parseValue : Extends (parseValue b) (parseValue (b ++ e)) :=
  extends_parseValueAt hbuf _ _ 0 0 rfl (by omega) (by rw [List.length_append]; omega)
    (Nat.zero_le _)

end Buffer

/-! ### Scanning -/

/-- The result on a longer buffer is the same, unless the value is not complete. -/
def ScanExtends (result result' : Parse Scan) : Prop := result = .ok scanNone ∨ result' = result

section Scan

variable {b e : Bytes} (hbuf : (b ++ e).length ≤ maxAlloc)
include hbuf

theorem ScanExtends.scanLine (hpos : pos = k) (hk : k ≤ b.length) {f f' : Bytes × ℤ → Parse Scan}
    (hf : ∀ line (last : ℕ), k < last → last ≤ b.length →
      ScanExtends (f (line, (last : ℤ))) (f' (line, (last : ℤ)))) :
    ScanExtends (Proto.scanLine b pos f) (Proto.scanLine (b ++ e) pos f') := by
  unfold Proto.scanLine
  cases hline : lineAt b k with
  | none =>
    rw [readLine_of_lineAt_none hpos hk hline]
    exact Or.inl rfl
  | some found =>
    obtain ⟨line, last⟩ := found
    obtain ⟨hlt, hle⟩ := lineAt_bounds hline
    have hk' : k ≤ (b ++ e).length := by
      rw [List.length_append]
      omega
    rw [readLine_of_lineAt_some (length_le_maxAlloc hbuf) hpos hk hline,
      readLine_of_lineAt_some hbuf hpos hk' (lineAt_append hline e)]
    exact hf line last hlt hle

omit hbuf in
theorem scanExtends_scanBulkPayload (last n : ℤ) :
    ScanExtends (scanBulkPayload b last n) (scanBulkPayload (b ++ e) last n) := by
  simp only [scanBulkPayload]
  by_cases hfits : (b.length : ℤ) < wrap64 (wrap64 (last + n) + 2)
  · rw [if_pos hfits]
    exact Or.inl rfl
  rw [if_neg hfits, if_neg (by rw [List.length_append]; omega)]
  exact Or.inr rfl

omit hbuf in
/-- The loop over the elements, by induction on their number. From a negative end both
loops go the same way. -/
theorem ScanExtends.elems {scan scan' : ℤ → Parse Scan} (start : ℕ)
    (hwalk : ∀ k, (walk k).Within b k)
    (hneg : ∀ pos, pos < 0 → scan pos = .error .panic ∧ scan' pos = .error .panic)
    (hagrees : ∀ (cur : ℤ) (k : ℕ), cur = k → start ≤ k → k ≤ b.length →
      ScanAgrees (scan cur) (walk k))
    (hscan : ∀ (cur : ℤ) (k : ℕ), cur = k → start ≤ k → k ≤ b.length →
      ScanExtends (scan cur) (scan' cur)) (n : ℕ) (cur : ℤ) (k : ℕ) (hcur : cur = k)
    (hstart : start ≤ k) (hk : k ≤ b.length) :
    ScanExtends (scanElems scan n cur) (scanElems scan' n cur) := by
  induction n generalizing cur k with
  | zero => exact Or.inr rfl
  | succ n ih =>
    rw [scanElems, scanElems]
    rcases hscan cur k hcur hstart hk with hnone | hsame
    · rw [hnone, bind_ok]
      exact Or.inl rfl
    rw [hsame]
    obtain ⟨hsafe, hfail⟩ := hagrees cur k hcur hstart hk
    by_cases hall : (walk k).Safe
    · have hstop := hsafe hall
      cases hlast : (walk k).stop with
      | none =>
        simp only [hlast] at hstop
        rw [hstop, bind_ok]
        exact Or.inl rfl
      | some last =>
        simp only [hlast] at hstop
        obtain ⟨kind, msg, hok⟩ := hstop
        obtain ⟨hlt, hle⟩ := hwalk k last hlast
        rw [hok, bind_ok]
        simp only
        rw [if_neg (by omega), bind_ok]
        simp only
        rw [if_neg (by omega)]
        exact ih last last rfl (by omega) hle
    · rcases hfail hall with hpanic | ⟨last, kind, msg, hlast, hok⟩
      · rw [hpanic, bind_error, bind_error]
        exact Or.inr rfl
      have hne : last ≠ 0 := by omega
      rw [hok, bind_ok, bind_ok]
      simp only [if_neg hne]
      cases n with
      | zero => exact Or.inr rfl
      | succ n =>
        rw [scanElems, scanElems, (hneg last hlast).1, (hneg last hlast).2, bind_error,
          bind_error]
        exact Or.inr rfl

theorem extends_scanValueAt (fuel fuel' : ℕ) (pos : ℤ) (k : ℕ) (hpos : pos = k)
    (hfuel : b.length < fuel + k) (hfuel' : fuel ≤ fuel') (hk : k ≤ b.length) :
    ScanExtends (scanValueAt b fuel pos) (scanValueAt (b ++ e) fuel' pos) := by
  have hbuf' := length_le_maxAlloc hbuf
  induction fuel generalizing fuel' pos k with
  | zero => omega
  | succ fuel ih =>
    obtain ⟨fuel', rfl⟩ : ∃ m, fuel' = m + 1 := ⟨fuel' - 1, by omega⟩
    rw [scanValueAt, scanValueAt]
    by_cases hend : (b.length : ℤ) ≤ pos
    · rw [if_pos hend]
      exact Or.inl rfl
    have hlt : k < b.length := by omega
    obtain ⟨hindex, hindex'⟩ := index_append (e := e) hpos hlt
    have hnext := wrap64_succ hbuf' hpos hk
    rw [if_neg hend, if_neg (by rw [List.length_append]; omega), hindex, hindex', orPanic,
      bind_ok, bind_ok]
    split
    · exact ScanExtends.scanLine hbuf hnext hlt fun line last _ _ => Or.inr rfl
    split
    · exact ScanExtends.scanLine hbuf hnext hlt fun line last _ _ => Or.inr rfl
    split
    · refine ScanExtends.scanLine hbuf hnext hlt fun line last _ hlast => ?_
      simp only
      cases hint : parseIntBytes line with
      | none => exact Or.inr rfl
      | some n =>
        simp only
        split
        · exact Or.inr rfl
        · exact scanExtends_scanBulkPayload last n
    split
    · refine ScanExtends.scanLine hbuf hnext hlt fun line last _ hlast => ?_
      simp only
      cases hint : parseIntBytes line with
      | none => exact Or.inr rfl
      | some n =>
        simp only
        split
        · exact Or.inr rfl
        exact ScanExtends.elems last (walkValueAt_within .scanValue b fuel)
          (fun pos hneg => ⟨scanValueAt_neg b fuel hneg, scanValueAt_neg (b ++ e) fuel' hneg⟩)
          (fun cur j hcur hj hjle => scanValueAt_agrees hbuf' fuel cur j hcur (by omega) hjle)
          (fun cur j hcur hj hjle => ih fuel' cur j hcur (by omega) (by omega) hjle)
          n.toNat last last rfl (le_refl last) hlast
    · exact ScanExtends.scanLine hbuf hpos hk fun line last _ _ => Or.inr rfl

/-- `ScanValue` on a growing buffer. -/
theorem extends_scanValue : ScanExtends (scanValue b) (scanValue (b ++ e)) :=
  extends_scanValueAt hbuf _ _ 0 0 rfl (by omega) (by rw [List.length_append]; omega)
    (Nat.zero_le _)

end Scan

end Pluster.Proto
