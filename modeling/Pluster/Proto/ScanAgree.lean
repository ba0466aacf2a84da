import Pluster.Proto.Extension

/-!
# The scanner and the parser

`ScanValue` delimits the replies that the multiplexer forwards, and the merge functions
parse what it has delimited. It ends where `ParseValue` ends, and what it delimits is
never an incomplete value for `ParseValue`.
-/

namespace Pluster.Proto

open GoStrings GoRuntime

variable {fuel k m : ℕ} {pos n last next cur stop : ℤ} {v : Value} {line msg : Bytes} {α : Type}
  {limit : Prop} {kind : ErrorKind}

namespace Value

/-- The kind of error that a value is. -/
def errorKind (v : Value) : ErrorKind :=
  if v.isMovedError then .moved
  else if v.isAskError then .ask
  else if v.isError then .other
  else .none

/-- The text of an error, empty for other values. -/
def errMsg : Value → Bytes
  | .error str => str
  | _ => []

end Value

theorem errorKind_error (str : Bytes) : (Value.error str).errorKind = errorKind str := by
  simp [Value.errorKind, errorKind, Value.isMovedError, Value.isAskError, Value.isError]

/-! ### From the parser to the scanner -/

section Parse

variable {buf : Bytes} (hbuf : buf.length ≤ maxAlloc)
include hbuf

/-- The position after a value lies behind the value. -/
theorem parseValueAt_bounds (hpos : pos = k) (hfuel : buf.length < fuel + k) (hk : k ≤ buf.length)
    (h : parseValueAt buf fuel pos = .ok (v, n)) :
    ∃ last : ℕ, n = last ∧ k < last ∧ last ≤ buf.length := by
  have hagrees := parseValueAt_agrees hbuf fuel pos k hpos hfuel hk
  rw [h] at hagrees
  obtain ⟨last, hlast, hn⟩ := hagrees.stop
  exact ⟨last, hn, walkValueAt_within .parseValue buf fuel k last hlast⟩

omit hbuf in
private theorem scanBulkPayload_of_parse (h : parseBulkPayload buf last n = .ok (v, next)) :
    scanBulkPayload buf last n = .ok (next, .none, []) ∧ v.errorKind = .none ∧ v.errMsg = [] := by
  simp only [parseBulkPayload] at h
  split at h
  · cases h
  rename_i hfits
  obtain ⟨_, -, h⟩ := bind_eq_ok h
  obtain ⟨data, -, h⟩ := bind_eq_ok h
  cases h
  refine ⟨?_, rfl, rfl⟩
  simp only [scanBulkPayload]
  rw [if_neg hfits]

/-- The elements of an array, by induction on their number. -/
private theorem scanElems_of_parse (start : ℕ)
    (hscan : ∀ (cur : ℤ) (k : ℕ) (v : Value) (next : ℤ), cur = k → start ≤ k → k ≤ buf.length →
      parseValueAt buf fuel cur = .ok (v, next) →
      scanValueAt buf fuel cur = .ok (next, v.errorKind, v.errMsg))
    (hfuel : buf.length < fuel + start) (n : ℕ) {vs : List Value} (hcur : cur = k)
    (hstart : start ≤ k) (hk : k ≤ buf.length)
    (h : parseElems (parseValueAt buf fuel) n cur = .ok (vs, last)) :
    scanElems (scanValueAt buf fuel) n cur = .ok (last, .none, []) := by
  induction n generalizing cur k vs with
  | zero =>
    cases h
    rfl
  | succ n ih =>
    rw [parseElems] at h
    obtain ⟨⟨v, next⟩, hv, h⟩ := bind_eq_ok h
    obtain ⟨⟨rest, last'⟩, hrest, h⟩ := bind_eq_ok h
    cases h
    obtain ⟨stop, rfl, hlt, hle⟩ := parseValueAt_bounds hbuf hcur (by omega) hk hv
    rw [scanElems, hscan cur k v stop hcur hstart hk hv, bind_ok]
    simp only
    rw [if_neg (by omega)]
    exact ih rfl (by omega) hle hrest

/-- The scanner ends where the parser ends, by induction on the fuel. -/
theorem scanValueAt_of_parse (fuel : ℕ) (pos : ℤ) (k : ℕ) (v : Value) (n : ℤ) (hpos : pos = k)
    (hfuel : buf.length < fuel + k) (hk : k ≤ buf.length)
    (h : parseValueAt buf fuel pos = .ok (v, n)) :
    scanValueAt buf fuel pos = .ok (n, v.errorKind, v.errMsg) := by
  induction fuel generalizing pos k v n with
  | zero => omega
  | succ fuel ih =>
    rw [parseValueAt] at h
    rw [scanValueAt]
    split at h
    · cases h
    rename_i hin
    obtain ⟨typ, htyp, h⟩ := bind_eq_ok h
    have hlt : k < buf.length := by omega
    rw [if_neg hin, htyp, bind_ok]
    by_cases hline : typ = typeSimpleString ∨ typ = typeError
    · rw [if_pos hline] at h
      obtain ⟨⟨line, last⟩, hread, h⟩ := bind_eq_ok h
      cases h
      rcases hline with rfl | rfl
      · rw [if_pos (Or.inl rfl), scanLine, hread]
        rfl
      rw [if_neg (by decide), if_pos rfl, scanLine, hread]
      simp only [if_true, errorKind_error, Value.errMsg]
    rw [if_neg hline] at h
    have hne : ¬ typ = typeError := fun herr => hline (Or.inr herr)
    by_cases hint : typ = typeInteger
    · rw [if_pos hint] at h
      obtain ⟨⟨line, last⟩, hread, h⟩ := bind_eq_ok h
      rw [if_pos (Or.inr hint), scanLine, hread]
      simp only at h
      split at h
      · cases h
      cases h
      rfl
    rw [if_neg hint] at h
    have hsimple : ¬ (typ = typeSimpleString ∨ typ = typeInteger) := by
      rintro (hs | hi)
      · exact hline (Or.inl hs)
      · exact hint hi
    rw [if_neg hsimple, if_neg hne]
    by_cases hbulk : typ = typeBulkString
    · rw [if_pos hbulk] at h ⊢
      obtain ⟨⟨line, last⟩, hread, h⟩ := bind_eq_ok h
      simp only [scanLine, hread]
      simp only at h
      cases hn : parseIntBytes line with
      | none => simp [hn] at h
      | some m =>
        simp only [hn] at h ⊢
        split at h
        · rename_i hneg
          cases h
          rw [if_pos hneg]
          rfl
        · rename_i hnonneg
          obtain ⟨hscan, hkind, hmsg⟩ := scanBulkPayload_of_parse h
          rw [if_neg hnonneg, hscan, hkind, hmsg]
    rw [if_neg hbulk] at h ⊢
    by_cases harray : typ = typeArray
    · rw [if_pos harray] at h ⊢
      obtain ⟨⟨line, last⟩, hread, h⟩ := bind_eq_ok h
      simp only [scanLine, hread]
      simp only at h
      cases hn : parseIntBytes line with
      | none => simp [hn] at h
      | some m =>
        simp only [hn] at h ⊢
        split at h
        · rename_i hneg
          cases h
          rw [if_pos hneg]
          rfl
        · rename_i hnonneg
          obtain ⟨_, -, h⟩ := bind_eq_ok h
          obtain ⟨⟨elems, cur⟩, helems, h⟩ := bind_eq_ok h
          cases h
          have hnext := wrap64_succ hbuf hpos hk
          obtain ⟨stop, rfl, hstop⟩ := lineAt_of_readLine hbuf hnext hlt hread
          obtain ⟨hbefore, hle⟩ := lineAt_bounds hstop
          rw [if_neg hnonneg]
          exact scanElems_of_parse hbuf stop
            (fun cur j v next hcur hj hjle hv => ih cur j v next hcur (by omega) hjle hv)
            (by omega) m.toNat rfl (le_refl stop) hle helems
    · rw [if_neg harray] at h ⊢
      unfold parseInlineAt at h
      obtain ⟨⟨line, last⟩, hread, h⟩ := bind_eq_ok h
      obtain ⟨parts, -, h⟩ := bind_eq_ok h
      cases h
      rw [scanLine, hread]
      rfl

end Parse

/-! ### From the scanner to the parser -/

/-- A line that ends in the front part of a buffer is a line of that part. -/
theorem lineAt_take {buf : Bytes} {last : ℕ} (h : lineAt buf k = some (line, last))
    (hm : last ≤ m) : lineAt (buf.take m) k = some (line, last) := by
  cases hfront : lineAt (buf.take m) k with
  | some found =>
    obtain ⟨line', last'⟩ := found
    have hwhole := lineAt_append hfront (buf.drop m)
    rw [List.take_append_drop, h] at hwhole
    rw [hwhole]
  | none =>
    -- The line feed would lie behind the front part.
    obtain ⟨idx, hidx, heq⟩ := Option.map_eq_some_iff.mp h
    obtain ⟨-, hlast⟩ := Prod.mk.inj heq
    have hbounds := lineAt_bounds h
    rw [lineAt, Option.map_eq_none_iff] at hfront
    have hsplit : buf.drop k = (buf.take m).drop k ++ buf.drop m := by
      conv_lhs => rw [← List.take_append_drop m buf]
      rw [List.drop_append_of_le_length]
      rw [List.length_take]
      omega
    unfold indexByte at hidx hfront
    rw [hsplit, List.findIdx?_append, hfront, Option.none_or] at hidx
    obtain ⟨i, -, hi⟩ := Option.map_eq_some_iff.mp hidx
    rw [List.length_drop, List.length_take] at hi
    omega

/-- The parser ends at a position or with a protocol error: it does not ask for more, and it
panics only under a condition. -/
structure EndsAt {α : Type} (result : Parse (α × ℤ)) (last : ℤ) (limit : Prop) : Prop where
  complete : result ≠ .error .incomplete
  stops : ∀ a n, result = .ok (a, n) → n = last
  panics : result = .error .panic → limit

theorem EndsAt.ok (a : α) (last : ℤ) (limit : Prop) : EndsAt (.ok (a, last)) last limit :=
  ⟨by simp, fun _ _ h => by cases h; rfl, fun h => by cases h⟩

theorem EndsAt.invalid (last : ℤ) (limit : Prop) :
    EndsAt (.error .invalidProtocol : Parse (α × ℤ)) last limit :=
  ⟨by simp, fun _ _ h => (by cases h), fun h => by cases h⟩

theorem EndsAt.bind {β : Type} {x : Parse (α × ℤ)} {f : α × ℤ → Parse (β × ℤ)} {mid : ℤ}
    (h : EndsAt x mid limit) (hf : ∀ a, x = .ok (a, mid) → EndsAt (f (a, mid)) last limit) :
    EndsAt (x >>= f) last limit := by
  cases x with
  | error e =>
    rw [bind_error]
    refine ⟨fun heq => h.complete ?_, fun _ _ heq => (by cases heq), fun heq => h.panics ?_⟩
    · cases heq
      rfl
    cases heq
    rfl
  | ok p =>
    obtain ⟨a, n⟩ := p
    obtain rfl := h.stops a n rfl
    exact hf a rfl

theorem EndsAt.make {result : Parse (α × ℤ)} {size : ℤ} (h : EndsAt result last limit)
    (hlimit : ¬ MakeOk size n → limit) :
    EndsAt (makeSlice size n >>= fun _ => result) last limit := by
  unfold makeSlice
  split
  · exact h
  rename_i hout
  exact ⟨by simp [bind_error], fun _ _ heq => (by cases heq), fun _ => hlimit hout⟩

section Scan

variable {buf : Bytes} (hbuf : buf.length ≤ maxAlloc)
include hbuf

/-- A positive end lies behind the value. -/
theorem scanValueAt_bounds (hpos : pos = k) (hfuel : buf.length < fuel + k) (hk : k ≤ buf.length)
    (h : scanValueAt buf fuel pos = .ok (next, kind, msg)) (hnext : 0 < next) :
    ∃ last : ℕ, next = last ∧ k < last ∧ last ≤ buf.length := by
  obtain ⟨hsafe, hbad⟩ := scanValueAt_agrees hbuf fuel pos k hpos hfuel hk
  rw [h] at hsafe hbad
  by_cases hall : (walkValueAt .scanValue buf fuel k).Safe
  · have hstop := hsafe hall
    cases hlast : (walkValueAt .scanValue buf fuel k).stop with
    | none =>
      simp only [hlast, scanNone, Except.ok.injEq, Prod.mk.injEq] at hstop
      omega
    | some last =>
      simp only [hlast, Except.ok.injEq, Prod.mk.injEq] at hstop
      obtain ⟨_, _, hnext', -⟩ := hstop
      exact ⟨last, hnext', walkValueAt_within .scanValue buf fuel k last hlast⟩
  · rcases hbad hall with herr | ⟨last, _, _, hneg, hok⟩
    · cases herr
    cases hok
    omega

/-- The parser of the front part reads the line that the scanner has found. -/
theorem EndsAt.readLine (hpos : pos = k) (hk : k ≤ buf.length) (hm : m ≤ buf.length)
    {g : Bytes × ℤ → Parse Scan} {f : Bytes × ℤ → Parse (α × ℤ)}
    (h : scanLine buf pos g = .ok (stop, kind, msg)) (hstop : 0 < stop)
    (hf : ∀ line (next : ℕ), lineAt buf k = some (line, next) →
      g (line, (next : ℤ)) = .ok (stop, kind, msg) →
      next ≤ m ∧ EndsAt (f (line, (next : ℤ))) stop limit) :
    EndsAt (Proto.readLine (buf.take m) pos >>= f) stop limit := by
  have hlength : (buf.take m).length = m := List.length_take_of_le hm
  unfold scanLine at h
  cases hline : lineAt buf k with
  | none =>
    rw [readLine_of_lineAt_none hpos hk hline] at h
    simp only [scanNone, Except.ok.injEq, Prod.mk.injEq] at h
    omega
  | some found =>
    obtain ⟨line, next⟩ := found
    obtain ⟨hlt, -⟩ := lineAt_bounds hline
    rw [readLine_of_lineAt_some hbuf hpos hk hline] at h
    obtain ⟨hnext, hends⟩ := hf line next hline h
    rw [readLine_of_lineAt_some (by omega) hpos (by omega) (lineAt_take hline hnext), bind_ok]
    exact hends

private theorem parseBulkPayload_of_scan (hm : m ≤ buf.length) {last len : ℕ}
    (hlast : last ≤ buf.length) (hlen : len < 2 ^ 63)
    (h : scanBulkPayload buf last len = .ok (stop, kind, msg)) (hpos : 0 < stop) (hle : stop ≤ m) :
    last ≤ m ∧ EndsAt (parseBulkPayload (buf.take m) last len) stop limit := by
  have hlength : (buf.take m).length = m := List.length_take_of_le hm
  simp only [scanBulkPayload] at h
  split at h
  · simp only [scanNone, Except.ok.injEq, Prod.mk.injEq] at h
    omega
  simp only [Except.ok.injEq, Prod.mk.injEq] at h
  have hrange : last + len + 2 < 2 ^ 63 := by
    by_contra hout
    have := (bulk_out_of_range hbuf rfl hlast rfl hlen hout).1
    omega
  obtain ⟨hhi, hneed⟩ := bulk_in_range hbuf rfl hlast rfl hrange
  rw [hhi, hneed] at h
  have hfits : last + len + 2 ≤ m := by omega
  refine ⟨by omega, ?_⟩
  rw [parseBulkPayload_eq (by omega) rfl (by omega) rfl hlen, if_pos hrange,
    if_pos (by omega), h.1]
  exact .ok _ _ _

omit hbuf in
private theorem length_of_lineAt {last : ℕ} (h : lineAt buf k = some (line, last)) :
    line.length ≤ buf.length := by
  obtain ⟨idx, -, heq⟩ := Option.map_eq_some_iff.mp h
  obtain ⟨rfl, -⟩ := Prod.mk.inj heq
  have hstrip : ∀ l : Bytes, (stripCR l).length ≤ l.length := by
    intro l
    unfold stripCR
    split
    · rw [List.length_dropLast]
      omega
    · exact le_refl _
  refine Nat.le_trans (hstrip _) ?_
  rw [List.length_take, List.length_drop]
  omega

omit hbuf in
private theorem inlineFields_endsAt {last : ℕ} (hline : lineAt buf k = some (line, last)) :
    EndsAt (inlineFields sizeofPointer line >>= fun parts =>
      .ok (Value.array (parts.map .bulkString), (last : ℤ))) last
      ((maxAlloc : ℤ) < sizeofPointer * buf.length) := by
  have hcount : (fields (trimSpace line)).length ≤ buf.length :=
    Nat.le_trans (length_fields_le _)
      (Nat.le_trans (length_trimSpace_le line) (length_of_lineAt hline))
  unfold inlineFields
  split
  · exact .invalid _ _
  simp only [bind_assoc]
  refine EndsAt.make (.ok _ _ _) fun hout => ?_
  simp only [MakeOk, sizeofPointer] at hout ⊢
  omega

/-- The elements of an array, by induction on their number: each takes a byte at least. -/
private theorem parseElems_of_scan (fuel' m : ℕ) (start : ℕ)
    (hparse : ∀ (cur : ℤ) (k : ℕ) (next : ℤ) (kind : ErrorKind) (msg : Bytes), cur = k →
      start ≤ k → k ≤ buf.length → scanValueAt buf fuel cur = .ok (next, kind, msg) → 0 < next →
      next ≤ m → EndsAt (parseValueAt (buf.take m) fuel' cur) next limit)
    (hfuel : buf.length < fuel + start) (n : ℕ) (hcur : cur = k) (hstart : start ≤ k)
    (hk : k ≤ buf.length) (h : scanElems (scanValueAt buf fuel) n cur = .ok (stop, kind, msg))
    (hpos : 0 < stop) (hstop : stop ≤ m) :
    (n : ℤ) ≤ stop - cur ∧
      EndsAt (parseElems (parseValueAt (buf.take m) fuel') n cur) stop limit := by
  induction n generalizing cur k with
  | zero =>
    simp only [scanElems, Except.ok.injEq, Prod.mk.injEq] at h
    rw [h.1]
    exact ⟨by omega, .ok _ _ _⟩
  | succ n ih =>
    rw [scanElems] at h
    obtain ⟨⟨next, kind', msg'⟩, hscan, h⟩ := bind_eq_ok h
    simp only at h
    split at h
    · cases h
      omega
    rename_i hne
    have hnext : 0 < next := by
      by_contra hneg
      cases n with
      | zero =>
        cases h
        omega
      | succ n =>
        rw [scanElems, scanValueAt_neg buf fuel (by omega), bind_error] at h
        cases h
    obtain ⟨j, rfl, hlt, hle⟩ := scanValueAt_bounds hbuf hcur (by omega) hk hscan hnext
    obtain ⟨hcount, hrest⟩ := ih rfl (by omega) hle h
    refine ⟨by omega, ?_⟩
    rw [parseElems]
    refine (hparse cur k j kind' msg' hcur hstart hk hscan hnext (by omega)).bind fun v _ => ?_
    exact hrest.bind fun vs _ => .ok _ _ _

/-- What the scanner delimits is complete for the parser, by induction on the fuel. -/
theorem endsAt_of_scan (fuel fuel' m : ℕ) (pos : ℤ) (k : ℕ) (last : ℤ) (kind : ErrorKind)
    (msg : Bytes) (hpos : pos = k) (hfuel : buf.length < fuel + k) (hfuel' : m < fuel' + k)
    (hk : k ≤ buf.length) (hm : m ≤ buf.length)
    (h : scanValueAt buf fuel pos = .ok (last, kind, msg)) (hlast : 0 < last) (hle : last ≤ m) :
    EndsAt (parseValueAt (buf.take m) fuel' pos) last
      ((maxAlloc : ℤ) < sizeofPointer * buf.length) := by
  induction fuel generalizing fuel' pos k last kind msg with
  | zero => omega
  | succ fuel ih =>
    obtain ⟨stop, rfl, hlt, -⟩ := scanValueAt_bounds hbuf hpos hfuel hk h hlast
    obtain ⟨fuel', rfl⟩ : ∃ f, fuel' = f + 1 := ⟨fuel' - 1, by omega⟩
    have hlength : (buf.take m).length = m := List.length_take_of_le hm
    have hnext := wrap64_succ hbuf hpos hk
    rw [scanValueAt] at h
    split at h
    · simp only [scanNone, Except.ok.injEq, Prod.mk.injEq] at h
      omega
    obtain ⟨typ, htyp, h⟩ := bind_eq_ok h
    have htyp' : orPanic (index (buf.take m) pos) = .ok typ := by
      rw [hpos, index_natCast] at htyp
      rw [hpos, index_natCast, List.getElem?_take_of_lt (by omega), htyp]
    rw [parseValueAt, if_neg (by omega), htyp', bind_ok]
    by_cases herror : typ = typeError
    · rw [if_neg (by rw [herror]; decide), if_pos herror] at h
      rw [if_pos (Or.inr herror)]
      refine EndsAt.readLine hbuf hnext (by omega) hm h hlast fun line next _ hend => ?_
      simp only [Except.ok.injEq, Prod.mk.injEq] at hend
      rw [← hend.1]
      exact ⟨by omega, .ok _ _ _⟩
    by_cases hsimple : typ = typeSimpleString
    · rw [if_pos (Or.inl hsimple)] at h
      rw [if_pos (Or.inl hsimple)]
      refine EndsAt.readLine hbuf hnext (by omega) hm h hlast fun line next _ hend => ?_
      simp only [Except.ok.injEq, Prod.mk.injEq] at hend
      rw [← hend.1]
      exact ⟨by omega, .ok _ _ _⟩
    rw [if_neg (by simp [hsimple, herror])]
    by_cases hinteger : typ = typeInteger
    · rw [if_pos (Or.inr hinteger)] at h
      rw [if_pos hinteger]
      refine EndsAt.readLine hbuf hnext (by omega) hm h hlast fun line next _ hend => ?_
      simp only [Except.ok.injEq, Prod.mk.injEq] at hend
      rw [← hend.1]
      refine ⟨by omega, ?_⟩
      -- The scanner does not look at the digits.
      simp only
      cases parseIntBytes line with
      | none => exact .invalid _ _
      | some n => exact .ok _ _ _
    rw [if_neg (by simp [hsimple, hinteger]), if_neg herror] at h
    rw [if_neg hinteger]
    by_cases hbulk : typ = typeBulkString
    · rw [if_pos hbulk] at h ⊢
      refine EndsAt.readLine hbuf hnext (by omega) hm h hlast fun line next hline hend => ?_
      obtain ⟨-, hnextle⟩ := lineAt_bounds hline
      simp only at hend ⊢
      cases hint : parseIntBytes line with
      | none =>
        simp only [hint, scanNone, Except.ok.injEq, Prod.mk.injEq] at hend
        omega
      | some n =>
        have hbounds := parseIntBytes_bounds hint
        simp only [hint] at hend ⊢
        by_cases hneg : n < 0
        · simp only [if_pos hneg, Except.ok.injEq, Prod.mk.injEq] at hend ⊢
          rw [← hend.1]
          exact ⟨by omega, .ok _ _ _⟩
        obtain ⟨len, rfl⟩ : ∃ len : ℕ, n = len := ⟨n.toNat, by omega⟩
        rw [if_neg hneg] at hend ⊢
        exact parseBulkPayload_of_scan hbuf hm hnextle (by omega) hend hlast hle
    rw [if_neg hbulk] at h ⊢
    by_cases harray : typ = typeArray
    · rw [if_pos harray] at h ⊢
      refine EndsAt.readLine hbuf hnext (by omega) hm h hlast fun line next hline hend => ?_
      obtain ⟨hafter, hnextle⟩ := lineAt_bounds hline
      simp only at hend ⊢
      cases hint : parseIntBytes line with
      | none =>
        simp only [hint, scanNone, Except.ok.injEq, Prod.mk.injEq] at hend
        omega
      | some n =>
        simp only [hint] at hend ⊢
        by_cases hneg : n < 0
        · simp only [if_pos hneg, Except.ok.injEq, Prod.mk.injEq] at hend ⊢
          rw [← hend.1]
          exact ⟨by omega, .ok _ _ _⟩
        rw [if_neg hneg] at hend ⊢
        obtain ⟨hcount, helems⟩ := parseElems_of_scan hbuf fuel' m next
          (fun cur j next' kind' msg' hcur hj hjle hscan hpos' hle' =>
            ih fuel' cur j next' kind' msg' hcur (by omega) (by omega) hjle hscan hpos' hle')
          (by omega) n.toNat rfl (le_refl next) hnextle hend hlast hle
        refine ⟨by omega, EndsAt.make (helems.bind fun elems _ => .ok _ _ _) fun hout => ?_⟩
        simp only [MakeOk, sizeofPointer] at hout ⊢
        omega
    rw [if_neg harray] at h ⊢
    refine EndsAt.readLine hbuf hpos hk hm h hlast fun line next hline hend => ?_
    simp only [Except.ok.injEq, Prod.mk.injEq] at hend
    rw [← hend.1]
    exact ⟨by omega, inlineFields_endsAt hline⟩

end Scan

/-- The scanner and the parser agree on replies. Where the parser returns a value, the scanner
has the same end, the kind of the value and its error text. What the scanner delimits is a
value up to its end or a protocol error for the parser, never an incomplete value; a panic
needs more elements than Go can make a slice for, and so a buffer of the size of the
address space. -/
theorem scanValue_agrees_parseValue (buf : Bytes) (hbuf : buf.length ≤ maxAlloc) :
    (∀ v n, parseValue buf = .ok (v, n) → scanValue buf = .ok (n, v.errorKind, v.errMsg)) ∧
    ∀ last kind msg, scanValue buf = .ok (last, kind, msg) → 0 < last → last ≤ buf.length →
      parseValue (buf.take last.toNat) ≠ .error .incomplete ∧
      (∀ v n, parseValue (buf.take last.toNat) = .ok (v, n) → n = last) ∧
      (parseValue (buf.take last.toNat) = .error .panic →
        (maxAlloc : ℤ) < sizeofPointer * buf.length) := by
  refine ⟨fun v n h => ?_, fun last kind msg h hlast hle => ?_⟩
  · exact scanValueAt_of_parse hbuf _ 0 0 v n rfl (by omega) (Nat.zero_le _) h
  have hlength : (buf.take last.toNat).length = last.toNat :=
    List.length_take_of_le (by omega)
  have hends := endsAt_of_scan hbuf (buf.length + 1) ((buf.take last.toNat).length + 1)
    last.toNat 0 0 last kind msg rfl (by omega) (by omega) (Nat.zero_le _) (by omega) h hlast
    (by omega)
  exact ⟨hends.complete, hends.stops, hends.panics⟩

/-- A reply with an error inside, in front of the next reply. -/
theorem scanValue_agrees_parseValue_nested :
    let buf := bytes "*2\r\n:1\r\n-ASK 1 a:1\r\n+OK\r\n"
    buf.length ≤ maxAlloc ∧ scanValue buf = .ok (20, .none, []) ∧
      parseValue (buf.take 20) ≠ .error .incomplete := by
  intro buf
  have hbuf : buf.length ≤ maxAlloc := by decide
  have hscan : scanValue buf = .ok (20, .none, []) := by decide +kernel
  exact ⟨hbuf, hscan,
    ((scanValue_agrees_parseValue buf hbuf).2 20 .none [] hscan (by decide) (by decide)).1⟩

end Pluster.Proto
