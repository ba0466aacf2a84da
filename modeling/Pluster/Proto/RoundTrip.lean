import Pluster.Proto.ParseSafety

/-!
# Parsing inverts encoding

`ParseValue` reads back what `EncodeValue` writes, whatever follows it in the
buffer.
-/

namespace Pluster.Proto

open GoStrings GoRuntime

variable {n : ℕ} {rest line : Bytes} {c : UInt8}

/-! ### Numbers -/

theorem wrap64_wrap64_mul_add (m d : ℤ) :
    wrap64 (wrap64 (wrap64 m * 10) + d) = wrap64 (m * 10 + d) := by
  simp only [wrap64, Int.bmod_def]
  omega

theorem parseDigits_appendDigits (fuel n : ℕ) (hfuel : n < fuel) (rest : Bytes) :
    parseDigits 0 (appendDigits fuel n rest) = parseDigits (wrap64 n) rest := by
  induction fuel generalizing n rest with
  | zero => omega
  | succ fuel ih =>
    have hdigit : ∀ m : ℤ, parseDigits m (UInt8.ofNat (48 + n % 10) :: rest) =
        parseDigits (wrap64 (wrap64 (m * 10) + (n % 10 : ℕ))) rest := by
      intro m
      have hcases : ∀ d < 10, ¬ (UInt8.ofNat (48 + d) < 48 ∨ 57 < UInt8.ofNat (48 + d)) ∧
          (UInt8.ofNat (48 + d) - 48).toNat = d := by decide
      obtain ⟨hrange, hvalue⟩ := hcases (n % 10) (by omega)
      rw [parseDigits, if_neg hrange, hvalue]
    rw [appendDigits]
    split
    · rename_i hlt
      rw [hdigit, Nat.mod_eq_of_lt hlt]
      have hzero : wrap64 (0 * 10) = 0 := by decide
      rw [hzero, Int.zero_add]
    · rename_i hge
      rw [ih (n / 10) (by omega), hdigit, wrap64_wrap64_mul_add]
      congr 2
      omega

theorem digits_of_mem_appendDigits {fuel : ℕ} (h : c ∈ appendDigits fuel n rest) :
    (48 ≤ c ∧ c ≤ 57) ∨ c ∈ rest := by
  induction fuel generalizing n rest with
  | zero => exact Or.inr h
  | succ fuel ih =>
    have hcases : ∀ d < 10, 48 ≤ UInt8.ofNat (48 + d) ∧ UInt8.ofNat (48 + d) ≤ 57 := by decide
    have hdigit := hcases (n % 10) (by omega)
    rw [appendDigits] at h
    have hmem : (48 ≤ c ∧ c ≤ 57) ∨ c ∈ UInt8.ofNat (48 + n % 10) :: rest := by
      split at h
      · exact Or.inr h
      · exact ih h
    rcases hmem with hc | hc
    · exact Or.inl hc
    rcases List.mem_cons.mp hc with rfl | hc
    · exact Or.inl hdigit
    · exact Or.inr hc

theorem mem_formatNat (h : c ∈ formatNat n) : 48 ≤ c ∧ c ≤ 57 :=
  (digits_of_mem_appendDigits h).resolve_right (by simp)

theorem appendDigits_ne_nil (fuel n : ℕ) (rest : Bytes) :
    appendDigits (fuel + 1) n rest ≠ [] := by
  induction fuel generalizing n rest with
  | zero =>
    rw [appendDigits]
    split <;> simp [appendDigits]
  | succ fuel ih =>
    rw [appendDigits]
    split
    · simp
    · exact ih _ _

theorem parseIntBytes_formatNat (hn : n < 2 ^ 63) : parseIntBytes (formatNat n) = some (n : ℤ) := by
  have hparse : parseDigits 0 (formatNat n) = some (n : ℤ) := by
    rw [formatNat, parseDigits_appendDigits _ _ (by omega), parseDigits,
      wrap64_eq_self (by omega) (by omega)]
  cases hdigits : formatNat n with
  | nil => exact absurd hdigits (appendDigits_ne_nil n n [])
  | cons c rest =>
    have hc : c ≠ 45 := by
      rintro rfl
      have := (mem_formatNat (n := n) (c := 45) (by rw [hdigits]; simp)).1
      exact absurd this (by decide)
    rw [parseIntBytes]
    simp only [if_neg hc]
    rw [← hdigits, hparse]

theorem parseIntBytes_itoa {n : ℤ} (hlow : -2 ^ 63 ≤ n) (hhigh : n < 2 ^ 63) :
    parseIntBytes (itoa n) = some n := by
  unfold itoa
  split
  · rename_i hneg
    have hdouble : wrap64 (-wrap64 (n.natAbs : ℤ)) = n := by
      simp only [wrap64, Int.bmod_def]
      omega
    rw [parseIntBytes, if_pos rfl, formatNat, parseDigits_appendDigits _ _ (by omega), parseDigits,
      Option.map_some, hdouble]
  · rw [parseIntBytes_formatNat (by omega)]
    congr 1
    omega

theorem itoa_no_lf (n : ℤ) : 10 ∉ itoa n := by
  have hdigits : ∀ m : ℕ, 10 ∉ formatNat m := fun m hmem =>
    absurd (mem_formatNat hmem).1 (by decide)
  unfold itoa
  split
  · simp [hdigits]
  · exact hdigits _

/-! ### Lines -/

/-- The line feed of a written line is the first one. -/
theorem indexByte_line (hline : 10 ∉ line) (rest : Bytes) :
    indexByte (line ++ crlf ++ rest) 10 = some (line.length + 1) := by
  have hcr : 10 ∉ line ++ [13] := by simp [hline]
  have hsplit : line ++ crlf ++ rest = line ++ [13] ++ 10 :: rest := by simp [crlf]
  rw [hsplit, indexByte_append hcr, List.length_append]
  rfl

/-- The line that an encoding writes is the line that the parser reads. -/
theorem lineAt_of_drop {buf : Bytes} {k : ℕ} (hdrop : buf.drop k = line ++ crlf ++ rest)
    (hline : 10 ∉ line) : lineAt buf k = some (line, k + line.length + 2) := by
  have htake : (line ++ crlf ++ rest).take (line.length + 1) = line ++ [13] := by
    rw [List.append_assoc, List.take_append, List.take_of_length_le (by omega),
      Nat.add_sub_cancel_left]
    rfl
  rw [lineAt, hdrop, indexByte_line hline, Option.map_some, htake]
  simp [stripCR]
  omega

/-! ### Values -/

mutual

/-- The value is one that the encoding can carry: lines without a line feed, 64-bit
integers and arrays that Go can hold. -/
def Value.Encodable : Value → Prop
  | .simpleString str => 10 ∉ str
  | .error str => 10 ∉ str
  | .integer n => -2 ^ 63 ≤ n ∧ n < 2 ^ 63
  | .array elems => MakeOk sizeofPointer elems.length ∧ AllEncodable elems
  | _ => True

/-- All values of a list are encodable. -/
def AllEncodable : List Value → Prop
  | [] => True
  | v :: vs => v.Encodable ∧ AllEncodable vs

end

mutual

/-- The value that the parser returns: a nil pointer comes back as a nil bulk string. -/
def Value.decoded : Value → Value
  | .null => .nilBulkString
  | .array elems => .array (decodedAll elems)
  | v => v

/-- The elements that the parser returns. -/
def decodedAll : List Value → List Value
  | [] => []
  | v :: vs => v.decoded :: decodedAll vs

end

section Parse

variable {buf : Bytes} (hbuf : buf.length ≤ maxAlloc)
variable {pos : ℤ} {k : ℕ}
include hbuf

/-- The type byte and the line after it. -/
private theorem parse_header (hpos : pos = k) (c : UInt8) (line rest : Bytes)
    (hdrop : buf.drop k = [c] ++ line ++ crlf ++ rest) (hline : 10 ∉ line) :
    ¬ (buf.length : ℤ) ≤ pos ∧ index buf pos = some c ∧
      readLine buf (wrap64 (pos + 1)) = .ok (line, ((k + 1 + line.length + 2 : ℕ) : ℤ)) ∧
      buf.drop (k + 1 + line.length + 2) = rest := by
  have hget : buf[k]? = some c := by rw [← List.head?_drop, hdrop]; rfl
  have hlt := (List.getElem?_eq_some_iff.mp hget).1
  have hnext : wrap64 (pos + 1) = ((k + 1 : ℕ) : ℤ) := by
    unfold maxAlloc at hbuf
    rw [wrap64_eq_self (by omega) (by omega)]
    omega
  have htail : buf.drop (k + 1) = line ++ crlf ++ rest := by
    rw [← List.tail_drop, hdrop]
    simp
  refine ⟨by omega, by rw [hpos, index_natCast, hget],
    readLine_of_lineAt_some hbuf hnext (by omega) (lineAt_of_drop htail hline), ?_⟩
  have hlength : line.length + 2 = (line ++ crlf).length := by simp [crlf]
  rw [Nat.add_assoc, ← List.drop_drop, htail, hlength, List.drop_left]

/-- A bulk string is read back. -/
private theorem parseBulkPayload_of_drop (hpos : pos = k) {data rest : Bytes}
    (hdrop : buf.drop k = data ++ crlf ++ rest) :
    parseBulkPayload buf pos data.length =
      .ok (.bulkString data, ((k + data.length + 2 : ℕ) : ℤ)) := by
  have hlength := congrArg List.length hdrop
  simp only [List.length_drop, List.length_append, crlf, List.length_cons, List.length_nil]
    at hlength
  obtain ⟨hhi, hneed⟩ := bulk_in_range hbuf hpos (by omega) (rfl : ((data.length : ℕ) : ℤ) = _)
    (by unfold maxAlloc at hbuf; omega)
  have hslice : slice buf pos ((k + data.length : ℕ) : ℤ) = some data := by
    rw [hpos, slice_natCast (by omega) (by omega), hdrop, Nat.add_sub_cancel_left,
      List.append_assoc, List.take_left]
  have hmake : MakeOk 1 data.length := by
    simp only [MakeOk]
    omega
  rw [parseBulkPayload]
  simp only [hhi, hneed]
  rw [if_neg (by omega), makeSlice, if_pos hmake, bind_ok, hslice, orPanic, bind_ok]
  rfl

end Parse

theorem formatNat_no_lf (n : ℕ) : 10 ∉ formatNat n := fun hmem =>
  absurd (mem_formatNat hmem).1 (by decide)

private theorem parseIntBytes_minus_one : parseIntBytes [45, 49] = some (-1) := by decide

private theorem length_line (c : UInt8) (line : Bytes) (k : ℕ) :
    k + 1 + line.length + 2 = k + ([c] ++ line ++ crlf).length := by
  simp [crlf]
  omega

section Values

variable {buf : Bytes} (hbuf : buf.length ≤ maxAlloc) {pos : ℤ} {k : ℕ} (hpos : pos = k)
  (rest : Bytes) (fuel : ℕ)
variable {str : Bytes}
include hbuf hpos

private theorem parse_nilBulk (hdrop : buf.drop k = nilBulkBytes ++ rest) :
    parseValueAt buf (fuel + 1) pos =
      .ok (.nilBulkString, ((k + nilBulkBytes.length : ℕ) : ℤ)) := by
  obtain ⟨hend, hindex, hline, -⟩ := parse_header hbuf hpos 36 [45, 49] rest hdrop (by decide)
  rw [parseValueAt, if_neg hend, hindex, orPanic, bind_ok, if_neg (by decide), if_neg (by decide),
    if_pos (by decide), hline, bind_ok]
  simp only [parseIntBytes_minus_one]
  rw [if_pos (by decide), length_line 36]
  rfl

private theorem parse_nilArray (hdrop : buf.drop k = nilArrayBytes ++ rest) :
    parseValueAt buf (fuel + 1) pos = .ok (.nilArray, ((k + nilArrayBytes.length : ℕ) : ℤ)) := by
  obtain ⟨hend, hindex, hline, -⟩ := parse_header hbuf hpos 42 [45, 49] rest hdrop (by decide)
  rw [parseValueAt, if_neg hend, hindex, orPanic, bind_ok, if_neg (by decide), if_neg (by decide),
    if_neg (by decide), if_pos (by decide), hline, bind_ok]
  simp only [parseIntBytes_minus_one]
  rw [if_pos (by decide), length_line 42]
  rfl

private theorem parse_simpleString (hstr : 10 ∉ str)
    (hdrop : buf.drop k = encodeSimpleString str ++ rest) :
    parseValueAt buf (fuel + 1) pos =
      .ok (.simpleString str, ((k + (encodeSimpleString str).length : ℕ) : ℤ)) := by
  obtain ⟨hend, hindex, hline, -⟩ := parse_header hbuf hpos 43 str rest hdrop hstr
  rw [parseValueAt, if_neg hend, hindex, orPanic, bind_ok, if_pos (by decide), hline, bind_ok]
  simp only
  rw [if_neg (by decide), length_line 43]
  rfl

private theorem parse_error (hstr : 10 ∉ str) (hdrop : buf.drop k = encodeError str ++ rest) :
    parseValueAt buf (fuel + 1) pos =
      .ok (.error str, ((k + (encodeError str).length : ℕ) : ℤ)) := by
  obtain ⟨hend, hindex, hline, -⟩ := parse_header hbuf hpos 45 str rest hdrop hstr
  rw [parseValueAt, if_neg hend, hindex, orPanic, bind_ok, if_pos (by decide), hline, bind_ok]
  simp only
  rw [if_pos (by decide), length_line 45]
  rfl

private theorem parse_integer {n : ℤ} (hlow : -2 ^ 63 ≤ n) (hhigh : n < 2 ^ 63)
    (hdrop : buf.drop k = encodeInteger n ++ rest) :
    parseValueAt buf (fuel + 1) pos =
      .ok (.integer n, ((k + (encodeInteger n).length : ℕ) : ℤ)) := by
  obtain ⟨hend, hindex, hline, -⟩ := parse_header hbuf hpos 58 (itoa n) rest hdrop (itoa_no_lf n)
  rw [parseValueAt, if_neg hend, hindex, orPanic, bind_ok, if_neg (by decide), if_pos (by decide),
    hline, bind_ok]
  simp only [parseIntBytes_itoa hlow hhigh]
  rw [length_line 58]
  rfl

private theorem parse_bulkString (hdrop : buf.drop k = encodeBulkString str ++ rest) :
    parseValueAt buf (fuel + 1) pos =
      .ok (.bulkString str, ((k + (encodeBulkString str).length : ℕ) : ℤ)) := by
  have hsplit : buf.drop k = [36] ++ formatNat str.length ++ crlf ++ (str ++ crlf ++ rest) := by
    rw [hdrop]
    simp [encodeBulkString, List.append_assoc]
  obtain ⟨hend, hindex, hline, hpayload⟩ :=
    parse_header hbuf hpos 36 (formatNat str.length) _ hsplit (formatNat_no_lf _)
  have hlength := congrArg List.length hdrop
  simp only [encodeBulkString, List.length_drop, List.length_append] at hlength
  have hint : parseIntBytes (formatNat str.length) = some (str.length : ℤ) :=
    parseIntBytes_formatNat (by unfold maxAlloc at hbuf; omega)
  rw [parseValueAt, if_neg hend, hindex, orPanic, bind_ok, if_neg (by decide), if_neg (by decide),
    if_pos (by decide), hline, bind_ok]
  simp only [hint]
  rw [if_neg (by omega), parseBulkPayload_of_drop hbuf rfl hpayload]
  congr 3
  simp only [encodeBulkString, crlf, List.length_append, List.length_cons, List.length_nil]
  omega

/-- The head of an array: its elements follow. -/
private theorem parse_array {elems : List Value} (hmake : MakeOk sizeofPointer elems.length)
    (hdrop : buf.drop k = encodeValue (.array elems) ++ rest) :
    ∃ last, buf.drop last = encodeValues elems ++ rest ∧ k < last ∧
      k + (encodeValue (.array elems)).length = last + (encodeValues elems).length ∧
      parseValueAt buf (fuel + 1) pos =
        (parseElems (parseValueAt buf fuel) elems.length last >>= fun p =>
          .ok (.array p.1, p.2)) := by
  have hsplit : buf.drop k =
      [42] ++ formatNat elems.length ++ crlf ++ (encodeValues elems ++ rest) := by
    rw [hdrop]
    simp [encodeValue, List.append_assoc]
  obtain ⟨hend, hindex, hline, helems⟩ :=
    parse_header hbuf hpos 42 (formatNat elems.length) _ hsplit (formatNat_no_lf _)
  have hint : parseIntBytes (formatNat elems.length) = some (elems.length : ℤ) := by
    refine parseIntBytes_formatNat ?_
    simp only [MakeOk, sizeofPointer, maxAlloc] at hmake
    omega
  refine ⟨_, helems, by omega, ?_, ?_⟩
  · simp only [encodeValue, crlf, List.length_append, List.length_cons, List.length_nil]
    omega
  rw [parseValueAt, if_neg hend, hindex, orPanic, bind_ok, if_neg (by decide),
    if_neg (by decide), if_neg (by decide), if_pos (by decide), hline, bind_ok]
  simp only [hint]
  rw [if_neg (by omega), makeSlice, if_pos hmake, bind_ok, Int.toNat_natCast]
  rfl

end Values

mutual

/-- A value is read back at the position where its encoding starts. -/
theorem parseValueAt_encodeValue {buf : Bytes} (hbuf : buf.length ≤ maxAlloc) :
    ∀ (v : Value), v.Encodable → ∀ (rest : Bytes) (fuel : ℕ) (pos : ℤ) (k : ℕ), pos = k →
      buf.drop k = encodeValue v ++ rest → buf.length < fuel + k → k ≤ buf.length →
      parseValueAt buf fuel pos = .ok (v.decoded, ((k + (encodeValue v).length : ℕ) : ℤ))
  | v, hv, rest, 0, pos, k, hpos, hdrop, hfuel, hk => by omega
  | .null, hv, rest, fuel + 1, pos, k, hpos, hdrop, hfuel, hk =>
    parse_nilBulk hbuf hpos rest fuel hdrop
  | .nilBulkString, hv, rest, fuel + 1, pos, k, hpos, hdrop, hfuel, hk =>
    parse_nilBulk hbuf hpos rest fuel hdrop
  | .nilArray, hv, rest, fuel + 1, pos, k, hpos, hdrop, hfuel, hk =>
    parse_nilArray hbuf hpos rest fuel hdrop
  | .simpleString str, hv, rest, fuel + 1, pos, k, hpos, hdrop, hfuel, hk =>
    parse_simpleString hbuf hpos rest fuel hv hdrop
  | .error str, hv, rest, fuel + 1, pos, k, hpos, hdrop, hfuel, hk =>
    parse_error hbuf hpos rest fuel hv hdrop
  | .integer n, hv, rest, fuel + 1, pos, k, hpos, hdrop, hfuel, hk =>
    parse_integer hbuf hpos rest fuel hv.1 hv.2 hdrop
  | .bulkString str, hv, rest, fuel + 1, pos, k, hpos, hdrop, hfuel, hk =>
    parse_bulkString hbuf hpos rest fuel hdrop
  | .array elems, hv, rest, fuel + 1, pos, k, hpos, hdrop, hfuel, hk => by
    obtain ⟨last, hdropElems, hlt, hlength, hparse⟩ :=
      parse_array hbuf hpos rest fuel hv.1 hdrop
    have hle : last ≤ buf.length := by
      have := congrArg List.length hdrop
      simp only [List.length_drop, List.length_append] at this
      omega
    rw [hparse, parseElems_encodeValues hbuf elems hv.2 rest fuel last last rfl hdropElems
      (by omega) hle, bind_ok, hlength]
    rfl

/-- The elements of an array are read back. -/
theorem parseElems_encodeValues {buf : Bytes} (hbuf : buf.length ≤ maxAlloc) :
    ∀ (vs : List Value), AllEncodable vs → ∀ (rest : Bytes) (fuel : ℕ) (pos : ℤ) (k : ℕ), pos = k →
      buf.drop k = encodeValues vs ++ rest → buf.length < fuel + k → k ≤ buf.length →
      parseElems (parseValueAt buf fuel) vs.length pos =
        .ok (decodedAll vs, ((k + (encodeValues vs).length : ℕ) : ℤ))
  | [], hvs, rest, fuel, pos, k, hpos, hdrop, hfuel, hk => by
    rw [hpos]
    rfl
  | v :: vs, hvs, rest, fuel, pos, k, hpos, hdrop, hfuel, hk => by
    have hsplit : buf.drop k = encodeValue v ++ (encodeValues vs ++ rest) := by
      rw [hdrop, encodeValues, List.append_assoc]
    have hnext : buf.drop (k + (encodeValue v).length) = encodeValues vs ++ rest := by
      rw [← List.drop_drop, hsplit, List.drop_left]
    have hle : k + (encodeValue v).length ≤ buf.length := by
      have := congrArg List.length hsplit
      simp only [List.length_drop, List.length_append] at this
      omega
    rw [List.length_cons, parseElems,
      parseValueAt_encodeValue hbuf v hvs.1 _ fuel pos k hpos hsplit hfuel hk, bind_ok]
    simp only
    rw [parseElems_encodeValues hbuf vs hvs.2 rest fuel _ _ rfl hnext (by omega) hle, bind_ok,
      encodeValues, List.length_append, Nat.add_assoc]
    rfl

end

/-- `ParseValue` inverts `EncodeValue`. -/
theorem parseValue_encodeValue {v : Value} (hv : v.Encodable) (rest : Bytes)
    (hlength : (encodeValue v ++ rest).length ≤ maxAlloc) :
    parseValue (encodeValue v ++ rest) = .ok (v.decoded, ((encodeValue v).length : ℤ)) := by
  have h := parseValueAt_encodeValue hlength v hv rest ((encodeValue v ++ rest).length + 1) 0 0 rfl
    rfl (by omega) (Nat.zero_le _)
  rwa [Nat.zero_add] at h

end Pluster.Proto
