import Pluster.Proto.RoundTrip

/-!
# The streaming reader

`Reader` of `pkg/proto/resp.go`, which the pools use on backend connections. A read
takes the bytes that the stream still holds and returns those it leaves; the stream
ends with EOF. Integers go through `strconv`, which checks their range, and lines must
end in CRLF.

`ReadValue` and the buffer parser both read back what `EncodeValue` writes.
-/

namespace Pluster.Proto

open GoStrings GoRuntime

namespace Reader

/-- How a read ends without a value. -/
inductive ReadError
  | eof
  | unexpectedEOF
  | invalidProtocol
  | panic
  deriving DecidableEq

/-- The result of a read. -/
abbrev Read (α : Type) := Except ReadError α

/-- `bufio.Reader.ReadByte`. -/
def readByte : Bytes → Read (UInt8 × Bytes)
  | [] => .error .eof
  | c :: s => .ok (c, s)

/-- `bufio.Reader.ReadBytes('\n')`: the bytes up to the line feed, or all of them and EOF. -/
def readBytes (s : Bytes) : Bytes × Option ReadError × Bytes :=
  match indexByte s 10 with
  | none => (s, some .eof, [])
  | some idx => (s.take (idx + 1), none, s.drop (idx + 1))

/-- `io.ReadFull` into a buffer of `n` bytes. -/
def readFull (n : ℕ) (s : Bytes) : Read (Bytes × Bytes) :=
  if n ≤ s.length then .ok (s.take n, s.drop n)
  else if s = [] then .error .eof
  else .error .unexpectedEOF

/-- A `make` of `n` elements of the given size. -/
def makeSlice (size n : ℤ) : Read Unit :=
  if MakeOk size n then .ok () else .error .panic

/-- `readLine`. -/
def readLine (s : Bytes) : Read (Bytes × Bytes) :=
  match readBytes s with
  | (_, some err, _) => .error err
  | (line, none, s) =>
    if line.length < 2 ∨ (line)[line.length - 2]? ≠ some 13 then .error .invalidProtocol
    else .ok (line.take (line.length - 2), s)

/-- `readSimpleString`. -/
def readSimpleString (s : Bytes) : Read (Value × Bytes) := do
  let (line, s) ← readLine s
  return (.simpleString line, s)

/-- `readError`. -/
def readError (s : Bytes) : Read (Value × Bytes) := do
  let (line, s) ← readLine s
  return (.error line, s)

/-- `readInteger`. `ParseInt` with 64 bits is `Atoi` here. -/
def readInteger (s : Bytes) : Read (Value × Bytes) := do
  let (line, s) ← readLine s
  match atoi line with
  | none => .error .invalidProtocol
  | some n => return (.integer n, s)

/-- `readBulkString`. -/
def readBulkString (s : Bytes) : Read (Value × Bytes) := do
  let (line, s) ← readLine s
  match atoi line with
  | none => .error .invalidProtocol
  | some n =>
    if n < 0 then return (.nilBulkString, s)
    else do
      makeSlice 1 (wrap64 (n + 2))
      let (buf, s) ← readFull (wrap64 (n + 2)).toNat s
      return (.bulkString (buf.take n.toNat), s)

/-- The loop of `readArray`. -/
def readElems (readValue : UInt8 → Bytes → Read (Value × Bytes)) : ℕ → Bytes → Read (List Value × Bytes)
  | 0, s => .ok ([], s)
  | n + 1, s => do
    let (b, s) ← readByte s
    let (v, s) ← readValue b s
    let (vs, s) ← readElems readValue n s
    return (v :: vs, s)

/-- `readArray`. -/
def readArray (readValue : UInt8 → Bytes → Read (Value × Bytes)) (s : Bytes) : Read (Value × Bytes) := do
  let (line, s) ← readLine s
  match atoi line with
  | none => .error .invalidProtocol
  | some n =>
    if n < 0 then return (.nilArray, s)
    else do
      makeSlice sizeofPointer n
      let (elems, s) ← readElems readValue n.toNat s
      return (.array elems, s)

/-- `bytes.TrimRight(s, "\r\n")`. -/
def trimLineEnd : Bytes → Bytes
  | [] => []
  | c :: rest =>
    match trimLineEnd rest with
    | [] => if c = 13 ∨ c = 10 then [] else [c]
    | kept => c :: kept

/-- `readInline`. A last line without a line feed counts. -/
def readInline (first : UInt8) (s : Bytes) : Read (Value × Bytes) :=
  match readBytes s with
  | (line, _, s) =>
    let parts := fields (trimLineEnd (first :: line))
    if trimLineEnd (first :: line) = [] ∨ parts = [] then .error .invalidProtocol
    else do
      makeSlice sizeofPointer parts.length
      return (.array (parts.map .bulkString), s)

/-- `readValue`. Nesting is bounded by `fuel`, and running out of it counts as a panic. -/
def readValueOf : ℕ → UInt8 → Bytes → Read (Value × Bytes)
  | 0, _, _ => .error .panic
  | fuel + 1, typeByte, s =>
    if typeByte = typeSimpleString then readSimpleString s
    else if typeByte = typeError then readError s
    else if typeByte = typeInteger then readInteger s
    else if typeByte = typeBulkString then readBulkString s
    else if typeByte = typeArray then readArray (readValueOf fuel) s
    else readInline typeByte s

/-- `ReadValue`. Every value takes a byte, so the length of the stream bounds the nesting. -/
def readValue (s : Bytes) : Read (Value × Bytes) := do
  let (b, rest) ← readByte s
  readValueOf s.length b rest

/-! ### Numbers and lines -/

theorem digitsVal_appendDigits (fuel n : ℕ) (hfuel : n < fuel) (rest : Bytes) :
    digitsVal 0 (appendDigits fuel n rest) = digitsVal n rest := by
  induction fuel generalizing n rest with
  | zero => omega
  | succ fuel ih =>
    have hdigit : ∀ m : ℕ, digitsVal m (UInt8.ofNat (48 + n % 10) :: rest) =
        digitsVal (m * 10 + n % 10) rest := by
      intro m
      have hcases : ∀ d < 10, digitVal (UInt8.ofNat (48 + d)) = some d := by decide
      rw [digitsVal, hcases (n % 10) (by omega), Option.bind_some]
    rw [appendDigits]
    split
    · rename_i hlt
      rw [hdigit, Nat.zero_mul, Nat.zero_add, Nat.mod_eq_of_lt hlt]
    rw [ih (n / 10) (by omega), hdigit]
    congr 1
    omega

theorem digitsVal_formatNat (n : ℕ) : digitsVal 0 (formatNat n) = some n := by
  rw [formatNat, digitsVal_appendDigits _ _ (by omega), digitsVal]

theorem atoi_formatNat {n : ℕ} (hn : n < 2 ^ 63) : atoi (formatNat n) = some (n : ℤ) := by
  have hne : formatNat n ≠ [] := appendDigits_ne_nil n n []
  have hsign : ∀ c, c < 48 → (formatNat n).head? ≠ some c := by
    intro c hc hhead
    have := (mem_formatNat (List.mem_of_mem_head? hhead)).1
    exact absurd hc (by rw [UInt8.not_lt]; exact this)
  rw [atoi]
  simp only [hsign 45 (by decide), hsign 43 (by decide), or_self, if_false, if_neg hne,
    digitsVal_formatNat, Option.bind_some, if_pos hn]

theorem atoi_itoa {n : ℤ} (hlow : -2 ^ 63 ≤ n) (hhigh : n < 2 ^ 63) : atoi (itoa n) = some n := by
  unfold itoa
  split
  · have hne : formatNat n.natAbs ≠ [] := appendDigits_ne_nil n.natAbs n.natAbs []
    have habs : n.natAbs ≤ 2 ^ 63 := by omega
    have hvalue : -(n.natAbs : ℤ) = n := by omega
    rw [atoi]
    simp only [List.head?_cons, true_or, if_true, List.tail_cons, if_neg hne,
      digitsVal_formatNat, Option.bind_some, if_pos habs, hvalue]
  · rw [atoi_formatNat (by omega)]
    congr 1
    omega

theorem readLine_append {line : Bytes} (hline : 10 ∉ line) (rest : Bytes) :
    readLine (line ++ crlf ++ rest) = .ok (line, rest) := by
  have hlength : line.length + 1 + 1 = (line ++ crlf).length := by simp [crlf]
  have hbytes : readBytes (line ++ crlf ++ rest) = (line ++ crlf, none, rest) := by
    rw [readBytes, indexByte_line hline]
    simp only
    rw [hlength, List.take_left, List.drop_left]
  have htail : (line ++ crlf).length - 2 = line.length := by simp [crlf]
  rw [readLine, hbytes]
  simp only
  rw [htail, if_neg (by simp [crlf]), List.take_left]

theorem readFull_append (buf rest : Bytes) :
    readFull buf.length (buf ++ rest) = .ok (buf, rest) := by
  rw [readFull, if_pos (by simp), List.take_left, List.drop_left]

/-! ### Values -/

theorem readInteger_append {n : ℤ} (hlow : -2 ^ 63 ≤ n) (hhigh : n < 2 ^ 63) (rest : Bytes) :
    readInteger (itoa n ++ crlf ++ rest) = .ok (.integer n, rest) := by
  rw [readInteger, readLine_append (itoa_no_lf n), bind_ok]
  simp only [atoi_itoa hlow hhigh]
  rfl

theorem readBulkString_append {str : Bytes} (hstr : str.length + 2 ≤ maxAlloc) (rest : Bytes) :
    readBulkString (formatNat str.length ++ crlf ++ (str ++ crlf ++ rest)) =
      .ok (.bulkString str, rest) := by
  have hwrap : wrap64 ((str.length : ℤ) + 2) = ((str ++ crlf).length : ℕ) := by
    unfold maxAlloc at hstr
    rw [wrap64_eq_self (by omega) (by omega), List.length_append]
    rfl
  have hmake : MakeOk 1 ((str ++ crlf).length : ℕ) := by
    simp only [MakeOk, List.length_append, crlf, List.length_cons, List.length_nil]
    omega
  rw [readBulkString, readLine_append (formatNat_no_lf _), bind_ok]
  simp only [atoi_formatNat (n := str.length) (by unfold maxAlloc at hstr; omega), hwrap]
  rw [if_neg (by omega), makeSlice, if_pos hmake, bind_ok, Int.toNat_natCast, readFull_append,
    bind_ok]
  simp only [Int.toNat_natCast, List.take_left]
  rfl

theorem readArray_append {elems : List Value} (hmake : MakeOk sizeofPointer elems.length)
    (read : UInt8 → Bytes → Read (Value × Bytes)) (s : Bytes) :
    readArray read (formatNat elems.length ++ crlf ++ s) =
      (readElems read elems.length s >>= fun p => .ok (.array p.1, p.2)) := by
  have hint : atoi (formatNat elems.length) = some (elems.length : ℤ) := by
    refine atoi_formatNat ?_
    simp only [MakeOk, sizeofPointer, maxAlloc] at hmake
    omega
  rw [readArray, readLine_append (formatNat_no_lf _), bind_ok]
  simp only [hint]
  rw [if_neg (by omega), makeSlice, if_pos hmake, bind_ok, Int.toNat_natCast]
  rfl

theorem readBulkString_nil (rest : Bytes) :
    readBulkString ([45, 49] ++ crlf ++ rest) = .ok (.nilBulkString, rest) := by
  rw [readBulkString, readLine_append (by decide)]
  rfl

theorem readArray_nil (read : UInt8 → Bytes → Read (Value × Bytes)) (rest : Bytes) :
    readArray read ([45, 49] ++ crlf ++ rest) = .ok (.nilArray, rest) := by
  rw [readArray, readLine_append (by decide)]
  rfl

mutual

/-- A value is read back, and what follows it stays in the stream. -/
theorem readValueOf_encodeValue :
    ∀ (v : Value), v.Encodable → (encodeValue v).length ≤ maxAlloc → ∀ (rest : Bytes) (fuel : ℕ),
      (encodeValue v).length ≤ fuel →
      (readByte (encodeValue v ++ rest) >>= fun p => readValueOf fuel p.1 p.2) =
        .ok (v.decoded, rest)
  | v, hv, hlength, rest, 0, hfuel => by
    have hempty : encodeValue v = [] := List.eq_nil_of_length_eq_zero (by omega)
    cases v <;> exact absurd hempty (List.cons_ne_nil _ _)
  | .null, hv, hlength, rest, fuel + 1, hfuel => readBulkString_nil rest
  | .nilBulkString, hv, hlength, rest, fuel + 1, hfuel => readBulkString_nil rest
  | .nilArray, hv, hlength, rest, fuel + 1, hfuel => readArray_nil (readValueOf fuel) rest
  | .simpleString str, hv, hlength, rest, fuel + 1, hfuel => by
    change readSimpleString (str ++ crlf ++ rest) = _
    rw [readSimpleString, readLine_append hv]
    rfl
  | .error str, hv, hlength, rest, fuel + 1, hfuel => by
    change readError (str ++ crlf ++ rest) = _
    rw [readError, readLine_append hv]
    rfl
  | .integer n, hv, hlength, rest, fuel + 1, hfuel => readInteger_append hv.1 hv.2 rest
  | .bulkString str, hv, hlength, rest, fuel + 1, hfuel => by
    have hstr : str.length + 2 ≤ maxAlloc := by
      simp only [encodeValue, encodeBulkString, List.length_append, crlf, List.length_cons,
        List.length_nil] at hlength
      omega
    have hsplit : encodeValue (.bulkString str) ++ rest =
        36 :: (formatNat str.length ++ crlf ++ (str ++ crlf ++ rest)) := by
      simp [encodeValue, encodeBulkString, List.append_assoc]
    rw [hsplit]
    exact readBulkString_append hstr rest
  | .array elems, hv, hlength, rest, fuel + 1, hfuel => by
    have hsplit : encodeValue (.array elems) ++ rest =
        42 :: (formatNat elems.length ++ crlf ++ (encodeValues elems ++ rest)) := by
      simp [encodeValue, List.append_assoc]
    simp only [encodeValue, List.length_append, crlf, List.length_cons, List.length_nil]
      at hlength hfuel
    rw [hsplit]
    change readArray (readValueOf fuel) _ = _
    rw [readArray_append hv.1, readElems_encodeValues elems hv.2 (by omega) rest fuel (by omega)]
    rfl

/-- The elements of an array are read back. -/
theorem readElems_encodeValues :
    ∀ (vs : List Value), AllEncodable vs → (encodeValues vs).length ≤ maxAlloc →
      ∀ (rest : Bytes) (fuel : ℕ), (encodeValues vs).length ≤ fuel →
      readElems (readValueOf fuel) vs.length (encodeValues vs ++ rest) = .ok (decodedAll vs, rest)
  | [], hvs, hlength, rest, fuel, hfuel => rfl
  | v :: vs, hvs, hlength, rest, fuel, hfuel => by
    rw [encodeValues, List.length_append] at hlength hfuel
    have hvalue := readValueOf_encodeValue v hvs.1 (by omega) (encodeValues vs ++ rest) fuel
      (by omega)
    obtain ⟨⟨b, tail⟩, hbyte, hvalue⟩ := bind_eq_ok hvalue
    rw [encodeValues, List.append_assoc, List.length_cons, readElems, hbyte, bind_ok]
    simp only at hvalue ⊢
    rw [hvalue, bind_ok]
    simp only
    rw [readElems_encodeValues vs hvs.2 (by omega) rest fuel (by omega)]
    rfl

end

end Reader

/-- Both decoders invert the encoder. A value that the encoder can carry is read back from a
buffer in which anything follows it, and from a stream of any length, which is left at the end
of the value. -/
theorem decoders_invert_encoder (v : Value) (hv : v.Encodable)
    (hlength : (encodeValue v).length ≤ maxAlloc) (s : Bytes) :
    ((encodeValue v ++ s).length ≤ maxAlloc →
      parseValue (encodeValue v ++ s) = .ok (v.decoded, ((encodeValue v).length : ℤ))) ∧
    Reader.readValue (encodeValue v ++ s) = .ok (v.decoded, s) := by
  refine ⟨parseValue_encodeValue hv s, ?_⟩
  have hread := Reader.readValueOf_encodeValue v hv hlength s (encodeValue v ++ s).length (by simp)
  exact hread

/-- The least integer and a nil element in a nested array, in front of another reply. -/
theorem decoders_invert_encoder_nested :
    let v := Value.array [.integer (-2 ^ 63), .array [.null, .bulkString crlf], .error []]
    v.Encodable ∧ (encodeValue v).length ≤ maxAlloc ∧
      Reader.readValue (encodeValue v ++ bytes "+OK\r\n") = .ok (v.decoded, bytes "+OK\r\n") := by
  intro v
  have hv : v.Encodable := by
    simp [v, Value.Encodable, AllEncodable, MakeOk, sizeofPointer, maxAlloc]
  have hlength : (encodeValue v).length ≤ maxAlloc := by decide +kernel
  exact ⟨hv, hlength, (decoders_invert_encoder v hv hlength (bytes "+OK\r\n")).2⟩

end Pluster.Proto
