import Pluster.Proto.Resp
import Pluster.Lib.GoRuntime

/-!
# The buffer parsers

`ParseRequest`, `ParseValue` and `ScanValue` of `pkg/proto/resp.go`, with 64-bit
arithmetic and the run-time checks of Go. Positions are integers because a
declared length can wrap around to a negative position.

Nesting is bounded by `fuel`; running out of it counts as a panic, so the safety
results show that it does not happen.
-/

namespace Pluster.Proto

open GoStrings GoRuntime

/-- How a parser ends without a result. -/
inductive ParseError
  | incomplete
  | invalidProtocol
  | panic
  deriving DecidableEq

/-- The result of a parser. -/
abbrev Parse (α : Type) := Except ParseError α

/-- An expression that the run time checks. -/
def orPanic {α : Type} : Option α → Parse α
  | none => .error .panic
  | some a => .ok a

/-- `TypeSimpleString`. -/
def typeSimpleString : UInt8 := 43
/-- `TypeError`. -/
def typeError : UInt8 := 45
/-- `TypeInteger`. -/
def typeInteger : UInt8 := 58
/-- `TypeBulkString`. -/
def typeBulkString : UInt8 := 36
/-- `TypeArray`. -/
def typeArray : UInt8 := 42

/-- A line without the carriage return at its end. -/
def stripCR (line : Bytes) : Bytes := if line.getLast? = some 13 then line.dropLast else line

/-- `readLine`: the line at a position and the position after it. -/
def readLine (buf : Bytes) (pos : ℤ) : Parse (Bytes × ℤ) := do
  let rest ← orPanic (slice buf pos buf.length)
  match indexByte rest 10 with
  | none => .error .incomplete
  | some idx =>
    let line ← orPanic (slice buf pos (wrap64 (pos + idx)))
    return (stripCR line, wrap64 (wrap64 (pos + idx) + 1))

/-- The loop of `parseIntBytes`. -/
def parseDigits (n : ℤ) : Bytes → Option ℤ
  | [] => some n
  | c :: rest =>
    if c < 48 ∨ 57 < c then none else parseDigits (wrap64 (wrap64 (n * 10) + (c - 48).toNat)) rest

/-- `parseIntBytes`. -/
def parseIntBytes (b : Bytes) : Option ℤ :=
  match b with
  | [] => none
  | c :: rest => if c = 45 then (parseDigits 0 rest).map fun n => wrap64 (-n) else parseDigits 0 b

/-- The size of a slice header, the element of `[][]byte`. -/
def sizeofSlice : ℤ := 24

/-- The size of a pointer, the element of `[]*Value`. -/
def sizeofPointer : ℤ := 8

/-- A `make` of `n` elements of the given size. -/
def makeSlice (size n : ℤ) : Parse Unit := if MakeOk size n then .ok () else .error .panic

/-- The loops of `parseRequestDirect` and `parseValueAt` over the elements of an array. -/
def parseElems {α : Type} (parse : ℤ → Parse (α × ℤ)) : ℕ → ℤ → Parse (List α × ℤ)
  | 0, cur => .ok ([], cur)
  | n + 1, cur => do
    let (v, next) ← parse cur
    let (vs, last) ← parseElems parse n next
    return (v :: vs, last)

/-! ### Requests -/

/-- The payload of an argument of `parseRequestDirect`: its positions in the buffer and the
position after it. -/
def parseArgPayload (buf : Bytes) (bend blen : ℤ) : Parse ((ℤ × ℤ) × ℤ) :=
  let need := wrap64 (wrap64 (bend + blen) + 2)
  if buf.length < need then .error .incomplete
  else do
    let hi := wrap64 (bend + blen)
    let _ ← orPanic (slice buf bend hi)
    return ((bend, hi), need)

/-- One argument of `parseRequestDirect`. -/
def parseArg (buf : Bytes) (cur : ℤ) : Parse ((ℤ × ℤ) × ℤ) :=
  if buf.length ≤ cur then .error .incomplete
  else do
    let c ← orPanic (index buf cur)
    if c ≠ typeBulkString then .error .incomplete
    else do
      let (bline, bend) ← readLine buf (wrap64 (cur + 1))
      match parseIntBytes bline with
      | none => .error .invalidProtocol
      | some blen =>
        if blen < 0 then .error .invalidProtocol else parseArgPayload buf bend blen

/-- `upperASCIIInPlace`. -/
def upperASCII (b : Bytes) : Bytes := b.map fun c => if 97 ≤ c ∧ c ≤ 122 then c - 32 else c

/-- Upper-case the bytes of a slice between two positions, in place. -/
def upperSpan (raw : Bytes) (span : ℤ × ℤ) : Bytes :=
  raw.take span.1.toNat ++ upperASCII ((raw.drop span.1.toNat).take (span.2 - span.1).toNat) ++
    raw.drop span.2.toNat

/-- The request of an array: the arguments are slices of `raw`, so upper-casing the first
one changes `raw` too. -/
def requestOfSpans (raw : Bytes) (spans : List (ℤ × ℤ)) : Parse Request := do
  let args ← spans.mapM fun span => orPanic (slice raw span.1 span.2)
  match args, spans with
  | first :: rest, span :: _ =>
    return { args := upperASCII first :: rest, raw := upperSpan raw span, cmd := upperASCII first }
  | _, _ => return { args, raw }

/-- The line that starts at a position, as the inline parsers read it. -/
def inlineFields (size : ℤ) (line : Bytes) : Parse (List Bytes) :=
  if trimSpace line = [] then .error .invalidProtocol
  else do
    let parts := fields (trimSpace line)
    makeSlice size parts.length
    return parts

/-- The request of an inline command. The arguments are copies, so `raw` keeps its case. -/
def inlineRequest (args : List Bytes) (raw : Bytes) : Request :=
  match args with
  | first :: rest => { args := upperASCII first :: rest, raw, cmd := upperASCII first }
  | [] => { args, raw }

/-- `parseInlineRequest` on a line that ends at an index. -/
def parseInlineLine (buf : Bytes) (idx : ℤ) : Parse (Request × ℤ) := do
  let line ← orPanic (slice buf 0 idx)
  let args ← inlineFields sizeofSlice (stripCR line)
  let raw ← orPanic (slice buf 0 (wrap64 (idx + 1)))
  return (inlineRequest args raw, wrap64 (idx + 1))

/-- `parseInlineRequest`, with the upper-casing that `ParseRequest` does. -/
def parseInlineRequest (buf : Bytes) : Parse (Request × ℤ) :=
  match indexByte buf 10 with
  | none => .error .incomplete
  | some idx => parseInlineLine buf idx

/-- `parseRequestDirect` on an array. -/
def parseArrayRequest (buf : Bytes) : Parse (Request × ℤ) := do
  let (line, pos) ← readLine buf 1
  match parseIntBytes line with
  | none => .error .invalidProtocol
  | some n =>
    if n ≤ 0 then .error .invalidProtocol
    else do
      makeSlice sizeofSlice n
      let (spans, cur) ← parseElems (parseArg buf) n.toNat pos
      let raw ← orPanic (slice buf 0 cur)
      let req ← requestOfSpans raw spans
      return (req, cur)

/-- `ParseRequest`, on a buffer of a connection. The error `incomplete` is the result
`nil, 0, nil`, which asks for more data. -/
def parseRequest (buf : Bytes) : Parse (Request × ℤ) :=
  if buf = [] then .error .incomplete
  else do
    let c ← orPanic (index buf 0)
    if c ≠ typeArray then parseInlineRequest buf else parseArrayRequest buf

/-! ### Values -/

/-- `parseInlineAt`. -/
def parseInlineAt (buf : Bytes) (pos : ℤ) : Parse (Value × ℤ) := do
  let (line, last) ← readLine buf pos
  let parts ← inlineFields sizeofPointer line
  return (.array (parts.map .bulkString), last)

/-- The payload of a bulk string in `parseValueAt`. -/
def parseBulkPayload (buf : Bytes) (last n : ℤ) : Parse (Value × ℤ) :=
  let need := wrap64 (wrap64 (last + n) + 2)
  if buf.length < need then .error .incomplete
  else do
    makeSlice 1 n
    let data ← orPanic (slice buf last (wrap64 (last + n)))
    return (.bulkString data, need)

/-- `parseValueAt`. -/
def parseValueAt (buf : Bytes) : ℕ → ℤ → Parse (Value × ℤ)
  | 0, _ => .error .panic
  | fuel + 1, pos =>
    if buf.length ≤ pos then .error .incomplete
    else do
      let typ ← orPanic (index buf pos)
      if typ = typeSimpleString ∨ typ = typeError then do
        let (line, last) ← readLine buf (wrap64 (pos + 1))
        return (if typ = typeError then .error line else .simpleString line, last)
      else if typ = typeInteger then do
        let (line, last) ← readLine buf (wrap64 (pos + 1))
        match parseIntBytes line with
        | none => .error .invalidProtocol
        | some n => return (.integer n, last)
      else if typ = typeBulkString then do
        let (line, last) ← readLine buf (wrap64 (pos + 1))
        match parseIntBytes line with
        | none => .error .invalidProtocol
        | some n =>
          if n < 0 then return (.nilBulkString, last) else parseBulkPayload buf last n
      else if typ = typeArray then do
        let (line, last) ← readLine buf (wrap64 (pos + 1))
        match parseIntBytes line with
        | none => .error .invalidProtocol
        | some n =>
          if n < 0 then return (.nilArray, last)
          else do
            makeSlice sizeofPointer n
            let (elems, cur) ← parseElems (parseValueAt buf fuel) n.toNat last
            return (.array elems, cur)
      else parseInlineAt buf pos

/-- `ParseValue`. The error `incomplete` is the result `nil, 0, nil`. -/
def parseValue (buf : Bytes) : Parse (Value × ℤ) := parseValueAt buf (buf.length + 1) 0

/-! ### Scanning -/

/-- The results of `ScanValue`: the end, the kind of error and its message. -/
abbrev Scan := ℤ × ErrorKind × Bytes

/-- The result for a value that is not complete. -/
def scanNone : Scan := (0, .none, [])

/-- Go on with a line, or report an incomplete value if there is none. -/
def scanLine (buf : Bytes) (pos : ℤ) (next : Bytes × ℤ → Parse Scan) : Parse Scan :=
  match readLine buf pos with
  | .ok line => next line
  | .error .panic => .error .panic
  | .error _ => .ok scanNone

/-- The loop of `scanValueAt` over the elements of an array. -/
def scanElems (scan : ℤ → Parse Scan) : ℕ → ℤ → Parse Scan
  | 0, cur => .ok (cur, .none, [])
  | n + 1, cur => do
    let (next, _, _) ← scan cur
    if next = 0 then return scanNone else scanElems scan n next

/-- The payload of a bulk string in `scanValueAt`. -/
def scanBulkPayload (buf : Bytes) (last n : ℤ) : Parse Scan :=
  let need := wrap64 (wrap64 (last + n) + 2)
  if buf.length < need then .ok scanNone else .ok (need, .none, [])

/-- The kind of an error reply. -/
def errorKind (line : Bytes) : ErrorKind :=
  if hasPrefix line (bytes "MOVED ") then .moved
  else if hasPrefix line (bytes "ASK ") then .ask
  else .other

/-- `scanValueAt`. -/
def scanValueAt (buf : Bytes) : ℕ → ℤ → Parse Scan
  | 0, _ => .error .panic
  | fuel + 1, pos =>
    if buf.length ≤ pos then .ok scanNone
    else do
      let typ ← orPanic (index buf pos)
      if typ = typeSimpleString ∨ typ = typeInteger then
        scanLine buf (wrap64 (pos + 1)) fun (_, last) => .ok (last, .none, [])
      else if typ = typeError then
        scanLine buf (wrap64 (pos + 1)) fun (line, last) => .ok (last, errorKind line, line)
      else if typ = typeBulkString then
        scanLine buf (wrap64 (pos + 1)) fun (line, last) =>
          match parseIntBytes line with
          | none => .ok scanNone
          | some n => if n < 0 then .ok (last, .none, []) else scanBulkPayload buf last n
      else if typ = typeArray then
        scanLine buf (wrap64 (pos + 1)) fun (line, last) =>
          match parseIntBytes line with
          | none => .ok scanNone
          | some n =>
            if n < 0 then .ok (last, .none, [])
            else scanElems (scanValueAt buf fuel) n.toNat last
      else scanLine buf pos fun (_, last) => .ok (last, .none, [])

/-- `ScanValue`. -/
def scanValue (buf : Bytes) : Parse Scan := scanValueAt buf (buf.length + 1) 0

end Pluster.Proto
