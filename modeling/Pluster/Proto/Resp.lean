import Pluster.Proto.Bytes
import Pluster.Lib.GoStrings

/-!
# RESP values, requests and their encodings

The types and the encoders of `pkg/proto/resp.go`.
-/

namespace Pluster.Proto

open GoStrings

/-- `*Value`. The source's record has a field for each kind of payload; `null` is
the nil pointer and the two nil kinds are those with `IsNil`. -/
inductive Value
  | null
  | simpleString (str : Bytes)
  | error (str : Bytes)
  | integer (n : ℤ)
  | bulkString (str : Bytes)
  | nilBulkString
  | array (elems : List Value)
  | nilArray
  deriving Inhabited

/-- `Request`. -/
structure Request where
  args : List Bytes
  raw : Bytes := []
  cmd : Bytes := []
  deriving DecidableEq

/-- The line end of the protocol. -/
def crlf : Bytes := [13, 10]

theorem length_crlf : crlf.length = 2 := rfl

/-- `EncodeSimpleString`. -/
def encodeSimpleString (s : Bytes) : Bytes := [43] ++ s ++ crlf

/-- `EncodeError`. -/
def encodeError (msg : Bytes) : Bytes := [45] ++ msg ++ crlf

/-- `EncodeInteger`. -/
def encodeInteger (n : ℤ) : Bytes := [58] ++ itoa n ++ crlf

/-- `EncodeBulkString`, which is `appendBulk` to an empty buffer. -/
def encodeBulkString (data : Bytes) : Bytes :=
  [36] ++ formatNat data.length ++ crlf ++ data ++ crlf

/-- `EncodeCommandBytes`. -/
def encodeCommandBytes (args : List Bytes) : Bytes :=
  [42] ++ formatNat args.length ++ crlf ++ args.flatMap encodeBulkString

/-- The encoding of a nil bulk string. -/
def nilBulkBytes : Bytes := bytes "$-1\r\n"

/-- The encoding of a nil array. -/
def nilArrayBytes : Bytes := bytes "*-1\r\n"

mutual

/-- `EncodeValue`, which is `appendValue` to an empty buffer. -/
def encodeValue : Value → Bytes
  | .null => nilBulkBytes
  | .simpleString str => encodeSimpleString str
  | .error str => encodeError str
  | .integer n => encodeInteger n
  | .bulkString str => encodeBulkString str
  | .nilBulkString => nilBulkBytes
  | .array elems => [42] ++ formatNat elems.length ++ crlf ++ encodeValues elems
  | .nilArray => nilArrayBytes

/-- The loop of `appendValue` over the elements of an array. -/
def encodeValues : List Value → Bytes
  | [] => []
  | v :: vs => encodeValue v ++ encodeValues vs

end

namespace Value

/-- `IsError`. -/
def isError : Value → Bool
  | .error _ => true
  | _ => false

/-- `IsMovedError`. -/
def isMovedError : Value → Bool
  | .error str => hasPrefix str (bytes "MOVED ")
  | _ => false

/-- `IsAskError`. -/
def isAskError : Value → Bool
  | .error str => hasPrefix str (bytes "ASK ")
  | _ => false

/-- `IsClusterDownError`. -/
def isClusterDownError : Value → Bool
  | .error str => hasPrefix str (bytes "CLUSTERDOWN")
  | _ => false

/-- `IsLoadingError`. -/
def isLoadingError : Value → Bool
  | .error str => hasPrefix str (bytes "LOADING")
  | _ => false

/-- `Error`. -/
def errorMsg : Value → Bytes
  | .error str => str
  | _ => []

/-- The field `Str`. -/
def str : Value → Bytes
  | .simpleString str | .error str | .bulkString str => str
  | _ => []

/-- `ParseRedirection`, without the error texts, which are not used. -/
def parseRedirection : Value → Option (ℤ × Bytes)
  | .error str =>
    match splitN str 32 3 with
    | [_, slot, addr] => (atoi slot).map fun s => (s, addr)
    | _ => none
  | _ => none

end Value

/-- `ErrorKind`. -/
inductive ErrorKind
  | none
  | moved
  | ask
  | other
  deriving DecidableEq

end Pluster.Proto
