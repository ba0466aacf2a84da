import Mathlib

/-!
# Byte strings

Requests, replies and keys are Go byte slices, modelled as lists of bytes.
-/

namespace Pluster

/-- A Go byte slice or string. -/
abbrev Bytes := List UInt8

instance lawfulBEqBytes : LawfulBEq Bytes := inferInstance

/-- The bytes of a string literal of the source. -/
def bytes (s : String) : Bytes := s.toUTF8.data.toList

end Pluster
