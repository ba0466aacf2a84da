import Pluster.Proto.RoundTrip
import Pluster.Proto.ScanAgree

/-!
# Single frames

A reply is a single frame if `ScanValue` consumes all of it and `ParseValue` accepts it.
The encoding of a value is one as long as its lines contain no line feed, and an error line
with a line feed is not: the scanner stops there, and the rest of the text is taken for the
next reply.
-/

namespace Pluster.Proto

open GoStrings GoRuntime

variable {data : Bytes}

/-- The bytes are exactly one value, for the scanner and for the parser. -/
def SingleFrame (data : Bytes) : Prop :=
  (∃ kind msg, scanValue data = .ok ((data.length : ℤ), kind, msg)) ∧
    ∃ v, parseValue data = .ok (v, (data.length : ℤ))

/-- The reply is small enough for a client to hold its elements: at most 2^45 bytes. -/
def Fits (data : Bytes) : Prop := sizeofPointer * data.length ≤ maxAlloc

instance (data : Bytes) : Decidable (Fits data) := inferInstanceAs (Decidable (_ ≤ _))

theorem Fits.length_le (h : Fits data) : data.length ≤ maxAlloc := by
  simp only [Fits, sizeofPointer] at h
  omega

theorem Fits.mono {part : Bytes} (h : Fits data) (hle : part.length ≤ data.length) : Fits part := by
  simp only [Fits, sizeofPointer] at h ⊢
  omega

/-- What the parser accepts to its end is a single frame. -/
theorem singleFrame_of_parse (hlength : data.length ≤ maxAlloc) {v : Value}
    (h : parseValue data = .ok (v, (data.length : ℤ))) : SingleFrame data :=
  ⟨⟨_, _, scanValueAt_of_parse hlength _ 0 0 v _ rfl (by omega) (Nat.zero_le _) h⟩, v, h⟩

/-! ### Lines without a line feed -/

mutual

/-- The lines of the value contain no line feed, and its integers have 64 bits. -/
def Value.LineSafe : Value → Prop
  | .simpleString str => 10 ∉ str
  | .error str => 10 ∉ str
  | .integer n => -2 ^ 63 ≤ n ∧ n < 2 ^ 63
  | .array elems => AllLineSafe elems
  | _ => True

/-- All values of a list have such lines. -/
def AllLineSafe : List Value → Prop
  | [] => True
  | v :: vs => v.LineSafe ∧ AllLineSafe vs

end

theorem allLineSafe_iff {vs : List Value} : AllLineSafe vs ↔ ∀ v ∈ vs, v.LineSafe := by
  induction vs with
  | nil => simp [AllLineSafe]
  | cons v vs ih => simp [AllLineSafe, ih]

theorem encodeValue_length_pos (v : Value) : 0 < (encodeValue v).length := by
  cases v with
  | null | nilBulkString | nilArray => exact Nat.succ_pos _
  | _ => simp [encodeValue, encodeSimpleString, encodeError, encodeInteger, encodeBulkString]

theorem length_le_encodeValues (vs : List Value) : vs.length ≤ (encodeValues vs).length := by
  induction vs with
  | nil => simp
  | cons v vs ih =>
    have := encodeValue_length_pos v
    simp only [encodeValues, List.length_cons, List.length_append]
    omega

mutual

/-- A value with safe lines and an encoding of moderate length can be read back. -/
theorem encodable_of_lineSafe : ∀ (v : Value), v.LineSafe → Fits (encodeValue v) → v.Encodable
  | .null => fun _ _ => by simp only [Value.Encodable]
  | .simpleString _ => fun h _ => by simpa only [Value.Encodable, Value.LineSafe] using h
  | .error _ => fun h _ => by simpa only [Value.Encodable, Value.LineSafe] using h
  | .integer _ => fun h _ => by simpa only [Value.Encodable, Value.LineSafe] using h
  | .bulkString _ => fun _ _ => by simp only [Value.Encodable]
  | .nilBulkString => fun _ _ => by simp only [Value.Encodable]
  | .nilArray => fun _ _ => by simp only [Value.Encodable]
  | .array elems => fun h hfits => by
    have helems : Fits (encodeValues elems) := hfits.mono (by simp [encodeValue]; omega)
    have hsafe : AllLineSafe elems := by simpa only [Value.LineSafe] using h
    have hlength := length_le_encodeValues elems
    rw [Value.Encodable]
    refine ⟨⟨by omega, ?_⟩, allEncodable_of_lineSafe elems hsafe helems⟩
    simp only [Fits, sizeofPointer] at helems ⊢
    omega

theorem allEncodable_of_lineSafe : ∀ (vs : List Value), AllLineSafe vs → Fits (encodeValues vs) →
    AllEncodable vs
  | [] => fun _ _ => by simp only [AllEncodable]
  | v :: vs => fun h hfits => by
    rw [AllLineSafe] at h
    rw [AllEncodable]
    have hv : Fits (encodeValue v) := hfits.mono (by simp [encodeValues])
    have hvs : Fits (encodeValues vs) := hfits.mono (by simp [encodeValues])
    exact ⟨encodable_of_lineSafe v h.1 hv, allEncodable_of_lineSafe vs h.2 hvs⟩

end

/-- The encoding of a value with safe lines is a single frame. -/
theorem Value.LineSafe.singleFrame {v : Value} (h : v.LineSafe) (hfits : Fits (encodeValue v)) :
    SingleFrame (encodeValue v) := by
  have hlength := hfits.length_le
  have hparse := parseValue_encodeValue (encodable_of_lineSafe v h hfits) [] (by simpa using hlength)
  rw [List.append_nil] at hparse
  exact singleFrame_of_parse hlength hparse

/-- An error line is a single frame if and only if its text has no line feed. -/
theorem singleFrame_encodeError_iff {msg : Bytes} (hfits : Fits (encodeError msg)) :
    SingleFrame (encodeError msg) ↔ 10 ∉ msg := by
  constructor
  · rintro ⟨-, v, h⟩
    have hlength : (encodeError msg).length = msg.length + 3 := by simp [encodeError, crlf]
    rw [parseValue, parseValueAt, if_neg (by omega)] at h
    obtain ⟨typ, htyp, h⟩ := bind_eq_ok h
    have htyp' : typ = typeError := by
      cases htyp
      rfl
    subst htyp'
    rw [if_pos (Or.inr rfl)] at h
    obtain ⟨⟨line, last⟩, hread, h⟩ := bind_eq_ok h
    have hnext : wrap64 (0 + 1) = ((1 : ℕ) : ℤ) := by decide
    obtain ⟨stop, rfl, hline⟩ := lineAt_of_readLine hfits.length_le hnext
      (by rw [hlength]; omega) hread
    have hstop : (stop : ℤ) = ((encodeError msg).length : ℤ) :=
      congrArg Prod.snd (Except.ok.inj h)
    rw [lineAt, Option.map_eq_some_iff] at hline
    obtain ⟨idx, hidx, hfound⟩ := hline
    have hsum : 1 + idx + 1 = stop := congrArg Prod.snd hfound
    -- The line feed found is the last byte, so the text comes before it.
    have hbefore := (split_of_indexByte hidx).2
    have htake : ((encodeError msg).drop 1).take idx = msg ++ [13] := by
      have hidx : idx = (msg ++ [13]).length := by
        rw [List.length_append, List.length_singleton]
        omega
      have hdrop : (encodeError msg).drop 1 = (msg ++ [13]) ++ [10] := by
        simp [encodeError, crlf]
      rw [hdrop, hidx, List.take_left]
    rw [htake] at hbefore
    exact fun hmem => hbefore (List.mem_append_left _ hmem)
  · intro h
    exact Value.LineSafe.singleFrame (show (Value.error msg).LineSafe from h) hfits

/-! ### What the parser reads -/

theorem lineAt_no_lf {buf : Bytes} {k : ℕ} {line : Bytes} {last : ℕ}
    (h : lineAt buf k = some (line, last)) : 10 ∉ line := by
  rw [lineAt, Option.map_eq_some_iff] at h
  obtain ⟨idx, hidx, hfound⟩ := h
  have hbefore := (split_of_indexByte hidx).2
  have hline : stripCR ((buf.drop k).take idx) = line := congrArg Prod.fst hfound
  rw [← hline, stripCR]
  split
  · exact fun hmem => hbefore ((List.dropLast_sublist _).subset hmem)
  · exact hbefore

section Parse

variable {buf : Bytes} (hbuf : buf.length ≤ maxAlloc)
variable {k : ℕ} {next last : ℤ}
include hbuf

theorem readLine_no_lf {pos : ℤ} (hpos : pos = k) (hk : k ≤ buf.length) {line : Bytes}
    (h : readLine buf pos = .ok (line, next)) : 10 ∉ line := by
  obtain ⟨last, -, hline⟩ := lineAt_of_readLine hbuf hpos hk h
  exact lineAt_no_lf hline

/-- The elements of an array have safe lines if every value parsed does. -/
private theorem allLineSafe_of_parseElems {fuel : ℕ} (start : ℕ)
    (hvalue : ∀ (cur : ℤ) (k : ℕ) v next, cur = k → start ≤ k → k ≤ buf.length →
      parseValueAt buf fuel cur = .ok (v, next) → v.LineSafe) (hfuel : buf.length < fuel + start)
    (n : ℕ) {cur : ℤ} (hcur : cur = k) (hstart : start ≤ k) (hk : k ≤ buf.length)
    {elems : List Value} (h : parseElems (parseValueAt buf fuel) n cur = .ok (elems, last)) :
    AllLineSafe elems := by
  induction n generalizing cur k elems last with
  | zero =>
    cases h
    simp only [AllLineSafe]
  | succ n ih =>
    rw [parseElems] at h
    obtain ⟨⟨v, next⟩, hv, h⟩ := bind_eq_ok h
    obtain ⟨⟨rest, last'⟩, hrest, h⟩ := bind_eq_ok h
    cases h
    obtain ⟨stop, rfl, hlt, hle⟩ := parseValueAt_bounds hbuf hcur (by omega) hk hv
    rw [AllLineSafe]
    exact ⟨hvalue cur k v stop hcur hstart hk hv, ih rfl (by omega) hle hrest⟩

omit hbuf in
private theorem lineSafe_of_parseBulkPayload {n : ℤ} {v : Value}
    (h : parseBulkPayload buf last n = .ok (v, next)) : v.LineSafe := by
  simp only [parseBulkPayload] at h
  split at h
  · cases h
  obtain ⟨_, -, h⟩ := bind_eq_ok h
  obtain ⟨data, -, h⟩ := bind_eq_ok h
  cases h
  simp only [Value.LineSafe]

/-- A value that has been read has safe lines, by induction on the fuel. -/
theorem lineSafe_of_parseValueAt (fuel : ℕ) (pos : ℤ) (k : ℕ) (v : Value) (n : ℤ) (hpos : pos = k)
    (hfuel : buf.length < fuel + k) (hk : k ≤ buf.length)
    (h : parseValueAt buf fuel pos = .ok (v, n)) : v.LineSafe := by
  induction fuel generalizing pos k v n with
  | zero => omega
  | succ fuel ih =>
    rw [parseValueAt] at h
    split at h
    · cases h
    rename_i hin
    obtain ⟨typ, -, h⟩ := bind_eq_ok h
    have hlt : k + 1 ≤ buf.length := by omega
    have hnext := wrap64_succ hbuf hpos hk
    split at h
    · obtain ⟨⟨line, last⟩, hread, h⟩ := bind_eq_ok h
      have hline := readLine_no_lf hbuf hnext hlt hread
      cases h
      split
      · simpa only [Value.LineSafe] using hline
      · simpa only [Value.LineSafe] using hline
    · split at h
      · obtain ⟨⟨line, last⟩, -, h⟩ := bind_eq_ok h
        simp only at h
        split at h
        · cases h
        rename_i m hm
        cases h
        simpa only [Value.LineSafe] using parseIntBytes_bounds hm
      · split at h
        · obtain ⟨⟨line, last⟩, -, h⟩ := bind_eq_ok h
          simp only at h
          split at h
          · cases h
          split at h
          · cases h
            simp only [Value.LineSafe]
          · exact lineSafe_of_parseBulkPayload h
        · split at h
          · obtain ⟨⟨line, last⟩, hread, h⟩ := bind_eq_ok h
            simp only at h
            split at h
            · cases h
            split at h
            · cases h
              simp only [Value.LineSafe]
            obtain ⟨_, -, h⟩ := bind_eq_ok h
            obtain ⟨⟨elems, cur⟩, helems, h⟩ := bind_eq_ok h
            cases h
            obtain ⟨stop, rfl, hstop⟩ := lineAt_of_readLine hbuf hnext hlt hread
            obtain ⟨hbefore, hle⟩ := lineAt_bounds hstop
            rw [Value.LineSafe]
            exact allLineSafe_of_parseElems hbuf stop
              (fun cur j v next hcur hj hjle hv => ih cur j v next hcur (by omega) hjle hv)
              (by omega) _ rfl (le_refl stop) hle helems
          · unfold parseInlineAt at h
            obtain ⟨⟨line, last⟩, -, h⟩ := bind_eq_ok h
            obtain ⟨parts, -, h⟩ := bind_eq_ok h
            cases h
            rw [Value.LineSafe, allLineSafe_iff]
            intro part hpart
            obtain ⟨data, -, rfl⟩ := List.mem_map.mp hpart
            simp only [Value.LineSafe]

end Parse

/-- A value that has been read can be written again. -/
theorem lineSafe_of_parseValue {data : Bytes} (hlength : data.length ≤ maxAlloc) {v : Value} {n : ℤ}
    (h : parseValue data = .ok (v, n)) : v.LineSafe :=
  lineSafe_of_parseValueAt hlength _ 0 0 v n rfl (by omega) (Nat.zero_le _) h

end Pluster.Proto
