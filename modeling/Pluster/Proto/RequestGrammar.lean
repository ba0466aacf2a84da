import Pluster.Proto.RequestFrame

/-!
# Requests on their way to a backend

A request leaves the proxy as the bytes it came in, with the command name in upper
case (`Raw`, on the shared connections), or as the encoding of its arguments (on the
other connections). Both carry the same command.

The bytes it came in need not be what the grammar of the protocol says, because the
parser takes more: lines without a carriage return, numbers with a sign, numbers that
wrap around, and any two bytes after a payload.
-/

namespace Pluster.Proto

open GoStrings GoRuntime

variable {args : List Bytes} {buf line num b : Bytes} {req : Request} {n acc : ℕ}

theorem upperASCII_idem (b : Bytes) : upperASCII (upperASCII b) = upperASCII b := by
  have hbyte : ∀ c : UInt8, ¬ (97 ≤ (if 97 ≤ c ∧ c ≤ 122 then c - 32 else c) ∧
      (if 97 ≤ c ∧ c ≤ 122 then c - 32 else c) ≤ 122) := by
    intro c
    split
    · rename_i hc
      simp only [UInt8.le_iff_toNat_le, UInt8.toNat_sub, UInt8.reduceToNat] at hc ⊢
      omega
    · assumption
  simp only [upperASCII, List.map_map]
  refine List.map_congr_left fun c _ => ?_
  exact if_neg (hbyte c)

/-! ### The two encodings -/

theorem stripCR_append (line : Bytes) : stripCR (line ++ [13]) = line := by simp [stripCR]

/-- The header line that the encoders write. -/
def Header.ofNat (n : ℕ) (hn : n < 2 ^ 63) : Header where
  body := formatNat n ++ [13]
  value := n
  body_no_lf := by simp [formatNat_no_lf n]
  parses := by rw [stripCR_append, parseIntBytes_formatNat hn]

/-- The argument that the encoders write. -/
def Item.ofBytes (data : Bytes) (hdata : data.length < 2 ^ 63) : Item where
  header := .ofNat data.length hdata
  payload := data
  tail := crlf
  length_payload := rfl
  length_tail := rfl

theorem Item.bytes_ofBytes (data : Bytes) (hdata : data.length < 2 ^ 63) :
    (Item.ofBytes data hdata).bytes = encodeBulkString data := by
  simp [Item.bytes, Item.ofBytes, Header.ofNat, Header.bytes, encodeBulkString, crlf]

theorem exists_items_encodeBulkString (args : List Bytes)
    (hargs : ∀ arg ∈ args, arg.length < 2 ^ 63) :
    ∃ items : List Item, items.flatMap Item.bytes = args.flatMap encodeBulkString ∧
      items.map Item.payload = args := by
  induction args with
  | nil => exact ⟨[], rfl, rfl⟩
  | cons arg args ih =>
    obtain ⟨items, hbytes, hpayloads⟩ := ih fun a ha => hargs a (List.mem_cons_of_mem _ ha)
    refine ⟨.ofBytes arg (hargs arg List.mem_cons_self) :: items, ?_, ?_⟩
    · rw [List.flatMap_cons, List.flatMap_cons, Item.bytes_ofBytes, hbytes]
    rw [List.map_cons, hpayloads]
    rfl

theorem length_le_encodeBulkString {arg : Bytes} (h : arg ∈ args) :
    arg.length ≤ (encodeCommandBytes args).length := by
  have hmem : arg.length ≤ (args.flatMap encodeBulkString).length := by
    obtain ⟨before, after, rfl⟩ := List.append_of_mem h
    simp [encodeBulkString]
    omega
  rw [encodeCommandBytes, List.length_append]
  omega

/-- The encoding of a command is a frame with the arguments as payloads. -/
theorem exists_frame_encodeCommandBytes (first : Bytes) (others : List Bytes)
    (hmake : MakeOk sizeofSlice (others.length + 1 : ℕ))
    (hlength : (encodeCommandBytes (first :: others)).length ≤ maxAlloc) :
    ∃ f : RequestFrame, f.bytes = encodeCommandBytes (first :: others) ∧
      f.items.length = others.length + 1 ∧
      f.request = { args := upperASCII first :: others
                    raw := encodeCommandBytes (upperASCII first :: others)
                    cmd := upperASCII first } := by
  have hlt : ∀ arg ∈ first :: others, arg.length < 2 ^ 63 := fun arg harg => by
    have := length_le_encodeBulkString harg
    unfold maxAlloc at hlength
    omega
  have hcount : others.length + 1 < 2 ^ 63 := by
    simp only [MakeOk, sizeofSlice, maxAlloc] at hmake
    omega
  obtain ⟨items, hbytes, hpayloads⟩ :=
    exists_items_encodeBulkString others fun a ha => hlt a (List.mem_cons_of_mem _ ha)
  have hitems : items.length = others.length := by rw [← hpayloads, List.length_map]
  have hfirst := hlt first List.mem_cons_self
  refine ⟨⟨.ofNat (others.length + 1) hcount, .ofBytes first hfirst, items, by rw [hitems]; rfl⟩,
    ?_, by rw [RequestFrame.items, List.length_cons, hitems], ?_⟩
  · simp only [RequestFrame.bytes, RequestFrame.items, List.flatMap_cons, Item.bytes_ofBytes,
      hbytes, encodeCommandBytes, Header.bytes, Header.ofNat, List.length_cons, crlf]
    simp
  have hupper : (Item.ofBytes first hfirst).upper.bytes =
      encodeBulkString (upperASCII first) := by
    simp [Item.bytes, Item.upper, Item.ofBytes, Header.ofNat, Header.bytes, encodeBulkString,
      crlf, upperASCII]
  simp only [RequestFrame.request, RequestFrame.upper, RequestFrame.bytes, RequestFrame.items,
    List.flatMap_cons, hupper, hbytes, hpayloads, encodeCommandBytes, Header.bytes,
    Header.ofNat, List.length_cons, crlf]
  simp [Item.ofBytes]

/-- The parse of an encoded command. -/
theorem parseRequest_encodeCommandBytes (first : Bytes) (others : List Bytes) (suffix : Bytes)
    (hmake : MakeOk sizeofSlice (others.length + 1 : ℕ))
    (hlength : (encodeCommandBytes (first :: others) ++ suffix).length ≤ maxAlloc) :
    parseRequest (encodeCommandBytes (first :: others) ++ suffix) =
      .ok ({ args := upperASCII first :: others
             raw := encodeCommandBytes (upperASCII first :: others)
             cmd := upperASCII first }, ((encodeCommandBytes (first :: others)).length : ℤ)) := by
  obtain ⟨f, hbytes, hitems, hrequest⟩ := exists_frame_encodeCommandBytes first others hmake
    (by rw [List.length_append] at hlength; omega)
  rw [← hbytes, f.parseRequest_append suffix (by rwa [hbytes]), hitems, makeSlice, if_pos hmake,
    bind_ok, hrequest]

theorem parseRequest_inline (hne : buf ≠ []) (hhead : buf.head? ≠ some typeArray) :
    parseRequest buf = parseInlineRequest buf := by
  obtain _ | ⟨c, tail⟩ := buf
  · exact absurd rfl hne
  have hc : c ≠ typeArray := fun hc => hhead (by rw [hc]; rfl)
  rw [parseRequest, if_neg hne]
  exact if_pos hc

/-- The parse of a line that is not an array. -/
theorem parseRequest_line (hhead : (line ++ [10]).head? ≠ some typeArray) (hline : 10 ∉ line)
    (rest : Bytes) (hlength : (line ++ 10 :: rest).length ≤ maxAlloc) :
    parseRequest (line ++ 10 :: rest) =
      (inlineFields sizeofSlice (stripCR line) >>= fun args =>
        .ok (inlineRequest args (line ++ [10]), ((line ++ [10]).length : ℤ))) := by
  have hsplit : line ++ 10 :: rest = (line ++ [10]) ++ rest := by simp
  have hfront : ∀ front back : Bytes, slice (front ++ back) 0 (front.length : ℕ) = some front := by
    intro front back
    have := slice_natCast (s := front ++ back) (Nat.zero_le front.length) (by simp)
    rwa [List.drop_zero, Nat.sub_zero, List.take_left] at this
  have hend : wrap64 ((line.length : ℤ) + 1) = ((line ++ [10]).length : ℕ) := by
    rw [List.length_append] at hlength ⊢
    unfold maxAlloc at hlength
    rw [wrap64_eq_self (by omega) (by omega)]
    rfl
  have hbody := hfront line (10 :: rest)
  have hraw := hfront (line ++ [10]) rest
  rw [← hsplit] at hraw
  rw [parseRequest_inline (by simp) (by rw [hsplit]; simpa using hhead), parseInlineRequest,
    indexByte_append hline]
  simp only
  rw [parseInlineLine, hend, hbody, hraw]
  rfl

/-- A request that is not an array is a line. -/
theorem exists_line_of_parseRequest (hhead : buf.head? ≠ some typeArray) {n : ℤ}
    (h : parseRequest buf = .ok (req, n)) : ∃ line rest, buf = line ++ 10 :: rest ∧ 10 ∉ line := by
  by_cases hne : buf = []
  · rw [hne] at h
    cases h
  rw [parseRequest_inline hne hhead, parseInlineRequest] at h
  cases hidx : indexByte buf 10 with
  | none =>
    simp only [hidx] at h
    cases h
  | some idx => exact ⟨_, _, split_of_indexByte hidx⟩

/-- The fields of a line that is accepted: there is one, and Go can make a slice for them. -/
theorem inlineFields_eq_ok {size : ℤ} (h : inlineFields size line = .ok args) :
    args ≠ [] ∧ MakeOk size args.length := by
  unfold inlineFields at h
  split at h
  · cases h
  rename_i hne
  obtain ⟨_, hmake, h⟩ := bind_eq_ok h
  cases h
  refine ⟨fields_trimSpace_ne_nil hne, ?_⟩
  unfold makeSlice at hmake
  split at hmake
  · assumption
  · cases hmake

/-- A request with these arguments is carried by their encoding. -/
private theorem parseRequest_args {first : Bytes} {others : List Bytes}
    (hargs : req.args = upperASCII first :: others) (hcmd : req.cmd = upperASCII first)
    (hmake : MakeOk sizeofSlice (others.length + 1 : ℕ))
    (hlength : (encodeCommandBytes req.args).length ≤ maxAlloc) :
    parseRequest (encodeCommandBytes req.args) =
      .ok ({ req with raw := encodeCommandBytes req.args },
        ((encodeCommandBytes req.args).length : ℤ)) := by
  have hparse := parseRequest_encodeCommandBytes (upperASCII first) others [] hmake
    (by rwa [List.append_nil, ← hargs])
  rw [List.append_nil, upperASCII_idem, ← hargs, ← hcmd] at hparse
  exact hparse

theorem RequestFrame.upper_upper (f : RequestFrame) : f.upper.upper = f.upper := by
  simp only [upper, Item.upper, upperASCII_idem]

theorem RequestFrame.request_upper (f : RequestFrame) : f.upper.request = f.request := by
  simp only [request, upper_upper]
  simp only [upper, Item.upper, upperASCII_idem]

theorem RequestFrame.length_upper (f : RequestFrame) : f.upper.bytes.length = f.bytes.length := by
  simp [bytes, upper, items, Item.bytes, Item.upper, upperASCII]

/-- Both encodings of a request carry it. An encoded command is read back with its name in
upper case, whatever follows it. A request that was parsed is parsed again from its raw bytes,
and from the encoding of its arguments, and nothing is left over. -/
theorem encodings_carry_command :
    (∀ (first : Bytes) (others : List Bytes) (suffix : Bytes),
      MakeOk sizeofSlice (others.length + 1 : ℕ) →
      (encodeCommandBytes (first :: others) ++ suffix).length ≤ maxAlloc →
      parseRequest (encodeCommandBytes (first :: others) ++ suffix) =
        .ok ({ args := upperASCII first :: others
               raw := encodeCommandBytes (upperASCII first :: others)
               cmd := upperASCII first }, ((encodeCommandBytes (first :: others)).length : ℤ))) ∧
    ∀ (buf : Bytes) (req : Request) (n : ℤ), buf.length ≤ maxAlloc →
      parseRequest buf = .ok (req, n) →
      parseRequest req.raw = .ok (req, (req.raw.length : ℤ)) ∧
      ((encodeCommandBytes req.args).length ≤ maxAlloc →
        parseRequest (encodeCommandBytes req.args) =
          .ok ({ req with raw := encodeCommandBytes req.args },
            ((encodeCommandBytes req.args).length : ℤ))) := by
  refine ⟨parseRequest_encodeCommandBytes, fun buf req n hbuf h => ?_⟩
  by_cases hhead : buf.head? = some typeArray
  · obtain ⟨f, rest, rfl, -, rfl, hmake⟩ := RequestFrame.exists_of_parseRequest hbuf hhead h
    refine ⟨?_, parseRequest_args rfl rfl (by simpa [RequestFrame.items] using hmake)⟩
    have hraw : (f.upper.bytes ++ []).length ≤ maxAlloc := by
      rw [List.length_append] at hbuf
      rw [List.append_nil, f.length_upper]
      omega
    have hparse := f.upper.parseRequest_append [] hraw
    have hmake' : MakeOk sizeofSlice f.upper.items.length := hmake
    rw [List.append_nil, f.request_upper, makeSlice, if_pos hmake', bind_ok] at hparse
    exact hparse
  · obtain ⟨line, rest, rfl, hline⟩ := exists_line_of_parseRequest hhead h
    have hhead' : (line ++ [10]).head? ≠ some typeArray := by simpa using hhead
    rw [parseRequest_line hhead' hline rest hbuf] at h
    obtain ⟨args, hfields, h⟩ := bind_eq_ok h
    obtain ⟨hne, hmake⟩ := inlineFields_eq_ok hfields
    cases h
    have hlength : (line ++ [10]).length ≤ maxAlloc := by
      simp only [List.length_append, List.length_cons, List.length_nil] at hbuf ⊢
      omega
    have hparse := parseRequest_line hhead' hline [] hlength
    rw [hfields, bind_ok] at hparse
    obtain _ | ⟨first, others⟩ := args
    · exact absurd rfl hne
    · exact ⟨hparse, parseRequest_args rfl rfl hmake⟩

/-! ### The grammar -/

/-- A plain decimal numeral and its exact value. -/
def IsNumeral (num : Bytes) (n : ℕ) : Prop := num ≠ [] ∧ digitsVal 0 num = some n

/-- An argument in the grammar of the protocol. -/
def IsArgument (b : Bytes) : Prop :=
  ∃ num payload : Bytes, IsNumeral num payload.length ∧
    b = [36] ++ num ++ crlf ++ payload ++ crlf

/-- A request in the grammar of the protocol. -/
def IsRequest (b : Bytes) : Prop :=
  ∃ (num : Bytes) (args : List Bytes), IsNumeral num args.length ∧ args ≠ [] ∧
    (∀ arg ∈ args, IsArgument arg) ∧ b = [42] ++ num ++ crlf ++ args.flatten

/-- The header line is a plain numeral, with its exact value, and ends in CR LF. -/
def Header.Plain (h : Header) : Prop :=
  h.body.getLast? = some 13 ∧ h.body.dropLast ≠ [] ∧ digitsVal 0 h.body.dropLast = some h.value

instance (h : Header) : Decidable h.Plain := inferInstanceAs (Decidable (_ ∧ _ ∧ _))

/-- The header line is plain and CR LF follows the payload. -/
def Item.Plain (i : Item) : Prop := i.header.Plain ∧ i.tail = crlf

instance (i : Item) : Decidable i.Plain := inferInstanceAs (Decidable (_ ∧ _))

/-- All header lines and all ends of payloads are those of the protocol. -/
def RequestFrame.Plain (f : RequestFrame) : Prop := f.header.Plain ∧ ∀ i ∈ f.items, i.Plain

instance (f : RequestFrame) : Decidable f.Plain := inferInstanceAs (Decidable (_ ∧ ∀ _ ∈ _, _))

theorem digitVal_eq_some {c : UInt8} {d : ℕ} (h : digitVal c = some d) :
    ¬ (c < 48 ∨ 57 < c) ∧ (c - 48).toNat = d := by
  unfold digitVal at h
  split at h
  · rename_i hc
    cases h
    simp only [UInt8.le_iff_toNat_le, UInt8.lt_iff_toNat_lt, UInt8.toNat_sub,
      UInt8.reduceToNat] at hc ⊢
    omega
  · cases h

/-- The parser of numbers computes the exact value modulo the word size. -/
theorem parseDigits_of_digitsVal (h : digitsVal acc num = some n) :
    parseDigits (wrap64 acc) num = some (wrap64 n) := by
  induction num generalizing acc with
  | nil =>
    cases h
    rfl
  | cons c num ih =>
    rw [digitsVal] at h
    obtain ⟨d, hd, h⟩ := Option.bind_eq_some_iff.mp h
    obtain ⟨hrange, hvalue⟩ := digitVal_eq_some hd
    rw [parseDigits, if_neg hrange, hvalue, wrap64_wrap64_mul_add]
    exact ih h

theorem digits_of_digitsVal (h : digitsVal acc num = some n) : ∀ c ∈ num, ¬ (c < 48 ∨ 57 < c) := by
  induction num generalizing acc with
  | nil => simp
  | cons c num ih =>
    rw [digitsVal] at h
    obtain ⟨d, hd, h⟩ := Option.bind_eq_some_iff.mp h
    exact List.forall_mem_cons.mpr ⟨(digitVal_eq_some hd).1, ih h⟩

theorem IsNumeral.no_lf (h : IsNumeral num n) : 10 ∉ num := fun hmem =>
  digits_of_digitsVal h.2 10 hmem (by decide)

theorem IsNumeral.parses (h : IsNumeral num n) (hn : n < 2 ^ 63) :
    parseIntBytes num = some (n : ℤ) := by
  obtain ⟨hne, hvalue⟩ := h
  have hparse : parseDigits 0 num = some (n : ℤ) := by
    have := parseDigits_of_digitsVal hvalue
    rwa [wrap64_eq_self (by omega) (by omega), wrap64_eq_self (by omega) (by omega)] at this
  cases num with
  | nil => exact absurd rfl hne
  | cons c rest =>
    have hc : c ≠ 45 := by
      rintro rfl
      exact digits_of_digitsVal hvalue 45 List.mem_cons_self (by decide)
    rw [parseIntBytes]
    simp only [if_neg hc]
    exact hparse

/-- The header line of a numeral. -/
def Header.ofNumeral {num : Bytes} {n : ℕ} (h : IsNumeral num n) (hn : n < 2 ^ 63) : Header where
  body := num ++ [13]
  value := n
  body_no_lf := by simp [h.no_lf]
  parses := by rw [stripCR_append, h.parses hn]

theorem Header.plain_ofNumeral (h : IsNumeral num n) (hn : n < 2 ^ 63) :
    (Header.ofNumeral h hn).Plain := by
  refine ⟨by simp [ofNumeral], ?_, ?_⟩
  · simpa [ofNumeral] using h.1
  · simpa [ofNumeral] using h.2

theorem Header.Plain.numeral {h : Header} (hplain : h.Plain) :
    ∃ num, IsNumeral num h.value ∧ h.bytes = num ++ crlf := by
  obtain ⟨hlast, hne, hvalue⟩ := hplain
  refine ⟨h.body.dropLast, ⟨hne, hvalue⟩, ?_⟩
  have hbody : h.body = h.body.dropLast ++ [13] := (List.dropLast_append_getLast? 13 hlast).symm
  conv_lhs => rw [bytes, hbody]
  simp [crlf]

theorem IsArgument.exists_item (h : IsArgument b) (hlength : b.length < 2 ^ 63) :
    ∃ i : Item, i.Plain ∧ i.bytes = b := by
  obtain ⟨num, payload, hnum, rfl⟩ := h
  have hn : payload.length < 2 ^ 63 := by
    simp only [List.length_append] at hlength
    omega
  refine ⟨⟨.ofNumeral hnum hn, payload, crlf, rfl, rfl⟩,
    ⟨Header.plain_ofNumeral hnum hn, rfl⟩, ?_⟩
  simp [Item.bytes, Header.bytes, Header.ofNumeral, crlf]

theorem Item.Plain.isArgument {i : Item} (h : i.Plain) : IsArgument i.bytes := by
  obtain ⟨num, hnum, hbytes⟩ := h.1.numeral
  refine ⟨num, i.payload, by rwa [i.length_payload], ?_⟩
  rw [Item.bytes, hbytes, h.2]
  simp

theorem exists_items_of_arguments (h : ∀ arg ∈ args, IsArgument arg)
    (hlength : args.flatten.length < 2 ^ 63) :
    ∃ items : List Item, (∀ i ∈ items, i.Plain) ∧ items.map Item.bytes = args := by
  induction args with
  | nil => exact ⟨[], by simp, rfl⟩
  | cons arg args ih =>
    rw [List.flatten_cons, List.length_append] at hlength
    obtain ⟨harg, hargs⟩ := List.forall_mem_cons.mp h
    obtain ⟨i, hplain, hbytes⟩ := harg.exists_item (by omega)
    obtain ⟨items, hitems, hmap⟩ := ih hargs (by omega)
    exact ⟨i :: items, List.forall_mem_cons.mpr ⟨hplain, hitems⟩, by rw [List.map_cons, hbytes, hmap]⟩

theorem length_le_length_flatten (h : ∀ arg ∈ args, IsArgument arg) :
    args.length ≤ args.flatten.length := by
  induction args with
  | nil => simp
  | cons arg args ih =>
    obtain ⟨harg, hargs⟩ := List.forall_mem_cons.mp h
    obtain ⟨num, payload, -, rfl⟩ := harg
    have := ih hargs
    simp only [List.flatten_cons, List.length_append, List.length_cons]
    omega

/-- A request of the grammar is a plain frame. -/
theorem isRequest_iff (hlength : b.length ≤ maxAlloc) :
    IsRequest b ↔ ∃ f : RequestFrame, f.Plain ∧ f.bytes = b := by
  constructor
  · rintro ⟨num, args, hnum, hne, hargs, rfl⟩
    have hflat : args.flatten.length < 2 ^ 63 := by
      simp only [List.length_append] at hlength
      unfold maxAlloc at hlength
      omega
    have hn : args.length < 2 ^ 63 := Nat.lt_of_le_of_lt (length_le_length_flatten hargs) hflat
    obtain ⟨items, hplain, hmap⟩ := exists_items_of_arguments hargs hflat
    obtain _ | ⟨first, others⟩ := items
    · exact absurd hmap.symm hne
    have hcount : others.length + 1 = args.length := by
      rw [← hmap, List.length_map, List.length_cons]
    refine ⟨⟨.ofNumeral hnum hn, first, others, hcount⟩,
      ⟨Header.plain_ofNumeral hnum hn, hplain⟩, ?_⟩
    have hflatMap : (first :: others).flatMap Item.bytes = args.flatten := by
      rw [List.flatMap_def, hmap]
    simp only [RequestFrame.bytes, RequestFrame.items, hflatMap]
    simp [Header.bytes, Header.ofNumeral, crlf]
  · rintro ⟨f, ⟨hheader, hitems⟩, rfl⟩
    obtain ⟨num, hnum, hbytes⟩ := hheader.numeral
    refine ⟨num, f.items.map Item.bytes, ?_, by simp [RequestFrame.items], ?_, ?_⟩
    · rwa [List.length_map, RequestFrame.items, List.length_cons, f.length_items]
    · intro arg harg
      obtain ⟨i, hi, rfl⟩ := List.mem_map.mp harg
      exact (hitems i hi).isArgument
    rw [RequestFrame.bytes, hbytes, List.flatMap_def]
    simp

/-- The parser accepts exactly the requests of the grammar at the front of a buffer, if and
only if the request that it reads there is plain, with a number of arguments that Go can make
a slice for. -/
theorem accepts_grammar_iff_plain (buf : Bytes) (hbuf : buf.length ≤ maxAlloc)
    (hstar : buf.head? = some typeArray) :
    (∀ n : ℤ, (∃ req, parseRequest buf = .ok (req, n)) ↔
      0 ≤ n ∧ n ≤ buf.length ∧ IsRequest (buf.take n.toNat)) ↔
    ∀ (f : RequestFrame) (rest : Bytes), buf = f.bytes ++ rest →
      (f.Plain ↔ MakeOk sizeofSlice f.items.length) := by
  have hparse : ∀ (f : RequestFrame) (rest : Bytes), buf = f.bytes ++ rest →
      ((∃ req, parseRequest buf = .ok (req, (f.bytes.length : ℤ))) ↔
        MakeOk sizeofSlice f.items.length) := by
    rintro f rest rfl
    rw [f.parseRequest_append rest hbuf, makeSlice]
    split
    · rename_i hmake
      exact ⟨fun _ => hmake, fun _ => ⟨_, rfl⟩⟩
    rename_i hmake
    exact ⟨by rintro ⟨_, ⟨⟩⟩, fun h => absurd h hmake⟩
  constructor
  · rintro h f rest rfl
    have hlength : f.bytes.length ≤ maxAlloc := by
      rw [List.length_append] at hbuf
      omega
    rw [← hparse f rest rfl, h, Int.toNat_natCast, List.take_left, isRequest_iff hlength]
    constructor
    · exact fun hplain => ⟨by omega, by rw [List.length_append]; omega, f, hplain, rfl⟩
    rintro ⟨-, -, g, hplain, hbytes⟩
    obtain ⟨rfl, -⟩ := RequestFrame.unique (congrArg (· ++ rest) hbytes)
    exact hplain
  · intro h n
    constructor
    · rintro ⟨req, hok⟩
      obtain ⟨f, rest, rfl, rfl, -, hmake⟩ := RequestFrame.exists_of_parseRequest hbuf hstar hok
      rw [List.length_append] at hbuf
      refine ⟨by omega, by rw [List.length_append]; omega, ?_⟩
      rw [Int.toNat_natCast, List.take_left, isRequest_iff (by omega)]
      exact ⟨f, (h f rest rfl).mpr hmake, rfl⟩
    · rintro ⟨hlow, hhigh, hrequest⟩
      have hlength : (buf.take n.toNat).length = n.toNat := List.length_take_of_le (by omega)
      obtain ⟨f, hplain, hbytes⟩ := (isRequest_iff (by omega)).mp hrequest
      have hsplit : buf = f.bytes ++ buf.drop n.toNat := by
        rw [hbytes, List.take_append_drop]
      have hn : n = (f.bytes.length : ℤ) := by
        rw [hbytes, hlength]
        omega
      rw [hn]
      exact (hparse f _ hsplit).mpr ((h f _ hsplit).mp hplain)

/-- One `PING` of the protocol: the parser accepts its bytes and nothing else. -/
theorem accepts_grammar_ping :
    let buf := bytes "*1\r\n$4\r\nPING\r\n"
    buf.length ≤ maxAlloc ∧ buf.head? = some typeArray ∧
      ∀ n : ℤ, (∃ req, parseRequest buf = .ok (req, n)) ↔
        0 ≤ n ∧ n ≤ buf.length ∧ IsRequest (buf.take n.toNat) := by
  intro buf
  have hbuf : buf.length ≤ maxAlloc := by decide
  have hstar : buf.head? = some typeArray := by decide
  refine ⟨hbuf, hstar, (accepts_grammar_iff_plain buf hbuf hstar).mpr fun f rest heq => ?_⟩
  let ping : RequestFrame :=
    ⟨⟨bytes "1\r", 1, by decide, by decide⟩,
      ⟨⟨bytes "4\r", 4, by decide, by decide⟩, bytes "PING", crlf, rfl, rfl⟩, [], rfl⟩
  have hping : buf = ping.bytes ++ [] := by decide
  obtain ⟨rfl, -⟩ := RequestFrame.unique (hping.symm.trans heq)
  decide

/-- Lines that end in a line feed alone are accepted, and stay as they are in `Raw`. -/
theorem accepts_beyond_grammar :
    let buf := bytes "*1\n$4\nPING\r\n"
    parseRequest buf = .ok ({ args := [bytes "PING"], raw := buf, cmd := bytes "PING" }, 12) ∧
      ¬ IsRequest (buf.take 12) := by
  intro buf
  refine ⟨by decide +kernel, fun hrequest => ?_⟩
  obtain ⟨f, hplain, hbytes⟩ := (isRequest_iff (by decide)).mp hrequest
  let ping : RequestFrame :=
    ⟨⟨bytes "1", 1, by decide, by decide⟩,
      ⟨⟨bytes "4", 4, by decide, by decide⟩, bytes "PING", crlf, rfl, rfl⟩, [], rfl⟩
  have hping : buf.take 12 ++ [] = ping.bytes ++ [] := by decide
  obtain ⟨rfl, -⟩ := RequestFrame.unique ((congrArg (· ++ []) hbytes).trans hping)
  revert hplain
  decide

end Pluster.Proto
