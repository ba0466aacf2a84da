import Pluster.Proto.Extension
import Pluster.Engine.Mux

/-!
# The read loops

`onClientTraffic`, `onBackendTraffic` and `onTraffic` of the multiplexer peek at the
bytes that gnet holds for a connection, take one request, value or reply off their
front, and go on until the parser asks for more. Between two reads gnet keeps the rest.
-/

namespace Pluster.Engine

open Proto GoStrings GoRuntime Framing

variable {α : Type}

/-- One iteration of a loop around a parser: an error closes the connection. -/
def decodeWith {α : Type} (parse : Bytes → Parse (α × ℤ)) (buf : Bytes) : Decoded α :=
  match parse buf with
  | .ok (a, consumed) => .frame a consumed.toNat
  | .error .incomplete => .more
  | .error _ => .fail

/-- One iteration of `onClientTraffic`. -/
def clientDecode : Bytes → Decoded Request := decodeWith parseRequest

/-- One iteration of `onBackendTraffic` on a dedicated connection. -/
def backendDecode : Bytes → Decoded Value := decodeWith parseValue

/-- One iteration of `onTraffic` of the multiplexer. The slice of a negative length
panics. -/
def muxDecode (buf : Bytes) : Decoded Reply :=
  match scanValue buf with
  | .ok (consumed, kind, errMsg) =>
    if consumed = 0 then .more
    else if consumed < 0 then .fail
    else .frame { raw := buf.take consumed.toNat, kind, errMsg } consumed.toNat
  | .error _ => .fail

/-- The loop around a parser keeps its decisions. -/
theorem stable_decodeWith {parse : Bytes → Parse (α × ℤ)}
    (hextends : ∀ {b e : Bytes}, (b ++ e).length ≤ maxAlloc → Extends (parse b) (parse (b ++ e)))
    (hbounds : ∀ {b : Bytes} {a : α} {n : ℤ}, b.length ≤ maxAlloc → parse b = .ok (a, n) →
      0 < n ∧ n ≤ b.length) : Stable (decodeWith parse) maxAlloc := by
  have hkeeps : ∀ b e : Bytes, (b ++ e).length ≤ maxAlloc → decodeWith parse b ≠ .more →
      decodeWith parse (b ++ e) = decodeWith parse b := by
    intro b e hbuf hmore
    rcases hextends hbuf with hincomplete | hsame
    · simp [decodeWith, hincomplete] at hmore
    · rw [decodeWith, hsame, decodeWith]
  refine ⟨fun b a n hbuf hframe => ?_, fun b e a n hbuf hframe => ?_, fun b e hbuf hfail => ?_⟩
  · unfold decodeWith at hframe
    split at hframe
    · rename_i a' consumed hparse
      cases hframe
      have := hbounds hbuf hparse
      omega
    · cases hframe
    · cases hframe
  · rw [hkeeps b e hbuf (by simp [hframe]), hframe]
  · rw [hkeeps b e hbuf (by simp [hfail]), hfail]

/-- The count of a result lies in the buffer. -/
private theorem bounds_of_agrees {result : Parse (α × ℤ)} {w : Walk} {buf : Bytes}
    (h : Agrees result w) (hwithin : w.Within buf 0) {a : α} {n : ℤ} (hok : result = .ok (a, n)) :
    0 < n ∧ n ≤ buf.length := by
  rw [hok] at h
  obtain ⟨last, hlast, rfl⟩ := h.stop
  have := hwithin last hlast
  omega

theorem stable_clientDecode : Stable clientDecode maxAlloc :=
  stable_decodeWith extends_parseRequest fun hbuf hok =>
    bounds_of_agrees (parseRequest_agrees hbuf) (walkRequest_within _) hok

theorem stable_backendDecode : Stable backendDecode maxAlloc :=
  stable_decodeWith extends_parseValue fun hbuf hok =>
    bounds_of_agrees (parseValue_agrees hbuf) (walkValueAt_within .parseValue _ _ 0) hok

theorem stable_muxDecode : Stable muxDecode maxAlloc := by
  have hframe_iff : ∀ (b : Bytes) (reply : Reply) (n : ℕ), muxDecode b = .frame reply n →
      ∃ kind errMsg, scanValue b = .ok ((n : ℤ), kind, errMsg) ∧ 0 < n ∧
        reply = { raw := b.take n, kind, errMsg } := by
    intro b reply n hframe
    unfold muxDecode at hframe
    split at hframe
    · rename_i consumed kind errMsg hscan
      split at hframe
      · cases hframe
      split at hframe
      · cases hframe
      cases hframe
      refine ⟨kind, errMsg, ?_, by omega, rfl⟩
      rw [hscan, Int.toNat_of_nonneg (by omega)]
    · cases hframe
  have hbounds : ∀ {b : Bytes} {n : ℕ} {kind : ErrorKind} {errMsg : Bytes}, b.length ≤ maxAlloc →
      scanValue b = .ok ((n : ℤ), kind, errMsg) → n ≤ b.length := by
    intro b n kind errMsg hbuf hscan
    obtain ⟨hsafe, hbad⟩ := scanValue_agrees hbuf
    rw [hscan] at hsafe hbad
    by_cases hall : (walkValue .scanValue b).Safe
    · have hstop := hsafe hall
      split at hstop
      · rename_i last hlast
        obtain ⟨_, _, hok⟩ := hstop
        have := (walkValueAt_within .scanValue b _ 0 last hlast).2
        cases hok
        omega
      · simp only [scanNone, Except.ok.injEq, Prod.mk.injEq] at hstop
        omega
    · rcases hbad hall with herr | ⟨last, _, _, hneg, hok⟩
      · cases herr
      cases hok
      omega
  refine ⟨fun b reply n hbuf hframe => ?_, fun b e reply n hbuf hframe => ?_,
    fun b e hbuf hfail => ?_⟩
  · obtain ⟨kind, errMsg, hscan, hpos, -⟩ := hframe_iff b reply n hframe
    exact ⟨hpos, hbounds hbuf hscan⟩
  · obtain ⟨kind, errMsg, hscan, hpos, rfl⟩ := hframe_iff b reply n hframe
    have hle := hbounds (by rw [List.length_append] at hbuf; omega) hscan
    have hsame : scanValue (b ++ e) = scanValue b := by
      rcases extends_scanValue hbuf with hnone | hsame
      · rw [hscan] at hnone
        simp only [scanNone, Except.ok.injEq, Prod.mk.injEq] at hnone
        omega
      · exact hsame
    simp only [muxDecode, hsame, hscan]
    rw [if_neg (by omega), if_neg (by omega), Int.toNat_natCast, List.take_append_of_le_length hle]
  · rcases extends_scanValue hbuf with hnone | hsame
    · simp [muxDecode, hnone, scanNone] at hfail
    unfold muxDecode at hfail ⊢
    rw [hsame]
    split at hfail
    · split at hfail
      · cases hfail
      split at hfail
      · rename_i hne hneg
        rw [if_neg hne, if_pos hneg]
      · cases hfail
    · rfl

/-- The loop extracts the same frames from two ways to split a stream, and is left with the
same bytes or closed. What is done with the frames may close the connection, too. -/
def SameFrames {α : Type} (decode : Bytes → Decoded α) (chunks chunks' : List Bytes) : Prop :=
  ∀ stops : List α → Bool, Bounded decode stops maxAlloc {} chunks →
    Bounded decode stops maxAlloc {} chunks' →
    (reads decode stops {} chunks).frames = (reads decode stops {} chunks').frames ∧
      (reads decode stops {} chunks).rest = (reads decode stops {} chunks').rest

/-- Framing does not depend on how the bytes are split: each parser keeps its result when
more bytes arrive, and each loop extracts the same frames. -/
theorem framing_independent_of_chunks :
    (∀ b e : Bytes, (b ++ e).length ≤ maxAlloc →
      (∀ req n, parseRequest b = .ok (req, n) → parseRequest (b ++ e) = .ok (req, n)) ∧
      (∀ v n, parseValue b = .ok (v, n) → parseValue (b ++ e) = .ok (v, n)) ∧
      (∀ n kind errMsg, scanValue b = .ok (n, kind, errMsg) → 0 < n → n ≤ b.length →
        scanValue (b ++ e) = .ok (n, kind, errMsg)) ∧
      (parseRequest b = .error .invalidProtocol →
        parseRequest (b ++ e) = .error .invalidProtocol) ∧
      (parseValue b = .error .invalidProtocol → parseValue (b ++ e) = .error .invalidProtocol)) ∧
    ∀ chunks chunks' : List Bytes, chunks.flatten = chunks'.flatten →
      SameFrames clientDecode chunks chunks' ∧ SameFrames backendDecode chunks chunks' ∧
        SameFrames muxDecode chunks chunks' := by
  refine ⟨fun b e hbuf => ?_, fun chunks chunks' hsame => ?_⟩
  · have hrequest := extends_parseRequest hbuf
    have hvalue := extends_parseValue hbuf
    refine ⟨fun req n hok => ?_, fun v n hok => ?_, fun n kind errMsg hok hpos _ => ?_,
      fun herr => ?_, fun herr => ?_⟩
    · rw [hrequest.eq (by simp [hok]), hok]
    · rw [hvalue.eq (by simp [hok]), hok]
    · rcases extends_scanValue hbuf with hnone | hsame
      · rw [hok] at hnone
        simp only [scanNone, Except.ok.injEq, Prod.mk.injEq] at hnone
        omega
      · rw [hsame, hok]
    · rw [hrequest.eq (by simp [herr]), herr]
    · rw [hvalue.eq (by simp [herr]), herr]
  · refine ⟨fun stops hb hb' => ?_, fun stops hb hb' => ?_, fun stops hb hb' => ?_⟩
    · exact reads_eq_of_flatten_eq stable_clientDecode rfl hsame hb hb'
    · exact reads_eq_of_flatten_eq stable_backendDecode rfl hsame hb hb'
    · exact reads_eq_of_flatten_eq stable_muxDecode rfl hsame hb hb'

end Pluster.Engine
