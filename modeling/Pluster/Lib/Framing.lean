import Mathlib

/-!
# Frames of a byte stream

A reader keeps the bytes that have arrived and takes frames off their front until the
decoder asks for more. If the decoder's decisions do not change when more bytes arrive,
the frames do not depend on how the stream was split into chunks.

Buffers are bounded, the stream is not: the decoder has to be stable only on buffers
up to a bound, and only such buffers occur.
-/

namespace Framing

/-- What a decoder finds at the front of a buffer. -/
inductive Decoded (α : Type*)
  /-- A frame of so many elements. -/
  | frame (a : α) (n : ℕ)
  /-- The frame is not complete. -/
  | more
  /-- The buffer cannot start with a frame. -/
  | fail

/-- A reader of frames. -/
structure Reader (α β : Type*) where
  buf : List β := []
  frames : List α := []
  closed : Bool := false

variable {α β : Type*}

/-- The decoder makes progress, and keeps its decisions when the buffer grows up to a
bound. -/
structure Stable (decode : List β → Decoded α) (bound : ℕ) : Prop where
  progress : ∀ b a n, b.length ≤ bound → decode b = .frame a n → 0 < n ∧ n ≤ b.length
  frame : ∀ b e a n, (b ++ e).length ≤ bound → decode b = .frame a n →
    decode (b ++ e) = .frame a n
  fail : ∀ b e, (b ++ e).length ≤ bound → decode b = .fail → decode (b ++ e) = .fail

section Loop

variable (decode : List β → Decoded α) (stops : List α → Bool)

/-- Take frames off the buffer, at most `fuel` of them. The frames so far decide whether
the reader is closed. -/
def drain : ℕ → Reader α β → Reader α β
  | 0, r => r
  | fuel + 1, r =>
    if r.closed then r
    else
      match decode r.buf with
      | .more => r
      | .fail => { r with closed := true }
      | .frame a n =>
        drain fuel
          { buf := r.buf.drop n, frames := r.frames ++ [a], closed := stops (r.frames ++ [a]) }

/-- A chunk arrives. -/
def read (r : Reader α β) (chunk : List β) : Reader α β :=
  if r.closed then r
  else drain decode stops ((r.buf ++ chunk).length + 1) { r with buf := r.buf ++ chunk }

/-- A list of chunks arrives. -/
def reads (r : Reader α β) (chunks : List (List β)) : Reader α β :=
  chunks.foldl (read decode stops) r

/-- Every buffer that the decoder gets is in the bound. -/
def Bounded (bound : ℕ) : Reader α β → List (List β) → Prop
  | _, [] => True
  | r, chunk :: chunks =>
    (r.buf ++ chunk).length ≤ bound ∧ Bounded bound (read decode stops r chunk) chunks

/-- What the decoder decides on a part of the stream in the bound. -/
def Decides (bound : ℕ) (stream : List β) (d : Decoded α) : Prop :=
  ∃ j, (stream.take j).length ≤ bound ∧ decode (stream.take j) = d ∧ d ≠ .more

/-- The frames of a stream after those before, up to the point where the reader waits with
the rest of the stream or is closed. -/
inductive Takes (bound : ℕ) : List α → List β → List α → Option (List β) → Prop
  | wait {before : List α} {stream : List β} (hbound : stream.length ≤ bound)
      (hmore : decode stream = .more) : Takes bound before stream [] (some stream)
  | fail {before : List α} {stream : List β} (hfail : Decides decode bound stream .fail) :
      Takes bound before stream [] none
  | stop {before : List α} {stream : List β} {a : α} {n : ℕ}
      (hframe : Decides decode bound stream (.frame a n)) (hstops : stops (before ++ [a]) = true) :
      Takes bound before stream [a] none
  | next {before after : List α} {stream : List β} {a : α} {n : ℕ} {rest : Option (List β)}
      (hframe : Decides decode bound stream (.frame a n)) (hstops : stops (before ++ [a]) = false)
      (hafter : Takes bound (before ++ [a]) (stream.drop n) after rest) :
      Takes bound before stream (a :: after) rest

end Loop

variable {decode : List β → Decoded α} {stops : List α → Bool} {bound : ℕ}

/-- The decoder keeps a decision. -/
theorem Stable.keeps (h : Stable decode bound) {b e : List β} (hbound : (b ++ e).length ≤ bound)
    (hmore : decode b ≠ .more) : decode (b ++ e) = decode b := by
  cases hdecode : decode b with
  | more => exact absurd hdecode hmore
  | frame a n => exact h.frame b e a n hbound hdecode
  | fail => exact h.fail b e hbound hdecode

theorem Decides.unique (h : Stable decode bound) {stream : List β} {d d' : Decoded α}
    (hd : Decides decode bound stream d) (hd' : Decides decode bound stream d') : d = d' := by
  obtain ⟨i, hi, rfl, hmorei⟩ := hd
  obtain ⟨j, hj, rfl, hmorej⟩ := hd'
  have hgrows : ∀ {i j : ℕ}, i ≤ j → (stream.take j).length ≤ bound →
      decode (stream.take i) ≠ .more → decode (stream.take j) = decode (stream.take i) := by
    intro i j hij hj hmore
    have hsplit : stream.take j = stream.take i ++ (stream.drop i).take (j - i) := by
      rw [← List.take_add, Nat.add_sub_cancel' hij]
    rw [hsplit] at hj ⊢
    exact h.keeps hj hmore
  rcases Nat.le_total i j with hij | hji
  · exact (hgrows hij hj hmorei).symm
  · exact hgrows hji hi hmorej

/-- A decision on a part of the stream is the decision on the whole of it. -/
theorem Decides.not_more (h : Stable decode bound) {stream : List β} {d : Decoded α}
    (hd : Decides decode bound stream d) (hbound : stream.length ≤ bound) :
    decode stream ≠ .more := by
  obtain ⟨j, -, rfl, hmore⟩ := hd
  have hsplit := List.take_append_drop j stream
  have hkeeps := h.keeps (e := stream.drop j) (by rwa [hsplit]) hmore
  rw [hsplit] at hkeeps
  rwa [hkeeps]

/-- The frames of a stream are determined, by induction on how one reader takes them. -/
theorem Takes.unique (h : Stable decode bound) {before after after' : List α} {stream : List β}
    {rest rest' : Option (List β)} (htakes : Takes decode stops bound before stream after rest)
    (htakes' : Takes decode stops bound before stream after' rest') :
    after = after' ∧ rest = rest' := by
  induction htakes generalizing after' rest' with
  | wait hbound hmore =>
    cases htakes' with
    | wait _ _ => exact ⟨rfl, rfl⟩
    | fail hfail => exact absurd hmore (hfail.not_more h hbound)
    | stop hframe _ | next hframe _ _ => exact absurd hmore (hframe.not_more h hbound)
  | fail hfail =>
    cases htakes' with
    | wait hbound hmore => exact absurd hmore (hfail.not_more h hbound)
    | fail _ => exact ⟨rfl, rfl⟩
    | stop hframe _ | next hframe _ _ => cases hfail.unique h hframe
  | stop hframe hstops =>
    cases htakes' with
    | wait hbound hmore => exact absurd hmore (hframe.not_more h hbound)
    | fail hfail => cases hfail.unique h hframe
    | stop hframe' _ =>
      cases hframe.unique h hframe'
      exact ⟨rfl, rfl⟩
    | next hframe' hstops' _ =>
      cases hframe.unique h hframe'
      rw [hstops] at hstops'
      cases hstops'
  | next hframe hstops _ ih =>
    cases htakes' with
    | wait hbound hmore => exact absurd hmore (hframe.not_more h hbound)
    | fail hfail => cases hfail.unique h hframe
    | stop hframe' hstops' =>
      cases hframe.unique h hframe'
      rw [hstops] at hstops'
      cases hstops'
    | next hframe' _ hafter' =>
      cases hframe.unique h hframe'
      obtain ⟨rfl, rfl⟩ := ih hafter'
      exact ⟨rfl, rfl⟩

/-! ### What a reader takes -/

/-- A reader at the front of a stream has taken some frames of it, and goes on with the
rest. -/
structure Advances (decode : List β → Decoded α) (stops : List α → Bool) (bound : ℕ)
    (r next : Reader α β) (later : List β) : Prop where
  /-- A closed reader has taken what a stream with these bytes in front gives. -/
  closed : next.closed = true → ∃ after, next.frames = r.frames ++ after ∧
    Takes decode stops bound r.frames (r.buf ++ later) after none
  /-- An open reader waits for more, and what comes after is what it has still to take. -/
  waiting : next.closed = false → decode next.buf = .more ∧ next.buf.length ≤ bound ∧
    ∃ taken, next.frames = r.frames ++ taken ∧ ∀ after rest,
      Takes decode stops bound next.frames (next.buf ++ later) after rest →
      Takes decode stops bound r.frames (r.buf ++ later) (taken ++ after) rest

/-- The loop, by induction on its fuel: every frame shortens the buffer. -/
theorem advances_drain (h : Stable decode bound) (later : List β) {fuel : ℕ} {r : Reader α β}
    (hopen : r.closed = false) (hbound : r.buf.length ≤ bound) (hfuel : r.buf.length < fuel) :
    Advances decode stops bound r (drain decode stops fuel r) later := by
  induction fuel generalizing r with
  | zero => omega
  | succ fuel ih =>
    have hpart : (r.buf ++ later).take r.buf.length = r.buf := List.take_left
    rw [drain, if_neg (by simp [hopen])]
    cases hdecode : decode r.buf with
    | more =>
      refine ⟨fun hclosed => ?_, fun _ => ⟨hdecode, hbound, [], by simp, fun _ _ => id⟩⟩
      simp only at hclosed
      rw [hopen] at hclosed
      cases hclosed
    | fail =>
      refine ⟨fun _ => ⟨[], by simp, .fail ⟨r.buf.length, ?_, ?_, by simp⟩⟩, fun hnot => ?_⟩
      · rwa [hpart]
      · rwa [hpart]
      · cases hnot
    | frame a n =>
      obtain ⟨hpos, hle⟩ := h.progress _ _ _ hbound hdecode
      have hframe : Decides decode bound (r.buf ++ later) (.frame a n) :=
        ⟨r.buf.length, by rwa [hpart], by rwa [hpart], by simp⟩
      have hdrop : (r.buf ++ later).drop n = r.buf.drop n ++ later :=
        List.drop_append_of_le_length hle
      simp only
      cases hstops : stops (r.frames ++ [a]) with
      | true =>
        have hsame : drain decode stops fuel
            { buf := r.buf.drop n, frames := r.frames ++ [a], closed := true } =
            { buf := r.buf.drop n, frames := r.frames ++ [a], closed := true } := by
          cases fuel <;> simp [drain]
        rw [hsame]
        exact ⟨fun _ => ⟨[a], rfl, .stop hframe hstops⟩, fun hnot => by cases hnot⟩
      | false =>
        have hrest := ih (r := { buf := r.buf.drop n, frames := r.frames ++ [a], closed := false })
          rfl (by simp; omega) (by simp; omega)
        refine ⟨fun hclosed => ?_, fun hnot => ?_⟩
        · obtain ⟨after, hafter, htakes⟩ := hrest.closed hclosed
          refine ⟨a :: after, by rw [hafter]; simp, .next hframe hstops ?_⟩
          rwa [hdrop]
        obtain ⟨hmore, hshort, taken, htaken, htakes⟩ := hrest.waiting hnot
        refine ⟨hmore, hshort, a :: taken, by rw [htaken]; simp, fun after rest hafter => ?_⟩
        refine .next hframe hstops ?_
        rw [hdrop]
        exact htakes after rest hafter

/-- What a reader still holds, or nothing if it is closed. -/
def Reader.rest (r : Reader α β) : Option (List β) := if r.closed then none else some r.buf

theorem reads_of_closed {r : Reader α β} (hclosed : r.closed = true) (chunks : List (List β)) :
    reads decode stops r chunks = r := by
  induction chunks with
  | nil => rfl
  | cons chunk chunks ih =>
    have hstay : read decode stops r chunk = r := by rw [read, if_pos hclosed]
    rw [reads, List.foldl_cons, hstay]
    exact ih

/-- A reader takes the frames of its stream, by induction on the chunks. -/
theorem takes_reads (h : Stable decode bound) {chunks : List (List β)} {r : Reader α β}
    (hopen : r.closed = false) (hmore : decode r.buf = .more) (hshort : r.buf.length ≤ bound)
    (hbounded : Bounded decode stops bound r chunks) :
    ∃ after, (reads decode stops r chunks).frames = r.frames ++ after ∧
      Takes decode stops bound r.frames (r.buf ++ chunks.flatten) after
        (reads decode stops r chunks).rest := by
  induction chunks generalizing r with
  | nil =>
    refine ⟨[], by simp [reads], ?_⟩
    have hrest : (reads decode stops r []).rest = some r.buf := by
      simp [reads, Reader.rest, hopen]
    rw [hrest, List.flatten_nil, List.append_nil]
    exact .wait hshort hmore
  | cons chunk chunks ih =>
    have hread : read decode stops r chunk = drain decode stops ((r.buf ++ chunk).length + 1)
        { r with buf := r.buf ++ chunk } := by
      simp [read, hopen]
    have hstep : Advances decode stops bound { r with buf := r.buf ++ chunk } _ chunks.flatten :=
      advances_drain h chunks.flatten hopen hbounded.1 (Nat.lt_succ_self _)
    rw [← hread] at hstep
    have hstream : r.buf ++ (chunk :: chunks).flatten = r.buf ++ chunk ++ chunks.flatten := by
      simp
    have hreads : reads decode stops r (chunk :: chunks) =
        reads decode stops (read decode stops r chunk) chunks := rfl
    rw [hreads, hstream]
    cases hclosed : (read decode stops r chunk).closed with
    | true =>
      obtain ⟨after, hafter, htakes⟩ := hstep.closed hclosed
      rw [reads_of_closed hclosed]
      have hrest : (read decode stops r chunk).rest = none := by simp [Reader.rest, hclosed]
      rw [hrest]
      exact ⟨after, hafter, htakes⟩
    | false =>
      obtain ⟨hmore', hshort', taken, htaken, htakes⟩ := hstep.waiting hclosed
      obtain ⟨after, hafter, hrest⟩ := ih hclosed hmore' hshort' hbounded.2
      refine ⟨taken ++ after, ?_, htakes after _ hrest⟩
      rw [hafter, htaken, List.append_assoc]

/-- The frames, and what is left, do not depend on the chunks. -/
theorem reads_eq_of_flatten_eq (h : Stable decode bound) (hnil : decode [] = .more)
    {chunks chunks' : List (List β)} (hsame : chunks.flatten = chunks'.flatten)
    (hbounded : Bounded decode stops bound {} chunks)
    (hbounded' : Bounded decode stops bound {} chunks') :
    (reads decode stops {} chunks).frames = (reads decode stops {} chunks').frames ∧
      (reads decode stops {} chunks).rest = (reads decode stops {} chunks').rest := by
  obtain ⟨after, hafter, htakes⟩ :=
    takes_reads h (r := {}) rfl hnil (Nat.zero_le _) hbounded
  obtain ⟨after', hafter', htakes'⟩ :=
    takes_reads h (r := {}) rfl hnil (Nat.zero_le _) hbounded'
  rw [hsame] at htakes
  obtain ⟨rfl, hrest⟩ := htakes.unique h htakes'
  exact ⟨hafter.trans hafter'.symm, hrest⟩

end Framing
