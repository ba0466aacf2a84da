import Pluster.Pool.PipeShutdown
import Pluster.Pool.Pool

/-!
# What a pipelined connection writes and reads

One `pipeConn` that nobody closes, with every connection its `loop` makes: the commands
written on each and the number of replies read from each. The backend answers the commands
of a connection in their order, so that reply number `n` is the one for command number `n`. What
it sends, and which reads fail, is an input. When requests arrive, how they are grouped,
and which dials, writes and flushes fail is chosen by the run.
-/

namespace Pluster.Pool

open Proto

variable {i k : ℕ} {pending : List ℕ} {connected : Bool} {resp : PipeResp} {v : Value}
  {err : Option Bytes}

/-- What the network does to the dial and to the writes and flushes of `connect`. -/
structure ConnectIO where
  dialErr : Option Bytes := none
  authErr : Option Bytes := none
  readonlyErr : Option Bytes := none

/-- A connection to the backend. -/
structure Wire where
  /-- The commands written on it: a request, or `none` for a command of the handshake. -/
  commands : List (Option ℕ) := []
  /-- The number of replies read from it. -/
  read : ℕ := 0

namespace Wire

/-- One command of the handshake, with the error of `connect` if it fails. -/
def greet (w : Wire) (failed : Bytes) (writeErr : Option Bytes) (reads : ℕ → Except Bytes Value) :
    Wire × Option Bytes :=
  let sent : Wire := { w with commands := w.commands ++ [none] }
  match writeErr with
  | some err => (sent, some err)
  | none =>
    match reads w.read with
    | .error _ => (sent, some failed)
    | .ok v => ({ sent with read := w.read + 1 }, if v.isError then some failed else none)

/-- `connect`: the new connection, and the error with which it is given up. -/
def connect (opts : Options) (io : ConnectIO) (reads : ℕ → Except Bytes Value) :
    Wire × Option Bytes :=
  match io.dialErr with
  | some err => ({}, some err)
  | none =>
    match if opts.password ≠ [] then greet {} (bytes "auth failed") io.authErr reads
      else ({}, none) with
    | (w, some err) => (w, some err)
    | (w, none) =>
      if opts.readonly then w.greet (bytes "READONLY failed") io.readonlyErr reads else (w, none)

/-- The number of reads that succeed, from the one with number `i` up to the first failure. -/
def readCount (reads : ℕ → Except Bytes Value) : ℕ → ℕ → ℕ
  | _, 0 => 0
  | i, n + 1 => if (reads i).isOk then readCount reads (i + 1) n + 1 else 0

/-- A batch on a connection: `written` of its requests go out if the writing fails. -/
def exchange (w : Wire) (pending : List ℕ) (io : TurnIO) (written : ℕ) : Wire :=
  if io.writeOK then
    { commands := w.commands ++ pending.map some
      read := w.read + readCount io.reads 0 pending.length }
  else { w with commands := w.commands ++ (pending.take written).map some }

/-- Every reply has been read. -/
def InStep (w : Wire) : Prop := w.read = w.commands.length

/-- What was written and read before is still there. -/
def Extends (w w' : Wire) : Prop := w.commands <+: w'.commands ∧ w.read ≤ w'.read

theorem Extends.refl (w : Wire) : w.Extends w := ⟨List.prefix_rfl, le_rfl⟩

theorem extends_exchange (w : Wire) (pending : List ℕ) (io : TurnIO) (written : ℕ) :
    w.Extends (w.exchange pending io written) := by
  unfold exchange
  split
  · exact ⟨List.prefix_append _ _, Nat.le_add_right _ _⟩
  · exact ⟨List.prefix_append _ _, le_rfl⟩

variable {w w' : Wire} {reads : ℕ → Except Bytes Value}

theorem InStep.greet (h : w.InStep) {failed : Bytes} {writeErr : Option Bytes}
    (hgreet : w.greet failed writeErr reads = (w', none)) : w'.InStep := by
  unfold Wire.greet at hgreet
  dsimp only at hgreet
  split at hgreet
  · cases hgreet
  split at hgreet
  · cases hgreet
  obtain ⟨rfl, -⟩ := Prod.mk.inj hgreet
  simp only [InStep, List.length_append, List.length_singleton]
  rw [h]

/-- `connect` keeps a connection only if it has read what came back. -/
theorem inStep_connect {opts : Options} {io : ConnectIO}
    (hconnect : connect opts io reads = (w', none)) : w'.InStep := by
  have hempty : InStep {} := rfl
  unfold connect at hconnect
  split at hconnect
  · cases hconnect
  split at hconnect
  · cases hconnect
  rename_i w hauth
  have hw : w.InStep := by
    split at hauth
    · exact hempty.greet hauth
    cases hauth
    exact hempty
  split at hconnect
  · exact hw.greet hconnect
  cases hconnect
  exact hw

theorem readCount_of_all {n : ℕ} (h : ∀ j < n, (reads (i + j)).isOk = true) :
    readCount reads i n = n := by
  induction n generalizing i with
  | zero => rfl
  | succ n ih =>
    have hfirst : (reads i).isOk = true := h 0 (Nat.succ_pos n)
    rw [readCount, if_pos hfirst, ih]
    intro j hj
    have hnext := h (j + 1) (by omega)
    rwa [← Nat.add_assoc, Nat.add_right_comm] at hnext

/-- A turn that leaves a connection has read a reply for every request. -/
theorem InStep.exchange (h : w.InStep) {io : TurnIO}
    (hkeeps : keepsConn connected io pending.length = true) (written : ℕ) :
    (w.exchange pending io written).InStep := by
  simp only [keepsConn, Bool.and_eq_true, List.all_eq_true, List.mem_range] at hkeeps
  obtain ⟨⟨-, hwrite⟩, hreads⟩ := hkeeps
  have hcount : readCount io.reads 0 pending.length = pending.length := by
    apply readCount_of_all
    intro j hj
    rw [Nat.zero_add]
    exact hreads j hj
  simp only [Wire.exchange, hwrite, if_true, InStep, hcount, List.length_append, List.length_map]
  rw [h]

end Wire

/-! ### The machine -/

/-- A `pipeConn`, its requests and its connections. The last one is `nc`, if that is not
`nil`. -/
structure Pipe where
  conn : LoopConn := {}
  requests : List Bytes := []
  wires : List Wire := []
  /-- What was sent to each request. -/
  responses : ℕ → List PipeResp := fun _ => []

/-- What the clock and the network do to a turn of `loop`, but for the reads. -/
structure ServeIO where
  backoff : Bool := false
  connect : ConnectIO := {}
  writeOK : Bool := true
  written : ℕ := 0

variable {io : ServeIO} {old : List Wire} {w : Wire}

inductive MatchEvent
  /-- The send of `do`. -/
  | arrive (data : Bytes)
  | receive
  | drain
  | serve (io : ServeIO)
  | answer

/-- The events of `loop`. -/
def MatchEvent.isInternal : MatchEvent → Bool
  | .arrive _ => false
  | _ => true

namespace Pipe

/-- The connection of a turn: those before it, the connection itself, and the error of
`connect`. -/
def link (opts : Options) (replies : ℕ → ℕ → Except Bytes Value) (s : Pipe) (io : ServeIO) :
    List Wire × Wire × Option Bytes :=
  if s.conn.connected then (s.wires.dropLast, s.wires.getLastD {}, none)
  else (s.wires, Wire.connect opts io.connect (replies s.wires.length))

/-- The reads of a turn go on where the last turn on the connection ended. -/
def turnInput (opts : Options) (replies : ℕ → ℕ → Except Bytes Value) (s : Pipe) (io : ServeIO) :
    TurnIO :=
  match s.link opts replies io with
  | (old, w, err) =>
    { backoff := io.backoff
      connectErr := err
      writeOK := io.writeOK
      reads := fun i => replies old.length (w.read + i) }

/-- The connections after a turn. -/
def wiresAfter (opts : Options) (replies : ℕ → ℕ → Except Bytes Value) (s : Pipe) (io : ServeIO)
    (pending : List ℕ) : List Wire :=
  if !s.conn.connected && io.backoff then s.wires
  else
    match s.link opts replies io with
    | (old, w, some _) => old ++ [w]
    | (old, w, none) => old ++ [w.exchange pending (s.turnInput opts replies io) io.written]

/-- A request of a caller. -/
def dataOf (s : Pipe) (i : ℕ) : Bytes := (s.requests[i]?).getD []

/-- Execute one event. An event that cannot occur changes nothing. -/
def exec (opts : Options) (replies : ℕ → ℕ → Except Bytes Value) (s : Pipe) : MatchEvent → Pipe
  | .arrive data =>
    if s.conn.queue.length < reqChSize then
      { s with
        conn := { s.conn with queue := s.conn.queue ++ [s.requests.length] }
        requests := s.requests ++ [data] }
    else s
  | .receive => { s with conn := s.conn.receive }
  | .drain => { s with conn := s.conn.drain }
  | .serve io =>
    match s.conn.loop with
    | .batched pending =>
      { s with
        conn := s.conn.serve opts.addr s.dataOf (s.turnInput opts replies io)
        wires := s.wiresAfter opts replies io pending }
    | _ => s
  | .answer =>
    match s.conn.loop with
    | .answering [] => { s with conn := { s.conn with loop := .receiving } }
    | .answering ((i, resp) :: todo) =>
      { s with
        conn := { s.conn with loop := .answering todo }
        responses := Function.update s.responses i (s.responses i ++ [resp]) }
    | _ => s

end Pipe

/-! ### The values of a turn -/

/-- A value is the reply that was read for the request, and no read failed before it. -/
theorem readReplies_value {reads : ℕ → Except Bytes Value} {start : ℕ} {pending : List Bytes}
    (hk : (readReplies reads start pending)[k]? = some resp) (hv : resp.result = .ok v) :
    reads (start + k) = .ok v ∧ k < Wire.readCount reads start pending.length := by
  induction pending generalizing start k with
  | nil => simp [readReplies] at hk
  | cons data pending ih =>
    rw [readReplies] at hk
    rw [List.length_cons, Wire.readCount]
    split at hk
    · rename_i value hread
      rw [hread]
      cases k with
      | zero =>
        simp only [List.getElem?_cons_zero, Option.some.injEq] at hk
        subst hk
        cases hv
        exact ⟨hread, by simp [Except.isOk, Except.toBool]⟩
      | succ k =>
        rw [List.getElem?_cons_succ] at hk
        obtain ⟨hvalue, hlt⟩ := ih hk
        refine ⟨?_, by simpa [Except.isOk, Except.toBool] using hlt⟩
        rw [← hvalue, Nat.add_assoc, Nat.add_comm 1]
    · cases k with
      | zero =>
        simp only [List.getElem?_cons_zero, Option.some.injEq] at hk
        subst hk
        cases hv
      | succ k =>
        rw [List.getElem?_cons_succ] at hk
        rw [getElem?_failAll hk] at hv
        cases hv

/-- A turn gives a value only on a connection that it keeps or makes, after it has written its
batch. -/
theorem turn_value {addr : Bytes} {io : TurnIO} {pending : List Bytes}
    (hk : (turn addr connected io pending)[k]? = some resp) (hv : resp.result = .ok v) :
    (!connected && io.backoff) = false ∧ (connected = false → io.connectErr = none) ∧
      io.writeOK = true ∧ io.reads k = .ok v ∧ k < Wire.readCount io.reads 0 pending.length := by
  -- An error for the whole batch is not a value.
  have hfail {err : Bytes} {written : Bool} (hk : (failAll pending err written)[k]? = some resp) :
      False := by
    rw [getElem?_failAll hk] at hv
    cases hv
  unfold turn at hk
  split at hk
  · exact (hfail hk).elim
  rename_i hbackoff
  split at hk
  · exact (hfail hk).elim
  rename_i hconnect
  split at hk
  · rename_i hwrite
    have hreads := readReplies_value hk hv
    rw [Nat.zero_add] at hreads
    refine ⟨Bool.not_eq_true _ ▸ hbackoff, fun hconnected => ?_, hwrite, hreads⟩
    rwa [hconnected, if_neg Bool.false_ne_true] at hconnect
  · exact (hfail hk).elim

namespace Pipe

variable {opts : Options} {replies : ℕ → ℕ → Except Bytes Value} {s : Pipe}

/-! ### The connections -/

/-- A response is an error, or the reply read for the request on the connection on which the
request was written. -/
def Answers (replies : ℕ → ℕ → Except Bytes Value) (wires : List Wire) (i : ℕ) (resp : PipeResp) :
    Prop :=
  ∀ v, resp.result = .ok v → ∃ e n w, wires[e]? = some w ∧ w.commands[n]? = some (some i) ∧
    n < w.read ∧ replies e n = .ok v

/-- A connection stays as it is or, if every reply has been read from it, goes on. -/
def Keeps (wires wires' : List Wire) : Prop :=
  ∀ (e : ℕ) (w : Wire), wires[e]? = some w →
    wires'[e]? = some w ∨ w.InStep ∧ ∃ w', wires'[e]? = some w' ∧ w.Extends w'

theorem Keeps.refl (wires : List Wire) : Keeps wires wires := fun _ _ hw => .inl hw

theorem Answers.keeps {wires wires' : List Wire} (h : Answers replies wires i resp)
    (hkeeps : Keeps wires wires') : Answers replies wires' i resp := by
  intro v hv
  obtain ⟨e, n, w, hw, hn, hread, hreply⟩ := h v hv
  rcases hkeeps e w hw with hw' | ⟨-, w', hw', ⟨more, hcommands⟩, hle⟩
  · exact ⟨e, n, w, hw', hn, hread, hreply⟩
  refine ⟨e, n, w', hw', ?_, by omega, hreply⟩
  have hlt := (List.getElem?_eq_some_iff.mp hn).1
  rw [← hcommands, List.getElem?_append_left hlt, hn]

/-- The connection in use has no reply that was not read. -/
def Synced (s : Pipe) : Prop := s.conn.connected = true → ∃ w, s.wires.getLast? = some w ∧ w.InStep

/-- What is known of the connection of a turn. -/
structure Linked (s : Pipe) (old : List Wire) (w : Wire) (err : Option Bytes) : Prop where
  wires : s.wires = old ∨ s.wires = old ++ [w] ∧ w.InStep
  inStep : err = none → w.InStep

theorem Synced.linked (h : s.Synced) (hlink : s.link opts replies io = (old, w, err)) :
    s.Linked old w err := by
  unfold Pipe.link at hlink
  split at hlink
  · rename_i hconnected
    obtain ⟨w', hlast, hw'⟩ := h hconnected
    cases hlink
    have hwires := List.dropLast_append_getLast? w' hlast
    have hw : s.wires.getLastD {} = w' := by
      rw [List.getLastD_eq_getLast?, hlast]
      rfl
    rw [hw]
    exact ⟨.inr ⟨hwires.symm, hw'⟩, fun _ => hw'⟩
  · obtain ⟨rfl, hconnect⟩ := Prod.mk.inj hlink
    refine ⟨.inl rfl, fun hnone => ?_⟩
    rw [hnone] at hconnect
    exact Wire.inStep_connect hconnect

theorem link_err (hlink : s.link opts replies io = (old, w, err))
    (hused : s.conn.connected = false → (s.turnInput opts replies io).connectErr = none) :
    err = none := by
  cases hconnected : s.conn.connected with
  | true =>
    rw [link, if_pos hconnected] at hlink
    cases hlink
    rfl
  | false =>
    have hnone := hused hconnected
    simp only [turnInput, hlink] at hnone
    exact hnone

theorem Linked.keeps {w' : Wire} (h : s.Linked old w err) (hw : w.Extends w') :
    Keeps s.wires (old ++ [w']) := by
  intro e v hv
  rcases h.wires with hwires | ⟨hwires, hinStep⟩
  · rw [hwires] at hv
    have hlt := (List.getElem?_eq_some_iff.mp hv).1
    exact .inl (by rw [List.getElem?_append_left hlt, hv])
  rw [hwires] at hv
  rcases Nat.lt_or_ge e old.length with hlt | hge
  · rw [List.getElem?_append_left hlt] at hv
    exact .inl (by rw [List.getElem?_append_left hlt, hv])
  have hlast : e = old.length := by
    have hbound := (List.getElem?_eq_some_iff.mp hv).1
    rw [List.length_append, List.length_singleton] at hbound
    omega
  subst hlast
  rw [List.getElem?_concat_length] at hv
  cases hv
  exact .inr ⟨hinStep, w', List.getElem?_concat_length, hw⟩

/-- A turn leaves the connections it does not use, and the one it uses goes on. -/
theorem Synced.keeps (h : s.Synced) (io : ServeIO) (pending : List ℕ) :
    Keeps s.wires (s.wiresAfter opts replies io pending) := by
  unfold wiresAfter
  split
  · exact .refl _
  split
  · rename_i hlink
    exact (h.linked hlink).keeps (.refl _)
  rename_i hlink
  exact (h.linked hlink).keeps (Wire.extends_exchange _ _ _ _)

/-- The connections after a turn that writes its batch. -/
theorem wiresAfter_eq (hlink : s.link opts replies io = (old, w, none))
    (hbackoff : (!s.conn.connected && io.backoff) = false) (pending : List ℕ) :
    s.wiresAfter opts replies io pending =
      old ++ [w.exchange pending (s.turnInput opts replies io) io.written] := by
  simp only [wiresAfter, hbackoff, Bool.false_eq_true, if_false, hlink]

theorem turnInput_backoff (opts : Options) (replies : ℕ → ℕ → Except Bytes Value) (s : Pipe)
    (io : ServeIO) : (s.turnInput opts replies io).backoff = io.backoff := rfl

/-- A turn that leaves its connection has read every reply from it. -/
theorem Synced.after (h : s.Synced)
    (hkeeps : keepsConn s.conn.connected (s.turnInput opts replies io) pending.length = true) :
    ∃ w, (s.wiresAfter opts replies io pending).getLast? = some w ∧ w.InStep := by
  have hused : s.conn.connected = false →
      io.backoff = false ∧ (s.turnInput opts replies io).connectErr = none := by
    intro hconnected
    simp only [keepsConn, hconnected, turnInput_backoff, Bool.false_or, Bool.and_eq_true,
      Bool.not_eq_true', Option.isNone_iff_eq_none] at hkeeps
    exact hkeeps.1.1
  rcases hlink : s.link opts replies io with ⟨old, w, err⟩
  obtain rfl := link_err hlink fun hconnected => (hused hconnected).2
  have hbackoff : (!s.conn.connected && io.backoff) = false := by
    cases hconnected : s.conn.connected with
    | true => rfl
    | false => exact (hused hconnected).1
  refine ⟨w.exchange pending (s.turnInput opts replies io) io.written, ?_, ?_⟩
  · rw [wiresAfter_eq hlink hbackoff, List.getLast?_concat]
  · exact ((h.linked hlink).inStep rfl).exchange hkeeps _

/-- The values of a turn are the replies to its requests. -/
theorem Synced.answers (h : s.Synced) (hi : pending[k]? = some i)
    (hresp : (turn opts.addr s.conn.connected (s.turnInput opts replies io)
      (pending.map s.dataOf))[k]? = some resp) :
    Answers replies (s.wiresAfter opts replies io pending) i resp := by
  intro v hv
  obtain ⟨hbackoff, hused, hwrite, hread, hcount⟩ := turn_value hresp hv
  rcases hlink : s.link opts replies io with ⟨old, w, err⟩
  obtain rfl := link_err hlink hused
  have hstep : w.read = w.commands.length := (h.linked hlink).inStep rfl
  rw [List.length_map] at hcount
  rw [wiresAfter_eq hlink hbackoff]
  refine ⟨old.length, w.read + k, _, List.getElem?_concat_length, ?_, ?_, ?_⟩
  · simp only [Wire.exchange, hwrite, if_true, hstep]
    rw [List.getElem?_append_right (Nat.le_add_right _ _), Nat.add_sub_cancel_left,
      List.getElem?_map, hi]
    rfl
  · simp only [Wire.exchange, hwrite, if_true]
    omega
  · simpa only [turnInput, hlink] using hread

end Pipe

end Pluster.Pool
