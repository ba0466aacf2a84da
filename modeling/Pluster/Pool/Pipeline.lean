import Pluster.Proto.Resp

/-!
# Pipelined connections

`pkg/pool/pipeline.go`: one turn of `pipeConn.loop` takes a batch of requests, connects if
it has to, writes the batch and reads one reply for each request. What the network does in
the turn is an input. Each response says whether the request had been written when it was
made, which the caller of `Do` does not learn.
-/

namespace Pluster.Pool

open Proto

/-- What the clock and the network do to one turn of `loop`. -/
structure TurnIO where
  /-- `backoffUntil` is not over. -/
  backoff : Bool := false
  /-- The error of `connect`. -/
  connectErr : Option Bytes := none
  /-- Every `WriteRaw` and `Flush` succeeds. -/
  writeOK : Bool := true
  /-- What the successive `ReadValue` return. -/
  reads : ℕ → Except Bytes Value

/-- `pipeResp`, and whether the request was written before. -/
structure PipeResp where
  result : Except Bytes Value
  written : Bool

/-- The same error for every request of a batch. -/
def failAll (pending : List Bytes) (err : Bytes) (written : Bool) : List PipeResp :=
  pending.map fun _ => ⟨.error err, written⟩

/-- The reads of a turn, from the one with number `i`. -/
def readReplies (reads : ℕ → Except Bytes Value) : ℕ → List Bytes → List PipeResp
  | _, [] => []
  | i, _ :: pending =>
    match reads i with
    | .ok v => ⟨.ok v, true⟩ :: readReplies reads (i + 1) pending
    | .error err => ⟨.error err, true⟩ :: failAll pending (bytes "connection reset") true

/-- One turn of `loop`: the responses to its batch. `connected` says that the turn before
left a connection. -/
def turn (addr : Bytes) (connected : Bool) (io : TurnIO) (pending : List Bytes) : List PipeResp :=
  if !connected && io.backoff then
    failAll pending (bytes "backend " ++ addr ++ bytes " unavailable (reconnecting)") false
  else
    match if connected then none else io.connectErr with
    | some err => failAll pending err false
    | none =>
      if io.writeOK then readReplies io.reads 0 pending
      else failAll pending (bytes "write error") true

/-- A call of `Do`: the turn that serves it, with the requests before and after it in the
batch. -/
structure PipeCall where
  connected : Bool := true
  io : TurnIO
  before : List Bytes := []
  after : List Bytes := []

/-- `PipelinedPool.Do`. -/
def PipeCall.serve (call : PipeCall) (addr data : Bytes) : PipeResp :=
  ((turn addr call.connected call.io (call.before ++ data :: call.after))[call.before.length]?).getD
    ⟨.error [], false⟩

/-- The network does not fail once the connection is there. -/
def TurnIO.Reliable (io : TurnIO) : Prop :=
  io.writeOK = true ∧ ∀ i, ∃ v, io.reads i = .ok v

theorem getElem?_failAll {pending : List Bytes} {err : Bytes} {written : Bool} {i : ℕ}
    {resp : PipeResp} (h : (failAll pending err written)[i]? = some resp) :
    resp = ⟨.error err, written⟩ := by
  rw [failAll, List.getElem?_map, Option.map_eq_some_iff] at h
  obtain ⟨_, -, rfl⟩ := h
  rfl

/-- If no read fails, every request of the batch has its reply. -/
theorem readReplies_of_reads {reads : ℕ → Except Bytes Value} (hreads : ∀ i, ∃ v, reads i = .ok v)
    (start : ℕ) (pending : List Bytes) :
    ∀ resp ∈ readReplies reads start pending, ∃ v, resp = ⟨.ok v, true⟩ := by
  induction pending generalizing start with
  | nil => simp [readReplies]
  | cons data pending ih =>
    obtain ⟨v, hv⟩ := hreads start
    simp only [readReplies, hv]
    rintro resp (_ | ⟨_, hresp⟩)
    · exact ⟨v, rfl⟩
    · exact ih (start + 1) resp hresp

/-- On a reliable network a request that was written is answered. -/
theorem PipeCall.serve_of_reliable {call : PipeCall} (hreliable : call.io.Reliable)
    {addr data : Bytes} (hwritten : (call.serve addr data).written = true) :
    ∃ v, (call.serve addr data).result = .ok v := by
  obtain ⟨hwrite, hreads⟩ := hreliable
  revert hwritten
  unfold serve
  rcases hresp : (turn addr call.connected call.io
    (call.before ++ data :: call.after))[call.before.length]? with _ | resp
  · exact fun h => nomatch h
  intro hwritten
  unfold turn at hresp
  split at hresp
  · rw [getElem?_failAll hresp] at hwritten
    cases hwritten
  split at hresp
  · rw [getElem?_failAll hresp] at hwritten
    cases hwritten
  obtain ⟨v, rfl⟩ := readReplies_of_reads hreads 0 _ resp (List.mem_of_getElem? hresp)
  exact ⟨v, rfl⟩

end Pluster.Pool
