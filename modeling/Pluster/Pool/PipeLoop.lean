import Pluster.Lib.Parties
import Pluster.Lib.Runs
import Pluster.Pool.Pipeline

/-!
# The goroutines of a pipelined pool

Any number of callers of `Do`, one goroutine `loop` for each connection and a call of
`Close` run at the same time. Every operation on a channel or under the lock of the pool is
a step. What the clock and the network do in a turn of `loop` is an input, and every call
into the network returns. `poolRegistry` removes a pool from its map in the critical
section in which it closes the pool, so that `Close` is called once. A caller that has got
the pool before may call `Do` at any time.
-/

namespace Pluster.Pool

open Proto

/-- Where `loop` of a connection is. Requests are the numbers of their callers. -/
inductive LoopPhase
  /-- At `range pc.reqCh`. -/
  | receiving
  /-- In the loop `drainMore`. -/
  | collecting (pending : List ℕ)
  /-- After that loop. -/
  | batched (pending : List ℕ)
  /-- The turn is over but for the responses that are left to send. -/
  | answering (todo : List (ℕ × PipeResp))
  | ended

/-- The channel and the goroutine of a `pipeConn`. -/
structure LoopConn where
  /-- The buffer of `reqCh`. -/
  queue : List ℕ := []
  closed : Bool := false
  loop : LoopPhase := .receiving
  /-- `nc` is not `nil`. -/
  connected : Bool := false

/-- Where a caller of `Do` is. -/
inductive DoPhase
  /-- At the lock of the pool. -/
  | calling
  /-- At the send to the connection `k`. -/
  | sending (k : ℕ)
  /-- At the receive of its response. -/
  | waiting
  /-- It has sent on a closed channel. -/
  | panicked
  deriving DecidableEq

/-- A caller of `Do`, with the responses that were sent to it. It returns with the first. -/
structure PipeCaller where
  data : Bytes
  phase : DoPhase := .calling
  resps : List PipeResp := []

/-- How far `Close` is. It has the lock of the pool from its first step to its last one. -/
inductive ClosePhase
  | uncalled
  /-- At `close(pc.reqCh)` of the connection `k`. -/
  | closing (k : ℕ)
  /-- At `<-pc.done` of the connection `k`. -/
  | awaiting (k : ℕ)
  | returned
  deriving DecidableEq

/-- `PipelinedPool` and its callers. -/
structure PipePool where
  addr : Bytes
  size : ℕ
  conns : List LoopConn
  idx : ℕ := 0
  closer : ClosePhase := .uncalled
  callers : List PipeCaller := []

/-- The steps of the goroutines. -/
inductive PipeEvent
  | callDo (data : Bytes)
  | callClose
  /-- `Do` chooses a connection. -/
  | pick (i : ℕ)
  | send (i : ℕ)
  | closeConn
  | awaitConn
  /-- The receive of `range pc.reqCh`. -/
  | receive (k : ℕ)
  /-- One turn of the loop `drainMore`. -/
  | drain (k : ℕ)
  /-- What a turn of `loop` does with its batch. -/
  | serve (k : ℕ) (io : TurnIO)
  | answer (k : ℕ)

/-- The size of the buffer of `reqCh`. -/
def reqChSize : ℕ := 512

/-- The size of `pending`. -/
def batchSize : ℕ := 64

/-- A turn of `loop` with `n` requests leaves a connection. -/
def keepsConn (connected : Bool) (io : TurnIO) (n : ℕ) : Bool :=
  (connected || (!io.backoff && io.connectErr.isNone)) && io.writeOK &&
    (List.range n).all fun i => (io.reads i).isOk

namespace LoopConn

def receive (c : LoopConn) : LoopConn :=
  match c.loop, c.queue with
  | .receiving, i :: queue => { c with queue, loop := .collecting [i] }
  | .receiving, [] => if c.closed then { c with loop := .ended } else c
  | _, _ => c

def drain (c : LoopConn) : LoopConn :=
  match c.loop with
  | .collecting pending =>
    if pending.length < batchSize then
      match c.queue with
      | i :: queue => { c with queue, loop := .collecting (pending ++ [i]) }
      -- `goto shutdown`
      | [] => if c.closed then { c with loop := .ended } else { c with loop := .batched pending }
    else { c with loop := .batched pending }
  | _ => c

/-- `data` is the request of a caller. -/
def serve (addr : Bytes) (data : ℕ → Bytes) (io : TurnIO) (c : LoopConn) : LoopConn :=
  match c.loop with
  | .batched pending =>
    { c with
      loop := .answering (pending.zip (turn addr c.connected io (pending.map data)))
      connected := keepsConn c.connected io pending.length }
  | _ => c

/-- The requests that the connection has taken and not answered. -/
def held (c : LoopConn) : List ℕ :=
  c.queue ++ match c.loop with
    | .receiving | .ended => []
    | .collecting pending | .batched pending => pending
    | .answering todo => todo.map Prod.fst

end LoopConn

namespace PipePool

/-- The request of a caller. -/
def dataOf (s : PipePool) (i : ℕ) : Bytes := (s.callers[i]?).elim [] PipeCaller.data

/-- A step of the `loop` of a connection. -/
def onConn (s : PipePool) (k : ℕ) (f : LoopConn → LoopConn) : PipePool :=
  match s.conns[k]? with
  | some c => { s with conns := s.conns.set k (f c) }
  | none => s

/-- Execute one event. An event that cannot occur changes nothing. -/
def exec (s : PipePool) : PipeEvent → PipePool
  | .callDo data => { s with callers := s.callers ++ [{ data := data }] }
  | .callClose => if s.closer = .uncalled then { s with closer := .closing 0 } else s
  | .pick i =>
    match s.callers[i]?, s.closer with
    | some ⟨data, .calling, resps⟩, .uncalled | some ⟨data, .calling, resps⟩, .returned =>
      { s with
        idx := s.idx + 1
        callers := s.callers.set i ⟨data, .sending (s.idx % s.size), resps⟩ }
    | _, _ => s
  | .send i =>
    match s.callers[i]? with
    | some ⟨data, .sending k, resps⟩ =>
      match s.conns[k]? with
      | some c =>
        if c.closed then { s with callers := s.callers.set i ⟨data, .panicked, resps⟩ }
        else if c.queue.length < reqChSize then
          { s with
            conns := s.conns.set k { c with queue := c.queue ++ [i] }
            callers := s.callers.set i ⟨data, .waiting, resps⟩ }
        else s
      | none => s
    | _ => s
  | .closeConn =>
    match s.closer with
    | .closing k =>
      match s.conns[k]? with
      | some c =>
        { s with conns := s.conns.set k { c with closed := true }, closer := .awaiting k }
      | none => { s with closer := .returned }
    | _ => s
  | .awaitConn =>
    match s.closer with
    | .awaiting k =>
      match s.conns[k]? with
      | some ⟨_, _, .ended, _⟩ => { s with closer := .closing (k + 1) }
      | _ => s
    | _ => s
  | .receive k => s.onConn k LoopConn.receive
  | .drain k => s.onConn k LoopConn.drain
  | .serve k io => s.onConn k (LoopConn.serve s.addr s.dataOf io)
  | .answer k =>
    match s.conns[k]? with
    | some ⟨queue, closed, .answering [], connected⟩ =>
      { s with conns := s.conns.set k ⟨queue, closed, .receiving, connected⟩ }
    | some ⟨queue, closed, .answering ((i, resp) :: todo), connected⟩ =>
      { s with
        conns := s.conns.set k ⟨queue, closed, .answering todo, connected⟩
        callers := s.callers.modify i fun caller =>
          { caller with resps := caller.resps ++ [resp] } }
    | _ => s

/-- `NewPipelinedPoolOpts`. -/
def new (addr : Bytes) (size : ℤ) : PipePool :=
  let size := if size ≤ 0 then 4 else size.toNat
  { addr, size, conns := List.replicate size {} }

/-! ### The steps of the goroutines -/

/-- What an event does, by what the source does there. -/
inductive Step (s : PipePool) : PipeEvent → PipePool → Prop
  | same {e : PipeEvent} : Step s e s
  | callDo {data : Bytes} : Step s (.callDo data) { s with callers := s.callers ++ [{ data := data }] }
  | callClose (h : s.closer = .uncalled) : Step s .callClose { s with closer := .closing 0 }
  | picks {i : ℕ} {caller : PipeCaller} (hi : s.callers[i]? = some caller)
    (hphase : caller.phase = .calling) (hfree : s.closer = .uncalled ∨ s.closer = .returned) :
    Step s (.pick i)
      { s with
        idx := s.idx + 1
        callers := s.callers.set i { caller with phase := .sending (s.idx % s.size) } }
  | panics {i k : ℕ} {caller : PipeCaller} {c : LoopConn} (hi : s.callers[i]? = some caller)
    (hphase : caller.phase = .sending k) (hk : s.conns[k]? = some c) (hclosed : c.closed = true) :
    Step s (.send i) { s with callers := s.callers.set i { caller with phase := .panicked } }
  | sends {i k : ℕ} {caller : PipeCaller} {c : LoopConn} (hi : s.callers[i]? = some caller)
    (hphase : caller.phase = .sending k) (hk : s.conns[k]? = some c) (hopen : c.closed = false)
    (hroom : c.queue.length < reqChSize) :
    Step s (.send i)
      { s with
        conns := s.conns.set k { c with queue := c.queue ++ [i] }
        callers := s.callers.set i { caller with phase := .waiting } }
  | closesConn {k : ℕ} {c : LoopConn} (hcloser : s.closer = .closing k)
    (hk : s.conns[k]? = some c) :
    Step s .closeConn
      { s with conns := s.conns.set k { c with closed := true }, closer := .awaiting k }
  | returns {k : ℕ} (hcloser : s.closer = .closing k) (hk : s.conns[k]? = none) :
    Step s .closeConn { s with closer := .returned }
  | awaited {k : ℕ} {c : LoopConn} (hcloser : s.closer = .awaiting k) (hk : s.conns[k]? = some c)
    (hended : c.loop = .ended) : Step s .awaitConn { s with closer := .closing (k + 1) }
  | receives {k : ℕ} {c : LoopConn} (hk : s.conns[k]? = some c) :
    Step s (.receive k) { s with conns := s.conns.set k c.receive }
  | drains {k : ℕ} {c : LoopConn} (hk : s.conns[k]? = some c) :
    Step s (.drain k) { s with conns := s.conns.set k c.drain }
  | serves {k : ℕ} {io : TurnIO} {c : LoopConn} (hk : s.conns[k]? = some c) :
    Step s (.serve k io) { s with conns := s.conns.set k (c.serve s.addr s.dataOf io) }
  | finishes {k : ℕ} {c : LoopConn} (hk : s.conns[k]? = some c) (hloop : c.loop = .answering []) :
    Step s (.answer k) { s with conns := s.conns.set k { c with loop := .receiving } }
  | answers {k i : ℕ} {resp : PipeResp} {todo : List (ℕ × PipeResp)} {c : LoopConn}
    (hk : s.conns[k]? = some c) (hloop : c.loop = .answering ((i, resp) :: todo)) :
    Step s (.answer k)
      { s with
        conns := s.conns.set k { c with loop := .answering todo }
        callers := s.callers.modify i fun caller =>
          { caller with resps := caller.resps ++ [resp] } }

theorem exec_step (s : PipePool) (e : PipeEvent) : Step s e (s.exec e) := by
  cases e with
  | callDo data => exact .callDo
  | callClose =>
    simp only [exec]
    split
    · exact .callClose ‹_›
    · exact .same
  | pick i =>
    simp only [exec]
    split
    · exact .picks ‹_› rfl (.inl ‹_›)
    · exact .picks ‹_› rfl (.inr ‹_›)
    · exact .same
  | send i =>
    simp only [exec]
    split
    · split
      · split
        · exact .panics ‹_› rfl ‹_› ‹_›
        rename_i hopen
        split
        · exact .sends ‹_› rfl ‹_› (Bool.not_eq_true _ ▸ hopen) ‹_›
        · exact .same
      · exact .same
    · exact .same
  | closeConn =>
    simp only [exec]
    split
    · split
      · exact .closesConn ‹_› ‹_›
      · exact .returns ‹_› ‹_›
    · exact .same
  | awaitConn =>
    simp only [exec]
    split
    · split
      · exact .awaited ‹_› ‹_› rfl
      · exact .same
    · exact .same
  | receive k =>
    simp only [exec, onConn]
    split
    · exact .receives ‹_›
    · exact .same
  | drain k =>
    simp only [exec, onConn]
    split
    · exact .drains ‹_›
    · exact .same
  | serve k io =>
    simp only [exec, onConn]
    split
    · exact .serves ‹_›
    · exact .same
  | answer k =>
    simp only [exec]
    split
    · exact .finishes ‹_› rfl
    · exact .answers ‹_› rfl
    · exact .same

end PipePool

/-! ### What a connection does with its requests -/

theorem length_failAll (pending : List Bytes) (err : Bytes) (written : Bool) :
    (failAll pending err written).length = pending.length := List.length_map _

theorem length_readReplies (reads : ℕ → Except Bytes Value) (i : ℕ) (pending : List Bytes) :
    (readReplies reads i pending).length = pending.length := by
  induction pending generalizing i with
  | nil => rfl
  | cons data pending ih =>
    unfold readReplies
    split
    · simp [ih]
    · simp [length_failAll]

/-- A turn has a response for every request of its batch. -/
theorem length_turn (addr : Bytes) (connected : Bool) (io : TurnIO) (pending : List Bytes) :
    (turn addr connected io pending).length = pending.length := by
  unfold turn
  split
  · exact length_failAll _ _ _
  split
  · exact length_failAll _ _ _
  split
  · exact length_readReplies _ _ _
  · exact length_failAll _ _ _

namespace LoopConn

variable {c : LoopConn}

theorem receive_count (c : LoopConn) (i : ℕ) : c.receive.held.count i = c.held.count i := by
  unfold receive
  split
  · rename_i j queue hloop hqueue
    simp only [held, hloop, hqueue, List.append_nil, List.count_append, List.count_cons]
    simp
  · rename_i hloop hqueue
    split <;> simp [held, hloop]
  · rfl

theorem serve_count (addr : Bytes) (data : ℕ → Bytes) (io : TurnIO) (c : LoopConn) (i : ℕ) :
    (c.serve addr data io).held.count i = c.held.count i := by
  unfold serve
  split
  · rename_i pending hloop
    have hfst : (pending.zip (turn addr c.connected io (pending.map data))).map Prod.fst =
        pending := by
      refine List.map_fst_zip ?_
      rw [length_turn, List.length_map]
    simp only [held, hloop, hfst]
  · rfl

/-- `loop` drops its batch when the channel is closed and empty before the batch is full. -/
def DropsBatch (c : LoopConn) : Prop :=
  ∃ pending, c.loop = .collecting pending ∧ pending.length < batchSize ∧ c.queue = [] ∧
    c.closed = true

theorem drain_count_of_not_drops (h : ¬c.DropsBatch) (i : ℕ) :
    c.drain.held.count i = c.held.count i := by
  unfold drain
  split
  · rename_i pending hloop
    split
    · rename_i hlt
      split
      · rename_i j queue hqueue
        simp only [held, hloop, hqueue, List.count_append, List.count_cons, List.count_nil]
        omega
      rename_i hqueue
      split
      · exact absurd ⟨pending, hloop, hlt, hqueue, ‹_›⟩ h
      · simp [held, hloop]
    · simp [held, hloop]
  · rfl

theorem drain_count_le (c : LoopConn) (i : ℕ) : c.drain.held.count i ≤ c.held.count i := by
  by_cases h : c.DropsBatch
  · obtain ⟨pending, hloop, hlt, hqueue, hclosed⟩ := h
    simp [drain, hloop, hlt, hqueue, hclosed, held]
  · exact Nat.le_of_eq (drain_count_of_not_drops h i)

end LoopConn

end Pluster.Pool
