import Pluster.Engine.Mux

/-!
# Replies of the multiplexer match their requests

On every open connection the commands written and buffered are those of the
requests answered and pending, in order, as long as no ASK redirection is
followed to a connection with unwritten commands: `sendAsk` writes at once, past
the buffer that `send` fills. A run in which one read holds a MOVED and an ASK to
the same node breaks the order.
-/

namespace Pluster.Engine

open Proto GoStrings Pipeline Mux

variable {req : PendingClientReq} {bc : BackendMuxConn} {m' : Mux} {conn : ℕ}

/-- The connection as a pipelined connection. -/
def BackendMuxConn.toPipe (bc : BackendMuxConn) : Pipe PendingClientReq Bytes :=
  ⟨bc.answered.map Prod.fst, bc.pending.drop bc.head, bc.wire, bc.writeBuf⟩

/-- The invariant of one connection. -/
structure ConnOk (bc : BackendMuxConn) : Prop where
  matched : bc.toPipe.Matched PendingClientReq.command
  head_le : bc.head ≤ bc.pending.length
  /-- Only sentinels have no request. -/
  requests : ∀ req ∈ bc.pending, req.skipReply = false → req.req.isSome

/-- The invariant of the multiplexer. -/
structure MuxInv (m : Mux) : Prop where
  conns : ∀ addr bc, m.conns addr = some bc → ConnOk bc
  dialing : ∀ addr, ∀ req ∈ m.dialing addr, req.req.isSome
  /-- The open connections are those in the map, each under its own address. -/
  opened : ∀ conn addr, m.connAddr conn = some addr ↔ ∃ bc, m.conns addr = some bc ∧ bc.conn = conn
  fresh : ∀ conn, m.nextConn ≤ conn → m.connAddr conn = none
  /-- An address with queued requests is being dialled. -/
  registering : ∀ addr, m.registering addr = true ↔ m.dialing addr ≠ []
  exclusive : ∀ addr, m.dialing addr ≠ [] → m.conns addr = none

/-! ### The condition on a run -/

/-- An ASK redirection to an address finds no unwritten commands there. -/
def askInOrder (m : Mux) (addr : Bytes) : Bool :=
  match m.conns addr with
  | none => true
  | some bc => bc.writeBuf.isEmpty

/-- If the reply is an ASK that is followed, it finds no unwritten commands. -/
def replyInOrder (addr : Bytes) (m : Mux) (reply : Reply) : Bool :=
  match (m.conns addr).bind fun bc => bc.pending[bc.head]? with
  | none => true
  | some req =>
    match req.skipReply, route req reply with
    | false, .ask newAddr => askInOrder m newAddr
    | _, _ => true

/-- The connection has a written command that waits for its reply. -/
def replyExpected (addr : Bytes) (m : Mux) (_reply : Reply) : Bool :=
  match m.conns addr with
  | none => true
  | some bc => bc.read.length < bc.wire.length

/-- A condition on each reply of a read, in the state in which it is handled. -/
def alongTraffic (outcome : ℕ → Bytes → DialOutcome) (ok : Bytes → Mux → Reply → Bool) (m : Mux)
    (conn : ℕ) (replies : List Reply) : Bool :=
  match m.connAddr conn with
  | none => true
  | some addr => decide (Runs.Meets (onReply outcome addr) (fun m reply => ok addr m reply) m replies)

/-- Every ASK redirection of the event finds no unwritten commands at its target. -/
def eventInOrder (outcome : ℕ → Bytes → DialOutcome) (m : Mux) : MuxEvent → Bool
  | .sendAsk addr _ _ _ _ => askInOrder m addr
  | .onTraffic conn replies => alongTraffic outcome replyInOrder m conn replies
  | _ => true

/-- The nodes send at most one reply for each command written to them. -/
def eventExpected (outcome : ℕ → Bytes → DialOutcome) (m : Mux) : MuxEvent → Bool
  | .onTraffic conn replies => alongTraffic outcome replyExpected m conn replies
  | _ => true

/-! ### Steps of one connection -/

private theorem command_of_isSome (hask : req.isAskSentinel = false) (hreq : req.req.isSome) :
    (req.req.map rawBytes).toList = [req.command] := by
  obtain ⟨r, hr⟩ := Option.isSome_iff_exists.mp hreq
  simp [PendingClientReq.command, hask, hr]

namespace ConnOk

variable {bc : BackendMuxConn}

theorem send (h : ConnOk bc) (hask : req.isAskSentinel = false) (hreq : req.req.isSome) :
    ConnOk { bc with
      pending := bc.pending ++ [req]
      writeBuf := bc.writeBuf ++ (req.req.map rawBytes).toList } := by
  refine ⟨?_, ?_, ?_⟩
  · rw [command_of_isSome hask hreq]
    have henqueue := h.matched.enqueue [req]
    rwa [BackendMuxConn.toPipe, List.drop_append_of_le_length h.head_le]
  · have := h.head_le
    simp only [List.length_append]
    omega
  intro r hr hskip
  rcases List.mem_append.mp hr with hr | hr
  · exact h.requests r hr hskip
  · rwa [List.mem_singleton.mp hr]

theorem sendAsk (h : ConnOk bc) (hbuf : bc.writeBuf = []) {skip : PendingClientReq}
    (hskip : skip.isAskSentinel = true ∧ skip.skipReply = true) (hask : req.isAskSentinel = false)
    (hreq : req.req.isSome) :
    ConnOk { bc with
      pending := bc.pending ++ [skip, req]
      wire := bc.wire ++ [askingBytes] ++ (req.req.map rawBytes).toList } := by
  refine ⟨?_, ?_, ?_⟩
  · have hcommands : [askingBytes] ++ [req.command] = [skip, req].map PendingClientReq.command := by
      simp [PendingClientReq.command, hskip.1]
    rw [command_of_isSome hask hreq, List.append_assoc, hcommands]
    have hwrite := h.matched.writeNow hbuf [skip, req]
    rwa [BackendMuxConn.toPipe, List.drop_append_of_le_length h.head_le]
  · have := h.head_le
    simp only [List.length_append]
    omega
  intro r hr hnotSkip
  rcases List.mem_append.mp hr with hr | hr
  · exact h.requests r hr hnotSkip
  rcases List.mem_pair.mp hr with rfl | rfl
  · rw [hskip.2] at hnotSkip
    cases hnotSkip
  · exact hreq

theorem flush (h : ConnOk bc) :
    ConnOk { bc with wire := bc.wire ++ bc.writeBuf, writeBuf := [] } :=
  ⟨h.matched.flush, h.head_le, h.requests⟩

/-- A reply is matched with the first pending request. -/
theorem popPending (h : ConnOk bc) (reply : Reply) : ConnOk (popPending bc reply).1 := by
  unfold Mux.popPending
  cases hreq : bc.pending[bc.head]? with
  | none =>
    simp only [hreq]
    exact ⟨h.matched, h.head_le, h.requests⟩
  | some req =>
    simp only [hreq]
    obtain ⟨hlt, hget⟩ := List.getElem?_eq_some_iff.mp hreq
    have hanswer := h.matched.answer
      (show bc.toPipe.pending = req :: bc.pending.drop (bc.head + 1) by
        rw [← hget]
        exact List.drop_eq_getElem_cons hlt)
    split
    · rename_i hlast
      rw [List.drop_of_length_le (by omega)] at hanswer
      refine ⟨?_, le_refl _, by simp⟩
      simpa [BackendMuxConn.toPipe] using hanswer
    · refine ⟨?_, hlt, h.requests⟩
      simpa [BackendMuxConn.toPipe] using hanswer

/-- A connection that opens writes the commands of the queued requests. -/
theorem opened (conn : ℕ) {queued : List PendingClientReq}
    (hqueued : ∀ req ∈ queued, req.req.isSome) (isReplicaAddr : Bool) :
    ConnOk {
      conn := conn
      pending := (if isReplicaAddr then readonlySentinel queued else []) ++ queued
      wire := (if isReplicaAddr ∧ queued ≠ [] then [readonlyBytes] else []) ++
        queued.flatMap fun req =>
          if req.isAskSentinel then [askingBytes] else (req.req.map rawBytes).toList } := by
  have hwritten : (queued.flatMap fun req : PendingClientReq =>
      if req.isAskSentinel then [askingBytes] else (req.req.map rawBytes).toList) =
      queued.map PendingClientReq.command := by
    rw [List.map_eq_flatMap]
    refine List.flatMap_congr fun req hreq => ?_
    split
    · rename_i hask
      simp [PendingClientReq.command, hask]
    rename_i hask
    exact command_of_isSome (by simpa using hask) (hqueued req hreq)
  refine ⟨?_, Nat.zero_le _, ?_⟩
  · cases isReplicaAddr <;> cases queued <;>
      simp [BackendMuxConn.toPipe, Pipe.Matched, hwritten, readonlySentinel,
        PendingClientReq.command]
  intro req hreq hskip
  rcases List.mem_append.mp hreq with hreq | hreq
  · cases isReplicaAddr <;> cases queued <;> simp [readonlySentinel] at hreq
    rw [hreq] at hskip
    cases hskip
  · exact hqueued req hreq

end ConnOk

@[simp] theorem popPending_conn (bc : BackendMuxConn) (reply : Reply) :
    (popPending bc reply).1.conn = bc.conn := by
  simp only [popPending]
  split
  · rfl
  · split <;> rfl

@[simp] theorem popPending_writeBuf (bc : BackendMuxConn) (reply : Reply) :
    (popPending bc reply).1.writeBuf = bc.writeBuf := by
  simp only [popPending]
  split
  · rfl
  · split <;> rfl

@[simp] theorem popPending_snd (bc : BackendMuxConn) (reply : Reply) :
    (popPending bc reply).2 = bc.pending[bc.head]? := by
  simp only [popPending]
  cases bc.pending[bc.head]? with
  | none => rfl
  | some req =>
    simp only
    split <;> rfl

/-! ### Steps of the multiplexer -/

namespace MuxInv

variable {m : Mux} {outcome : ℕ → Bytes → DialOutcome} {addr : Bytes}

theorem new : MuxInv {} := by
  constructor <;> simp

/-- A connection in the map changes. -/
theorem setConn (h : MuxInv m) {old : BackendMuxConn} (hold : m.conns addr = some old)
    (hconn : bc.conn = old.conn) (hok : ConnOk bc) : MuxInv (m.setConn addr bc) where
  conns addr' bc' hbc' := by
    by_cases haddr : addr' = addr
    · subst haddr
      simp only [Mux.setConn, Function.update_self, Option.some.injEq] at hbc'
      rwa [← hbc']
    simp only [Mux.setConn, Function.update_of_ne haddr] at hbc'
    exact h.conns addr' bc' hbc'
  dialing := h.dialing
  opened conn addr' := by
    rw [Mux.setConn, h.opened]
    by_cases haddr : addr' = addr
    · subst haddr
      simp [hold, hconn]
    · simp [Function.update_of_ne haddr]
  fresh := h.fresh
  registering := h.registering
  exclusive addr' hdialing := by
    have hnone := h.exclusive addr' hdialing
    have haddr : addr' ≠ addr := by
      rintro rfl
      rw [hold] at hnone
      cases hnone
    simpa only [Mux.setConn, Function.update_of_ne haddr] using hnone

/-- The queue of an address without a connection changes, and with it the dial. -/
theorem setDialing (h : MuxInv m) (queue : List PendingClientReq) (hnone : m.conns addr = none)
    (hqueue : ∀ req ∈ queue, req.req.isSome) (hconns : m'.conns = m.conns)
    (hconnAddr : m'.connAddr = m.connAddr) (hnextConn : m'.nextConn = m.nextConn)
    (hdialing : m'.dialing = Function.update m.dialing addr queue)
    (hregistering : m'.registering = Function.update m.registering addr (!queue.isEmpty)) :
    MuxInv m' where
  conns := hconns ▸ h.conns
  dialing addr' := by
    rw [hdialing]
    by_cases haddr : addr' = addr
    · subst haddr
      rwa [Function.update_self]
    rw [Function.update_of_ne haddr]
    exact h.dialing addr'
  opened := by
    rw [hconns, hconnAddr]
    exact h.opened
  fresh := by
    rw [hnextConn, hconnAddr]
    exact h.fresh
  registering addr' := by
    rw [hdialing, hregistering]
    by_cases haddr : addr' = addr
    · subst haddr
      cases queue <;> simp
    rw [Function.update_of_ne haddr, Function.update_of_ne haddr]
    exact h.registering addr'
  exclusive addr' := by
    rw [hdialing, hconns]
    by_cases haddr : addr' = addr
    · subst haddr
      exact fun _ => hnone
    rw [Function.update_of_ne haddr]
    exact h.exclusive addr'

theorem enqueueDial (h : MuxInv m) (hnone : m.conns addr = none) {reqs : List PendingClientReq}
    (hne : reqs ≠ []) (hreqs : ∀ req ∈ reqs, req.req.isSome) :
    MuxInv (m.enqueueDial outcome addr reqs) := by
  have hnonempty : reqs.isEmpty = false := by simpa using hne
  unfold Mux.enqueueDial
  split
  · rename_i hempty
    -- A first request dials; a dial that fails at once leaves the queue empty.
    have hidle : m.registering addr = false := by
      cases hregistering : m.registering addr with
      | false => rfl
      | true => exact absurd hempty ((h.registering addr).mp hregistering)
    simp only [dialBackend]
    split
    · exact h.setDialing reqs hnone hreqs rfl rfl rfl (by simp [hempty]) (by simp [hnonempty])
    all_goals
      refine h.setDialing [] hnone (by simp) rfl rfl rfl (by simp [failDialing]) ?_
      rw [List.isEmpty_nil, Bool.not_true, ← hidle, Function.update_eq_self]
      rfl
  · rename_i hqueued
    have hbusy : m.registering addr = true := (h.registering addr).mpr hqueued
    refine h.setDialing (m.dialing addr ++ reqs) hnone ?_ rfl rfl rfl rfl ?_
    · intro req hreq
      rcases List.mem_append.mp hreq with hreq | hreq
      · exact h.dialing addr req hreq
      · exact hreqs req hreq
    · have hsome : (m.dialing addr ++ reqs).isEmpty = false := by simp [hne]
      rw [hsome, Bool.not_false, ← hbusy, Function.update_eq_self]

theorem send (h : MuxInv m) (hask : req.isAskSentinel = false) (hreq : req.req.isSome) :
    MuxInv (m.send outcome addr req) := by
  unfold Mux.send
  split
  · rename_i bc hbc
    exact h.setConn hbc rfl ((h.conns addr bc hbc).send hask hreq)
  rename_i hnone
  exact h.enqueueDial hnone (by simp) (by simpa using hreq)

theorem sendAsk (h : MuxInv m) (horder : askInOrder m addr) (hask : req.isAskSentinel = false)
    (hreq : req.req.isSome) : MuxInv (m.sendAsk outcome addr req) := by
  unfold Mux.sendAsk
  split
  · rename_i bc hbc
    have hbuf : bc.writeBuf = [] := by simpa [askInOrder, hbc] using horder
    exact h.setConn hbc rfl ((h.conns addr bc hbc).sendAsk hbuf ⟨rfl, rfl⟩ hask hreq)
  rename_i hnone
  exact h.enqueueDial hnone (by simp) (by simpa using hreq)

theorem flushBackendWrites (h : MuxInv m) : MuxInv m.flushBackendWrites where
  conns addr bc hbc := by
    obtain ⟨old, hold, rfl⟩ := Option.map_eq_some_iff.mp hbc
    exact (h.conns addr old hold).flush
  dialing := h.dialing
  opened conn addr := by
    rw [Mux.flushBackendWrites, h.opened]
    simp
  fresh := h.fresh
  registering := h.registering
  exclusive addr hdialing := by
    simp only [Mux.flushBackendWrites, h.exclusive addr hdialing, Option.map_none]

theorem deliver (h : MuxInv m) (req : PendingClientReq) (raw : Bytes) :
    MuxInv (m.deliver req raw) := by
  unfold Mux.deliver
  split
  · exact h
  · exact ⟨h.conns, h.dialing, h.opened, h.fresh, h.registering, h.exclusive⟩

/-- One reply, if it is not an ASK that overtakes unwritten commands. -/
theorem onReply (h : MuxInv m) (reply : Reply) (horder : replyInOrder addr m reply) :
    MuxInv (Mux.onReply outcome addr m reply) := by
  unfold Mux.onReply
  split
  · exact h
  rename_i bc hbc
  have hok := h.conns addr bc hbc
  have hpopped := h.setConn hbc (popPending_conn bc reply) (hok.popPending reply)
  split
  · rename_i bc' hpop
    rwa [hpop] at hpopped
  rename_i bc' req hpop
  have hfirst : bc.pending[bc.head]? = some req := by rw [← popPending_snd bc reply, hpop]
  rw [hpop] at hpopped
  simp only
  split
  · exact hpopped
  rename_i hskip
  have hreq : req.req.isSome :=
    hok.requests req (List.mem_of_getElem? hfirst) (by simpa using hskip)
  split
  · exact hpopped.send rfl hreq
  · rename_i newAddr hroute
    refine hpopped.sendAsk ?_ rfl hreq
    have hbefore : askInOrder m newAddr := by
      simpa [replyInOrder, hbc, hfirst, hskip, hroute] using horder
    unfold askInOrder at hbefore ⊢
    by_cases haddr : newAddr = addr
    · subst haddr
      have hbuf : bc'.writeBuf = bc.writeBuf := by
        rw [← popPending_writeBuf bc reply, hpop]
      simpa [Mux.setConn, hbc, hbuf] using hbefore
    · simpa [Mux.setConn, Function.update_of_ne haddr] using hbefore
  · exact hpopped.deliver req reply.raw

theorem onTraffic (h : MuxInv m) (replies : List Reply)
    (horder : Runs.Meets (Mux.onReply outcome addr) (fun m reply => replyInOrder addr m reply) m
      replies) : MuxInv (m.onTraffic outcome addr replies) := by
  unfold Mux.onTraffic
  split
  · exact h
  · exact (horder.invariant (fun _ reply hm hok => hm.onReply reply hok) h).flushBackendWrites

/-- A dial succeeds: the queued requests are written to the new connection. -/
theorem onOpen (h : MuxInv m) (hregistering : m.registering addr = true) (isReplicaAddr : Bool) :
    MuxInv (Mux.onOpen { m with
      registering := Function.update m.registering addr false
      connAddr := Function.update m.connAddr m.nextConn (some addr)
      nextConn := m.nextConn + 1 } m.nextConn addr isReplicaAddr) := by
  have hnone := h.exclusive addr ((h.registering addr).mp hregistering)
  have hok := ConnOk.opened m.nextConn (h.dialing addr) isReplicaAddr
  have hfresh := h.fresh m.nextConn (le_refl _)
  constructor
  · intro addr' bc hbc
    by_cases haddr : addr' = addr
    · subst haddr
      simp only [Mux.onOpen, Mux.setConn, Function.update_self, Option.some.injEq] at hbc
      rwa [← hbc]
    simp only [Mux.onOpen, Mux.setConn, Function.update_of_ne haddr] at hbc
    exact h.conns addr' bc hbc
  · intro addr' req hreq
    by_cases haddr : addr' = addr
    · subst haddr
      simp [Mux.onOpen] at hreq
    simp only [Mux.onOpen, Function.update_of_ne haddr] at hreq
    exact h.dialing addr' req hreq
  · intro conn addr'
    simp only [Mux.onOpen, Mux.setConn]
    by_cases hconn : conn = m.nextConn
    · subst hconn
      rw [Function.update_self]
      by_cases haddr : addr' = addr
      · subst haddr
        simp
      have hold := h.opened m.nextConn addr'
      rw [hfresh] at hold
      simp only [Function.update_of_ne haddr, ← hold]
      simp [Ne.symm haddr]
    · rw [Function.update_of_ne hconn, h.opened]
      by_cases haddr : addr' = addr
      · subst haddr
        simp [hnone, Ne.symm hconn]
      · simp [Function.update_of_ne haddr]
  · intro conn hconn
    have hlt : m.nextConn + 1 ≤ conn := hconn
    simp only [Mux.onOpen, Mux.setConn, Function.update_of_ne (show conn ≠ m.nextConn by omega)]
    exact h.fresh conn (by omega)
  · intro addr'
    by_cases haddr : addr' = addr
    · subst haddr
      simp [Mux.onOpen, Mux.setConn]
    simp only [Mux.onOpen, Mux.setConn, Function.update_of_ne haddr]
    exact h.registering addr'
  · intro addr' hdialing
    by_cases haddr : addr' = addr
    · subst haddr
      simp [Mux.onOpen] at hdialing
    simp only [Mux.onOpen, Mux.setConn, Function.update_of_ne haddr] at hdialing ⊢
    exact h.exclusive addr' hdialing

theorem dialFailed (h : MuxInv m) (hregistering : m.registering addr = true) (err : Bytes) :
    MuxInv ({ m with registering := Function.update m.registering addr false }.failDialing
      addr err) :=
  h.setDialing [] (h.exclusive addr ((h.registering addr).mp hregistering)) (by simp) rfl rfl rfl
    rfl rfl

/-- A connection leaves the map and its context is gone. -/
theorem removeConn (h : MuxInv m) (hconn : m.connAddr conn = some addr)
    (hconns : m'.conns = Function.update m.conns addr none)
    (hconnAddr : m'.connAddr = Function.update m.connAddr conn none)
    (hnextConn : m'.nextConn = m.nextConn) (hdialing : m'.dialing = m.dialing)
    (hregistering : m'.registering = m.registering) : MuxInv m' where
  conns addr' bc hbc := by
    rw [hconns] at hbc
    by_cases haddr : addr' = addr
    · subst haddr
      simp at hbc
    rw [Function.update_of_ne haddr] at hbc
    exact h.conns addr' bc hbc
  dialing := hdialing ▸ h.dialing
  opened conn' addr' := by
    obtain ⟨bc, hbc, hbcConn⟩ := (h.opened conn addr).mp hconn
    rw [hconns, hconnAddr]
    by_cases haddr : addr' = addr
    · subst haddr
      by_cases hsame : conn' = conn
      · subst hsame
        simp
      simp only [Function.update_of_ne hsame, h.opened, hbc, Function.update_self,
        Option.some.injEq, reduceCtorEq, false_and, exists_false, iff_false]
      rintro ⟨other, rfl, hother⟩
      exact hsame (hother.symm.trans hbcConn)
    · simp only [Function.update_of_ne haddr, ← h.opened]
      by_cases hsame : conn' = conn
      · subst hsame
        rw [Function.update_self, hconn]
        simp [Ne.symm haddr]
      · rw [Function.update_of_ne hsame]
  fresh conn' hconn' := by
    rw [hnextConn] at hconn'
    rw [hconnAddr]
    by_cases hsame : conn' = conn
    · rw [hsame, Function.update_self]
    rw [Function.update_of_ne hsame]
    exact h.fresh conn' hconn'
  registering := by
    rw [hregistering, hdialing]
    exact h.registering
  exclusive addr' hne := by
    rw [hdialing] at hne
    rw [hconns]
    by_cases haddr : addr' = addr
    · rw [haddr, Function.update_self]
    rw [Function.update_of_ne haddr]
    exact h.exclusive addr' hne

theorem onClose (h : MuxInv m) (hconn : m.connAddr conn = some addr) :
    MuxInv ({ m with connAddr := Function.update m.connAddr conn none }.onClose addr) := by
  obtain ⟨bc, hbc, -⟩ := (h.opened conn addr).mp hconn
  simp only [Mux.onClose, hbc]
  exact h.removeConn hconn rfl rfl rfl rfl rfl

/-- One event, if its ASK redirections overtake nothing. -/
theorem exec (h : MuxInv m) (event : MuxEvent) (horder : eventInOrder outcome m event) :
    MuxInv (m.exec outcome event) := by
  cases event with
  | send addr clientConn slotIdx req fanInIdx => exact h.send rfl rfl
  | sendAsk addr clientConn slotIdx req fanInIdx => exact h.sendAsk horder rfl rfl
  | flushBackendWrites => exact h.flushBackendWrites
  | onOpen addr isReplicaAddr =>
    simp only [Mux.exec]
    split
    · rename_i hregistering
      exact h.onOpen hregistering isReplicaAddr
    · exact h
  | dialFailed addr err =>
    simp only [Mux.exec]
    split
    · rename_i hregistering
      exact h.dialFailed hregistering err
    · exact h
  | onTraffic conn replies =>
    simp only [Mux.exec]
    split
    · exact h
    rename_i addr haddr
    exact h.onTraffic replies (by simpa [eventInOrder, alongTraffic, haddr] using horder)
  | onClose conn =>
    simp only [Mux.exec]
    split
    · exact h
    rename_i addr haddr
    exact h.onClose haddr
  | clientClose clientConn =>
    exact ⟨h.conns, h.dialing, h.opened, h.fresh, h.registering, h.exclusive⟩

end MuxInv

/-! ### Replies are read in step with the commands -/

/-- Every reply read has answered a request whose command was written. -/
def ReadsAnswered (m : Mux) : Prop :=
  ∀ addr bc, m.conns addr = some bc →
    bc.read = bc.answered.map Prod.snd ∧ bc.answered.length ≤ bc.wire.length

/-- Both invariants of the multiplexer. -/
structure ReplyInv (m : Mux) : Prop where
  inv : MuxInv m
  reads : ReadsAnswered m

namespace ReadsAnswered

variable {m : Mux} {outcome : ℕ → Bytes → DialOutcome} {addr : Bytes}

theorem setConn (h : ReadsAnswered m)
    (hbc : bc.read = bc.answered.map Prod.snd ∧ bc.answered.length ≤ bc.wire.length) :
    ReadsAnswered (m.setConn addr bc) := by
  intro addr' bc' hbc'
  by_cases haddr : addr' = addr
  · subst haddr
    simp only [Mux.setConn, Function.update_self, Option.some.injEq] at hbc'
    rwa [← hbc']
  simp only [Mux.setConn, Function.update_of_ne haddr] at hbc'
  exact h addr' bc' hbc'

private theorem enqueueDial_conns (m : Mux) (reqs : List PendingClientReq) :
    (m.enqueueDial outcome addr reqs).conns = m.conns := by
  simp only [Mux.enqueueDial, dialBackend]
  split
  · split <;> rfl
  · rfl

theorem send (h : ReadsAnswered m) (req : PendingClientReq) :
    ReadsAnswered (m.send outcome addr req) := by
  unfold Mux.send
  split
  · rename_i bc hbc
    exact h.setConn (h addr bc hbc)
  intro addr' bc' hbc'
  exact h addr' bc' (by rwa [enqueueDial_conns] at hbc')

theorem sendAsk (h : ReadsAnswered m) (req : PendingClientReq) :
    ReadsAnswered (m.sendAsk outcome addr req) := by
  unfold Mux.sendAsk
  split
  · rename_i bc hbc
    obtain ⟨hread, hwire⟩ := h addr bc hbc
    refine h.setConn ⟨hread, ?_⟩
    simp only [List.length_append]
    omega
  · intro addr' bc' hbc'
    exact h addr' bc' (by rwa [enqueueDial_conns] at hbc')

theorem flushBackendWrites (h : ReadsAnswered m) : ReadsAnswered m.flushBackendWrites := by
  intro addr bc hbc
  obtain ⟨old, hold, rfl⟩ := Option.map_eq_some_iff.mp hbc
  obtain ⟨hread, hwire⟩ := h addr old hold
  refine ⟨hread, ?_⟩
  simp only [List.length_append]
  omega

/-- A reply to a written command finds a pending request. -/
private theorem popPending (hok : ConnOk bc) (reply : Reply)
    (hread : bc.read = bc.answered.map Prod.snd) (hexpected : bc.read.length < bc.wire.length) :
    (popPending bc reply).1.read = (popPending bc reply).1.answered.map Prod.snd ∧
      (popPending bc reply).1.answered.length ≤ (popPending bc reply).1.wire.length := by
  have hlength := hok.matched.length
  rw [hread, List.length_map] at hexpected
  simp only [BackendMuxConn.toPipe, List.length_map, List.length_drop] at hlength
  have hlt : bc.head < bc.pending.length := by omega
  simp only [Mux.popPending, List.getElem?_eq_getElem hlt]
  split <;> simp [hread] <;> omega

theorem onReply (h : ReadsAnswered m) (hinv : MuxInv m) (reply : Reply)
    (hexpected : replyExpected addr m reply) : ReadsAnswered (Mux.onReply outcome addr m reply) := by
  unfold Mux.onReply
  split
  · exact h
  rename_i bc hbc
  have hpopped : ReadsAnswered (m.setConn addr (Mux.popPending bc reply).1) :=
    h.setConn (popPending (hinv.conns addr bc hbc) reply (h addr bc hbc).1
      (by simpa [replyExpected, hbc] using hexpected))
  split
  · rename_i bc' hpop
    rwa [hpop] at hpopped
  rename_i bc' req hpop
  rw [hpop] at hpopped
  simp only
  split
  · exact hpopped
  split
  · exact hpopped.send _
  · exact hpopped.sendAsk _
  unfold Mux.deliver
  split <;> exact hpopped

theorem onTraffic (h : ReadsAnswered m) (hinv : MuxInv m) (replies : List Reply)
    (horder : Runs.Meets (Mux.onReply outcome addr) (fun m reply => replyInOrder addr m reply) m
      replies)
    (hexpected : Runs.Meets (Mux.onReply outcome addr)
      (fun m reply => replyExpected addr m reply) m replies) :
    ReadsAnswered (m.onTraffic outcome addr replies) := by
  unfold Mux.onTraffic
  split
  · exact h
  have hboth : ReplyInv (replies.foldl (Mux.onReply outcome addr) m) :=
    (horder.and hexpected).invariant (fun _ reply hm hok =>
      ⟨hm.inv.onReply reply hok.1, hm.reads.onReply hm.inv reply hok.2⟩) ⟨hinv, h⟩
  exact hboth.reads.flushBackendWrites

theorem exec (h : ReadsAnswered m) (hinv : MuxInv m) (event : MuxEvent)
    (horder : eventInOrder outcome m event) (hexpected : eventExpected outcome m event) :
    ReadsAnswered (m.exec outcome event) := by
  cases event with
  | send addr clientConn slotIdx req fanInIdx => exact h.send _
  | sendAsk addr clientConn slotIdx req fanInIdx => exact h.sendAsk _
  | flushBackendWrites => exact h.flushBackendWrites
  | onOpen addr isReplicaAddr =>
    simp only [Mux.exec]
    split
    · exact setConn (m := { m with
        registering := _, connAddr := _, nextConn := _, dialing := _ }) h ⟨rfl, Nat.zero_le _⟩
    · exact h
  | dialFailed addr err =>
    simp only [Mux.exec]
    split <;> exact h
  | onTraffic conn replies =>
    simp only [Mux.exec]
    split
    · exact h
    rename_i addr haddr
    exact h.onTraffic hinv replies (by simpa [eventInOrder, alongTraffic, haddr] using horder)
      (by simpa [eventExpected, alongTraffic, haddr] using hexpected)
  | onClose conn =>
    simp only [Mux.exec]
    split
    · exact h
    rename_i addr haddr
    obtain ⟨bc, hbc, -⟩ := (hinv.opened conn addr).mp haddr
    simp only [Mux.onClose, hbc]
    intro addr' bc' hbc'
    by_cases hsame : addr' = addr
    · subst hsame
      simp at hbc'
    · exact h addr' bc' (by simpa [Function.update_of_ne hsame] using hbc')
  | clientClose clientConn => exact h

end ReadsAnswered

/-- In every run in which ASK redirections overtake no unwritten commands, on every
open connection what is sent and not answered are the commands of the pending
requests, in order, and each reply has gone to the request whose command was sent
at its position. If the nodes reply once to each command, the `k`-th reply read is
the answer to the `k`-th command on the wire. -/
theorem replies_match_requests (outcome : ℕ → Bytes → DialOutcome) (events : List MuxEvent)
    (horder : Runs.Meets (Mux.exec outcome) (fun m event => eventInOrder outcome m event) {}
      events) :
    let m := Runs.run (Mux.exec outcome) {} events
    ∀ conn addr, m.connAddr conn = some addr → ∃ bc, m.conns addr = some bc ∧ bc.conn = conn ∧
      (bc.wire ++ bc.writeBuf).drop bc.answered.length =
        (bc.pending.drop bc.head).map PendingClientReq.command ∧
      (∀ (k : ℕ) req reply, bc.answered[k]? = some (req, reply) →
        (bc.wire ++ bc.writeBuf)[k]? = some req.command) ∧
      (Runs.Meets (Mux.exec outcome) (fun m event => eventExpected outcome m event) {} events →
        ∀ (k : ℕ) reply, bc.read[k]? = some reply →
          ∃ req, bc.answered[k]? = some (req, reply) ∧ bc.wire[k]? = some req.command) := by
  intro m conn addr hconn
  have hinv : MuxInv m := horder.invariant (fun _ event hm hok => hm.exec event hok) MuxInv.new
  obtain ⟨bc, hbc, hbcConn⟩ := (hinv.opened conn addr).mp hconn
  have hmatched := (hinv.conns addr bc hbc).matched
  have hanswered : ∀ (k : ℕ) req reply, bc.answered[k]? = some (req, reply) →
      (bc.wire ++ bc.writeBuf)[k]? = some req.command := by
    intro k req reply hk
    exact hmatched.getElem?_answered (by simp [BackendMuxConn.toPipe, hk])
  refine ⟨bc, hbc, hbcConn, ?_, hanswered, fun hexpected k reply hk => ?_⟩
  · simpa [BackendMuxConn.toPipe] using hmatched.drop_answered
  have hboth : ReplyInv m := (horder.and hexpected).invariant (fun _ event hm hok =>
    ⟨hm.inv.exec event hok.1, hm.reads.exec hm.inv event hok.1 hok.2⟩)
    ⟨MuxInv.new, fun _ _ h => by simp at h⟩
  obtain ⟨hread, hwire⟩ := hboth.reads addr bc hbc
  rw [hread, List.getElem?_map, Option.map_eq_some_iff] at hk
  obtain ⟨⟨req, _⟩, hentry, rfl⟩ := hk
  have hlt := (List.getElem?_eq_some_iff.mp hentry).1
  refine ⟨req, hentry, ?_⟩
  rw [← List.getElem?_append_left (by omega)]
  exact hanswered k req _ hentry

/-- A GET of one key. -/
private def getReq (key : String) : Request := { args := [bytes "GET", bytes key] }

/-- Two requests wait at node `A`. One read brings a MOVED for the first and an ASK for
the second, both to the open node `B`. -/
def movedThenAsk : List MuxEvent :=
  [.send (bytes "A") 1 0 (getReq "x") none, .send (bytes "A") 1 1 (getReq "y") none,
    .onOpen (bytes "A") false, .send (bytes "B") 2 0 (getReq "z") none, .onOpen (bytes "B") false,
    .onTraffic 0 [⟨bytes "-MOVED 1 B\r\n", .moved, bytes "MOVED 1 B"⟩,
      ⟨bytes "-ASK 2 B\r\n", .ask, bytes "ASK 2 B"⟩]]

/-- After that read the commands on the connection to `B` are in another order than its
pending requests, and the reply to ASKING goes to the client as the value of `x`. -/
theorem movedThenAsk_mismatch :
    let registered := fun _ _ => DialOutcome.registered
    let m := Runs.run (Mux.exec registered) {} movedThenAsk
    (∃ bc, m.connAddr 1 = some (bytes "B") ∧ m.conns (bytes "B") = some bc ∧ bc.conn = 1 ∧
      (bc.wire ++ bc.writeBuf).drop bc.answered.length ≠
        (bc.pending.drop bc.head).map PendingClientReq.command) ∧
      (m.exec registered (.onTraffic 1 [⟨bytes "$-1\r\n", .none, []⟩,
        ⟨bytes "+OK\r\n", .none, []⟩])).delivered =
        [(2, .response 0 (bytes "$-1\r\n")), (1, .response 0 (bytes "+OK\r\n"))] := by
  refine ⟨⟨_, rfl, rfl, rfl, by decide +kernel⟩, rfl⟩

/-- The same redirections in two reads meet the condition. -/
theorem replies_match_requests_two_reads :
    let registered := fun _ _ => DialOutcome.registered
    let events : List MuxEvent :=
      [.send (bytes "A") 1 0 (getReq "x") none, .send (bytes "A") 1 1 (getReq "y") none,
        .onOpen (bytes "A") false, .send (bytes "B") 2 0 (getReq "z") none,
        .onOpen (bytes "B") true,
        .onTraffic 0 [⟨bytes "-MOVED 1 B\r\n", .moved, bytes "MOVED 1 B"⟩],
        .onTraffic 0 [⟨bytes "-ASK 2 B\r\n", .ask, bytes "ASK 2 B"⟩]]
    ∃ bc, (Runs.run (Mux.exec registered) {} events).conns (bytes "B") = some bc ∧
      (bc.wire ++ bc.writeBuf).drop bc.answered.length =
        (bc.pending.drop bc.head).map PendingClientReq.command := by
  intro registered events
  obtain ⟨bc, hbc, -, hmatched, -⟩ :=
    replies_match_requests registered events (by decide +kernel) 1 (bytes "B") rfl
  exact ⟨bc, hbc, hmatched⟩

end Pluster.Engine
