import Pluster.Engine.MuxOrder
import Pluster.Lib.Tally

/-!
# The multiplexer conserves its requests

Every request handed to the multiplexer is in one queue or on one connection until it
is completed, by one reply or by one error fill, and it is sent again only when a MOVED
or ASK reply was read at the position at which it was sent before.

Requests are told apart by what they complete: a slot of a client, or a part of a
fan-in slot.
-/

namespace Pluster.Engine

open Proto Mux Function

variable {m' m : Mux} {bc bc' : BackendMuxConn} {reqs : List PendingClientReq} {wire : List Bytes}
  {req : PendingClientReq} {addr : Bytes} {outcome : ℕ → Bytes → DialOutcome} {conn : ℕ}

/-- What a request completes: its slot, or its part of a fan-in slot. -/
structure Target where
  client : ℕ
  slot : ℤ
  part : Option ℕ
  deriving DecidableEq

namespace PendingClientReq

def target (req : PendingClientReq) : Target :=
  ⟨req.clientConn, req.slotIdx, if req.fanIn then some req.fanInIdx else none⟩

/-- The entry is the request of a client for the target, and not a sentinel. -/
def Owns (req : PendingClientReq) (t : Target) : Prop := req.skipReply = false ∧ req.target = t

instance (req : PendingClientReq) (t : Target) : Decidable (req.Owns t) :=
  inferInstanceAs (Decidable (_ ∧ _))

end PendingClientReq

/-- An error fill completes a whole slot. -/
def FillTask.target (task : FillTask) : Target := ⟨task.clientConn, task.slotIdx, none⟩

def Accum.target (client : ℕ) : Accum → Target
  | .response slot _ => ⟨client, slot, none⟩
  | .part slot idx _ => ⟨client, slot, some idx⟩

/-- A position on the wire of a connection. -/
structure Position where
  conn : ℕ
  index : ℕ
  deriving DecidableEq

/-- What happens to the request for a target. -/
inductive Action
  /-- Its command is the one at a position on the wire. -/
  | written (pos : Position)
  /-- The reply at a position, a MOVED or an ASK, is read for it and followed. -/
  | redirected (pos : Position)
  deriving DecidableEq

/-- A request is written, and written again only after a redirection that answers the
command written last. -/
def Alternates : List Action → Prop
  | [] => True
  | [.written _] => True
  | .written pos :: .redirected reply :: rest => reply = pos ∧ Alternates rest
  | _ => False

instance decidableAlternates : ∀ trace, Decidable (Alternates trace)
  | [] => inferInstanceAs (Decidable True)
  | [.written _] => inferInstanceAs (Decidable True)
  | .written _ :: .redirected _ :: rest =>
    have := decidableAlternates rest
    inferInstanceAs (Decidable (_ ∧ _))
  | .written _ :: .written _ :: _ => inferInstanceAs (Decidable False)
  | .redirected _ :: _ => inferInstanceAs (Decidable False)

namespace Mux

/-- The requests on a connection without a reply. -/
def unanswered (m : Mux) (addr : Bytes) : List PendingClientReq :=
  match m.conns addr with
  | none => []
  | some bc => bc.pending.drop bc.head

/-- The number of times that an address holds the request for a target, in its queue or
on its connection. -/
def held (m : Mux) (t : Target) (addr : Bytes) : ℕ :=
  (m.dialing addr).countP (·.Owns t) + (m.unanswered addr).countP (·.Owns t)

/-- The number of error fills and replies for a target. -/
def completed (m : Mux) (t : Target) : ℕ :=
  m.tasks.countP (·.target = t) + m.delivered.countP fun d => d.2.target d.1 = t

/-! ### What a run does with a request -/

/-- The position of a command that `send` puts on the connection to an address: behind what
is written and buffered. -/
def noteSend (m : Mux) (addr : Bytes) : List Action :=
  match m.conns addr with
  | none => []
  | some bc => [.written ⟨bc.conn, bc.wire.length + bc.writeBuf.length⟩]

/-- The position of a command that `sendAsk` writes: behind ASKING. -/
def noteAsk (m : Mux) (addr : Bytes) : List Action :=
  match m.conns addr with
  | none => []
  | some bc => [.written ⟨bc.conn, bc.wire.length + 1⟩]

/-- The positions of the requests that `onOpen` writes. -/
def noteOpen (t : Target) (conn : ℕ) (pending : List PendingClientReq) : List Action :=
  pending.zipIdx.filterMap fun entry =>
    if entry.1.Owns t then some (.written ⟨conn, entry.2⟩) else none

/-- What a reply does with the request for a target. -/
def noteReply (t : Target) (addr : Bytes) (m : Mux) (trace : List Action) (reply : Reply) :
    List Action :=
  match m.conns addr with
  | none => trace
  | some bc =>
    match bc.pending[bc.head]? with
    | none => trace
    | some req =>
      if req.Owns t then
        match route req reply with
        | .moved newAddr =>
          trace ++ [.redirected ⟨bc.conn, bc.read.length⟩] ++ m.noteSend newAddr
        | .ask newAddr =>
          trace ++ [.redirected ⟨bc.conn, bc.read.length⟩] ++ m.noteAsk newAddr
        | .deliver => trace
      else trace

/-- What an event does with the request for a target. -/
def note (outcome : ℕ → Bytes → DialOutcome) (t : Target) (m : Mux) (trace : List Action) :
    MuxEvent → List Action
  | .send addr clientConn slotIdx req fanInIdx =>
    if (clientReq clientConn slotIdx req fanInIdx).target = t then trace ++ m.noteSend addr
    else trace
  | .sendAsk addr clientConn slotIdx req fanInIdx =>
    if (clientReq clientConn slotIdx req fanInIdx).target = t then trace ++ m.noteAsk addr
    else trace
  | .onOpen addr isReplicaAddr =>
    if m.registering addr then
      let sentinels := if isReplicaAddr then readonlySentinel (m.dialing addr) else []
      trace ++ noteOpen t m.nextConn (sentinels ++ m.dialing addr)
    else trace
  | .onTraffic conn replies =>
    match m.connAddr conn with
    | none => trace
    | some addr =>
      (Runs.run (Runs.withLog (onReply outcome addr) (noteReply t addr)) (m, trace) replies).2
  | _ => trace

/-- The target of a request that an event hands to the multiplexer. -/
def handed : MuxEvent → Option Target
  | .send _ clientConn slotIdx req fanInIdx =>
    some (clientReq clientConn slotIdx req fanInIdx).target
  | .sendAsk _ clientConn slotIdx req fanInIdx =>
    some (clientReq clientConn slotIdx req fanInIdx).target
  | _ => none

/-- The state after a run and what the run has done with the request for a target. -/
def traced (outcome : ℕ → Bytes → DialOutcome) (t : Target) (events : List MuxEvent) :
    Mux × List Action :=
  Runs.run (Runs.withLog (Mux.exec outcome) (note outcome t)) ({}, []) events

end Mux

/-! ### The condition on a run -/

/-- If the request is a part of a fan-in, and it starts a dial, the dial does not fail at
once. -/
def dialKeepsPart (outcome : ℕ → Bytes → DialOutcome) (m : Mux) (addr : Bytes) (fanIn : Bool) :
    Bool :=
  match fanIn, m.conns addr, m.dialing addr, outcome m.dials addr with
  | true, none, [], .resolveError _ => false
  | true, none, [], .registerError _ => false
  | _, _, _, _ => true

/-- A redirection of a part of a fan-in does not fail at once. -/
def replyKeepsPart (outcome : ℕ → Bytes → DialOutcome) (addr : Bytes) (m : Mux) (reply : Reply) :
    Bool :=
  match (m.conns addr).bind fun bc => bc.pending[bc.head]? with
  | none => true
  | some req =>
    match route req reply with
    | .moved newAddr => dialKeepsPart outcome m newAddr req.fanIn
    | .ask newAddr => dialKeepsPart outcome m newAddr req.fanIn
    | .deliver => true

/-- A dial or a connection that fails has no part of a fan-in. -/
def eventKeepsParts (outcome : ℕ → Bytes → DialOutcome) (m : Mux) : MuxEvent → Bool
  | .send addr _ _ _ fanInIdx => dialKeepsPart outcome m addr fanInIdx.isSome
  | .sendAsk addr _ _ _ fanInIdx => dialKeepsPart outcome m addr fanInIdx.isSome
  | .dialFailed addr _ => (m.dialing addr).all fun req => !req.fanIn
  | .onTraffic conn replies => alongTraffic outcome (replyKeepsPart outcome) m conn replies
  | .onClose conn =>
    match m.connAddr conn with
    | none => true
    | some addr => (m.unanswered addr).all fun req => !req.fanIn
  | _ => true

/-- An event that conserves the requests. -/
def eventConserves (outcome : ℕ → Bytes → DialOutcome) (m : Mux) (event : MuxEvent) : Bool :=
  eventInOrder outcome m event && eventExpected outcome m event && eventKeepsParts outcome m event

/-! ### Traces -/

/-- The trace of a request that was redirected from each of the positions. -/
def resent (ps : List Position) : List Action :=
  ps.flatMap fun pos => [.written pos, .redirected pos]

theorem alternates_resent_append (ps : List Position) (rest : List Action) (h : Alternates rest) :
    Alternates (resent ps ++ rest) := by
  induction ps with
  | nil => exact h
  | cons pos ps ih => exact ⟨rfl, ih⟩

theorem resent_append (ps : List Position) (pos : Position) :
    resent ps ++ [.written pos] ++ [.redirected pos] = resent (ps ++ [pos]) ++ [] := by
  simp [resent]

/-- A request with its place: a queue, or a position on the wire of a connection. -/
abbrev Entry := Option Position × PendingClientReq

variable {trace extra : List Action} {entry : Entry} {t : Target}

/-- Requests on a connection, from a position on. -/
def place (conn first : ℕ) (reqs : List PendingClientReq) : List Entry :=
  (reqs.zipIdx first).map fun entry => (some ⟨conn, entry.2⟩, entry.1)

/-- The requests on a connection without a reply, in their places. -/
def BackendMuxConn.entries (bc : BackendMuxConn) : List Entry :=
  place bc.conn bc.answered.length (bc.pending.drop bc.head)

/-- The requests that an address holds, in their places. -/
def Mux.entries (m : Mux) (addr : Bytes) : List Entry :=
  (m.dialing addr).map (none, ·) ++ (m.conns addr).elim [] BackendMuxConn.entries

/-- The trace of a request fits its place. -/
def FitsPlace (trace : List Action) (entry : Entry) : Prop :=
  ∃ ps, trace = resent ps ++ (entry.1.map Action.written).toList ∧ ps.length = entry.2.depth ∧
    entry.2.depth ≤ maxMuxRedirects

/-- The trace has at most as many redirections as are followed. -/
def Shaped (trace : List Action) : Prop :=
  ∃ (ps : List Position) (pos : Option Position), ps.length ≤ maxMuxRedirects ∧
    trace = resent ps ++ (pos.map Action.written).toList

theorem FitsPlace.shaped (h : FitsPlace trace entry) : Shaped trace := by
  obtain ⟨ps, htrace, hlength, hdepth⟩ := h
  exact ⟨ps, entry.1, hlength.trans_le hdepth, htrace⟩

/-- The request for a target is accounted for `n` times, and its trace fits its place. -/
structure Tracked (t : Target) (n : ℕ) (trace : List Action) (m : Mux) : Prop where
  finite : (support (m.held t)).Finite
  le : ∑ᶠ addr, m.held t addr + m.completed t ≤ n
  eq : t.client ∉ m.closedClients → ∑ᶠ addr, m.held t addr + m.completed t = n
  fits : ∀ addr, ∀ entry ∈ m.entries addr, entry.2.Owns t → FitsPlace trace entry
  shape : Shaped trace

section Entries

variable {t : Target} {m m' : Mux} {addr : Bytes} {conn first : ℕ} {reqs more : List PendingClientReq}
  {entry : Entry}

theorem mem_of_mem_place (h : entry ∈ place conn first reqs) : entry.2 ∈ reqs := by
  obtain ⟨indexed, hindexed, rfl⟩ := List.mem_map.mp h
  exact List.fst_mem_of_mem_zipIdx hindexed

theorem place_append :
    place conn first (reqs ++ more) = place conn first reqs ++ place conn (first + reqs.length) more := by
  rw [place, List.zipIdx_append, List.map_append]
  rfl

theorem countP_place : (place conn first reqs).countP (·.2.Owns t) = reqs.countP (·.Owns t) := by
  rw [place, List.countP_map]
  conv_rhs => rw [← List.zipIdx_map_fst first reqs, List.countP_map]
  rfl

theorem held_eq_countP (m : Mux) (addr : Bytes) :
    m.held t addr = (m.entries addr).countP (·.2.Owns t) := by
  rw [held, unanswered, Mux.entries, List.countP_append, List.countP_map]
  congr 1
  cases m.conns addr with
  | none => rfl
  | some bc => exact countP_place.symm

theorem entries_congr (hdialing : m'.dialing addr = m.dialing addr)
    (hconns : m'.conns addr = m.conns addr) : m'.entries addr = m.entries addr := by
  rw [Mux.entries, Mux.entries, hdialing, hconns]

end Entries

namespace Tracked

variable {t : Target} {n : ℕ} {trace : List Action} {m : Mux}
  {outcome : ℕ → Bytes → DialOutcome} {addr : Bytes}

theorem new (t : Target) : Tracked t 0 [] {} where
  finite := Tally.finite_support_zero
  le := by simp [held, unanswered, completed]
  eq _ := by simp [held, unanswered, completed]
  fits addr entry hentry := by cases hentry
  shape := ⟨[], none, Nat.zero_le _, rfl⟩

/-- An address loses some requests and gets others, and the total changes with them. -/
theorem change (h : Tracked t n trace m) {n' : ℕ} (addr : Bytes) (removed added : List Entry)
    (hothers : ∀ a, a ≠ addr → m'.entries a = m.entries a)
    (hperm : (m.entries addr ++ added).Perm (m'.entries addr ++ removed))
    (hclosed : m'.closedClients = m.closedClients)
    (hle : n + added.countP (·.2.Owns t) + m'.completed t ≤
      n' + removed.countP (·.2.Owns t) + m.completed t)
    (heq : t.client ∉ m.closedClients → n + added.countP (·.2.Owns t) + m'.completed t =
      n' + removed.countP (·.2.Owns t) + m.completed t)
    (hfits : ∀ entry ∈ added, entry.2.Owns t → FitsPlace trace entry) : Tracked t n' trace m' := by
  have hheld : m'.held t = update (m.held t) addr (m'.held t addr) := by
    funext a
    by_cases ha : a = addr
    · rw [ha, update_self]
    · rw [update_of_ne ha, held_eq_countP, held_eq_countP, hothers a ha]
  have htotal := Tally.finsum_update h.finite addr (m'.held t addr)
  have hcount := hperm.countP_eq (·.2.Owns t)
  rw [List.countP_append, List.countP_append, ← held_eq_countP, ← held_eq_countP] at hcount
  rw [← hheld] at htotal
  refine ⟨?_, ?_, fun hopen => ?_, fun a entry hentry howns => ?_, h.shape⟩
  · rw [hheld]
    exact Tally.finite_support_update h.finite _ _
  · have := h.le
    omega
  · rw [hclosed] at hopen
    have := h.eq hopen
    have := heq hopen
    omega
  · by_cases ha : a = addr
    · subst ha
      rcases List.mem_append.mp (hperm.mem_iff.mpr (List.mem_append_left _ hentry)) with h' | h'
      · exact h.fits a entry h' howns
      · exact hfits entry h' howns
    · exact h.fits a entry (hothers a ha ▸ hentry) howns

/-- Nothing changes but what no request depends on. -/
theorem congr (h : Tracked t n trace m) (hentries : ∀ a, m'.entries a = m.entries a)
    (hclosed : m'.closedClients = m.closedClients) (htasks : m'.tasks = m.tasks)
    (hdelivered : m'.delivered = m.delivered) : Tracked t n trace m' := by
  have hcompleted : m'.completed t = m.completed t := by
    rw [completed, completed, htasks, hdelivered]
  refine h.change [] [] [] (fun a _ => hentries a) ?_ hclosed (by rw [hcompleted])
    (fun _ => by rw [hcompleted]) (by simp)
  rw [hentries]

/-- Nothing is held if nothing is accounted for. -/
theorem not_owns (h : Tracked t 0 trace m) (hentry : entry ∈ m.entries addr) :
    ¬ entry.2.Owns t := by
  have hheld : m.held t addr = 0 := by
    have := Tally.le_finsum h.finite addr
    have := h.le
    omega
  rw [held_eq_countP, List.countP_eq_zero] at hheld
  simpa using hheld entry hentry

/-- While a request is on its way from one place to another, its trace can grow. -/
theorem retrace (h : Tracked t 0 trace m) {trace' : List Action} (hshape : Shaped trace') :
    Tracked t 0 trace' m :=
  { h with
    fits := fun _ _ hentry howns => absurd howns (h.not_owns hentry)
    shape := hshape }

/-- Requests are put behind those of a connection. -/
theorem push (h : Tracked t n trace m) (hbc : m.conns addr = some bc)
    (hhead : bc.head ≤ bc.pending.length) {writeBuf : List Bytes}
    (hfits : ∀ entry ∈ place bc.conn (bc.answered.length + (bc.pending.drop bc.head).length) reqs,
      entry.2.Owns t → FitsPlace trace entry) :
    Tracked t (n + reqs.countP (·.Owns t)) trace
      (m.setConn addr { bc with pending := bc.pending ++ reqs, wire, writeBuf }) := by
  refine h.change addr [] _ (fun a ha => entries_congr rfl (update_of_ne ha _ _)) ?_ rfl ?_
    (fun _ => ?_) hfits
  · simp only [Mux.entries, Mux.setConn, update_self, hbc, Option.elim_some,
      BackendMuxConn.entries, List.drop_append_of_le_length hhead, place_append, List.append_assoc,
      List.append_nil, List.Perm.refl]
  · rw [countP_place]
    exact le_rfl
  · rw [countP_place]
    rfl

/-- Requests are put behind those of a queue. -/
theorem enqueue (h : Tracked t n trace m)
    (hdialing : m'.dialing = update m.dialing addr (m.dialing addr ++ reqs))
    (hconns : m'.conns = m.conns) (hclosed : m'.closedClients = m.closedClients)
    (htasks : m'.tasks = m.tasks) (hdelivered : m'.delivered = m.delivered)
    (hfits : ∀ req ∈ reqs, req.Owns t → FitsPlace trace (none, req)) :
    Tracked t (n + reqs.countP (·.Owns t)) trace m' := by
  have hcompleted : m'.completed t = m.completed t := by
    rw [completed, completed, htasks, hdelivered]
  have hcount : (reqs.map fun req => ((none, req) : Entry)).countP (·.2.Owns t) =
      reqs.countP (·.Owns t) := List.countP_map
  refine h.change addr [] (reqs.map (none, ·))
    (fun a ha => entries_congr (by rw [hdialing, update_of_ne ha]) (by rw [hconns])) ?_ hclosed ?_
    (fun _ => ?_) fun entry hentry howns => ?_
  · rw [Mux.entries, Mux.entries, hdialing, hconns, update_self, List.map_append, List.append_nil,
      List.append_assoc, List.append_assoc]
    exact List.perm_append_comm.append_left _
  iterate 2
    rw [hcount, hcompleted, List.countP_nil]
    omega
  obtain ⟨req, hreq, rfl⟩ := List.mem_map.mp hentry
  exact hfits req hreq howns

/-- The error fills of plain requests complete them, but for closed clients. -/
theorem countP_failTasks (hparts : ∀ req ∈ reqs, req.fanIn = false) (data : Bytes) :
    (m.failTasks reqs data).countP (·.target = t) =
      if t.client ∈ m.closedClients then 0 else reqs.countP (·.Owns t) := by
  rw [failTasks, List.countP_map, List.countP_filter]
  split
  · rename_i hclosed
    rw [List.countP_eq_zero]
    intro req hreq
    simp only [Function.comp, FillTask.target, Bool.and_eq_true, Bool.not_eq_true', not_and]
    intro htarget
    obtain rfl := of_decide_eq_true htarget
    intro _
    simpa using hclosed
  · rename_i hopen
    refine List.countP_congr fun req hreq => ?_
    simp only [Function.comp, FillTask.target, Bool.and_eq_true, decide_eq_true_eq,
      Bool.not_eq_true', PendingClientReq.Owns, PendingClientReq.target, hparts req hreq]
    constructor
    · rintro ⟨htarget, hskip, -⟩
      obtain rfl := of_decide_eq_true htarget
      exact ⟨hskip, by simp⟩
    rintro ⟨hskip, rfl⟩
    exact ⟨by simp, hskip, by simpa using hopen⟩

/-- The requests that an address loses fail. -/
theorem fail (h : Tracked t n trace m) (removed : List Entry) {data : Bytes}
    (hparts : ∀ req ∈ reqs, req.fanIn = false)
    (hothers : ∀ a, a ≠ addr → m'.entries a = m.entries a)
    (hperm : (m.entries addr).Perm (m'.entries addr ++ removed))
    (hcount : removed.countP (·.2.Owns t) = reqs.countP (·.Owns t))
    (hclosed : m'.closedClients = m.closedClients)
    (htasks : m'.tasks = m.tasks ++ m.failTasks reqs data)
    (hdelivered : m'.delivered = m.delivered) : Tracked t n trace m' := by
  have hcompleted : m'.completed t = m.completed t +
      if t.client ∈ m.closedClients then 0 else reqs.countP (·.Owns t) := by
    simp only [completed, htasks, hdelivered, List.countP_append, countP_failTasks hparts]
    omega
  refine h.change addr removed [] hothers (by rwa [List.append_nil]) hclosed ?_ (fun hopen => ?_)
    (by simp)
  · rw [hcount, List.countP_nil]
    split at hcompleted <;> omega
  · rw [if_neg hopen] at hcompleted
    rw [hcount, List.countP_nil]
    omega

theorem failDialing (h : Tracked t n trace m) (hparts : ∀ req ∈ m.dialing addr, req.fanIn = false)
    (err : Bytes) : Tracked t n trace (m.failDialing addr err) := by
  refine h.fail ((m.dialing addr).map (none, ·)) hparts
    (fun a ha => entries_congr (update_of_ne ha _ _) rfl) ?_ List.countP_map rfl rfl rfl
  simp only [Mux.entries, Mux.failDialing, update_self]
  exact List.perm_append_comm

theorem onClose (h : Tracked t n trace m) (hparts : ∀ req ∈ m.unanswered addr, req.fanIn = false) :
    Tracked t n trace (m.onClose addr) := by
  unfold Mux.onClose
  cases hbc : m.conns addr with
  | none => exact h
  | some bc =>
    rw [unanswered, hbc] at hparts
    refine h.fail bc.entries hparts
      (fun a ha => entries_congr rfl (update_of_ne ha _ _)) ?_ countP_place rfl rfl rfl
    simp only [Mux.entries, update_self, hbc, Option.elim_none, Option.elim_some, List.append_nil,
      List.Perm.refl]

theorem deliver (h : Tracked t n trace m) (hskip : req.skipReply = false) (raw : Bytes) :
    Tracked t (n + if req.Owns t then 1 else 0) trace (m.deliver req raw) := by
  have howns : req.Owns t ↔ req.target = t := ⟨And.right, fun htarget => ⟨hskip, htarget⟩⟩
  have hentries : ∀ a, (m.deliver req raw).entries a = m.entries a := by
    intro a
    unfold Mux.deliver
    split <;> rfl
  have hclosed : (m.deliver req raw).closedClients = m.closedClients := by
    unfold Mux.deliver
    split <;> rfl
  have hcompleted : (m.deliver req raw).completed t = m.completed t +
      if req.clientConn ∈ m.closedClients then 0 else if req.Owns t then 1 else 0 := by
    unfold Mux.deliver
    by_cases hclosed : req.clientConn ∈ m.closedClients
    · rw [if_pos (List.contains_iff_mem.mpr hclosed), if_pos hclosed, Nat.add_zero]
    have haccum : (if req.fanIn then Accum.part req.slotIdx req.fanInIdx raw
        else .response req.slotIdx raw).target req.clientConn = req.target := by
      unfold PendingClientReq.target
      split <;> rfl
    rw [if_neg fun h => hclosed (List.contains_iff_mem.mp h), if_neg hclosed]
    simp only [completed, List.countP_append, List.countP_singleton, haccum, howns,
      decide_eq_true_eq]
    omega
  refine h.change [] [] [] (fun a _ => hentries a) (by rw [hentries]) hclosed ?_ (fun hopen => ?_)
    (by simp)
  · split at hcompleted <;> omega
  · by_cases hreq : req.Owns t
    · rw [if_neg (by rwa [← howns.mp hreq] at hopen)] at hcompleted
      omega
    · rw [if_neg hreq, ite_self] at hcompleted
      rw [if_neg hreq]
      omega

/-- The first request of a connection is taken off it. -/
theorem pop (h : Tracked t n trace m) (hbc : m.conns addr = some bc)
    (hentries : bc.entries = (some ⟨bc.conn, bc.answered.length⟩, req) :: bc'.entries) :
    (∃ n', n = n' + (if req.Owns t then 1 else 0) ∧ Tracked t n' trace (m.setConn addr bc')) ∧
      (req.Owns t → FitsPlace trace (some ⟨bc.conn, bc.answered.length⟩, req)) := by
  have hmem : m.entries addr = (m.dialing addr).map (none, ·) ++
      (some ⟨bc.conn, bc.answered.length⟩, req) :: bc'.entries := by
    rw [Mux.entries, hbc, Option.elim_some, hentries]
  have hone : (if req.Owns t then 1 else 0) ≤ n := by
    have hheld := held_eq_countP (t := t) m addr
    have := Tally.le_finsum h.finite addr
    have := h.le
    rw [hmem, List.countP_append, List.countP_cons] at hheld
    simp only [decide_eq_true_eq] at hheld
    omega
  refine ⟨⟨n - if req.Owns t then 1 else 0, (Nat.sub_add_cancel hone).symm, ?_⟩, fun howns => ?_⟩
  · refine h.change addr [(some ⟨bc.conn, bc.answered.length⟩, req)] []
      (fun a ha => entries_congr rfl (update_of_ne ha _ _)) ?_ rfl ?_ (fun _ => ?_) (by simp)
    · rw [hmem, List.append_nil]
      simp only [Mux.entries, Mux.setConn, update_self]
      exact List.perm_middle.trans (List.perm_append_singleton _ _).symm
    all_goals
      have hcompleted : (m.setConn addr bc').completed t = m.completed t := rfl
      simp only [List.countP_singleton, List.countP_nil, decide_eq_true_eq]
      omega
  · exact h.fits addr _ (hmem ▸ List.mem_append_right _ List.mem_cons_self) howns

theorem enqueueDial (h : Tracked t n trace m)
    (hfits : ∀ req ∈ reqs, req.Owns t → FitsPlace trace (none, req))
    (hkeeps : m.dialing addr = [] → (∃ err, outcome m.dials addr = .resolveError err) ∨
      (∃ err, outcome m.dials addr = .registerError err) → ∀ req ∈ reqs, req.fanIn = false) :
    Tracked t (n + reqs.countP (·.Owns t)) trace (m.enqueueDial outcome addr reqs) := by
  unfold Mux.enqueueDial
  split
  · rename_i hempty
    have hqueue : update m.dialing addr (m.dialing addr ++ reqs) addr = reqs := by
      rw [update_self, hempty, List.nil_append]
    have hqueued : Tracked t (n + reqs.countP (·.Owns t)) trace { m with
        dialing := update m.dialing addr (m.dialing addr ++ reqs), dials := m.dials + 1 } :=
      h.enqueue rfl rfl rfl rfl rfl hfits
    simp only [dialBackend]
    split
    · exact h.enqueue rfl rfl rfl rfl rfl hfits
    · rename_i err herr
      refine hqueued.failDialing (fun req hreq => ?_) _
      exact hkeeps hempty (Or.inl ⟨err, herr⟩) req (hqueue ▸ hreq)
    rename_i err herr
    refine hqueued.failDialing (fun req hreq => ?_) _
    exact hkeeps hempty (Or.inr ⟨err, herr⟩) req (hqueue ▸ hreq)
  · exact h.enqueue rfl rfl rfl rfl rfl hfits

theorem fails_of_dialKeepsPart {fanIn : Bool} (hkeeps : dialKeepsPart outcome m addr fanIn)
    (hnone : m.conns addr = none) (hempty : m.dialing addr = [])
    (hfails : (∃ err, outcome m.dials addr = .resolveError err) ∨
      ∃ err, outcome m.dials addr = .registerError err) : fanIn = false := by
  cases fanIn with
  | false => rfl
  | true => rcases hfails with ⟨err, herr⟩ | ⟨err, herr⟩ <;>
      simp [dialKeepsPart, hnone, hempty, herr] at hkeeps

/-- A request is put behind sentinels: one that is on its way, or that of another target. -/
theorem put (h : Tracked t n trace m) (hinv : MuxInv m) (sentinels : List PendingClientReq)
    (hsentinels : ∀ r ∈ sentinels, r.skipReply = true ∧ r.fanIn = false)
    (hkeeps : dialKeepsPart outcome m addr req.fanIn)
    (hready : req.Owns t → n = 0 ∧ FitsPlace trace (none, req)) (hnone : m.conns addr = none →
      m' = m.enqueueDial outcome addr (sentinels ++ [req]) ∧ extra = [])
    (hsome : ∀ bc, m.conns addr = some bc → ∃ wire writeBuf,
      m' = m.setConn addr { bc with pending := bc.pending ++ (sentinels ++ [req]), wire, writeBuf } ∧
      extra = [.written ⟨bc.conn, bc.answered.length + (bc.pending.drop bc.head).length +
        sentinels.length⟩]) :
    Tracked t (n + if req.Owns t then 1 else 0) (if req.Owns t then trace ++ extra else trace)
      m' := by
  have hskip : ∀ r ∈ sentinels, ¬ r.Owns t := fun r hr howns => by
    cases (hsentinels r hr).1.symm.trans howns.1
  have hcount : (sentinels ++ [req]).countP (·.Owns t) = if req.Owns t then 1 else 0 := by
    have hzero : sentinels.countP (·.Owns t) = 0 :=
      List.countP_eq_zero.mpr fun r hr => by simpa using hskip r hr
    rw [List.countP_append, hzero, List.countP_singleton, Nat.zero_add]
    simp only [decide_eq_true_eq]
  rw [← hcount]
  cases hbc : m.conns addr with
  | none =>
    obtain ⟨rfl, rfl⟩ := hnone hbc
    rw [List.append_nil, ite_self]
    refine h.enqueueDial (fun r hr howns => ?_) fun hempty hfails r hr => ?_
    all_goals rcases List.mem_append.mp hr with hr | hr
    · exact absurd howns (hskip r hr)
    · rw [List.mem_singleton.mp hr] at howns ⊢
      exact (hready howns).2
    · exact (hsentinels r hr).2
    · rw [List.mem_singleton.mp hr]
      exact fails_of_dialKeepsPart hkeeps hbc hempty hfails
  | some bc =>
    obtain ⟨wire, writeBuf, rfl, rfl⟩ := hsome bc hbc
    have hplace : ∀ {tr}, (req.Owns t → FitsPlace tr (some ⟨bc.conn, bc.answered.length +
        (bc.pending.drop bc.head).length + sentinels.length⟩, req)) →
        ∀ entry ∈ place bc.conn (bc.answered.length + (bc.pending.drop bc.head).length)
          (sentinels ++ [req]), entry.2.Owns t → FitsPlace tr entry := by
      intro tr hreq entry hentry howns
      rw [place_append, List.mem_append] at hentry
      rcases hentry with hentry | hentry
      · exact absurd howns (hskip _ (mem_of_mem_place hentry))
      · obtain rfl := List.mem_singleton.mp hentry
        exact hreq howns
    have hhead := (hinv.conns addr bc hbc).head_le
    by_cases howns : req.Owns t
    · obtain ⟨rfl, ps, rfl, hlength, hdepth⟩ := hready howns
      rw [if_pos howns]
      have hfits : FitsPlace _ (some ⟨bc.conn, bc.answered.length + (bc.pending.drop bc.head).length +
          sentinels.length⟩, req) := ⟨ps, congrArg (· ++ _) (List.append_nil _), hlength, hdepth⟩
      exact push (h.retrace hfits.shaped) hbc hhead (hplace fun _ => hfits)
    · rw [if_neg howns]
      exact h.push hbc hhead (hplace fun h' => absurd h' howns)

/-- A request is sent. -/
theorem send (h : Tracked t n trace m) (hinv : MuxInv m)
    (hkeeps : dialKeepsPart outcome m addr req.fanIn)
    (hready : req.Owns t → n = 0 ∧ FitsPlace trace (none, req)) :
    Tracked t (n + if req.Owns t then 1 else 0)
      (if req.Owns t then trace ++ m.noteSend addr else trace) (m.send outcome addr req) := by
  refine h.put hinv [] (by simp) hkeeps hready (fun hbc => ?_) fun bc hbc => ?_
  · simp [Mux.send, noteSend, hbc]
  · have hpos := (hinv.conns addr bc hbc).matched.length
    simp only [BackendMuxConn.toPipe, List.length_map] at hpos
    refine ⟨bc.wire, bc.writeBuf ++ (req.req.map rawBytes).toList, ?_, ?_⟩
    · simp [Mux.send, hbc]
    · simp [noteSend, hbc, hpos]

/-- The same behind ASKING, if nothing is buffered. -/
theorem sendAsk (h : Tracked t n trace m) (hinv : MuxInv m) (horder : askInOrder m addr)
    (hkeeps : dialKeepsPart outcome m addr req.fanIn)
    (hready : req.Owns t → n = 0 ∧ FitsPlace trace (none, req)) :
    Tracked t (n + if req.Owns t then 1 else 0)
      (if req.Owns t then trace ++ m.noteAsk addr else trace) (m.sendAsk outcome addr req) := by
  let skip : PendingClientReq := { clientConn := req.clientConn, slotIdx := req.slotIdx,
                                   depth := req.depth, req := req.req, skipReply := true,
                                   isAskSentinel := true }
  refine h.put hinv [skip] (by simp [skip]) hkeeps hready (fun hbc => ?_) fun bc hbc => ?_
  · simp [Mux.sendAsk, noteAsk, hbc, skip]
  · have hbuf : bc.writeBuf = [] := by simpa [askInOrder, hbc] using horder
    have hpos := (hinv.conns addr bc hbc).matched.length
    simp only [BackendMuxConn.toPipe, List.length_map, hbuf, List.length_nil] at hpos
    refine ⟨bc.wire ++ [askingBytes] ++ (req.req.map rawBytes).toList, bc.writeBuf, ?_, ?_⟩
    · simp [Mux.sendAsk, hbc, skip]
    · simp only [noteAsk, hbc, List.length_singleton, ← hpos, Nat.add_zero]

end Tracked

/-- All invariants of a run of the multiplexer, with the request for a target. -/
structure Accounted (t : Target) (n : ℕ) (st : Mux × List Action) : Prop where
  replies : ReplyInv st.1
  tracked : Tracked t n st.2 st.1

/-! ### Replies -/

theorem popPending_entries (reply : Reply) (hfirst : bc.pending[bc.head]? = some req) :
    bc.entries = (some ⟨bc.conn, bc.answered.length⟩, req) :: (popPending bc reply).1.entries := by
  obtain ⟨hlt, hget⟩ := List.getElem?_eq_some_iff.mp hfirst
  have hrest : (popPending bc reply).1.entries =
      place bc.conn (bc.answered.length + 1) (bc.pending.drop (bc.head + 1)) := by
    simp only [popPending, hfirst]
    split
    · rename_i hlast
      have hdrop : bc.pending.drop (bc.head + 1) = [] := List.drop_of_length_le (by omega)
      rw [hdrop]
      rfl
    · simp [BackendMuxConn.entries]
  rw [hrest, BackendMuxConn.entries, List.drop_eq_getElem_cons hlt, hget]
  rfl

/-- Taking a request off a connection changes nothing that a later send depends on. -/
theorem noteSend_setConn (hbc : m.conns addr = some bc) (hconn : bc'.conn = bc.conn)
    (hwire : bc'.wire = bc.wire) (hbuf : bc'.writeBuf = bc.writeBuf) (newAddr : Bytes) :
    (m.setConn addr bc').noteSend newAddr = m.noteSend newAddr ∧
      (m.setConn addr bc').noteAsk newAddr = m.noteAsk newAddr := by
  unfold noteSend noteAsk
  by_cases haddr : newAddr = addr
  · subst haddr
    simp [Mux.setConn, hbc, hconn, hwire, hbuf]
  · simp [Mux.setConn, update_of_ne haddr]

theorem dialKeepsPart_setConn (hbc : m.conns addr = some bc) (bc' : BackendMuxConn)
    (newAddr : Bytes) (fanIn : Bool) :
    dialKeepsPart outcome (m.setConn addr bc') newAddr fanIn =
      dialKeepsPart outcome m newAddr fanIn := by
  unfold dialKeepsPart
  by_cases haddr : newAddr = addr
  · subst haddr
    simp [Mux.setConn, hbc]
  · simp [Mux.setConn, update_of_ne haddr]

theorem askInOrder_setConn (hbc : m.conns addr = some bc) (hbuf : bc'.writeBuf = bc.writeBuf)
    (newAddr : Bytes) : askInOrder (m.setConn addr bc') newAddr = askInOrder m newAddr := by
  unfold askInOrder
  by_cases haddr : newAddr = addr
  · subst haddr
    simp [Mux.setConn, hbc, hbuf]
  · simp [Mux.setConn, update_of_ne haddr]

/-- A reply that finds a request. -/
theorem onReply_of_some (hbc : m.conns addr = some bc) (hfirst : bc.pending[bc.head]? = some req)
    (reply : Reply) :
    Mux.onReply outcome addr m reply =
      if req.skipReply then m.setConn addr (popPending bc reply).1
      else
        match route req reply with
        | .moved newAddr =>
          (m.setConn addr (popPending bc reply).1).send outcome newAddr (redirected req)
        | .ask newAddr =>
          (m.setConn addr (popPending bc reply).1).sendAsk outcome newAddr (redirected req)
        | .deliver => (m.setConn addr (popPending bc reply).1).deliver req reply.raw := by
  have hsnd := popPending_snd bc reply
  rw [hfirst] at hsnd
  rw [Mux.onReply, hbc]
  rcases hpop : popPending bc reply with ⟨bc', popped⟩
  rw [hpop] at hsnd
  cases hsnd
  cases hroute : route req reply <;> simp only [hpop, hroute]

theorem popPending_wire (bc : BackendMuxConn) (reply : Reply) :
    (popPending bc reply).1.wire = bc.wire := by
  simp only [popPending]
  split
  · rfl
  · split <;> rfl

theorem depth_lt_of_route {reply : Reply} (h : ¬ route req reply = .deliver) :
    req.depth < maxMuxRedirects := by
  by_contra hge
  exact h (by rw [route, if_pos (by omega)])

namespace Tracked

variable {t : Target} {n : ℕ} {trace : List Action} {m : Mux}
  {outcome : ℕ → Bytes → DialOutcome} {addr : Bytes}

/-- A request that was taken off its connection for a redirection is sent again. -/
theorem resend {k : ℕ} (h : Tracked t k trace m) {pos : Position} (hskip : req.skipReply = false)
    (hsent : req.Owns t → FitsPlace trace (some pos, req)) (hdepth : req.depth < maxMuxRedirects)
    (hk : k + (if req.Owns t then 1 else 0) ≤ 1) (hsend : ∀ k trace, Tracked t k trace m →
      ((redirected req).Owns t → k = 0 ∧ FitsPlace trace (none, redirected req)) →
      Tracked t (k + if (redirected req).Owns t then 1 else 0)
        (if (redirected req).Owns t then trace ++ extra else trace) m') :
    Tracked t (k + if req.Owns t then 1 else 0)
      (if req.Owns t then trace ++ [.redirected pos] ++ extra else trace) m' := by
  have howns_iff : (redirected req).Owns t ↔ req.Owns t :=
    ⟨fun howns => ⟨hskip, howns.2⟩, fun howns => ⟨rfl, howns.2⟩⟩
  simp only [howns_iff] at hsend
  by_cases howns : req.Owns t
  · simp only [if_pos howns] at hk hsend ⊢
    obtain rfl : k = 0 := by omega
    obtain ⟨ps, rfl, hlength, -⟩ := hsent howns
    have hps : (ps ++ [pos]).length = req.depth + 1 := by
      rw [List.length_append, hlength]
      rfl
    have hfits : FitsPlace _ (none, redirected req) := ⟨ps ++ [pos], resent_append ps pos, hps, hdepth⟩
    exact hsend 0 _ (h.retrace hfits.shaped) fun _ => ⟨rfl, hfits⟩
  · simp only [if_neg howns] at hsend ⊢
    exact hsend k trace h fun h' => absurd h' howns

theorem onReply (h : Tracked t n trace m) (hn : n ≤ 1) (hinv : ReplyInv m) (reply : Reply)
    (horder : replyInOrder addr m reply) (hkeeps : replyKeepsPart outcome addr m reply) :
    Tracked t n (noteReply t addr m trace reply) (Mux.onReply outcome addr m reply) := by
  cases hbc : m.conns addr with
  | none => simpa [Mux.onReply, noteReply, hbc] using h
  | some bc =>
    cases hfirst : bc.pending[bc.head]? with
    | none =>
      simp only [Mux.onReply, noteReply, hbc, popPending, hfirst]
      refine h.congr (fun a => ?_) rfl rfl rfl
      by_cases ha : a = addr
      · subst ha
        simp [Mux.entries, Mux.setConn, hbc, BackendMuxConn.entries]
      · exact entries_congr rfl (update_of_ne ha _ _)
    | some req =>
      rw [onReply_of_some hbc hfirst]
      simp only [noteReply, hbc, hfirst]
      have hread : bc.read.length = bc.answered.length := by
        rw [(hinv.reads addr bc hbc).1, List.length_map]
      have hinv' : MuxInv (m.setConn addr (popPending bc reply).1) :=
        hinv.inv.setConn hbc (popPending_conn bc reply)
          ((hinv.inv.conns addr bc hbc).popPending reply)
      have hnotes := fun newAddr => noteSend_setConn hbc (popPending_conn bc reply)
        (popPending_wire bc reply) (popPending_writeBuf bc reply) newAddr
      obtain ⟨⟨k, rfl, hpop⟩, hsent⟩ := h.pop hbc (popPending_entries reply hfirst)
      by_cases hskip : req.skipReply = true
      · have hother : ¬ req.Owns t := fun howns => by
          rw [howns.1] at hskip
          cases hskip
        rw [if_pos hskip, if_neg hother, if_neg hother]
        exact hpop
      · have hfalse : req.skipReply = false := by simpa using hskip
        rw [if_neg hskip]
        cases hroute : route req reply with
        | deliver =>
          simp only [ite_self]
          exact hpop.deliver hfalse reply.raw
        | moved newAddr =>
          have hkeeps' : dialKeepsPart outcome (m.setConn addr (popPending bc reply).1) newAddr
              (redirected req).fanIn := by
            rw [dialKeepsPart_setConn hbc]
            simpa [replyKeepsPart, hbc, hfirst, hroute, redirected] using hkeeps
          simp only [hread, ← (hnotes newAddr).1]
          exact hpop.resend hfalse hsent (depth_lt_of_route (by rw [hroute]; simp)) hn
            fun _ _ h' hready => h'.send hinv' hkeeps' hready
        | ask newAddr =>
          have hkeeps' : dialKeepsPart outcome (m.setConn addr (popPending bc reply).1) newAddr
              (redirected req).fanIn := by
            rw [dialKeepsPart_setConn hbc]
            simpa [replyKeepsPart, hbc, hfirst, hroute, redirected] using hkeeps
          have horder' : askInOrder (m.setConn addr (popPending bc reply).1) newAddr := by
            rw [askInOrder_setConn hbc (popPending_writeBuf bc reply)]
            simpa [replyInOrder, hbc, hfirst, hfalse, hroute] using horder
          simp only [hread, ← (hnotes newAddr).2]
          exact hpop.resend hfalse hsent (depth_lt_of_route (by rw [hroute]; simp)) hn
            fun _ _ h' hready => h'.sendAsk hinv' horder' hkeeps' hready

theorem flushBackendWrites (h : Tracked t n trace m) : Tracked t n trace m.flushBackendWrites :=
  h.congr (fun a => by
    simp only [Mux.entries, Mux.flushBackendWrites]
    cases m.conns a <;> rfl) rfl rfl rfl

/-- The replies of one read. -/
theorem onTraffic (h : Tracked t n trace m) (hn : n ≤ 1) (hinv : ReplyInv m) (replies : List Reply)
    (horder : Runs.Meets (Mux.onReply outcome addr) (fun m reply => replyInOrder addr m reply) m
      replies)
    (hexpected : Runs.Meets (Mux.onReply outcome addr)
      (fun m reply => replyExpected addr m reply) m replies)
    (hkeeps : Runs.Meets (Mux.onReply outcome addr)
      (fun m reply => replyKeepsPart outcome addr m reply) m replies)
    (hopen : (m.conns addr).isSome) :
    Tracked t n (Runs.run (Runs.withLog (Mux.onReply outcome addr) (noteReply t addr)) (m, trace)
      replies).2 (m.onTraffic outcome addr replies) := by
  have hmeets := ((horder.and hexpected).and hkeeps).withLog (noteReply t addr) trace
  have hrun : Accounted t n (Runs.run (Runs.withLog (Mux.onReply outcome addr)
      (noteReply t addr)) (m, trace) replies) :=
    hmeets.invariant (fun st reply hst hok => by
      obtain ⟨⟨horder, hexpected⟩, hkeeps⟩ := hok
      exact ⟨⟨hst.replies.inv.onReply reply horder,
        hst.replies.reads.onReply hst.replies.inv reply hexpected⟩,
        hst.tracked.onReply hn hst.replies reply horder hkeeps⟩) ⟨hinv, h⟩
  have hstate := Runs.run_withLog_fst (Mux.onReply outcome addr) (noteReply t addr) (m, trace)
    replies
  unfold Mux.onTraffic
  split
  · rename_i hnone
    rw [hnone] at hopen
    cases hopen
  refine flushBackendWrites ?_
  have := hrun.tracked
  rwa [hstate] at this

end Tracked

/-! ### Opening -/

/-- The positions noted are those of the requests for the target. -/
theorem noteOpen_eq (t : Target) (conn : ℕ) (pending : List PendingClientReq) :
    noteOpen t conn pending =
      ((place conn 0 pending).filter (·.2.Owns t)).filterMap fun entry => entry.1.map .written := by
  rw [noteOpen, place, List.filter_map, List.filterMap_map, List.filterMap_filter]
  refine List.filterMap_congr fun entry _ => ?_
  simp only [Function.comp, decide_eq_true_eq, Option.map_some]

theorem noteOpen_eq_nil {pending : List PendingClientReq} (h : ∀ req ∈ pending, ¬ req.Owns t) :
    noteOpen t conn pending = [] := by
  have hnone : (place conn 0 pending).filter (·.2.Owns t) = [] :=
    List.filter_eq_nil_iff.mpr fun entry hentry => by simpa using h _ (mem_of_mem_place hentry)
  rw [noteOpen_eq, hnone]
  rfl

namespace Tracked

variable {t : Target} {n : ℕ} {trace : List Action} {m : Mux}
  {outcome : ℕ → Bytes → DialOutcome} {addr : Bytes}

/-- A dial succeeds: the queue becomes the pending requests of a new connection. -/
theorem onOpen (h : Tracked t n trace m) (hn : n ≤ 1) (hnone : m.conns addr = none)
    {sentinels : List PendingClientReq} (hsentinels : ∀ req ∈ sentinels, req.skipReply = true)
    (hconns : m'.conns = update m.conns addr
      (some { conn, pending := sentinels ++ m.dialing addr, wire }))
    (hdialing : m'.dialing = update m.dialing addr [])
    (hclosed : m'.closedClients = m.closedClients) (htasks : m'.tasks = m.tasks)
    (hdelivered : m'.delivered = m.delivered) :
    Tracked t n (trace ++ noteOpen t conn (sentinels ++ m.dialing addr)) m' := by
  let left : Mux := { m with dialing := update m.dialing addr [] }
  have hskip : ∀ req ∈ sentinels, ¬ req.Owns t := fun req hreq howns => by
    cases (hsentinels req hreq).symm.trans howns.1
  have hcount : (sentinels ++ m.dialing addr).countP (·.Owns t) = m.held t addr := by
    have hzero : sentinels.countP (·.Owns t) = 0 :=
      List.countP_eq_zero.mpr fun r hr => by simpa using hskip r hr
    rw [List.countP_append, hzero, Nat.zero_add, held, unanswered, hnone]
    rfl
  have hqueue : ((m.dialing addr).map fun req => ((none, req) : Entry)).countP (·.2.Owns t) =
      m.held t addr := by
    rw [List.countP_map, held, unanswered, hnone]
    rfl
  have hbound : m.held t addr ≤ n := by
    have := Tally.le_finsum h.finite addr
    have := h.le
    omega
  -- The request leaves the queue, and is then on the new connection.
  have hleft : Tracked t (n - m.held t addr) trace left := by
    have hcompleted : left.completed t = m.completed t := rfl
    refine h.change addr ((m.dialing addr).map (none, ·)) []
      (fun a ha => entries_congr (update_of_ne ha _ _) rfl) ?_ rfl ?_ (fun _ => ?_) (by simp)
    · simp only [Mux.entries, left, update_self, List.append_nil]
      exact List.perm_append_comm
    all_goals
      rw [hqueue, hcompleted, List.countP_nil]
      omega
  have hfits : ∀ entry ∈ place conn 0 (sentinels ++ m.dialing addr), entry.2.Owns t →
      FitsPlace (trace ++ noteOpen t conn (sentinels ++ m.dialing addr)) entry := by
    intro entry hentry howns
    have hmem := (List.mem_append.mp (mem_of_mem_place hentry)).resolve_left
      fun hreq => hskip _ hreq howns
    obtain ⟨ps, rfl, hlength, hdepth⟩ := h.fits addr (none, entry.2)
      (List.mem_append_left _ (List.mem_map_of_mem hmem)) howns
    have hfilter : (place conn 0 (sentinels ++ m.dialing addr)).filter (·.2.Owns t) = [entry] := by
      have hown : entry ∈ (place conn 0 (sentinels ++ m.dialing addr)).filter (·.2.Owns t) :=
        List.mem_filter.mpr ⟨hentry, decide_eq_true howns⟩
      have hlength := List.countP_eq_length_filter (p := fun e : Entry => decide (e.2.Owns t))
        (l := place conn 0 (sentinels ++ m.dialing addr))
      have hpos := List.length_pos_of_mem hown
      rw [countP_place, hcount] at hlength
      obtain ⟨e, he⟩ := List.length_eq_one_iff.mp (hlength.symm.trans (by omega))
      rw [he] at hown ⊢
      rw [List.mem_singleton.mp hown]
    refine ⟨ps, ?_, hlength, hdepth⟩
    rw [noteOpen_eq, hfilter]
    rcases entry with ⟨_ | pos, req⟩ <;> simp
  have hretraced : Tracked t (n - m.held t addr)
      (trace ++ noteOpen t conn (sentinels ++ m.dialing addr)) left := by
    by_cases hzero : m.held t addr = 0
    · rw [← hcount, List.countP_eq_zero] at hzero
      rwa [noteOpen_eq_nil fun req hreq => by simpa using hzero req hreq, List.append_nil]
    · have hpos : 0 < (place conn 0 (sentinels ++ m.dialing addr)).countP (·.2.Owns t) := by
        rw [countP_place, hcount]
        omega
      obtain ⟨entry, hentry, howns⟩ := List.countP_pos_iff.mp hpos
      rw [Nat.sub_eq_zero_of_le (by omega)] at hleft ⊢
      exact hleft.retrace (hfits entry hentry (of_decide_eq_true howns)).shaped
  have hcompleted : m'.completed t = left.completed t := by
    rw [completed, completed, htasks, hdelivered]
  refine hretraced.change addr [] (place conn 0 (sentinels ++ m.dialing addr))
    (fun a ha => entries_congr (by rw [hdialing]) (by rw [hconns, update_of_ne ha])) ?_ hclosed ?_
    (fun _ => ?_) hfits
  · simp only [Mux.entries, hdialing, hconns, left, update_self, hnone, Option.elim_none,
      List.append_nil, Option.elim_some, BackendMuxConn.entries, List.drop_zero]
    exact List.Perm.refl _
  all_goals
    rw [countP_place, hcount, hcompleted, List.countP_nil]
    omega

/-- A client closes: its requests need not be completed any more. -/
theorem clientClose (h : Tracked t n trace m) (client : ℕ) :
    Tracked t n trace { m with closedClients := client :: m.closedClients } :=
  ⟨h.finite, h.le, fun hopen => h.eq fun hmem => hopen (List.mem_cons_of_mem _ hmem), h.fits,
    h.shape⟩

end Tracked

/-! ### Runs -/

theorem skipReply_of_sentinel {isReplicaAddr : Bool} {queued : List PendingClientReq}
    (h : req ∈ if isReplicaAddr then readonlySentinel queued else []) : req.skipReply = true := by
  cases isReplicaAddr with
  | false => cases h
  | true =>
    obtain ⟨first, -, rfl⟩ := List.mem_map.mp h
    rfl

theorem noteReply_of_tracked (h : Tracked t 0 trace m) (addr : Bytes) (reply : Reply) :
    noteReply t addr m trace reply = trace := by
  unfold noteReply
  split
  · rfl
  rename_i bc hbc
  split
  · rfl
  rename_i req hfirst
  have hmem : (some ⟨bc.conn, bc.answered.length⟩, req) ∈ m.entries addr := by
    rw [Mux.entries, hbc, Option.elim_some, popPending_entries reply hfirst]
    exact List.mem_append_right _ List.mem_cons_self
  exact if_neg (h.not_owns hmem)

namespace Accounted

variable {t : Target} {n : ℕ} {outcome : ℕ → Bytes → DialOutcome} {m : Mux} {trace : List Action}

/-- A request that a client hands over is new. -/
private theorem ready {event : MuxEvent} (hfresh : n = 0 → trace = [])
    (hn : n + (if handed event = some t then 1 else 0) ≤ 1)
    (howns : req.Owns t ↔ handed event = some t) (hdepth : req.depth = 0) :
    req.Owns t → n = 0 ∧ FitsPlace trace (none, req) := by
  intro h
  rw [if_pos (howns.mp h)] at hn
  obtain rfl : n = 0 := by omega
  exact ⟨rfl, [], hfresh rfl, hdepth.symm, by rw [hdepth]; exact Nat.zero_le _⟩

/-- One event. -/
theorem exec (h : Accounted t n (m, trace)) (hfresh : n = 0 → trace = []) (event : MuxEvent)
    (hok : eventConserves outcome m event)
    (hn : n + (if handed event = some t then 1 else 0) ≤ 1) :
    Accounted t (n + if handed event = some t then 1 else 0)
      (m.exec outcome event, note outcome t m trace event) := by
  simp only [eventConserves, Bool.and_eq_true] at hok
  obtain ⟨⟨horder, hexpected⟩, hkeeps⟩ := hok
  obtain ⟨hreplies, htracked⟩ := h
  have hone : n ≤ 1 := Nat.le_trans (Nat.le_add_right _ _) hn
  refine ⟨⟨hreplies.inv.exec event horder, hreplies.reads.exec hreplies.inv event horder hexpected⟩,
    ?_⟩
  cases event with
  | send addr clientConn slotIdx req fanInIdx =>
    have howns : (clientReq clientConn slotIdx req fanInIdx).Owns t ↔
        handed (.send addr clientConn slotIdx req fanInIdx) = some t := by
      simp [PendingClientReq.Owns, handed, clientReq]
    have hsend : Tracked _ _ _ (m.send outcome addr (clientReq clientConn slotIdx req fanInIdx)) :=
      htracked.send hreplies.inv hkeeps (ready hfresh hn howns rfl)
    simpa only [howns, note, handed, Option.some.injEq, Mux.exec] using hsend
  | sendAsk addr clientConn slotIdx req fanInIdx =>
    have howns : (clientReq clientConn slotIdx req fanInIdx).Owns t ↔
        handed (.sendAsk addr clientConn slotIdx req fanInIdx) = some t := by
      simp [PendingClientReq.Owns, handed, clientReq]
    have hsend : Tracked _ _ _
        (m.sendAsk outcome addr (clientReq clientConn slotIdx req fanInIdx)) :=
      htracked.sendAsk hreplies.inv horder hkeeps (ready hfresh hn howns rfl)
    simpa only [howns, note, handed, Option.some.injEq, Mux.exec] using hsend
  | flushBackendWrites => exact htracked.flushBackendWrites
  | onOpen addr isReplicaAddr =>
    simp only [Mux.exec, note]
    by_cases hregistering : m.registering addr = true
    · rw [if_pos hregistering, if_pos hregistering]
      have hnone := hreplies.inv.exclusive addr ((hreplies.inv.registering addr).mp hregistering)
      exact htracked.onOpen hone hnone (fun req => skipReply_of_sentinel) rfl rfl rfl rfl rfl
    rw [if_neg hregistering, if_neg hregistering]
    exact htracked
  | dialFailed addr err =>
    simp only [Mux.exec, note]
    by_cases hregistering : m.registering addr = true
    · have hparts : ∀ req ∈ m.dialing addr, req.fanIn = false := by
        simpa [eventKeepsParts] using hkeeps
      have hidle : Tracked t n trace
          { m with registering := update m.registering addr false } :=
        htracked.congr (fun _ => rfl) rfl rfl rfl
      rw [if_pos hregistering]
      exact hidle.failDialing hparts err
    · rw [if_neg hregistering]
      exact htracked
  | onTraffic conn replies =>
    simp only [Mux.exec, note]
    cases haddr : m.connAddr conn with
    | none => exact htracked
    | some addr =>
      obtain ⟨bc, hbc, -⟩ := (hreplies.inv.opened conn addr).mp haddr
      simp only [eventInOrder, eventExpected, eventKeepsParts, alongTraffic, haddr,
        decide_eq_true_eq] at horder hexpected hkeeps
      exact htracked.onTraffic hone hreplies replies horder hexpected hkeeps
        (by rw [hbc]; rfl)
  | onClose conn =>
    simp only [Mux.exec, note]
    cases haddr : m.connAddr conn with
    | none => exact htracked
    | some addr =>
      have hparts : ∀ req ∈ m.unanswered addr, req.fanIn = false := by
        simpa [eventKeepsParts, haddr] using hkeeps
      have hgone : Tracked t n trace { m with connAddr := update m.connAddr conn none } :=
        htracked.congr (fun _ => rfl) rfl rfl rfl
      exact hgone.onClose hparts
  | clientClose clientConn => exact htracked.clientClose clientConn

/-- The replies of a read do nothing with a request that is nowhere. -/
theorem trace_onTraffic (h : Accounted t 0 (m, trace)) (replies : List Reply)
    (hmeets : Runs.Meets (Mux.onReply outcome addr)
      (fun m reply => (replyInOrder addr m reply ∧ replyExpected addr m reply) ∧
        replyKeepsPart outcome addr m reply) m replies) :
    (Runs.run (Runs.withLog (Mux.onReply outcome addr) (noteReply t addr)) (m, trace)
      replies).2 = trace := by
  induction replies generalizing m with
  | nil => rfl
  | cons reply replies ih =>
    obtain ⟨⟨⟨horder, hexpected⟩, hkeeps⟩, hrest⟩ := hmeets
    have hnote := noteReply_of_tracked h.tracked addr reply
    have htracked := h.tracked.onReply (Nat.zero_le 1) h.replies reply horder hkeeps
    rw [Runs.run_cons, Runs.withLog]
    simp only at hnote htracked ⊢
    rw [hnote] at htracked ⊢
    exact ih ⟨⟨h.replies.inv.onReply reply horder,
      h.replies.reads.onReply h.replies.inv reply hexpected⟩, htracked⟩ hrest

/-- An event does nothing with a request that was not handed over. -/
theorem note_of_unhanded (h : Accounted t 0 (m, trace)) (event : MuxEvent)
    (hok : eventConserves outcome m event) (hhanded : handed event ≠ some t) :
    note outcome t m trace event = trace := by
  cases event with
  | send addr clientConn slotIdx req fanInIdx | sendAsk addr clientConn slotIdx req fanInIdx =>
    exact if_neg fun htarget => hhanded (by rw [handed, htarget])
  | onOpen addr isReplicaAddr =>
    simp only [note]
    split
    · have hnone : ∀ req ∈ (if isReplicaAddr then readonlySentinel (m.dialing addr) else []) ++
          m.dialing addr, ¬ req.Owns t := by
        intro req hreq
        rcases List.mem_append.mp hreq with hreq | hreq
        · exact fun howns => by
            have hskip := howns.1
            rw [skipReply_of_sentinel hreq] at hskip
            cases hskip
        · have hentry : (none, req) ∈ m.entries addr :=
            List.mem_append_left _ (List.mem_map_of_mem hreq)
          exact h.tracked.not_owns hentry
      rw [noteOpen_eq_nil hnone, List.append_nil]
    · rfl
  | onTraffic conn replies =>
    simp only [eventConserves, eventInOrder, eventExpected, eventKeepsParts, alongTraffic,
      Bool.and_eq_true] at hok
    simp only [note]
    cases haddr : m.connAddr conn with
    | none => rfl
    | some addr =>
      simp only [haddr, decide_eq_true_eq] at hok
      exact h.trace_onTraffic replies ((hok.1.1.and hok.1.2).and hok.2)
  | _ => rfl

theorem run (h : Accounted t n (m, trace)) (hfresh : n = 0 → trace = []) (events : List MuxEvent)
    (hok : Runs.Meets (Mux.exec outcome) (fun m event => eventConserves outcome m event) m events)
    (hn : n + (events.filterMap handed).count t ≤ 1) :
    Accounted t (n + (events.filterMap handed).count t)
      (Runs.run (Runs.withLog (Mux.exec outcome) (note outcome t)) (m, trace) events) := by
  induction events generalizing n m trace with
  | nil => exact h
  | cons event events ih =>
    have hcount : ((event :: events).filterMap handed).count t =
        (if handed event = some t then 1 else 0) + (events.filterMap handed).count t := by
      rw [List.filterMap_cons]
      cases handed event with
      | none => simp
      | some t' => simp [List.count_cons, Nat.add_comm]
    rw [hcount, ← Nat.add_assoc] at hn ⊢
    refine ih (h.exec hfresh event hok.1 (by omega)) (fun hzero => ?_) hok.2 hn
    have hhanded : handed event ≠ some t := fun hhanded => by
      rw [if_pos hhanded] at hzero
      omega
    obtain rfl : n = 0 := by omega
    rw [h.note_of_unhanded event hok.1 hhanded]
    exact hfresh rfl

end Accounted

/-- The action writes the command. -/
def Action.isWritten : Action → Bool
  | .written _ => true
  | .redirected _ => false

theorem countP_isWritten_resent (ps : List Position) :
    (resent ps).countP Action.isWritten = ps.length := by
  induction ps with
  | nil => rfl
  | cons pos ps ih =>
    rw [resent, List.flatMap_cons, List.countP_append, List.length_cons]
    rw [resent] at ih
    rw [ih, Nat.add_comm]
    rfl

theorem Shaped.alternates (h : Shaped trace) :
    Alternates trace ∧ trace.countP Action.isWritten ≤ 17 := by
  obtain ⟨ps, pos, hlength, rfl⟩ := h
  rw [List.countP_append, countP_isWritten_resent]
  cases pos with
  | none => exact ⟨alternates_resent_append ps _ trivial, Nat.le_succ_of_le hlength⟩
  | some pos => exact ⟨alternates_resent_append ps _ trivial, Nat.add_le_add_right hlength 1⟩

/-- Requests are conserved and redirections are bounded. In every run whose events meet the
condition, and hand over each target once, a request that was handed over is in one queue, or
without a reply on one connection, or completed by one error fill or one reply; a client that
closes may lose its requests, but never has one twice. A request is written again only after a
redirection that answers the command written before, and at most 17 times. -/
theorem requests_conserved (outcome : ℕ → Bytes → DialOutcome) (events : List MuxEvent)
    (hok : Runs.Meets (Mux.exec outcome) (fun m event => eventConserves outcome m event) {} events)
    (hown : (events.filterMap handed).Nodup) (t : Target) :
    let m := Runs.run (Mux.exec outcome) {} events
    let places := ∑ᶠ addr, m.held t addr + m.completed t
    let trace := (traced outcome t events).2
    places ≤ (events.filterMap handed).count t ∧
      (t.client ∉ m.closedClients → places = (events.filterMap handed).count t) ∧
      Alternates trace ∧ trace.countP Action.isWritten ≤ 17 := by
  intro m places trace
  have hcount := List.nodup_iff_count_le_one.mp hown t
  have hrun : Accounted t (0 + (events.filterMap handed).count t) (traced outcome t events) :=
    Accounted.run ⟨⟨MuxInv.new, fun _ _ h => by simp at h⟩, Tracked.new t⟩ (fun _ => rfl) events hok
      (by omega)
  have hstate : (traced outcome t events).1 = m :=
    Runs.run_withLog_fst (Mux.exec outcome) (note outcome t) ({}, []) events
  have htracked := hrun.tracked
  rw [Nat.zero_add, hstate] at htracked
  exact ⟨htracked.le, htracked.eq, htracked.shape.alternates⟩

/-- A request is followed from one node to the next and answered there. -/
theorem requests_conserved_moved :
    let registered := fun _ _ => DialOutcome.registered
    let events : List MuxEvent :=
      [.send (bytes "A") 1 0 { args := [bytes "GET", bytes "x"] } none, .onOpen (bytes "A") false,
        .onTraffic 0 [⟨bytes "-MOVED 1 B\r\n", .moved, bytes "MOVED 1 B"⟩],
        .onOpen (bytes "B") true,
        .onTraffic 1 [⟨bytes "+OK\r\n", .none, []⟩, ⟨bytes "$-1\r\n", .none, []⟩]]
    Alternates (traced registered ⟨1, 0, none⟩ events).2 ∧
      (traced registered ⟨1, 0, none⟩ events).2 =
        [.written ⟨0, 0⟩, .redirected ⟨0, 0⟩, .written ⟨1, 1⟩] := by
  intro registered events
  refine ⟨?_, by decide +kernel⟩
  exact (requests_conserved registered events (by decide +kernel) (by decide +kernel)
    ⟨1, 0, none⟩).2.2.1

/-- The reply to `x` is taken for the reply to `y`, because the commands passed each other on
the way to `B`, and `y` is sent a third time although `B` has executed it. When a connection
closes, two parts of one fan-in complete the slot twice, and their own parts not at all. -/
theorem requests_not_conserved :
    let registered := fun _ _ => DialOutcome.registered
    let shifted := movedThenAsk ++ [.onTraffic 1 [⟨bytes "$-1\r\n", .none, []⟩,
      ⟨bytes "+OK\r\n", .none, []⟩, ⟨bytes "$-1\r\n", .none, []⟩,
      ⟨bytes "-MOVED 1 A\r\n", .moved, bytes "MOVED 1 A"⟩]]
    let closing : List MuxEvent :=
      [.send (bytes "A") 1 0 { args := [bytes "GET", bytes "x"] } (some 0),
        .send (bytes "A") 1 0 { args := [bytes "GET", bytes "y"] } (some 1),
        .onOpen (bytes "A") false, .onClose 0]
    (traced registered ⟨1, 1, none⟩ shifted).2 =
        [.written ⟨0, 1⟩, .redirected ⟨0, 1⟩, .written ⟨1, 2⟩, .redirected ⟨1, 3⟩,
          .written ⟨0, 2⟩] ∧
      ¬ Alternates (traced registered ⟨1, 1, none⟩ shifted).2 ∧
      (Runs.run (Mux.exec registered) {} closing).completed ⟨1, 0, none⟩ = 2 ∧
      (Runs.run (Mux.exec registered) {} closing).completed ⟨1, 0, some 0⟩ = 0 := by
  decide +kernel

end Pluster.Engine
