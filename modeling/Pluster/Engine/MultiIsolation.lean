import Pluster.Engine.AuthGate
import Pluster.Engine.TxOrder

/-!
# Transactions are isolated

A log records the requests that were answered QUEUED since MULTI was answered OK, and the
queues that EXEC handed over. As long as the client is in a transaction it stays in a MULTI
state, what it sends is queued or refused, and EXEC hands over the queue. The late reply to a
WATCH or to a blocking command and the loss of the connection of the hub can take the client
out of the MULTI state.
-/

namespace Pluster.Engine

open Proto GoStrings GoRuntime

variable {s t next : Session} {e : SessionEvent} {c : ℕ} {v : Value} {b : Backend} {req : Req}
  {cfg : Config} {queue : List Req}

/-- EXEC, DISCARD, RESET and QUIT. -/
def Verb.endsMulti : Verb → Bool
  | .exec | .discard | .reset | .quit => true
  | _ => false

/-- The transactions of a client: the queue of the one that is open, and the queues of those
executed. -/
structure Tx where
  queued : Option (List Req) := none
  execs : List (List Req) := []

variable {tx : Tx}

/-- What a request does to the transactions: EXEC, DISCARD and RESET end the one that is open,
MULTI begins one if it is accepted, and a request becomes part of it if it is answered
QUEUED. -/
def Tx.track (tx : Tx) (t : Session) (req : Req) (plan : Plan) : Tx :=
  if req.body.args = [] then tx
  else
    match Verb.of req.body with
    | .exec => { queued := none, execs := tx.execs ++ if t.txErr then [] else tx.queued.toList }
    | .discard | .reset => { tx with queued := none }
    | _ =>
      match plan with
      | .enterMulti _ => { tx with queued := some [] }
      | .queue => { tx with queued := tx.queued.map (· ++ [req]) }
      | _ => tx

section Track

variable {tx : Tx} {t : Session} {req : Req} {plan : Plan}

theorem Tx.track_of_nil (hargs : req.body.args = []) : tx.track t req plan = tx := if_pos hargs

theorem Tx.track_exec (hargs : req.body.args ≠ []) (hverb : Verb.of req.body = .exec) :
    tx.track t req plan =
      { queued := none, execs := tx.execs ++ if t.txErr then [] else tx.queued.toList } := by
  unfold Tx.track
  rw [if_neg hargs, hverb]

theorem Tx.track_end (hargs : req.body.args ≠ [])
    (hverb : Verb.of req.body = .discard ∨ Verb.of req.body = .reset) :
    tx.track t req plan = { tx with queued := none } := by
  unfold Tx.track
  rw [if_neg hargs]
  rcases hverb with h | h <;> rw [h]

theorem Tx.track_other (hargs : req.body.args ≠ []) (hexec : Verb.of req.body ≠ .exec)
    (hdiscard : Verb.of req.body ≠ .discard) (hreset : Verb.of req.body ≠ .reset) :
    tx.track t req plan =
      match plan with
      | .enterMulti _ => { tx with queued := some [] }
      | .queue => { tx with queued := tx.queued.map (· ++ [req]) }
      | _ => tx := by
  unfold Tx.track
  rw [if_neg hargs]
  cases hverb : Verb.of req.body with
  | exec => exact absurd hverb hexec
  | discard => exact absurd hverb hdiscard
  | reset => exact absurd hverb hreset
  | _ => rfl

end Track

/-- The log of a step. -/
def Tx.step (cfg : Config) (s : Session) (tx : Tx) (e : SessionEvent) : Tx :=
  match s.dispatched e with
  | some (t, env, req) => tx.track t req (dispatchClientRequest cfg env t req.body)
  | none => tx

namespace Session

/-- The transactions of a new client after some events. -/
def transactions (cfg : Config) (policy : GrowthPolicy) (events : List SessionEvent) : Tx :=
  (Runs.run (Runs.withLog (exec cfg) (Tx.step cfg)) (new cfg policy, {}) events).2

/-- The reply sends a blocking command to another node, and a connection to it is there or is
being dialled. -/
def redials (s : Session) (env : Env) (v : Value) : Bool :=
  v.isMovedError && (redirectionAddr v).any fun addr =>
    (s.takeIdle addr s.idle).1.isSome || (dialError addr (env.dial addr)).isNone

/-- The reply neither acknowledges a WATCH nor ends a blocking command. -/
def calmReply (s : Session) (env : Env) (v : Value) : Callback → Bool
  | .watchFirst _ _ | .watchReuse _ => v.isError
  | .blocking _ => s.redials env v
  | _ => true

/-- The event is none of those that set the state whatever it is: the reply that acknowledges
a WATCH, the end of a blocking command, and the loss of the connection of the hub. -/
def calm (s : Session) : SessionEvent → Bool
  | .value env c v => (s.nextCallback c).all (s.calmReply env v)
  | .dialFailed i _ =>
    match s.dials[i]? with
    | some (.blocking _ _) => false
    | _ => true
  | .hubClosed => s.hub.subs = []
  | _ => true

/-- In a transaction the event is calm. -/
def calmInMulti (s : Session) (e : SessionEvent) : Bool := !decide s.InMulti || s.calm e

theorem calm_of_calmInMulti (h : s.calmInMulti e = true) (hmulti : s.InMulti) :
    s.calm e = true := by
  simpa [calmInMulti, hmulti] using h

/-! ### Events that are not requests -/

theorem state_request (s : Session) (c : ℕ) (cmd : WireCmd) (cb : Callback) :
    (s.request c cmd cb).state = s.state := by
  unfold request
  split <;> rfl

theorem state_sendQueue (s : Session) (c : ℕ) (queue : List Req) (slotIdx : ℕ) :
    (s.sendQueue c queue slotIdx).state = s.state := by
  unfold sendQueue
  rw [state_request]
  induction queue generalizing s with
  | nil => rfl
  | cons req queue ih => rw [List.foldl_cons, ih, state_request]

theorem state_respondAuth (s : Session) (v : Value) : (s.respondAuth v).state = s.state := by
  unfold respondAuth
  split <;> rfl

theorem state_dialWatch (s : Session) (env : Env) (req : Req) (slotIdx : ℕ) (addr : Bytes) :
    (s.dialWatch env req slotIdx addr).state = s.state := by
  unfold dialWatch dialDedicatedBackend
  split <;> rfl

theorem state_authDedicatedConn (s : Session) (cfg : Config) (c : ℕ) :
    (s.authDedicatedConn cfg c).state = s.state := by
  unfold authDedicatedConn
  split
  · rfl
  · exact state_request s c _ _

theorem state_onBackendOpen (s : Session) (cfg : Config) (d : Dial) :
    (s.onBackendOpen cfg d).state = s.state := by
  cases d with
  | watch addr =>
    simp only [onBackendOpen]
    split
    · exact state_authDedicatedConn _ _ _
    rw [state_request]
    exact state_authDedicatedConn _ _ _
  | multi addr queue slotIdx => rfl
  | blocking addr req =>
    simp only [onBackendOpen]
    split
    · exact state_request _ _ _ _
    · exact state_request _ _ _ _

/-- Only the connections of the pool matter to what it gives. -/
theorem takeIdle_congr (addr : Bytes) {idle : List (Bytes × ℕ)}
    (h : ∀ entry ∈ idle, t.conns entry.2 = s.conns entry.2) :
    t.takeIdle addr idle = s.takeIdle addr idle := by
  induction idle with
  | nil => rfl
  | cons entry rest ih =>
    simp only [takeIdle, ih fun entry' hmem => h entry' (List.mem_cons_of_mem _ hmem),
      h entry List.mem_cons_self]

theorem state_dialBlockingBackend (s : Session) (env : Env) (addr : Bytes) (req : Req) :
    (s.dialBlockingBackend env addr req).state =
      if (s.takeIdle addr s.idle).1.isSome || (dialError addr (env.dial addr)).isNone then s.state
      else .normal := by
  unfold dialBlockingBackend
  split
  · rename_i c idle heq
    rw [heq]
    unfold reuseBlockingConn
    split
    · rfl
    · exact state_request _ _ _ _
  · rename_i idle heq
    rw [heq]
    simp only
    split
    · rename_i hdial
      rw [hdial]
      rfl
    rename_i hdial
    rw [hdial]
    rfl

theorem state_onBackendClose (hstate : s.state ≠ .blocking) (c : ℕ) :
    (s.onBackendClose c).state = s.state :=
  (Untouched.onBackendClose hstate c).state

theorem state_returnBlockingConn (hstate : s.state ≠ .blocking) (c : ℕ) :
    (s.returnBlockingConn c).state = s.state := by
  unfold returnBlockingConn
  split
  · rfl
  split
  · exact state_onBackendClose hstate c
  split
  · rfl
  · exact state_onBackendClose hstate c

theorem idle_onBackendClose (s : Session) (c : ℕ) : (s.onBackendClose c).idle = s.idle := by
  unfold onBackendClose
  split
  · rfl
  split
  · rfl
  simp only
  split
  · rfl
  · split <;> rfl

/-- The end of a blocking command sets the state, unless the command is repeated elsewhere. -/
theorem state_handleBlockingResponse (hstate : s.state ≠ .blocking)
    (hidle : ∀ entry ∈ s.idle, entry.2 ≠ c) (env : Env) (v : Value) (req : Req) :
    (s.handleBlockingResponse env c v req).state = if s.redials env v then s.state else .normal := by
  have hfinish : (s.finishBlocking c v).state = .normal :=
    state_returnBlockingConn (s := { s.fillResponseSlotInLoop s.blockingSlotIdx (encodeValue v) with
      state := .normal, blockingBackend := none }) (by simp) c
  unfold handleBlockingResponse redials
  split
  · rename_i hmoved
    cases haddr : redirectionAddr v with
    | none => simpa [hmoved] using hfinish
    | some addr =>
      have hclosed := state_onBackendClose (s := { s with blockingBackend := none }) hstate c
      have hpool := takeIdle_congr (s := s)
        (t := ({ s with blockingBackend := none } : Session).onBackendClose c) addr fun entry hmem =>
          conns_onBackendClose_of_ne { s with blockingBackend := none } (hidle entry hmem)
      have hkept : (({ s with blockingBackend := none } : Session).onBackendClose c).idle = s.idle :=
        idle_onBackendClose _ c
      rw [state_dialBlockingBackend, hclosed, hkept, hpool, hmoved]
      rfl
  · rename_i hmoved
    simpa [hmoved] using hfinish

theorem state_ackWatch (s : Session) (slotIdx : ℕ) (v : Value) :
    (s.ackWatch slotIdx v).state = if v.isError then s.state else .watch := rfl

/-- MOVED is an error. -/
theorem isError_of_isMovedError (h : v.isMovedError = true) : v.isError = true := by
  cases v with
  | error str => rfl
  | _ => cases h

section Calm

variable {s : Session}

theorem ne_of_inMulti (hmulti : s.InMulti) :
    s.state ≠ .normal ∧ s.state ≠ .watch ∧ s.state ≠ .blocking := by
  rcases hmulti with h | h <;> simp [h]

/-- In a transaction the state stays if and only if the reply is calm. -/
theorem state_respond_iff (hmulti : s.InMulti) (env : Env) (hidle : ∀ entry ∈ s.idle, entry.2 ≠ c)
    (v : Value) (cb : Callback) :
    (s.respond env c v cb).state = s.state ↔ s.calmReply env v cb = true := by
  obtain ⟨hnormal, hwatch, hblocking⟩ := ne_of_inMulti hmulti
  have hkeeps : (s.respond env c v cb).state = s.state → s.calmReply env v cb = true →
      ((s.respond env c v cb).state = s.state ↔ s.calmReply env v cb = true) :=
    fun hsame hcalm => iff_of_true hsame hcalm
  have hack : ∀ slotIdx, (s.ackWatch slotIdx v).state = s.state ↔ v.isError = true := by
    intro slotIdx
    rw [state_ackWatch]
    split
    · rename_i herror
      exact iff_of_true rfl herror
    rename_i herror
    exact iff_of_false hwatch.symm herror
  cases cb with
  | watchFirst req slotIdx =>
    by_cases hmoved : v.isMovedError = true
    · refine hkeeps ?_ (isError_of_isMovedError hmoved)
      rw [respond, if_pos hmoved]
      exact state_dialWatch _ env req slotIdx _
    rw [respond, if_neg hmoved]
    exact hack slotIdx
  | watchReuse slotIdx => exact hack slotIdx
  | ignore => exact hkeeps rfl rfl
  | auth => exact hkeeps (state_respondAuth s v) rfl
  | authThenBlocking req =>
    refine hkeeps ?_ rfl
    simp only [respond]
    split
    · exact state_respondAuth s v
    · rw [state_request, state_respondAuth]
  | blocking req =>
    rw [respond, state_handleBlockingResponse hblocking hidle, calmReply]
    split
    · rename_i hredials
      exact iff_of_true rfl hredials
    rename_i hredials
    exact iff_of_false hnormal.symm hredials
  | multiStart queue slotIdx =>
    refine hkeeps ?_ rfl
    simp only [respond]
    split
    · exact state_onBackendClose hblocking c
    · exact state_sendQueue s c queue slotIdx
  | execDone slotIdx => exact hkeeps (state_onBackendClose hblocking c) rfl

/-- A connection with a pending callback is not in the pool. -/
theorem ConnInv.ne_of_pending (hconn : s.ConnInv) (hc : s.conns c = some b)
    (hpending : b.pending ≠ []) : ∀ entry ∈ s.idle, entry.2 ≠ c := by
  rintro entry hmem rfl
  obtain ⟨-, b', hb', -, hnil⟩ := hconn.idle entry hmem
  rw [hc, Option.some.injEq] at hb'
  exact hpending (hb' ▸ hnil)

theorem calmReply_setConn (hidle : ∀ entry ∈ s.idle, entry.2 ≠ c) (b : Backend) (env : Env)
    (v : Value) (cb : Callback) : (s.setConn c b).calmReply env v cb = s.calmReply env v cb := by
  have hpool : ∀ addr, (s.setConn c b).takeIdle addr s.idle = s.takeIdle addr s.idle :=
    fun addr => takeIdle_congr addr fun entry hmem => setConn_of_ne s b (hidle entry hmem)
  cases cb with
  | blocking req =>
    change (v.isMovedError && (redirectionAddr v).any fun addr =>
      ((s.setConn c b).takeIdle addr s.idle).1.isSome || (dialError addr (env.dial addr)).isNone) = _
    simp only [hpool]
    rfl
  | _ => rfl

theorem state_onBackendValue_iff (hconn : s.ConnInv) (hmulti : s.InMulti) (env : Env) (c : ℕ)
    (v : Value) : (s.onBackendValue env c v).state = s.state ↔ s.calm (.value env c v) = true := by
  unfold onBackendValue
  simp only [calm, nextCallback]
  cases hc : s.conns c with
  | none => simp
  | some b =>
    simp only
    split
    · simp
    cases hpending : b.pending with
    | nil => simp
    | cons cb rest =>
      have hidle := hconn.ne_of_pending hc (by simp [hpending])
      have hreply := state_respond_iff (s := s.setConn c { b with pending := rest }) hmulti env
        hidle v cb
      rw [calmReply_setConn hidle] at hreply
      exact hreply

/-- In a transaction an event that is not a request keeps the state if and only if it is
calm. -/
theorem state_onEvent_iff (hconn : s.ConnInv) (hmulti : s.InMulti) (cfg : Config)
    (he : e.dispatches = false) : (s.onEvent cfg e).state = s.state ↔ s.calm e = true := by
  obtain ⟨hnormal, -, hblocking⟩ := ne_of_inMulti hmulti
  cases e with
  | request env req | protocolError err | drain env => cases he
  | clientClosed => exact iff_of_true (Untouched.onClientClose hblocking).state rfl
  | opened i =>
    refine iff_of_true ?_ rfl
    simp only [onEvent]
    split
    · rfl
    · exact state_onBackendOpen _ cfg _
  | dialFailed i err =>
    simp only [onEvent, calm]
    cases s.dials[i]? with
    | none => exact iff_of_true rfl rfl
    | some d =>
      cases d with
      | watch addr | multi addr queue slotIdx => exact iff_of_true rfl rfl
      | blocking addr req => exact iff_of_false hnormal.symm (by simp)
  | value env c v => exact state_onBackendValue_iff hconn hmulti env c v
  | lost c => exact iff_of_true (state_onBackendClose hblocking c) rfl
  | task i =>
    refine iff_of_true ?_ rfl
    simp only [onEvent]
    split
    · rfl
    rename_i t _
    cases t with
    | fill slotIdx data => rfl
    | startMulti c queue slotIdx =>
      exact (state_request _ c _ _).trans (state_authDedicatedConn _ cfg c)
  | routerDone i data | muxFailed i err =>
    refine iff_of_true ?_ rfl
    simp only [onEvent]
    split <;> rfl
  | muxReply i data =>
    refine iff_of_true ?_ rfl
    simp only [onEvent]
    split
    · rfl
    unfold onMuxReply
    split <;> rfl
  | hubOpened | hubDialFailed | idleReturned addr | maxClientsSet n => exact iff_of_true rfl rfl
  | hubClosed =>
    simp only [onEvent, onHubClosed, calm]
    split
    · rename_i hsubs
      exact iff_of_true rfl (by simpa using hsubs)
    rename_i hsubs
    exact iff_of_false hnormal.symm (by simpa using hsubs)
  | idleTaken addr =>
    refine iff_of_true ?_ rfl
    simp only [onEvent, loseIdle]
    split <;> rfl

end Calm

/-! ### The open transaction -/

/-- The queue of the transaction that the client is in. -/
def openQueue (s : Session) : Option (List Req) := if s.InMulti then some s.txQueue else none

theorem openQueue_of_not (h : ¬ s.InMulti) : s.openQueue = none := if_neg h

theorem openQueue_of_inMulti (h : s.InMulti) : s.openQueue = some s.txQueue := if_pos h

theorem openQueue_congr (hstate : next.state = s.state) (hqueue : next.txQueue = s.txQueue) :
    next.openQueue = s.openQueue := by
  have hmulti : next.InMulti ↔ s.InMulti := by simp only [InMulti, hstate]
  simp only [openQueue, hmulti, hqueue]

/-- A step that settles the client opens no transaction. -/
theorem Settles.openQueue (h : Settles s next) (hkeeps : s.InMulti → next.state = s.state) :
    next.openQueue = s.openQueue := by
  by_cases hmulti : s.InMulti
  · exact openQueue_congr (hkeeps hmulti) h.queue
  rw [openQueue_of_not hmulti, openQueue_of_not]
  unfold InMulti at hmulti ⊢
  rcases h.state with hstate | hstate | hstate
  · rwa [hstate]
  · simp [hstate]
  · simp [hstate]

theorem openQueue_onClientClose (s : Session) : s.onClientClose.openQueue = s.openQueue := by
  refine (stepRel_settles.onClientClose s).openQueue fun hmulti => ?_
  exact (Untouched.onClientClose (ne_of_inMulti hmulti).2.2).state

theorem openQueue_onEvent (hconn : s.ConnInv) (cfg : Config) (he : e.dispatches = false)
    (hcalm : s.InMulti → s.calm e = true) : (s.onEvent cfg e).openQueue = s.openQueue := by
  have hkeeps : s.InMulti → (s.onEvent cfg e).state = s.state :=
    fun hmulti => (state_onEvent_iff hconn hmulti cfg he).mpr (hcalm hmulti)
  by_cases hshared : e.isShared = true
  · cases e with
    | hubOpened | hubDialFailed | maxClientsSet n => exact openQueue_congr rfl rfl
    | hubClosed =>
      by_cases hmulti : s.InMulti
      · exact openQueue_congr (hkeeps hmulti) rfl
      rw [openQueue_of_not hmulti, openQueue_of_not]
      unfold InMulti at hmulti ⊢
      simp only [onEvent, onHubClosed]
      split
      · exact hmulti
      · simp
    | _ => cases hshared
  · exact (stepRel_settles.onEvent s cfg he (by simpa using hshared)).openQueue hkeeps

/-! ### Requests outside of a transaction -/

theorem state_writeImmediate (s : Session) (data : Bytes) :
    (s.writeImmediate data).state = s.state :=
  (Untouched.writeImmediate s data).state

theorem state_dropWatch (h : s.state ≠ .blocking) : s.dropWatch.state = s.state :=
  (Untouched.closeConn h s.watchBackend).state

theorem state_dropMulti (h : s.state ≠ .blocking) : s.dropMulti.state = s.state :=
  (Untouched.closeConn h s.multiBackend).state

theorem state_dropBlocking (h : s.state ≠ .blocking) : s.dropBlocking.state = s.state :=
  (Untouched.closeConn h s.blockingBackend).state

theorem state_resetClientState (s : Session) : s.resetClientState.state = .normal := by
  have hleft : s.leaveMulti.state = .normal := rfl
  have hwatch : s.leaveMulti.dropWatch.state = .normal :=
    (state_dropWatch (hleft ▸ by decide)).trans hleft
  have hmulti : s.leaveMulti.dropWatch.dropMulti.state = .normal :=
    (state_dropMulti (hwatch ▸ by decide)).trans hwatch
  exact (state_dropBlocking (hmulti ▸ by decide)).trans hmulti

theorem state_startWatch (h : s.state ≠ .blocking) (env : Env) (req : Req) (addr : Bytes) :
    (s.startWatch env req addr).state = s.state := by
  unfold startWatch
  split
  · split
    · exact state_request _ _ _ _
    rw [state_dialWatch]
    exact state_dropWatch (s := s.allocResponseSlot) h
  · exact state_dialWatch _ _ _ _ _

/-- A request outside of a transaction opens one if and only if it is a MULTI that is
accepted. -/
theorem openQueue_perform_of_not (hmulti : ¬ t.InMulti) (env : Env) (req : Req) {plan : Plan}
    (hchooses : t.Chooses req.body plan) :
    (t.perform env req plan).openQueue =
      match plan with
      | .enterMulti _ => some []
      | _ => none := by
  have hstays : ∀ {next : Session}, next.state = t.state → next.openQueue = none := by
    intro next hstate
    refine openQueue_of_not ?_
    unfold InMulti at hmulti ⊢
    rwa [hstate]
  have hleaves : ∀ {next : Session}, next.state = .normal → next.openQueue = none := by
    intro next hstate
    exact openQueue_of_not (by simp [InMulti, hstate])
  cases plan with
  | reply data => exact hstays (state_writeImmediate t data)
  | replies loc data => exact hstays (Untouched.foldl_writeImmediate { t with loc } data).state
  | reset => exact hleaves ((state_writeImmediate _ _).trans (state_resetClientState t))
  | enterMulti state =>
    obtain ⟨-, -, hstate⟩ := hchooses
    rw [perform, openQueue_congr (s := { t with state, txQueue := [], txErr := false })]
    · refine openQueue_of_inMulti ?_
      unfold InMulti
      rw [hstate]
      split
      · exact .inr rfl
      · exact .inl rfl
    · exact state_writeImmediate _ _
    · exact (Untouched.writeImmediate _ _).queue
  | watch addr =>
    obtain ⟨⟨-, hstate, -⟩, -⟩ := hchooses
    exact hstays (state_startWatch (by rcases hstate with h | h <;> simp [h]) env req addr)
  | unwatch => exact hleaves (state_writeImmediate _ _)
  | subscribe => exact openQueue_of_not (by simp [InMulti, perform, subscribe])
  | unsubscribe =>
    have hnormal : (t.perform env req .unsubscribe).state = t.state ∨
        (t.perform env req .unsubscribe).state = .normal := by
      simp only [perform, unsubscribe]
      split
      · exact .inr rfl
      · exact .inl rfl
    exact hnormal.elim hstays hleaves
  | blocking addr =>
    refine openQueue_of_not ?_
    unfold InMulti
    rw [perform, startBlocking, state_dialBlockingBackend]
    split <;> simp
  | queue | queueError data | execAbort | discard => exact absurd hchooses.1 hmulti
  | execWatched c | execEmpty | execError data | execReuse c | execDial addr =>
    exact absurd hchooses.1.1 hmulti
  | _ => exact hstays rfl

/-! ### Requests in a transaction -/

/-- The request is queued, or it is answered with an error. -/
inductive HeldBack (t : Session) (req : Req) : Session → Prop
  | queued : HeldBack t req ({ t with txQueue := t.txQueue ++ [req] }.writeImmediate
      (encodeSimpleString (bytes "QUEUED")))
  | failed (msg : Bytes) : HeldBack t req ({ t with txErr := true }.writeImmediate (encodeError msg))
  | refused (msg : Bytes) : HeldBack t req (t.writeImmediate (encodeError msg))
  | empty (hargs : req.body.args = []) (msg : Bytes) : HeldBack t req (t.write (encodeError msg))

/-- Nothing is sent to a node or is on its way to one that was not before. -/
structure Unsent (t next : Session) : Prop where
  conns : next.conns = t.conns
  dials : next.dials = t.dials
  starts : next.starts = t.starts
  router : next.router = t.router
  mux : next.mux = t.mux

/-- EXEC hands over a queue to a connection or to a dial, or it is answered without sending
anything: the queue is empty, has no node, or its node cannot be dialled. -/
inductive Handed (t : Session) (env : Env) (queue : List Req) (next : Session) : Prop
  | sent {c slotIdx : ℕ} {b : Backend} (hc : t.conns c = some b) (hopen : b.isClosed = false)
      (hconns : next.conns = (t.setConn c (b.push .multi (.multiStart queue slotIdx))).conns)
      (hdials : next.dials = t.dials)
  | dialled {addr : Bytes} {slotIdx : ℕ} (hdials : next.dials = t.dials ++ [.multi addr queue slotIdx])
  | empty (hqueue : queue = []) (hnext : next = t.leaveMulti.write (encodeValue (.array [])))
  | refused (msg : Bytes) (hnext : next = t.leaveMulti.writeImmediate (encodeError msg))
  | unreachable {addr msg : Bytes} (hdial : dialError addr (env.dial addr) = some msg)
      (hnext : next = t.dropMulti.leaveMulti.allocResponseSlot.fillResponseSlot t.dropMulti.nextSlot
        (encodeError msg))

/-- What a request is answered with in a transaction. -/
inductive MultiPlan (env : Env) (t : Session) (req : Request) : Plan → Prop
  | empty (hargs : req.args = []) (msg : Bytes) : MultiPlan env t req (.write (encodeError msg))
  | queue (hargs : req.args ≠ []) (hends : (Verb.of req).endsMulti = false) :
      MultiPlan env t req .queue
  | fail (hargs : req.args ≠ []) (hends : (Verb.of req).endsMulti = false) (msg : Bytes) :
      MultiPlan env t req (.queueError (encodeError msg))
  | refuse (hargs : req.args ≠ []) (hends : (Verb.of req).endsMulti = false) (msg : Bytes) :
      MultiPlan env t req (.reply (encodeError msg))
  | exec (hargs : req.args ≠ []) (hverb : Verb.of req = .exec) :
      MultiPlan env t req (execMulti env t)
  | discard (hargs : req.args ≠ []) (hverb : Verb.of req = .discard) : MultiPlan env t req .discard
  | reset (hargs : req.args ≠ []) (hverb : Verb.of req = .reset) : MultiPlan env t req .reset
  | quit (hargs : req.args ≠ []) (hverb : Verb.of req = .quit) : MultiPlan env t req .quit

theorem multiPlan_queueRequest (env : Env) (t : Session) {req : Request} (hargs : req.args ≠ [])
    (hends : (Verb.of req).endsMulti = false) : MultiPlan env t req (queueRequest req) := by
  unfold queueRequest
  split
  · exact .fail hargs hends _
  split
  · exact .fail hargs hends _
  · exact .queue hargs hends

theorem multiPlan_dispatch (hmulti : t.InMulti) (cfg : Config) (env : Env) (req : Request) :
    MultiPlan env t req (dispatchClientRequest cfg env t req) := by
  unfold dispatchClientRequest
  split
  · rename_i hargs
    exact .empty hargs _
  rename_i hargs
  have hhandle : MultiPlan env t req (handleInMulti env t req) := by
    unfold handleInMulti
    cases hverb : Verb.of req with
    | exec => exact .exec hargs hverb
    | discard => exact .discard hargs hverb
    | reset => exact .reset hargs hverb
    | quit => exact .quit hargs hverb
    | multi | watch | unwatch => exact .refuse hargs (by rw [hverb]; rfl) _
    | _ => exact multiPlan_queueRequest env t hargs (by rw [hverb]; rfl)
  rcases hmulti with h | h <;> rw [h] <;> exact hhandle

theorem unsent_writeImmediate (s : Session) (data : Bytes) : Unsent s (s.writeImmediate data) := by
  have hrest := Untouched.writeImmediate s data
  exact ⟨conns_writeImmediate s data, hrest.dials, hrest.starts, hrest.router, hrest.mux⟩

theorem HeldBack.unsent (h : HeldBack t req next) : Unsent t next := by
  cases h with
  | queued =>
    obtain ⟨hconns, hdials, hstarts, hrouter, hmux⟩ :=
      unsent_writeImmediate { t with txQueue := t.txQueue ++ [req] } _
    exact ⟨hconns, hdials, hstarts, hrouter, hmux⟩
  | failed msg =>
    obtain ⟨hconns, hdials, hstarts, hrouter, hmux⟩ :=
      unsent_writeImmediate { t with txErr := true } (encodeError msg)
    exact ⟨hconns, hdials, hstarts, hrouter, hmux⟩
  | refused msg => exact unsent_writeImmediate t _
  | empty hargs msg => exact ⟨rfl, rfl, rfl, rfl, rfl⟩

section InMulti

variable {cfg : Config} {t : Session} {env : Env} {req : Req}

theorem heldBack_dispatch (hmulti : t.InMulti)
    (hends : req.body.args = [] ∨ (Verb.of req.body).endsMulti = false) :
    HeldBack t req (t.dispatch cfg env req) := by
  have hplan := multiPlan_dispatch hmulti cfg env req.body
  have hverb : ∀ {v : Verb}, req.body.args ≠ [] → Verb.of req.body = v → v.endsMulti = false := by
    rintro v hargs rfl
    exact hends.resolve_left hargs
  unfold dispatch
  generalize dispatchClientRequest cfg env t req.body = plan at hplan ⊢
  cases hplan with
  | empty hargs msg => exact .empty hargs msg
  | queue _ _ => exact .queued
  | fail _ _ msg => exact .failed msg
  | refuse _ _ msg => exact .refused msg
  | exec hargs hexec => cases hverb hargs hexec
  | discard hargs hdiscard => cases hverb hargs hdiscard
  | reset hargs hreset => cases hverb hargs hreset
  | quit hargs hquit => cases hverb hargs hquit

theorem dials_execOn (s : Session) (c : ℕ) (queue : List Req) :
    (s.execOn c queue).dials = s.dials := by
  unfold execOn request
  split <;> rfl

theorem handed_execOn {u : Session} (hc : t.conns c = some b) (hopen : b.isClosed = false)
    (hconns : u.conns = t.conns) (hdials : u.dials = t.dials) (queue : List Req) :
    Handed t env queue (u.execOn c queue) := by
  have hnext : (u.execOn c queue).conns =
      (t.setConn c (b.push .multi (.multiStart queue u.nextSlot))).conns := by
    rw [conns_execOn (hconns ▸ hc)]
    simp only [setConn, hconns]
  exact .sent hc hopen hnext ((dials_execOn u c queue).trans hdials)

theorem handed_execUnwatched (hconn : t.ConnInv) (hmulti : t.InMulti) :
    Handed t env t.txQueue (t.perform env req (execUnwatched env t)) := by
  have hdial : ∀ addr, Handed t env t.txQueue (t.perform env req (.execDial addr)) := by
    intro addr
    have hdials : t.dropMulti.dials = t.dials :=
      (Untouched.closeConn (ne_of_inMulti hmulti).2.2 t.multiBackend).dials
    simp only [perform, dialMultiBackend]
    split
    · rename_i msg hdial
      exact .unreachable hdial rfl
    · exact .dialled (by rw [← hdials]; rfl)
  unfold execUnwatched
  split
  · rename_i hqueue
    exact .empty hqueue rfl
  split
  · rename_i msg _
    exact .refused msg rfl
  rename_i addr _
  split
  · exact hdial addr
  rename_i c hbackend
  split
  · obtain ⟨b, hc, -, hopen, -⟩ := hconn.multi c hbackend
    exact handed_execOn (u := { t.leaveMulti with multiBackend := none }) hc hopen rfl rfl
      t.txQueue
  · exact hdial addr

/-- EXEC hands over the queue. -/
theorem handed_dispatch (hconn : t.ConnInv) (hexec : t.Executes req.body)
    (hargs : req.body.args ≠ []) : Handed t env t.txQueue (t.dispatch cfg env req) := by
  obtain ⟨hmulti, hverb, herr⟩ := hexec
  have hplan : dispatchClientRequest cfg env t req.body = execMulti env t := by
    unfold dispatchClientRequest handleInMulti
    rw [if_neg hargs, hverb]
    rcases hmulti with h | h <;> rw [h]
  unfold dispatch
  rw [hplan, execMulti, herr, if_neg (by decide)]
  split
  · split
    · rename_i c hwatch
      obtain ⟨b, hc, -, hopen, -⟩ := hconn.watch c hwatch
      exact handed_execOn (u := { t.leaveMulti with watchBackend := none, watchAddr := [] }) hc hopen
        rfl rfl t.txQueue
    · exact handed_execUnwatched hconn hmulti
  · exact handed_execUnwatched hconn hmulti

/-- EXEC leaves the transaction. -/
theorem state_execMulti :
    (t.perform env req (execMulti env t)).state = .normal := by
  have hdial : ∀ addr, (t.perform env req (.execDial addr)).state = .normal := by
    intro addr
    simp only [perform, dialMultiBackend]
    split <;> rfl
  have hunwatched : (t.perform env req (execUnwatched env t)).state = .normal := by
    unfold execUnwatched
    split
    · rfl
    split
    · exact state_writeImmediate _ _
    split
    · exact hdial _
    split
    · exact state_request _ _ _ _
    · exact hdial _
  unfold execMulti
  split
  · have hleft : t.leaveMulti.state = .normal := rfl
    have hwatch : t.leaveMulti.dropWatch.state = .normal :=
      (state_dropWatch (hleft ▸ by decide)).trans hleft
    rw [perform, state_writeImmediate, state_dropMulti (hwatch ▸ by decide), hwatch]
  · split
    · split
      · exact state_request _ _ _ _
      · exact hunwatched
    · exact hunwatched

theorem openQueue_of_normal (h : s.state = .normal) : s.openQueue = none :=
  openQueue_of_not (by simp [InMulti, h])

/-- The log follows a request in a transaction. -/
theorem track_of_inMulti (hmulti : t.InMulti) (htx : tx.queued = t.openQueue) :
    (tx.track t req (dispatchClientRequest cfg env t req.body)).queued =
      (t.dispatch cfg env req).openQueue := by
  have hplan := multiPlan_dispatch hmulti cfg env req.body
  rw [openQueue_of_inMulti hmulti] at htx
  have hother : ∀ {plan : Plan}, req.body.args ≠ [] → (Verb.of req.body).endsMulti = false →
      tx.track t req plan =
        match plan with
        | .enterMulti _ => { tx with queued := some [] }
        | .queue => { tx with queued := tx.queued.map (· ++ [req]) }
        | _ => tx := by
    intro plan hargs hends
    refine Tx.track_other hargs ?_ ?_ ?_ <;> intro hverb <;> rw [hverb] at hends <;> cases hends
  have hkept : ∀ {next : Session}, next.state = t.state → next.txQueue = t.txQueue →
      tx.queued = next.openQueue := by
    intro next hstate hqueue
    rw [htx, openQueue_congr hstate hqueue, openQueue_of_inMulti hmulti]
  unfold dispatch
  generalize dispatchClientRequest cfg env t req.body = plan at hplan ⊢
  cases hplan with
  | empty hargs msg =>
    rw [Tx.track_of_nil hargs]
    exact hkept rfl rfl
  | queue hargs hends =>
    rw [hother hargs hends, perform, openQueue_congr (s := { t with txQueue := t.txQueue ++ [req] })
      (state_writeImmediate _ _) (Untouched.writeImmediate _ _).queue]
    rw [htx]
    exact (openQueue_of_inMulti (s := { t with txQueue := t.txQueue ++ [req] }) hmulti).symm
  | fail hargs hends msg | refuse hargs hends msg =>
    rw [hother hargs hends, perform]
    exact hkept (state_writeImmediate _ _) (Untouched.writeImmediate _ _).queue
  | exec hargs hverb => rw [openQueue_of_normal state_execMulti, Tx.track_exec hargs hverb]
  | discard hargs hverb =>
    rw [openQueue_of_normal (state_writeImmediate _ _), Tx.track_end hargs (.inl hverb)]
  | reset hargs hverb =>
    rw [perform, openQueue_of_normal ((state_writeImmediate _ _).trans (state_resetClientState t)),
      Tx.track_end hargs (.inr hverb)]
  | quit hargs hverb =>
    rw [Tx.track_other hargs (by simp [hverb]) (by simp [hverb]) (by simp [hverb])]
    exact hkept rfl rfl

/-- The log follows a request outside of a transaction. -/
theorem track_of_not (hmulti : ¬ t.InMulti) (htx : tx.queued = t.openQueue) :
    (tx.track t req (dispatchClientRequest cfg env t req.body)).queued =
      (t.dispatch cfg env req).openQueue := by
  have hchooses := chooses_dispatchClientRequest cfg env t req.body
  rw [openQueue_of_not hmulti] at htx
  unfold dispatch
  rw [openQueue_perform_of_not hmulti env req hchooses]
  generalize dispatchClientRequest cfg env t req.body = plan at hchooses ⊢
  cases plan with
  | enterMulti state =>
    obtain ⟨⟨hargs, -⟩, hverb, -⟩ := hchooses
    rw [Tx.track_other hargs (by simp [hverb]) (by simp [hverb]) (by simp [hverb])]
  | queue => exact absurd hchooses.1 hmulti
  | _ =>
    unfold Tx.track
    split
    · exact htx
    split
    · rfl
    · rfl
    · rfl
    · exact htx

end InMulti

/-! ### Runs -/

/-- The log of transactions agrees with the client, and the connections carry executed
transactions only. -/
structure TxInv (tx : Tx) (s : Session) : Prop where
  conn : s.ConnInv
  wire : s.WireInv (· ∈ tx.execs)
  queued : tx.queued = s.openQueue

theorem execs_step (hmem : queue ∈ tx.execs) : queue ∈ (tx.step cfg s e).execs := by
  unfold Tx.step
  split
  · unfold Tx.track
    split
    · exact hmem
    split
    · exact List.mem_append_left _ hmem
    · exact hmem
    · exact hmem
    · split <;> exact hmem
  · exact hmem

theorem openQueue_of_dispatched {env : Env} (hsome : s.dispatched e = some (t, env, req)) :
    t.openQueue = s.openQueue := by
  obtain ⟨serving, arrived, draining, rfl⟩ := dispatched_served hsome
  rfl

/-- The log follows every step. -/
theorem queued_step (hconn : s.ConnInv) (htx : tx.queued = s.openQueue)
    (hcalm : s.calmInMulti e = true) : (tx.step cfg s e).queued = (s.exec cfg e).openQueue := by
  have hdispatched : ∀ {t env req}, s.dispatched e = some (t, env, req) →
      (tx.step cfg s e).queued = (t.dispatch cfg env req).openQueue := by
    intro t env req hsome
    have htx' : tx.queued = t.openQueue := htx.trans (openQueue_of_dispatched hsome).symm
    simp only [Tx.step, hsome]
    by_cases hmulti : t.InMulti
    · exact track_of_inMulti hmulti htx'
    · exact track_of_not hmulti htx'
  have hnothing : s.dispatched e = none → tx.step cfg s e = tx := by
    intro hnone
    simp only [Tx.step, hnone]
  have heffect := effect_exec cfg s e
  generalize s.exec cfg e = next at heffect ⊢
  cases heffect with
  | none hnone => rw [hnothing hnone, htx]
  | dispatch hsome _ => exact hdispatched hsome
  | quit hsome _ => rw [hdispatched hsome, openQueue_onClientClose]
  | stop hsome _ =>
    rw [hdispatched hsome]
    exact (openQueue_congr rfl rfl).symm
  | protocolError hnone _ _ =>
    rw [hnothing hnone, htx, openQueue_onClientClose]
    exact (openQueue_congr rfl rfl).symm
  | other hnone he _ =>
    rw [hnothing hnone, htx, openQueue_onEvent hconn cfg he (calm_of_calmInMulti hcalm)]

theorem TxInv.exec (h : TxInv tx s) (hcalm : s.calmInMulti e = true)
    (hclear : s.findsClear cfg e = true) : TxInv (tx.step cfg s e) (s.exec cfg e) := by
  refine ⟨h.conn.exec cfg e, ?_, queued_step h.conn h.queued hcalm⟩
  have hwire : s.WireInv (· ∈ (tx.step cfg s e).execs) := h.wire.mono fun _ => execs_step
  refine hwire.exec h.conn hclear fun t env req hsome hargs hexec => ?_
  obtain ⟨hmulti, hverb, herr⟩ := hexec
  have hqueued : tx.queued = some t.txQueue := by
    rw [h.queued, ← openQueue_of_dispatched hsome, openQueue_of_inMulti hmulti]
  simp only [Tx.step, hsome, Tx.track_exec hargs hverb, herr, hqueued]
  simp

theorem txInv_new (cfg : Config) (policy : GrowthPolicy) : TxInv {} (new cfg policy) :=
  ⟨connInv_new cfg policy, wireInv_new _ cfg policy, rfl⟩

theorem exec_multiStart (hlive : s.dead = false) (hdraining : s.draining = [])
    (hc : s.conns c = some b) (hopen : b.isClosed = false) (hown : b.own = true) {slotIdx : ℕ}
    {rest : List Callback} (hpending : b.pending = .multiStart queue slotIdx :: rest)
    (cfg : Config) (env : Env) (hok : v.isError = false) :
    ((s.exec cfg (.value env c v)).conns c).map Backend.wire =
      some (b.wire ++ (queue.map .queued ++ [.exec])) := by
  have hvalue : s.onBackendValue env c v =
      (s.setConn c { b with pending := rest }).sendQueue c queue slotIdx := by
    unfold onBackendValue
    rw [hc]
    simp only
    rw [if_neg (by simp [hopen, hown]), hpending]
    simp only [respond]
    rw [if_neg (by simp [hok])]
  unfold exec
  rw [if_neg (by simp [hlive]), if_pos hdraining, onEvent, hvalue,
    sendQueue_of_some (setConn_self s c _), setConn_self]
  exact congrArg some (Backend.pushQueue_wire (b := { b with pending := rest }) hopen queue slotIdx).1

/-- Requests of a client in a transaction are held back, and EXEC hands over their queue. -/
structure Isolated (cfg : Config) (s : Session) (tx : Tx) : Prop where
  /-- The client is in a MULTI state as long as its transaction is open. -/
  queued : tx.queued = s.openQueue
  /-- The connections carry nothing but executed transactions, each between MULTI and EXEC. -/
  wire : ∀ c b, s.conns c = some b → b.kind ≠ .blocking → TxWire (· ∈ tx.execs) b.wire
  held : ∀ e t env req queue, s.dispatched e = some (t, env, req) → tx.queued = some queue →
    (req.body.args = [] ∨ (Verb.of req.body).endsMulti = false) →
      HeldBack t req (s.exec cfg e) ∧ Unsent t (s.exec cfg e)
  handed : ∀ e t env req queue, s.dispatched e = some (t, env, req) → tx.queued = some queue →
    req.body.args ≠ [] → Verb.of req.body = .exec → t.txErr = false →
      Handed t env queue (s.exec cfg e)
  /-- The reply to MULTI sends the queue and EXEC. -/
  sent : ∀ env c v b queue slotIdx rest, s.dead = false → s.draining = [] →
    s.conns c = some b → b.isClosed = false → b.own = true →
    b.pending = .multiStart queue slotIdx :: rest → v.isError = false →
      ((s.exec cfg (.value env c v)).conns c).map Backend.wire =
        some (b.wire ++ (queue.map .queued ++ [.exec]))

theorem TxInv.isolated (h : TxInv tx s) (cfg : Config) : Isolated cfg s tx := by
  have hopen : ∀ {e t env req queue}, s.dispatched e = some (t, env, req) →
      tx.queued = some queue → t.InMulti ∧ t.txQueue = queue := by
    intro e t env req queue hsome hqueued
    rw [h.queued, ← openQueue_of_dispatched hsome] at hqueued
    unfold openQueue at hqueued
    split at hqueued
    · rename_i hmulti
      exact ⟨hmulti, Option.some.inj hqueued⟩
    · cases hqueued
  refine ⟨h.queued, fun c b hc hkind => (h.wire.conns c b hc hkind).wire, ?_, ?_, ?_⟩
  · intro e t env req queue hsome hqueued hends
    have hverb : req.body.args = [] ∨ Verb.of req.body ≠ .quit := by
      refine hends.imp_right fun hends hquit => ?_
      rw [hquit] at hends
      cases hends
    rw [exec_of_dispatched hsome hverb]
    have hheld : HeldBack t req (t.dispatch cfg env req) :=
      heldBack_dispatch (hopen hsome hqueued).1 hends
    exact ⟨hheld, hheld.unsent⟩
  · intro e t env req queue hsome hqueued hargs hverb herr
    obtain ⟨hmulti, rfl⟩ := hopen hsome hqueued
    have hconn : t.ConnInv := by
      obtain ⟨serving, arrived, draining, rfl⟩ := dispatched_served hsome
      exact h.conn.congr rfl
    rw [exec_of_dispatched hsome (.inr (by simp [hverb]))]
    exact handed_dispatch hconn ⟨hmulti, hverb, herr⟩ hargs
  · intro env c v b queue slotIdx rest hlive hdraining hc hopen hown hpending hok
    exact exec_multiStart hlive hdraining hc hopen hown hpending cfg env hok

/-- In every run in which the events of a transaction are calm and EXEC and DISCARD find the
multi connection clear, the transactions of the client are isolated. An event that is not a
request keeps the MULTI state if and only if it is calm. -/
theorem multi_isolates {cfg : Config} {policy : GrowthPolicy} {events : List SessionEvent}
    (hmeets : Runs.Meets (exec cfg)
      (fun s e => s.calmInMulti e = true ∧ s.findsClear cfg e = true) (new cfg policy) events) :
    Isolated cfg (after cfg policy events) (transactions cfg policy events) ∧
      ∀ e, (after cfg policy events).InMulti → e.dispatches = false →
        (((after cfg policy events).onEvent cfg e).state = (after cfg policy events).state ↔
          (after cfg policy events).calm e = true) := by
  have hstep : ∀ (st : Session × Tx) (e : SessionEvent), TxInv st.2 st.1 →
      st.1.calmInMulti e = true ∧ st.1.findsClear cfg e = true →
        TxInv (Runs.withLog (exec cfg) (Tx.step cfg) st e).2
          (Runs.withLog (exec cfg) (Tx.step cfg) st e).1 :=
    fun st e h hok => h.exec hok.1 hok.2
  have hinv := (hmeets.withLog (Tx.step cfg) {}).invariant hstep (txInv_new cfg policy)
  rw [Runs.run_withLog_fst] at hinv
  refine ⟨TxInv.isolated hinv cfg, fun e hmulti he => ?_⟩
  exact state_onEvent_iff hinv.conn hmulti cfg he

/-- A transaction after its EXEC was written. -/
theorem multi_isolates_set :
    let events := startedTransaction ++
      [.value (.oneNode (bytes "a:1")) 0 (.simpleString (bytes "OK"))]
    Isolated {} (after {} .doubling events) (transactions {} .doubling events) ∧
      (transactions {} .doubling events).execs.map List.length = [1] ∧
      ((after {} .doubling events).conns 0).map (fun b => b.wire.length) = some 3 := by
  intro events
  exact ⟨(multi_isolates (by decide +kernel)).1, by decide +kernel, by decide +kernel⟩

/-- A WATCH is answered after MULTI was accepted. -/
def lateWatch : List SessionEvent :=
  [.request (.oneNode (bytes "a:1")) { args := [bytes "WATCH", bytes "k"], cmd := bytes "WATCH" },
    .opened 0, bare "MULTI", .value (.oneNode (bytes "a:1")) 0 (.simpleString (bytes "OK"))]

/-- The reply to the WATCH takes the client out of the MULTI state, and the next command is
sent at once. -/
theorem late_watch_reply_leaves_multi :
    let set : SessionEvent := .request (.oneNode (bytes "a:1"))
      { args := [bytes "SET", bytes "k", bytes "v"], cmd := bytes "SET" }
    (transactions {} .doubling lateWatch).queued = some [] ∧
      ¬ (after {} .doubling lateWatch).InMulti ∧
      ¬ Isolated {} (after {} .doubling lateWatch) (transactions {} .doubling lateWatch) ∧
      (after {} .doubling (lateWatch ++ [set])).mux.length = 1 := by
  intro set
  have hqueued : (transactions {} .doubling lateWatch).queued = some [] := by decide +kernel
  have hleft : ¬ (after {} .doubling lateWatch).InMulti := by decide +kernel
  refine ⟨hqueued, hleft, fun hisolated => ?_, by decide +kernel⟩
  have hopen := hisolated.queued
  rw [hqueued, openQueue_of_not hleft] at hopen
  cases hopen

end Session

end Pluster.Engine
