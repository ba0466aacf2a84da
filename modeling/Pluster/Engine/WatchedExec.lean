import Pluster.Engine.Awaited
import Pluster.Engine.MultiIsolation

/-!
# WATCH protects EXEC

A log records the connections on which WATCH was acknowledged since the last EXEC, DISCARD,
UNWATCH or RESET. As long as the client keeps its watch connection and stays in a watching
state, EXEC sends its queue on that connection, and all of these WATCH commands were
acknowledged there. The loss of the connection, a WATCH on another node, and a blocking command
or a subscription after WATCH break this, and EXEC then runs unwatched.
-/

namespace Pluster.Engine

open Proto GoStrings GoRuntime

/-- EXEC, DISCARD, UNWATCH and RESET. -/
def Verb.endsWatch : Verb → Bool
  | .exec | .discard | .unwatch | .reset => true
  | _ => false

namespace Session

/-! ### Acknowledged WATCH commands -/

/-- The connection on which an event acknowledges a WATCH. -/
def watchAck (s : Session) : SessionEvent → Option ℕ
  | .value _ c v =>
    if s.dead || s.draining ≠ [] || v.isError then none
    else
      match s.nextCallback c with
      | some (.watchFirst _ _) | some (.watchReuse _) => some c
      | _ => none
  | _ => none

/-- A request ends the watch of the client with its plan. A request that is buffered does so
later. -/
def endsWatch (req : Request) : Plan → Bool
  | .buffer | .write _ => false
  | _ => (Verb.of req).endsWatch

/-- The connections on which WATCH was acknowledged, after one more event. -/
def trackWatch (cfg : Config) (s : Session) (watches : List ℕ) (e : SessionEvent) : List ℕ :=
  match s.dispatched e with
  | some (t, env, req) =>
    if endsWatch req.body (dispatchClientRequest cfg env t req.body) then [] else watches
  | none => watches ++ (s.watchAck e).toList

/-- The connections on which WATCH was acknowledged to a new client, after some events. -/
def watches (cfg : Config) (policy : GrowthPolicy) (events : List SessionEvent) : List ℕ :=
  (Runs.run (Runs.withLog (exec cfg) (trackWatch cfg)) (new cfg policy, []) events).2

/-- The client has a watch connection and is in a watching state. -/
structure Watching (c : ℕ) (s : Session) : Prop where
  backend : s.watchBackend = some c
  state : s.state = .watch ∨ s.state = .watchMulti

/-- The plan neither replaces the watch connection nor leaves the watching state. -/
def sparesPlan (t : Session) : Plan → Bool
  | .watch addr => t.watchAddr = addr
  | .blocking _ | .subscribe => false
  | _ => true

/-- An event that is not a request neither takes the watch connection from the client nor
leaves the watching state: the connection is not lost, no other one opens, no WATCH is
redirected, no blocking command ends, and the hub keeps its connection. -/
def sparesEvent (s : Session) : SessionEvent → Bool
  | .lost c => s.watchBackend ≠ some c
  | .opened i =>
    match s.dials[i]? with
    | some (.watch _) => false
    | _ => true
  | .dialFailed i _ =>
    match s.dials[i]? with
    | some (.blocking _ _) => false
    | _ => true
  | .value _ c v =>
    match s.nextCallback c with
    | some (.watchFirst _ _) => !v.isMovedError
    | some (.blocking _) => false
    | _ => true
  | .hubClosed => s.hub.subs = []
  | _ => true

/-- The event spares the watch of the client. -/
def sparesWatch (cfg : Config) (s : Session) (e : SessionEvent) : Bool :=
  match s.dispatched e with
  | some (t, env, req) => t.sparesPlan (dispatchClientRequest cfg env t req.body)
  | none => s.sparesEvent e

/-- WATCH is acknowledged on the watch connection, and once it has been, events spare the
watch. -/
def keepsWatch (cfg : Config) (s : Session) (watches : List ℕ) (e : SessionEvent) : Bool :=
  (s.watchAck e).all (fun c => s.watchBackend = some c) && (watches = [] || s.sparesWatch cfg e)

/-! ### Events that are not requests -/

theorem Watching.congr {c : ℕ} {s next : Session} (h : Watching c s)
    (hbackend : next.watchBackend = s.watchBackend)
    (hstate : next.state = s.state ∨ next.state = .watch) : Watching c next := by
  refine ⟨hbackend.trans h.backend, ?_⟩
  rcases hstate with hstate | hstate
  · rw [hstate]
    exact h.state
  · exact .inl hstate

theorem Watching.ne_blocking {c : ℕ} {s : Session} (h : Watching c s) : s.state ≠ .blocking := by
  rcases h.state with hstate | hstate <;> simp [hstate]

theorem watchBackend_onBackendClose {s : Session} {c : ℕ} (hne : s.watchBackend ≠ some c) :
    (s.onBackendClose c).watchBackend = s.watchBackend := by
  unfold onBackendClose
  split
  · rfl
  split
  · rfl
  simp only
  split
  · rfl
  split
  · exact if_neg hne
  · exact if_neg hne

theorem watchBackend_request (s : Session) (c : ℕ) (cmd : WireCmd) (cb : Callback) :
    (s.request c cmd cb).watchBackend = s.watchBackend := by
  unfold request
  split <;> rfl

theorem watchBackend_sendQueue (s : Session) (c : ℕ) (queue : List Req) (slotIdx : ℕ) :
    (s.sendQueue c queue slotIdx).watchBackend = s.watchBackend := by
  unfold sendQueue
  rw [watchBackend_request]
  induction queue generalizing s with
  | nil => rfl
  | cons req queue ih => rw [List.foldl_cons, ih, watchBackend_request]

theorem watchBackend_respondAuth (s : Session) (v : Value) :
    (s.respondAuth v).watchBackend = s.watchBackend := by
  unfold respondAuth
  split <;> rfl

theorem watchBackend_authDedicatedConn (s : Session) (cfg : Config) (c : ℕ) :
    (s.authDedicatedConn cfg c).watchBackend = s.watchBackend := by
  unfold authDedicatedConn
  split
  · rfl
  · exact watchBackend_request s c _ _

namespace Watching

variable {s : Session} {c : ℕ}

theorem onBackendClose (h : Watching c s) {d : ℕ} (hne : s.watchBackend ≠ some d) :
    Watching c (s.onBackendClose d) :=
  h.congr (watchBackend_onBackendClose hne) (.inl (state_onBackendClose h.ne_blocking d))

theorem request (h : Watching c s) (d : ℕ) (cmd : WireCmd) (cb : Callback) :
    Watching c (s.request d cmd cb) :=
  h.congr (watchBackend_request s d cmd cb) (.inl (state_request s d cmd cb))

theorem ackWatch (h : Watching c s) (slotIdx : ℕ) (v : Value) :
    Watching c (s.ackWatch slotIdx v) := by
  refine h.congr rfl ?_
  rw [state_ackWatch]
  split
  · exact .inl rfl
  · exact .inr rfl

/-- A reply that is neither a redirection of WATCH nor the end of a blocking command. -/
theorem respond (h : Watching c s) (env : Env) {d : ℕ} (v : Value) {cb : Callback}
    (htx : cb.isTx = true → s.watchBackend ≠ some d)
    (hmoved : ∀ req slotIdx, cb = .watchFirst req slotIdx → v.isMovedError = false)
    (hblocking : ∀ req, cb ≠ .blocking req) : Watching c (s.respond env d v cb) := by
  cases cb with
  | watchFirst req slotIdx =>
    rw [Session.respond, if_neg (by simp [hmoved req slotIdx rfl])]
    exact (h.ackWatch slotIdx v).congr rfl (.inl rfl)
  | watchReuse slotIdx => exact h.ackWatch slotIdx v
  | ignore => exact h
  | auth => exact h.congr (watchBackend_respondAuth s v) (.inl (state_respondAuth s v))
  | authThenBlocking req =>
    have hauth : Watching c (s.respondAuth v) :=
      h.congr (watchBackend_respondAuth s v) (.inl (state_respondAuth s v))
    simp only [Session.respond]
    split
    · exact hauth
    · exact hauth.request d _ _
  | blocking req => exact absurd rfl (hblocking req)
  | multiStart queue slotIdx =>
    simp only [Session.respond]
    split
    · exact (h.onBackendClose (htx rfl)).congr rfl (.inl rfl)
    exact h.congr (watchBackend_sendQueue s d queue slotIdx)
      (.inl (state_sendQueue s d queue slotIdx))
  | execDone slotIdx => exact (h.onBackendClose (htx rfl)).congr rfl (.inl rfl)

theorem onBackendValue (h : Watching c s) (hclean : s.WatchClean) {env : Env} {d : ℕ} {v : Value}
    (hspares : s.sparesEvent (.value env d v) = true) : Watching c (s.onBackendValue env d v) := by
  unfold Session.onBackendValue
  simp only [sparesEvent, nextCallback] at hspares
  cases hd : s.conns d with
  | none => exact h
  | some b =>
    rw [hd] at hspares
    simp only at hspares ⊢
    split
    · exact h
    rename_i hlive
    rw [if_neg hlive] at hspares
    have hlive : b.isClosed = false ∧ b.own = true := by simpa using hlive
    cases hpending : b.pending with
    | nil => exact h
    | cons cb rest =>
      rw [hpending] at hspares
      have hpopped : Watching c (s.setConn d { b with pending := rest }) := h.congr rfl (.inl rfl)
      refine hpopped.respond env v (fun htx => ?_) ?_ ?_
      · exact hclean.ne_of_tx hd hlive.1 hlive.2 (by simp [hpending]) htx
      · rintro req slotIdx rfl
        simpa using hspares
      rintro req rfl
      cases hspares

theorem onBackendOpen (h : Watching c s) (cfg : Config) {d : Dial} (hother : ∀ addr, d ≠ .watch addr) :
    Watching c (s.onBackendOpen cfg d) := by
  refine h.congr ?_ (.inl (state_onBackendOpen s cfg d))
  cases d with
  | watch addr => exact absurd rfl (hother addr)
  | multi addr queue slotIdx => rfl
  | blocking addr req =>
    simp only [Session.onBackendOpen]
    split
    · exact watchBackend_request _ _ _ _
    · exact watchBackend_request _ _ _ _

/-- An event that spares the watch keeps it, unless the client is gone. -/
theorem onEvent (h : Watching c s) (hclean : s.WatchClean) (cfg : Config) {e : SessionEvent}
    (he : e.dispatches = false) (hspares : s.sparesEvent e = true) :
    (s.onEvent cfg e).dead = true ∨ Watching c (s.onEvent cfg e) := by
  cases e with
  | request env req | protocolError err | drain env => cases he
  | clientClosed => exact .inl (dead_onClientClose s)
  | opened i =>
    right
    simp only [Session.onEvent, sparesEvent] at hspares ⊢
    cases hdial : s.dials[i]? with
    | none => exact h
    | some d =>
      have herased : Watching c { s with dials := s.dials.eraseIdx i } := h.congr rfl (.inl rfl)
      refine herased.onBackendOpen cfg ?_
      rintro addr rfl
      rw [hdial] at hspares
      cases hspares
  | dialFailed i err =>
    right
    simp only [Session.onEvent, sparesEvent] at hspares ⊢
    cases hdial : s.dials[i]? with
    | none => exact h
    | some d =>
      cases d with
      | watch addr | multi addr queue slotIdx => exact h.congr rfl (.inl rfl)
      | blocking addr req =>
        rw [hdial] at hspares
        cases hspares
  | value env d v => exact .inr (h.onBackendValue hclean hspares)
  | lost d => exact .inr (h.onBackendClose (by simpa [sparesEvent] using hspares))
  | task i =>
    right
    simp only [Session.onEvent]
    split
    · exact h
    rename_i t _
    cases t with
    | fill slotIdx data => exact h.congr rfl (.inl rfl)
    | startMulti d queue slotIdx =>
      refine Watching.request (h.congr ?_ (.inl ?_)) d _ _
      · exact watchBackend_authDedicatedConn _ cfg d
      · exact state_authDedicatedConn _ cfg d
  | routerDone i data | muxFailed i err =>
    right
    simp only [Session.onEvent]
    split
    · exact h
    · exact h.congr rfl (.inl rfl)
  | muxReply i data =>
    right
    simp only [Session.onEvent]
    split
    · exact h
    unfold onMuxReply
    split <;> exact h.congr rfl (.inl rfl)
  | hubOpened | hubDialFailed | idleReturned addr | maxClientsSet n =>
    exact .inr (h.congr rfl (.inl rfl))
  | hubClosed =>
    have hsubs : s.hub.subs = [] := by simpa [sparesEvent] using hspares
    exact .inr (h.congr rfl (.inl (if_pos hsubs)))
  | idleTaken addr =>
    right
    simp only [Session.onEvent, loseIdle]
    split <;> exact h.congr rfl (.inl rfl)

theorem writeImmediate (h : Watching c s) (data : Bytes) : Watching c (s.writeImmediate data) := by
  have hconn := connPart_writeImmediate s data
  simp only [connPart, Prod.mk.injEq] at hconn
  exact h.congr hconn.2.2.1 (.inl (state_writeImmediate s data))

theorem foldl_writeImmediate (h : Watching c s) (data : List Bytes) :
    Watching c (data.foldl Session.writeImmediate s) := by
  induction data generalizing s with
  | nil => exact h
  | cons d data ih => exact ih (h.writeImmediate d)

/-- A request that neither ends the watch nor takes it from the client. -/
theorem perform (h : Watching c s) (env : Env) (req : Req) {plan : Plan}
    (hchooses : s.Chooses req.body plan) (hspares : s.sparesPlan plan = true)
    (hends : endsWatch req.body plan = false) :
    (s.perform env req plan).dead = true ∨ Watching c (s.perform env req plan) := by
  have hverb : ∀ {v : Verb}, Verb.of req.body = v → v.endsWatch = true →
      endsWatch req.body plan = (Verb.of req.body).endsWatch → False := by
    rintro v rfl htrue hplan
    rw [hplan, htrue] at hends
    cases hends
  cases plan with
  | reply data => exact .inr (h.writeImmediate data)
  | replies loc data =>
    have hloc : Watching c { s with loc } := h.congr rfl (.inl rfl)
    exact .inr (hloc.foldl_writeImmediate data)
  | buffer | write data | quit | push data | router | mux addr | fanOut sends mergeFunc =>
    exact .inr (h.congr rfl (.inl rfl))
  | reset => exact (hverb hchooses rfl rfl).elim
  | enterMulti state =>
    right
    obtain ⟨⟨-, hstate, -⟩, -, rfl⟩ := hchooses
    refine Watching.writeImmediate (s := { s with state := _, txQueue := [], txErr := false })
      ⟨h.backend, .inr ?_⟩ okReply
    have hwatch : s.state = .watch := by
      rcases h.state with hw | hw
      · exact hw
      rw [hw] at hstate
      exact hstate.elim nofun nofun
    simp [hwatch]
  | watch addr =>
    right
    have haddr : s.watchAddr = addr := by simpa [sparesPlan] using hspares
    simp only [Session.perform, startWatch, h.backend, if_pos haddr]
    refine Watching.request ?_ c _ _
    exact h.congr rfl (.inl rfl)
  | unwatch | discard => exact (hverb hchooses.2 rfl rfl).elim
  | subscribe | blocking addr => cases hspares
  | unsubscribe =>
    rcases h.state with hstate | hstate <;> rw [hchooses] at hstate <;> cases hstate
  | queue =>
    exact .inr (Watching.writeImmediate (s := { s with txQueue := s.txQueue ++ [req] })
      (h.congr rfl (.inl rfl)) _)
  | queueError data =>
    exact .inr (Watching.writeImmediate (s := { s with txErr := true }) (h.congr rfl (.inl rfl)) data)
  | execAbort => exact (hverb hchooses.2.1 rfl rfl).elim
  | execWatched d | execEmpty | execError data | execReuse d | execDial addr =>
    exact (hverb hchooses.1.2.1 rfl rfl).elim
  | panic => exact .inl (by simp [Session.perform, dead])

end Watching

/-! ### Runs -/

theorem keepsWatch_iff {cfg : Config} {s : Session} {watches : List ℕ} {e : SessionEvent} :
    s.keepsWatch cfg watches e = true ↔
      (∀ c, s.watchAck e = some c → s.watchBackend = some c) ∧
        (watches = [] ∨ s.sparesWatch cfg e = true) := by
  simp [keepsWatch, Option.all_eq_true]

/-- The connections of the log are the watch connection of a client that is not gone. -/
structure WatchInv (watches : List ℕ) (s : Session) : Prop where
  conn : s.ConnInv
  clean : s.WatchClean
  watching : s.dead = false → ∀ c ∈ watches, Watching c s

theorem watchAck_eq_some {s : Session} {e : SessionEvent} {c : ℕ} (hack : s.watchAck e = some c) :
    s.dead = false ∧ s.draining = [] ∧ ∃ env v b cb rest, e = .value env c v ∧ v.isError = false ∧
      s.conns c = some b ∧ (b.isClosed || !b.own) = false ∧ b.pending = cb :: rest ∧
      ((∃ req slotIdx, cb = .watchFirst req slotIdx) ∨ ∃ slotIdx, cb = .watchReuse slotIdx) := by
  cases e with
  | value env d v =>
    simp only [watchAck] at hack
    split at hack
    · cases hack
    rename_i hok
    simp only [Bool.or_eq_true, not_or, Bool.not_eq_true, decide_eq_false_iff_not, not_not] at hok
    obtain ⟨⟨hlive, hdraining⟩, herror⟩ := hok
    have hcallback : ∀ cb, s.nextCallback d = some cb → ∃ b rest, s.conns d = some b ∧
        (b.isClosed || !b.own) = false ∧ b.pending = cb :: rest := by
      intro cb hnext
      unfold nextCallback at hnext
      split at hnext
      · rename_i b hb
        split at hnext
        · cases hnext
        rename_i hopen
        obtain ⟨rest, hpending⟩ := List.head?_eq_some_iff.mp hnext
        exact ⟨b, rest, hb, by simpa using hopen, hpending⟩
      · cases hnext
    split at hack
    · rename_i req slotIdx hnext
      cases hack
      obtain ⟨b, rest, hb, hopen, hpending⟩ := hcallback _ hnext
      exact ⟨hlive, hdraining, env, v, b, _, rest, rfl, herror, hb, hopen, hpending,
        .inl ⟨req, slotIdx, rfl⟩⟩
    · rename_i slotIdx hnext
      cases hack
      obtain ⟨b, rest, hb, hopen, hpending⟩ := hcallback _ hnext
      exact ⟨hlive, hdraining, env, v, b, _, rest, rfl, herror, hb, hopen, hpending,
        .inr ⟨slotIdx, rfl⟩⟩
    · cases hack
  | _ => cases hack

/-- An acknowledgment on the watch connection. -/
theorem watching_of_watchAck {cfg : Config} {s : Session} {e : SessionEvent} {c : ℕ}
    (hack : s.watchAck e = some c) (hbackend : s.watchBackend = some c) :
    Watching c (s.exec cfg e) := by
  obtain ⟨hlive, hdraining, env, v, b, cb, rest, rfl, herror, hc, hopen, hpending, hcb⟩ :=
    watchAck_eq_some hack
  have hacked : ∀ slotIdx, Watching c
      ((s.setConn c { b with pending := rest }).ackWatch slotIdx v) := by
    refine fun slotIdx => ⟨hbackend, .inl ?_⟩
    rw [state_ackWatch, herror]
    rfl
  have hmoved : v.isMovedError = false := by
    by_contra hmoved
    rw [isError_of_isMovedError (by simpa using hmoved)] at herror
    cases herror
  unfold exec
  rw [if_neg (by simp [hlive]), if_pos hdraining]
  simp only [onEvent, onBackendValue, hc, hopen, hpending]
  rcases hcb with ⟨req, slotIdx, rfl⟩ | ⟨slotIdx, rfl⟩
  · simp only [respond, hmoved]
    exact (hacked slotIdx).congr rfl (.inl rfl)
  · exact hacked slotIdx

/-- An event that spares the watch keeps it, unless the client is gone. -/
theorem Watching.exec {cfg : Config} {s : Session} {c : ℕ} {e : SessionEvent} (h : Watching c s)
    (hclean : s.WatchClean) (hspares : s.sparesWatch cfg e = true)
    (hends : ∀ t env req, s.dispatched e = some (t, env, req) →
      endsWatch req.body (dispatchClientRequest cfg env t req.body) = false) :
    (s.exec cfg e).dead = true ∨ Watching c (s.exec cfg e) := by
  have hdispatched : ∀ {t env req}, s.dispatched e = some (t, env, req) →
      (t.dispatch cfg env req).dead = true ∨ Watching c (t.dispatch cfg env req) := by
    intro t env req hsome
    have hplan : t.sparesPlan (dispatchClientRequest cfg env t req.body) = true := by
      simpa only [sparesWatch, hsome] using hspares
    have hserved : Watching c t := by
      obtain ⟨serving, arrived, draining, rfl⟩ := dispatched_served hsome
      exact h.congr rfl (.inl rfl)
    exact hserved.perform env req (chooses_dispatchClientRequest cfg env t req.body) hplan
      (hends t env req hsome)
  have heffect := effect_exec cfg s e
  generalize s.exec cfg e = next at heffect ⊢
  cases heffect with
  | none _ => exact .inr h
  | dispatch hsome _ => exact hdispatched hsome
  | quit _ _ | protocolError _ _ _ => exact .inl (dead_onClientClose _)
  | stop hsome _ =>
    refine (hdispatched hsome).imp (fun hdead => hdead) fun hwatching => ?_
    exact hwatching.congr rfl (.inl rfl)
  | other hnone he _ =>
    rw [sparesWatch, hnone] at hspares
    exact h.onEvent hclean cfg he hspares

theorem WatchInv.exec {cfg : Config} {watches : List ℕ} {s : Session} (h : WatchInv watches s)
    {e : SessionEvent} (hkeeps : s.keepsWatch cfg watches e = true) :
    WatchInv (s.trackWatch cfg watches e) (s.exec cfg e) := by
  obtain ⟨hack, hspares⟩ := keepsWatch_iff.mp hkeeps
  refine ⟨h.conn.exec cfg e, h.clean.exec h.conn cfg e, fun hlive c hmem => ?_⟩
  have hlived : s.dead = false := by
    by_contra hdead
    rw [exec_of_dead (by simpa using hdead)] at hlive
    exact hdead hlive
  have hgone : (s.exec cfg e).dead ≠ true := by simp [hlive]
  have hkept : c ∈ watches → (∀ t env req, s.dispatched e = some (t, env, req) →
      endsWatch req.body (dispatchClientRequest cfg env t req.body) = false) →
      Watching c (s.exec cfg e) := by
    intro hold hends
    have hspares := hspares.resolve_left (List.ne_nil_of_mem hold)
    exact ((h.watching hlived c hold).exec h.clean hspares hends).resolve_left hgone
  unfold trackWatch at hmem
  split at hmem
  · rename_i t env req hsome
    split at hmem
    · cases hmem
    rename_i hends
    refine hkept hmem fun t' env' req' hsome' => ?_
    rw [hsome] at hsome'
    cases hsome'
    simpa using hends
  · rename_i hnone
    rcases List.mem_append.mp hmem with hold | hacked
    · refine hkept hold fun t env req hsome => ?_
      rw [hnone] at hsome
      cases hsome
    have hacked : s.watchAck e = some c := by simpa using hacked
    exact watching_of_watchAck hacked (hack c hacked)

theorem watchInv_new (cfg : Config) (policy : GrowthPolicy) : WatchInv [] (new cfg policy) :=
  ⟨connInv_new cfg policy, fun _ hwatch => (by cases hwatch), fun _ _ hmem => (by cases hmem)⟩

/-- EXEC sends the queue on a connection that watches, and nowhere else. -/
structure SendsWatched (s next : Session) (queue : List Req) (c : ℕ) : Prop where
  live : s.Live .watch c
  conns : ∃ b slotIdx, s.conns c = some b ∧
    next.conns = (s.setConn c (b.push .multi (.multiStart queue slotIdx))).conns
  dials : next.dials = s.dials
  starts : next.starts = s.starts

theorem starts_execOn (s : Session) (c : ℕ) (queue : List Req) :
    (s.execOn c queue).starts = s.starts := by
  unfold execOn request
  split <;> rfl

theorem sendsWatched_dispatch {t : Session} (hconn : t.ConnInv) {c : ℕ}
    (hwatching : Watching c t) (cfg : Config) (env : Env) {req : Req} (hargs : req.body.args ≠ [])
    (hexec : t.Executes req.body) : SendsWatched t (t.dispatch cfg env req) t.txQueue c := by
  obtain ⟨hmulti, hverb, herr⟩ := hexec
  have hstate : t.state = .watchMulti := by
    rcases hwatching.state with hstate | hstate
    · exact absurd hstate (ne_of_inMulti hmulti).2.1
    · exact hstate
  have hplan : dispatchClientRequest cfg env t req.body = .execWatched c := by
    unfold dispatchClientRequest handleInMulti execMulti
    rw [if_neg hargs, hstate, hverb, herr, if_neg (by decide), if_pos rfl, hwatching.backend]
  have hlive := hconn.watch c hwatching.backend
  obtain ⟨b, hc, -⟩ := hlive
  unfold dispatch
  rw [hplan]
  refine ⟨hconn.watch c hwatching.backend, ⟨b, t.nextSlot, hc, ?_⟩, ?_, ?_⟩
  · exact conns_execOn (s := { t.leaveMulti with watchBackend := none, watchAddr := [] }) hc t.txQueue
  · exact dials_execOn { t.leaveMulti with watchBackend := none, watchAddr := [] } c t.txQueue
  · exact starts_execOn { t.leaveMulti with watchBackend := none, watchAddr := [] } c t.txQueue

theorem WatchInv.sendsWatched {cfg : Config} {watches : List ℕ} {s t : Session}
    (h : WatchInv watches s) {e : SessionEvent} {env : Env} {req : Req}
    (hsome : s.dispatched e = some (t, env, req)) (hargs : req.body.args ≠ [])
    (hexec : t.Executes req.body) {c : ℕ} (hmem : c ∈ watches) :
    SendsWatched s (s.exec cfg e) t.txQueue c := by
  have hwatching : Watching c s := h.watching (live_of_dispatched hsome) c hmem
  rw [exec_of_dispatched hsome (.inr (by simp [hexec.2.1]))]
  obtain ⟨serving, arrived, draining, rfl⟩ := dispatched_served hsome
  have hsends := sendsWatched_dispatch (t := { s with serving, arrived, draining })
    (h.conn.congr rfl) (hwatching.congr rfl (.inl rfl)) cfg env hargs hexec
  exact ⟨hsends.live, hsends.conns, hsends.dials, hsends.starts⟩

/-- In every run that keeps the watch of the client, an EXEC after an acknowledged WATCH sends
the queue on the connection on which every WATCH was acknowledged, and this connection is
open. -/
theorem watch_protects_exec {cfg : Config} {policy : GrowthPolicy} {events : List SessionEvent}
    (hmeets : Runs.Meets (Runs.withLog (exec cfg) (trackWatch cfg))
      (fun st e => st.1.keepsWatch cfg st.2 e = true) (new cfg policy, []) events) :
    ∀ e t env req, (after cfg policy events).dispatched e = some (t, env, req) →
      req.body.args ≠ [] → t.Executes req.body → ∀ c ∈ watches cfg policy events,
        SendsWatched (after cfg policy events) ((after cfg policy events).exec cfg e) t.txQueue c := by
  have hstep : ∀ (st : Session × List ℕ) (e : SessionEvent), WatchInv st.2 st.1 →
      st.1.keepsWatch cfg st.2 e = true →
        WatchInv (Runs.withLog (exec cfg) (trackWatch cfg) st e).2
          (Runs.withLog (exec cfg) (trackWatch cfg) st e).1 :=
    fun st e h hkeeps => h.exec hkeeps
  have hinv := hmeets.invariant hstep (watchInv_new cfg policy)
  rw [Runs.run_withLog_fst] at hinv
  intro e t env req hsome hargs hexec c hmem
  exact hinv.sendsWatched hsome hargs hexec hmem

/-- A WATCH that is acknowledged. -/
def watched (addr : String) (c : ℕ) : List SessionEvent :=
  [.request (.oneNode (bytes addr)) { args := [bytes "WATCH", bytes "k"], cmd := bytes "WATCH" },
    .opened 0, .value (.oneNode (bytes addr)) c (.simpleString (bytes "OK"))]

/-- MULTI and a command that is queued. -/
def queuedSet : List SessionEvent :=
  [bare "MULTI", .request (.oneNode (bytes "a:1"))
    { args := [bytes "SET", bytes "k", bytes "v"], cmd := bytes "SET" }]

/-- EXEC after a WATCH sends MULTI on the connection of the WATCH. -/
theorem watch_protects_exec_set :
    let s := after {} .doubling (watched "a:1" 0 ++ queuedSet)
    (∃ t env req, s.dispatched (bare "EXEC") = some (t, env, req) ∧
      SendsWatched s (s.exec {} (bare "EXEC")) t.txQueue 0) ∧
    watches {} .doubling (watched "a:1" 0 ++ queuedSet) = [0] := by
  intro s
  have hwatches : watches {} .doubling (watched "a:1" 0 ++ queuedSet) = [0] := by decide +kernel
  have hdispatched : ((s.dispatched (bare "EXEC")).map fun d =>
      (d.2.2.body.args ≠ [] ∧ Verb.of d.2.2.body = .exec ∧ d.1.state = .watchMulti ∧
        d.1.txErr = false : Bool)) = some true := by decide +kernel
  obtain ⟨⟨t, env, req⟩, hsome, hexec⟩ := Option.map_eq_some_iff.mp hdispatched
  obtain ⟨hargs, hverb, hstate, herr⟩ := of_decide_eq_true hexec
  refine ⟨⟨t, env, req, hsome, ?_⟩, hwatches⟩
  refine watch_protects_exec ?_ _ t env req hsome hargs ⟨.inr hstate, hverb, herr⟩ 0 ?_
  · decide +kernel
  rw [hwatches]
  exact List.mem_singleton.mpr rfl

/-- The watch connection is lost before EXEC, which then dials another connection for the
queue. A WATCH on another node replaces the connection of the first one, and EXEC sends the
queue on the new one. -/
theorem exec_runs_unwatched :
    let lost := watched "a:1" 0 ++ queuedSet ++ [.lost 0]
    let replaced := watched "a:1" 0 ++ watched "b:1" 1 ++ queuedSet
    watches {} .doubling lost = [0] ∧
      ((after {} .doubling (lost ++ [bare "EXEC"])).dials.map fun
        | .multi addr queue _ => (addr, queue.length)
        | _ => ([], 0)) = [(bytes "a:1", 1)] ∧
      watches {} .doubling replaced = [0, 1] ∧
      ((after {} .doubling (replaced ++ [bare "EXEC"])).conns 1).map (fun b => b.wire.getLast?) =
        some (some .multi) := by
  decide +kernel

end Session

end Pluster.Engine
