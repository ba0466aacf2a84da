import Pluster.Engine.SessionRuns

/-!
# What events do to a client

Every event but a request is a sequence of a few steps: the connections and the work
under way change, a response slot is filled, the client leaves a blocking command or
enters the watching state, and the buffered requests are taken for dispatch. A relation
that these steps satisfy, and that composes, holds between the states before and after
the event.
-/

namespace Pluster.Engine

open Proto GoStrings GoRuntime

variable {s t next : Session} {e : SessionEvent} {env : Env} {req : Req}

/-- The event dispatches a request, or ends the client. -/
def SessionEvent.dispatches : SessionEvent → Bool
  | .request _ _ | .protocolError _ | .drain _ => true
  | _ => false

/-- The event comes from what the clients of the event loop share. -/
def SessionEvent.isShared : SessionEvent → Bool
  | .hubOpened | .hubClosed | .hubDialFailed | .maxClientsSet _ => true
  | _ => false

namespace Session

/-- The fields other than the connections and the work under way. -/
def clientPart (s : Session) : ClientState × Local × List Req × Bool × Hub × RespQueue ×
    List Chunk × List ℕ × List Req × List Req × ℕ × ℕ × Bool × Bool :=
  (s.state, s.loc, s.txQueue, s.txErr, s.hub, s.resp, s.written, s.owners, s.pendingCmds,
    s.draining, s.serving, s.arrived, s.closed, s.panicked)

/-- The request that an event dispatches, with the session that serves it. -/
def dispatched (s : Session) (e : SessionEvent) : Option (Session × Env × Req) :=
  if s.dead then none
  else
    match e, s.draining with
    | .request env req, [] =>
      some ({ s with serving := s.arrived, arrived := s.arrived + 1 }, env, ⟨s.arrived, req⟩)
    | .drain env, req :: rest => some ({ s with serving := req.id, draining := rest }, env, req)
    | _, _ => none

/-- What an event does: nothing, the dispatch of a request, or something else. -/
inductive Effect (cfg : Config) (s : Session) (e : SessionEvent) : Session → Prop
  | none (hnone : s.dispatched e = none) : Effect cfg s e s
  | dispatch {t : Session} {env : Env} {req : Req} (hsome : s.dispatched e = some (t, env, req))
      (hquits : t.quits cfg env req.body = false) : Effect cfg s e (t.dispatch cfg env req)
  | quit {t : Session} {env : Env} {req : Req} (hsome : s.dispatched e = some (t, env, req))
      (hquits : t.quits cfg env req.body = true) :
      Effect cfg s e (t.dispatch cfg env req).onClientClose
  /-- QUIT ends the loop of `drainPendingCmds`. -/
  | stop {t : Session} {env : Env} {req : Req} (hsome : s.dispatched e = some (t, env, req))
      (hquits : t.quits cfg env req.body = true) :
      Effect cfg s e { t.dispatch cfg env req with draining := [] }
  | protocolError {err : Bytes} (hnone : s.dispatched e = Option.none) (he : e = .protocolError err)
      (hdraining : s.draining = []) :
      Effect cfg s e ({ s with serving := s.arrived, arrived := s.arrived + 1 }.write
        (encodeError (bytes "ERR Protocol error: " ++ err))).onClientClose
  | other (hnone : s.dispatched e = Option.none) (he : e.dispatches = false)
      (hdraining : s.draining = []) : Effect cfg s e (s.onEvent cfg e)

theorem effect_exec (cfg : Config) (s : Session) (e : SessionEvent) :
    Effect cfg s e (s.exec cfg e) := by
  unfold exec
  by_cases hdead : s.dead = true
  · rw [if_pos hdead]
    exact .none (by simp [dispatched, hdead])
  rw [if_neg hdead]
  cases hdraining : s.draining with
  | nil =>
    rw [if_pos rfl]
    cases e with
    | request env req =>
      have hsome : s.dispatched (.request env req) =
          some ({ s with serving := s.arrived, arrived := s.arrived + 1 }, env, ⟨s.arrived, req⟩) := by
        simp [dispatched, hdead, hdraining]
      simp only [onEvent, onRequest]
      split
      · rename_i hquits
        exact .quit hsome hquits
      rename_i hquits
      exact .dispatch hsome (by simpa using hquits)
    | protocolError err =>
      exact .protocolError (by simp [dispatched, hdead]) rfl hdraining
    | drain env => exact .none (by simp [dispatched, hdead, hdraining])
    | _ => exact .other (by simp [dispatched, hdead]) rfl hdraining
  | cons req rest =>
    rw [if_neg (by simp)]
    cases e with
    | drain env =>
      have hsome : s.dispatched (.drain env) =
          some ({ s with serving := req.id, draining := rest }, env, req) := by
        simp [dispatched, hdead, hdraining]
      simp only [onDrain, hdraining]
      split
      · rename_i hquits
        exact .stop hsome hquits
      rename_i hquits
      exact .dispatch hsome (by simpa using hquits)
    | _ => exact .none (by simp [dispatched, hdraining])

theorem exec_of_dead (hdead : s.dead = true) (cfg : Config) (e : SessionEvent) : s.exec cfg e = s :=
  if_pos hdead

theorem live_of_dispatched (hsome : s.dispatched e = some (t, env, req)) : s.dead = false := by
  unfold dispatched at hsome
  split at hsome
  · cases hsome
  rename_i hlive
  simpa using hlive

theorem dead_onClientClose (s : Session) : s.onClientClose.dead = true := by
  simp [dead, onClientClose]

/-- The session that serves a request differs from the one before in its logs only. -/
theorem dispatched_served (h : s.dispatched e = some (t, env, req)) :
    ∃ serving arrived draining, t = { s with serving, arrived, draining } := by
  unfold dispatched at h
  split at h
  · cases h
  split at h
  · rename_i hdraining
    cases h
    exact ⟨s.arrived, s.arrived + 1, [], by rw [← hdraining]⟩
  · cases h
    exact ⟨_, s.arrived, _, rfl⟩
  · cases h

end Session

/-- A relation between sessions that the steps of events satisfy. -/
structure StepRel (R : Session → Session → Prop) : Prop where
  trans : ∀ {s t u : Session}, R s t → R t u → R s u
  /-- A change of connections and of the work under way. -/
  same : ∀ {s next : Session}, next.clientPart = s.clientPart → R s next
  fill : ∀ (s : Session) (slotIdx : ℕ) (data : Bytes), R s (s.fillResponseSlotInLoop slotIdx data)
  muxReply : ∀ (s : Session) (entry : MuxEntry) (data : Bytes), R s (s.onMuxReply entry data)
  /-- The end of a blocking command. -/
  unblock : ∀ s : Session, R s { s with state := .normal }
  /-- A WATCH is acknowledged. -/
  watch : ∀ s : Session, R s { s with state := .watch }
  drain : ∀ s : Session, R s s.drainPendingCmds
  close : ∀ s : Session, R s { s with closed := true }

namespace StepRel

variable {R : Session → Session → Prop} (h : StepRel R)

include h

/-- A step from a state with the same client. -/
theorem from_same (hstep : R t next) (hsame : t.clientPart = s.clientPart) : R s next :=
  h.trans (h.same hsame) hstep

/-- A step to a state with the same client. -/
theorem then_same (hstep : R s t) (hsame : next.clientPart = t.clientPart) : R s next :=
  h.trans hstep (h.same hsame)

theorem request (s : Session) (c : ℕ) (cmd : WireCmd) (cb : Callback) :
    R s (s.request c cmd cb) := by
  unfold Session.request
  split <;> exact h.same rfl

theorem interruptBlocking (s : Session) : R s s.interruptBlocking := by
  have hfill := h.fill s s.blockingSlotIdx (encodeError Session.blockingInterrupted)
  exact h.trans (h.trans hfill (h.unblock _)) (h.drain _)

theorem onBackendClose (s : Session) (c : ℕ) : R s (s.onBackendClose c) := by
  unfold Session.onBackendClose
  split
  · exact h.same rfl
  split
  · exact h.same rfl
  simp only
  split
  · exact h.same rfl
  split
  · exact h.from_same (h.interruptBlocking _) rfl
  · exact h.same rfl

theorem closeConn (s : Session) (c : Option ℕ) : R s (s.closeConn c) := by
  cases c with
  | none => exact h.same rfl
  | some c => exact h.onBackendClose s c

theorem dropWatch (s : Session) : R s s.dropWatch := h.then_same (h.closeConn s _) rfl

theorem dropMulti (s : Session) : R s s.dropMulti := h.then_same (h.closeConn s _) rfl

theorem dropBlocking (s : Session) : R s s.dropBlocking := h.then_same (h.closeConn s _) rfl

theorem onClientClose (s : Session) : R s s.onClientClose := by
  have hwatch : R s { s.closeConn s.watchBackend with watchBackend := none } :=
    h.then_same (h.closeConn s _) rfl
  exact h.trans (h.trans (h.trans hwatch (h.dropMulti _)) (h.dropBlocking _)) (h.close _)

theorem dialWatch (s : Session) (env : Env) (req : Req) (slotIdx : ℕ) (addr : Bytes) :
    R s (s.dialWatch env req slotIdx addr) := by
  unfold Session.dialWatch Session.dialDedicatedBackend
  split
  · exact h.from_same (h.fill _ _ _) rfl
  · exact h.same rfl

theorem dialBlockingBackend (s : Session) (env : Env) (addr : Bytes) (req : Req) :
    R s (s.dialBlockingBackend env addr req) := by
  unfold Session.dialBlockingBackend
  split
  · unfold Session.reuseBlockingConn
    split
    · exact h.same rfl
    · exact h.from_same (h.request _ _ _ _) rfl
  · simp only
    split
    · refine h.trans ?_ (h.unblock _)
      exact h.from_same (h.fill _ _ _) rfl
    · exact h.same rfl

theorem returnBlockingConn (s : Session) (c : ℕ) : R s (s.returnBlockingConn c) := by
  unfold Session.returnBlockingConn
  split
  · exact h.same rfl
  split
  · exact h.onBackendClose s c
  split
  · exact h.same rfl
  · exact h.onBackendClose s c

theorem finishBlocking (s : Session) (c : ℕ) (v : Value) : R s (s.finishBlocking c v) := by
  have hfill := h.trans (h.fill s s.blockingSlotIdx (encodeValue v)) (h.unblock _)
  refine h.trans (h.trans hfill ?_) (h.drain _)
  exact h.from_same (h.returnBlockingConn _ c) rfl

theorem handleBlockingResponse (s : Session) (env : Env) (c : ℕ) (v : Value) (req : Req) :
    R s (s.handleBlockingResponse env c v req) := by
  unfold Session.handleBlockingResponse
  split
  · split
    · have hclose := h.onBackendClose { s with blockingBackend := none } c
      exact h.from_same (h.trans hclose (h.dialBlockingBackend _ env _ req)) rfl
    · exact h.finishBlocking s c v
  · exact h.finishBlocking s c v

theorem respondAuth (s : Session) (v : Value) : R s (s.respondAuth v) := by
  unfold Session.respondAuth
  split
  · exact h.fill s _ _
  · exact h.same rfl

theorem ackWatch (s : Session) (slotIdx : ℕ) (v : Value) : R s (s.ackWatch slotIdx v) := by
  unfold Session.ackWatch
  refine h.trans ?_ (h.fill _ _ _)
  split
  · exact h.same rfl
  · exact h.watch s

theorem sendQueue (s : Session) (c : ℕ) (queue : List Req) (slotIdx : ℕ) :
    R s (s.sendQueue c queue slotIdx) := by
  have hqueue : R s (queue.foldl (fun s req => s.request c (.queued req) .ignore) s) := by
    induction queue generalizing s with
    | nil => exact h.same rfl
    | cons req queue ih => exact h.trans (h.request s c _ _) (ih _)
  exact h.trans hqueue (h.request _ c _ _)

theorem respond (s : Session) (env : Env) (c : ℕ) (v : Value) (cb : Callback) :
    R s (s.respond env c v cb) := by
  cases cb with
  | watchFirst req slotIdx =>
    simp only [Session.respond]
    split
    · exact h.from_same (h.dialWatch _ env req slotIdx _) rfl
    · exact h.trans (h.ackWatch s slotIdx v) (h.drain _)
  | watchReuse slotIdx => exact h.ackWatch s slotIdx v
  | ignore => exact h.same rfl
  | auth => exact h.respondAuth s v
  | authThenBlocking req =>
    simp only [Session.respond]
    split
    · exact h.respondAuth s v
    · exact h.trans (h.respondAuth s v) (h.request _ c _ _)
  | blocking req => exact h.handleBlockingResponse s env c v req
  | multiStart queue slotIdx =>
    simp only [Session.respond]
    split
    · exact h.trans (h.onBackendClose s c) (h.fill _ slotIdx _)
    · exact h.sendQueue s c queue slotIdx
  | execDone slotIdx => exact h.trans (h.onBackendClose s c) (h.fill _ slotIdx _)

theorem onBackendValue (s : Session) (env : Env) (c : ℕ) (v : Value) :
    R s (s.onBackendValue env c v) := by
  unfold Session.onBackendValue
  split
  · exact h.same rfl
  split
  · exact h.same rfl
  split
  · exact h.same rfl
  · exact h.from_same (h.respond _ env c v _) rfl

theorem authDedicatedConn (s : Session) (cfg : Config) (c : ℕ) :
    R s (s.authDedicatedConn cfg c) := by
  unfold Session.authDedicatedConn
  split
  · exact h.same rfl
  · exact h.request s c _ _

theorem onBackendOpen (s : Session) (cfg : Config) (d : Dial) : R s (s.onBackendOpen cfg d) := by
  cases d with
  | watch addr =>
    have hauth := h.from_same (s := s) (h.authDedicatedConn
      { { s with nextConn := s.nextConn + 1 }.setConn s.nextConn
          { kind := .watch, addr := s.watchAddr } with watchBackend := some s.nextConn }
      cfg s.nextConn) rfl
    simp only [Session.onBackendOpen]
    split
    · exact hauth
    refine h.trans hauth ?_
    exact h.from_same (h.request _ _ _ _) rfl
  | multi addr queue slotIdx => exact h.same rfl
  | blocking addr req =>
    simp only [Session.onBackendOpen]
    split
    · exact h.from_same (h.request _ _ _ _) rfl
    · exact h.from_same (h.request _ _ _ _) rfl

theorem onDialFailed (s : Session) (err : Bytes) (d : Dial) : R s (s.onDialFailed err d) := by
  cases d with
  | watch addr => exact h.fill s _ _
  | multi addr queue slotIdx => exact h.fill s slotIdx _
  | blocking addr req =>
    have hfill := h.fill s s.blockingSlotIdx
      (encodeError (bytes "ERR blocking backend connection failed: " ++ err))
    refine h.trans (h.trans hfill (h.unblock _)) ?_
    exact h.from_same (h.drain _) rfl

theorem runTask (s : Session) (cfg : Config) (t : Task) : R s (s.runTask cfg t) := by
  cases t with
  | fill slotIdx data => exact h.fill s slotIdx data
  | startMulti c queue slotIdx =>
    exact h.trans (h.authDedicatedConn s cfg c) (h.request _ c _ _)

/-- An event of the client's own work. -/
theorem onEvent (s : Session) (cfg : Config) (hdispatch : e.dispatches = false)
    (hshared : e.isShared = false) : R s (s.onEvent cfg e) := by
  cases e with
  | request env req | protocolError err | drain env => cases hdispatch
  | clientClosed => exact h.onClientClose s
  | opened i =>
    simp only [Session.onEvent]
    split
    · exact h.same rfl
    · exact h.from_same (h.onBackendOpen _ cfg _) rfl
  | dialFailed i err =>
    simp only [Session.onEvent]
    split
    · exact h.same rfl
    · exact h.from_same (h.onDialFailed _ err _) rfl
  | value env c v => exact h.onBackendValue s env c v
  | lost c => exact h.onBackendClose s c
  | task i =>
    simp only [Session.onEvent]
    split
    · exact h.same rfl
    · exact h.from_same (h.runTask _ cfg _) rfl
  | routerDone i data | muxFailed i err =>
    simp only [Session.onEvent]
    split <;> exact h.same rfl
  | muxReply i data =>
    simp only [Session.onEvent]
    split
    · exact h.same rfl
    · exact h.from_same (h.muxReply _ _ data) rfl
  | hubOpened | hubClosed | hubDialFailed | maxClientsSet n => cases hshared
  | idleTaken addr =>
    simp only [Session.onEvent, Session.loseIdle]
    split <;> exact h.same rfl
  | idleReturned addr => exact h.same rfl

end StepRel

namespace Session

/-- A step that keeps the transaction, the local data and the subscriptions, and that sets
the state to the normal or the watching one if it changes it. -/
structure Settles (s next : Session) : Prop where
  loc : next.loc = s.loc
  queue : next.txQueue = s.txQueue
  err : next.txErr = s.txErr
  hub : next.hub = s.hub
  state : next.state = s.state ∨ next.state = .normal ∨ next.state = .watch

theorem Settles.keep (hloc : next.loc = s.loc) (hqueue : next.txQueue = s.txQueue)
    (herr : next.txErr = s.txErr) (hhub : next.hub = s.hub) (hstate : next.state = s.state) :
    Settles s next :=
  ⟨hloc, hqueue, herr, hhub, Or.inl hstate⟩

theorem Settles.trans {u : Session} (h : Settles s t) (h' : Settles t u) : Settles s u where
  loc := h'.loc.trans h.loc
  queue := h'.queue.trans h.queue
  err := h'.err.trans h.err
  hub := h'.hub.trans h.hub
  state := by
    rcases h'.state with hstate | hstate
    · rw [hstate]
      exact h.state
    · exact Or.inr hstate

theorem stepRel_settles : StepRel Settles where
  trans := Settles.trans
  same hsame := by
    simp only [clientPart, Prod.mk.injEq] at hsame
    obtain ⟨hstate, hloc, hqueue, herr, hhub, -⟩ := hsame
    exact .keep hloc hqueue herr hhub hstate
  fill _ _ _ := .keep rfl rfl rfl rfl rfl
  muxReply _ entry _ := by
    unfold onMuxReply
    split <;> exact .keep rfl rfl rfl rfl rfl
  unblock _ := ⟨rfl, rfl, rfl, rfl, Or.inr (Or.inl rfl)⟩
  watch _ := ⟨rfl, rfl, rfl, rfl, Or.inr (Or.inr rfl)⟩
  drain _ := .keep rfl rfl rfl rfl rfl
  close _ := .keep rfl rfl rfl rfl rfl

end Session

end Pluster.Engine
