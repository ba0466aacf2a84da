import Pluster.Engine.Moves

/-!
# What a client waits for

The replies that the open connections of a client wait for, of a kind of callbacks. A
request is held back while a WATCH is dialling or a blocking command is under way, so
these are the callbacks and dials of interest. Everything but a WATCH and a blocking
command leaves them as they are, or drops some of them with a connection.
-/

namespace Pluster.Engine

open Proto GoStrings GoRuntime

variable {b : Backend} {cb : Callback} {s : Session} {c : ℕ}

/-- The response slot that a callback fills, with its reply or after a later one. The
callbacks of a blocking command fill the slot in the context of the client. -/
def Callback.slot (blockingSlot : ℕ) : Callback → Option ℕ
  | .watchFirst _ slotIdx | .watchReuse slotIdx | .multiStart _ slotIdx | .execDone slotIdx =>
    some slotIdx
  | .authThenBlocking _ | .blocking _ => some blockingSlot
  | .ignore | .auth => none

namespace Callback

/-- The reply to a WATCH. -/
def isWatch : Callback → Bool
  | .watchFirst _ _ | .watchReuse _ => true
  | _ => false

/-- The reply to a WATCH or to a blocking command. -/
def isAwaited (cb : Callback) : Bool := cb.isWatch || cb.isBlocking

end Callback

/-- The dial of a WATCH or of a blocking command. -/
def Dial.isAwaited : Dial → Bool
  | .multi _ _ _ => false
  | _ => true

namespace Backend

variable {P : Callback → Bool}

/-- The callbacks of a kind that an open connection of the client has. -/
def awaiting (P : Callback → Bool) (b : Backend) : List Callback :=
  if b.isClosed || !b.own then [] else b.pending.filter P

theorem awaiting_of_live (hopen : b.isClosed = false) (hown : b.own = true) :
    b.awaiting P = b.pending.filter P := by
  simp [awaiting, hopen, hown]

theorem awaiting_of_pending_nil (hpending : b.pending = []) : b.awaiting P = [] := by
  simp [awaiting, hpending]

@[simp] theorem awaiting_close (b : Backend) :
    ({ b with isClosed := true } : Backend).awaiting P = [] := by
  simp [awaiting]

theorem awaiting_push (b : Backend) (cmd : WireCmd) (hcb : P cb = false) :
    (b.push cmd cb).awaiting P = b.awaiting P := by
  simp [awaiting, push, hcb]

theorem awaiting_auth (b : Backend) (cfg : Config) (hauth : P .auth = false) :
    (b.auth cfg).awaiting P = b.awaiting P := by
  unfold auth
  split
  · rfl
  · exact awaiting_push b _ hauth

theorem awaiting_pushQueue (b : Backend) (queue : List Req) (slotIdx : ℕ)
    (hignore : P .ignore = false) (hexec : P (.execDone slotIdx) = false) :
    (b.pushQueue queue slotIdx).awaiting P = b.awaiting P := by
  unfold pushQueue
  rw [awaiting_push _ _ hexec]
  induction queue generalizing b with
  | nil => rfl
  | cons req queue ih => rw [List.foldl_cons, ih, awaiting_push _ _ hignore]

end Backend

namespace Session

variable {P : Callback → Bool}

/-- The callbacks of a kind that an open connection of the client has. -/
def awaiting (P : Callback → Bool) (s : Session) (c : ℕ) : List Callback :=
  match s.conns c with
  | none => []
  | some b => b.awaiting P

theorem awaiting_of_some (hc : s.conns c = some b) : s.awaiting P c = b.awaiting P := by
  rw [awaiting, hc]

theorem awaiting_of_conns {next : Session} (hconns : next.conns = s.conns) :
    next.awaiting P = s.awaiting P := by
  funext c
  simp only [awaiting, hconns]

theorem awaiting_setConn (s : Session) (c : ℕ) (b : Backend) :
    (s.setConn c b).awaiting P = Function.update (s.awaiting P) c (b.awaiting P) := by
  funext d
  by_cases hd : d = c
  · subst hd
    rw [Function.update_self, awaiting_of_some (setConn_self s d b)]
  rw [Function.update_of_ne hd, awaiting, setConn_of_ne s b hd]
  rfl

/-- A connection changes, but not what it waits for. -/
theorem awaiting_setConn_of_eq {b' : Backend} (hc : s.conns c = some b)
    (hsame : b'.awaiting P = b.awaiting P) : (s.setConn c b').awaiting P = s.awaiting P := by
  rw [awaiting_setConn, hsame, ← awaiting_of_some hc, Function.update_eq_self]

theorem awaiting_request (s : Session) (c : ℕ) (cmd : WireCmd) (hcb : P cb = false) :
    (s.request c cmd cb).awaiting P = s.awaiting P := by
  cases hc : s.conns c with
  | none => rw [request_of_none hc]
  | some b =>
    rw [request_of_some hc]
    exact awaiting_setConn_of_eq hc (b.awaiting_push cmd hcb)

/-- A connection that closes waits for nothing. -/
theorem awaiting_onBackendClose (s : Session) (c : ℕ) :
    (s.onBackendClose c).awaiting P = Function.update (s.awaiting P) c [] := by
  have hmarked : ∀ b : Backend, (s.setConn c { b with isClosed := true }).awaiting P =
      Function.update (s.awaiting P) c [] := by
    intro b
    rw [awaiting_setConn, Backend.awaiting_close]
  unfold onBackendClose
  split
  · rename_i hc
    have hnil : s.awaiting P c = [] := by rw [awaiting, hc]
    rw [← hnil, Function.update_eq_self]
  rename_i b hc
  split
  · rename_i hclosed
    have hnil : s.awaiting P c = [] := by
      rw [awaiting_of_some hc]
      simp [Backend.awaiting, hclosed]
    rw [← hnil, Function.update_eq_self]
  · simp only
    split
    · exact hmarked b
    split
    · exact (awaiting_of_conns rfl).trans (hmarked b)
    · exact (awaiting_of_conns rfl).trans (hmarked b)

theorem awaiting_onBackendClose_subset (s : Session) (c d : ℕ) :
    (s.onBackendClose c).awaiting P d ⊆ s.awaiting P d := by
  rw [awaiting_onBackendClose]
  by_cases hd : d = c
  · subst hd
    simp
  rw [Function.update_of_ne hd]
  exact List.Subset.refl _

/-- The dials of WATCH and of blocking commands. -/
def awaitedDials (s : Session) : List Dial := s.dials.filter Dial.isAwaited

/-- The fields that matter for what the client waits for. -/
def waitPart (s : Session) : (ℕ → Option Backend) × List Dial × Option Req × Option ℕ × Option ℕ ×
    List Req × ClientState :=
  (s.conns, s.dials, s.pendingWatchReq, s.blockingBackend, s.watchBackend, s.pendingCmds, s.state)

/-- A step that adds nothing to what the client waits for. -/
structure Calm (s next : Session) : Prop where
  awaited : ∀ c, next.awaiting Callback.isAwaited c ⊆ s.awaiting Callback.isAwaited c
  dials : next.awaitedDials = s.awaitedDials
  watchReq : next.pendingWatchReq = s.pendingWatchReq
  blocking : next.blockingBackend = s.blockingBackend ∨ next.blockingBackend = none
  pending : next.pendingCmds = s.pendingCmds ∨ next.pendingCmds = []
  state : s.state ≠ .blocking → next.state ≠ .blocking

namespace Calm

variable {s t u next : Session}

theorem trans (h : Calm s t) (h' : Calm t u) : Calm s u where
  awaited c := List.Subset.trans (h'.awaited c) (h.awaited c)
  dials := h'.dials.trans h.dials
  watchReq := h'.watchReq.trans h.watchReq
  blocking := by
    rcases h'.blocking with hblocking | hblocking
    · rw [hblocking]
      exact h.blocking
    · exact Or.inr hblocking
  pending := by
    rcases h'.pending with hpending | hpending
    · rw [hpending]
      exact h.pending
    · exact Or.inr hpending
  state hstate := h'.state (h.state hstate)

/-- The step changes fields that do not matter. -/
theorem same (hsame : next.waitPart = s.waitPart) : Calm s next := by
  simp only [waitPart, Prod.mk.injEq] at hsame
  obtain ⟨hconns, hdials, hreq, hblocking, -, hpending, hstate⟩ := hsame
  refine ⟨fun c => ?_, ?_, hreq, Or.inl hblocking, Or.inl hpending, ?_⟩
  · rw [awaiting_of_conns hconns]
    exact List.Subset.refl _
  · rw [awaitedDials, awaitedDials, hdials]
  rw [hstate]
  exact id

/-- The step changes the state of the client too. -/
theorem setState {state : ClientState} (h : Calm s next) (hstate : state ≠ .blocking) :
    Calm s { next with state } :=
  ⟨h.awaited, h.dials, h.watchReq, h.blocking, h.pending, fun _ => hstate⟩

theorem writeImmediate (s : Session) (data : Bytes) : Calm s (s.writeImmediate data) := by
  unfold Session.writeImmediate
  split
  · exact same rfl
  · exact same rfl

theorem foldl_writeImmediate (s : Session) (data : List Bytes) :
    Calm s (data.foldl Session.writeImmediate s) := by
  induction data generalizing s with
  | nil => exact same rfl
  | cons d data ih => exact (writeImmediate s d).trans (ih _)

/-- A command whose reply is not awaited. -/
theorem request (s : Session) (c : ℕ) (cmd : WireCmd) (hcb : cb.isAwaited = false) :
    Calm s (s.request c cmd cb) := by
  have hawaited := awaiting_request s c cmd hcb
  cases hc : s.conns c with
  | none =>
    rw [request_of_none hc]
    exact same rfl
  | some b =>
    rw [request_of_some hc] at hawaited ⊢
    refine ⟨fun d => ?_, rfl, rfl, Or.inl rfl, Or.inl rfl, id⟩
    rw [hawaited]
    exact List.Subset.refl _

theorem onBackendClose (s : Session) (c : ℕ) : Calm s (s.onBackendClose c) := by
  have hawaited := awaiting_onBackendClose_subset (P := Callback.isAwaited) s c
  have hforget : (s.forgetConn c).blockingBackend = s.blockingBackend ∨
      (s.forgetConn c).blockingBackend = none := by
    simp only [forgetConn]
    split
    · exact Or.inr rfl
    · exact Or.inl rfl
  unfold Session.onBackendClose at hawaited ⊢
  split
  · exact same rfl
  rename_i b hc
  simp only [hc] at hawaited
  split
  · exact same rfl
  rename_i hclosed
  simp only [if_neg hclosed] at hawaited
  simp only
  split
  · rename_i hown
    simp only [if_pos hown] at hawaited
    exact ⟨hawaited, rfl, rfl, Or.inl rfl, Or.inl rfl, id⟩
  rename_i hown
  simp only [if_neg hown] at hawaited
  split
  · rename_i hblocking
    simp only [if_pos hblocking] at hawaited
    exact ⟨hawaited, rfl, rfl, hforget, Or.inr rfl,
      fun _ => by simp [interruptBlocking, drainPendingCmds]⟩
  · rename_i hblocking
    simp only [if_neg hblocking] at hawaited
    exact ⟨hawaited, rfl, rfl, hforget, Or.inl rfl, id⟩

theorem closeConn (s : Session) (c : Option ℕ) : Calm s (s.closeConn c) := by
  cases c with
  | none => exact same rfl
  | some c => exact onBackendClose s c

/-- The client forgets connections. -/
theorem forget (h : Calm s next) {watch blocking : Option ℕ}
    (hblocking : blocking = next.blockingBackend ∨ blocking = none) :
    Calm s { next with watchBackend := watch, blockingBackend := blocking } := by
  refine ⟨h.awaited, h.dials, h.watchReq, ?_, h.pending, h.state⟩
  rcases hblocking with rfl | rfl
  · exact h.blocking
  · exact Or.inr rfl

theorem dropWatch (s : Session) : Calm s s.dropWatch :=
  ((closeConn s s.watchBackend).forget (Or.inl rfl)).trans (same rfl)

theorem dropMulti (s : Session) : Calm s s.dropMulti :=
  (closeConn s s.multiBackend).trans (same rfl)

theorem dropBlocking (s : Session) : Calm s s.dropBlocking :=
  (closeConn s s.blockingBackend).forget (Or.inr rfl)

theorem leaveMulti (s : Session) : Calm s s.leaveMulti :=
  ((same rfl : Calm s s).setState (by nofun)).trans (same rfl)

theorem resetClientState (s : Session) : Calm s s.resetClientState := by
  have hdrop : Calm s s.leaveMulti.dropWatch.dropMulti.dropBlocking :=
    (((leaveMulti s).trans (dropWatch _)).trans (dropMulti _)).trans (dropBlocking _)
  exact ⟨hdrop.awaited, hdrop.dials, hdrop.watchReq, hdrop.blocking, Or.inr rfl, hdrop.state⟩

theorem handleUNWATCH (s : Session) : Calm s s.handleUNWATCH := by
  unfold Session.handleUNWATCH
  refine ((Calm.trans ?_ (dropWatch _)).setState (by simp)).trans (writeImmediate _ _)
  split
  · exact same rfl
  · exact request s _ _ rfl

theorem execOn (s : Session) (c : ℕ) (queue : List Req) : Calm s (s.execOn c queue) :=
  (same rfl : Calm s s.allocResponseSlot).trans (request _ c _ rfl)

theorem dialMultiBackend (s : Session) (env : Env) (addr : Bytes) (queue : List Req)
    (slotIdx : ℕ) : Calm s (s.dialMultiBackend env addr queue slotIdx) := by
  unfold Session.dialMultiBackend
  split
  · exact same rfl
  refine ⟨fun _ => List.Subset.refl _, ?_, rfl, Or.inl rfl, Or.inl rfl, id⟩
  simp [awaitedDials, Dial.isAwaited]

/-- Every plan but a WATCH, a blocking command and the buffering of the request. -/
theorem perform (env : Env) (req : Req) {plan : Plan}
    (hplan : s.Chooses req.body plan) (hwatch : ∀ addr, plan ≠ .watch addr)
    (hblocking : ∀ addr, plan ≠ .blocking addr) (hbuffer : plan ≠ .buffer) :
    Calm s (s.perform env req plan) := by
  cases plan with
  | reply data => exact writeImmediate s data
  | replies loc data => exact (same rfl : Calm s { s with loc }).trans (foldl_writeImmediate _ data)
  | buffer => exact absurd rfl hbuffer
  | write data | quit | push data | router | mux addr | fanOut sends mergeFunc | panic =>
    exact same rfl
  | reset => exact (resetClientState s).trans (writeImmediate _ _)
  | enterMulti state =>
    have hstate : state ≠ .blocking := by
      rw [hplan.2.2]
      split <;> simp
    have henter : Calm s { s with state, txQueue := [], txErr := false } :=
      ((same rfl : Calm s s).setState hstate).trans (same rfl)
    exact henter.trans (writeImmediate _ _)
  | watch addr => exact absurd rfl (hwatch addr)
  | unwatch => exact handleUNWATCH s
  | subscribe => exact ((same rfl : Calm s s).setState (by rintro ⟨⟩)).trans (same rfl)
  | unsubscribe =>
    simp only [Session.perform, Session.unsubscribe]
    split
    · exact ((same rfl : Calm s s).setState (by simp)).trans (same rfl)
    · exact same rfl
  | blocking addr => exact absurd rfl (hblocking addr)
  | queue =>
    have hqueue : Calm s { s with txQueue := s.txQueue ++ [req] } := same rfl
    exact hqueue.trans (writeImmediate _ _)
  | queueError data => exact (same rfl : Calm s { s with txErr := true }).trans (writeImmediate _ _)
  | execAbort =>
    have hdrop : Calm s s.leaveMulti.dropWatch.dropMulti :=
      ((leaveMulti s).trans (dropWatch _)).trans (dropMulti _)
    exact hdrop.trans (writeImmediate _ _)
  | execWatched c =>
    have hforget : Calm s { s.leaveMulti with watchBackend := none, watchAddr := [] } :=
      ((leaveMulti s).forget (Or.inl rfl)).trans (same rfl)
    exact hforget.trans (execOn _ c _)
  | execEmpty => exact (leaveMulti s).trans (same rfl)
  | execError data => exact (leaveMulti s).trans (writeImmediate _ _)
  | execReuse c =>
    have hforget : Calm s { s.leaveMulti with multiBackend := none } :=
      (leaveMulti s).trans (same rfl)
    exact hforget.trans (execOn _ c _)
  | execDial addr =>
    have hleave : Calm s s.dropMulti.leaveMulti.allocResponseSlot :=
      ((dropMulti s).trans (leaveMulti _)).trans (same rfl)
    exact hleave.trans (dialMultiBackend _ env addr _ _)
  | discard =>
    have hdrop : Calm s s.dropWatch.dropMulti.leaveMulti :=
      ((dropWatch s).trans (dropMulti _)).trans (leaveMulti _)
    exact hdrop.trans (writeImmediate _ _)

end Calm

/-! ### The connection that watches -/

/-- No transaction waits on the connection that watches. -/
def WatchClean (s : Session) : Prop :=
  ∀ c, s.watchBackend = some c → s.awaiting Callback.isTx c = []

namespace WatchClean

variable {s next : Session} {c : ℕ} {b : Backend}

/-- A change of other fields, which may forget the connection that watches. -/
theorem congr (h : s.WatchClean) (hconns : next.conns = s.conns)
    (hwatch : next.watchBackend = s.watchBackend ∨ next.watchBackend = none) :
    next.WatchClean := by
  intro c hc
  rw [awaiting_of_conns hconns]
  rcases hwatch with hwatch | hwatch
  · exact h c (hwatch ▸ hc)
  · cases hwatch.symm.trans hc

/-- A connection changes that does not watch, or on which no transaction waits. -/
theorem setConn (h : s.WatchClean)
    (hb : s.watchBackend = some c → b.awaiting Callback.isTx = []) : (s.setConn c b).WatchClean := by
  intro d hd
  rw [awaiting_setConn]
  by_cases heq : d = c
  · subst heq
    rw [Function.update_self]
    exact hb hd
  rw [Function.update_of_ne heq]
  exact h d hd

/-- A callback of a transaction is on another connection. -/
theorem ne_of_tx (h : s.WatchClean) (hc : s.conns c = some b) (hopen : b.isClosed = false)
    (hown : b.own = true) (hmem : cb ∈ b.pending) (htx : cb.isTx = true) :
    s.watchBackend ≠ some c := by
  intro hwatch
  have hnil := h c hwatch
  rw [awaiting_of_some hc, Backend.awaiting_of_live hopen hown] at hnil
  have hin : cb ∈ b.pending.filter Callback.isTx := List.mem_filter.mpr ⟨hmem, htx⟩
  rw [hnil] at hin
  cases hin

theorem awaiting_watchConn_tx (s : Session) (cfg : Config) :
    (s.watchConn cfg).awaiting Callback.isTx = [] := by
  have hauth : (({ kind := .watch, addr := s.watchAddr } : Backend).auth cfg).awaiting
      Callback.isTx = [] := by
    rw [Backend.awaiting_auth _ cfg rfl]
    exact Backend.awaiting_of_pending_nil rfl
  unfold watchConn
  simp only
  split
  · exact hauth
  · rwa [Backend.awaiting_push _ _ rfl]

theorem move {cfg : Config} {g : Grant} {o : Option Req} (hconn : s.ConnInv) (h : s.WatchClean)
    (hmove : Move cfg g s o next) : next.WatchClean := by
  have hnil : ∀ {c b}, s.conns c = some b → s.watchBackend = some c →
      b.awaiting Callback.isTx = [] := by
    intro c b hc hwatch
    rw [← awaiting_of_some hc]
    exact h c hwatch
  -- The connection of a blocking command does not watch.
  have hblocking : ∀ {c b} (b' : Backend), s.conns c = some b → b.kind = .blocking →
      (s.setConn c b').WatchClean :=
    fun b' hc hkind => h.setConn fun hwatch => absurd hwatch (hconn.ne_of_blocking hc hkind).1
  have hfresh : ∀ b', (s.setConn s.nextConn b').WatchClean :=
    fun b' => h.setConn fun hwatch => absurd hwatch hconn.ne_nextConn.1
  cases hmove with
  | same hlink _ _ =>
    simp only [linkPart, connPart, Prod.mk.injEq] at hlink
    exact h.congr hlink.1.1 (Or.inl hlink.1.2.2.1)
  | forget hwatch _ _ => exact h.congr rfl hwatch
  | @close c b b' hc _ _ =>
    have hclosed : (s.setConn c { b' with isClosed := true }).WatchClean :=
      h.setConn fun _ => Backend.awaiting_close b'
    refine hclosed.congr rfl ?_
    simp only [forgetConn]
    split
    · exact Or.inr rfl
    · exact Or.inl rfl
  | watch _ hc req slotIdx =>
    exact h.setConn fun hwatch => (Backend.awaiting_push _ _ rfl).trans (hnil hc hwatch)
  | execWatched _ _ _ _ => simp [WatchClean]
  | execReuse hmulti hc _ _ _ =>
    have hne := hconn.ne_of_multi hc ((hconn.multi _ hmulti).kind_eq hc)
    exact (h.setConn fun hwatch => absurd hwatch hne).congr rfl (Or.inl rfl)
  | @pop c b cb rest hc hlive hpending _ =>
    refine h.setConn fun hwatch => List.subset_nil.mp ?_
    rw [← hnil hc hwatch, Backend.awaiting_of_live (b := { b with pending := rest }) hlive.1 hlive.2,
      Backend.awaiting_of_live hlive.1 hlive.2, hpending]
    exact ((List.sublist_cons_self cb rest).filter _).subset
  | sendQueue hc hlive hpending =>
    exact h.setConn fun hwatch =>
      absurd hwatch (h.ne_of_tx hc hlive.1 hlive.2 (by rw [hpending]; exact List.mem_cons_self) rfl)
  | sendBlocking hc _ hpending => exact hblocking _ hc (hconn.rest_nil hc hpending rfl).1
  | @release c b req hc _ hpending =>
    exact (hblocking { b with pending := [] } hc (hconn.rest_nil hc hpending rfl).1).congr rfl
      (Or.inl rfl)
  | @reuse c b addr hsome hc req =>
    exact (hblocking (b.reuse req) hc (hconn.kind_of_taken hsome hc)).congr rfl (Or.inl rfl)
  | @lose c b addr _ hsome hc =>
    exact (hblocking { b with own := false } hc (hconn.kind_of_taken hsome hc)).congr rfl
      (Or.inl rfl)
  | adopt addr _ =>
    exact (hfresh { kind := .blocking, addr, own := false }).congr rfl (Or.inl rfl)
  | openWatch hd =>
    intro c hc
    obtain rfl : s.nextConn = c := Option.some.inj hc
    exact (awaiting_of_some (setConn_self s _ _)).trans (awaiting_watchConn_tx s cfg)
  | openMulti hd => exact (hfresh { kind := .multi, addr := _ }).congr rfl (Or.inl rfl)
  | openBlocking hd => exact (hfresh (blockingConn cfg _ _)).congr rfl (Or.inl rfl)
  | @startMulti i c b queue slotIdx ht hc =>
    obtain ⟨b', hb', hkind⟩ := hconn.starts _ (mem_starts.mpr (List.mem_of_getElem? ht))
    have hne := hconn.ne_of_multi hb' hkind
    exact (h.setConn fun hwatch => absurd hwatch hne).congr rfl (Or.inl rfl)
  | _ => exact h.congr rfl (Or.inl rfl)

theorem exec (h : s.WatchClean) (hconn : s.ConnInv) (cfg : Config) (e : SessionEvent) :
    (s.exec cfg e).WatchClean := by
  refine (keeps_exec (fun hlink h => ?_) (fun hconn h hmove => h.move hconn hmove) hconn h).2
  simp only [linkPart, connPart, Prod.mk.injEq] at hlink
  exact h.congr hlink.1.1 (Or.inl hlink.1.2.2.1)

end WatchClean

end Session

end Pluster.Engine
