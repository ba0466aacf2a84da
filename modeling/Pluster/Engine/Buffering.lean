import Pluster.Engine.Awaited
import Pluster.Engine.ReplyLog

/-!
# Buffered requests

A request is buffered in `pendingCmds` while a blocking command is under way or a WATCH is
dialling, and the end of either takes the buffered requests for dispatch. The source does
this in some ways for a WATCH that fails, and not at all between the time when the
connection of a WATCH opens and its reply. In the runs without such events a client waits
for one command at most, and nothing is buffered unless it waits.
-/

namespace Pluster.Engine

open Proto GoStrings GoRuntime

variable {s next : Session} {replies : ℕ → List Callback} {dials : List Dial} {watch : Option Req}
  {backend : Option ℕ} {c i : ℕ} {b : Backend} {addr : Bytes} {d : Dial} {cb : Callback}
  {rest : List Callback} {req : Req} {env : Env} {v : Value} {log : List ℕ}

namespace Session

/-! ### What the client waits for -/

/-- The awaited replies of a connection. -/
abbrev awaited (s : Session) : ℕ → List Callback := s.awaiting Callback.isAwaited

/-- No reply is awaited. -/
def noReplies : ℕ → List Callback := fun _ => []

/-- One reply is awaited, on one connection. -/
def oneReply (c : ℕ) (cb : Callback) : ℕ → List Callback := Function.update noReplies c [cb]

/-- Everything that the client waits for: replies, dials, the WATCH that is dialling and the
connection of the blocking command. -/
def held (s : Session) : (ℕ → List Callback) × List Dial × Option Req × Option ℕ :=
  (s.awaited, s.awaitedDials, s.pendingWatchReq, s.blockingBackend)

theorem held_eq (hreplies : s.awaited = replies) (hdials : s.awaitedDials = dials)
    (hwatch : s.pendingWatchReq = watch) (hbackend : s.blockingBackend = backend) :
    s.held = (replies, dials, watch, backend) := by
  rw [held, hreplies, hdials, hwatch, hbackend]

/-- The client waits for one command at most. -/
inductive Waits (s : Session) : Prop
  | idle (hheld : s.held = (noReplies, [], none, none)) (hstate : s.state ≠ .blocking)
      (hpending : s.pendingCmds = [])
  | blockingDial {addr : Bytes} {req : Req}
      (hheld : s.held = (noReplies, [.blocking addr req], none, none)) (hstate : s.state = .blocking)
  | blockingReply {c : ℕ} {cb : Callback} (hcb : cb.isBlocking = true)
      (hheld : s.held = (oneReply c cb, [], none, some c)) (hstate : s.state = .blocking)
  | watchDial {addr : Bytes} {req : Req} (hheld : s.held = (noReplies, [.watch addr], some req, none))
      (hstate : s.state = .normal ∨ s.state = .watch) (hauth : s.loc.authenticated = true)
  /-- Only the reply to the first WATCH of a connection takes the buffered requests. -/
  | watchReply {c : ℕ} {cb : Callback} (hcb : cb.isWatch = true)
      (hheld : s.held = (oneReply c cb, [], none, none)) (hwatch : s.watchBackend = some c)
      (hstate : s.state = .normal ∨ s.state = .watch) (hauth : s.loc.authenticated = true)
      (hfirst : s.pendingCmds = [] ∨ ∃ req slotIdx, cb = .watchFirst req slotIdx)

/-- A step that keeps what the client waits for. -/
structure Keeps (s next : Session) : Prop where
  held : next.held = s.held
  state : next.state = s.state
  auth : next.loc.authenticated = s.loc.authenticated
  pending : next.pendingCmds = s.pendingCmds
  watch : ∀ c, s.watchBackend = some c → s.awaited c ≠ [] → next.watchBackend = some c

namespace Keeps

variable {s t u next : Session}

theorem trans (h : Keeps s t) (h' : Keeps t u) : Keeps s u where
  held := h'.held.trans h.held
  state := h'.state.trans h.state
  auth := h'.auth.trans h.auth
  pending := h'.pending.trans h.pending
  watch c hc hne := by
    have hsame : t.awaited = s.awaited := congrArg Prod.fst h.held
    exact h'.watch c (h.watch c hc hne) (by rwa [hsame])

/-- The step changes fields that do not matter. -/
theorem same (hsame : next.waitPart = s.waitPart)
    (hauth : next.loc.authenticated = s.loc.authenticated) : Keeps s next := by
  simp only [waitPart, Prod.mk.injEq] at hsame
  obtain ⟨hconns, hdials, hreq, hblocking, hwatch, hpending, hstate⟩ := hsame
  refine ⟨?_, hstate, hauth, hpending, fun c hc _ => hwatch ▸ hc⟩
  simp only [Session.held, awaited, awaiting_of_conns hconns, awaitedDials, hdials, hreq, hblocking]

/-- A connection changes, but not what it waits for. -/
theorem setConn (hsame : b.awaiting Callback.isAwaited = s.awaited c) :
    Keeps s (s.setConn c b) := by
  refine ⟨?_, rfl, rfl, rfl, fun _ hc _ => hc⟩
  have hawaited : (s.setConn c b).awaited = s.awaited := by
    rw [awaited, awaiting_setConn, hsame, Function.update_eq_self]
  simp only [Session.held, hawaited]
  rfl

/-- A connection closes on which nothing is awaited. -/
theorem onBackendClose (hnil : s.awaited c = []) (hbackend : s.blockingBackend ≠ some c) :
    Keeps s (s.onBackendClose c) := by
  have hawaited : (s.onBackendClose c).awaited = s.awaited := by
    rw [awaited, awaiting_onBackendClose, ← hnil, Function.update_eq_self]
  have hwatch : ∀ d, s.watchBackend = some d → s.awaited d ≠ [] → s.watchBackend ≠ some c := by
    intro d hd hne hc
    rw [hd, Option.some.injEq] at hc
    exact hne (hc ▸ hnil)
  unfold Session.onBackendClose at hawaited ⊢
  split
  · exact same rfl rfl
  rename_i b hc
  simp only [hc] at hawaited
  split
  · exact same rfl rfl
  rename_i hclosed
  simp only [if_neg hclosed] at hawaited
  simp only
  split
  · rename_i hown
    simp only [if_pos hown] at hawaited
    refine ⟨?_, rfl, rfl, rfl, fun _ hd _ => hd⟩
    simp only [Session.held, hawaited]
    rfl
  · rename_i hown
    simp only [if_neg hown] at hawaited
    rw [if_neg fun h => hbackend h.1] at hawaited ⊢
    refine ⟨?_, rfl, rfl, rfl, fun d hd hne => ?_⟩
    · have hkept : ((s.setConn c { b with isClosed := true }).forgetConn c).blockingBackend =
          s.blockingBackend := if_neg hbackend
      rw [Session.held, hawaited, hkept]
      rfl
    · exact (if_neg (hwatch d hd hne)).trans hd

end Keeps

theorem Waits.keep (h : s.Waits) (hkeep : Keeps s next) : next.Waits := by
  have hheld := hkeep.held
  cases h with
  | idle hs hstate hpending =>
    exact .idle (hheld.trans hs) (by rwa [hkeep.state]) (by rwa [hkeep.pending])
  | blockingDial hs hstate => exact .blockingDial (hheld.trans hs) (by rwa [hkeep.state])
  | blockingReply hcb hs hstate => exact .blockingReply hcb (hheld.trans hs) (by rwa [hkeep.state])
  | watchDial hs hstate hauth =>
    exact .watchDial (hheld.trans hs) (by rwa [hkeep.state]) (by rwa [hkeep.auth])
  | @watchReply c cb hcb hs hwatch hstate hauth hfirst =>
    have hne : s.awaited c ≠ [] := by
      have hawaited : s.awaited = oneReply c cb := congrArg Prod.fst hs
      simp [hawaited, oneReply]
    exact .watchReply hcb (hheld.trans hs) (hkeep.watch c hwatch hne) (by rwa [hkeep.state])
      (by rwa [hkeep.auth]) (by rwa [hkeep.pending])

/-- A calm step of a client that waits for nothing. -/
theorem Waits.idle_of_calm (hheld : s.held = (noReplies, [], none, none))
    (hstate : s.state ≠ .blocking) (hpending : s.pendingCmds = []) (hcalm : Calm s next) :
    next.Waits := by
  simp only [held, Prod.mk.injEq] at hheld
  obtain ⟨hawaited, hdials, hreq, hblocking⟩ := hheld
  refine .idle ?_ (hcalm.state hstate) ?_
  · have hnone : next.awaited = noReplies := by
      funext c
      have hsub := hcalm.awaited c
      rw [show s.awaiting Callback.isAwaited c = [] from congrFun hawaited c] at hsub
      exact List.subset_nil.mp hsub
    have hback : next.blockingBackend = none := by
      rcases hcalm.blocking with hback | hback
      · rw [hback, hblocking]
      · exact hback
    rw [held, hnone, hcalm.dials, hdials, hcalm.watchReq, hreq, hback]
  · rcases hcalm.pending with hkept | hkept
    · rw [hkept, hpending]
    · exact hkept

/-! ### Dials and replies -/

namespace Waits

variable {s t : Session}

/-- Nothing is awaited on a connection other than the one that watches and the one of the
blocking command. -/
theorem awaited_nil (h : s.Waits) (hbackend : s.blockingBackend ≠ some c)
    (hwatch : s.watchBackend ≠ some c) : s.awaited c = [] := by
  have hone : ∀ {d cb}, c ≠ d → oneReply d cb c = [] := by
    intro d cb hne
    rw [oneReply, Function.update_of_ne hne]
    rfl
  cases h with
  | idle hheld _ _ | blockingDial hheld _ | watchDial hheld _ _ =>
    exact congrFun (congrArg Prod.fst hheld) c
  | @blockingReply d cb _ hheld _ =>
    simp only [held, Prod.mk.injEq] at hheld
    obtain ⟨hawaited, -, -, hback⟩ := hheld
    rw [hawaited]
    exact hone fun heq => hbackend (heq ▸ hback)
  | @watchReply d cb _ hheld hback _ _ _ =>
    have hawaited : s.awaited = oneReply d cb := congrArg Prod.fst hheld
    rw [hawaited]
    exact hone fun heq => hwatch (heq ▸ hback)

/-- The dial of a WATCH that starts. -/
theorem dialWatch (hheld : t.held = (noReplies, [], watch, none))
    (hstate : t.state = .normal ∨ t.state = .watch) (hauth : t.loc.authenticated = true)
    (env : Env) (req : Req) (slotIdx : ℕ) (hdial : dialError addr (env.dial addr) = none) :
    (t.dialWatch env req slotIdx addr).Waits := by
  simp only [held, Prod.mk.injEq] at hheld
  obtain ⟨hawaited, hdials, -, hback⟩ := hheld
  unfold Session.dialWatch dialDedicatedBackend
  rw [hdial]
  refine @Waits.watchDial _ addr req (held_eq hawaited ?_ rfl hback) hstate hauth
  rw [awaitedDials, List.filter_append]
  exact congrArg (· ++ [Dial.watch addr]) hdials

/-- A blocking command takes a connection of the pool or dials. If it cannot dial, nothing
may be buffered. -/
theorem dialBlockingBackend (hconn : t.ConnInv) (hheld : t.held = (noReplies, [], none, none))
    (hstate : t.state = .blocking) (env : Env) (addr : Bytes) (req : Req)
    (hdial : dialError addr (env.dial addr) = none ∨ t.pendingCmds = []) :
    (t.dialBlockingBackend env addr req).Waits := by
  simp only [held, Prod.mk.injEq] at hheld
  obtain ⟨hawaited, hdials, hreq, hback⟩ := hheld
  unfold Session.dialBlockingBackend
  split
  · rename_i c idle htake
    obtain ⟨b, hc, -, hopen, -⟩ := hconn.taken (congrArg Prod.fst htake)
    rw [reuseBlockingConn_of_some (s := { t with idle }) hc]
    refine @Waits.blockingReply _ c (.blocking req) rfl (held_eq ?_ hdials hreq rfl) hstate
    have hreuse : (b.reuse req).awaiting Callback.isAwaited = [.blocking req] := by
      simp [Backend.awaiting, Backend.reuse, Backend.push, hopen, Callback.isAwaited,
        Callback.isBlocking]
    calc Session.awaited _ = (t.setConn c (b.reuse req)).awaited := awaiting_of_conns rfl
      _ = Function.update t.awaited c [.blocking req] := by rw [awaited, awaiting_setConn, hreuse]
      _ = oneReply c (.blocking req) := by rw [hawaited, oneReply]
  · simp only
    split
    · rename_i msg hmsg
      have hpending : t.pendingCmds = [] := hdial.resolve_left (by simp [hmsg])
      exact .idle (held_eq hawaited hdials hreq hback) (by simp) hpending
    refine @Waits.blockingDial _ addr req (held_eq hawaited ?_ hreq hback) hstate
    rw [awaitedDials, List.filter_append]
    exact congrArg (· ++ [Dial.blocking addr req]) hdials

/-- The reply that the client waits for. -/
theorem held_pop {d : ℕ} {cb' : Callback}
    (hheld : s.held = (oneReply d cb', dials, watch, backend)) (hc : s.conns c = some b)
    (hopen : b.isClosed = false) (hown : b.own = true) (hpending : b.pending = cb :: rest)
    (hcb : cb.isAwaited = true) :
    c = d ∧ cb = cb' ∧ rest.filter Callback.isAwaited = [] ∧
      (s.setConn c { b with pending := rest }).held = (noReplies, dials, watch, backend) := by
  simp only [held, Prod.mk.injEq] at hheld
  obtain ⟨hawaited, hdials, hreq, hback⟩ := hheld
  have hlist : oneReply d cb' c = cb :: rest.filter Callback.isAwaited := by
    rw [← hawaited, awaited, awaiting_of_some hc, Backend.awaiting_of_live hopen hown, hpending,
      List.filter_cons_of_pos hcb]
  have hcd : c = d := by
    by_contra hne
    rw [oneReply, Function.update_of_ne hne] at hlist
    cases hlist
  subst hcd
  rw [oneReply, Function.update_self, List.cons.injEq] at hlist
  refine ⟨rfl, hlist.1.symm, hlist.2.symm, held_eq ?_ hdials hreq hback⟩
  rw [awaited, awaiting_setConn, Backend.awaiting_of_live (b := { b with pending := rest }) hopen hown,
    ← hlist.2]
  change Function.update s.awaited c [] = noReplies
  rw [hawaited, oneReply, Function.update_idem]
  exact Function.update_eq_self c noReplies

/-- No reply of that kind is awaited. -/
theorem not_awaited_of_noReplies (hawaited : s.awaited = noReplies) (hc : s.conns c = some b)
    (hopen : b.isClosed = false) (hown : b.own = true) (hpending : b.pending = cb :: rest) :
    cb.isAwaited = false := by
  have hnil : s.awaited c = [] := congrFun hawaited c
  rw [awaited, awaiting_of_some hc, Backend.awaiting_of_live hopen hown, hpending] at hnil
  by_contra hcb
  rw [List.filter_cons_of_pos (by simpa using hcb)] at hnil
  cases hnil

/-- A reply that is not awaited. -/
theorem keeps_respond (h : s.Waits) (hconn : s.ConnInv) (hclean : s.WatchClean)
    (hc : s.conns c = some b) (hopen : b.isClosed = false) (hown : b.own = true)
    (hpending : b.pending = cb :: rest) (hcb : cb.isAwaited = false) (env : Env) (v : Value) :
    Keeps s ((s.setConn c { b with pending := rest }).respond env c v cb) := by
  have hpop : Keeps s (s.setConn c { b with pending := rest }) := by
    refine .setConn ?_
    rw [awaited, awaiting_of_some hc, Backend.awaiting_of_live hopen hown,
      Backend.awaiting_of_live (b := { b with pending := rest }) hopen hown, hpending,
      List.filter_cons_of_neg (by simp [hcb])]
  -- The connection of a transaction is not one on which the client waits.
  have hclose : cb.isTx = true →
      Keeps s ((s.setConn c { b with pending := rest }).onBackendClose c) := by
    intro htx
    have hmem : cb ∈ b.pending := by simp [hpending]
    have hbackend : s.blockingBackend ≠ some c := by
      intro hblocking
      have hkind := (hconn.blocking c hblocking).kind_eq hc
      exact kind_of_isTx ((hconn.ok c b hc).allows cb hmem) htx hkind
    have hnil := h.awaited_nil hbackend (hclean.ne_of_tx hc hopen hown hmem htx)
    have hsame : (s.setConn c { b with pending := rest }).awaited = s.awaited :=
      congrArg Prod.fst hpop.held
    exact hpop.trans (.onBackendClose (by rw [hsame, hnil]) hbackend)
  cases cb with
  | watchFirst req slotIdx | watchReuse slotIdx | authThenBlocking req | blocking req => cases hcb
  | ignore => exact hpop
  | auth =>
    simp only [respond, respondAuth]
    split
    · exact hpop.trans (.same rfl rfl)
    · exact hpop
  | multiStart queue slotIdx =>
    simp only [respond]
    split
    · exact (hclose rfl).trans (.same rfl rfl)
    rw [sendQueue_of_some (setConn_self s c _)]
    refine hpop.trans (.setConn ?_)
    rw [Backend.awaiting_pushQueue _ _ _ rfl rfl, awaited, awaiting_of_some (setConn_self s c _)]
  | execDone slotIdx => exact (hclose rfl).trans (.same rfl rfl)

/-- The end of a blocking command, once its reply has been taken from the connection. -/
theorem finishBlocking (hheld : t.held = (noReplies, [], none, backend)) (c : ℕ) (v : Value) :
    (t.finishBlocking c v).Waits := by
  simp only [held, Prod.mk.injEq] at hheld
  obtain ⟨hawaited, hdials, hreq, -⟩ := hheld
  let filled : Session := { t.fillResponseSlotInLoop t.blockingSlotIdx (encodeValue v) with
    state := .normal, blockingBackend := none }
  have hfilled : filled.held = (noReplies, [], none, none) := held_eq hawaited hdials hreq rfl
  have hclose : Keeps filled (filled.onBackendClose c) :=
    .onBackendClose (congrFun hawaited c) (by nofun)
  have hreturn : Keeps filled (filled.returnBlockingConn c) := by
    unfold returnBlockingConn
    split
    · exact .same rfl rfl
    split
    · exact hclose
    split
    · exact .same rfl rfl
    · exact hclose
  refine .idle ?_ ?_ rfl
  · exact hreturn.held.trans hfilled
  have hstate : (filled.returnBlockingConn c).state = .normal := hreturn.state
  change (filled.returnBlockingConn c).state ≠ .blocking
  simp [hstate]

/-- The reply to a blocking command. -/
theorem handleBlockingResponse (hconn : t.ConnInv)
    (hheld : t.held = (noReplies, [], none, some c)) (hstate : t.state = .blocking) (env : Env)
    (v : Value) (req : Req)
    (hdial : v.isMovedError = true → ∀ addr, redirectionAddr v = some addr →
      dialError addr (env.dial addr) = none) : (t.handleBlockingResponse env c v req).Waits := by
  unfold Session.handleBlockingResponse
  split
  · rename_i hmoved
    split
    · rename_i addr haddr
      let freed : Session := { t with blockingBackend := none }
      have hfreed : freed.held = (noReplies, [], none, none) := by
        simp only [held, Prod.mk.injEq] at hheld
        exact held_eq hheld.1 hheld.2.1 hheld.2.2.1 rfl
      have hclose : Keeps freed (freed.onBackendClose c) :=
        .onBackendClose (congrFun (congrArg Prod.fst hfreed) c) (by nofun)
      have hconn' : freed.ConnInv := hconn.forget (Or.inl rfl) (Or.inl rfl) (Or.inr rfl)
      exact dialBlockingBackend (hconn'.onBackendClose c) (hclose.held.trans hfreed)
        (hclose.state.trans hstate) env addr req (Or.inl (hdial hmoved addr haddr))
    · exact finishBlocking hheld c v
  · exact finishBlocking hheld c v

end Waits

/-! ### Orderly events -/

/-- The reply to a WATCH is awaited. -/
def awaitsWatch (s : Session) : Bool :=
  (List.range s.nextConn).any fun c => (s.awaited c).any Callback.isWatch

/-- The requests that arrive are buffered. -/
def holdsBack (s : Session) : Bool := s.state = .blocking || s.pendingWatchReq.isSome

/-- A request, or the next one of the loop of `drainPendingCmds`, comes at a moment when the
source serves it in turn: no reply to a WATCH is awaited; an empty request, QUIT and RESET do
not come while requests are buffered; the dial of a WATCH starts. -/
def admits (s : Session) (cfg : Config) (env : Env) (req : Request) : Bool :=
  !s.awaitsWatch &&
    (!s.holdsBack || (req.args ≠ [] && !([Verb.quit, .reset].contains (Verb.of req)))) &&
    match dispatchClientRequest cfg env s req with
    | .watch addr =>
      (s.watchBackend.isSome && s.watchAddr = addr) || (dialError addr (env.dial addr)).isNone
    | _ => true

/-- A reply does not lead to a dial that does not start, and is not the refusal of an AUTH
that goes before a blocking command. -/
def orderlyReply (env : Env) (v : Value) : Callback → Bool
  | .watchFirst _ _ =>
    let addr := (redirectionAddr v).getD []
    !v.isMovedError || (dialError addr (env.dial addr)).isNone
  | .authThenBlocking _ => !v.isError
  | .blocking _ =>
    !v.isMovedError || (redirectionAddr v).all fun addr => (dialError addr (env.dial addr)).isNone
  | _ => true

/-- The events after which the source serves the buffered requests in turn: besides the
conditions on requests and replies, no dial of a WATCH fails, no connection is lost on which
the reply to a WATCH is awaited, and the connection of the hub is not lost during a blocking
command of a client that it has subscriptions of. -/
def orderly (cfg : Config) (s : Session) (e : SessionEvent) : Bool :=
  match e with
  | .request env req => s.admits cfg env req
  | .drain env => s.draining.head?.all fun req => s.admits cfg env req.body
  | .dialFailed i _ =>
    match s.dials[i]? with
    | some (.watch _) => false
    | _ => true
  | .lost c => !(s.awaited c).any Callback.isWatch
  | .value env c v =>
    (s.conns c).all fun b => b.isClosed || !b.own || b.pending.head?.all (orderlyReply env v)
  | .hubClosed => s.state ≠ .blocking || s.hub.subs = []
  | _ => true

namespace Waits

variable {s : Session} {cfg : Config}

private theorem filter_eraseIdx {l : List Dial} (hd : l[i]? = some d) :
    ∃ pre post, l.filter Dial.isAwaited = pre ++ (if d.isAwaited then [d] else []) ++ post ∧
      (l.eraseIdx i).filter Dial.isAwaited = pre ++ post := by
  obtain ⟨hi, hget⟩ := List.getElem?_eq_some_iff.mp hd
  have hl : l = l.take i ++ d :: l.drop (i + 1) := by
    rw [← hget, ← List.drop_eq_getElem_cons hi, List.take_append_drop]
  refine ⟨(l.take i).filter Dial.isAwaited, (l.drop (i + 1)).filter Dial.isAwaited, ?_, ?_⟩
  · conv_lhs => rw [hl]
    rw [List.filter_append, List.filter_cons]
    split <;> simp
  · rw [List.eraseIdx_eq_take_drop_succ, List.filter_append]

/-- A dial for a transaction ends. -/
private theorem keeps_eraseDial (hd : s.dials[i]? = some d) (hawaited : d.isAwaited = false) :
    Keeps s { s with dials := s.dials.eraseIdx i } := by
  obtain ⟨pre, post, hfilter, herase⟩ := filter_eraseIdx hd
  refine ⟨held_eq rfl ?_ rfl rfl, rfl, rfl, rfl, fun _ hc _ => hc⟩
  rw [hawaited] at hfilter
  simp only [awaitedDials, hfilter, herase]
  simp

/-- The dial that the client waits for ends. -/
private theorem held_eraseDial {d' : Dial} (hd : s.dials[i]? = some d)
    (hawaited : d.isAwaited = true) (hheld : s.held = (replies, [d'], watch, backend)) :
    d = d' ∧ { s with dials := s.dials.eraseIdx i }.held = (replies, [], watch, backend) := by
  obtain ⟨pre, post, hfilter, herase⟩ := filter_eraseIdx hd
  simp only [held, Prod.mk.injEq] at hheld
  obtain ⟨hreplies, hdials, hwatch, hbackend⟩ := hheld
  rw [awaitedDials, hfilter, if_pos hawaited] at hdials
  have hpre : pre = [] ∧ d = d' ∧ post = [] := by
    cases pre with
    | nil => simpa using hdials
    | cons x pre => simp at hdials
  obtain ⟨rfl, hdd, rfl⟩ := hpre
  exact ⟨hdd, held_eq hreplies herase hwatch hbackend⟩

private theorem not_awaited_of_nil (hd : s.dials[i]? = some d) (hnil : s.awaitedDials = []) :
    d.isAwaited = false := by
  by_contra hawaited
  have hmem : d ∈ s.awaitedDials :=
    List.mem_filter.mpr ⟨List.mem_of_getElem? hd, by simpa using hawaited⟩
  rw [hnil] at hmem
  cases hmem

/-- The end of a dial that the client waits for. -/
private theorem awaitedDial (h : s.Waits) (hd : s.dials[i]? = some d)
    (hawaited : d.isAwaited = true) :
    (∃ addr req, d = .blocking addr req ∧ s.state = .blocking ∧
      { s with dials := s.dials.eraseIdx i }.held = (noReplies, [], none, none)) ∨
    ∃ addr req, d = .watch addr ∧ (s.state = .normal ∨ s.state = .watch) ∧
      s.loc.authenticated = true ∧
      { s with dials := s.dials.eraseIdx i }.held = (noReplies, [], some req, none) := by
  have hdials : s.awaitedDials ≠ [] := by
    intro hnil
    rw [not_awaited_of_nil hd hnil] at hawaited
    cases hawaited
  cases h with
  | idle hheld _ _ | blockingReply _ hheld _ | watchReply _ hheld _ _ _ _ =>
    exact absurd (congrArg (·.2.1) hheld) hdials
  | blockingDial hheld hstate =>
    obtain ⟨rfl, herased⟩ := held_eraseDial hd hawaited hheld
    exact Or.inl ⟨_, _, rfl, hstate, herased⟩
  | watchDial hheld hstate hauth =>
    obtain ⟨rfl, herased⟩ := held_eraseDial hd hawaited hheld
    exact Or.inr ⟨_, _, rfl, hstate, hauth, herased⟩

/-- A new connection on which nothing is awaited. -/
private theorem keeps_fresh (hconn : s.ConnInv) (hpending : b.pending = []) :
    Keeps s (s.setConn s.nextConn b) := by
  refine .setConn ?_
  rw [Backend.awaiting_of_pending_nil hpending, awaited, awaiting, hconn.fresh _ le_rfl]

private theorem awaited_setConn_fresh (hnone : s.awaited = noReplies)
    (hb : b.awaiting Callback.isAwaited = [cb]) :
    (s.setConn s.nextConn b).awaited = oneReply s.nextConn cb := by
  rw [awaited, awaiting_setConn, hb]
  exact congrArg (fun replies => Function.update replies s.nextConn [cb]) hnone

private theorem awaiting_watchConn (cfg : Config) (hreq : s.pendingWatchReq = some req) :
    (s.watchConn cfg).awaiting Callback.isAwaited = [.watchFirst req s.pendingWatchSlot] := by
  simp only [watchConn, hreq, Backend.auth]
  split <;> rfl

private theorem awaiting_blockingConn (cfg : Config) (addr : Bytes) (req : Req) :
    ∃ cb, cb.isBlocking = true ∧ (blockingConn cfg addr req).awaiting Callback.isAwaited = [cb] := by
  unfold blockingConn
  simp only
  split
  · exact ⟨.blocking req, rfl, rfl⟩
  · exact ⟨.authThenBlocking req, rfl, rfl⟩

theorem opened (h : s.Waits) (hconn : s.ConnInv) (hd : s.dials[i]? = some d) :
    ({ s with dials := s.dials.eraseIdx i }.onBackendOpen cfg d).Waits := by
  let erased : Session := { s with dials := s.dials.eraseIdx i }
  by_cases hawaited : d.isAwaited = true
  · rcases h.awaitedDial hd hawaited with ⟨addr, req, rfl, hstate, hheld⟩ |
      ⟨addr, req, rfl, hstate, hauth, hheld⟩
    · simp only [held, Prod.mk.injEq] at hheld
      obtain ⟨hnone, hdials, hreq, -⟩ := hheld
      obtain ⟨cb, hcb, hb⟩ := awaiting_blockingConn cfg addr req
      rw [onBackendOpen_blocking]
      exact @Waits.blockingReply _ s.nextConn cb hcb
        (held_eq (awaited_setConn_fresh hnone hb) hdials hreq rfl) hstate
    · simp only [held, Prod.mk.injEq] at hheld
      obtain ⟨hnone, hdials, hreq, hback⟩ := hheld
      have hb := awaiting_watchConn (s := erased) cfg hreq
      rw [onBackendOpen_watch]
      exact @Waits.watchReply _ s.nextConn (.watchFirst req s.pendingWatchSlot) rfl
        (held_eq (awaited_setConn_fresh hnone hb) hdials rfl hback) rfl hstate hauth
        (Or.inr ⟨req, _, rfl⟩)
  · cases d with
    | watch addr | blocking addr req => exact absurd rfl hawaited
    | multi addr queue slotIdx =>
      have hconn' : erased.ConnInv := hconn.congr rfl
      have hopen : Keeps erased (erased.setConn erased.nextConn { kind := .multi, addr }) :=
        keeps_fresh hconn' rfl
      exact h.keep (((keeps_eraseDial hd rfl).trans hopen).trans (.same rfl rfl))

theorem dialFailed (h : s.Waits) (hd : s.dials[i]? = some d) (hwatch : ∀ addr, d ≠ .watch addr)
    (err : Bytes) : ({ s with dials := s.dials.eraseIdx i }.onDialFailed err d).Waits := by
  by_cases hawaited : d.isAwaited = true
  · rcases h.awaitedDial hd hawaited with ⟨addr, req, rfl, -, hheld⟩ | ⟨addr, req, rfl, -⟩
    · simp only [held, Prod.mk.injEq] at hheld
      exact .idle (held_eq hheld.1 hheld.2.1 hheld.2.2.1 rfl) (by nofun) rfl
    · exact absurd rfl (hwatch addr)
  · cases d with
    | watch addr | blocking addr req => exact absurd rfl hawaited
    | multi addr queue slotIdx => exact h.keep ((keeps_eraseDial hd rfl).trans (.same rfl rfl))

/-- The reply that the client waits for. -/
theorem respond (h : s.Waits) (hconn : s.ConnInv) (hc : s.conns c = some b)
    (hopen : b.isClosed = false) (hown : b.own = true) (hpending : b.pending = cb :: rest)
    (hcb : cb.isAwaited = true) (hreply : orderlyReply env v cb = true) :
    ((s.setConn c { b with pending := rest }).respond env c v cb).Waits := by
  have hidle : s.awaited = noReplies → False := by
    intro hnone
    rw [not_awaited_of_noReplies hnone hc hopen hown hpending] at hcb
    cases hcb
  have hconn' := hconn.pop hc hpending
  cases h with
  | idle hheld _ _ | blockingDial hheld _ | watchDial hheld _ _ =>
    exact (hidle (congrArg Prod.fst hheld)).elim
  | blockingReply hkind hheld hstate =>
    obtain ⟨rfl, rfl, hrest, hpop⟩ := held_pop hheld hc hopen hown hpending hcb
    cases cb with
    | blocking req =>
      refine handleBlockingResponse hconn' hpop hstate env v req fun hmoved addr haddr => ?_
      simpa [orderlyReply, hmoved, haddr] using hreply
    | authThenBlocking req =>
      have herr : v.isError = false := by simpa [orderlyReply] using hreply
      simp only [Session.respond, respondAuth, herr, Bool.false_eq_true, if_false]
      rw [request_of_some (setConn_self s c _)]
      simp only [held, Prod.mk.injEq] at hpop
      obtain ⟨hnone, hdials, hreq, hback⟩ := hpop
      refine @Waits.blockingReply _ c (.blocking req) rfl (held_eq ?_ hdials hreq hback) hstate
      rw [awaited, awaiting_setConn]
      refine congrArg₂ (fun replies list => Function.update replies c list) hnone ?_
      simp [Backend.awaiting, Backend.push, hopen, hown, hrest, Callback.isAwaited,
        Callback.isBlocking]
    | _ => cases hkind
  | watchReply hkind hheld hwatch hstate hauth hfirst =>
    obtain ⟨rfl, rfl, -, hpop⟩ := held_pop hheld hc hopen hown hpending hcb
    have hack : ∀ slotIdx, ((s.setConn c { b with pending := rest }).ackWatch slotIdx v).state ≠
        .blocking := by
      intro slotIdx
      change (if v.isError then s.state else .watch) ≠ .blocking
      split
      · rcases hstate with hstate | hstate <;> simp [hstate]
      · simp
    cases cb with
    | watchFirst req slotIdx =>
      simp only [Session.respond]
      split
      · rename_i hmoved
        have hdial : dialError ((redirectionAddr v).getD []) (env.dial ((redirectionAddr v).getD [])) =
            none := by
          simpa [orderlyReply, hmoved] using hreply
        exact dialWatch (t := { s.setConn c { b with pending := rest } with watchBackend := none })
          hpop hstate hauth env req slotIdx hdial
      · exact .idle hpop (hack slotIdx) rfl
    | watchReuse slotIdx =>
      have hnil : s.pendingCmds = [] := hfirst.resolve_right (by rintro ⟨_, _, heq⟩; cases heq)
      exact .idle hpop (hack slotIdx) hnil
    | _ => cases hkind

theorem onBackendValue (h : s.Waits) (hconn : s.ConnInv) (hclean : s.WatchClean)
    (hok : orderly cfg s (.value env c v) = true) : (s.onBackendValue env c v).Waits := by
  unfold Session.onBackendValue
  split
  · exact h
  rename_i b hc
  split
  · exact h
  rename_i hlive
  split
  · exact h
  rename_i cb rest hpending
  obtain ⟨hopen, hown⟩ : b.isClosed = false ∧ b.own = true := by simpa using hlive
  by_cases hcb : cb.isAwaited = true
  · have hreply : orderlyReply env v cb = true := by
      simpa [orderly, hc, hopen, hown, hpending] using hok
    exact h.respond hconn hc hopen hown hpending hcb hreply
  · exact h.keep (h.keeps_respond hconn hclean hc hopen hown hpending (by simpa using hcb) env v)

theorem lost (h : s.Waits) (hconn : s.ConnInv) (hok : orderly cfg s (.lost c) = true) :
    (s.onBackendClose c).Waits := by
  have hwatch : ∀ cb ∈ s.awaited c, cb.isWatch = false := by simpa [orderly] using hok
  by_cases hbackend : s.blockingBackend = some c
  · cases h with
    | idle hheld _ _ | blockingDial hheld _ | watchDial hheld _ _ | watchReply _ hheld _ _ _ _ =>
      cases hbackend.symm.trans (congrArg (·.2.2.2) hheld)
    | @blockingReply d cb hcb hheld hstate =>
      -- The blocking command is interrupted.
      simp only [held, Prod.mk.injEq] at hheld
      obtain ⟨hawaited, hdials, hreq, hback⟩ := hheld
      obtain rfl : d = c := by simpa [hback] using hbackend
      have hclosed : (s.onBackendClose d).awaited = noReplies := by
        rw [awaited, awaiting_onBackendClose]
        change Function.update s.awaited d [] = noReplies
        rw [hawaited, oneReply, Function.update_idem]
        exact Function.update_eq_self d noReplies
      rcases hconn.onBackendClose_cases d with ⟨-, hall⟩ | ⟨b, hb, -, ⟨-, -, hclose⟩ | ⟨hnot, -⟩⟩
      · obtain ⟨b, hb, -, hopen, -⟩ := hconn.blocking d hback
        rw [hall b hb] at hopen
        cases hopen
      · rw [hclose] at hclosed ⊢
        refine .idle (held_eq hclosed hdials hreq ?_) (by nofun) rfl
        exact if_pos hback
      · exact absurd ⟨hback, hstate⟩ hnot
  · refine h.keep (.onBackendClose ?_ hbackend)
    by_cases hwatching : s.watchBackend = some c
    · -- On the connection that watches, only replies to WATCH could be awaited.
      cases h with
      | idle hheld _ _ | blockingDial hheld _ | watchDial hheld _ _ =>
        exact congrFun (congrArg Prod.fst hheld) c
      | @blockingReply d cb hcb hheld _ =>
        have hne : c ≠ d := fun heq => hbackend (heq ▸ congrArg (·.2.2.2) hheld)
        rw [show s.awaited = oneReply d cb from congrArg Prod.fst hheld, oneReply,
          Function.update_of_ne hne]
        rfl
      | @watchReply d cb hcb hheld hback _ _ _ =>
        obtain rfl : d = c := by simpa [hback] using hwatching
        have hawaited : s.awaited d = [cb] := by
          rw [show s.awaited = oneReply d cb from congrArg Prod.fst hheld, oneReply,
            Function.update_self]
        rw [hwatch cb (by simp [hawaited])] at hcb
        cases hcb
    · exact h.awaited_nil hbackend hwatching

private theorem keeps_loseIdle (hconn : s.ConnInv) (addr : Bytes) :
    Keeps s (s.loseIdle (s.takeIdle addr s.idle)) := by
  unfold Session.loseIdle
  split
  · exact .same rfl rfl
  rename_i c htake
  obtain ⟨b, hc, -, -, hpending, -⟩ := hconn.taken htake
  have hset : Keeps s (s.setConn c { b with own := false }) := by
    refine .setConn ?_
    rw [awaited, awaiting_of_some hc, Backend.awaiting_of_pending_nil hpending]
    simp [Backend.awaiting]
  rw [hc]
  exact hset.trans (.same rfl rfl)

private theorem keeps_runTask (t : Task)
    (hstart : ∀ c queue slotIdx, t = .startMulti c queue slotIdx →
      ∃ b, s.conns c = some b ∧ b.kind = .multi) : Keeps s (s.runTask cfg t) := by
  cases t with
  | fill slotIdx data => exact .same rfl rfl
  | startMulti c queue slotIdx =>
    obtain ⟨b, hc, -⟩ := hstart c queue slotIdx rfl
    rw [startMulti_of_some hc]
    refine .setConn ?_
    rw [Backend.awaiting_push _ _ rfl, Backend.awaiting_auth _ cfg rfl, awaited, awaiting_of_some hc]

private theorem hubClosed (h : s.Waits) (hok : orderly cfg s .hubClosed = true) :
    s.onHubClosed.Waits := by
  by_cases hsubs : s.hub.subs = []
  · refine h.keep ⟨rfl, ?_, rfl, rfl, fun _ hc _ => hc⟩
    simp [onHubClosed, hsubs]
  have hstate : s.onHubClosed.state = .normal := by simp [onHubClosed, hsubs]
  have hblocking : s.state ≠ .blocking := by simpa [orderly, hsubs] using hok
  cases h with
  | idle hheld _ hpending => exact .idle hheld (by simp [hstate]) hpending
  | blockingDial _ hs | blockingReply _ _ hs => exact absurd hs hblocking
  | watchDial hheld _ hauth => exact .watchDial hheld (Or.inl hstate) hauth
  | watchReply hcb hheld hwatch _ hauth hfirst =>
    exact .watchReply hcb hheld hwatch (Or.inl hstate) hauth hfirst

/-- An event that neither dispatches a request nor ends the client. -/
theorem onEvent (h : s.Waits) (hconn : s.ConnInv) (hclean : s.WatchClean) {e : SessionEvent}
    (hdispatch : e.dispatches = false) (hclose : e ≠ .clientClosed)
    (hok : orderly cfg s e = true) : (s.onEvent cfg e).Waits := by
  cases e with
  | request env req | protocolError err | drain env => cases hdispatch
  | clientClosed => exact absurd rfl hclose
  | opened i =>
    simp only [Session.onEvent]
    split
    · exact h
    rename_i d hd
    exact h.opened hconn hd
  | dialFailed i err =>
    simp only [Session.onEvent]
    split
    · exact h
    rename_i d hd
    refine h.dialFailed hd (fun addr heq => ?_) err
    simp [orderly, hd, heq] at hok
  | value env c v => exact h.onBackendValue hconn hclean hok
  | lost c => exact h.lost hconn hok
  | task i =>
    simp only [Session.onEvent]
    split
    · exact h
    rename_i t ht
    have herase : Keeps s { s with tasks := s.tasks.eraseIdx i } := .same rfl rfl
    refine h.keep (herase.trans (keeps_runTask t fun c queue slotIdx heq => ?_))
    exact hconn.starts (c, queue, slotIdx) (mem_starts.mpr (heq ▸ List.mem_of_getElem? ht))
  | routerDone i data | muxFailed i err =>
    simp only [Session.onEvent]
    split <;> exact h.keep (.same rfl rfl)
  | muxReply i data =>
    simp only [Session.onEvent]
    split
    · exact h
    unfold onMuxReply
    split <;> exact h.keep (.same rfl rfl)
  | hubOpened | hubDialFailed | maxClientsSet n => exact h.keep (.same rfl rfl)
  | hubClosed => exact h.hubClosed hok
  | idleTaken addr => exact h.keep (keeps_loseIdle hconn addr)
  | idleReturned addr =>
    have hset : Keeps s (s.setConn s.nextConn { kind := .blocking, addr, own := false }) :=
      keeps_fresh hconn rfl
    exact h.keep (hset.trans (.same rfl rfl))

/-! ### Requests -/

/-- While requests are held back, an orderly one is buffered. -/
theorem dispatch_of_holdsBack (h : s.Waits) (hholds : s.holdsBack = true) {req : Request}
    (hok : s.admits cfg env req = true) : dispatchClientRequest cfg env s req = .buffer := by
  obtain ⟨hargs, hverb⟩ : req.args ≠ [] ∧ [Verb.quit, .reset].contains (Verb.of req) = false := by
    simp only [admits, hholds, Bool.and_eq_true, Bool.not_true, Bool.false_or, decide_eq_true_eq,
      Bool.not_eq_true'] at hok
    exact hok.1.2
  unfold dispatchClientRequest
  rw [if_neg hargs]
  by_cases hblocking : s.state = .blocking
  · simp only [hblocking, hverb, Bool.false_eq_true, if_false]
  have hreq : s.pendingWatchReq.isSome = true := by simpa [holdsBack, hblocking] using hholds
  have hnormal : (s.state = .normal ∨ s.state = .watch) ∧ s.loc.authenticated = true := by
    cases h with
    | watchDial hheld hstate hauth | watchReply hcb hheld hwatch hstate hauth hfirst =>
      exact ⟨hstate, hauth⟩
    | blockingDial _ hs | blockingReply _ _ hs => exact absurd hs hblocking
    | idle hheld _ _ =>
      rw [show s.pendingWatchReq = none from congrArg (·.2.2.1) hheld] at hreq
      cases hreq
  have hbuffer : handleNormal cfg env s req = .buffer := by
    have hwaits : waitsForWatch s req = true := by rw [waitsForWatch, hreq, hverb]; rfl
    simp [handleNormal, refused, hnormal.2, hwaits]
  rcases hnormal.1 with hstate | hstate
  · simp only [hstate, hbuffer]
  · simp only [hstate, hbuffer]

private theorem held_dropWatch (hnone : s.awaited = noReplies) (hback : s.blockingBackend = none) :
    s.dropWatch.held = s.held ∧ s.dropWatch.state = s.state ∧
      s.dropWatch.loc.authenticated = s.loc.authenticated := by
  have hclose : Keeps s (s.closeConn s.watchBackend) := by
    cases s.watchBackend with
    | none => exact .same rfl rfl
    | some c => exact .onBackendClose (congrFun hnone c) (by simp [hback])
  exact ⟨hclose.held, hclose.state, hclose.auth⟩

/-- A WATCH of a client that waits for nothing. -/
private theorem startWatch (hheld : s.held = (noReplies, [], none, none))
    (hpending : s.pendingCmds = []) (hstate : s.state = .normal ∨ s.state = .watch)
    (hauth : s.loc.authenticated = true) (hconn : s.ConnInv) (env : Env) (req : Req)
    (hdial : (s.watchBackend.isSome = true ∧ s.watchAddr = addr) ∨
      dialError addr (env.dial addr) = none) : (s.startWatch env req addr).Waits := by
  unfold Session.startWatch
  split
  · rename_i c hwatch
    split
    · -- The connection is open already.
      obtain ⟨b, hc, -, hopen, hown⟩ := hconn.watch c hwatch
      rw [request_of_some (s := s.allocResponseSlot) hc]
      simp only [held, Prod.mk.injEq] at hheld
      obtain ⟨hawaited, hdials, hreq, hback⟩ := hheld
      refine @Waits.watchReply _ c (.watchReuse s.nextSlot) rfl (held_eq ?_ hdials hreq hback) hwatch
        hstate hauth (Or.inl hpending)
      have hnil : b.pending.filter Callback.isAwaited = [] := by
        rw [← Backend.awaiting_of_live hopen hown, ← awaiting_of_some hc]
        exact congrFun hawaited c
      rw [awaited, awaiting_setConn]
      refine congrArg₂ (fun replies list => Function.update replies c list) hawaited ?_
      simp [Backend.awaiting, Backend.push, hopen, hown, hnil, Callback.isAwaited, Callback.isWatch]
    · rename_i haddr
      have hstart := hdial.resolve_left fun h => haddr h.2
      obtain ⟨hdrop, hstate', hauth'⟩ := held_dropWatch (s := s.allocResponseSlot)
        (congrArg Prod.fst hheld) (congrArg (·.2.2.2) hheld)
      exact dialWatch (hdrop.trans hheld) (by rwa [hstate']) (by rwa [hauth']) env req s.nextSlot
        hstart
  · rename_i hwatch
    have hstart := hdial.resolve_left fun h => by simp [hwatch] at h
    exact dialWatch (t := s.allocResponseSlot) hheld hstate hauth env req s.nextSlot hstart

/-- A request of a client that waits for nothing. -/
private theorem dispatch_of_idle (hheld : s.held = (noReplies, [], none, none))
    (hstate : s.state ≠ .blocking) (hpending : s.pendingCmds = []) (hconn : s.ConnInv)
    (hok : s.admits cfg env req.body = true) : (s.dispatch cfg env req).Waits := by
  have hplan := chooses_dispatchClientRequest cfg env s req.body
  have hcalm : ∀ {next : Session}, Calm s next → next.Waits :=
    idle_of_calm hheld hstate hpending
  unfold Session.dispatch
  rw [admits, Bool.and_eq_true] at hok
  replace hok := hok.2
  generalize dispatchClientRequest cfg env s req.body = plan at hplan hok
  cases plan with
  | watch addr =>
    obtain ⟨⟨-, hnormal, hrefused, -⟩, hverb⟩ := hplan
    have hauth : s.loc.authenticated = true := by
      by_contra hflag
      simp [refused, hflag, hverb] at hrefused
    have hdial : (s.watchBackend.isSome = true ∧ s.watchAddr = addr) ∨
        dialError addr (env.dial addr) = none := by simpa using hok
    exact startWatch hheld hpending hnormal hauth hconn env req hdial
  | blocking addr =>
    let blocked : Session := { s.allocResponseSlot with
      state := .blocking, blockingSlotIdx := s.nextSlot }
    have hconn' : blocked.ConnInv := hconn.congr rfl
    exact dialBlockingBackend hconn' hheld rfl env addr req (Or.inr hpending)
  | buffer =>
    obtain ⟨-, ⟨hs, -⟩ | ⟨-, -, hwaits⟩⟩ := hplan
    · exact absurd hs hstate
    have hreq : s.pendingWatchReq = none := congrArg (·.2.2.1) hheld
    simp [waitsForWatch, hreq] at hwaits
  | _ => exact hcalm (Calm.perform env req hplan (by simp) (by simp) (by simp))

/-- The client buffers one more request. -/
private theorem buffer (h : s.Waits) (hholds : s.holdsBack = true) (req : Req) :
    ({ s with pendingCmds := s.pendingCmds ++ [req] } : Session).Waits := by
  cases h with
  | idle hheld hstate _ =>
    have hreq : s.pendingWatchReq = none := congrArg (·.2.2.1) hheld
    simp [holdsBack, hstate, hreq] at hholds
  | blockingDial hheld hstate => exact .blockingDial hheld hstate
  | blockingReply hcb hheld hstate => exact .blockingReply hcb hheld hstate
  | watchDial hheld hstate hauth => exact .watchDial hheld hstate hauth
  | watchReply hcb hheld hwatch hstate _ _ =>
    have hreq : s.pendingWatchReq = none := congrArg (·.2.2.1) hheld
    rcases hstate with hs | hs <;> simp [holdsBack, hs, hreq] at hholds

/-- A client that holds nothing back waits for nothing, or for the reply to a WATCH. -/
theorem idle_of_not_holdsBack (h : s.Waits) (hconn : s.ConnInv) (hholds : s.holdsBack = false)
    (hwatch : s.awaitsWatch = false) :
    s.held = (noReplies, [], none, none) ∧ s.state ≠ .blocking ∧ s.pendingCmds = [] := by
  cases h with
  | idle hheld hstate hpending => exact ⟨hheld, hstate, hpending⟩
  | blockingDial _ hs | blockingReply _ _ hs => simp [holdsBack, hs] at hholds
  | watchDial hheld _ _ =>
    rw [holdsBack, show s.pendingWatchReq = some _ from congrArg (·.2.2.1) hheld] at hholds
    simp at hholds
  | @watchReply c cb hcb hheld hback _ _ _ =>
    exfalso
    obtain ⟨b, hc, -⟩ := hconn.watch c hback
    have hlt : c < s.nextConn := by
      by_contra hge
      rw [hconn.fresh c (by omega)] at hc
      cases hc
    have hawaited : s.awaited c = [cb] := by
      rw [show s.awaited = oneReply c cb from congrArg Prod.fst hheld, oneReply,
        Function.update_self]
    have hawaits : s.awaitsWatch = true := by
      rw [awaitsWatch, List.any_eq_true]
      exact ⟨c, List.mem_range.mpr hlt, by simp [hawaited, hcb]⟩
    rw [hwatch] at hawaits
    cases hawaits

theorem dispatch (h : s.Waits) (hconn : s.ConnInv) (hok : s.admits cfg env req.body = true) :
    (s.dispatch cfg env req).Waits := by
  by_cases hholds : s.holdsBack = true
  · rw [Session.dispatch, h.dispatch_of_holdsBack hholds hok]
    exact h.buffer hholds req
  have hwatch : s.awaitsWatch = false := by
    simp only [admits, Bool.and_eq_true, Bool.not_eq_true'] at hok
    exact hok.1.1
  obtain ⟨hheld, hstate, hpending⟩ := h.idle_of_not_holdsBack hconn (by simpa using hholds) hwatch
  exact dispatch_of_idle hheld hstate hpending hconn hok

end Waits

/-! ### Runs -/

/-- The client waits for a blocking command or a WATCH whose end takes the buffered
requests. -/
def Awaits (s : Session) : Prop :=
  (s.state = .blocking ∧ ((∃ addr req, .blocking addr req ∈ s.dials) ∨
    ∃ c, s.blockingBackend = some c ∧ ∃ cb ∈ s.awaited c, cb.isBlocking = true)) ∨
  (s.pendingWatchReq.isSome = true ∧ ∃ addr, .watch addr ∈ s.dials) ∨
  ∃ c req slotIdx, .watchFirst req slotIdx ∈ s.awaited c

/-- Nothing is buffered unless the client waits. -/
theorem Waits.awaits (h : s.Waits) (hpending : s.pendingCmds ≠ []) : s.Awaits := by
  have hdial : ∀ d, s.awaitedDials = [d] → d ∈ s.dials := by
    intro d hd
    have hmem : d ∈ s.awaitedDials := by simp [hd]
    exact (List.mem_filter.mp hmem).1
  have hreply : ∀ {c cb}, s.awaited = oneReply c cb → cb ∈ s.awaited c := by
    intro c cb heq
    simp [heq, oneReply]
  cases h with
  | idle _ _ hnil => exact absurd hnil hpending
  | blockingDial hheld hstate =>
    exact Or.inl ⟨hstate, Or.inl ⟨_, _, hdial _ (congrArg (·.2.1) hheld)⟩⟩
  | blockingReply hcb hheld hstate =>
    exact Or.inl ⟨hstate, Or.inr ⟨_, congrArg (·.2.2.2) hheld, _,
      hreply (congrArg Prod.fst hheld), hcb⟩⟩
  | watchDial hheld _ _ =>
    have hreq : s.pendingWatchReq = some _ := congrArg (·.2.2.1) hheld
    exact Or.inr (Or.inl ⟨by simp [hreq], _, hdial _ (congrArg (·.2.1) hheld)⟩)
  | watchReply _ hheld _ _ _ hfirst =>
    obtain ⟨req, slotIdx, rfl⟩ := hfirst.resolve_left hpending
    exact Or.inr (Or.inr ⟨_, req, slotIdx, hreply (congrArg Prod.fst hheld)⟩)

/-- The requests dispatched so far, and the one that an event dispatches unless it is
buffered. -/
def dispatchLog (cfg : Config) (s : Session) (log : List ℕ) (e : SessionEvent) : List ℕ :=
  match s.dispatched e with
  | none => log
  | some (t, env, req) =>
    match dispatchClientRequest cfg env t req.body with
    | .buffer => log
    | _ => log ++ [req.id]

/-- The requests that a run dispatches. -/
def dispatches (cfg : Config) (policy : GrowthPolicy) (events : List SessionEvent) : List ℕ :=
  (Runs.run (Runs.withLog (exec cfg) (dispatchLog cfg)) (new cfg policy, []) events).2

/-- The invariant of the runs with orderly events. -/
structure TurnInv (log : List ℕ) (s : Session) : Prop where
  conn : s.ConnInv
  clean : s.WatchClean
  waits : s.dead = false → s.Waits
  order : (log ++ s.waiting.map Req.id).Pairwise (· < ·)
  bound : ∀ id ∈ log ++ s.waiting.map Req.id, id < s.arrived

section Steps

variable {cfg : Config} {s t : Session} {e : SessionEvent} {env : Env} {req : Req}

theorem admits_of_orderly (hok : orderly cfg s e = true) (hsome : s.dispatched e = some (t, env, req)) :
    t.admits cfg env req.body = true := by
  unfold dispatched at hsome
  split at hsome
  · cases hsome
  split at hsome
  · cases hsome
    exact hok
  · rename_i hdraining
    cases hsome
    simp only [orderly, hdraining, List.head?_cons, Option.all_some] at hok
    exact hok
  · cases hsome

/-- The requests that wait behind the one that an event dispatches. -/
theorem waiting_dispatched (hsome : s.dispatched e = some (t, env, req)) :
    t.pendingCmds = s.pendingCmds ∧
      ((s.draining = [] ∧ t.draining = [] ∧ req.id = s.arrived ∧ t.arrived = s.arrived + 1) ∨
        (s.draining = req :: t.draining ∧ t.arrived = s.arrived)) := by
  unfold dispatched at hsome
  split at hsome
  · cases hsome
  split at hsome
  · rename_i hdraining
    cases hsome
    exact ⟨rfl, Or.inl ⟨hdraining, hdraining, rfl, rfl⟩⟩
  · rename_i hdraining
    cases hsome
    exact ⟨rfl, Or.inr ⟨hdraining, rfl⟩⟩
  · cases hsome

/-- A plan other than the buffering of the request leaves those that wait. -/
theorem waiting_perform (hnil : s.pendingCmds = []) (env : Env) (req : Req) {plan : Plan}
    (hbuffer : plan ≠ .buffer) :
    (s.perform env req plan).waiting = s.waiting ∧
      (s.perform env req plan).arrived = s.arrived := by
  by_cases hdirect : plan.writesDirectly = true
  · cases plan with
    | write data | quit | execEmpty => exact ⟨rfl, rfl⟩
    | _ => cases hdirect
  · by_cases hreset : plan = .reset
    · subst hreset
      have hyields := yields_reset s env req
      refine ⟨hyields.waiting.trans ?_, hyields.arrived⟩
      simp only [waiting, hnil]
    · have hyields := yields_perform s env req (fun h => absurd h hdirect) hreset hbuffer
      exact ⟨hyields.waiting, hyields.arrived⟩

/-- A client that admits a request and does not hold it back has nothing buffered. -/
theorem Waits.dispatch_cases (h : t.Waits) (hconn : t.ConnInv)
    (hok : t.admits cfg env req.body = true) :
    dispatchClientRequest cfg env t req.body = .buffer ∨
      (dispatchClientRequest cfg env t req.body ≠ .buffer ∧ t.pendingCmds = [] ∧
        t.pendingWatchReq = none ∧ t.awaitsWatch = false) := by
  by_cases hholds : t.holdsBack = true
  · exact Or.inl (h.dispatch_of_holdsBack hholds hok)
  have hwatch : t.awaitsWatch = false := by
    simp only [admits, Bool.and_eq_true, Bool.not_eq_true'] at hok
    exact hok.1.1
  obtain ⟨hheld, hstate, hnil⟩ := h.idle_of_not_holdsBack hconn (by simpa using hholds) hwatch
  have hreq : t.pendingWatchReq = none := congrArg (·.2.2.1) hheld
  refine Or.inr ⟨fun hbuffer => ?_, hnil, hreq, hwatch⟩
  have hchooses := chooses_dispatchClientRequest cfg env t req.body
  rw [hbuffer] at hchooses
  obtain ⟨-, ⟨hs, -⟩ | ⟨-, -, hwaits⟩⟩ := hchooses
  · exact hstate hs
  · simp [waitsForWatch, hreq] at hwaits

/-- The request dispatched comes behind those dispatched and buffered before, and ahead of
those that the loop still has. -/
private theorem line_dispatch_turn (h : t.Waits) (hconn : t.ConnInv)
    (hok : t.admits cfg env req.body = true) (hsome : s.dispatched e = some (t, env, req))
    (log : List ℕ) :
    dispatchLog cfg s log e ++ (t.dispatch cfg env req).waiting.map Req.id =
        log ++ (t.pendingCmds.map Req.id ++ req.id :: t.draining.map Req.id) ∧
      (t.dispatch cfg env req).arrived = t.arrived := by
  unfold dispatchLog Session.dispatch
  rw [hsome]
  simp only
  rcases h.dispatch_cases hconn hok with hbuffer | ⟨hbuffer, hnil, -, -⟩
  · rw [hbuffer]
    simp [perform, waiting]
  obtain ⟨hwaiting, harrived⟩ := waiting_perform hnil env req hbuffer
  refine ⟨?_, harrived⟩
  rw [hwaiting]
  have hlog : (match dispatchClientRequest cfg env t req.body with
      | .buffer => log
      | _ => log ++ [req.id]) = log ++ [req.id] := by
    split
    · rename_i heq
      exact absurd heq hbuffer
    · rfl
  rw [hlog]
  simp [waiting, hnil]

theorem TurnInv.order_dispatch (h : TurnInv log s) (ht : t.Waits) (hconn : t.ConnInv)
    (hok : t.admits cfg env req.body = true) (hsome : s.dispatched e = some (t, env, req)) :
    (dispatchLog cfg s log e ++ (t.dispatch cfg env req).waiting.map Req.id).Pairwise (· < ·) ∧
      ∀ id ∈ dispatchLog cfg s log e ++ (t.dispatch cfg env req).waiting.map Req.id,
        id < (t.dispatch cfg env req).arrived := by
  obtain ⟨hline, harrived⟩ := line_dispatch_turn ht hconn hok hsome log
  obtain ⟨hpending, ⟨hnil, htnil, hid, hnext⟩ | ⟨hdraining, hnext⟩⟩ := waiting_dispatched hsome
  · -- A new request has the largest number.
    have hnew : log ++ (t.pendingCmds.map Req.id ++ req.id :: t.draining.map Req.id) =
        log ++ s.waiting.map Req.id ++ [s.arrived] := by
      simp [waiting, hpending, hnil, htnil, hid]
    rw [hline, hnew, harrived, hnext]
    refine ⟨List.pairwise_append.mpr ⟨h.order, List.pairwise_singleton _ _, ?_⟩, ?_⟩
    · intro id hmem id' hid'
      rw [List.mem_singleton.mp hid']
      exact h.bound id hmem
    intro id hmem
    rcases List.mem_append.mp hmem with hmem | hmem
    · exact Nat.lt_succ_of_lt (h.bound id hmem)
    rw [List.mem_singleton.mp hmem]
    exact Nat.lt_succ_self _
  · have hsame : log ++ (t.pendingCmds.map Req.id ++ req.id :: t.draining.map Req.id) =
        log ++ s.waiting.map Req.id := by
      simp [waiting, hpending, hdraining]
    rw [hline, hsame, harrived, hnext]
    exact ⟨h.order, h.bound⟩

/-- What a step leaves in the line. -/
theorem TurnInv.of_sublist {log' : List ℕ} (hconn : next.ConnInv) (hclean : next.WatchClean)
    (hwaits : next.dead = false → next.Waits)
    (hsub : (log' ++ next.waiting.map Req.id).Sublist (log ++ t.waiting.map Req.id))
    (horder : (log ++ t.waiting.map Req.id).Pairwise (· < ·))
    (hbound : ∀ id ∈ log ++ t.waiting.map Req.id, id < next.arrived) : TurnInv log' next :=
  ⟨hconn, hclean, hwaits, horder.sublist hsub, fun id hid => hbound id (hsub.subset hid)⟩

theorem isInput_of_dispatches (he : e.dispatches = false) : e.isInput = false := by
  cases e with
  | request env req | protocolError err => cases he
  | _ => rfl

/-- The requests that wait stay, if none is dispatched. -/
theorem waiting_exec (he : e.dispatches = false) : (s.exec cfg e).waiting = s.waiting := by
  unfold Session.exec
  split
  · rfl
  split
  · exact (yields_onEvent s cfg (isInput_of_dispatches he)).waiting
  split
  · cases he
  · rfl

theorem TurnInv.exec (h : TurnInv log s) (hok : orderly cfg s e = true) :
    TurnInv (dispatchLog cfg s log e) (s.exec cfg e) := by
  have hconn := h.conn.exec cfg e
  have hclean := h.clean.exec h.conn cfg e
  have heffect := effect_exec cfg s e
  by_cases hdead : s.dead = true
  · have hnone : s.dispatched e = none := by simp [dispatched, hdead]
    have hsame : s.exec cfg e = s := by simp [Session.exec, hdead]
    rw [hsame, dispatchLog, hnone]
    exact h
  have hwaits := h.waits (by simpa using hdead)
  have hserved : ∀ {t env req}, s.dispatched e = some (t, env, req) → t.Waits ∧ t.ConnInv := by
    intro t env req hsome
    obtain ⟨serving, arrived, draining, rfl⟩ := dispatched_served hsome
    exact ⟨hwaits.keep (.same rfl rfl), h.conn.congr rfl⟩
  generalize s.exec cfg e = next at heffect hconn hclean ⊢
  cases heffect with
  | none hnone =>
    rw [dispatchLog, hnone]
    exact h
  | dispatch hsome _ =>
    obtain ⟨ht, hconn'⟩ := hserved hsome
    have hadmits := admits_of_orderly hok hsome
    obtain ⟨horder, hbound⟩ := h.order_dispatch ht hconn' hadmits hsome
    exact ⟨hconn, hclean, fun _ => ht.dispatch hconn' hadmits, horder, hbound⟩
  | @quit t env req hsome _ =>
    obtain ⟨ht, hconn'⟩ := hserved hsome
    have hadmits := admits_of_orderly hok hsome
    obtain ⟨horder, hbound⟩ := h.order_dispatch ht hconn' hadmits hsome
    have hyields := stepRel_yields.onClientClose (t.dispatch cfg env req)
    refine .of_sublist hconn hclean (fun hlive => ?_) (by rw [hyields.waiting]) horder
      (by rwa [hyields.arrived])
    rw [dead_onClientClose] at hlive
    cases hlive
  | @stop t env req hsome _ =>
    obtain ⟨ht, hconn'⟩ := hserved hsome
    have hadmits := admits_of_orderly hok hsome
    obtain ⟨horder, hbound⟩ := h.order_dispatch ht hconn' hadmits hsome
    have hkeep : Keeps (t.dispatch cfg env req) { t.dispatch cfg env req with draining := [] } :=
      .same rfl rfl
    refine .of_sublist hconn hclean (fun _ => (ht.dispatch hconn' hadmits).keep hkeep) ?_ horder
      hbound
    refine (List.Sublist.refl _).append (List.Sublist.map _ ?_)
    exact (List.Sublist.refl _).append (List.nil_sublist _)
  | @protocolError err hnone _ _ =>
    rw [dispatchLog, hnone]
    have hyields := stepRel_yields.onClientClose
      ({ s with serving := s.arrived, arrived := s.arrived + 1 }.write
        (encodeError (bytes "ERR Protocol error: " ++ err)))
    refine .of_sublist hconn hclean (fun hlive => ?_) (by rw [hyields.waiting]; rfl) h.order
      fun id hid => ?_
    · rw [dead_onClientClose] at hlive
      cases hlive
    rw [hyields.arrived]
    exact Nat.lt_succ_of_lt (h.bound id hid)
  | other hnone he hdraining =>
    rw [dispatchLog, hnone]
    have hyields := yields_onEvent s cfg (isInput_of_dispatches he)
    refine .of_sublist hconn hclean (fun hlive => ?_) (by rw [hyields.waiting]) h.order
      (by rw [hyields.arrived]; exact h.bound)
    refine hwaits.onEvent h.conn h.clean he (fun hclose => ?_) hok
    subst hclose
    rw [onEvent, dead_onClientClose] at hlive
    cases hlive

end Steps

theorem turnInv_new (cfg : Config) (policy : GrowthPolicy) : TurnInv [] (new cfg policy) where
  conn := connInv_new cfg policy
  clean _ hc := by cases hc
  waits _ := .idle rfl (by nofun) rfl
  order := List.Pairwise.nil
  bound _ hid := by cases hid

theorem turnInv_after {cfg : Config} {policy : GrowthPolicy} {events : List SessionEvent}
    (hmeets : Runs.Meets (exec cfg) (fun s e => orderly cfg s e = true) (new cfg policy) events) :
    TurnInv (dispatches cfg policy events) (after cfg policy events) := by
  have hstep : ∀ (st : Session × List ℕ) (e : SessionEvent), TurnInv st.2 st.1 →
      orderly cfg st.1 e = true →
        TurnInv (Runs.withLog (exec cfg) (dispatchLog cfg) st e).2
          (Runs.withLog (exec cfg) (dispatchLog cfg) st e).1 :=
    fun _ _ h hok => h.exec hok
  have hrun := (hmeets.withLog (dispatchLog cfg) []).invariant hstep (turnInv_new cfg policy)
  rw [Runs.run_withLog_fst] at hrun
  exact hrun

/-- In every run with orderly events, requests are buffered only while the client waits for a
blocking command or a WATCH, the end of that command hands all of them to the dispatch loop,
the requests are dispatched in the order of arrival, and none is dispatched while another one
is buffered or a WATCH is not answered. -/
theorem buffered_requests_in_turn (cfg : Config) (policy : GrowthPolicy)
    (events : List SessionEvent)
    (hmeets : Runs.Meets (exec cfg) (fun s e => orderly cfg s e = true) (new cfg policy) events) :
    let s := after cfg policy events
    (s.dead = false → s.pendingCmds ≠ [] → s.Awaits) ∧
      (∀ e, orderly cfg s e = true → e.dispatches = false → (s.exec cfg e).dead = false →
        ¬ (s.exec cfg e).Awaits → (s.exec cfg e).pendingCmds = [] ∧
          (s.exec cfg e).draining = s.pendingCmds ++ s.draining) ∧
      (dispatches cfg policy events).Pairwise (· < ·) ∧
      ∀ e t env req, orderly cfg s e = true → s.dispatched e = some (t, env, req) →
        dispatchClientRequest cfg env t req.body ≠ .buffer →
          s.pendingCmds = [] ∧ s.pendingWatchReq = none ∧ s.awaitsWatch = false := by
  intro s
  have hinv : TurnInv (dispatches cfg policy events) s := turnInv_after hmeets
  refine ⟨fun hlive => (hinv.waits hlive).awaits, fun e hok he hlive hends => ?_,
    (List.pairwise_append.mp hinv.order).1, fun e t env req hok hsome hbuffer => ?_⟩
  · have hnext := hinv.exec hok
    have hnil : (s.exec cfg e).pendingCmds = [] := by
      by_contra hpending
      exact hends ((hnext.waits hlive).awaits hpending)
    refine ⟨hnil, ?_⟩
    have hwaiting : (s.exec cfg e).waiting = s.waiting := waiting_exec he
    simpa [waiting, hnil] using hwaiting
  · have hdead : s.dead = false := by
      by_contra hdead
      simp [dispatched, hdead] at hsome
    have hadmits := admits_of_orderly hok hsome
    obtain ⟨serving, arrived, draining, rfl⟩ := dispatched_served hsome
    have ht := (hinv.waits hdead).keep (.same rfl rfl : Keeps s { s with serving, arrived, draining })
    have hcases := ht.dispatch_cases (hinv.conn.congr rfl) hadmits
    exact (hcases.resolve_left hbuffer).2

/-- A WATCH with a request behind it, up to the reply to the WATCH and the dispatch of the
request. -/
theorem buffered_requests_in_turn_watch :
    let env := Env.oneNode (bytes "a:1")
    let watch : Request := { args := [bytes "WATCH", bytes "k"], cmd := bytes "WATCH" }
    let get : Request := { args := [bytes "GET", bytes "k"], cmd := bytes "GET" }
    let held : List SessionEvent := [.request env watch, .request env get, .opened 0]
    let served := held ++ [.value env 0 (.simpleString (bytes "OK")), .drain env]
    (after {} .doubling held).pendingCmds.map Req.id = [1] ∧ (after {} .doubling held).Awaits ∧
      dispatches {} .doubling served = [0, 1] ∧
      (dispatches {} .doubling served).Pairwise (· < ·) := by
  intro env watch get held served
  have hheld : Runs.Meets (exec {}) (fun s e => orderly {} s e = true) (new {} .doubling) held := by
    decide +kernel
  have hserved : Runs.Meets (exec {}) (fun s e => orderly {} s e = true) (new {} .doubling)
      served := by
    decide +kernel
  exact ⟨by decide +kernel,
    (buffered_requests_in_turn {} .doubling held hheld).1 (by decide +kernel) (by decide +kernel),
    by decide +kernel, (buffered_requests_in_turn {} .doubling served hserved).2.2.1⟩

/-- The dial of a WATCH fails and the next request is buffered for ever. A request that comes
between the opening of the connection and the reply to the WATCH overtakes a buffered one. -/
theorem failed_watch_strands_request :
    let env := Env.oneNode (bytes "a:1")
    let watch : Request := { args := [bytes "WATCH", bytes "k"], cmd := bytes "WATCH" }
    let get : Request := { args := [bytes "GET", bytes "k"], cmd := bytes "GET" }
    let failed := after {} .doubling
      [.request env watch, .dialFailed 0 (bytes "refused"), .request env get]
    let opened : List SessionEvent :=
      [.request env watch, .request env get, .opened 0, .request env get]
    (failed.dead = false ∧ failed.pendingCmds.map Req.id = [1] ∧ ¬ failed.Awaits) ∧
      (after {} .doubling opened).pendingCmds.map Req.id = [1] ∧
      (after {} .doubling opened).awaitsWatch = true ∧ dispatches {} .doubling opened = [0, 2] := by
  intro env watch get failed opened
  have hawaits : ¬ failed.Awaits := by
    have hstate : failed.state = .normal := by decide +kernel
    have hdials : failed.dials = [] := by decide +kernel
    rintro (⟨hblocking, -⟩ | ⟨-, addr, hmem⟩ | ⟨c, req, slotIdx, hmem⟩)
    · rw [hstate] at hblocking
      cases hblocking
    · rw [hdials] at hmem
      cases hmem
    · cases hmem
  exact ⟨⟨by decide +kernel, by decide +kernel, hawaits⟩, by decide +kernel, by decide +kernel,
    by decide +kernel⟩

end Session

end Pluster.Engine
