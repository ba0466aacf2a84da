import Pluster.Engine.AuthGate
import Pluster.Engine.Unsubscribe

/-!
# Clients that close

One client with its session, the hub, and the other clients of the event loop as far as the
hub knows them. The part of the hub in the session is what the hub has of the client. When
the client closes, the hub forgets it exactly if the client is in the subscription state at
that time or has no entries, and has no request that waits for the connection of the hub.
-/

namespace Pluster.Engine

open Proto GoStrings GoRuntime

variable {other : ℕ} {hub : PubsubHub} {s : Session} {e : SessionEvent} {cfg : Config}

/-- A client and the hub of its event loop. The client has the number 0 in the hub. -/
structure LoopState where
  session : Session
  hub : PubsubHub := {}

/-- What can happen to the client and to the hub. -/
inductive LoopEvent
  /-- An event of the client. The events of the hub have their own constructors. -/
  | own (e : SessionEvent)
  /-- A request of another client. -/
  | request (env : Env) (other : ℕ) (req : SubRequest)
  /-- Another client in the subscription state closes. -/
  | otherClosed (other : ℕ)
  | hubOpened
  | hubDialFailed
  | hubClosed
  | hubValue (v : Value)

namespace Session

/-- The event runs `onClientClose`. -/
def closes (s : Session) (cfg : Config) (e : SessionEvent) : Bool :=
  !s.dead && s.draining = [] &&
    match e with
    | .request env req =>
      { s with serving := s.arrived, arrived := s.arrived + 1 }.quits cfg env req
    | .protocolError _ | .clientClosed => true
    | _ => false

end Session

/-- What the dispatch of a request does to the hub. -/
def hubOfDispatch (cfg : Config) (hub : PubsubHub) (t : Session) (env : Env) (req : Req) :
    PubsubHub :=
  match dispatchClientRequest cfg env t req.body with
  | .subscribe => hub.subscribe env 0 req.body
  | .unsubscribe => hub.unsubscribe 0 req.body
  | _ => hub

/-- What an event of the client does to the hub. The end of `onClientClose` looks at the state
of the client after its connections were closed; QUIT and a protocol error do not change it
before. -/
def hubAfter (cfg : Config) (s : Session) (hub : PubsubHub) (e : SessionEvent) : PubsubHub :=
  if s.closes cfg e then
    if s.onClientClose.state = .subscribe then hub.removeClient 0 else hub
  else
    match s.dispatched e with
    | none => hub
    | some (t, env, req) => hubOfDispatch cfg hub t env req

namespace LoopState

/-- The loop of `drainPendingCmds` is running. -/
def busy (st : LoopState) : Bool := !st.session.dead && st.session.draining ≠ []

/-- An event of the hub and of the client. -/
def shared (cfg : Config) (st : LoopState) (e : SessionEvent) (hub : PubsubHub) : LoopState :=
  ⟨st.session.exec cfg e, hub⟩

/-- Execute one event. An event that cannot occur leaves the state as it is. -/
def exec (cfg : Config) (globMatch : Bytes → Bytes → Bool) (st : LoopState) :
    LoopEvent → LoopState
  | .own e =>
    match e with
    | .hubOpened | .hubDialFailed | .hubClosed => st
    | e => ⟨st.session.exec cfg e, hubAfter cfg st.session st.hub e⟩
  | .request env other req =>
    if st.busy then st else { st with hub := st.hub.onRequest env (other + 1) req }
  | .otherClosed other => if st.busy then st else { st with hub := st.hub.removeClient (other + 1) }
  | .hubOpened =>
    if st.busy || !st.hub.dialing then st
    else st.shared cfg .hubOpened (st.hub.onSharedBackendOpen cfg)
  | .hubDialFailed =>
    if st.busy || !st.hub.dialing then st
    else st.shared cfg .hubDialFailed { st.hub with dialing := false }
  | .hubClosed =>
    if st.busy || !st.hub.connected then st
    else st.shared cfg .hubClosed st.hub.onSharedBackendClose
  | .hubValue v =>
    if st.busy || !st.hub.connected then st
    else { st with hub := st.hub.dispatchMessage globMatch v }

end LoopState

/-! ### The hub forgets a client -/

/-- Nothing in the hub refers to a client. -/
structure Forgotten (client : ℕ) (hub : PubsubHub) : Prop where
  subs : ∀ e ∈ hub.subs, e.client ≠ client
  clientSubs : hub.clientSubs client = []
  pending : ∀ pc ∈ hub.pendingClients, pc.1 ≠ client

namespace Forgotten

variable {client : ℕ} {hub : PubsubHub}

/-- A forgotten client gets no messages. -/
theorem pushes (h : Forgotten client hub) (globMatch : Bytes → Bytes → Bool) (v : Value) :
    ∀ msg ∈ hub.pushes globMatch v, msg.1 ≠ client := by
  have hchannel : ∀ channel v, ∀ msg ∈ hub.channelPushes channel v, msg.1 ≠ client := by
    intro channel v msg hmsg
    obtain ⟨e, he, rfl⟩ := List.mem_map.mp hmsg
    exact h.subs e (List.mem_of_mem_filter he)
  have hpattern : ∀ channel payload, ∀ msg ∈ hub.patternPushes globMatch channel payload,
      msg.1 ≠ client := by
    intro channel payload msg hmsg
    obtain ⟨e, he, rfl⟩ := List.mem_map.mp hmsg
    exact h.subs e (List.mem_of_mem_filter he)
  intro msg hmsg
  unfold PubsubHub.pushes at hmsg
  split at hmsg
  · dsimp only at hmsg
    split at hmsg
    · cases hmsg
    split at hmsg
    · exact hchannel _ _ msg hmsg
    split at hmsg
    · rcases List.mem_append.mp hmsg with hmsg | hmsg
      · exact hchannel _ _ msg hmsg
      · exact hpattern _ _ msg hmsg
    split at hmsg
    · split at hmsg
      · cases hmsg
      · exact hpattern _ _ msg hmsg
    · cases hmsg
  · cases hmsg

theorem subscribe (h : Forgotten client hub) (env : Env) (hother : other ≠ client) (req : Request) :
    Forgotten client (hub.subscribe env other req) where
  subs e he := by
    rcases PubsubHub.mem_subscribe he with hold | ⟨p, -, rfl⟩
    · exact h.subs e hold
    · exact hother
  clientSubs := by
    rw [PubsubHub.subscribe, PubsubHub.forwardOrWait_clientSubs, PubsubHub.clientSubs_addSubs hother,
      PubsubHub.clientSubs_startDial, h.clientSubs]
  pending pc hpc := by
    rcases PubsubHub.mem_pendingClients_subscribe hpc with hold | rfl
    · exact h.pending pc hold
    · exact hother

theorem unsubscribe (h : Forgotten client hub) (hconsistent : hub.Consistent)
    (hother : other ≠ client) (req : Request) : Forgotten client (hub.unsubscribe other req) where
  subs e he := h.subs e ((PubsubHub.mem_unsubscribe hconsistent).mp he).1
  clientSubs := by
    rw [PubsubHub.unsubscribe, PubsubHub.forwardOrReply_clientSubs,
      PubsubHub.clientSubs_removeSubs hother, h.clientSubs]
  pending pc hpc := by
    rw [PubsubHub.pendingClients_unsubscribe] at hpc
    exact h.pending pc hpc

theorem removeClient (h : Forgotten client hub) (hconsistent : hub.Consistent)
    (hother : other ≠ client) : Forgotten client (hub.removeClient other) where
  subs e he := h.subs e (hconsistent.mem_removeAllSubs.mp he).1
  clientSubs := by
    have hkeeps : (hub.removeClient other).clientSubs client = hub.clientSubs client :=
      Function.update_of_ne (Ne.symm hother) _ _
    rw [hkeeps, h.clientSubs]
  pending := h.pending

theorem onRequest (h : Forgotten client hub) (hconsistent : hub.Consistent) (env : Env)
    (hother : other ≠ client) (req : SubRequest) :
    Forgotten client (hub.onRequest env other req) := by
  unfold PubsubHub.onRequest
  split
  · exact h.subscribe env hother _
  · exact h.unsubscribe hconsistent hother _

end Forgotten

/-! ### The part of the hub in the session -/

namespace PubsubHub

/-- The names under which a client has entries. -/
def namesOf (hub : PubsubHub) (client : ℕ) : List Bytes :=
  (hub.subs.filter fun e => e.client = client).map SubEntry.pattern

variable {client other : ℕ}

theorem mem_namesOf {p : Bytes} :
    p ∈ hub.namesOf client ↔ hub.subs.any (SubEntry.isFor client p) = true := by
  simp only [namesOf, List.mem_map, List.mem_filter, decide_eq_true_eq, List.any_eq_true,
    SubEntry.isFor, Bool.and_eq_true]
  constructor
  · rintro ⟨e, ⟨he, hclient⟩, hp⟩
    exact ⟨e, he, hp, hclient⟩
  rintro ⟨e, he, hp, hclient⟩
  exact ⟨e, ⟨he, hclient⟩, hp⟩

theorem filter_eraseP {α : Type} {p q : α → Bool} (h : ∀ a, q a = true → p a = false)
    (l : List α) : (l.eraseP q).filter p = l.filter p := by
  induction l with
  | nil => rfl
  | cons a l ih =>
    cases hq : q a with
    | false => rw [List.eraseP_cons_of_neg (by simp [hq]), List.filter_cons, List.filter_cons, ih]
    | true => rw [List.eraseP_cons_of_pos hq, List.filter_cons_of_neg (by simp [h a hq])]

/-- The requests of the other clients keep the entries of a client. -/
theorem namesOf_addSubs (hother : other ≠ client) (hub : PubsubHub) (req : Request) :
    (hub.addSubs other req).namesOf client = hub.namesOf client := by
  apply foldl_keeps fun hub => hub.namesOf client
  intro hub p
  unfold addSub
  split
  · rfl
  · simp [namesOf, hother]

theorem filter_isFor_other (hother : other ≠ client) (subs : List SubEntry) (p : Bytes) :
    (subs.eraseP (SubEntry.isFor other p)).filter (fun e => e.client = client) =
      subs.filter fun e => e.client = client := by
  apply filter_eraseP
  intro e he
  simp only [SubEntry.isFor, Bool.and_eq_true, decide_eq_true_eq] at he
  simp [he.2, hother]

theorem namesOf_removeAllSubs (hother : other ≠ client) (hub : PubsubHub) :
    (hub.removeAllSubs other).namesOf client = hub.namesOf client := by
  simp only [namesOf, removeAllSubs]
  congr 1
  generalize hub.subs = subs
  induction hub.clientSubs other generalizing subs with
  | nil => rfl
  | cons p names ih => rw [List.foldl_cons, ih, filter_isFor_other hother]

theorem namesOf_removeSubs (hother : other ≠ client) (hub : PubsubHub) (names : List Bytes) :
    (hub.removeSubs other names).namesOf client = hub.namesOf client := by
  unfold removeSubs
  split
  · exact namesOf_removeAllSubs hother hub
  apply foldl_keeps fun hub => hub.namesOf client
  intro hub p
  exact congrArg _ (filter_isFor_other hother hub.subs p)

theorem eraseDups_concat (names : List Bytes) (p : Bytes) : (names ++ [p]).eraseDups =
    if p ∈ names then names.eraseDups else names.eraseDups ++ [p] := by
  rw [List.eraseDups_append]
  by_cases hp : p ∈ names
  · simp [List.removeAll, hp]
  · simp [List.removeAll, hp, List.eraseDups_cons]

/-- What `addSub` for a list of names adds. -/
theorem foldl_addSub (client : ℕ) (isGlob : Bool) (names : List Bytes) (hub : PubsubHub) :
    let next := names.foldl (addSub client isGlob) hub
    let added := names.eraseDups.filter fun p => p ∉ hub.namesOf client
    next.namesOf client = hub.namesOf client ++ added ∧
      next.clientSubs client =
        hub.clientSubs client ++ added.filter fun p => p ∉ hub.clientSubs client := by
  induction names using List.reverseRecOn with
  | nil => simp
  | append_singleton names p ih =>
    obtain ⟨hnames, hclient⟩ := ih
    rw [List.foldl_append, List.foldl_cons, List.foldl_nil]
    generalize names.foldl (addSub client isGlob) hub = mid at hnames hclient ⊢
    rw [eraseDups_concat]
    have hany : mid.subs.any (SubEntry.isFor client p) = true ↔
        p ∈ hub.namesOf client ∨ p ∈ names := by
      rw [← mem_namesOf, hnames]
      simp only [List.mem_append, List.mem_filter, List.mem_eraseDups, decide_eq_true_eq]
      tauto
    unfold addSub
    by_cases hold : p ∈ hub.namesOf client ∨ p ∈ names
    · simp only [if_pos (hany.mpr hold), hnames, hclient]
      rcases hold with hold | hold
      · split <;> simp [hold]
      · simp [hold]
    · simp only [if_neg (fun h => hold (hany.mp h))]
      obtain ⟨hnew, hfirst⟩ := not_or.mp hold
      have hnamesOf : ∀ next : PubsubHub, next.subs = mid.subs ++ [⟨client, p, isGlob⟩] →
          next.namesOf client = mid.namesOf client ++ [p] := by
        intro next hnext
        simp [namesOf, hnext]
      refine ⟨?_, ?_⟩
      · rw [hnamesOf _ rfl, hnames]
        simp [hnew, hfirst]
      simp only [Function.update_self, hclient]
      have hmem : p ∈ hub.clientSubs client ++ (names.eraseDups.filter fun p =>
          p ∉ hub.namesOf client).filter (fun p => p ∉ hub.clientSubs client) ↔
          p ∈ hub.clientSubs client := by
        simp [hfirst]
      rw [if_congr hmem rfl rfl]
      by_cases hmem' : p ∈ hub.clientSubs client
      · simp [hfirst, hnew, hmem']
      · simp [hfirst, hnew, hmem']

/-- What the removal of a list of names leaves. -/
theorem foldl_removeSub (client : ℕ) (names : List Bytes) (h : hub.Consistent) : let next := names.foldl (removeSub client) hub
    next.namesOf client = (hub.namesOf client).filter (fun p => p ∉ names) ∧
      next.clientSubs client = (hub.clientSubs client).filter fun p => p ∉ names := by
  induction names generalizing hub with
  | nil => simp
  | cons p names ih =>
    obtain ⟨hnames, hclient⟩ := ih (h.removeSub client p)
    have hhead : (hub.removeSub client p).namesOf client =
        (hub.namesOf client).filter fun q => q ≠ p := by
      simp only [namesOf, removeSub, eraseP_eq_filter h.nodup, List.filter_map, List.filter_filter]
      congr 1
      apply List.filter_congr
      intro e _
      simp only [SubEntry.isFor, Function.comp_apply]
      grind
    have hheadClient : (hub.removeSub client p).clientSubs client =
        (hub.clientSubs client).filter fun q => q ≠ p := Function.update_self _ _ _
    rw [hhead, List.filter_filter] at hnames
    rw [hheadClient, List.filter_filter] at hclient
    refine ⟨hnames.trans (List.filter_congr ?_), hclient.trans (List.filter_congr ?_)⟩
    · intro q _
      simp only [List.mem_cons]
      grind
    intro q _
    simp only [List.mem_cons]
    grind

/-- What `removeAllSubs` leaves of the entries of the client. -/
theorem namesOf_removeAllSubs_self (h : hub.Consistent) :
    (hub.removeAllSubs client).namesOf client =
      (hub.namesOf client).filter fun p => p ∉ hub.clientSubs client := by
  simp only [namesOf, removeAllSubs, foldl_eraseP_eq_filter client _ h.nodup, List.filter_map,
    List.filter_filter]
  congr 1
  apply List.filter_congr
  intro e _
  simp only [Function.comp_apply]
  grind

end PubsubHub

/-- What the session has of the hub, without its log. -/
def Hub.part (own : Hub) : Bool × List Bytes × List Bytes :=
  (own.connected, own.subs, own.clientSubs)

namespace PubsubHub

/-- What the hub has of the client. -/
def ownPart (hub : PubsubHub) : Bool × List Bytes × List Bytes :=
  (hub.connected, hub.namesOf 0, hub.clientSubs 0)

theorem ownPart_startDial (hub : PubsubHub) (env : Env) :
    (hub.startDial env).ownPart = hub.ownPart := by
  unfold startDial
  split <;> rfl

theorem ownPart_forwardOrWait (hub : PubsubHub) (client : ℕ) (req : Request) :
    (hub.forwardOrWait client req).ownPart = hub.ownPart := by
  simp only [forwardOrWait, forwardToBackend]
  split <;> rfl

theorem ownPart_forwardOrReply (hub : PubsubHub) (client : ℕ) (req : Request) :
    (hub.forwardOrReply client req).ownPart = hub.ownPart := by
  simp only [forwardOrReply, forwardToBackend]
  split <;> rfl

theorem connected_addSubs (hub : PubsubHub) (client : ℕ) (req : Request) :
    (hub.addSubs client req).connected = hub.connected :=
  congrArg Prod.fst (link_addSubs hub client req)

theorem connected_removeSubs (hub : PubsubHub) (client : ℕ) (names : List Bytes) :
    (hub.removeSubs client names).connected = hub.connected :=
  congrArg Prod.fst (link_removeSubs hub client names)

/-- Another client changes nothing of it. -/
theorem ownPart_onRequest (hub : PubsubHub) (env : Env) (other : ℕ) (req : SubRequest) :
    (hub.onRequest env (other + 1) req).ownPart = hub.ownPart := by
  unfold onRequest
  split
  · rw [subscribe, ownPart_forwardOrWait, ← ownPart_startDial hub env, ownPart, ownPart,
      connected_addSubs, namesOf_addSubs (Nat.succ_ne_zero other),
      clientSubs_addSubs (Nat.succ_ne_zero other)]
  rw [unsubscribe, ownPart_forwardOrReply, ownPart, ownPart, connected_removeSubs,
    namesOf_removeSubs (Nat.succ_ne_zero other), clientSubs_removeSubs (Nat.succ_ne_zero other)]

theorem ownPart_removeClient (hub : PubsubHub) (other : ℕ) :
    (hub.removeClient (other + 1)).ownPart = hub.ownPart := by
  have hnames := namesOf_removeAllSubs (Nat.succ_ne_zero other) hub
  have hclient : Function.update hub.clientSubs (other + 1) [] 0 = hub.clientSubs 0 :=
    Function.update_of_ne (Ne.symm (Nat.succ_ne_zero other)) [] hub.clientSubs
  exact congrArg₂ (fun names clientSubs => (hub.connected, names, clientSubs)) hnames hclient

theorem part_subscribe (h : s.hub.part = hub.ownPart) (env : Env) (req : Request) :
    (s.subscribe env req.args.tail).hub.part = (hub.subscribe env 0 req).ownPart := by
  obtain ⟨hnames, hclient⟩ :=
    foldl_addSub 0 (req.cmd = bytes "PSUBSCRIBE") req.args.tail (hub.startDial env)
  rw [← ownPart_startDial hub env] at h
  simp only [Hub.part, ownPart, Prod.mk.injEq] at h
  obtain ⟨hconnected, hsubs, hown⟩ := h
  rw [subscribe, ownPart_forwardOrWait, ownPart, connected_addSubs, addSubs, hnames, hclient]
  simp only [Session.subscribe, Hub.part, hconnected, hsubs, hown]

theorem part_unsubscribe (hconsistent : hub.Consistent) (h : s.hub.part = hub.ownPart)
    (req : Request) : (s.unsubscribe req).hub.part = (hub.unsubscribe 0 req).ownPart := by
  simp only [Hub.part, ownPart, Prod.mk.injEq] at h
  obtain ⟨hconnected, hsubs, hown⟩ := h
  rw [unsubscribe, ownPart_forwardOrReply, ownPart, connected_removeSubs]
  simp only [Session.unsubscribe, Hub.part, hconnected, hsubs, hown]
  unfold removeSubs
  by_cases hnil : req.args.tail = []
  · have hclient : (hub.removeAllSubs 0).clientSubs 0 = hub.clientSubs 0 := rfl
    rw [if_pos hnil, namesOf_removeAllSubs_self hconsistent, hclient]
    simp [hnil]
  obtain ⟨hnames, hclient⟩ := foldl_removeSub 0 req.args.tail hconsistent
  rw [if_neg hnil, hnames, hclient]
  simp [hnil]

end PubsubHub

/-! ### Runs -/

namespace Session

variable {cfg : Config} {s : Session}

theorem closed_of_closes (h : s.closes cfg e = true) : (s.exec cfg e).closed = true := by
  simp only [closes, Bool.and_eq_true, Bool.not_eq_true', decide_eq_true_eq] at h
  obtain ⟨⟨hdead, hdraining⟩, hevent⟩ := h
  have hexec : s.exec cfg e = s.onEvent cfg e := by simp [exec, hdead, hdraining]
  rw [hexec]
  cases e with
  | request env req =>
    simp only [onEvent, onRequest, hevent, if_true]
    rfl
  | protocolError err | clientClosed => rfl
  | _ => cases hevent

theorem own_of_closes (h : s.closes cfg e = true) :
    e ≠ .hubOpened ∧ e ≠ .hubDialFailed ∧ e ≠ .hubClosed := by
  refine ⟨?_, ?_, ?_⟩ <;> rintro rfl <;> simp [closes] at h

/-- The end of a client does not enter or leave the subscription state. -/
theorem state_onClientClose (s : Session) :
    s.onClientClose.state = .subscribe ↔ s.state = .subscribe := by
  by_cases hstate : s.state = .blocking
  · have hsettles := (stepRel_settles.onClientClose s).state
    rw [hstate] at hsettles ⊢
    rcases hsettles with h | h | h <;> simp [h]
  · rw [(Untouched.onClientClose hstate).state]

/-- Requests change the part of the hub in the session as they change the hub. -/
theorem part_dispatch (hconsistent : hub.Consistent) (h : s.hub.part = hub.ownPart) (env : Env)
    (req : Req) :
    (s.dispatch cfg env req).hub.part = (hubOfDispatch cfg hub s env req).ownPart := by
  unfold dispatch hubOfDispatch
  cases dispatchClientRequest cfg env s req.body with
  | subscribe => exact PubsubHub.part_subscribe h env req.body
  | unsubscribe => exact PubsubHub.part_unsubscribe hconsistent h req.body
  | push data => exact h
  | _ =>
    refine (congrArg Hub.part (hub_perform s env req ?_ ?_ ?_)).trans h
    all_goals nofun

end Session

theorem hubOfDispatch_consistent (h : hub.Consistent) (t : Session) (env : Env) (req : Req) :
    (hubOfDispatch cfg hub t env req).Consistent := by
  unfold hubOfDispatch
  split
  · exact h.subscribe env 0 _
  · exact h.unsubscribe 0 _
  · exact h

theorem hubAfter_consistent (h : hub.Consistent) (s : Session) (e : SessionEvent) :
    (hubAfter cfg s hub e).Consistent := by
  unfold hubAfter
  split
  · split
    · exact h.removeClient 0
    · exact h
  split
  · exact h
  · exact hubOfDispatch_consistent h _ _ _

/-- The session has its part of the hub after an event of the client. -/
theorem part_exec (hconsistent : hub.Consistent) (h : s.dead = false → s.hub.part = hub.ownPart)
    (hown : e ≠ .hubOpened ∧ e ≠ .hubDialFailed ∧ e ≠ .hubClosed)
    (hdead : (s.exec cfg e).dead = false) :
    (s.exec cfg e).hub.part = (hubAfter cfg s hub e).ownPart := by
  have hlive : s.dead = false := by
    by_contra hlive
    rw [Bool.not_eq_false] at hlive
    simp [Session.exec, hlive] at hdead
  have hclosed : ∀ {t : Session}, t.dead = false → t.closed = false := by
    intro t ht
    simp only [Session.dead, Bool.or_eq_false_iff] at ht
    exact ht.1.1
  have hopen : s.closes cfg e = false := by
    by_contra hcloses
    rw [Bool.not_eq_false] at hcloses
    have hnext := Session.closed_of_closes hcloses
    rw [hclosed hdead] at hnext
    cases hnext
  have hafter : hubAfter cfg s hub e = match s.dispatched e with
      | none => hub
      | some (t, env, req) => hubOfDispatch cfg hub t env req := by
    simp [hubAfter, hopen]
  have hserved : ∀ {t : Session} {env : Env} {req : Req}, s.dispatched e = some (t, env, req) →
      (t.dispatch cfg env req).hub.part = (hubOfDispatch cfg hub t env req).ownPart := by
    intro t env req hsome
    obtain ⟨serving, arrived, draining, rfl⟩ := Session.dispatched_served hsome
    have hpart : ({ s with serving, arrived, draining } : Session).hub.part = hub.ownPart := h hlive
    exact Session.part_dispatch hconsistent hpart env req
  rw [hafter]
  have heffect := Session.effect_exec cfg s e
  generalize s.exec cfg e = next at heffect hdead ⊢
  cases heffect with
  | none hnone =>
    rw [hnone]
    exact h hlive
  | dispatch hsome hquits | stop hsome hquits =>
    rw [hsome]
    exact hserved hsome
  | quit hsome hquits | protocolError hnone he hdraining => cases hclosed hdead
  | other hnone he hdraining =>
    rw [hnone]
    refine Eq.trans ?_ (h hlive)
    by_cases hshared : e.isShared = true
    · cases e with
      | hubOpened => exact absurd rfl hown.1
      | hubDialFailed => exact absurd rfl hown.2.1
      | hubClosed => exact absurd rfl hown.2.2
      | maxClientsSet n => rfl
      | _ => cases hshared
    · rw [Bool.not_eq_true] at hshared
      exact congrArg Hub.part (Session.stepRel_settles.onEvent s cfg he hshared).hub

namespace LoopState

/-- What holds in every state of a run. -/
structure Inv (st : LoopState) : Prop where
  consistent : st.hub.Consistent
  /-- The session has its part of the hub. -/
  mirrors : st.session.dead = false → st.session.hub.part = st.hub.ownPart

variable {cfg : Config} {globMatch : Bytes → Bytes → Bool} {st : LoopState}

theorem exec_own (hown : e ≠ .hubOpened ∧ e ≠ .hubDialFailed ∧ e ≠ .hubClosed) :
    st.exec cfg globMatch (.own e) =
      ⟨st.session.exec cfg e, hubAfter cfg st.session st.hub e⟩ := by
  cases e with
  | hubOpened => exact absurd rfl hown.1
  | hubDialFailed => exact absurd rfl hown.2.1
  | hubClosed => exact absurd rfl hown.2.2
  | _ => rfl

theorem exec_own_shared (hown : ¬ (e ≠ .hubOpened ∧ e ≠ .hubDialFailed ∧ e ≠ .hubClosed)) :
    st.exec cfg globMatch (.own e) = st := by
  cases e with
  | hubOpened | hubDialFailed | hubClosed => rfl
  | _ => exact absurd ⟨nofun, nofun, nofun⟩ hown

/-- An event of the hub that the session sees. -/
theorem Inv.shared (h : st.Inv) (hconsistent : hub.Consistent) (hbusy : st.busy = false)
    (hpart : st.session.hub.part = st.hub.ownPart →
      (st.session.onEvent cfg e).hub.part = hub.ownPart) : (st.shared cfg e hub).Inv := by
  refine ⟨hconsistent, fun hdead => ?_⟩
  simp only [LoopState.shared] at hdead ⊢
  unfold Session.exec at hdead ⊢
  split at hdead
  · rename_i hlive
    rw [hlive] at hdead
    cases hdead
  rename_i hlive
  rw [Bool.not_eq_true] at hlive
  have hdraining : st.session.draining = [] := by
    simpa [busy, hlive] using hbusy
  rw [if_neg (by simp [hlive]), if_pos hdraining]
  exact hpart (h.mirrors hlive)

theorem not_busy_of_can {b : Bool} (hcan : ¬ (st.busy || b) = true) : st.busy = false := by
  rw [Bool.not_eq_true, Bool.or_eq_false_iff] at hcan
  exact hcan.1

theorem Inv.exec (h : st.Inv) (e : LoopEvent) : (st.exec cfg globMatch e).Inv := by
  cases e with
  | own e =>
    by_cases hown : e ≠ .hubOpened ∧ e ≠ .hubDialFailed ∧ e ≠ .hubClosed
    · rw [exec_own hown]
      exact ⟨hubAfter_consistent h.consistent st.session e, part_exec h.consistent h.mirrors hown⟩
    rw [exec_own_shared hown]
    exact h
  | request env other req =>
    simp only [LoopState.exec]
    split
    · exact h
    refine ⟨?_, fun hdead => (h.mirrors hdead).trans (st.hub.ownPart_onRequest env other req).symm⟩
    exact h.consistent.exec cfg globMatch (.request env (other + 1) req)
  | otherClosed other =>
    simp only [LoopState.exec]
    split
    · exact h
    exact ⟨h.consistent.removeClient (other + 1),
      fun hdead => (h.mirrors hdead).trans (st.hub.ownPart_removeClient other).symm⟩
  | hubOpened =>
    simp only [LoopState.exec]
    split
    · exact h
    rename_i hcan
    refine h.shared (h.consistent.of_eq rfl rfl) (not_busy_of_can hcan) fun hpart => ?_
    simp only [Hub.part, PubsubHub.ownPart, Prod.mk.injEq] at hpart
    exact congrArg (Prod.mk true) (Prod.ext hpart.2.1 hpart.2.2)
  | hubDialFailed =>
    simp only [LoopState.exec]
    split
    · exact h
    rename_i hcan
    exact h.shared (h.consistent.of_eq rfl rfl) (not_busy_of_can hcan) id
  | hubClosed =>
    simp only [LoopState.exec]
    split
    · exact h
    rename_i hcan
    refine h.shared ⟨List.nodup_nil, fun e he => nomatch he⟩ (not_busy_of_can hcan) fun _ => rfl
  | hubValue v =>
    simp only [LoopState.exec]
    split
    · exact h
    · exact ⟨h.consistent.of_eq rfl rfl, h.mirrors⟩

end LoopState

/-! ### After the end of the client -/

/-- What the hub has handed to a client. -/
def PubsubHub.handed (hub : PubsubHub) (client : ℕ) : List (ℕ × HubMsg) :=
  hub.pushed.filter fun msg => msg.1 = client

theorem PubsubHub.handed_append {next : PubsubHub} {client : ℕ} {new : List (ℕ × HubMsg)}
    (hpushed : next.pushed = hub.pushed ++ new) (hnew : ∀ msg ∈ new, msg.1 ≠ client) :
    next.handed client = hub.handed client := by
  have hnil : new.filter (fun msg => msg.1 = client) = [] := by
    rw [List.filter_eq_nil_iff]
    intro msg hmsg
    simpa using hnew msg hmsg
  rw [handed, hpushed, List.filter_append, hnil, List.append_nil]
  rfl

theorem PubsubHub.pushed_subscribe (hub : PubsubHub) (env : Env) (client : ℕ) (req : Request) :
    (hub.subscribe env client req).pushed = hub.pushed := by
  have hdial : (hub.startDial env).pushed = hub.pushed := by
    unfold startDial
    split <;> rfl
  have hlink := link_addSubs (hub.startDial env) client req
  simp only [link, Prod.mk.injEq] at hlink
  obtain ⟨-, -, -, -, hpushed⟩ := hlink
  rw [← hdial, ← hpushed]
  simp only [subscribe, forwardOrWait, forwardToBackend]
  split <;> rfl

/-- The replies to an unsubscription go to the client that sent it. -/
theorem PubsubHub.pushed_unsubscribe (hub : PubsubHub) (client : ℕ) (req : Request) :
    ∃ new, (hub.unsubscribe client req).pushed = hub.pushed ++ new ∧
      ∀ msg ∈ new, msg.1 = client := by
  have hlink := link_removeSubs hub client req.args.tail
  simp only [link, Prod.mk.injEq] at hlink
  obtain ⟨-, -, -, -, hpushed⟩ := hlink
  rw [← hpushed]
  simp only [unsubscribe, forwardOrReply, forwardToBackend]
  split
  · exact ⟨[], (List.append_nil _).symm, by simp⟩
  refine ⟨_, rfl, ?_⟩
  intro msg hmsg
  obtain ⟨ch, -, rfl⟩ := List.mem_map.mp hmsg
  rfl

/-- A client that has closed, is forgotten by the hub and was handed some messages. -/
structure Released (handed : List (ℕ × HubMsg)) (st : LoopState) : Prop where
  closed : st.session.closed = true
  consistent : st.hub.Consistent
  forgotten : Forgotten 0 st.hub
  handed : st.hub.handed 0 = handed

namespace Released

variable {cfg : Config} {globMatch : Bytes → Bytes → Bool} {handed : List (ℕ × HubMsg)}
  {st : LoopState}

/-- Events of a client that has closed do nothing. -/
theorem session_exec (h : Released handed st) (e : SessionEvent) :
    st.session.exec cfg e = st.session := by
  simp [Session.exec, Session.dead, h.closed]

theorem hubAfter_eq (h : Released handed st) (e : SessionEvent) :
    hubAfter cfg st.session st.hub e = st.hub := by
  simp [hubAfter, Session.closes, Session.dispatched, Session.dead, h.closed]

/-- Nothing that happens later refers to the client again. -/
theorem exec (h : Released handed st) (e : LoopEvent) :
    Released handed (st.exec cfg globMatch e) := by
  cases e with
  | own e =>
    by_cases hown : e ≠ .hubOpened ∧ e ≠ .hubDialFailed ∧ e ≠ .hubClosed
    · rw [LoopState.exec_own hown, h.session_exec, h.hubAfter_eq]
      exact h
    rw [LoopState.exec_own_shared hown]
    exact h
  | request env other req =>
    simp only [LoopState.exec]
    split
    · exact h
    have hother := Nat.succ_ne_zero other
    refine ⟨h.closed, h.consistent.exec cfg globMatch (.request env (other + 1) req),
      h.forgotten.onRequest h.consistent env hother req, Eq.trans ?_ h.handed⟩
    simp only [PubsubHub.onRequest]
    split
    · simp only [PubsubHub.handed, PubsubHub.pushed_subscribe]
    obtain ⟨new, hpushed, hnew⟩ := st.hub.pushed_unsubscribe (other + 1) req.request
    apply PubsubHub.handed_append hpushed
    intro msg hmsg
    rw [hnew msg hmsg]
    exact hother
  | otherClosed other =>
    simp only [LoopState.exec]
    split
    · exact h
    exact ⟨h.closed, h.consistent.removeClient (other + 1),
      h.forgotten.removeClient h.consistent (Nat.succ_ne_zero other), h.handed⟩
  | hubOpened =>
    simp only [LoopState.exec, LoopState.shared, h.session_exec]
    split
    · exact h
    exact ⟨h.closed, h.consistent.of_eq rfl rfl,
      ⟨h.forgotten.subs, h.forgotten.clientSubs, List.forall_mem_nil _⟩, h.handed⟩
  | hubDialFailed =>
    simp only [LoopState.exec, LoopState.shared, h.session_exec]
    split
    · exact h
    exact ⟨h.closed, h.consistent.of_eq rfl rfl,
      ⟨h.forgotten.subs, h.forgotten.clientSubs, h.forgotten.pending⟩, h.handed⟩
  | hubClosed =>
    simp only [LoopState.exec, LoopState.shared, h.session_exec]
    split
    · exact h
    refine ⟨h.closed, ⟨List.nodup_nil, List.forall_mem_nil _⟩,
      ⟨List.forall_mem_nil _, rfl, h.forgotten.pending⟩, ?_⟩
    refine Eq.trans (PubsubHub.handed_append rfl ?_) h.handed
    intro msg hmsg
    obtain ⟨client, hclient, rfl⟩ := List.mem_map.mp hmsg
    obtain ⟨e, he, rfl⟩ := List.mem_map.mp (List.mem_dedup.mp hclient)
    exact h.forgotten.subs e he
  | hubValue v =>
    simp only [LoopState.exec]
    split
    · exact h
    refine ⟨h.closed, h.consistent.of_eq rfl rfl,
      ⟨h.forgotten.subs, h.forgotten.clientSubs, h.forgotten.pending⟩, ?_⟩
    exact Eq.trans (PubsubHub.handed_append rfl (h.forgotten.pushes globMatch v)) h.handed

end Released

namespace LoopState

/-- The state of the loop after some events, for a new client. -/
def after (cfg : Config) (globMatch : Bytes → Bytes → Bool) (policy : GrowthPolicy)
    (events : List LoopEvent) : LoopState :=
  Runs.run (exec cfg globMatch) { session := .new cfg policy } events

theorem inv_after (cfg : Config) (globMatch : Bytes → Bytes → Bool) (policy : GrowthPolicy)
    (events : List LoopEvent) : (after cfg globMatch policy events).Inv := by
  apply Runs.run_invariant fun st e (h : st.Inv) => h.exec e
  exact ⟨⟨List.nodup_nil, nofun⟩, fun _ => rfl⟩

/-- The state in which a client can close so that the hub forgets it. -/
def Releasable (st : LoopState) : Prop :=
  (st.session.state = .subscribe ∨ st.session.hub.clientSubs = []) ∧
    ∀ pc ∈ st.hub.pendingClients, pc.1 ≠ 0

instance (st : LoopState) : Decidable st.Releasable := by
  unfold Releasable
  infer_instance

variable {cfg : Config} {globMatch : Bytes → Bytes → Bool} {st : LoopState}

/-- What the end of the client does to the hub. -/
theorem hub_of_closes (hcloses : st.session.closes cfg e = true) :
    (st.exec cfg globMatch (.own e)).hub =
      if st.session.state = .subscribe then st.hub.removeClient 0 else st.hub := by
  rw [exec_own (Session.own_of_closes hcloses)]
  simp only [hubAfter, hcloses, if_true, Session.state_onClientClose]

/-- The hub forgets the client at its end in these states only. -/
theorem forgotten_iff (hinv : st.Inv) (hcloses : st.session.closes cfg e = true) :
    Forgotten 0 (st.exec cfg globMatch (.own e)).hub ↔ st.Releasable := by
  have hlive : st.session.dead = false := by
    simp only [Session.closes, Bool.and_eq_true, Bool.not_eq_true'] at hcloses
    exact hcloses.1.1
  have hown : st.session.hub.clientSubs = st.hub.clientSubs 0 :=
    congrArg (fun part => part.2.2) (hinv.mirrors hlive)
  rw [hub_of_closes hcloses, Releasable, hown]
  split
  · rename_i hstate
    constructor
    · intro h
      exact ⟨.inl hstate, h.pending⟩
    rintro ⟨-, hpending⟩
    have hnames : Function.update st.hub.clientSubs 0 ([] : List Bytes) 0 = [] :=
      Function.update_self ..
    exact ⟨fun e he => (hinv.consistent.mem_removeAllSubs.mp he).2, hnames, hpending⟩
  · rename_i hstate
    constructor
    · intro h
      exact ⟨.inr h.clientSubs, h.pending⟩
    rintro ⟨hsubscribe | hnames, hpending⟩
    · exact absurd hsubscribe hstate
    refine ⟨fun e he hclient => ?_, hnames, hpending⟩
    have hnamed := hinv.consistent.named e he
    rw [hclient, hnames] at hnamed
    cases hnamed

/-- The events up to an open connection of the hub, for a client that subscribes to a
channel. -/
def subscribedHistory : List LoopEvent :=
  [.own (.request (.oneNode (bytes "a:1")) (SubOp.subscribe.on [bytes "news"]).request), .hubOpened]

end LoopState

end Pluster.Engine
