import Pluster.Engine.SessionRuns

/-!
# The hub of the subscriptions

`pubsubHub` of `pkg/engine/pubsub_hub.go`: all clients of an event loop share one connection
for their subscriptions. The hub keeps who subscribed to which name, forwards the requests
to the connection as they are, and hands the messages that come back to the clients.

A map of lists is the list of all entries, and the list under a name has the entries with
this name. A range over the map visits the entries in their order here; nothing depends on
it. The hub never keeps an empty set of names, so that a client without names has no entry
in `clientSubs`.
-/

namespace Pluster.Engine

open Proto GoStrings GoRuntime

variable {client other : ℕ} {env : Env} {req : Request} {pattern : Bytes}

/-- `subEntry`. The clients have numbers. -/
structure SubEntry where
  client : ℕ
  pattern : Bytes
  isGlob : Bool
  deriving DecidableEq

/-- What `writeHubMsgToClient` gets, before it is encoded. -/
inductive HubMsg
  /-- A value as it was read. -/
  | forward (v : Value)
  | pmessage (pattern channel payload : Bytes)
  /-- The reply to an unsubscription without a connection. -/
  | unsubscribed (subType channel : Bytes) (count : ℕ)
  | error (msg : Bytes)

/-- `pubsubHub`. -/
structure PubsubHub where
  /-- `backendConn` is not nil. -/
  connected : Bool := false
  dialing : Bool := false
  pendingClients : List (ℕ × Request) := []
  subs : List SubEntry := []
  clientSubs : ℕ → List Bytes := fun _ => []
  /-- The commands written to the shared connection. -/
  wire : List (List Bytes) := []
  /-- The messages handed to the clients. -/
  pushed : List (ℕ × HubMsg) := []

variable {step : PubsubHub → Bytes → PubsubHub} {hub : PubsubHub} {e : SubEntry}
  {subs : List SubEntry}

/-- The arguments of AUTH with the credentials for the backends. -/
def authArgs (cfg : Config) : List Bytes :=
  if cfg.username ≠ [] then [bytes "AUTH", cfg.username, cfg.password]
  else [bytes "AUTH", cfg.password]

/-- The entry is under a name and belongs to a client. -/
def SubEntry.isFor (client : ℕ) (pattern : Bytes) (e : SubEntry) : Bool :=
  e.pattern = pattern && e.client = client

namespace PubsubHub

/-- `forwardToBackend`. -/
def forwardToBackend (hub : PubsubHub) (req : Request) : PubsubHub :=
  if hub.connected then { hub with wire := hub.wire ++ [req.args] } else hub

/-- `dialSharedBackend`. -/
def dialSharedBackend (hub : PubsubHub) (env : Env) : PubsubHub :=
  { hub with dialing := match env.masters with
      | [] => false
      | master :: _ => (Session.dialError master.1 (env.dial master.1)).isNone }

/-- `addSub`. -/
def addSub (client : ℕ) (isGlob : Bool) (hub : PubsubHub) (pattern : Bytes) : PubsubHub :=
  if hub.subs.any (SubEntry.isFor client pattern) then hub
  else
    let names := hub.clientSubs client
    let added := if pattern ∈ names then names else names ++ [pattern]
    { hub with
      subs := hub.subs ++ [⟨client, pattern, isGlob⟩]
      clientSubs := Function.update hub.clientSubs client added }

/-- `removeSub`. -/
def removeSub (client : ℕ) (hub : PubsubHub) (pattern : Bytes) : PubsubHub :=
  let left := (hub.clientSubs client).filter fun p => p ≠ pattern
  { hub with
    subs := hub.subs.eraseP (SubEntry.isFor client pattern)
    clientSubs := Function.update hub.clientSubs client left }

/-- `removeAllSubs`, which leaves the names of the client. -/
def removeAllSubs (hub : PubsubHub) (client : ℕ) : PubsubHub :=
  let names := hub.clientSubs client
  { hub with subs := names.foldl (fun subs p => subs.eraseP (SubEntry.isFor client p)) hub.subs }

/-- The dial at the beginning of `subscribe`. -/
def startDial (hub : PubsubHub) (env : Env) : PubsubHub :=
  if !hub.connected && !hub.dialing then hub.dialSharedBackend env else hub

/-- The loop of `subscribe` over the names. -/
def addSubs (hub : PubsubHub) (client : ℕ) (req : Request) : PubsubHub :=
  req.args.tail.foldl (addSub client (req.cmd = bytes "PSUBSCRIBE")) hub

/-- The end of `subscribe`: without a connection the request waits for one. -/
def forwardOrWait (hub : PubsubHub) (client : ℕ) (req : Request) : PubsubHub :=
  if hub.connected then hub.forwardToBackend req
  else { hub with pendingClients := hub.pendingClients ++ [(client, req)] }

/-- `subscribe`. -/
def subscribe (hub : PubsubHub) (env : Env) (client : ℕ) (req : Request) : PubsubHub :=
  ((hub.startDial env).addSubs client req).forwardOrWait client req

/-- The beginning of `unsubscribe`. -/
def removeSubs (hub : PubsubHub) (client : ℕ) (names : List Bytes) : PubsubHub :=
  if names = [] then hub.removeAllSubs client else names.foldl (removeSub client) hub

/-- The end of `unsubscribe`: without a connection the hub replies. -/
def forwardOrReply (hub : PubsubHub) (client : ℕ) (req : Request) : PubsubHub :=
  if hub.connected then hub.forwardToBackend req
  else
    let subType :=
      if req.cmd = bytes "PUNSUBSCRIBE" then bytes "punsubscribe" else bytes "unsubscribe"
    let count := (hub.clientSubs client).length
    let replies := req.args.tail.map fun ch => (client, .unsubscribed subType ch count)
    { hub with pushed := hub.pushed ++ replies }

/-- `unsubscribe`. -/
def unsubscribe (hub : PubsubHub) (client : ℕ) (req : Request) : PubsubHub :=
  (hub.removeSubs client req.args.tail).forwardOrReply client req

/-- `removeClient`. -/
def removeClient (hub : PubsubHub) (client : ℕ) : PubsubHub :=
  let hub := hub.removeAllSubs client
  { hub with clientSubs := Function.update hub.clientSubs client [] }

/-- `onSharedBackendOpen`. -/
def onSharedBackendOpen (hub : PubsubHub) (cfg : Config) : PubsubHub :=
  { hub with
    dialing := false
    connected := true
    wire := (if cfg.password ≠ [] then [authArgs cfg] else []) ++
      [bytes "PSUBSCRIBE", bytes "*"] :: hub.pendingClients.map fun pc => pc.2.args
    pendingClients := [] }

/-- `onSharedBackendClose`. -/
def onSharedBackendClose (hub : PubsubHub) : PubsubHub :=
  { hub with
    connected := false
    dialing := false
    subs := []
    clientSubs := fun _ => []
    wire := []
    pushed := hub.pushed ++ (hub.subs.map SubEntry.client).dedup.map fun client =>
      (client, .error (bytes "ERR pubsub backend connection lost; please re-subscribe")) }

/-! ### Messages -/

section Messages

-- `globMatch`, which is `filepath.Match` of a pattern and a name.
variable (globMatch : Bytes → Bytes → Bool)

/-- What the subscribers of a channel get. -/
def channelPushes (hub : PubsubHub) (channel : Bytes) (v : Value) : List (ℕ × HubMsg) :=
  (hub.subs.filter fun e => e.pattern = channel && !e.isGlob).map fun e => (e.client, .forward v)

/-- What the subscribers of patterns that match a channel get. -/
def patternPushes (hub : PubsubHub) (channel payload : Bytes) : List (ℕ × HubMsg) :=
  (hub.subs.filter fun e => e.isGlob && globMatch e.pattern channel).map fun e =>
    (e.client, .pmessage e.pattern channel payload)

/-- The messages that `dispatchMessage` hands on. -/
def pushes (hub : PubsubHub) (v : Value) : List (ℕ × HubMsg) :=
  match v with
  | .array (typ :: second :: third :: rest) =>
    let msgType := toLower typ.str
    if msgType = bytes "psubscribe" ∨ msgType = bytes "punsubscribe" then []
    else if msgType = bytes "subscribe" ∨ msgType = bytes "unsubscribe" then
      hub.channelPushes second.str v
    else if msgType = bytes "message" then
      hub.channelPushes second.str v ++ hub.patternPushes globMatch second.str third.str
    else if msgType = bytes "pmessage" then
      match rest with
      | [] => []
      | payload :: _ => hub.patternPushes globMatch third.str payload.str
    else []
  | _ => []

/-- `dispatchMessage`. -/
def dispatchMessage (hub : PubsubHub) (v : Value) : PubsubHub :=
  { hub with pushed := hub.pushed ++ hub.pushes globMatch v }

end Messages

end PubsubHub

/-! ### Runs -/

/-- The commands of the hub. -/
inductive SubOp
  | subscribe
  | psubscribe
  | unsubscribe
  | punsubscribe
  deriving DecidableEq

namespace SubOp

/-- The name of the command. -/
def name : SubOp → Bytes
  | .subscribe => bytes "SUBSCRIBE"
  | .psubscribe => bytes "PSUBSCRIBE"
  | .unsubscribe => bytes "UNSUBSCRIBE"
  | .punsubscribe => bytes "PUNSUBSCRIBE"

/-- The command is about patterns. -/
def isGlob : SubOp → Bool
  | .subscribe | .unsubscribe => false
  | .psubscribe | .punsubscribe => true

/-- The command adds subscriptions. -/
def adds : SubOp → Bool
  | .subscribe | .psubscribe => true
  | .unsubscribe | .punsubscribe => false

end SubOp

/-- A request for the hub. The client may write the name of the command in any case. -/
structure SubRequest where
  op : SubOp
  written : Bytes
  names : List Bytes
  upper : toUpper written = op.name

/-- The request as it was parsed. -/
def SubRequest.request (req : SubRequest) : Request where
  args := req.written :: req.names
  cmd := req.op.name

/-- A request with the name of the command in capitals. -/
def SubOp.on (op : SubOp) (names : List Bytes) : SubRequest where
  op := op
  written := op.name
  names := names
  upper := by cases op <;> decide

/-- What the clients and gnet can do to the hub. -/
inductive HubEvent
  | request (env : Env) (client : ℕ) (req : SubRequest)
  /-- A client in the subscription state closes. -/
  | removeClient (client : ℕ)
  | opened
  | dialFailed
  | closed
  | value (v : Value)

namespace PubsubHub

/-- A request of a client. -/
def onRequest (hub : PubsubHub) (env : Env) (client : ℕ) (req : SubRequest) : PubsubHub :=
  if req.op.adds then hub.subscribe env client req.request else hub.unsubscribe client req.request

/-- Execute one event. An event that cannot occur leaves the hub as it is: a dial is under
way exactly if `dialing` is set. -/
def exec (cfg : Config) (globMatch : Bytes → Bytes → Bool) (hub : PubsubHub) : HubEvent → PubsubHub
  | .request env client req => hub.onRequest env client req
  | .removeClient client => hub.removeClient client
  | .opened => if hub.dialing then hub.onSharedBackendOpen cfg else hub
  | .dialFailed => if hub.dialing then { hub with dialing := false } else hub
  | .closed => if hub.connected then hub.onSharedBackendClose else hub
  | .value v => if hub.connected then hub.dispatchMessage globMatch v else hub

/-! ### What the operations do to the connection -/

section Forward

variable (hub : PubsubHub) (client : ℕ) (req : Request)

@[simp] theorem forwardOrWait_subs : (hub.forwardOrWait client req).subs = hub.subs := by
  simp only [forwardOrWait, forwardToBackend]
  split <;> rfl

@[simp] theorem forwardOrWait_clientSubs :
    (hub.forwardOrWait client req).clientSubs = hub.clientSubs := by
  simp only [forwardOrWait, forwardToBackend]
  split <;> rfl

@[simp] theorem forwardOrReply_subs : (hub.forwardOrReply client req).subs = hub.subs := by
  simp only [forwardOrReply, forwardToBackend]
  split <;> rfl

@[simp] theorem forwardOrReply_clientSubs :
    (hub.forwardOrReply client req).clientSubs = hub.clientSubs := by
  simp only [forwardOrReply, forwardToBackend]
  split <;> rfl

end Forward

/-- What each step of a loop over names keeps is kept by the loop. -/
theorem foldl_keeps {α : Type} (f : PubsubHub → α) (hstep : ∀ hub p, f (step hub p) = f hub)
    (names : List Bytes) (hub : PubsubHub) : f (names.foldl step hub) = f hub := by
  induction names generalizing hub with
  | nil => rfl
  | cons p names ih => rw [List.foldl_cons, ih, hstep]

/-- The fields other than the entries. -/
def link (hub : PubsubHub) : Bool × Bool × List (ℕ × Request) × List (List Bytes) ×
    List (ℕ × HubMsg) :=
  (hub.connected, hub.dialing, hub.pendingClients, hub.wire, hub.pushed)

theorem link_addSubs (hub : PubsubHub) (client : ℕ) (req : Request) :
    (hub.addSubs client req).link = hub.link := by
  apply foldl_keeps link
  intro hub p
  unfold addSub
  split <;> rfl

theorem link_removeSubs (hub : PubsubHub) (client : ℕ) (names : List Bytes) :
    (hub.removeSubs client names).link = hub.link := by
  unfold removeSubs
  split
  · rfl
  apply foldl_keeps link
  intro hub p
  rfl

/-- Requests of a client keep the names of the others. -/
theorem clientSubs_addSubs (hother : other ≠ client) (hub : PubsubHub) (req : Request) :
    (hub.addSubs other req).clientSubs client = hub.clientSubs client := by
  apply foldl_keeps fun hub => hub.clientSubs client
  intro hub p
  unfold addSub
  split
  · rfl
  · exact Function.update_of_ne (Ne.symm hother) _ _

theorem clientSubs_removeSubs (hother : other ≠ client) (hub : PubsubHub) (names : List Bytes) :
    (hub.removeSubs other names).clientSubs client = hub.clientSubs client := by
  unfold removeSubs
  split
  · rfl
  apply foldl_keeps fun hub => hub.clientSubs client
  intro hub p
  exact Function.update_of_ne (Ne.symm hother) _ _

theorem clientSubs_startDial (hub : PubsubHub) (env : Env) :
    (hub.startDial env).clientSubs = hub.clientSubs := by
  unfold startDial
  split <;> rfl

theorem link_startDial (hub : PubsubHub) (env : Env) :
    (hub.startDial env).connected = hub.connected ∧
      (hub.startDial env).pendingClients = hub.pendingClients ∧
      (hub.startDial env).wire = hub.wire := by
  unfold startDial
  split <;> exact ⟨rfl, rfl, rfl⟩

/-- A request that subscribes waits for the connection, if there is none. -/
theorem mem_pendingClients_subscribe {pc : ℕ × Request}
    (h : pc ∈ (hub.subscribe env client req).pendingClients) :
    pc ∈ hub.pendingClients ∨ pc = (client, req) := by
  have hlink := link_addSubs (hub.startDial env) client req
  simp only [link, Prod.mk.injEq] at hlink
  obtain ⟨-, -, hpending, -, -⟩ := hlink
  rw [← (hub.link_startDial env).2.1, ← hpending]
  simp only [subscribe, forwardOrWait, forwardToBackend] at h
  split at h
  · exact .inl h
  · simpa using h

theorem pendingClients_unsubscribe (hub : PubsubHub) (client : ℕ) (req : Request) :
    (hub.unsubscribe client req).pendingClients = hub.pendingClients := by
  have hlink := link_removeSubs hub client req.args.tail
  simp only [link, Prod.mk.injEq] at hlink
  obtain ⟨-, -, hpending, -, -⟩ := hlink
  rw [← hpending]
  simp only [unsubscribe, forwardOrReply, forwardToBackend]
  split <;> rfl

/-- A connected hub forwards an unsubscription as it is. -/
theorem wire_unsubscribe (hconnected : hub.connected = true) (client : ℕ) (req : Request) :
    (hub.unsubscribe client req).wire = hub.wire ++ [req.args] := by
  have hlink := link_removeSubs hub client req.args.tail
  simp only [link, Prod.mk.injEq] at hlink
  obtain ⟨hconn, -, -, hwire, -⟩ := hlink
  rw [hconnected] at hconn
  simp only [unsubscribe, forwardOrReply, forwardToBackend, hconn, if_true, hwire]

/-! ### What the operations do to the entries -/

/-- The name and the client of an entry. -/
def key (e : SubEntry) : Bytes × ℕ := (e.pattern, e.client)

/-- A client has at most one entry under a name, and the hub knows the names of the
entries of a client. -/
structure Consistent (hub : PubsubHub) : Prop where
  nodup : (hub.subs.map key).Nodup
  named : ∀ e ∈ hub.subs, e.pattern ∈ hub.clientSubs e.client

theorem isFor_iff : e.isFor client pattern = true ↔ key e = (pattern, client) := by
  simp [SubEntry.isFor, key]

/-- The only entry under a name is removed. -/
theorem eraseP_eq_filter (h : (subs.map key).Nodup) (client : ℕ) (pattern : Bytes) :
    subs.eraseP (SubEntry.isFor client pattern) =
      subs.filter fun e => !e.isFor client pattern := by
  induction subs with
  | nil => rfl
  | cons e subs ih =>
    rw [List.map_cons, List.nodup_cons] at h
    cases hfor : e.isFor client pattern with
    | false => rw [List.eraseP_cons_of_neg (by simp [hfor]), ih h.2, List.filter_cons, hfor]; rfl
    | true =>
      have hrest : subs.filter (fun e => !e.isFor client pattern) = subs := by
        apply List.filter_eq_self.mpr
        intro e' he'
        rw [Bool.not_eq_true', Bool.eq_false_iff, ne_eq, isFor_iff]
        intro hkey
        apply h.1
        rw [isFor_iff.mp hfor, ← hkey]
        exact List.mem_map_of_mem he'
      rw [List.eraseP_cons_of_pos hfor, List.filter_cons, hfor, hrest]
      rfl

theorem nodup_filter (h : (subs.map key).Nodup) (p : SubEntry → Bool) :
    ((subs.filter p).map key).Nodup := (List.filter_sublist.map key).nodup h

/-- The entries that `removeAllSubs` leaves. -/
theorem foldl_eraseP_eq_filter (client : ℕ) (names : List Bytes) (h : (subs.map key).Nodup) :
    names.foldl (fun subs p => subs.eraseP (SubEntry.isFor client p)) subs =
      subs.filter fun e => !(e.client = client && e.pattern ∈ names) := by
  induction names generalizing subs with
  | nil => simp
  | cons p names ih =>
    rw [List.foldl_cons, eraseP_eq_filter h, ih (nodup_filter h _), List.filter_filter]
    apply List.filter_congr
    intro e _
    simp only [SubEntry.isFor, List.mem_cons]
    grind

namespace Consistent

variable {hub : PubsubHub}

/-- A change that keeps the entries. -/
theorem of_eq {next : PubsubHub} (h : hub.Consistent) (hsubs : next.subs = hub.subs)
    (hclient : next.clientSubs = hub.clientSubs) : next.Consistent where
  nodup := by rw [hsubs]; exact h.nodup
  named := by rw [hsubs, hclient]; exact h.named

theorem addSub (h : hub.Consistent) (client : ℕ) (isGlob : Bool) (pattern : Bytes) :
    (hub.addSub client isGlob pattern).Consistent := by
  unfold PubsubHub.addSub
  split
  · exact h
  rename_i hnone
  have hnew : (pattern, client) ∉ hub.subs.map key := by
    intro hmem
    obtain ⟨e, he, hkey⟩ := List.mem_map.mp hmem
    exact hnone (List.any_eq_true.mpr ⟨e, he, isFor_iff.mpr hkey⟩)
  constructor
  · rw [List.map_append, List.map_singleton]
    exact List.Nodup.append h.nodup (List.nodup_singleton _) (by simpa [key] using hnew)
  intro e he
  rcases List.mem_append.mp he with he | he
  · have hnamed := h.named e he
    dsimp only
    by_cases hclient : e.client = client
    · rw [hclient] at hnamed
      rw [hclient, Function.update_self]
      split
      · exact hnamed
      · exact List.mem_append_left _ hnamed
    · rw [Function.update_of_ne hclient]
      exact hnamed
  · cases List.mem_singleton.mp he
    dsimp only
    rw [Function.update_self]
    split
    · assumption
    · exact List.mem_append_right _ (List.mem_singleton_self _)

theorem removeSub (h : hub.Consistent) (client : ℕ) (pattern : Bytes) :
    (hub.removeSub client pattern).Consistent := by
  unfold PubsubHub.removeSub
  constructor
  · rw [eraseP_eq_filter h.nodup]
    exact nodup_filter h.nodup _
  intro e he
  rw [eraseP_eq_filter h.nodup, List.mem_filter] at he
  have hnamed := h.named e he.1
  dsimp only
  by_cases hclient : e.client = client
  · rw [hclient] at hnamed
    rw [hclient, Function.update_self, List.mem_filter]
    refine ⟨hnamed, ?_⟩
    have hfor := he.2
    simp only [SubEntry.isFor, hclient, decide_true, Bool.and_true, Bool.not_eq_true'] at hfor
    simpa using hfor
  · rw [Function.update_of_ne hclient]
    exact hnamed

theorem removeAllSubs (h : hub.Consistent) (client : ℕ) :
    (hub.removeAllSubs client).Consistent := by
  have hsubs := foldl_eraseP_eq_filter client (hub.clientSubs client) h.nodup
  constructor
  · rw [PubsubHub.removeAllSubs, hsubs]
    exact nodup_filter h.nodup _
  intro e he
  rw [PubsubHub.removeAllSubs, hsubs] at he
  exact h.named e (List.mem_of_mem_filter he)

theorem foldl (hstep : ∀ hub p, hub.Consistent → (step hub p).Consistent) (h : hub.Consistent)
    (names : List Bytes) : (names.foldl step hub).Consistent := by
  induction names generalizing hub with
  | nil => exact h
  | cons p names ih => exact ih (hstep hub p h)

theorem subscribe (h : hub.Consistent) (env : Env) (client : ℕ) (req : Request) :
    (hub.subscribe env client req).Consistent := by
  have hdial : (hub.startDial env).Consistent := by
    unfold startDial
    split
    · exact h.of_eq rfl rfl
    · exact h
  have hadded : ((hub.startDial env).addSubs client req).Consistent :=
    foldl (fun hub p h => h.addSub client _ p) hdial _
  exact hadded.of_eq (forwardOrWait_subs _ _ _) (forwardOrWait_clientSubs _ _ _)

theorem removeSubs (h : hub.Consistent) (client : ℕ) (names : List Bytes) :
    (hub.removeSubs client names).Consistent := by
  unfold PubsubHub.removeSubs
  split
  · exact h.removeAllSubs client
  · exact foldl (fun hub p h => h.removeSub client p) h _

theorem unsubscribe (h : hub.Consistent) (client : ℕ) (req : Request) :
    (hub.unsubscribe client req).Consistent := by
  have hremoved := h.removeSubs client req.args.tail
  exact hremoved.of_eq (forwardOrReply_subs _ _ _) (forwardOrReply_clientSubs _ _ _)

/-- The entries of the other clients are left. -/
theorem mem_removeAllSubs (h : hub.Consistent) :
    e ∈ (hub.removeAllSubs client).subs ↔ e ∈ hub.subs ∧ e.client ≠ client := by
  rw [PubsubHub.removeAllSubs, foldl_eraseP_eq_filter client _ h.nodup, List.mem_filter]
  apply and_congr_right
  intro he
  have hnamed := h.named e he
  by_cases hclient : e.client = client
  · rw [hclient] at hnamed
    simp [hclient, hnamed]
  · simp [hclient]

theorem removeClient (h : hub.Consistent) (client : ℕ) : (hub.removeClient client).Consistent where
  nodup := (h.removeAllSubs client).nodup
  named e he := by
    have hother := (h.mem_removeAllSubs.mp he).2
    have hnamed := (h.removeAllSubs client).named e he
    simpa only [PubsubHub.removeClient, Function.update_of_ne hother] using hnamed

theorem exec (cfg : Config) (globMatch : Bytes → Bytes → Bool) (h : hub.Consistent) (e : HubEvent) :
    (hub.exec cfg globMatch e).Consistent := by
  cases e with
  | request env client req =>
    simp only [PubsubHub.exec, onRequest]
    split
    · exact h.subscribe env client _
    · exact h.unsubscribe client _
  | removeClient client => exact h.removeClient client
  | opened | dialFailed | value v =>
    simp only [PubsubHub.exec]
    split
    · exact h.of_eq rfl rfl
    · exact h
  | closed =>
    simp only [PubsubHub.exec]
    split
    · exact ⟨List.nodup_nil, fun e he => nomatch he⟩
    · exact h

end Consistent

/-! ### Which entries the requests leave -/

theorem mem_addSub {isGlob : Bool} (he : e ∈ (hub.addSub client isGlob pattern).subs) :
    e ∈ hub.subs ∨ e = ⟨client, pattern, isGlob⟩ := by
  unfold addSub at he
  split at he
  · exact .inl he
  · simpa using he

/-- `subscribe` adds entries of the client only. -/
theorem mem_subscribe (he : e ∈ (hub.subscribe env client req).subs) :
    e ∈ hub.subs ∨ ∃ p ∈ req.args.tail, e = ⟨client, p, req.cmd = bytes "PSUBSCRIBE"⟩ := by
  have hdial : (hub.startDial env).subs = hub.subs := by
    unfold startDial
    split <;> rfl
  rw [subscribe, forwardOrWait_subs, addSubs] at he
  rw [← hdial]
  generalize hub.startDial env = start at he ⊢
  generalize req.args.tail = names at he ⊢
  induction names generalizing start with
  | nil => exact .inl he
  | cons p names ih =>
    rcases ih _ he with hmem | ⟨p', hp', rfl⟩
    · rcases mem_addSub hmem with hmem | rfl
      · exact .inl hmem
      · exact .inr ⟨p, List.mem_cons_self .., rfl⟩
    · exact .inr ⟨p', List.mem_cons_of_mem _ hp', rfl⟩

theorem mem_removeSub (h : hub.Consistent) : e ∈ (hub.removeSub client pattern).subs ↔
      e ∈ hub.subs ∧ (e.client = client → e.pattern ≠ pattern) := by
  rw [removeSub, eraseP_eq_filter h.nodup, List.mem_filter]
  simp only [SubEntry.isFor]
  grind

/-- `unsubscribe` removes the entries of the client under the names, or all its entries. -/
theorem mem_unsubscribe (h : hub.Consistent) : e ∈ (hub.unsubscribe client req).subs ↔
      e ∈ hub.subs ∧ (e.client = client → req.args.tail ≠ [] ∧ e.pattern ∉ req.args.tail) := by
  rw [unsubscribe, forwardOrReply_subs, removeSubs]
  split
  · rename_i hnil
    rw [h.mem_removeAllSubs]
    simp [hnil]
  rename_i hne
  simp only [hne, not_false_eq_true, true_and, ne_eq]
  clear hne
  induction req.args.tail generalizing hub with
  | nil => simp
  | cons p names ih =>
    rw [List.foldl_cons, ih (h.removeSub client p), mem_removeSub h]
    simp only [List.mem_cons]
    grind

end PubsubHub

end Pluster.Engine
