import Pluster.Engine.PubsubHub

/-!
# Publications

What the clients of a hub receive for one publication. Redis sends one message to a
connection that is subscribed to the channel and one more for each pattern of the connection
that matches it. The hub subscribes its connection to all channels and forwards the
subscriptions of its clients as well, and it serves the pattern subscribers of a channel for
each of the messages.
-/

namespace Pluster.Engine

open Proto GoStrings GoRuntime

variable {l names : List Bytes} {p : Bytes} {hub : PubsubHub} {req : SubRequest}

/-! ### The subscriptions of the connection -/

/-- Names are added to a set of subscriptions. -/
def addNames (subscribed names : List Bytes) : List Bytes :=
  names.foldl (fun l name => if name ∈ l then l else l ++ [name]) subscribed

/-- Names are removed from a set of subscriptions; without names all of them are. -/
def removeNames (subscribed names : List Bytes) : List Bytes :=
  if names = [] then [] else subscribed.filter fun name => name ∉ names

/-- The subscriptions of a connection to Redis. -/
structure Subscribed where
  channels : List Bytes := []
  patterns : List Bytes := []

/-- What Redis does with a command. -/
def Subscribed.command (r : Subscribed) : List Bytes → Subscribed
  | [] => r
  | name :: names =>
    if toUpper name = bytes "SUBSCRIBE" then { r with channels := addNames r.channels names }
    else if toUpper name = bytes "PSUBSCRIBE" then { r with patterns := addNames r.patterns names }
    else if toUpper name = bytes "UNSUBSCRIBE" then
      { r with channels := removeNames r.channels names }
    else if toUpper name = bytes "PUNSUBSCRIBE" then
      { r with patterns := removeNames r.patterns names }
    else r

/-- The subscriptions of the shared connection. -/
def PubsubHub.subscribed (hub : PubsubHub) : Subscribed := hub.wire.foldl Subscribed.command {}

/-- The message for a subscriber of a channel. -/
def messageFrame (channel payload : Bytes) : Value :=
  .array [.bulkString (bytes "message"), .bulkString channel, .bulkString payload]

/-- The message for a subscriber of a pattern. -/
def pmessageFrame (pattern channel payload : Bytes) : Value :=
  .array [.bulkString (bytes "pmessage"), .bulkString pattern, .bulkString channel,
    .bulkString payload]

section Publication

-- How Redis matches a pattern with a channel, and how `filepath.Match` does.
variable (redisMatch globMatch : Bytes → Bytes → Bool)

/-- The patterns of the connection that match a channel. -/
def Subscribed.matching (r : Subscribed) (channel : Bytes) : List Bytes :=
  r.patterns.filter fun p => redisMatch p channel

/-- What a connection receives for a publication. -/
def Subscribed.frames (r : Subscribed) (channel payload : Bytes) : List Value :=
  (if channel ∈ r.channels then [messageFrame channel payload] else []) ++
    (r.matching redisMatch channel).map fun p => pmessageFrame p channel payload

/-- The messages that the clients of a hub get for a publication. -/
def PubsubHub.published (hub : PubsubHub) (channel payload : Bytes) : List (ℕ × HubMsg) :=
  (hub.subscribed.frames redisMatch channel payload).flatMap (hub.pushes globMatch)

/-- The message is the one on a channel for its subscribers. -/
def HubMsg.isMessage (channel payload : Bytes) : HubMsg → Bool
  | .forward (.array [.bulkString typ, .bulkString channel', .bulkString payload']) =>
    typ = bytes "message" && channel' = channel && payload' = payload
  | _ => false

/-- The message is the one for the subscribers of a pattern. -/
def HubMsg.isPMessage (pattern channel payload : Bytes) : HubMsg → Bool
  | .pmessage pattern' channel' payload' =>
    pattern' = pattern && channel' = channel && payload' = payload
  | _ => false

/-- How many messages of a kind a client gets. -/
def copies (msgs : List (ℕ × HubMsg)) (client : ℕ) (kind : HubMsg → Bool) : ℕ :=
  msgs.countP fun msg => msg.1 = client && kind msg.2

/-! ### Counting the messages -/

theorem copies_append (msgs later : List (ℕ × HubMsg)) (client : ℕ) (kind : HubMsg → Bool) :
    copies (msgs ++ later) client kind = copies msgs client kind + copies later client kind :=
  List.countP_append

variable {hub : PubsubHub}

/-- A client has at most one entry under a name. -/
theorem countP_entry (h : hub.Consistent) (e : SubEntry) :
    hub.subs.countP (fun e' => e' = e) = if e ∈ hub.subs then 1 else 0 := by
  have hnodup : hub.subs.Nodup := List.Nodup.of_map _ h.nodup
  rw [← List.Nodup.count hnodup, List.count]
  apply List.countP_congr
  simp

theorem copies_channelPushes (h : hub.Consistent) (channel payload : Bytes) (client : ℕ) :
    copies (hub.channelPushes channel (messageFrame channel payload)) client
        (HubMsg.isMessage channel payload) =
      if ⟨client, channel, false⟩ ∈ hub.subs then 1 else 0 := by
  rw [← countP_entry h, copies, PubsubHub.channelPushes, List.countP_map, List.countP_filter]
  apply List.countP_congr
  rintro ⟨client', pattern, isGlob⟩ -
  simp [HubMsg.isMessage, messageFrame]

theorem copies_patternPushes (h : hub.Consistent) (pattern channel payload : Bytes) (client : ℕ) :
    copies (hub.patternPushes globMatch channel payload) client
        (HubMsg.isPMessage pattern channel payload) =
      if ⟨client, pattern, true⟩ ∈ hub.subs ∧ globMatch pattern channel = true then 1 else 0 := by
  rw [copies, PubsubHub.patternPushes, List.countP_map, List.countP_filter]
  by_cases hmatch : globMatch pattern channel = true
  · simp only [hmatch, and_true]
    rw [← countP_entry h]
    apply List.countP_congr
    rintro ⟨client', pattern', isGlob⟩ -
    simp only [HubMsg.isPMessage, Function.comp]
    grind
  · rw [if_neg fun hboth => hmatch hboth.2, List.countP_eq_zero]
    rintro ⟨client', pattern', isGlob⟩ -
    simp only [HubMsg.isPMessage, Function.comp]
    grind

/-- The subscribers of a channel get no messages of the other kind, and conversely. -/
theorem copies_channelPushes_pmessage (v : Value) (pattern channel payload : Bytes) (client : ℕ) :
    copies (hub.channelPushes channel v) client (HubMsg.isPMessage pattern channel payload) = 0 := by
  rw [copies, PubsubHub.channelPushes, List.countP_map, List.countP_eq_zero]
  simp [HubMsg.isPMessage]

theorem copies_patternPushes_message (channel payload : Bytes) (client : ℕ) :
    copies (hub.patternPushes globMatch channel payload) client
      (HubMsg.isMessage channel payload) = 0 := by
  rw [copies, PubsubHub.patternPushes, List.countP_map, List.countP_eq_zero]
  simp [HubMsg.isMessage]

theorem pushes_messageFrame (channel payload : Bytes) :
    hub.pushes globMatch (messageFrame channel payload) =
      hub.channelPushes channel (messageFrame channel payload) ++
        hub.patternPushes globMatch channel payload := by
  have hlower : toLower (bytes "message") = bytes "message" := by decide
  simp only [messageFrame, PubsubHub.pushes, Value.str, hlower]
  rfl

theorem pushes_pmessageFrame (pattern channel payload : Bytes) :
    hub.pushes globMatch (pmessageFrame pattern channel payload) =
      hub.patternPushes globMatch channel payload := by
  have hlower : toLower (bytes "pmessage") = bytes "pmessage" := by decide
  simp only [pmessageFrame, PubsubHub.pushes, Value.str, hlower]
  rfl

/-- How many messages the connection receives for a publication on a channel. -/
def Subscribed.frameCount (r : Subscribed) (channel : Bytes) : ℕ :=
  (if channel ∈ r.channels then 1 else 0) + (r.matching redisMatch channel).length

theorem copies_flatMap_patternPushes (patterns : List Bytes) (channel payload : Bytes) (client : ℕ)
    (kind : HubMsg → Bool) :
    copies ((patterns.map fun p => pmessageFrame p channel payload).flatMap (hub.pushes globMatch))
        client kind =
      patterns.length * copies (hub.patternPushes globMatch channel payload) client kind := by
  induction patterns with
  | nil => simp [copies]
  | cons p patterns ih =>
    rw [List.map_cons, List.flatMap_cons, copies_append, pushes_pmessageFrame, ih,
      List.length_cons, Nat.add_mul, Nat.one_mul, Nat.add_comm]

/-- A subscriber of the channel gets one message if the connection is subscribed to it. -/
theorem copies_message (h : hub.Consistent) (channel payload : Bytes) (client : ℕ) :
    copies (hub.published redisMatch globMatch channel payload) client
        (HubMsg.isMessage channel payload) =
      if ⟨client, channel, false⟩ ∈ hub.subs ∧ channel ∈ hub.subscribed.channels then 1 else 0 := by
  rw [PubsubHub.published, Subscribed.frames, List.flatMap_append, copies_append,
    copies_flatMap_patternPushes, copies_patternPushes_message, Nat.mul_zero, Nat.add_zero]
  by_cases hchannel : channel ∈ hub.subscribed.channels
  · simp only [hchannel, if_true, and_true, List.flatMap_singleton]
    rw [pushes_messageFrame, copies_append, copies_channelPushes h, copies_patternPushes_message,
      Nat.add_zero]
  · simp [hchannel, copies]

/-- A subscriber of a pattern gets as many messages as the connection. -/
theorem copies_pmessage (h : hub.Consistent) (pattern channel payload : Bytes) (client : ℕ) :
    copies (hub.published redisMatch globMatch channel payload) client
        (HubMsg.isPMessage pattern channel payload) =
      if ⟨client, pattern, true⟩ ∈ hub.subs ∧ globMatch pattern channel = true then
        hub.subscribed.frameCount redisMatch channel
      else 0 := by
  rw [PubsubHub.published, Subscribed.frames, List.flatMap_append, copies_append,
    copies_flatMap_patternPushes, copies_patternPushes globMatch h, Subscribed.frameCount]
  by_cases hchannel : channel ∈ hub.subscribed.channels
  · simp only [hchannel, if_true, List.flatMap_singleton]
    rw [pushes_messageFrame, copies_append, copies_channelPushes_pmessage,
      copies_patternPushes globMatch h]
    split <;> simp
  · simp only [hchannel, if_false, List.flatMap_nil]
    split <;> simp [copies]

end Publication

/-! ### What the clients subscribed to -/

/-- The names of the channels and of the patterns that each client is subscribed to. -/
abbrev Wanted := ℕ → Bool → List Bytes

variable {wanted : Wanted}

/-- The subscriptions after an event, as the clients see them. When the connection is lost
the hub tells the clients to subscribe again. -/
def Wanted.step (hub : PubsubHub) (wanted : Wanted) : HubEvent → Wanted
  | .request _ client req =>
    let names := wanted client req.op.isGlob
    let next := if req.op.adds then addNames names req.names else removeNames names req.names
    Function.update wanted client (Function.update (wanted client) req.op.isGlob next)
  | .removeClient client => Function.update wanted client fun _ => []
  | .closed => if hub.connected then fun _ _ => [] else wanted
  | _ => wanted

theorem mem_addNames : p ∈ addNames l names ↔ p ∈ l ∨ p ∈ names := by
  induction names generalizing l with
  | nil => simp [addNames]
  | cons name names ih =>
    have hstep := ih (l := if name ∈ l then l else l ++ [name])
    rw [addNames, List.foldl_cons, ← addNames, hstep, List.mem_cons]
    split
    · grind
    · simp only [List.mem_append, List.mem_singleton, or_assoc]

theorem mem_removeNames : p ∈ removeNames l names ↔ p ∈ l ∧ names ≠ [] ∧ p ∉ names := by
  unfold removeNames
  split
  · simp_all
  · simp_all

/-- The hub is consistent and has entries of subscriptions of the clients only. -/
structure Faithful (wanted : Wanted) (hub : PubsubHub) : Prop where
  consistent : hub.Consistent
  wanted : ∀ e ∈ hub.subs, e.pattern ∈ wanted e.client e.isGlob

/-- `subscribe` tells the commands that add subscriptions apart by their names. -/
theorem SubOp.isGlob_of_adds {op : SubOp} (h : op.adds = true) :
    decide (op.name = bytes "PSUBSCRIBE") = op.isGlob := by
  cases op with
  | subscribe | psubscribe => decide
  | unsubscribe | punsubscribe => cases h

/-- A request of a client keeps the subscriptions of the others. -/
theorem Wanted.step_request_of_ne {env : Env} {client : ℕ} {client' : ℕ} (h : client' ≠ client) :
    Wanted.step hub wanted (.request env client req) client' = wanted client' := by
  simp [Wanted.step, Function.update_of_ne h]

theorem Faithful.subscribe (h : Faithful wanted hub) (env : Env) (client : ℕ)
    (hadds : req.op.adds = true) :
    ∀ e ∈ (hub.subscribe env client req.request).subs,
      e.pattern ∈ Wanted.step hub wanted (.request env client req) e.client e.isGlob := by
  intro e he
  have hglob : decide (req.request.cmd = bytes "PSUBSCRIBE") = req.op.isGlob :=
    SubOp.isGlob_of_adds hadds
  rcases PubsubHub.mem_subscribe he with hold | ⟨p, hp, rfl⟩
  · have hwanted := h.wanted e hold
    by_cases hclient : e.client = client
    · rw [hclient] at hwanted ⊢
      simp only [Wanted.step, Function.update_self, hadds, if_true]
      by_cases hsame : e.isGlob = req.op.isGlob
      · rw [hsame, Function.update_self, mem_addNames]
        rw [hsame] at hwanted
        exact .inl hwanted
      rw [Function.update_of_ne hsame]
      exact hwanted
    · rw [Wanted.step_request_of_ne hclient]
      exact hwanted
  · simp only [Wanted.step, Function.update_self, hadds, if_true, hglob, mem_addNames]
    exact .inr hp

theorem Faithful.unsubscribe (h : Faithful wanted hub) (env : Env) (client : ℕ)
    (hadds : req.op.adds = false) :
    ∀ e ∈ (hub.unsubscribe client req.request).subs,
      e.pattern ∈ Wanted.step hub wanted (.request env client req) e.client e.isGlob := by
  intro e he
  obtain ⟨hold, hleft⟩ := (PubsubHub.mem_unsubscribe h.consistent).mp he
  have hwanted := h.wanted e hold
  by_cases hclient : e.client = client
  · obtain ⟨hnames, hnot⟩ := hleft hclient
    rw [hclient] at hwanted ⊢
    simp only [Wanted.step, Function.update_self, hadds, Bool.false_eq_true, if_false]
    by_cases hsame : e.isGlob = req.op.isGlob
    · rw [hsame, Function.update_self, mem_removeNames]
      rw [hsame] at hwanted
      exact ⟨hwanted, hnames, hnot⟩
    rw [Function.update_of_ne hsame]
    exact hwanted
  · rw [Wanted.step_request_of_ne hclient]
    exact hwanted

theorem Faithful.exec (cfg : Config) (globMatch : Bytes → Bytes → Bool) (hub : PubsubHub)
    (wanted : Wanted) (e : HubEvent) (h : Faithful wanted hub) :
    Faithful (Wanted.step hub wanted e) (hub.exec cfg globMatch e) where
  consistent := h.consistent.exec cfg globMatch e
  wanted := by
    cases e with
    | request env client req =>
      simp only [PubsubHub.exec, PubsubHub.onRequest]
      split
      · rename_i hadds
        exact h.subscribe env client hadds
      rename_i hadds
      exact h.unsubscribe env client (by simpa using hadds)
    | removeClient client =>
      intro entry hentry
      obtain ⟨hold, hother⟩ := h.consistent.mem_removeAllSubs.mp hentry
      simp only [Wanted.step, Function.update_of_ne hother]
      exact h.wanted entry hold
    | opened | dialFailed | value v =>
      simp only [PubsubHub.exec]
      split <;> exact h.wanted
    | closed =>
      simp only [PubsubHub.exec, Wanted.step]
      split
      · exact List.forall_mem_nil _
      · exact h.wanted

/-! ### One message for each subscription -/

section Once

variable (redisMatch globMatch : Bytes → Bytes → Bool)

/-- For a publication on a channel, each client gets one message if it is subscribed to the
channel, and one for each of its patterns that match the channel. -/
def ReceivesOnce (wanted : Wanted) (hub : PubsubHub) (channel payload : Bytes) : Prop :=
  ∀ client,
    copies (hub.published redisMatch globMatch channel payload) client
        (HubMsg.isMessage channel payload) = (if channel ∈ wanted client false then 1 else 0) ∧
      ∀ pattern, copies (hub.published redisMatch globMatch channel payload) client
          (HubMsg.isPMessage pattern channel payload) =
        if pattern ∈ wanted client true ∧ redisMatch pattern channel = true then 1 else 0

/-- The hub has an entry for each subscription that a channel concerns, the connection is
subscribed to the channel if a client is, and receives exactly one message if a client has a
pattern that matches. A pattern that matches for `filepath.Match` only gets no message. -/
structure ServesOnce (wanted : Wanted) (hub : PubsubHub) (channel : Bytes) : Prop where
  onChannel : ∀ client, channel ∈ wanted client false →
    ⟨client, channel, false⟩ ∈ hub.subs ∧ channel ∈ hub.subscribed.channels
  onPattern : ∀ client pattern, pattern ∈ wanted client true → redisMatch pattern channel = true →
    ⟨client, pattern, true⟩ ∈ hub.subs ∧ globMatch pattern channel = true ∧
      hub.subscribed.frameCount redisMatch channel = 1
  foreign : ∀ client pattern, ⟨client, pattern, true⟩ ∈ hub.subs →
    globMatch pattern channel = true → redisMatch pattern channel = false →
      hub.subscribed.frameCount redisMatch channel = 0

theorem receivesOnce_iff (h : Faithful wanted hub) (channel payload : Bytes) :
    ReceivesOnce redisMatch globMatch wanted hub channel payload ↔
      ServesOnce redisMatch globMatch wanted hub channel := by
  unfold ReceivesOnce
  simp only [copies_message redisMatch globMatch h.consistent,
    copies_pmessage redisMatch globMatch h.consistent]
  constructor
  · intro hreceives
    constructor
    · intro client hwanted
      have hmessage := (hreceives client).1
      rw [if_pos hwanted] at hmessage
      by_contra hnone
      rw [if_neg hnone] at hmessage
      cases hmessage
    · intro client pattern hwanted hmatch
      have hpattern := (hreceives client).2 pattern
      have hboth : pattern ∈ wanted client true ∧ redisMatch pattern channel = true :=
        ⟨hwanted, hmatch⟩
      rw [if_pos hboth] at hpattern
      by_cases hentry : ⟨client, pattern, true⟩ ∈ hub.subs ∧ globMatch pattern channel = true
      · rw [if_pos hentry] at hpattern
        exact ⟨hentry.1, hentry.2, hpattern⟩
      rw [if_neg hentry] at hpattern
      cases hpattern
    · intro client pattern hentry hglob hmatch
      have hpattern := (hreceives client).2 pattern
      rwa [if_pos ⟨hentry, hglob⟩, if_neg (by simp [hmatch])] at hpattern
  · intro hserves client
    constructor
    · by_cases hwanted : channel ∈ wanted client false
      · rw [if_pos hwanted, if_pos (hserves.onChannel client hwanted)]
      have hentry : (⟨client, channel, false⟩ : SubEntry) ∉ hub.subs := fun hentry =>
        hwanted (h.wanted _ hentry)
      rw [if_neg hwanted, if_neg fun hboth => hentry hboth.1]
    · intro pattern
      by_cases hwanted : pattern ∈ wanted client true ∧ redisMatch pattern channel = true
      · obtain ⟨hentry, hglob, hone⟩ := hserves.onPattern client pattern hwanted.1 hwanted.2
        rw [if_pos hwanted, if_pos ⟨hentry, hglob⟩, hone]
      rw [if_neg hwanted]
      split
      · rename_i hentry
        apply hserves.foreign client pattern hentry.1 hentry.2
        have hmem := h.wanted _ hentry.1
        simpa [hmem] using hwanted
      · rfl

end Once

/-- A pattern that ends in a star matches the names with its beginning, and another one
matches itself. Both kinds of matching agree on this. -/
def starMatch (pattern name : Bytes) : Bool :=
  if pattern.getLast? = some 42 then pattern.dropLast.isPrefixOf name else pattern = name

/-- A client subscribes to one pattern, and the hub connects. -/
def patternHistory : List HubEvent :=
  [.request (.oneNode (bytes "n:1")) 1 (SubOp.psubscribe.on [bytes "a*"]), .opened]

end Pluster.Engine
