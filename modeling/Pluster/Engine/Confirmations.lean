import Pluster.Engine.Publish

/-!
# Confirmations of subscriptions

Redis answers a subscription or its end with one confirmation for each name. On the shared
connection these come in the order of the commands, without a sign of the client that asked. The
hub drops those about patterns, and hands the others to the clients that have a channel
subscription to the name when the confirmation arrives. So a client gets the confirmations of its
request, and nobody else gets one, exactly if it is the only such client each time.
-/

namespace Pluster.Engine

open Proto GoStrings GoRuntime

variable {owner : Option ℕ} {args : List Bytes} {i : ℕ}

namespace SubOp

/-- The first element of a confirmation. -/
def kind : SubOp → Bytes
  | .subscribe => bytes "subscribe"
  | .psubscribe => bytes "psubscribe"
  | .unsubscribe => bytes "unsubscribe"
  | .punsubscribe => bytes "punsubscribe"

/-- The command that Redis finds under a name. -/
def find (written : Bytes) : Option SubOp :=
  [subscribe, psubscribe, unsubscribe, punsubscribe].find? fun op => op.name = toUpper written

end SubOp

/-- A confirmation under way. -/
structure Frame where
  /-- The position of the command among those written to the connection. -/
  command : ℕ
  /-- The client that named what is confirmed. -/
  asker : Option ℕ
  op : SubOp
  name : Option Bytes
  deriving DecidableEq

variable {f : Frame} {rest : List Frame}

/-- A confirmation. -/
def confirmation (op : SubOp) (name : Option Bytes) (count : ℤ) : Value :=
  .array [.bulkString op.kind, name.elim .nilBulkString .bulkString, .integer count]

/-- What Redis confirms if a command has no names: the end of each subscription of its kind, or
that there was none. -/
def Subscribed.unnamed (r : Subscribed) : SubOp → List (Option Bytes)
  | .subscribe | .psubscribe => []
  | .unsubscribe => if r.channels = [] then [none] else r.channels.map some
  | .punsubscribe => if r.patterns = [] then [none] else r.patterns.map some

/-- The confirmations of a command. -/
def Subscribed.answers (r : Subscribed) (command : ℕ) (owner : Option ℕ) :
    List Bytes → List Frame
  | [] => []
  | written :: names =>
    match SubOp.find written with
    | none => []
    | some op =>
      if names = [] then (r.unnamed op).map fun name => ⟨command, none, op, name⟩
      else names.map fun name => ⟨command, owner, op, some name⟩

/-- The traffic on the shared connection. -/
structure Traffic where
  /-- The commands with the clients that sent them. The hub has commands of its own. -/
  sent : List (Option ℕ × List Bytes) := []
  inFlight : List Frame := []
  /-- What was handed to clients for the confirmations of a command. -/
  delivered : ℕ → List (ℕ × HubMsg) := fun _ => []

namespace Traffic

/-- A command is written to the connection. -/
def write (t : Traffic) (owner : Option ℕ) (args : List Bytes) : Traffic :=
  let r := (t.sent.map Prod.snd).foldl Subscribed.command {}
  { t with
    sent := t.sent ++ [(owner, args)]
    inFlight := t.inFlight ++ r.answers t.sent.length owner args }

/-- The traffic after some commands. -/
def ofCommands (commands : List (Option ℕ × List Bytes)) : Traffic :=
  commands.foldl (fun t command => t.write command.1 command.2) {}

/-- The confirmation that comes next is handed on. -/
def deliver (t : Traffic) (f : Frame) (msgs : List (ℕ × HubMsg)) : Traffic :=
  { t with
    inFlight := t.inFlight.tail
    delivered := Function.update t.delivered f.command (t.delivered f.command ++ msgs) }

/-- The names that a client waits for. -/
def awaited (t : Traffic) (command : ℕ) : List Bytes :=
  (t.inFlight.filter fun f => f.command = command && f.asker.isSome).filterMap Frame.name

end Traffic

/-- A hub and its connection. -/
structure SharedConn where
  hub : PubsubHub := {}
  traffic : Traffic := {}

/-- What happens to the hub and on its connection. -/
inductive ConnEvent
  | request (env : Env) (client : ℕ) (req : SubRequest)
  | removeClient (client : ℕ)
  | opened
  | dialFailed
  | closed
  /-- A message on a channel. -/
  | message (channel payload : Bytes)
  /-- A message on a channel that matches a pattern. -/
  | pmessage (pattern channel payload : Bytes)
  /-- The next confirmation. -/
  | confirmed (count : ℤ)

namespace SharedConn

section Exec

variable (cfg : Config) (globMatch : Bytes → Bytes → Bool)

/-- The commands that `onSharedBackendOpen` writes: its own, and the requests that wait. -/
def openCommands (hub : PubsubHub) : List (Option ℕ × List Bytes) :=
  (if cfg.password ≠ [] then [(none, authArgs cfg)] else []) ++
    (none, [bytes "PSUBSCRIBE", bytes "*"]) ::
      hub.pendingClients.map fun pc => (some pc.1, pc.2.args)

/-- Execute one event. -/
def exec (s : SharedConn) : ConnEvent → SharedConn
  | .request env client req =>
    { hub := s.hub.exec cfg globMatch (.request env client req)
      traffic :=
        if s.hub.connected then s.traffic.write (some client) req.request.args else s.traffic }
  | .removeClient client => { s with hub := s.hub.exec cfg globMatch (.removeClient client) }
  | .opened =>
    { hub := s.hub.exec cfg globMatch .opened
      traffic := if s.hub.dialing then .ofCommands (openCommands cfg s.hub) else s.traffic }
  | .dialFailed => { s with hub := s.hub.exec cfg globMatch .dialFailed }
  | .closed =>
    { hub := s.hub.exec cfg globMatch .closed
      traffic := if s.hub.connected then {} else s.traffic }
  | .message channel payload =>
    { s with hub := s.hub.exec cfg globMatch (.value (messageFrame channel payload)) }
  | .pmessage pattern channel payload =>
    { s with hub := s.hub.exec cfg globMatch (.value (pmessageFrame pattern channel payload)) }
  | .confirmed count =>
    match s.traffic.inFlight with
    | [] => s
    | f :: _ =>
      let v := confirmation f.op f.name count
      { hub := s.hub.exec cfg globMatch (.value v)
        traffic := s.traffic.deliver f (s.hub.pushes globMatch v) }

end Exec

end SharedConn

/-! ### Exact delivery -/

/-- What a client gets for a name. -/
def confirmationFor (client : ℕ) (op : SubOp) (name : Bytes × ℤ) : ℕ × HubMsg :=
  (client, .forward (confirmation op (some name.1) name.2))

/-- For every request the client that sent it, and nobody else, got one confirmation for each of
its names in their order, apart from the names whose confirmations are under way. -/
def Traffic.Exact (t : Traffic) : Prop :=
  ∀ (i client : ℕ) (req : SubRequest), t.sent[i]? = some (some client, req.request.args) →
    ∃ arrived : List (Bytes × ℤ), req.names = arrived.map Prod.fst ++ t.awaited i ∧
      t.delivered i = arrived.map (confirmationFor client req.op)

/-- The clients with a channel subscription to a name. -/
def PubsubHub.subscribers (hub : PubsubHub) (channel : Bytes) : List ℕ :=
  (hub.subs.filter fun e => e.pattern = channel && !e.isGlob).map SubEntry.client

/-- The client that asked for a confirmation is the only subscriber of the channel, and one that
nobody asked for is about a pattern or a channel without subscribers. -/
def Frame.Sole (hub : PubsubHub) (f : Frame) : Prop :=
  match f.asker with
  | some client => f.op.isGlob = false ∧ hub.subscribers (f.name.getD []) = [client]
  | none => f.op.isGlob = true ∨ hub.subscribers (f.name.getD []) = []

/-- Every confirmation arrives while the client that asked for it is the only subscriber. -/
def SharedConn.Sole (s : SharedConn) : ConnEvent → Prop
  | .confirmed _ => ∀ f ∈ s.traffic.inFlight.head?, f.Sole s.hub
  | _ => True

/-! ### What the hub does with a confirmation -/

section Pushes

variable (globMatch : Bytes → Bytes → Bool) (hub : PubsubHub)

theorem channelPushes_eq (channel : Bytes) (v : Value) :
    hub.channelPushes channel v = (hub.subscribers channel).map fun client =>
      (client, .forward v) := by
  rw [PubsubHub.channelPushes, PubsubHub.subscribers, List.map_map]
  rfl

/-- The clients that get a confirmation. -/
def receivers (f : Frame) : List ℕ :=
  if f.op.isGlob then [] else hub.subscribers (f.name.getD [])

theorem pushes_confirmation (f : Frame) (count : ℤ) :
    hub.pushes globMatch (confirmation f.op f.name count) =
      (receivers hub f).map fun client => (client, .forward (confirmation f.op f.name count)) := by
  have hstr : (f.name.elim Value.nilBulkString Value.bulkString).str = f.name.getD [] := by
    cases f.name <;> rfl
  have hkind : toLower (Value.bulkString f.op.kind).str = f.op.kind := by cases f.op <;> decide
  unfold receivers
  rw [confirmation, PubsubHub.pushes]
  simp only [hkind, hstr, channelPushes_eq]
  cases f.op with
  | subscribe | psubscribe | unsubscribe | punsubscribe => rfl

theorem receivers_eq_iff (f : Frame) : receivers hub f = f.asker.toList ↔ f.Sole hub := by
  unfold receivers Frame.Sole
  cases f.asker with
  | none | some client =>
    cases f.op.isGlob with
    | false | true => simp

end Pushes

/-! ### The traffic -/

theorem SubOp.find_eq_some {written : Bytes} {op : SubOp} :
    SubOp.find written = some op ↔ toUpper written = op.name := by
  unfold SubOp.find
  constructor
  · intro hfind
    exact (by simpa using List.find?_some hfind : op.name = toUpper written).symm
  intro hupper
  rw [hupper]
  cases op <;> decide

namespace Traffic

variable {t : Traffic}

/-- The confirmations under way belong to commands that were written. -/
structure Wf (t : Traffic) : Prop where
  frame : ∀ f ∈ t.inFlight, ∃ owner written names,
    t.sent[f.command]? = some (owner, written :: names) ∧ SubOp.find written = some f.op ∧
      f.asker = (if names = [] then none else owner) ∧ (f.asker.isSome → f.name.isSome) ∧
      (owner = none → f.op.isGlob = true)
  fresh : ∀ i, t.sent.length ≤ i → t.delivered i = []

theorem Wf.command_lt (h : t.Wf) (hf : f ∈ t.inFlight) : f.command < t.sent.length := by
  obtain ⟨owner, written, names, hsent, -⟩ := h.frame f hf
  exact (List.getElem?_eq_some_iff.mp hsent).1

section Answers

variable {r : Subscribed} {command : ℕ} {owner : Option ℕ} {args : List Bytes}

theorem mem_answers (hf : f ∈ r.answers command owner args) :
    f.command = command ∧ ∃ written names, args = written :: names ∧
      SubOp.find written = some f.op ∧ f.asker = (if names = [] then none else owner) ∧
      (f.asker.isSome → f.name.isSome) := by
  cases args with
  | nil => cases hf
  | cons written names =>
    simp only [Subscribed.answers] at hf
    cases hop : SubOp.find written with
    | none => simp [hop] at hf
    | some op =>
      simp only [hop] at hf
      split at hf
      · rename_i hnames
        obtain ⟨name, -, rfl⟩ := List.mem_map.mp hf
        exact ⟨rfl, written, names, rfl, hop, (if_pos hnames).symm, fun hsome => nomatch hsome⟩
      rename_i hnames
      obtain ⟨name, -, rfl⟩ := List.mem_map.mp hf
      exact ⟨rfl, written, names, rfl, hop, (if_neg hnames).symm, fun _ => rfl⟩

/-- The client waits for the names of its request. -/
theorem awaited_answers {client : ℕ} (req : SubRequest) :
    ((r.answers command (some client) req.request.args).filter fun f =>
      f.command = command && f.asker.isSome).filterMap Frame.name = req.names := by
  have hfind : SubOp.find req.written = some req.op := SubOp.find_eq_some.mpr req.upper
  simp only [SubRequest.request, Subscribed.answers, hfind]
  split
  · rename_i hnames
    simp [hnames]
  · simp [List.filter_map, Function.comp_def]

end Answers

theorem awaited_write_lt (hi : i < t.sent.length) :
    (t.write owner args).awaited i = t.awaited i := by
  simp only [awaited, write, List.filter_append, List.filterMap_append]
  rw [List.append_right_eq_self, List.filterMap_eq_nil_iff]
  intro f hf
  obtain ⟨hmem, hcommand⟩ := List.mem_filter.mp hf
  have hlength := (mem_answers hmem).1
  simp only [Bool.and_eq_true, decide_eq_true_eq] at hcommand
  omega

theorem Wf.awaited_length (h : t.Wf) : t.awaited t.sent.length = [] := by
  rw [awaited, List.filterMap_eq_nil_iff]
  intro f hf
  obtain ⟨hmem, hcommand⟩ := List.mem_filter.mp hf
  have hlt := h.command_lt hmem
  simp only [Bool.and_eq_true, decide_eq_true_eq] at hcommand
  omega

theorem Wf.write (h : t.Wf)
    (hown : owner = none → ∀ op ∈ SubOp.find (args.headD []), op.isGlob = true) :
    (t.write owner args).Wf where
  frame f hf := by
    rcases List.mem_append.mp hf with hold | hnew
    · obtain ⟨owner', written, names, hsent, hrest⟩ := h.frame f hold
      refine ⟨owner', written, names, ?_, hrest⟩
      rw [← hsent]
      exact List.getElem?_append_left (h.command_lt hold)
    · obtain ⟨hcommand, written, names, rfl, hfind, hasker, hname⟩ := mem_answers hnew
      refine ⟨owner, written, names, ?_, hfind, hasker, hname, fun howner => ?_⟩
      · rw [hcommand]
        exact List.getElem?_concat_length
      · exact hown howner _ hfind
  fresh i hi := by
    apply h.fresh
    simp only [Traffic.write, List.length_append, List.length_singleton] at hi
    omega

/-- A command changes nothing for those before it, and is owed its confirmations. -/
theorem Exact.write (h : t.Exact) (hwf : t.Wf) (owner : Option ℕ) (args : List Bytes) :
    (t.write owner args).Exact := by
  intro i client req hsent
  have hlength := (List.getElem?_eq_some_iff.mp hsent).1
  simp only [Traffic.write, List.length_append, List.length_singleton] at hlength
  by_cases hi : i < t.sent.length
  · obtain ⟨arrived, hnames, hdelivered⟩ := h i client req
      ((List.getElem?_append_left hi).symm.trans hsent)
    exact ⟨arrived, by rw [awaited_write_lt hi, hnames], hdelivered⟩
  obtain rfl : i = t.sent.length := by omega
  have hlast : (owner, args) = (some client, req.request.args) := by
    apply Option.some.inj
    rw [← hsent]
    exact List.getElem?_concat_length.symm
  cases hlast
  refine ⟨[], ?_, hwf.fresh _ le_rfl⟩
  have hold := hwf.awaited_length
  rw [awaited] at hold
  simp only [awaited, Traffic.write, List.filter_append, List.filterMap_append, hold,
    awaited_answers, List.map_nil, List.nil_append]

theorem exact_foldl_write (commands : List (Option ℕ × List Bytes))
    (hown : ∀ command ∈ commands, command.1 = none →
      ∀ op ∈ SubOp.find (command.2.headD []), op.isGlob = true) (hwf : t.Wf) (h : t.Exact) :
    (commands.foldl (fun t command => t.write command.1 command.2) t).Wf ∧
      (commands.foldl (fun t command => t.write command.1 command.2) t).Exact := by
  induction commands generalizing t with
  | nil => exact ⟨hwf, h⟩
  | cons command commands ih =>
    rw [List.forall_mem_cons] at hown
    exact ih hown.2 (hwf.write hown.1) (h.write hwf command.1 command.2)

theorem wf_empty : Wf {} where
  frame _ hf := nomatch hf
  fresh _ _ := rfl

theorem exact_empty : Exact {} := by
  intro i client req hsent
  simp at hsent

theorem sent_foldl_write (commands : List (Option ℕ × List Bytes)) (t : Traffic) :
    (commands.foldl (fun t command => t.write command.1 command.2) t).sent = t.sent ++ commands := by
  induction commands generalizing t with
  | nil => exact (List.append_nil _).symm
  | cons command commands ih =>
    rw [List.foldl_cons, ih, Traffic.write, List.append_assoc]
    rfl

theorem Wf.deliver (h : t.Wf) (hhead : t.inFlight = f :: rest) (msgs : List (ℕ × HubMsg)) :
    (t.deliver f msgs).Wf where
  frame f' hf' := h.frame f' (List.mem_of_mem_tail hf')
  fresh i hi := by
    have hlt : f.command < t.sent.length := h.command_lt (by rw [hhead]; exact List.mem_cons_self)
    have hne : i ≠ f.command := by
      rintro rfl
      exact absurd hi (by simpa [Traffic.deliver] using hlt)
    exact (Function.update_of_ne hne _ t.delivered).trans (h.fresh i hi)

/-- The first confirmation under way, if a client waits for it. -/
theorem awaited_head (hhead : t.inFlight = f :: rest) (msgs : List (ℕ × HubMsg)) {name : Bytes}
    (hasker : f.asker.isSome = true) (hname : f.name = some name) :
    t.awaited f.command = name :: (t.deliver f msgs).awaited f.command := by
  simp [awaited, Traffic.deliver, hhead, hasker, hname]

/-- The others are not affected. -/
theorem awaited_deliver_of_not (hhead : t.inFlight = f :: rest) (msgs : List (ℕ × HubMsg))
    (hother : ¬ (f.command = i ∧ f.asker.isSome = true)) :
    (t.deliver f msgs).awaited i = t.awaited i := by
  have hdrop : (decide (f.command = i) && f.asker.isSome) = false := by simpa using hother
  simp [awaited, Traffic.deliver, hhead, hdrop]

section Deliver

variable {hub : PubsubHub} {f : Frame} {rest : List Frame} {count : ℤ}

/-- The messages that the hub hands on for a confirmation. -/
def msgsFor (hub : PubsubHub) (f : Frame) (count : ℤ) : List (ℕ × HubMsg) :=
  (receivers hub f).map fun client => (client, .forward (confirmation f.op f.name count))

/-- A confirmation that goes to the client that asked for it alone keeps the account exact. -/
theorem Exact.deliver (h : t.Exact) (hwf : t.Wf) (hhead : t.inFlight = f :: rest)
    (hsole : f.Sole hub) : (t.deliver f (msgsFor hub f count)).Exact := by
  intro i client req hsent
  obtain ⟨arrived, hnames, hdelivered⟩ := h i client req hsent
  by_cases hi : f.command = i
  · subst hi
    obtain ⟨owner, written, names, hsent', hfind, hasker, hname, -⟩ :=
      hwf.frame f (by rw [hhead]; exact List.mem_cons_self)
    have hsame : (owner, written :: names) = (some client, req.request.args) :=
      Option.some.inj (hsent'.symm.trans hsent)
    simp only [SubRequest.request, Prod.mk.injEq, List.cons.injEq] at hsame
    obtain ⟨rfl, rfl, rfl⟩ := hsame
    have hop : f.op = req.op :=
      Option.some.inj (hfind.symm.trans (SubOp.find_eq_some.mpr req.upper))
    have hmsgs : msgsFor hub f count = f.asker.toList.map fun client =>
        (client, .forward (confirmation f.op f.name count)) := by
      rw [msgsFor, (receivers_eq_iff hub f).mpr hsole]
    have hupdate : (t.deliver f (msgsFor hub f count)).delivered f.command =
        t.delivered f.command ++ msgsFor hub f count := Function.update_self ..
    rw [hupdate]
    by_cases hempty : req.names = []
    · rw [if_pos hempty] at hasker
      refine ⟨arrived, ?_, ?_⟩
      · rw [awaited_deliver_of_not hhead _ (by simp [hasker])]
        exact hnames
      · simp [hmsgs, hasker, hdelivered]
    · rw [if_neg hempty] at hasker
      obtain ⟨name, hname⟩ := Option.isSome_iff_exists.mp (hname (by simp [hasker]))
      refine ⟨arrived ++ [(name, count)], ?_, ?_⟩
      · rw [hnames, awaited_head hhead (msgsFor hub f count) (by simp [hasker]) hname]
        simp
      · simp [hmsgs, hasker, hdelivered, confirmationFor, hop, hname]
  · refine ⟨arrived, ?_, ?_⟩
    · rw [awaited_deliver_of_not hhead _ fun hboth => hi hboth.1]
      exact hnames
    rw [← hdelivered]
    exact Function.update_of_ne (Ne.symm hi) _ t.delivered

/-- Conversely, the account is exact only if the confirmation went to this client alone. -/
theorem Exact.sole (h : t.Exact) (hwf : t.Wf) (hhead : t.inFlight = f :: rest)
    (hnext : (t.deliver f (msgsFor hub f count)).Exact) : f.Sole hub := by
  rw [← receivers_eq_iff]
  obtain ⟨owner, written, names, hsent, hfind, hasker, hname, hown⟩ :=
    hwf.frame f (by rw [hhead]; exact List.mem_cons_self)
  cases owner with
  | none =>
    rw [ite_self] at hasker
    rw [receivers, if_pos (hown rfl), hasker]
    rfl
  | some client =>
    let req : SubRequest := ⟨f.op, written, names, SubOp.find_eq_some.mp hfind⟩
    obtain ⟨arrived, hnames, hdelivered⟩ := h f.command client req hsent
    obtain ⟨arrived', hnames', hdelivered'⟩ := hnext f.command client req hsent
    have hupdate : (t.deliver f (msgsFor hub f count)).delivered f.command =
        t.delivered f.command ++ msgsFor hub f count := Function.update_self ..
    rw [hupdate, hdelivered] at hdelivered'
    by_cases hempty : names = []
    · rw [if_pos hempty] at hasker
      have hnone : arrived' = [] := by
        change names = _ at hnames'
        rw [hempty, eq_comm, List.append_eq_nil_iff, List.map_eq_nil_iff] at hnames'
        exact hnames'.1
      rw [hnone, List.map_nil, List.append_eq_nil_iff] at hdelivered'
      rw [hasker]
      exact List.map_eq_nil_iff.mp hdelivered'.2
    · rw [if_neg hempty] at hasker
      obtain ⟨name, hname⟩ := Option.isSome_iff_exists.mp (hname (by simp [hasker]))
      rw [awaited_head hhead (msgsFor hub f count) (by simp [hasker]) hname] at hnames
      have hone : (receivers hub f).length = 1 := by
        have hlength := congrArg List.length (hnames.symm.trans hnames')
        have hmsgs := congrArg List.length hdelivered'
        simp only [List.length_append, List.length_map, List.length_cons, msgsFor] at hlength hmsgs
        omega
      obtain ⟨receiver, hreceiver⟩ := List.length_eq_one_iff.mp hone
      have hmem : (receiver, HubMsg.forward (confirmation f.op f.name count)) ∈
          arrived'.map (confirmationFor client req.op) := by
        rw [← hdelivered', msgsFor, hreceiver]
        simp
      obtain ⟨a, -, ha⟩ := List.mem_map.mp hmem
      have hclient : client = receiver := congrArg Prod.fst ha
      rw [hreceiver, hasker, hclient]
      rfl

end Deliver

end Traffic

/-! ### Runs -/

namespace SharedConn

variable {cfg : Config} {globMatch : Bytes → Bytes → Bool} {s : SharedConn}

/-- The commands of the hub itself are about patterns, if Redis confirms them at all. -/
theorem openCommands_own (hub : PubsubHub) (command : Option ℕ × List Bytes)
    (hcommand : command ∈ openCommands cfg hub) (hnone : command.1 = none) :
    ∀ op ∈ SubOp.find (command.2.headD []), op.isGlob = true := by
  rcases List.mem_append.mp hcommand with hauth | hrest
  · have hargs : command.2.headD [] = bytes "AUTH" := by
      split at hauth
      · rw [List.mem_singleton] at hauth
        rw [hauth]
        simp only [authArgs]
        split <;> rfl
      · cases hauth
    rw [hargs]
    decide
  · rcases List.mem_cons.mp hrest with rfl | hpending
    · decide
    obtain ⟨pc, -, rfl⟩ := List.mem_map.mp hpending
    cases hnone

theorem wf_exec (h : s.traffic.Wf) (e : ConnEvent) : (s.exec cfg globMatch e).traffic.Wf := by
  cases e with
  | request env client req =>
    simp only [exec]
    split
    · exact h.write fun hnone => nomatch hnone
    · exact h
  | removeClient client | dialFailed => exact h
  | opened =>
    simp only [exec]
    split
    · exact (Traffic.exact_foldl_write _ (openCommands_own s.hub) Traffic.wf_empty
        Traffic.exact_empty).1
    · exact h
  | closed =>
    simp only [exec]
    split
    · exact Traffic.wf_empty
    · exact h
  | message channel payload | pmessage pattern channel payload => exact h
  | confirmed count =>
    simp only [exec]
    split
    · exact h
    rename_i f rest hhead
    exact h.deliver hhead _

/-- The events that keep the account exact. -/
theorem exact_exec_iff (hwf : s.traffic.Wf) (h : s.traffic.Exact) (e : ConnEvent) :
    (s.exec cfg globMatch e).traffic.Exact ↔ s.Sole e := by
  cases e with
  | request env client req =>
    refine iff_of_true ?_ trivial
    simp only [exec]
    split
    · exact h.write hwf _ _
    · exact h
  | removeClient client | dialFailed => exact iff_of_true h trivial
  | opened =>
    refine iff_of_true ?_ trivial
    simp only [exec]
    split
    · exact (Traffic.exact_foldl_write _ (openCommands_own s.hub) Traffic.wf_empty
        Traffic.exact_empty).2
    · exact h
  | closed =>
    refine iff_of_true ?_ trivial
    simp only [exec]
    split
    · exact Traffic.exact_empty
    · exact h
  | message channel payload | pmessage pattern channel payload => exact iff_of_true h trivial
  | confirmed count =>
    simp only [exec, Sole]
    split
    · rename_i hnone
      rw [hnone]
      exact iff_of_true h fun f hf => nomatch hf
    rename_i f rest hhead
    rw [pushes_confirmation, hhead]
    constructor
    · rintro hnext f' ⟨⟩
      exact h.sole hwf hhead hnext
    intro hsole
    exact h.deliver hwf hhead (hsole f rfl)

/-- A connected hub forwards every request as it is. -/
theorem wire_onRequest (hub : PubsubHub) (env : Env) (client : ℕ) (req : SubRequest) :
    (hub.onRequest env client req).wire =
      if hub.connected then hub.wire ++ [req.request.args] else hub.wire := by
  unfold PubsubHub.onRequest
  split
  · have hlink := PubsubHub.link_addSubs (hub.startDial env) client req.request
    simp only [PubsubHub.link, Prod.mk.injEq] at hlink
    obtain ⟨hconnected, -, -, hwire, -⟩ := hlink
    obtain ⟨hstart, -, hstartWire⟩ := hub.link_startDial env
    rw [hstart] at hconnected
    simp only [PubsubHub.subscribe, PubsubHub.forwardOrWait, PubsubHub.forwardToBackend,
      hconnected]
    split
    · rw [← hstartWire, ← hwire]
    · exact hwire.trans hstartWire
  · have hlink := PubsubHub.link_removeSubs hub client req.request.args.tail
    simp only [PubsubHub.link, Prod.mk.injEq] at hlink
    obtain ⟨hconnected, -, -, hwire, -⟩ := hlink
    simp only [PubsubHub.unsubscribe, PubsubHub.forwardOrReply, PubsubHub.forwardToBackend,
      hconnected]
    split
    · rw [← hwire]
    · exact hwire

/-- The commands of the traffic are those that the hub wrote. -/
def Written (s : SharedConn) : Prop := s.traffic.sent.map Prod.snd = s.hub.wire

theorem written_exec (h : s.Written) (e : ConnEvent) : (s.exec cfg globMatch e).Written := by
  cases e with
  | request env client req =>
    simp only [exec, Written, PubsubHub.exec, wire_onRequest]
    split
    · rw [Traffic.write, List.map_append, h]
      rfl
    · exact h
  | removeClient client => exact h
  | opened =>
    simp only [exec, Written, PubsubHub.exec]
    split
    · rw [Traffic.ofCommands, Traffic.sent_foldl_write]
      simp only [openCommands, PubsubHub.onSharedBackendOpen]
      split <;> simp
    · exact h
  | dialFailed | message channel payload | pmessage pattern channel payload =>
    simp only [exec, Written, PubsubHub.exec]
    split <;> exact h
  | closed =>
    simp only [exec, Written, PubsubHub.exec]
    split
    · rfl
    · exact h
  | confirmed count =>
    simp only [exec]
    split
    · exact h
    simp only [Written, PubsubHub.exec]
    split <;> exact h

/-- In every run of a hub, Redis answers the commands that the hub wrote. -/
theorem written_run (cfg : Config) (globMatch : Bytes → Bytes → Bool) (events : List ConnEvent) :
    (Runs.run (exec cfg globMatch) {} events).Written :=
  Runs.run_invariant (fun s e (h : s.Written) => written_exec h e) (rfl : Written {}) events

/-- The hub connects, and two clients subscribe to one channel, the second one after the first.
The first one then gives its subscription up, and the second one subscribes to a pattern. -/
def sharedChannel : List ConnEvent :=
  [.request (.oneNode (bytes "n:1")) 0 (SubOp.subscribe.on [bytes "a"]), .opened, .confirmed 1,
    .confirmed 2, .request (.oneNode (bytes "n:1")) 1 (SubOp.subscribe.on [bytes "a"]),
    .confirmed 2, .request (.oneNode (bytes "n:1")) 0 (SubOp.unsubscribe.on [bytes "a"]),
    .confirmed 1, .request (.oneNode (bytes "n:1")) 1 (SubOp.psubscribe.on [bytes "p*"]),
    .confirmed 2]

end SharedConn

end Pluster.Engine
