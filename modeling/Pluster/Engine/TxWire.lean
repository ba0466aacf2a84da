import Pluster.Engine.Connections

/-!
# Transactions on the wire

What a dedicated connection carries of transactions: AUTH and WATCH commands, then MULTI,
the commands of an executed transaction in their order, and EXEC. The commands and EXEC
follow the reply to MULTI. A second transaction may follow the first one on a connection,
but its commands are never sent: the reply to the first EXEC closes the connection.
-/

namespace Pluster.Engine

open Proto GoStrings GoRuntime

variable {wire : List WireCmd} {cb tx : Callback} {rest pending before after : List Callback}
  {queue : List Req} {slotIdx : ℕ}

/-- AUTH, if there is one, and WATCH commands. -/
def IsSetup (wire : List WireCmd) : Prop :=
  ∃ auth watches, wire = auth ++ watches ∧ (auth = [] ∨ auth = [.auth]) ∧
    ∀ cmd ∈ watches, ∃ req, cmd = .watch req

/-- The commands of a transaction. -/
def block (queue : List Req) : List WireCmd := .multi :: (queue.map .queued ++ [.exec])

/-- What a connection has carried: transactions one after the other, and possibly MULTI of
the next one. A connection that has carried UNWATCH carries nothing else. -/
inductive TxWire (execs : List Req → Prop) (wire : List WireCmd) : Prop
  | blocks (setup : List WireCmd) (queues : List (List Req)) (next : List WireCmd)
      (hsetup : IsSetup setup) (hqueues : ∀ queue ∈ queues, execs queue)
      (hnext : next = [] ∨ next = [.multi]) (hwire : wire = setup ++ queues.flatMap block ++ next)
  | unwatched (setup : List WireCmd) (hsetup : IsSetup setup) (hwire : wire = setup ++ [.unwatch])

theorem isSetup_nil : IsSetup [] := ⟨[], [], rfl, .inl rfl, by simp⟩

theorem isSetup_auth : IsSetup [.auth] := ⟨[.auth], [], rfl, .inr rfl, by simp⟩

theorem IsSetup.watch (h : IsSetup wire) (req : Req) : IsSetup (wire ++ [.watch req]) := by
  obtain ⟨auth, watches, rfl, hauth, hwatches⟩ := h
  refine ⟨auth, watches ++ [.watch req], List.append_assoc _ _ _, hauth, fun cmd hcmd => ?_⟩
  rcases List.mem_append.mp hcmd with hcmd | hcmd
  · exact hwatches cmd hcmd
  · exact ⟨req, List.mem_singleton.mp hcmd⟩

theorem TxWire.mono {execs execs' : List Req → Prop} (h : TxWire execs wire)
    (hsub : ∀ queue, execs queue → execs' queue) : TxWire execs' wire := by
  cases h with
  | blocks setup queues next hsetup hqueues hnext hwire =>
    exact .blocks setup queues next hsetup (fun queue hq => hsub queue (hqueues queue hq)) hnext
      hwire
  | unwatched setup hsetup hwire => exact .unwatched setup hsetup hwire

namespace Backend

/-- The connection has carried no transaction, and waits for none. -/
def Plain (b : Backend) : Prop := IsSetup b.wire ∧ ∀ cb ∈ b.pending, cb.isTx = false

/-- The connection has carried nothing. -/
def Fresh (b : Backend) : Prop := b.wire = [] ∧ b.pending = []

/-- The connection waits for a reply of a transaction. -/
def Busy (b : Backend) : Prop := ∃ cb ∈ b.pending, cb.isTx = true

/-- A connection with one transaction under way: it waits for the reply to MULTI, or for the
one to EXEC. -/
inductive Once (execs : List Req → Prop) (b : Backend) : Prop
  | started (setup : List WireCmd) (before after : List Callback) (queue : List Req) (slotIdx : ℕ)
      (hsetup : IsSetup setup) (hqueue : execs queue) (hwire : b.wire = setup ++ [.multi])
      (hpending : b.pending = before ++ .multiStart queue slotIdx :: after)
      (hbefore : ∀ cb ∈ before, cb.isTx = false) (hafter : ∀ cb ∈ after, cb.isTx = false)
  | sent (setup : List WireCmd) (before after : List Callback) (queue : List Req) (slotIdx : ℕ)
      (hsetup : IsSetup setup) (hqueue : execs queue) (hwire : b.wire = setup ++ block queue)
      (hpending : b.pending = before ++ .execDone slotIdx :: after)
      (hbefore : ∀ cb ∈ before, cb.isTx = false) (hafter : ∀ cb ∈ after, cb.isTx = false)

/-- What an open connection has carried of transactions. -/
inductive Staged (execs : List Req → Prop) (b : Backend) : Prop
  | plain (h : b.Plain)
  | once (h : b.Once execs)
  /-- A second MULTI, behind an EXEC whose reply is awaited. -/
  | again (setup : List WireCmd) (before after : List Callback) (queue : List Req) (slotIdx : ℕ)
      (hsetup : IsSetup setup) (hqueue : execs queue)
      (hwire : b.wire = setup ++ block queue ++ [.multi])
      (hpending : b.pending = before ++ .execDone slotIdx :: after)
      (hbefore : ∀ cb ∈ before, cb.isTx = false)

variable {execs execs' : List Req → Prop} {b : Backend}

theorem Fresh.plain (h : b.Fresh) : b.Plain :=
  ⟨by rw [h.1]; exact isSetup_nil, by rw [h.2]; simp⟩

theorem Once.busy (h : b.Once execs) : b.Busy := by
  cases h with
  | started setup before after queue slotIdx _ _ _ hpending _ _ =>
    exact ⟨.multiStart queue slotIdx, by simp [hpending], rfl⟩
  | sent setup before after queue slotIdx _ _ _ hpending _ _ =>
    exact ⟨.execDone slotIdx, by simp [hpending], rfl⟩

theorem Plain.not_busy (h : b.Plain) : ¬ b.Busy := by
  rintro ⟨cb, hcb, htx⟩
  rw [h.2 cb hcb] at htx
  cases htx

theorem Once.txWire (h : b.Once execs) : TxWire execs b.wire := by
  cases h with
  | started setup before after queue slotIdx hsetup _ hwire _ _ _ =>
    exact .blocks setup [] [.multi] hsetup (by simp) (.inr rfl) (by simp [hwire])
  | sent setup before after queue slotIdx hsetup hqueue hwire _ _ _ =>
    exact .blocks setup [queue] [] hsetup (by simpa using hqueue) (.inl rfl) (by simp [hwire])

theorem Plain.txWire (h : b.Plain) : TxWire execs b.wire :=
  .blocks b.wire [] [] h.1 (by simp) (.inl rfl) (by simp)

theorem Staged.txWire (h : b.Staged execs) : TxWire execs b.wire := by
  cases h with
  | plain h | once h => exact h.txWire
  | again setup before after queue slotIdx hsetup hqueue hwire _ _ =>
    exact .blocks setup [queue] [.multi] hsetup (by simpa using hqueue) (.inr rfl) (by simp [hwire])

theorem Once.mono (h : b.Once execs) (hsub : ∀ queue, execs queue → execs' queue) :
    b.Once execs' := by
  cases h with
  | started setup before after queue slotIdx hsetup hqueue hwire hpending hbefore hafter =>
    exact .started setup before after queue slotIdx hsetup (hsub queue hqueue) hwire hpending
      hbefore hafter
  | sent setup before after queue slotIdx hsetup hqueue hwire hpending hbefore hafter =>
    exact .sent setup before after queue slotIdx hsetup (hsub queue hqueue) hwire hpending
      hbefore hafter

theorem Staged.mono (h : b.Staged execs) (hsub : ∀ queue, execs queue → execs' queue) :
    b.Staged execs' := by
  cases h with
  | plain h => exact .plain h
  | once h => exact .once (h.mono hsub)
  | again setup before after queue slotIdx hsetup hqueue hwire hpending hbefore =>
    exact .again setup before after queue slotIdx hsetup (hsub queue hqueue) hwire hpending hbefore

/-! ### Commands of no transaction -/

theorem pending_push_isTx (h : ∀ cb ∈ b.pending, cb.isTx = false) (hcb : cb.isTx = false)
    (cmd : WireCmd) : ∀ cb' ∈ (b.push cmd cb).pending, cb'.isTx = false := by
  intro cb' hcb'
  rcases List.mem_append.mp hcb' with hcb' | hcb'
  · exact h cb' hcb'
  rw [List.mem_singleton.mp hcb']
  exact hcb

theorem Plain.pushWatch (h : b.Plain) (req : Req) (hcb : cb.isTx = false) :
    (b.push (.watch req) cb).Plain := by
  refine ⟨?_, pending_push_isTx h.2 hcb _⟩
  simp only [Backend.push]
  split
  · exact h.1
  · exact h.1.watch req

theorem Fresh.auth (h : b.Fresh) (cfg : Config) : (b.auth cfg).Plain := by
  unfold Backend.auth
  split
  · exact h.plain
  refine ⟨?_, pending_push_isTx h.plain.2 rfl _⟩
  simp only [Backend.push, h.1]
  split
  · exact isSetup_nil
  · exact isSetup_auth

theorem fresh_new (kind : ConnKind) (addr : Bytes) (own : Bool) :
    ({ kind, addr, own } : Backend).Fresh := ⟨rfl, rfl⟩

theorem Plain.pop (h : b.Plain) (hpending : b.pending = cb :: rest) :
    ({ b with pending := rest } : Backend).Plain :=
  ⟨h.1, fun cb' hcb' => h.2 cb' (by rw [hpending]; exact List.mem_cons_of_mem _ hcb')⟩

/-- A callback of no transaction comes before the first one of a transaction. -/
theorem split_pop (hpending : pending = cb :: rest) (hsplit : pending = before ++ tx :: after)
    (hcb : cb.isTx = false) (htx : tx.isTx = true) :
    ∃ before', before = cb :: before' ∧ rest = before' ++ tx :: after := by
  cases before with
  | nil =>
    rw [hpending, List.nil_append, List.cons.injEq] at hsplit
    rw [hsplit.1, htx] at hcb
    cases hcb
  | cons first before =>
    rw [hpending, List.cons_append, List.cons.injEq] at hsplit
    exact ⟨before, by rw [hsplit.1], hsplit.2⟩

theorem Once.pop (h : b.Once execs) (hpending : b.pending = cb :: rest) (hcb : cb.isTx = false) :
    ({ b with pending := rest } : Backend).Once execs := by
  cases h with
  | started setup before after queue slotIdx hsetup hqueue hwire hsplit hbefore hafter =>
    obtain ⟨before', rfl, hrest⟩ := split_pop hpending hsplit hcb rfl
    exact .started setup before' after queue slotIdx hsetup hqueue hwire hrest
      (fun cb' hcb' => hbefore cb' (List.mem_cons_of_mem _ hcb')) hafter
  | sent setup before after queue slotIdx hsetup hqueue hwire hsplit hbefore hafter =>
    obtain ⟨before', rfl, hrest⟩ := split_pop hpending hsplit hcb rfl
    exact .sent setup before' after queue slotIdx hsetup hqueue hwire hrest
      (fun cb' hcb' => hbefore cb' (List.mem_cons_of_mem _ hcb')) hafter

/-- The next callback leaves a connection, if it belongs to no transaction. -/
theorem Staged.pop (h : b.Staged execs) (hpending : b.pending = cb :: rest)
    (hcb : cb.isTx = false) : ({ b with pending := rest } : Backend).Staged execs := by
  cases h with
  | plain h => exact .plain (h.pop hpending)
  | once h => exact .once (h.pop hpending hcb)
  | again setup before after queue slotIdx hsetup hqueue hwire hsplit hbefore =>
    obtain ⟨before', rfl, hrest⟩ := split_pop hpending hsplit hcb rfl
    exact .again setup before' after queue slotIdx hsetup hqueue hwire hrest
      fun cb' hcb' => hbefore cb' (List.mem_cons_of_mem _ hcb')

/-! ### Commands of a transaction -/

/-- MULTI on a connection without a transaction. -/
theorem Plain.start (h : b.Plain) (hopen : b.isClosed = false) (hqueue : execs queue)
    (slotIdx : ℕ) : (b.push .multi (.multiStart queue slotIdx)).Once execs :=
  .started b.wire b.pending [] queue slotIdx h.1 hqueue (by simp [Backend.push, hopen]) rfl h.2
    (by simp)

/-- MULTI behind an EXEC. -/
theorem Once.restart (h : b.Once execs) (hopen : b.isClosed = false) (hexec : .exec ∈ b.wire)
    (queue : List Req) (slotIdx : ℕ) : (b.push .multi (.multiStart queue slotIdx)).Staged execs := by
  cases h with
  | started setup before after queue' slotIdx' hsetup _ hwire _ _ _ =>
    obtain ⟨auth, watches, rfl, hauth, hwatches⟩ := hsetup
    rw [hwire] at hexec
    simp only [List.mem_append, List.mem_singleton, reduceCtorEq, or_false] at hexec
    rcases hexec with hexec | hexec
    · rcases hauth with rfl | rfl
      · cases hexec
      · simp at hexec
    obtain ⟨req, hreq⟩ := hwatches _ hexec
    cases hreq
  | sent setup before after queue' slotIdx' hsetup hqueue hwire hpending hbefore hafter =>
    refine .again setup before (after ++ [.multiStart queue slotIdx]) queue' slotIdx' hsetup hqueue
      ?_ ?_ hbefore
    · simp [Backend.push, hopen, hwire]
    · simp [Backend.push, hpending]

/-- The wire of a connection with the commands of a transaction, by induction on the
queue. -/
theorem pushQueue_wire (hopen : b.isClosed = false) (queue : List Req) (slotIdx : ℕ) :
    (b.pushQueue queue slotIdx).wire = b.wire ++ (queue.map .queued ++ [.exec]) ∧
      (b.pushQueue queue slotIdx).pending =
        b.pending ++ (queue.map (fun _ => .ignore) ++ [.execDone slotIdx]) := by
  unfold pushQueue
  induction queue generalizing b with
  | nil => simp [Backend.push, hopen]
  | cons req queue ih =>
    obtain ⟨hwire, hpending⟩ := ih (b := b.push (.queued req) .ignore) hopen
    rw [List.foldl_cons, hwire, hpending]
    simp [Backend.push, hopen]

/-- A callback of a transaction that comes first is the first one of a transaction. -/
theorem split_head (hpending : pending = cb :: rest) (hsplit : pending = before ++ tx :: after)
    (hcb : cb.isTx = true) (hbefore : ∀ cb' ∈ before, cb'.isTx = false) :
    cb = tx ∧ rest = after := by
  cases before with
  | nil =>
    rw [hpending, List.nil_append, List.cons.injEq] at hsplit
    exact hsplit
  | cons first before =>
    rw [hpending, List.cons_append, List.cons.injEq] at hsplit
    have hfirst := hbefore first List.mem_cons_self
    rw [← hsplit.1, hcb] at hfirst
    cases hfirst

/-- A connection that waits for the reply to MULTI first carries one transaction only. -/
theorem Staged.start_cases (h : b.Staged execs)
    (hpending : b.pending = .multiStart queue slotIdx :: rest) :
    ∃ setup, IsSetup setup ∧ b.wire = setup ++ [.multi] ∧ execs queue ∧
      ∀ cb ∈ rest, cb.isTx = false := by
  cases h with
  | plain h =>
    have := h.2 (.multiStart queue slotIdx) (by simp [hpending])
    cases this
  | once h =>
    cases h with
    | started setup before after queue' slotIdx' hsetup hqueue hwire hsplit hbefore hafter =>
      obtain ⟨hstart, rfl⟩ := split_head hpending hsplit rfl hbefore
      cases hstart
      exact ⟨setup, hsetup, hwire, hqueue, hafter⟩
    | sent setup before after queue' slotIdx' _ _ _ hsplit hbefore _ =>
      cases (split_head hpending hsplit rfl hbefore).1
  | again setup before after queue' slotIdx' _ _ _ hsplit hbefore =>
    cases (split_head hpending hsplit rfl hbefore).1

/-- The reply to MULTI: the connection carries the whole transaction. -/
theorem Staged.send (h : b.Staged execs) (hopen : b.isClosed = false)
    (hpending : b.pending = .multiStart queue slotIdx :: rest) :
    (({ b with pending := rest } : Backend).pushQueue queue slotIdx).Once execs := by
  obtain ⟨setup, hsetup, hwire, hqueue, hrest⟩ := h.start_cases hpending
  obtain ⟨hwire', hpending'⟩ := pushQueue_wire (b := { b with pending := rest }) hopen queue slotIdx
  refine .sent setup (rest ++ queue.map fun _ => .ignore) [] queue slotIdx hsetup hqueue ?_ ?_ ?_
    (by simp)
  · rw [hwire', hwire]
    simp [block]
  · rw [hpending']
    simp
  intro cb hcb
  rcases List.mem_append.mp hcb with hcb | hcb
  · exact hrest cb hcb
  obtain ⟨_, _, rfl⟩ := List.mem_map.mp hcb
  rfl

end Backend

end Pluster.Engine
