import Pluster.Engine.Moves
import Pluster.Engine.PubsubHub
import Pluster.Pool.Handshake
import Pluster.Router.PoolSync

/-!
# Authentication of the proxy at the backends

Which command comes first on each kind of backend connection, if there is a password for
the backends. It is AUTH on the connections of the pools and of the hub. On a dedicated
connection it is AUTH unless EXEC takes over the connection of a transaction before the
task that authenticates it has run. The multiplexer never sends AUTH.
-/

namespace Pluster.Engine

open Proto GoStrings Pool

variable {next : Session} {bc : BackendMuxConn} {req : PendingClientReq} {cfg : Config} {i : ℕ}
  {opts : Options} {c : Conn}

/-- The AUTH command with the credentials for the backends. -/
def backendAuth (cfg : Config) : Bytes := encodeCommandBytes (authArgs cfg)

/-! ### The multiplexer -/

/-- The request of an entry, if it has one, satisfies a condition. -/
def PendingClientReq.Sends (P : Bytes → Prop) (req : PendingClientReq) : Prop :=
  ∀ r ∈ req.req, P (rawBytes r)

/-- A request that a client hands to the multiplexer satisfies a condition. -/
def MuxEvent.Sends (P : Bytes → Prop) : MuxEvent → Prop
  | .send _ _ _ req _ | .sendAsk _ _ _ req _ => P (rawBytes req)
  | _ => True

namespace Mux

/-- All commands that are written, or are going to be, satisfy a condition. -/
structure Carries (P : Bytes → Prop) (m : Mux) : Prop where
  wire : ∀ addr bc, m.conns addr = some bc → ∀ cmd ∈ bc.wire ++ bc.writeBuf, P cmd
  pending : ∀ addr bc, m.conns addr = some bc → ∀ req ∈ bc.pending, req.Sends P
  dialing : ∀ addr, ∀ req ∈ m.dialing addr, req.Sends P

namespace Carries

variable {P : Bytes → Prop} {m : Mux} {outcome : ℕ → Bytes → DialOutcome} {addr : Bytes}

/-- A change of other fields. -/
theorem of_eq {next : Mux} (h : Carries P m) (hconns : next.conns = m.conns)
    (hdialing : ∀ addr, ∀ req ∈ next.dialing addr, req.Sends P) : Carries P next := by
  refine ⟨?_, ?_, hdialing⟩
  · rw [hconns]
    exact h.wire
  rw [hconns]
  exact h.pending

theorem setConn (h : Carries P m) (hwire : ∀ cmd ∈ bc.wire ++ bc.writeBuf, P cmd)
    (hpending : ∀ req ∈ bc.pending, req.Sends P) : Carries P (m.setConn addr bc) := by
  have hcases : ∀ addr' bc', (m.setConn addr bc).conns addr' = some bc' →
      bc' = bc ∨ m.conns addr' = some bc' := by
    intro addr' bc' hbc'
    by_cases haddr : addr' = addr
    · subst haddr
      simp only [Mux.setConn, Function.update_self, Option.some.injEq] at hbc'
      exact .inl hbc'.symm
    simp only [Mux.setConn, Function.update_of_ne haddr] at hbc'
    exact .inr hbc'
  refine ⟨fun addr' bc' hbc' => ?_, fun addr' bc' hbc' => ?_, h.dialing⟩
  · rcases hcases addr' bc' hbc' with rfl | hold
    · exact hwire
    · exact h.wire addr' bc' hold
  rcases hcases addr' bc' hbc' with rfl | hold
  · exact hpending
  · exact h.pending addr' bc' hold

theorem setDialing (h : Carries P m) {queue : List PendingClientReq}
    (hqueue : ∀ req ∈ queue, req.Sends P) (addr addr' : Bytes) :
    ∀ req ∈ Function.update m.dialing addr queue addr', req.Sends P := by
  by_cases haddr : addr' = addr
  · rw [haddr, Function.update_self]
    exact hqueue
  rw [Function.update_of_ne haddr]
  exact h.dialing addr'

theorem failDialing (h : Carries P m) (addr err : Bytes) : Carries P (m.failDialing addr err) :=
  h.of_eq rfl (h.setDialing (by simp) addr)

theorem dialBackend (h : Carries P m) (addr : Bytes) : Carries P (m.dialBackend outcome addr) := by
  have hnext : Carries P { m with dials := m.dials + 1 } := h.of_eq rfl h.dialing
  unfold Mux.dialBackend
  simp only
  split
  · exact hnext.of_eq rfl h.dialing
  · exact hnext.failDialing addr _
  · exact hnext.failDialing addr _

theorem enqueueDial (h : Carries P m) {reqs : List PendingClientReq}
    (hreqs : ∀ req ∈ reqs, req.Sends P) : Carries P (m.enqueueDial outcome addr reqs) := by
  have hqueued : Carries P
      { m with dialing := Function.update m.dialing addr (m.dialing addr ++ reqs) } := by
    refine h.of_eq rfl (h.setDialing ?_ addr)
    intro req hreq
    rcases List.mem_append.mp hreq with hreq | hreq
    · exact h.dialing addr req hreq
    · exact hreqs req hreq
  unfold Mux.enqueueDial
  split
  · exact hqueued.dialBackend addr
  · exact hqueued

theorem send (h : Carries P m) (hreq : req.Sends P) : Carries P (m.send outcome addr req) := by
  unfold Mux.send
  split
  · rename_i bc hbc
    refine h.setConn (fun cmd hcmd => ?_) fun r hr => ?_
    · rw [← List.append_assoc] at hcmd
      rcases List.mem_append.mp hcmd with hcmd | hcmd
      · exact h.wire addr bc hbc cmd hcmd
      obtain ⟨r, hr, rfl⟩ := Option.map_eq_some_iff.mp (Option.mem_toList.mp hcmd)
      exact hreq r hr
    · rcases List.mem_append.mp hr with hr | hr
      · exact h.pending addr bc hbc r hr
      · rwa [List.mem_singleton.mp hr]
  · exact h.enqueueDial fun r hr => by rwa [List.mem_singleton.mp hr]

theorem sendAsk (h : Carries P m) (hasking : P askingBytes) (hreq : req.Sends P) :
    Carries P (m.sendAsk outcome addr req) := by
  have hpair : ∀ skip : PendingClientReq, skip.req = req.req → ∀ r ∈ [skip, req], r.Sends P := by
    intro skip hskip r hr
    simp only [List.mem_cons, List.not_mem_nil, or_false] at hr
    rcases hr with rfl | rfl
    · unfold PendingClientReq.Sends
      rw [hskip]
      exact hreq
    · exact hreq
  unfold Mux.sendAsk
  simp only
  split
  · rename_i bc hbc
    refine h.setConn (fun cmd hcmd => ?_) fun r hr => ?_
    · simp only [List.mem_append, List.mem_singleton, Option.mem_toList] at hcmd
      rcases hcmd with ((hcmd | rfl) | hcmd) | hcmd
      · exact h.wire addr bc hbc cmd (List.mem_append_left _ hcmd)
      · exact hasking
      · obtain ⟨r, hr, rfl⟩ := Option.map_eq_some_iff.mp hcmd
        exact hreq r hr
      · exact h.wire addr bc hbc cmd (List.mem_append_right _ hcmd)
    · rcases List.mem_append.mp hr with hr | hr
      · exact h.pending addr bc hbc r hr
      · exact hpair _ (by rfl) r hr
  · exact h.enqueueDial (hpair _ (by rfl))

theorem flushBackendWrites (h : Carries P m) : Carries P m.flushBackendWrites := by
  refine ⟨fun addr bc hbc => ?_, fun addr bc hbc => ?_, h.dialing⟩
  · obtain ⟨old, hold, rfl⟩ := Option.map_eq_some_iff.mp hbc
    simpa using h.wire addr old hold
  obtain ⟨old, hold, rfl⟩ := Option.map_eq_some_iff.mp hbc
  exact h.pending addr old hold

theorem onOpen (h : Carries P m) (hreadonly : P readonlyBytes) (hasking : P askingBytes) (conn : ℕ)
    (addr : Bytes) (isReplicaAddr : Bool) : Carries P (m.onOpen conn addr isReplicaAddr) := by
  unfold Mux.onOpen
  simp only
  have hconn : ∀ bc : BackendMuxConn, (∀ cmd ∈ bc.wire ++ bc.writeBuf, P cmd) →
      (∀ req ∈ bc.pending, req.Sends P) →
      Carries P { m.setConn addr bc with dialing := Function.update m.dialing addr [] } := by
    intro bc hwire hpending
    exact (h.setConn hwire hpending).of_eq rfl (h.setDialing (by simp) addr)
  refine hconn _ (fun cmd hcmd => ?_) fun req hreq => ?_
  · simp only [List.append_nil, List.mem_append, List.mem_flatMap] at hcmd
    rcases hcmd with hcmd | ⟨req, hreq, hcmd⟩
    · split at hcmd
      · rwa [List.mem_singleton.mp hcmd]
      · cases hcmd
    split at hcmd
    · rwa [List.mem_singleton.mp hcmd]
    obtain ⟨r, hr, rfl⟩ := Option.map_eq_some_iff.mp (Option.mem_toList.mp hcmd)
    exact h.dialing addr req hreq r hr
  · rcases List.mem_append.mp hreq with hreq | hreq
    · split at hreq
      · -- The entry for READONLY has no request.
        obtain ⟨first, -, rfl⟩ := List.mem_map.mp hreq
        intro r hr
        cases hr
      · cases hreq
    · exact h.dialing addr req hreq

theorem onReply (h : Carries P m) (hasking : P askingBytes) (addr : Bytes) (reply : Reply) :
    Carries P (Mux.onReply outcome addr m reply) := by
  unfold Mux.onReply
  split
  · exact h
  rename_i bc hbc
  have hpop : Carries P (m.setConn addr (popPending bc reply).1) ∧
      ∀ req ∈ (popPending bc reply).2, req.Sends P := by
    have hwire := h.wire addr bc hbc
    have hpending := h.pending addr bc hbc
    unfold popPending
    cases hreq : bc.pending[bc.head]? with
    | none =>
      simp only [hreq]
      exact ⟨h.setConn hwire hpending, by simp⟩
    | some req =>
      have hsends : req.Sends P := hpending req (List.mem_of_getElem? hreq)
      simp only [hreq]
      split
      · exact ⟨h.setConn hwire (by simp), fun r hr => by cases hr; exact hsends⟩
      · exact ⟨h.setConn hwire hpending, fun r hr => by cases hr; exact hsends⟩
  split
  · rename_i heq
    rw [heq] at hpop
    exact hpop.1
  rename_i heq
  rw [heq] at hpop
  obtain ⟨hset, hreq⟩ := hpop
  have hredirected := hreq _ rfl
  simp only
  split
  · exact hset
  split
  · exact hset.send hredirected
  · exact hset.sendAsk hasking hredirected
  unfold Mux.deliver
  split
  · exact hset
  · exact hset.of_eq rfl hset.dialing

/-- Nothing but READONLY, ASKING and the requests of the clients is ever written. -/
theorem exec (h : Carries P m) (hreadonly : P readonlyBytes) (hasking : P askingBytes) {e : MuxEvent}
    (he : e.Sends P) : Carries P (m.exec outcome e) := by
  cases e with
  | send addr clientConn slotIdx req fanInIdx =>
    refine h.send fun r hr => ?_
    cases hr
    exact he
  | sendAsk addr clientConn slotIdx req fanInIdx =>
    refine h.sendAsk hasking fun r hr => ?_
    cases hr
    exact he
  | flushBackendWrites => exact h.flushBackendWrites
  | onOpen addr isReplicaAddr =>
    simp only [Mux.exec]
    split
    · refine Carries.onOpen ?_ hreadonly hasking _ addr isReplicaAddr
      exact h.of_eq rfl h.dialing
    · exact h
  | dialFailed addr err =>
    simp only [Mux.exec]
    split
    · refine Carries.failDialing ?_ addr err
      exact h.of_eq rfl h.dialing
    · exact h
  | onTraffic conn replies =>
    simp only [Mux.exec]
    split
    · exact h
    rename_i addr _
    have hstep : ∀ m reply, Carries P m → Carries P (Mux.onReply outcome addr m reply) :=
      fun _ reply h => h.onReply hasking addr reply
    unfold Mux.onTraffic
    split
    · exact h
    · exact (Runs.run_invariant hstep h replies).flushBackendWrites
  | onClose conn =>
    simp only [Mux.exec]
    split
    · exact h
    unfold Mux.onClose
    split
    · exact h.of_eq rfl h.dialing
    refine ⟨fun addr' bc hbc => ?_, fun addr' bc hbc => ?_, h.dialing⟩
    all_goals
      dsimp only at hbc
      rw [Function.update_apply] at hbc
      split at hbc
      · cases hbc
    · exact h.wire addr' bc hbc
    · exact h.pending addr' bc hbc
  | clientClose clientConn => exact h.of_eq rfl h.dialing

end Carries

end Mux

/-- The commands of the multiplexer itself are not AUTH. -/
theorem readonly_asking_ne_backendAuth (cfg : Config) :
    readonlyBytes ≠ backendAuth cfg ∧ askingBytes ≠ backendAuth cfg := by
  have hsecond : (backendAuth cfg)[1]? = some 50 ∨ (backendAuth cfg)[1]? = some 51 := by
    unfold backendAuth authArgs
    split
    · exact .inr rfl
    · exact .inl rfl
  have hreadonly : readonlyBytes[1]? = some 49 := by decide
  have hasking : askingBytes[1]? = some 49 := by decide
  constructor
  · intro heq
    rw [heq] at hreadonly
    rw [hreadonly] at hsecond
    simp at hsecond
  · intro heq
    rw [heq] at hasking
    rw [hasking] at hsecond
    simp at hsecond

/-- On a connection of the multiplexer AUTH comes first only if nothing comes at all. -/
theorem Mux.firstIs_iff (outcome : ℕ → Bytes → DialOutcome) {events : List MuxEvent}
    (hevents : Runs.Meets (Mux.exec outcome) (fun _ e => e.Sends fun cmd => cmd ≠ backendAuth cfg) {}
      events) {addr : Bytes} (hbc : (Runs.run (Mux.exec outcome) {} events).conns addr = some bc) :
    FirstIs (backendAuth cfg) bc.wire ↔ bc.wire = [] := by
  obtain ⟨hreadonly, hasking⟩ := readonly_asking_ne_backendAuth cfg
  have hcarries : Mux.Carries (fun cmd => cmd ≠ backendAuth cfg)
      (Runs.run (Mux.exec outcome) {} events) := by
    have hstep : ∀ (m : Mux) (e : MuxEvent), Mux.Carries (fun cmd => cmd ≠ backendAuth cfg) m →
        e.Sends (fun cmd => cmd ≠ backendAuth cfg) →
        Mux.Carries (fun cmd => cmd ≠ backendAuth cfg) (m.exec outcome e) :=
      fun _ _ h he => h.exec hreadonly hasking he
    exact hevents.invariant hstep ⟨nofun, nofun, by simp⟩
  constructor
  · intro hfirst
    cases hwire : bc.wire with
    | nil => rfl
    | cons cmd wire =>
      have hcmd : cmd ≠ backendAuth cfg := by
        apply hcarries.wire addr bc hbc cmd
        simp [hwire]
      exact absurd (hfirst cmd (by simp [hwire])) hcmd
  · intro hnil
    rw [hnil]
    exact firstIs_nil _

/-! ### Dedicated connections -/

/-- The bytes of a command on a dedicated connection. -/
def WireCmd.encoded (cfg : Config) : WireCmd → Bytes
  | .auth => backendAuth cfg
  | .watch req | .blocking req | .queued req => encodeCommandBytes req.body.args
  | .unwatch => encodeCommandBytes [bytes "UNWATCH"]
  | .multi => encodeCommandBytes [bytes "MULTI"]
  | .exec => encodeCommandBytes [bytes "EXEC"]

/-- The connection came from another client, or began with AUTH, or will never carry
anything. -/
def Backend.Ready (adopted : List ℕ) (c : ℕ) (b : Backend) : Prop :=
  c ∈ adopted ∨ b.wire.head? = some .auth ∨ b.wire = [] ∧ b.isClosed = true

namespace Backend.Ready

variable {adopted : List ℕ} {c : ℕ} {b : Backend}

/-- A change that keeps what was written. -/
theorem of_eq {b' : Backend} (h : b.Ready adopted c) (hwire : b'.wire = b.wire)
    (hclosed : b.isClosed = true → b'.isClosed = true) : b'.Ready adopted c := by
  unfold Backend.Ready
  rw [hwire]
  rcases h with h | h | ⟨h, h'⟩
  · exact .inl h
  · exact .inr (.inl h)
  · exact .inr (.inr ⟨h, hclosed h'⟩)

theorem push (h : b.Ready adopted c) (cmd : WireCmd) (cb : Callback) :
    (b.push cmd cb).Ready adopted c := by
  rcases h with h | h | ⟨h, h'⟩
  · exact .inl h
  · refine .inr (.inl ?_)
    simp only [Backend.push]
    split
    · exact h
    rw [List.head?_append, h]
    rfl
  · exact .inr (.inr ⟨by simp [Backend.push, h, h'], h'⟩)

theorem pushQueue (h : b.Ready adopted c) (queue : List Req) (slotIdx : ℕ) :
    (b.pushQueue queue slotIdx).Ready adopted c := by
  unfold Backend.pushQueue
  refine push ?_ _ _
  induction queue generalizing b with
  | nil => exact h
  | cons req queue ih => exact ih (h.push _ _)

theorem reuse (h : b.Ready adopted c) (req : Req) : (b.reuse req).Ready adopted c := by
  have hempty : ({ b with own := true, pending := [] } : Backend).Ready adopted c := h.of_eq rfl id
  exact hempty.push _ _

theorem firstIs (cfg : Config) (h : b.Ready adopted c) (hc : c ∉ adopted) :
    FirstIs (backendAuth cfg) (b.wire.map (WireCmd.encoded cfg)) := by
  rcases h with h | h | ⟨h, -⟩
  · exact absurd h hc
  · intro cmd hcmd
    rw [List.head?_map, h] at hcmd
    exact (Option.some.inj hcmd).symm
  rw [h]
  exact firstIs_nil _

end Backend.Ready

theorem Backend.ready_auth (hpassword : cfg.password ≠ []) {b : Backend} (hwire : b.wire = [])
    (adopted : List ℕ) (c : ℕ) : (b.auth cfg).Ready adopted c := by
  unfold Backend.auth
  rw [if_neg hpassword]
  cases hclosed : b.isClosed with
  | false => exact .inr (.inl (by simp [Backend.push, hclosed, hwire]))
  | true => exact .inr (.inr ⟨by simp [Backend.push, hclosed, hwire], hclosed⟩)

namespace Session

/-- The connections of other clients that come to the pool of the event loop. -/
def adopts (s : Session) : SessionEvent → List ℕ
  | .idleReturned _ => [s.nextConn]
  | _ => []

/-- Every connection is ready, or is the connection of a transaction on which nothing was
written yet and for which a task waits. -/
def Greeted (adopted : List ℕ) (s : Session) : Prop :=
  ∀ c b, s.conns c = some b → b.Ready adopted c ∨
    b.kind = .multi ∧ b.wire = [] ∧ b.pending = [] ∧ c ∈ s.starts.map Prod.fst

namespace Greeted

variable {adopted : List ℕ} {s : Session} {c : ℕ} {b : Backend}

/-- A change that keeps the connections and loses no task. -/
theorem mono (h : s.Greeted adopted) (hconns : next.conns = s.conns)
    (hstarts : ∀ d ∈ s.starts.map Prod.fst, d ∈ next.starts.map Prod.fst) :
    next.Greeted adopted := by
  intro c b hc
  rw [hconns] at hc
  rcases h c b hc with hready | ⟨hkind, hwire, hpending, hstart⟩
  · exact .inl hready
  · exact .inr ⟨hkind, hwire, hpending, hstarts c hstart⟩

/-- A change of other fields. -/
theorem of_eq (h : s.Greeted adopted) (hconns : next.conns = s.conns)
    (hstarts : next.starts = s.starts) : next.Greeted adopted :=
  h.mono hconns fun _ hstart => hstarts ▸ hstart

theorem adopt (h : s.Greeted adopted) (more : List ℕ) : s.Greeted (adopted ++ more) := by
  intro c b hc
  rcases h c b hc with (hmem | hready) | hstart
  · exact .inl (.inl (List.mem_append_left _ hmem))
  · exact .inl (.inr hready)
  · exact .inr hstart

theorem ready (h : s.Greeted adopted) (hc : s.conns c = some b)
    (hb : b.kind ≠ .multi ∨ b.pending ≠ [] ∨ c ∉ s.starts.map Prod.fst) : b.Ready adopted c := by
  rcases h c b hc with hready | ⟨hkind, -, hpending, hstart⟩
  · exact hready
  rcases hb with hb | hb | hb
  · exact absurd hkind hb
  · exact absurd hpending hb
  · exact absurd hstart hb

/-- A connection is replaced by one that is ready, and no task is lost for the others. -/
theorem set (h : s.Greeted adopted) (hready : b.Ready adopted c)
    (hconns : next.conns = Function.update s.conns c (some b))
    (hstarts : ∀ d ≠ c, d ∈ s.starts.map Prod.fst → d ∈ next.starts.map Prod.fst) :
    next.Greeted adopted := by
  intro d b' hb'
  rw [hconns, Function.update_apply] at hb'
  split at hb'
  · rename_i hd
    cases hb'
    rw [hd]
    exact .inl hready
  · rename_i hd
    rcases h d b' hb' with hready' | ⟨hkind, hwire, hpending, hstart⟩
    · exact .inl hready'
    · exact .inr ⟨hkind, hwire, hpending, hstarts d hd hstart⟩

theorem setConn (h : s.Greeted adopted) (hready : b.Ready adopted c) :
    (s.setConn c b).Greeted adopted :=
  h.set hready rfl fun _ _ hstart => hstart

/-- A task that leaves the list is not the start of another transaction. -/
theorem mem_starts_erase {d : ℕ} {t : Task} (ht : s.tasks[i]? = some t)
    (hother : ∀ queue slotIdx, t ≠ .startMulti d queue slotIdx)
    (hstart : d ∈ s.starts.map Prod.fst) :
    d ∈ ({ s with tasks := s.tasks.eraseIdx i } : Session).starts.map Prod.fst := by
  obtain ⟨⟨d, queue, slotIdx⟩, hmem, rfl⟩ := List.mem_map.mp hstart
  obtain ⟨j, hj⟩ := List.getElem?_of_mem (mem_starts.mp hmem)
  have hne : j ≠ i := by
    rintro rfl
    rw [ht] at hj
    exact hother queue slotIdx (Option.some.inj hj)
  exact List.mem_map.mpr ⟨_, mem_starts.mpr (List.mem_eraseIdx_iff_getElem?.mpr ⟨j, hne, hj⟩), rfl⟩

/-- A move. An EXEC does not take over a connection for which a task waits. -/
theorem move (hpassword : cfg.password ≠ []) {g : Grant} {o : Option Req} (h : s.Greeted adopted)
    (hconn : s.ConnInv) (hreuse : ∀ c, g.reuse s c → c ∉ s.starts.map Prod.fst)
    (hadopt : ∀ c, g.adopt c → c ∈ adopted) (hmove : Move cfg g s o next) :
    next.Greeted adopted := by
  -- The replies that a connection waits for are to commands after AUTH.
  have hpopped : ∀ {c b cb rest}, s.conns c = some b → b.pending = cb :: rest →
      ({ b with pending := rest } : Backend).Ready adopted c := fun hc hpending =>
    (h.ready hc (.inr (.inl (by simp [hpending])))).of_eq rfl id
  have htaken : ∀ {c b addr}, (s.takeIdle addr s.idle).1 = some c → s.conns c = some b →
      b.Ready adopted c := fun hsome hc =>
    h.ready hc (.inl (by simp [hconn.kind_of_taken hsome hc]))
  cases hmove with
  | same hlink _ _ =>
    simp only [linkPart, connPart, Prod.mk.injEq] at hlink
    obtain ⟨⟨hconns, -, -, -, -, -, hstarts⟩, -⟩ := hlink
    exact h.of_eq hconns hstarts
  | @close c b b' hc hopen hlast =>
    refine h.set (c := c) (b := { b' with isClosed := true }) ?_ rfl fun _ _ hstart => hstart
    cases hlast with
    | same =>
      rcases h c b hc with hready | ⟨-, hwire, -⟩
      · exact hready.of_eq rfl fun _ => rfl
      · exact .inr (.inr ⟨hwire, rfl⟩)
    | unwatch hwatch =>
      have hkind := (hconn.watch c hwatch).kind_eq hc
      exact ((h.ready hc (.inl (by simp [hkind]))).push .unwatch .ignore).of_eq rfl fun _ => rfl
    | pop hpending => exact (hpopped hc hpending).of_eq rfl fun _ => rfl
  | @watch c b hwatch hc req slotIdx =>
    have hkind := (hconn.watch c hwatch).kind_eq hc
    exact h.setConn ((h.ready hc (.inl (by simp [hkind]))).push _ _)
  | @execWatched c b queue hwatch hc _ slotIdx =>
    have hkind := (hconn.watch c hwatch).kind_eq hc
    have hready := (h.ready hc (.inl (by simp [hkind]))).push .multi (.multiStart queue slotIdx)
    exact h.set hready rfl fun _ _ hstart => hstart
  | @execReuse c b queue _ hc _ hused slotIdx =>
    have hready := (h.ready hc (.inr (.inr (hreuse c hused)))).push .multi
      (.multiStart queue slotIdx)
    exact h.set hready rfl fun _ _ hstart => hstart
  | pop hc _ hpending _ => exact h.setConn (hpopped hc hpending)
  | sendQueue hc _ hpending => exact h.setConn ((hpopped hc hpending).pushQueue _ _)
  | sendBlocking hc _ hpending => exact h.setConn ((hpopped hc hpending).push _ _)
  | release hc _ hpending => exact h.set (hpopped hc hpending) rfl fun _ _ hstart => hstart
  | reuse hsome hc req => exact h.set ((htaken hsome hc).reuse req) rfl fun _ _ hstart => hstart
  | @lose c b addr _ hsome hc =>
    have hready : ({ b with own := false } : Backend).Ready adopted c :=
      (htaken hsome hc).of_eq rfl id
    exact h.set hready rfl fun _ _ hstart => hstart
  | adopt addr hadopted =>
    exact h.set (c := s.nextConn) (.inl (hadopt _ hadopted)) rfl fun _ _ hstart => hstart
  | openWatch _ =>
    have hready : (s.watchConn cfg).Ready adopted s.nextConn := by
      have hauth := Backend.ready_auth hpassword (b := { kind := .watch, addr := s.watchAddr }) rfl
        adopted s.nextConn
      simp only [watchConn]
      split
      · exact hauth
      · exact hauth.push _ _
    exact h.set hready rfl fun _ _ hstart => hstart
  | @openMulti i addr queue slotIdx _ =>
    intro d b hb
    have hstarts : ∀ d, d ∈ s.starts.map Prod.fst ∨ d = s.nextConn →
        d ∈ (s.starts ++ [(s.nextConn, queue, slotIdx)]).map Prod.fst := by
      intro d hd
      rw [List.map_append, List.map_singleton, List.mem_append, List.mem_singleton]
      exact hd
    have hadded : ({ s with tasks := s.tasks ++ [.startMulti s.nextConn queue slotIdx] } :
        Session).starts = s.starts ++ [(s.nextConn, queue, slotIdx)] := by
      simp [Session.starts]
    simp only [Session.setConn, Function.update_apply] at hb
    split at hb
    · rename_i hd
      cases hb
      exact .inr ⟨rfl, rfl, rfl, hadded ▸ hstarts d (.inr hd)⟩
    rcases h d b hb with hready | ⟨hkind, hwire, hpending, hstart⟩
    · exact .inl hready
    · exact .inr ⟨hkind, hwire, hpending, hadded ▸ hstarts d (.inl hstart)⟩
  | @openBlocking i addr req _ =>
    have hready : (blockingConn cfg addr req).Ready adopted s.nextConn := by
      rw [blockingConn, if_neg hpassword]
      exact .inr (.inl rfl)
    exact h.set hready rfl fun _ _ hstart => hstart
  | @startMulti i c b queue slotIdx ht hc =>
    have hready : (b.auth cfg).Ready adopted c := by
      rcases h c b hc with hready | ⟨-, hwire, -⟩
      · unfold Backend.auth
        rw [if_neg hpassword]
        exact hready.push _ _
      · exact Backend.ready_auth hpassword hwire adopted c
    refine h.set (hready.push _ _) rfl fun d hd hstart => mem_starts_erase ht ?_ hstart
    rintro queue' slotIdx' heq
    cases heq
    exact hd rfl
  | _ => exact h.of_eq rfl rfl

end Greeted

/-- No EXEC takes over the connection of a transaction whose task has not run yet. -/
def execsAfterStart (cfg : Config) (s : Session) (e : SessionEvent) : Bool :=
  match s.dispatched e with
  | none => true
  | some (t, env, req) =>
    match dispatchClientRequest cfg env t req.body with
    | .execReuse c => c ∉ s.starts.map Prod.fst
    | _ => true

/-- The connections of other clients so far. -/
def adoptStep (s : Session) (adopted : List ℕ) (e : SessionEvent) : List ℕ :=
  if s.dead || s.draining ≠ [] then adopted else adopted ++ s.adopts e

theorem Greeted.exec (hpassword : cfg.password ≠ []) {s : Session} {adopted : List ℕ}
    (h : s.Greeted adopted) (hconn : s.ConnInv) {e : SessionEvent}
    (hexec : s.execsAfterStart cfg e = true) : (s.exec cfg e).Greeted (s.adoptStep adopted e) := by
  by_cases hdead : s.dead = true
  · rw [exec_of_dead hdead, adoptStep, hdead]
    exact h
  have hmore : s.Greeted (s.adoptStep adopted e) := by
    unfold adoptStep
    split
    · exact h
    · exact h.adopt _
  refine (keeps_exec (fun hlink h => ?_) (fun hconn h hmove => h.move hpassword hconn ?_ ?_ hmove)
    hconn hmore).2
  · simp only [linkPart, connPart, Prod.mk.injEq] at hlink
    obtain ⟨⟨hconns, -, -, -, -, -, hstarts⟩, -⟩ := hlink
    exact h.of_eq hconns hstarts
  · rintro c ⟨env, req, hsome, hplan⟩
    simp only [execsAfterStart, hsome, hplan] at hexec
    obtain ⟨serving, arrived, draining, rfl⟩ := dispatched_served hsome
    exact of_decide_eq_true hexec
  · rintro c ⟨hdraining, ⟨addr, rfl⟩, rfl⟩
    simp [adoptStep, hdead, hdraining, adopts]

/-- The connections of other clients in the pool, after some events. -/
def adopted (cfg : Config) (policy : GrowthPolicy) (events : List SessionEvent) : List ℕ :=
  (Runs.run (Runs.withLog (exec cfg) adoptStep) (new cfg policy, []) events).2

theorem greeted_after (hpassword : cfg.password ≠ []) (policy : GrowthPolicy)
    {events : List SessionEvent}
    (hexecs : Runs.Meets (exec cfg) (fun s e => s.execsAfterStart cfg e = true) (new cfg policy)
      events) : (after cfg policy events).Greeted (adopted cfg policy events) := by
  have hstep : ∀ (st : Session × List ℕ) (e : SessionEvent),
      st.1.ConnInv ∧ st.1.Greeted st.2 → st.1.execsAfterStart cfg e = true →
      (Runs.withLog (exec cfg) adoptStep st e).1.ConnInv ∧
        (Runs.withLog (exec cfg) adoptStep st e).1.Greeted
          (Runs.withLog (exec cfg) adoptStep st e).2 :=
    fun _ e h hexec => ⟨h.1.exec cfg e, h.2.exec hpassword h.1 hexec⟩
  have hrun := (hexecs.withLog adoptStep []).invariant hstep ⟨connInv_new cfg policy, nofun⟩
  rw [Runs.run_withLog_fst] at hrun
  exact hrun.2

end Session

/-! ### The hub -/

/-- Without a connection nothing is written, and with one AUTH was written first. -/
def PubsubHub.Greeted (cfg : Config) (hub : PubsubHub) : Prop :=
  if hub.connected then hub.wire.head? = some (authArgs cfg) else hub.wire = []

namespace PubsubHub.Greeted

variable {cfg : Config} {hub : PubsubHub}

/-- A change of other fields. -/
theorem of_link {next : PubsubHub} (h : hub.Greeted cfg) (hconnected : next.connected = hub.connected)
    (hwire : next.wire = hub.wire) : next.Greeted cfg := by
  unfold PubsubHub.Greeted
  rw [hconnected, hwire]
  exact h

theorem forwardToBackend (h : hub.Greeted cfg) (req : Request) :
    (hub.forwardToBackend req).Greeted cfg := by
  unfold PubsubHub.forwardToBackend
  split
  · rename_i hconnected
    unfold PubsubHub.Greeted at h ⊢
    rw [if_pos hconnected] at h
    simp only [if_pos hconnected, List.head?_append, h]
    rfl
  · exact h

theorem subscribe (h : hub.Greeted cfg) (env : Env) (client : ℕ) (req : Request) :
    (hub.subscribe env client req).Greeted cfg := by
  obtain ⟨hconnected, -, hwire⟩ := hub.link_startDial env
  have hlink := link_addSubs (hub.startDial env) client req
  simp only [link, Prod.mk.injEq] at hlink
  obtain ⟨hconnected', -, -, hwire', -⟩ := hlink
  have hadded := h.of_link (hconnected'.trans hconnected) (hwire'.trans hwire)
  unfold PubsubHub.subscribe forwardOrWait
  split
  · exact hadded.forwardToBackend req
  · exact hadded.of_link rfl rfl

theorem unsubscribe (h : hub.Greeted cfg) (client : ℕ) (req : Request) :
    (hub.unsubscribe client req).Greeted cfg := by
  have hlink := link_removeSubs hub client req.args.tail
  simp only [link, Prod.mk.injEq] at hlink
  obtain ⟨hconnected, -, -, hwire, -⟩ := hlink
  have hremoved := h.of_link hconnected hwire
  unfold PubsubHub.unsubscribe forwardOrReply
  split
  · exact hremoved.forwardToBackend req
  · exact hremoved.of_link rfl rfl

theorem exec (hpassword : cfg.password ≠ []) (globMatch : Bytes → Bytes → Bool)
    (h : hub.Greeted cfg) (e : HubEvent) : (hub.exec cfg globMatch e).Greeted cfg := by
  cases e with
  | request env client req =>
    simp only [PubsubHub.exec, onRequest]
    split
    · exact h.subscribe env client _
    · exact h.unsubscribe client _
  | removeClient client => exact h.of_link rfl rfl
  | opened =>
    simp only [PubsubHub.exec]
    split
    · simp [PubsubHub.Greeted, onSharedBackendOpen, hpassword]
    · exact h
  | dialFailed | value v =>
    simp only [PubsubHub.exec]
    split
    · exact h.of_link rfl rfl
    · exact h
  | closed =>
    simp only [PubsubHub.exec]
    split
    · simp [PubsubHub.Greeted, onSharedBackendClose]
    · exact h

theorem firstIs (h : hub.Greeted cfg) :
    FirstIs (backendAuth cfg) (hub.wire.map encodeCommandBytes) := by
  unfold PubsubHub.Greeted at h
  split at h
  · intro cmd hcmd
    rw [List.head?_map, h] at hcmd
    exact (Option.some.inj hcmd).symm
  rw [h]
  exact firstIs_nil _

end PubsubHub.Greeted

/-! ### The pools -/

/-- The credentials of a pool are those for the backends. -/
def Uses (cfg : Config) (opts : Options) : Prop :=
  opts.username = cfg.username ∧ opts.password = cfg.password

theorem authCommand_of_uses (h : Uses cfg opts) : authCommand opts = backendAuth cfg := by
  unfold authCommand backendAuth authArgs
  rw [h.1, h.2]

/-- A connection on which the given command came first. -/
def Greets (first : Bytes) (c : Conn) : Prop := c.wire ≠ [] ∧ FirstIs first c.wire

theorem Greets.append {first : Bytes} {c' : Conn} (h : Greets first c) {more : List Bytes}
    (hwire : c'.wire = c.wire ++ more) : Greets first c' := by
  unfold Greets
  rw [hwire]
  exact ⟨by simp [h.1], h.2.append h.1 more⟩

theorem askOnConn_wire (c : Conn) (req : Request) (io : Router.AskIO) :
    ∃ more, (Router.askOnConn c req io).1.wire = c.wire ++ more := by
  unfold Router.askOnConn
  split
  · exact ⟨[], (List.append_nil _).symm⟩
  simp only
  split
  · exact ⟨_, rfl⟩
  have htwo : ((c.write [Router.askingCmdBytes]).write [encodeCommandBytes req.args]).wire =
      c.wire ++ [Router.askingCmdBytes, encodeCommandBytes req.args] := by
    simp [Conn.write]
  split
  · exact ⟨_, htwo⟩
  split
  · exact ⟨_, htwo⟩
  split
  · exact ⟨_, htwo⟩
  · exact ⟨_, htwo⟩

theorem readBatch_wire (reads : ℕ → Except Bytes Value) (i : ℕ) (c : Conn) (batch : List Request) :
    (Router.readBatch reads i c batch).1.wire = c.wire := by
  induction batch generalizing i c with
  | nil => rfl
  | cons req batch ih =>
    simp only [Router.readBatch]
    split
    · rfl
    · exact ih (i + 1) c.readValue

theorem batchOnConn_wire (c : Conn) (batch : List Request) (io : Router.BatchIO) :
    ∃ more, (Router.batchOnConn c batch io).1.wire = c.wire ++ more := by
  unfold Router.batchOnConn
  split
  · exact ⟨[], (List.append_nil _).symm⟩
  split
  · exact ⟨[], (List.append_nil _).symm⟩
  · exact ⟨_, readBatch_wire _ _ _ _⟩

theorem dial_greets (hpassword : opts.password ≠ []) {io : DialIO} (h : dial opts io = .ok c) :
    Greets (authCommand opts) c := by
  obtain ⟨hconnects, hwire⟩ := dial_wire h
  refine ⟨?_, hwire ▸ firstIs_handshakeWire hpassword io⟩
  simp only [connects, Bool.and_eq_true, Option.isNone_iff_eq_none] at hconnects
  rw [hwire]
  simp [handshakeWire, hconnects.1.1, hpassword]

/-- The pool `i` is replaced by one with the same options. -/
theorem opts_setPool {s : Router.Pools} {p : Pool} (hp : p.opts = (s.pools i).opts) (j : ℕ) :
    ((s.setPool i p).pools j).opts = (s.pools j).opts := by
  simp only [Router.Pools.setPool, Function.update_apply]
  split
  · rename_i hj
    rw [hp, hj]
  · rfl

theorem opts_getTurn (s : Router.Pools) (u pool : ℕ) (expired : Conn → Bool) (j : ℕ) :
    ((s.getTurn u pool expired).pools j).opts = (s.pools j).opts := by
  have hopts : ((s.pools pool).getTurn expired).2.opts = (s.pools pool).opts := by
    unfold Pool.getTurn popIdle
    rcases popIdleLoop expired (s.pools pool).conns with ⟨found, left, dropped⟩
    cases found with
    | some c => rfl
    | none =>
      dsimp only
      split <;> rfl
  unfold Router.Pools.getTurn
  split <;> rename_i heq <;> rw [heq] at hopts <;> exact opts_setPool hopts j

/-- The options of a pool do not change. -/
theorem opts_exec (s : Router.Pools) (e : Router.PoolEvent) (j : ℕ) :
    ((s.exec e).pools j).opts = (s.pools j).opts := by
  cases e with
  | get u pool expired =>
    simp only [Router.Pools.exec]
    split
    · split
      · rfl
      · exact opts_getTurn s u pool expired j
    · exact opts_getTurn s u _ expired j
    · rfl
  | cancel u | ask u req io | batch u batch io =>
    simp only [Router.Pools.exec]
    split <;> rfl
  | dialed u io =>
    simp only [Router.Pools.exec]
    split
    · split
      · rfl
      refine opts_setPool ?_ j
      rfl
    · rfl
  | close u =>
    simp only [Router.Pools.exec]
    split
    · refine opts_setPool ?_ j
      unfold put
      split
      · rfl
      · split <;> rfl
    · rfl
  | closePool pool =>
    refine opts_setPool ?_ j
    rfl

/-- All connections of the pools have begun with AUTH. -/
theorem pools_greet (hpassword : cfg.password ≠ []) {opts : ℕ → Options}
    (huses : ∀ i, Uses cfg (opts i)) (maxSize : ℕ → ℕ) (events : List Router.PoolEvent) :
    Router.Holding (fun _ => Greets (backendAuth cfg)) (fun _ => Greets (backendAuth cfg))
      (Runs.run Router.Pools.exec (.new opts maxSize) events) := by
  have hstep : ∀ (s : Router.Pools) (e : Router.PoolEvent),
      ((∀ i, (s.pools i).opts = opts i) ∧
        Router.Holding (fun _ => Greets (backendAuth cfg)) (fun _ => Greets (backendAuth cfg)) s) →
      (∀ i, ((s.exec e).pools i).opts = opts i) ∧
        Router.Holding (fun _ => Greets (backendAuth cfg)) (fun _ => Greets (backendAuth cfg))
          (s.exec e) := by
    rintro s e ⟨hopts, hholding⟩
    refine ⟨fun i => (opts_exec s e i).trans (hopts i), ?_⟩
    apply hholding.exec e
    · intro pool io c hdial
      rw [hopts pool] at hdial
      rw [← authCommand_of_uses (huses pool)]
      exact dial_greets ((huses pool).2 ▸ hpassword) hdial
    · rintro u req io - pool c hc
      obtain ⟨more, hwire⟩ := askOnConn_wire c req io
      exact hc.append hwire
    · intro pool c batch io hc
      obtain ⟨more, hwire⟩ := batchOnConn_wire c batch io
      exact hc.append hwire
    intro pool c hc _
    exact hc
  exact (Runs.run_invariant hstep ⟨fun _ => rfl, .new opts maxSize⟩ events).2

/-! ### All connections -/

/-- With a password for the backends, in every run: on a connection of the multiplexer AUTH
comes first only if nothing is written at all. On the dedicated connections that the client
opens it comes first if no EXEC takes over a connection whose task has not run. On the
connections of the hub, of the pools and of the pipelined pools, also those whose handshake
fails, it always comes first. -/
theorem backend_auth_first (cfg : Config) (hpassword : cfg.password ≠ []) :
    (∀ (outcome : ℕ → Bytes → DialOutcome) (events : List MuxEvent),
      Runs.Meets (Mux.exec outcome) (fun _ e => e.Sends fun cmd => cmd ≠ backendAuth cfg) {} events →
      ∀ addr bc, (Runs.run (Mux.exec outcome) {} events).conns addr = some bc →
        (FirstIs (backendAuth cfg) bc.wire ↔ bc.wire = [])) ∧
    (∀ (policy : GrowthPolicy) (events : List SessionEvent),
      Runs.Meets (Session.exec cfg) (fun s e => s.execsAfterStart cfg e = true) (.new cfg policy)
        events →
      ∀ c b, (Session.after cfg policy events).conns c = some b →
        c ∉ Session.adopted cfg policy events →
        FirstIs (backendAuth cfg) (b.wire.map (WireCmd.encoded cfg))) ∧
    (∀ (globMatch : Bytes → Bytes → Bool) (events : List HubEvent),
      FirstIs (backendAuth cfg)
        ((Runs.run (PubsubHub.exec cfg globMatch) {} events).wire.map encodeCommandBytes)) ∧
    (∀ (opts : ℕ → Options) (maxSize : ℕ → ℕ) (events : List Router.PoolEvent),
      (∀ i, Uses cfg (opts i)) →
      Router.Holding (fun _ c => FirstIs (backendAuth cfg) c.wire)
        (fun _ c => FirstIs (backendAuth cfg) c.wire)
        (Runs.run Router.Pools.exec (.new opts maxSize) events)) ∧
    (∀ (opts : Options) (io : DialIO), Uses cfg opts →
      FirstIs (backendAuth cfg) (handshakeWire opts io)) ∧
    ∀ (opts : Options) (turns : List PipeTurn), Uses cfg opts →
      ∀ wire, (Runs.run (PipeConn.turn opts) {} turns).conn = some wire ∨
          wire ∈ (Runs.run (PipeConn.turn opts) {} turns).closed →
        FirstIs (backendAuth cfg) wire := by
  refine ⟨?_, ?_, ?_, ?_, ?_, ?_⟩
  · intro outcome events hevents addr bc hbc
    exact Mux.firstIs_iff outcome hevents hbc
  · intro policy events hexecs c b hc hadopted
    have hgreeted := Session.greeted_after hpassword policy hexecs
    rcases hgreeted c b hc with hready | ⟨-, hwire, -⟩
    · exact hready.firstIs cfg hadopted
    rw [hwire]
    exact firstIs_nil _
  · intro globMatch events
    have hstep : ∀ (hub : PubsubHub) (e : HubEvent), hub.Greeted cfg →
        (hub.exec cfg globMatch e).Greeted cfg := fun _ e h => h.exec hpassword globMatch e
    have hstart : ({} : PubsubHub).Greeted cfg := rfl
    exact (Runs.run_invariant hstep hstart events).firstIs
  · intro opts maxSize events huses
    have hgreet := pools_greet hpassword huses maxSize events
    refine ⟨fun pool c hc => (hgreet.idle pool c hc).2, fun u => ?_⟩
    cases h : (Runs.run Router.Pools.exec (.new opts maxSize) events).users u with
    | holds pool c => exact (hgreet.holds h).2
    | used pool c => exact (hgreet.used h).2
    | _ => trivial
  · intro opts io huses
    rw [← authCommand_of_uses huses]
    exact firstIs_handshakeWire (huses.2 ▸ hpassword) io
  intro opts turns huses wire hwire
  have hpass : opts.password ≠ [] := huses.2 ▸ hpassword
  have hstep : ∀ (pc : PipeConn) (t : PipeTurn), pc.Greeted opts → (pc.turn opts t).Greeted opts :=
    fun _ t h => h.turn hpass t
  have hstart : ({} : PipeConn).Greeted opts := ⟨nofun, nofun⟩
  have hgreeted := Runs.run_invariant hstep hstart turns
  rw [← authCommand_of_uses huses]
  rcases hwire with hwire | hwire
  · exact (hgreeted.conn wire hwire).2
  · exact hgreeted.closed wire hwire

/-- A configuration with a password for the backends. -/
def protectedConfig : Config := { password := bytes "secret" }

/-- A client sends WATCH, and the connection for it opens. -/
def watchOpened : List SessionEvent :=
  [.request (.oneNode (bytes "a:1")) { args := [bytes "WATCH", bytes "k"], cmd := bytes "WATCH" },
    .opened 0]

theorem backend_auth_first_watch :
    protectedConfig.password ≠ [] ∧
      Runs.Meets (Session.exec protectedConfig)
        (fun s e => s.execsAfterStart protectedConfig e = true) (.new protectedConfig .doubling)
        watchOpened ∧
      ∃ b, (Session.after protectedConfig .doubling watchOpened).conns 0 = some b ∧
        b.wire.length = 2 ∧ 0 ∉ Session.adopted protectedConfig .doubling watchOpened ∧
        FirstIs (backendAuth protectedConfig) (b.wire.map (WireCmd.encoded protectedConfig)) := by
  have hpassword : protectedConfig.password ≠ [] := by decide
  have hmeets : Runs.Meets (Session.exec protectedConfig)
      (fun s e => s.execsAfterStart protectedConfig e = true) (.new protectedConfig .doubling)
      watchOpened := by decide +kernel
  have hconn : ((Session.after protectedConfig .doubling watchOpened).conns 0).map
      (fun b => b.wire.length) = some 2 := by decide +kernel
  have hadopted : 0 ∉ Session.adopted protectedConfig .doubling watchOpened := by decide +kernel
  obtain ⟨b, hb, hlength⟩ := Option.map_eq_some_iff.mp hconn
  exact ⟨hpassword, hmeets, b, hb, hlength, hadopted,
    (backend_auth_first protectedConfig hpassword).2.1 .doubling watchOpened hmeets 0 b hb hadopted⟩

/-- The multiplexer opens a connection and sends a GET on it without AUTH. -/
theorem mux_sends_without_auth :
    let get : Request := { args := [bytes "GET", bytes "k"], cmd := bytes "GET" }
    let m := Runs.run (Mux.exec fun _ _ => .registered) {}
      [.send (bytes "a:1") 1 0 get none, .onOpen (bytes "a:1") false]
    protectedConfig.password ≠ [] ∧
      (m.conns (bytes "a:1")).map (fun bc => bc.wire) = some [encodeCommandBytes get.args] ∧
      encodeCommandBytes get.args ≠ backendAuth protectedConfig := by
  decide +kernel

-- EXEC takes over the connection of the transaction before it, and MULTI comes first.
example :
    let env := Env.oneNode (bytes "a:1")
    let req (name : String) : SessionEvent :=
      .request env { args := [bytes name], cmd := bytes name }
    let set : SessionEvent :=
      .request env { args := [bytes "SET", bytes "k", bytes "v"], cmd := bytes "SET" }
    let events := [req "MULTI", set, req "EXEC", .opened 0, req "MULTI", set, req "EXEC"]
    ((Session.after protectedConfig .doubling events).conns 0).map (fun b => b.wire) =
      some [.multi] := by
  decide +kernel

end Pluster.Engine
