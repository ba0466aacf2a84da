import Pluster.Engine.Connections
import Pluster.Engine.ReplyLog
import Pluster.Engine.StateSteps

/-!
# What a step does to the connections

Every step of a session is a sequence of a few moves: a command is written to a connection or
a reply is taken from one, a connection opens, closes or goes to the pool, the client forgets a
connection, a dial begins or ends. A move says what becomes of the connections and of what
refers to them. What every move keeps holds in every run.
-/

namespace Pluster.Engine

open Proto GoStrings GoRuntime

variable {α : Type} {l : List α} {i : ℕ} {x : α} {kind : ConnKind} {cb : Callback}
  {rest : List Callback} {req : Req} {e : SessionEvent}

/-- The elements with a property, after one is erased. -/
theorem countP_eraseIdx {p : α → Bool} (hx : l[i]? = some x) :
    l.countP p = (l.eraseIdx i).countP p + (p x).toNat := by
  obtain ⟨hi, hget⟩ := List.getElem?_eq_some_iff.mp hx
  rw [← (List.getElem_cons_eraseIdx_perm hi).countP_eq p, List.countP_cons, hget]
  cases p x <;> simp

/-- The callback of a blocking command. -/
def Callback.isBlocking : Callback → Bool
  | .blocking _ | .authThenBlocking _ => true
  | _ => false

/-- The callbacks of blocking commands are on blocking connections. -/
theorem kind_of_isBlocking (hallows : kind.allows cb = true) (hcb : cb.isBlocking = true) :
    kind = .blocking := by
  cases cb with
  | blocking req | authThenBlocking req => cases kind <;> first | rfl | cases hallows
  | _ => cases hcb

/-- The callbacks of transactions are on other connections. -/
theorem kind_of_isTx (hallows : kind.allows cb = true) (hcb : cb.isTx = true) :
    kind ≠ .blocking := by
  rintro rfl
  cases cb with
  | multiStart queue slotIdx | execDone slotIdx => cases hallows
  | _ => cases hcb

/-- The request that a callback sends again for a reply. -/
def Callback.follows (v : Value) : Callback → Option Req
  | .watchFirst req _ => if v.isMovedError then some req else none
  | .blocking req => if v.isMovedError && (redirectionAddr v).isSome then some req else none
  | _ => none

/-- What a step may use: the queue of the transaction that an EXEC sends, the connection of an
earlier transaction that it sends it on, the connection of another client that comes to the
pool, whether another client takes one from the pool, and the connection that a reply comes
from. -/
structure Grant where
  queue : List Req → Prop
  reuse : Session → ℕ → Prop
  adopt : ℕ → Prop
  lose : Prop
  reply : ℕ → Backend → Prop

namespace Session

/-- The fields that say what becomes of the connections. -/
def linkPart (s : Session) : ((ℕ → Option Backend) × ℕ × Option ℕ × Option ℕ × Option ℕ ×
    List (Bytes × ℕ) × List (ℕ × List Req × ℕ)) × List Dial × Option Req :=
  (s.connPart, s.dials, s.pendingWatchReq)

/-- A connection just before it closes. -/
inductive Last (g : Grant) (s : Session) (c : ℕ) (b : Backend) : Backend → Prop
  | same : Last g s c b b
  | unwatch (hwatch : s.watchBackend = some c) : Last g s c b (b.push .unwatch .ignore)
  | pop {cb : Callback} {rest : List Callback} (hpending : b.pending = cb :: rest)
      (hreply : g.reply c b) : Last g s c b { b with pending := rest }

/-- One move. It may take up a request, which waits for a connection from then on or is sent. -/
inductive Move (cfg : Config) (g : Grant) (s : Session) : Option Req → Session → Prop
  /-- The connections stay as they are. -/
  | same {next : Session} (hlink : next.linkPart = s.linkPart)
      (hwaiting : next.waiting = s.waiting) (harrived : next.arrived = s.arrived) :
      Move cfg g s none next
  | buffer (req : Req) :
      Move cfg g s (some req) { s with pendingCmds := s.pendingCmds ++ [req] }
  | unbuffer : Move cfg g s none { s with pendingCmds := [] }
  /-- The client forgets connections. -/
  | forget {watch multi blocking : Option ℕ}
      (hwatch : watch = s.watchBackend ∨ watch = none)
      (hmulti : multi = s.multiBackend ∨ multi = none)
      (hblocking : blocking = s.blockingBackend ∨ blocking = none) :
      Move cfg g s none
        { s with watchBackend := watch, multiBackend := multi, blockingBackend := blocking }
  | close {c : ℕ} {b b' : Backend} (hc : s.conns c = some b)
      (hopen : b.isClosed = false) (hlast : Last g s c b b') :
      Move cfg g s none ((s.setConn c { b' with isClosed := true }).forgetConn c)
  /-- A WATCH on the connection that watches. -/
  | watch {c : ℕ} {b : Backend} (hwatch : s.watchBackend = some c)
      (hc : s.conns c = some b) (req : Req) (slotIdx : ℕ) :
      Move cfg g s (some req) (s.setConn c (b.push (.watch req) (.watchReuse slotIdx)))
  /-- EXEC on the connection that watches. -/
  | execWatched {c : ℕ} {b : Backend} {queue : List Req}
      (hwatch : s.watchBackend = some c) (hc : s.conns c = some b) (hqueue : g.queue queue)
      (slotIdx : ℕ) :
      Move cfg g s none
        { s.setConn c (b.push .multi (.multiStart queue slotIdx)) with watchBackend := none }
  /-- EXEC on the connection of an earlier transaction. -/
  | execReuse {c : ℕ} {b : Backend} {queue : List Req}
      (hmulti : s.multiBackend = some c) (hc : s.conns c = some b) (hqueue : g.queue queue)
      (hreuse : g.reuse s c) (slotIdx : ℕ) :
      Move cfg g s none
        { s.setConn c (b.push .multi (.multiStart queue slotIdx)) with multiBackend := none }
  /-- A reply to a command of no transaction. -/
  | pop {c : ℕ} {b : Backend} {cb : Callback} {rest : List Callback}
      (hc : s.conns c = some b) (hlive : b.isClosed = false ∧ b.own = true)
      (hpending : b.pending = cb :: rest) (hcb : cb.isTx = false) (hreply : g.reply c b) :
      Move cfg g s none (s.setConn c { b with pending := rest })
  /-- The reply to MULTI. -/
  | sendQueue {c : ℕ} {b : Backend} {queue : List Req} {slotIdx : ℕ}
      {rest : List Callback} (hc : s.conns c = some b) (hlive : b.isClosed = false ∧ b.own = true)
      (hpending : b.pending = .multiStart queue slotIdx :: rest) (hreply : g.reply c b) :
      Move cfg g s none
        (s.setConn c (({ b with pending := rest } : Backend).pushQueue queue slotIdx))
  /-- The reply to AUTH before a blocking command. -/
  | sendBlocking {c : ℕ} {b : Backend} {req : Req} {rest : List Callback}
      (hc : s.conns c = some b) (hlive : b.isClosed = false ∧ b.own = true)
      (hpending : b.pending = .authThenBlocking req :: rest) (hreply : g.reply c b) :
      Move cfg g s none
        (s.setConn c (({ b with pending := rest } : Backend).push (.blocking req) (.blocking req)))
  /-- The connection of a blocking command goes to the pool. -/
  | release {c : ℕ} {b : Backend} {req : Req} (hc : s.conns c = some b)
      (hlive : b.isClosed = false ∧ b.own = true) (hpending : b.pending = [.blocking req])
      (hreply : g.reply c b) :
      Move cfg g s none { s.setConn c { b with pending := [] } with
        blockingBackend := none, idle := s.idle ++ [(b.addr, c)] }
  | noteWatch (req : Req) :
      Move cfg g s (some req) { s with pendingWatchReq := some req }
  | dialWatch (addr : Bytes) :
      Move cfg g s none { s with dials := s.dials ++ [.watch addr] }
  | dialMulti (addr : Bytes) {queue : List Req} (hqueue : g.queue queue)
      (slotIdx : ℕ) : Move cfg g s none { s with dials := s.dials ++ [.multi addr queue slotIdx] }
  | dialBlocking (addr : Bytes) (req : Req) :
      Move cfg g s (some req) { s with dials := s.dials ++ [.blocking addr req] }
  | dialFailed (i : ℕ) : Move cfg g s none { s with dials := s.dials.eraseIdx i }
  /-- A blocking command on a connection of the pool. -/
  | reuse {c : ℕ} {b : Backend} {addr : Bytes}
      (hsome : (s.takeIdle addr s.idle).1 = some c) (hc : s.conns c = some b) (req : Req) :
      Move cfg g s (some req) { s.setConn c (b.reuse req) with
        idle := (s.takeIdle addr s.idle).2, blockingBackend := some c }
  /-- A connection of the pool goes to another client. -/
  | lose {c : ℕ} {b : Backend} {addr : Bytes} (hlose : g.lose)
      (hsome : (s.takeIdle addr s.idle).1 = some c) (hc : s.conns c = some b) :
      Move cfg g s none
        { s.setConn c { b with own := false } with idle := (s.takeIdle addr s.idle).2 }
  /-- Connections of the pool that have closed are dropped. -/
  | shrink (addr : Bytes) :
      Move cfg g s none { s with idle := (s.takeIdle addr s.idle).2 }
  /-- Another client returns a connection. -/
  | adopt (addr : Bytes) (hadopt : g.adopt s.nextConn) :
      Move cfg g s none { s.setConn s.nextConn { kind := .blocking, addr, own := false } with
        nextConn := s.nextConn + 1, idle := s.idle ++ [(addr, s.nextConn)] }
  | openWatch {i : ℕ} {addr : Bytes} (hd : s.dials[i]? = some (.watch addr)) :
      Move cfg g s none { s.setConn s.nextConn (s.watchConn cfg) with
        nextConn := s.nextConn + 1, watchBackend := some s.nextConn, pendingWatchReq := none,
        dials := s.dials.eraseIdx i }
  | openMulti {i : ℕ} {addr : Bytes} {queue : List Req} {slotIdx : ℕ}
      (hd : s.dials[i]? = some (.multi addr queue slotIdx)) :
      Move cfg g s none { s.setConn s.nextConn { kind := .multi, addr } with
        nextConn := s.nextConn + 1, multiBackend := some s.nextConn,
        tasks := s.tasks ++ [.startMulti s.nextConn queue slotIdx], dials := s.dials.eraseIdx i }
  | openBlocking {i : ℕ} {addr : Bytes} {req : Req}
      (hd : s.dials[i]? = some (.blocking addr req)) :
      Move cfg g s none { s.setConn s.nextConn (blockingConn cfg addr req) with
        nextConn := s.nextConn + 1, blockingBackend := some s.nextConn,
        dials := s.dials.eraseIdx i }
  /-- The task of a transaction runs. -/
  | startMulti {i c : ℕ} {b : Backend} {queue : List Req} {slotIdx : ℕ}
      (ht : s.tasks[i]? = some (.startMulti c queue slotIdx)) (hc : s.conns c = some b) :
      Move cfg g s none
        { s.setConn c ((b.auth cfg).push .multi (.multiStart queue slotIdx)) with
          tasks := s.tasks.eraseIdx i }

/-- Moves one after the other, which take up one request at most. -/
inductive Moves (cfg : Config) (g : Grant) : Option Req → Session → Session → Prop
  | refl (s : Session) : Moves cfg g none s s
  | tail {o : Option Req} {s t u : Session} (h : Moves cfg g o s t) (h' : Move cfg g t none u) :
      Moves cfg g o s u
  | take {req : Req} {s t u : Session} (h : Moves cfg g none s t)
      (h' : Move cfg g t (some req) u) : Moves cfg g (some req) s u
  | weaken {o : Option Req} {s t : Session} (h : Moves cfg g none s t) : Moves cfg g o s t

/-! ### The connections keep their invariant -/

namespace ConnInv

variable {cfg : Config} {g : Grant} {o : Option Req} {s next : Session} {c : ℕ} {b b' : Backend}

theorem last (h : s.ConnInv) (hc : s.conns c = some b) (hlast : Last g s c b b') :
    (s.setConn c b').ConnInv := by
  cases hlast with
  | same => rwa [setConn_of_some hc]
  | unwatch hwatch =>
    have hkind := (h.watch c hwatch).kind_eq hc
    exact h.push hc (by rw [hkind]; decide) (by rw [hkind]; rfl) _
  | pop hpending => exact h.pop hc hpending

/-- A blocking connection waits for one reply at most. -/
theorem rest_nil (h : s.ConnInv) (hc : s.conns c = some b) (hpending : b.pending = cb :: rest)
    (hcb : cb.isBlocking = true) : b.kind = .blocking ∧ rest = [] := by
  have hok := h.ok c b hc
  have hkind := kind_of_isBlocking (hok.allows cb (by simp [hpending])) hcb
  have hle := hok.single hkind
  rw [hpending, List.length_cons] at hle
  exact ⟨hkind, List.length_eq_zero_iff.mp (by omega)⟩

/-- A transaction starts on a connection of the client, which forgets it. -/
private theorem pushMulti (h : s.ConnInv) (hc : s.conns c = some b) (hkind : b.kind ≠ .blocking)
    (queue : List Req) (slotIdx : ℕ) :
    (s.setConn c (b.push .multi (.multiStart queue slotIdx))).ConnInv := by
  refine h.push hc hkind ?_ _
  cases hb : b.kind with
  | blocking => exact absurd hb hkind
  | _ => rfl

private theorem sendQueue (h : s.ConnInv) (hc : s.conns c = some b) (hkind : b.kind ≠ .blocking)
    (queue : List Req) (slotIdx : ℕ) : (s.setConn c (b.pushQueue queue slotIdx)).ConnInv := by
  obtain ⟨hkind', hclosed, hown⟩ := b.pushQueue_fields queue slotIdx
  exact h.setConn hc hkind' ((h.ok c b hc).pushQueue hkind queue slotIdx)
    (Or.inl fun h₁ h₂ => ⟨hclosed.trans h₁, hown.trans h₂⟩)
    fun hidle => absurd hidle (h.not_idle hc (Or.inl hkind))

/-- A connection comes to the pool. -/
private theorem addIdle (h : s.ConnInv) (hc : s.conns c = some b) (hkind : b.kind = .blocking)
    (hpending : b.pending = []) (hidle : c ∉ s.idle.map Prod.snd)
    (hblocking : s.blockingBackend ≠ some c) (addr : Bytes) :
    ({ s with idle := s.idle ++ [(addr, c)] } : Session).ConnInv := by
  refine { h with idle := fun entry hentry => ?_, nodup := ?_ }
  · rcases List.mem_append.mp hentry with hentry | hentry
    · exact h.idle entry hentry
    rw [List.mem_singleton.mp hentry]
    exact ⟨hblocking, b, hc, hkind, hpending⟩
  · rw [List.map_append, List.map_singleton, List.nodup_append]
    refine ⟨h.nodup, List.nodup_singleton _, ?_⟩
    rintro d hd e he rfl
    have hdc : d = c := List.mem_singleton.mp he
    exact hidle (hdc ▸ hd)

private theorem openWatch (h : s.ConnInv) (cfg : Config) :
    ({ s.setConn s.nextConn (s.watchConn cfg) with
      nextConn := s.nextConn + 1, watchBackend := some s.nextConn } : Session).ConnInv := by
  have hlive : (s.watchConn cfg).Ok ∧ (s.watchConn cfg).kind = .watch ∧
      (s.watchConn cfg).isClosed = false ∧ (s.watchConn cfg).own = true := by
    have hauth := (Backend.ok_new .watch s.watchAddr).auth (by simp) cfg
    simp only [watchConn]
    split
    · exact ⟨hauth, by simp, by simp, by simp⟩
    · exact ⟨hauth.push (by simp [ConnKind.allows]) (by simp) _, by simp, by simp, by simp⟩
  exact (h.openConn hlive.1).setWatch ⟨_, setConn_self _ _ _, hlive.2⟩

private theorem openMulti (h : s.ConnInv) (addr : Bytes) (queue : List Req) (slotIdx : ℕ) :
    ({ s.setConn s.nextConn { kind := .multi, addr } with
      nextConn := s.nextConn + 1, multiBackend := some s.nextConn,
      tasks := s.tasks ++ [.startMulti s.nextConn queue slotIdx] } : Session).ConnInv := by
  let b : Backend := { kind := .multi, addr }
  have hset := (h.openConn (b := b) (Backend.ok_new _ _)).setMulti
    ⟨b, setConn_self _ _ b, rfl, rfl, rfl⟩
  refine { hset with starts := fun start hstart => ?_ }
  have hstarts : start ∈ s.starts ++ [(s.nextConn, queue, slotIdx)] := by
    simpa [Session.starts] using hstart
  rcases List.mem_append.mp hstarts with hstart | hstart
  · exact hset.starts start hstart
  rw [List.mem_singleton.mp hstart]
  exact ⟨b, setConn_self _ _ b, rfl⟩

private theorem openBlocking (h : s.ConnInv) (cfg : Config) (addr : Bytes) (req : Req) :
    ({ s.setConn s.nextConn (blockingConn cfg addr req) with
      nextConn := s.nextConn + 1, blockingBackend := some s.nextConn } : Session).ConnInv := by
  have hlive : (blockingConn cfg addr req).Ok ∧ (blockingConn cfg addr req).kind = .blocking ∧
      (blockingConn cfg addr req).isClosed = false ∧ (blockingConn cfg addr req).own = true := by
    simp only [blockingConn]
    split
    · exact ⟨Backend.ok_push_of_nil rfl rfl rfl _, rfl, rfl, rfl⟩
    · exact ⟨Backend.ok_push_of_nil rfl rfl rfl _, rfl, rfl, rfl⟩
  exact (h.openConn hlive.1).setBlocking ⟨_, setConn_self _ _ _, hlive.2⟩ h.nextConn_not_idle

private theorem eraseTask (h : s.ConnInv) (i : ℕ) :
    ({ s with tasks := s.tasks.eraseIdx i } : Session).ConnInv :=
  { h with
    starts := fun start hstart => by
      obtain ⟨c, queue, slotIdx⟩ := start
      exact h.starts _ (mem_starts.mpr ((List.eraseIdx_sublist _ _).subset (mem_starts.mp hstart))) }

/-- A connection of the pool is not one that the client refers to. -/
theorem unreferenced (h : s.ConnInv) (hc : s.conns c = some b) (hkind : b.kind = .blocking)
    (hblocking : s.blockingBackend ≠ some c) : s.Unreferenced c :=
  ⟨(h.ne_of_blocking hc hkind).1, (h.ne_of_blocking hc hkind).2.1, hblocking⟩

theorem move (h : s.ConnInv) (hmove : Move cfg g s o next) : next.ConnInv := by
  cases hmove with
  | same hlink _ _ => exact h.congr (congrArg Prod.fst hlink)
  | buffer req | unbuffer => exact h.congr rfl
  | forget hwatch hmulti hblocking => exact h.forget hwatch hmulti hblocking
  | @close c b b' hc hopen hlast =>
    have hclosed := (h.last hc hlast).forgetConn (setConn_self s c b')
    rwa [setConn_setConn] at hclosed
  | @watch c b hwatch hc req slotIdx =>
    have hkind := (h.watch c hwatch).kind_eq hc
    exact h.push hc (by rw [hkind]; decide) (by rw [hkind]; rfl) _
  | @execWatched c b queue hwatch hc hqueue slotIdx =>
    have hkind := (h.watch c hwatch).kind_eq hc
    exact (h.forget (Or.inr rfl) (Or.inl rfl) (Or.inl rfl)).pushMulti hc (by rw [hkind]; decide) _ _
  | @execReuse c b queue hmulti hc hqueue hreuse slotIdx =>
    have hkind := (h.multi c hmulti).kind_eq hc
    exact (h.forget (Or.inl rfl) (Or.inr rfl) (Or.inl rfl)).pushMulti hc (by rw [hkind]; decide) _ _
  | pop hc hlive hpending hcb => exact h.pop hc hpending
  | @sendQueue c b queue slotIdx rest hc hlive hpending =>
    have hmem : .multiStart queue slotIdx ∈ b.pending := by simp [hpending]
    have hkind := kind_of_isTx ((h.ok c b hc).allows _ hmem) rfl
    have hsent := (h.pop hc hpending).sendQueue (setConn_self s c _) hkind queue slotIdx
    rwa [setConn_setConn] at hsent
  | @sendBlocking c b req rest hc hlive hpending =>
    obtain ⟨hkind, rfl⟩ := h.rest_nil hc hpending rfl
    have hok : (({ b with pending := [] } : Backend).push (.blocking req) (.blocking req)).Ok :=
      Backend.ok_push_of_nil (b := { b with pending := [] }) rfl (by simp [hkind, ConnKind.allows])
        hlive.2 _
    refine h.setConn hc rfl hok (Or.inl fun h₁ h₂ => ⟨h₁, h₂⟩) fun hidle => ?_
    exact absurd hidle (h.not_idle hc (Or.inr (Or.inl (by simp [hpending]))))
  | @release c b req hc hlive hpending =>
    obtain ⟨hkind, -⟩ := h.rest_nil hc hpending rfl
    have hforget := (h.pop hc hpending).forget (Or.inl rfl) (Or.inl rfl) (Or.inr rfl)
    exact hforget.addIdle (setConn_self s c _) hkind rfl
      (h.not_idle hc (Or.inr (Or.inl (by simp [hpending])))) nofun b.addr
  | noteWatch req | dialWatch addr | dialMulti addr hqueue slotIdx | dialBlocking addr req | dialFailed i =>
    exact h.congr rfl
  | @reuse c b addr hsome hc req =>
    obtain ⟨b', hb', hkind, hopen, -, -, hout⟩ := h.taken hsome
    obtain rfl : b = b' := Option.some.inj (hc.symm.trans hb')
    exact (h.idle_sublist (takeIdle_sublist s addr s.idle)).reuse hc hkind hopen hout req
  | @lose c b addr hlose hsome hc =>
    obtain ⟨b', hb', hkind, -, hpending, hblocking, -⟩ := h.taken hsome
    obtain rfl : b = b' := Option.some.inj (hc.symm.trans hb')
    have hok := h.ok c b hc
    exact (h.idle_sublist (takeIdle_sublist s addr s.idle)).setConn hc rfl
      ⟨hok.allows, hok.single, fun _ => ⟨hkind, hpending⟩⟩
      (Or.inr (h.unreferenced hc hkind hblocking)) fun _ => hpending
  | shrink addr => exact h.idle_sublist (takeIdle_sublist s addr s.idle)
  | adopt addr hadopt =>
    let b : Backend := { kind := .blocking, addr, own := false }
    have hopen := h.openConn (b := b) ⟨by simp [b], by simp [b], fun _ => ⟨rfl, rfl⟩⟩
    refine hopen.addIdle (setConn_self _ _ b) rfl rfl h.nextConn_not_idle (fun heq => ?_) addr
    obtain ⟨b', hb', -⟩ := h.blocking _ heq
    rw [h.fresh _ le_rfl] at hb'
    cases hb'
  | openWatch hd => exact (h.openWatch cfg).congr rfl
  | @openMulti i addr queue slotIdx hd => exact (h.openMulti addr queue slotIdx).congr rfl
  | @openBlocking i addr req hd => exact (h.openBlocking cfg addr req).congr rfl
  | @startMulti i c b queue slotIdx ht hc =>
    obtain ⟨b', hb', hmulti⟩ := h.starts _ (mem_starts.mpr (List.mem_of_getElem? ht))
    obtain rfl : b = b' := Option.some.inj (hc.symm.trans hb')
    have hkind : b.kind ≠ .blocking := by rw [hmulti]; decide
    have hauth := (h.ok c b hc).auth hkind cfg
    exact (h.eraseTask i).setConn hc (by simp) (hauth.start (by simpa using hkind) queue slotIdx)
      (Or.inl fun h₁ h₂ => ⟨by simpa using h₁, by simpa using h₂⟩)
      fun hidle => absurd hidle (h.not_idle hc (Or.inl hkind))

theorem moves (h : s.ConnInv) (hmoves : Moves cfg g o s next) : next.ConnInv := by
  induction hmoves with
  | refl _ => exact h
  | tail _ hmove ih | take _ hmove ih => exact (ih h).move hmove
  | weaken _ ih => exact ih h

end ConnInv

/-! ### Steps are moves -/

variable {cfg : Config} {g : Grant} {o : Option Req} {s t u next : Session} {c : ℕ} {b b' : Backend}

namespace Moves

theorem single (h : Move cfg g s o next) : Moves cfg g o s next := by
  cases o with
  | none => exact (refl s).tail h
  | some req => exact (refl s).take h

theorem same (hlink : next.linkPart = s.linkPart) (hwaiting : next.waiting = s.waiting)
    (harrived : next.arrived = s.arrived) : Moves cfg g none s next :=
  single (.same hlink hwaiting harrived)

theorem trans (h : Moves cfg g none s t) (h' : Moves cfg g o t u) : Moves cfg g o s u := by
  induction h' with
  | refl _ => exact h
  | tail _ hmove ih => exact (ih h).tail hmove
  | take _ hmove ih => exact (ih h).take hmove
  | weaken _ ih => exact .weaken (ih h)

/-- A step from the state that the moves before lead to. -/
theorem andThen (h : Moves cfg g none s t) (hconn : s.ConnInv)
    (h' : t.ConnInv → Moves cfg g o t u) : Moves cfg g o s u :=
  h.trans (h' (hconn.moves h))

theorem forget {watch multi blocking : Option ℕ} (hwatch : watch = s.watchBackend ∨ watch = none)
    (hmulti : multi = s.multiBackend ∨ multi = none)
    (hblocking : blocking = s.blockingBackend ∨ blocking = none) :
    Moves cfg g none s
      { s with watchBackend := watch, multiBackend := multi, blockingBackend := blocking } :=
  single (.forget hwatch hmulti hblocking)

end Moves

theorem moves_fillResponseSlot (s : Session) (slotIdx : ℕ) (data : Bytes) :
    Moves cfg g none s (s.fillResponseSlot slotIdx data) := by
  refine .same ?_ rfl rfl
  simp only [linkPart, connPart, starts_fillResponseSlot]
  rfl

theorem moves_writeImmediate (s : Session) (data : Bytes) :
    Moves cfg g none s (s.writeImmediate data) := by
  unfold writeImmediate
  split
  · exact .same rfl rfl rfl
  have halloc : Moves cfg g none s s.allocResponseSlot := .same rfl rfl rfl
  exact halloc.trans (moves_fillResponseSlot _ _ _)

theorem moves_foldl_writeImmediate (s : Session) (data : List Bytes) :
    Moves cfg g none s (data.foldl writeImmediate s) := by
  induction data generalizing s with
  | nil => exact .refl s
  | cons d data ih => exact (moves_writeImmediate s d).trans (ih _)

/-- The close of a connection, with what was done to it just before. -/
theorem moves_closeAfter (hconn : s.ConnInv) (hc : s.conns c = some b) (hopen : b.isClosed = false)
    (hlast : Last g s c b b') : Moves cfg g none s ((s.setConn c b').onBackendClose c) := by
  have hopen' : b'.isClosed = false := by cases hlast <;> exact hopen
  have hclose : Moves cfg g none s ((s.setConn c { b' with isClosed := true }).forgetConn c) :=
    .single (.close hc hopen hlast)
  rcases (hconn.last hc hlast).onBackendClose_cases c with ⟨-, hall⟩ | ⟨b₀, hb₀, -, hcases⟩
  · cases hopen'.symm.trans (hall _ (setConn_self s c b'))
  obtain rfl : b₀ = b' := Option.some.inj (hb₀.symm.trans (setConn_self s c b'))
  rcases hcases with ⟨-, -, heq⟩ | ⟨-, heq⟩
  · rw [heq, setConn_setConn]
    exact hclose.trans (.same rfl rfl rfl)
  rw [heq, setConn_setConn]
  exact hclose

theorem moves_onBackendClose (hconn : s.ConnInv) (c : ℕ) :
    Moves cfg g none s (s.onBackendClose c) := by
  rcases hconn.onBackendClose_cases c with ⟨hsame, -⟩ | ⟨b, hc, hopen, -⟩
  · rw [hsame]
    exact .refl s
  have hclose : Moves cfg g none s ((s.setConn c b).onBackendClose c) :=
    moves_closeAfter hconn hc hopen .same
  rwa [setConn_of_some hc] at hclose

theorem moves_closeConn (hconn : s.ConnInv) (c : Option ℕ) :
    Moves cfg g none s (s.closeConn c) := by
  cases c with
  | none => exact .refl s
  | some c => exact moves_onBackendClose hconn c

theorem moves_dropWatch (hconn : s.ConnInv) : Moves cfg g none s s.dropWatch :=
  ((moves_closeConn hconn _).trans (.forget (Or.inr rfl) (Or.inl rfl) (Or.inl rfl))).trans
    (.same rfl rfl rfl)

theorem moves_dropMulti (hconn : s.ConnInv) : Moves cfg g none s s.dropMulti :=
  (moves_closeConn hconn _).trans (.forget (Or.inl rfl) (Or.inr rfl) (Or.inl rfl))

theorem moves_dropBlocking (hconn : s.ConnInv) : Moves cfg g none s s.dropBlocking :=
  (moves_closeConn hconn _).trans (.forget (Or.inl rfl) (Or.inl rfl) (Or.inr rfl))

theorem moves_resetClientState (hconn : s.ConnInv) : Moves cfg g none s s.resetClientState := by
  have hleave : Moves cfg g none s s.leaveMulti := .same rfl rfl rfl
  have hwatch := hleave.andThen hconn moves_dropWatch
  have hmulti := hwatch.andThen hconn moves_dropMulti
  exact (hmulti.andThen hconn moves_dropBlocking).trans (.single .unbuffer)

theorem moves_onClientClose (hconn : s.ConnInv) : Moves cfg g none s s.onClientClose := by
  have hwatch : Moves cfg g none s { s.closeConn s.watchBackend with watchBackend := none } :=
    (moves_closeConn hconn _).trans (.forget (Or.inr rfl) (Or.inl rfl) (Or.inl rfl))
  have hmulti := hwatch.andThen hconn moves_dropMulti
  exact (hmulti.andThen hconn moves_dropBlocking).trans (.same rfl rfl rfl)

/-! ### Plans -/

theorem moves_dialWatch (s : Session) (env : Env) (req : Req) (slotIdx : ℕ) (addr : Bytes) :
    Moves cfg g (some req) s (s.dialWatch env req slotIdx addr) := by
  let noted : Session :=
    { s with watchAddr := addr, pendingWatchReq := some req, pendingWatchSlot := slotIdx }
  have hnoted : Moves cfg g (some req) s noted :=
    (Moves.single (.noteWatch req)).tail (.same rfl rfl rfl)
  unfold dialWatch dialDedicatedBackend
  split
  · exact hnoted.tail (.same rfl rfl rfl)
  · exact hnoted.tail (.dialWatch addr)

theorem moves_startWatch (hconn : s.ConnInv) (env : Env) (req : Req) (addr : Bytes) :
    Moves cfg g (some req) s (s.startWatch env req addr) := by
  have halloc : Moves cfg g none s s.allocResponseSlot := .same rfl rfl rfl
  unfold startWatch
  split
  · rename_i c hwatch
    split
    · obtain ⟨b, hc, -⟩ := hconn.watch c hwatch
      rw [request_of_some (s := s.allocResponseSlot) hc]
      exact halloc.take (.watch (s := s.allocResponseSlot) hwatch hc req s.nextSlot)
    · exact (halloc.andThen hconn moves_dropWatch).trans (moves_dialWatch _ env req _ addr)
  · exact halloc.trans (moves_dialWatch _ env req _ addr)

theorem moves_handleUNWATCH (hconn : s.ConnInv) : Moves cfg g none s s.handleUNWATCH := by
  have hreply : ∀ {t : Session}, Moves cfg g none s t.dropWatch →
      Moves cfg g none s ({ t.dropWatch with state := .normal }.writeImmediate okReply) := by
    intro t hdrop
    have hstate : Moves cfg g none s { t.dropWatch with state := .normal } :=
      hdrop.trans (.same rfl rfl rfl)
    exact hstate.trans (moves_writeImmediate _ okReply)
  cases hwatch : s.watchBackend with
  | none =>
    simp only [handleUNWATCH, hwatch]
    exact hreply (moves_dropWatch hconn)
  | some c =>
    obtain ⟨b, hc, -, hopen, -⟩ := hconn.watch c hwatch
    have hclose : Moves cfg g none s
        ((s.setConn c (b.push .unwatch .ignore)).onBackendClose c) :=
      moves_closeAfter hconn hc hopen (.unwatch hwatch)
    have hdrop : Moves cfg g none s (s.setConn c (b.push .unwatch .ignore)).dropWatch := by
      have hsame : (s.setConn c (b.push .unwatch .ignore)).watchBackend = some c := hwatch
      unfold dropWatch
      rw [hsame]
      exact (hclose.trans (.forget (Or.inr rfl) (Or.inl rfl) (Or.inl rfl))).trans (.same rfl rfl rfl)
    simp only [handleUNWATCH, hwatch]
    rw [request_of_some hc]
    exact hreply hdrop

theorem moves_dialBlockingBackend (hconn : s.ConnInv) (env : Env) (addr : Bytes) (req : Req) :
    Moves cfg g (some req) s (s.dialBlockingBackend env addr req) := by
  have hshrink : Moves cfg g none s { s with idle := (s.takeIdle addr s.idle).2 } :=
    .single (.shrink addr)
  unfold dialBlockingBackend
  split
  · rename_i c idle heq
    have hsome : (s.takeIdle addr s.idle).1 = some c := by rw [heq]
    obtain ⟨b, hc, -⟩ := hconn.taken hsome
    have hreuse : Moves cfg g (some req) s { s.setConn c (b.reuse req) with
        idle := (s.takeIdle addr s.idle).2, blockingBackend := some c } :=
      .single (.reuse hsome hc req)
    rw [heq] at hreuse
    rwa [reuseBlockingConn_of_some (s := { s with idle }) hc]
  · rename_i idle heq
    rw [heq] at hshrink
    simp only
    split
    · exact .weaken (hshrink.trans (.same rfl rfl rfl))
    · exact hshrink.take (.dialBlocking addr req)

theorem moves_dialMultiBackend (s : Session) (env : Env) (addr : Bytes) {queue : List Req}
    (hqueue : g.queue queue) (slotIdx : ℕ) :
    Moves cfg g none s (s.dialMultiBackend env addr queue slotIdx) := by
  unfold dialMultiBackend
  split
  · exact moves_fillResponseSlot s slotIdx _
  · exact .single (.dialMulti addr hqueue slotIdx)

/-- Carrying out a plan takes up its request at most. -/
theorem moves_perform (hconn : s.ConnInv) (env : Env) (req : Req) {plan : Plan}
    (hchooses : s.Chooses req.body plan) (hqueue : s.Executes req.body → g.queue s.txQueue)
    (hreuse : ∀ c, plan = .execReuse c → g.reuse s c) :
    Moves cfg g (some req) s (s.perform env req plan) := by
  have hwrite : ∀ {t : Session} (data : Bytes), Moves cfg g none s t →
      Moves cfg g (some req) s (t.writeImmediate data) :=
    fun data ht => .weaken (ht.trans (moves_writeImmediate _ data))
  have hleave : Moves cfg g none s s.leaveMulti := .same rfl rfl rfl
  cases plan with
  | reply data => exact hwrite data (.refl s)
  | replies loc data =>
    have hloc : Moves cfg g none s { s with loc } := .same rfl rfl rfl
    exact .weaken (hloc.trans (moves_foldl_writeImmediate _ data))
  | buffer => exact .single (.buffer req)
  | reset => exact hwrite _ (moves_resetClientState hconn)
  | enterMulti state => exact hwrite okReply (.same rfl rfl rfl)
  | watch addr => exact moves_startWatch hconn env req addr
  | unwatch => exact .weaken (moves_handleUNWATCH hconn)
  | blocking addr =>
    have halloc : Moves cfg g none s { s.allocResponseSlot with
        state := .blocking, blockingSlotIdx := s.nextSlot } := .same rfl rfl rfl
    exact halloc.andThen hconn fun h => moves_dialBlockingBackend h env addr req
  | queue => exact hwrite _ (.same rfl rfl rfl)
  | queueError data => exact hwrite data (.same rfl rfl rfl)
  | execAbort =>
    have hwatch := hleave.andThen hconn moves_dropWatch
    exact hwrite _ (hwatch.andThen hconn moves_dropMulti)
  | execWatched c =>
    obtain ⟨b, hc, -⟩ := hconn.watch c hchooses.2.2
    have hexec : Moves cfg g none s _ :=
      .single (.execWatched hchooses.2.2 hc (hqueue hchooses.1) s.nextSlot)
    rw [perform, execOn_of_some (s := { s.leaveMulti with watchBackend := none, watchAddr := [] }) hc]
    exact .weaken (hexec.trans (.same rfl rfl rfl))
  | execError data => exact hwrite data hleave
  | execReuse c =>
    obtain ⟨b, hc, -⟩ := hconn.multi c hchooses.2.2.2
    have hexec : Moves cfg g none s _ :=
      .single (.execReuse hchooses.2.2.2 hc (hqueue hchooses.1) (hreuse c rfl) s.nextSlot)
    rw [perform, execOn_of_some (s := { s.leaveMulti with multiBackend := none }) hc]
    exact .weaken (hexec.trans (.same rfl rfl rfl))
  | execDial addr =>
    have halloc : Moves cfg g none s s.dropMulti.leaveMulti.allocResponseSlot :=
      (moves_dropMulti hconn).trans (.same rfl rfl rfl)
    exact .weaken (halloc.trans (moves_dialMultiBackend _ env addr (hqueue hchooses.1) _))
  | discard =>
    have hmulti : Moves cfg g none s s.dropWatch.dropMulti :=
      (moves_dropWatch hconn).andThen hconn moves_dropMulti
    exact hwrite okReply (hmulti.trans (.same rfl rfl rfl))
  | _ => exact .weaken (Moves.same rfl rfl rfl)

/-! ### Replies, dials and tasks -/

/-- The end of a blocking command, whose connection goes to the pool if there is room. -/
theorem moves_finishBlocking (hconn : s.ConnInv) (hc : s.conns c = some b)
    (hlive : b.isClosed = false ∧ b.own = true) (hpending : b.pending = [.blocking req])
    (hreply : g.reply c b) (v : Value) :
    Moves cfg g none s ((s.setConn c { b with pending := [] }).finishBlocking c v) := by
  let freed : Session := { s.fillResponseSlotInLoop s.blockingSlotIdx (encodeValue v) with
    state := .normal, blockingBackend := none }
  have hfilled : Moves cfg g none s
      { s.fillResponseSlotInLoop s.blockingSlotIdx (encodeValue v) with state := .normal } :=
    .same rfl rfl rfl
  have hfreed : Moves cfg g none s freed :=
    hfilled.trans (.forget (Or.inl rfl) (Or.inl rfl) (Or.inr rfl))
  have hclose : Moves cfg g none s ((freed.setConn c { b with pending := [] }).onBackendClose c) :=
    hfreed.andThen hconn fun h => moves_closeAfter h hc hlive.1 (.pop hpending hreply)
  have hreturn : Moves cfg g none s
      ((freed.setConn c { b with pending := [] }).returnBlockingConn c) := by
    unfold returnBlockingConn
    rw [setConn_self]
    simp only
    split
    · exact hclose
    split
    · exact hfilled.trans (.single (.release hc hlive hpending hreply))
    · exact hclose
  exact hreturn.trans (.same rfl rfl rfl)

theorem moves_handleBlockingResponse (hconn : s.ConnInv) (hc : s.conns c = some b)
    (hlive : b.isClosed = false ∧ b.own = true) (hpending : b.pending = [.blocking req])
    (hreply : g.reply c b) (env : Env) (v : Value) :
    Moves cfg g ((Callback.blocking req).follows v) s
      ((s.setConn c { b with pending := [] }).handleBlockingResponse env c v req) := by
  unfold handleBlockingResponse
  split
  · rename_i hmoved
    cases haddr : redirectionAddr v with
    | none => exact .weaken (moves_finishBlocking hconn hc hlive hpending hreply v)
    | some newAddr =>
      have hforget : Moves cfg g none s { s with blockingBackend := none } :=
        .forget (Or.inl rfl) (Or.inl rfl) (Or.inr rfl)
      have hclose := hforget.andThen hconn fun h =>
        moves_closeAfter h hc hlive.1 (.pop hpending hreply)
      have hfollows : (Callback.blocking req).follows v = some req := by
        simp [Callback.follows, hmoved, haddr]
      rw [hfollows]
      exact hclose.andThen hconn fun h => moves_dialBlockingBackend h env newAddr req
  · exact .weaken (moves_finishBlocking hconn hc hlive hpending hreply v)

/-- A callback takes up its request again if it follows a redirection. -/
theorem moves_respond (hconn : s.ConnInv) (hc : s.conns c = some b)
    (hlive : b.isClosed = false ∧ b.own = true) (hpending : b.pending = cb :: rest)
    (hreply : g.reply c b) (env : Env) (v : Value) :
    Moves cfg g (cb.follows v) s ((s.setConn c { b with pending := rest }).respond env c v cb) := by
  have hpop : cb.isTx = false → Moves cfg g none s (s.setConn c { b with pending := rest }) :=
    fun hcb => .single (.pop hc hlive hpending hcb hreply)
  have hclose : Moves cfg g none s ((s.setConn c { b with pending := rest }).onBackendClose c) :=
    moves_closeAfter hconn hc hlive.1 (.pop hpending hreply)
  have hauth : cb.isTx = false →
      Moves cfg g none s ((s.setConn c { b with pending := rest }).respondAuth v) := by
    intro hcb
    unfold respondAuth
    split
    · exact (hpop hcb).trans (.same rfl rfl rfl)
    · exact hpop hcb
  cases cb with
  | watchFirst req slotIdx =>
    simp only [respond]
    split
    · rename_i hmoved
      have hforget := (hpop rfl).trans (.forget (Or.inr rfl) (Or.inl rfl) (Or.inl rfl))
      have hfollows : (Callback.watchFirst req slotIdx).follows v = some req := if_pos hmoved
      rw [hfollows]
      exact hforget.trans (moves_dialWatch _ env req slotIdx _)
    · exact .weaken ((hpop rfl).trans (.same rfl rfl rfl))
  | watchReuse slotIdx => exact (hpop rfl).trans (.same rfl rfl rfl)
  | ignore => exact hpop rfl
  | auth => exact hauth rfl
  | authThenBlocking req =>
    simp only [respond]
    split
    · exact hauth rfl
    rename_i herror
    have hsame : (s.setConn c { b with pending := rest }).respondAuth v =
        s.setConn c { b with pending := rest } := if_neg herror
    rw [hsame, request_of_some (setConn_self _ _ _), setConn_setConn]
    exact .single (.sendBlocking hc hlive hpending hreply)
  | blocking req =>
    obtain ⟨-, rfl⟩ := hconn.rest_nil hc hpending rfl
    exact moves_handleBlockingResponse hconn hc hlive hpending hreply env v
  | multiStart queue slotIdx =>
    simp only [respond]
    split
    · exact hclose.trans (.same rfl rfl rfl)
    rw [sendQueue_of_some (setConn_self _ _ _), setConn_setConn]
    exact .single (.sendQueue hc hlive hpending hreply)
  | execDone slotIdx => exact hclose.trans (.same rfl rfl rfl)

theorem moves_onBackendValue (hconn : s.ConnInv) (env : Env) {c : ℕ} (v : Value)
    (hreply : ∀ b, s.conns c = some b → g.reply c b) :
    Moves cfg g ((s.nextCallback c).bind (Callback.follows v)) s (s.onBackendValue env c v) := by
  unfold onBackendValue nextCallback
  cases hc : s.conns c with
  | none => exact .refl s
  | some b =>
    simp only
    split
    · exact .refl s
    rename_i hdead
    have hlive : b.isClosed = false ∧ b.own = true := by simpa using hdead
    cases hpending : b.pending with
    | nil => exact .refl s
    | cons cb rest => exact moves_respond hconn hc hlive hpending (hreply b hc) env v

theorem moves_onBackendOpen {d : Dial} (hd : s.dials[i]? = some d) :
    Moves cfg g none s ({ s with dials := s.dials.eraseIdx i }.onBackendOpen cfg d) := by
  cases d with
  | watch addr =>
    rw [onBackendOpen_watch]
    exact .single (.openWatch hd)
  | multi addr queue slotIdx => exact .single (.openMulti hd)
  | blocking addr req =>
    rw [onBackendOpen_blocking]
    exact .single (.openBlocking hd)

theorem moves_onDialFailed (s : Session) (i : ℕ) (err : Bytes) (d : Dial) :
    Moves cfg g none s ({ s with dials := s.dials.eraseIdx i }.onDialFailed err d) := by
  have hdial : Moves cfg g none s { s with dials := s.dials.eraseIdx i } := .single (.dialFailed i)
  cases d with
  | watch addr | multi addr queue slotIdx => exact hdial.trans (.same rfl rfl rfl)
  | blocking addr req =>
    exact (hdial.trans (.forget (Or.inl rfl) (Or.inl rfl) (Or.inr rfl))).trans (.same rfl rfl rfl)

/-- A task that starts no transaction ends. -/
theorem starts_erase_fill {slotIdx : ℕ} {data : Bytes}
    (ht : s.tasks[i]? = some (.fill slotIdx data)) :
    ({ s with tasks := s.tasks.eraseIdx i } : Session).starts = s.starts := by
  obtain ⟨hlt, hget⟩ := List.getElem?_eq_some_iff.mp ht
  have hsplit : s.tasks = s.tasks.take i ++ .fill slotIdx data :: s.tasks.drop (i + 1) := by
    rw [← hget, List.getElem_cons_drop, List.take_append_drop]
  rw [Session.starts, Session.starts, List.eraseIdx_eq_take_drop_succ, List.filterMap_append]
  conv_rhs => rw [hsplit, List.filterMap_append, List.filterMap_cons]

theorem moves_runTask (hconn : s.ConnInv) {task : Task} (ht : s.tasks[i]? = some task) :
    Moves cfg g none s ({ s with tasks := s.tasks.eraseIdx i }.runTask cfg task) := by
  cases task with
  | fill slotIdx data =>
    have herase : Moves cfg g none s { s with tasks := s.tasks.eraseIdx i } := by
      refine .same ?_ rfl rfl
      simp only [linkPart, connPart, starts_erase_fill ht]
    exact herase.trans (.same rfl rfl rfl)
  | startMulti c queue slotIdx =>
    obtain ⟨b, hc, -⟩ := hconn.starts _ (mem_starts.mpr (List.mem_of_getElem? ht))
    rw [startMulti_of_some (s := { s with tasks := s.tasks.eraseIdx i }) hc]
    exact .single (.startMulti ht hc)

theorem moves_loseIdle (hconn : s.ConnInv) (hlose : g.lose) (addr : Bytes) :
    Moves cfg g none s (s.loseIdle (s.takeIdle addr s.idle)) := by
  unfold loseIdle
  split
  · exact .single (.shrink addr)
  rename_i c hsome
  obtain ⟨b, hc, -⟩ := hconn.taken hsome
  rw [hc]
  exact .single (.lose hlose hsome hc)

/-! ### Events -/

/-- What an event may use. -/
def grant (cfg : Config) (s : Session) (e : SessionEvent) : Grant where
  queue queue := ∃ t env req, s.dispatched e = some (t, env, req) ∧ req.body.args ≠ [] ∧
    t.Executes req.body ∧ queue = t.txQueue
  reuse t c := ∃ env req, s.dispatched e = some (t, env, req) ∧
    dispatchClientRequest cfg env t req.body = .execReuse c
  adopt c := s.draining = [] ∧ (∃ addr, e = .idleReturned addr) ∧ c = s.nextConn
  lose := ∃ addr, e = .idleTaken addr
  reply c b := s.conns c = some b ∧ ∃ env v, e = .value env c v

theorem moves_dispatch {env : Env} (hconn : t.ConnInv)
    (hsome : s.dispatched e = some (t, env, req)) :
    Moves cfg (s.grant cfg e) (some req) t (t.dispatch cfg env req) := by
  by_cases hargs : req.body.args = []
  · unfold dispatch dispatchClientRequest
    rw [if_pos hargs]
    exact .weaken (Moves.same rfl rfl rfl)
  exact moves_perform hconn env req (chooses_dispatchClientRequest cfg env t req.body)
    (fun hexec => ⟨t, env, req, hsome, hargs, hexec, rfl⟩)
    fun c hplan => ⟨env, req, hsome, hplan⟩

/-- The callback that an event gives a reply to. -/
def repliesTo (s : Session) : SessionEvent → Option (Callback × Value)
  | .value _ c v =>
    if s.dead || s.draining ≠ [] then none else (s.nextCallback c).map fun cb => (cb, v)
  | _ => none

/-- The request that is sent again because of an event. -/
def resent (s : Session) (e : SessionEvent) : Option Req :=
  (s.repliesTo e).bind fun reply => reply.1.follows reply.2

/-- An event that dispatches nothing. -/
theorem moves_onEvent (hconn : s.ConnInv) (he : e.dispatches = false) (hlive : s.dead = false)
    (hdraining : s.draining = []) : Moves cfg (s.grant cfg e) (s.resent e) s (s.onEvent cfg e) := by
  cases e with
  | request env req | protocolError err | drain env => cases he
  | clientClosed => exact moves_onClientClose hconn
  | opened i =>
    simp only [onEvent]
    split
    · exact .refl s
    rename_i d hd
    exact moves_onBackendOpen hd
  | dialFailed i err =>
    simp only [onEvent]
    split
    · exact .refl s
    · exact moves_onDialFailed s i err _
  | value env c v =>
    have hresent : s.resent (.value env c v) = (s.nextCallback c).bind (Callback.follows v) := by
      simp only [resent, repliesTo, hlive, hdraining]
      cases s.nextCallback c <;> rfl
    rw [hresent]
    exact moves_onBackendValue hconn env v fun b hc => ⟨hc, env, v, rfl⟩
  | lost c => exact moves_onBackendClose hconn c
  | task i =>
    simp only [onEvent]
    split
    · exact .refl s
    rename_i task ht
    exact moves_runTask hconn ht
  | routerDone i data =>
    simp only [onEvent]
    split
    · exact .refl s
    have herase : Moves cfg (s.grant cfg (.routerDone i data)) none s
        { s with router := s.router.eraseIdx i } := .same rfl rfl rfl
    exact herase.trans (moves_fillResponseSlot _ _ _)
  | muxReply i data =>
    simp only [onEvent, onMuxReply]
    split
    · exact .refl s
    · split <;> exact .same rfl rfl rfl
  | muxFailed i err =>
    simp only [onEvent]
    split
    · exact .refl s
    have herase : Moves cfg (s.grant cfg (.muxFailed i err)) none s
        { s with mux := s.mux.eraseIdx i } := .same rfl rfl rfl
    exact herase.trans (moves_fillResponseSlot _ _ _)
  | idleTaken addr =>
    have hlose : (s.grant cfg (.idleTaken addr)).lose := ⟨addr, rfl⟩
    exact moves_loseIdle hconn hlose addr
  | idleReturned addr => exact .single (.adopt addr ⟨hdraining, ⟨addr, rfl⟩, rfl⟩)
  | _ => exact .same rfl rfl rfl

/-- What every move keeps, an event keeps. -/
theorem keeps_exec {P : Session → Prop}
    (hcongr : ∀ {s next : Session}, next.linkPart = s.linkPart → P s → P next)
    (hmove : ∀ {o : Option Req} {t next : Session}, t.ConnInv → P t →
      Move cfg (s.grant cfg e) t o next → P next) (hconn : s.ConnInv) (h : P s) :
    (s.exec cfg e).ConnInv ∧ P (s.exec cfg e) := by
  have hmoves : ∀ {o : Option Req} {t next : Session}, Moves cfg (s.grant cfg e) o t next →
      t.ConnInv ∧ P t → next.ConnInv ∧ P next := by
    intro o t next hmoves ht
    induction hmoves with
    | refl _ => exact ht
    | tail _ h ih | take _ h ih => exact ⟨(ih ht).1.move h, hmove (ih ht).1 (ih ht).2 h⟩
    | weaken _ ih => exact ih ht
  have hsame : ∀ {t next : Session}, t.ConnInv ∧ P t → next.linkPart = t.linkPart →
      next.ConnInv ∧ P next :=
    fun ht hlink => ⟨ht.1.congr (congrArg Prod.fst hlink), hcongr hlink ht.2⟩
  have hdispatch : ∀ {t : Session} {env : Env} {req : Req}, s.dispatched e = some (t, env, req) →
      (t.dispatch cfg env req).ConnInv ∧ P (t.dispatch cfg env req) := by
    intro t env req hsome
    have ht : t.ConnInv ∧ P t := by
      obtain ⟨serving, arrived, draining, rfl⟩ := dispatched_served hsome
      exact hsame ⟨hconn, h⟩ rfl
    exact hmoves (moves_dispatch ht.1 hsome) ht
  by_cases hdead : s.dead = true
  · rw [exec_of_dead hdead]
    exact ⟨hconn, h⟩
  have heffect := effect_exec cfg s e
  generalize s.exec cfg e = next at heffect ⊢
  cases heffect with
  | none _ => exact ⟨hconn, h⟩
  | dispatch hsome _ => exact hdispatch hsome
  | quit hsome _ => exact hmoves (moves_onClientClose (hdispatch hsome).1) (hdispatch hsome)
  | stop hsome _ => exact hsame (hdispatch hsome) rfl
  | @protocolError err _ _ _ =>
    refine hmoves (moves_onClientClose ?_) ?_
    · exact hconn.congr rfl
    · exact hsame ⟨hconn, h⟩ rfl
  | other _ he hdraining =>
    exact hmoves (moves_onEvent hconn he (by simpa using hdead) hdraining) ⟨hconn, h⟩

theorem ConnInv.exec (h : s.ConnInv) (cfg : Config) (e : SessionEvent) : (s.exec cfg e).ConnInv :=
  (keeps_exec (P := fun _ => True) (fun _ _ => trivial) (fun _ _ _ => trivial) h trivial).1

/-- In every run the connections in use for WATCH, MULTI and blocking commands are open, of their
kinds and the client's own, and an idle one is idle once, awaits no reply and is not in use. -/
theorem dedicated_connections_consistent (cfg : Config) (policy : GrowthPolicy)
    (events : List SessionEvent) :
    (Runs.run (Session.exec cfg) (new cfg policy) events).ConnInv :=
  Runs.run_invariant (fun _ e h => h.exec cfg e) (connInv_new cfg policy) events

end Session

end Pluster.Engine
