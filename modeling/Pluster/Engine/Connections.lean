import Pluster.Engine.SessionRuns
import Pluster.Engine.Plans

/-!
# The dedicated connections of a session

What holds of the connections in every run, whatever the requests and the replies:
the connections the client refers to are open and of the right kind, the callbacks on
a connection fit its kind, a blocking connection waits for one reply at most, and an
idle one waits for none.
-/

namespace Pluster.Engine

open Proto GoStrings GoRuntime

variable {b : Backend} {cb : Callback} {kind : ConnKind} {rest : List Callback} {c : ℕ}
  {s : Session} {addr : Bytes} {idle : List (Bytes × ℕ)}

/-- The callbacks that occur on a kind of connection. -/
def ConnKind.allows : ConnKind → Callback → Bool
  | .watch, .authThenBlocking _ | .watch, .blocking _ => false
  | .watch, _ => true
  | .multi, .auth | .multi, .ignore | .multi, .multiStart _ _ | .multi, .execDone _ => true
  | .multi, _ => false
  | .blocking, .authThenBlocking _ | .blocking, .blocking _ => true
  | .blocking, _ => false

/-- The reply to MULTI or to EXEC. -/
def Callback.isTx : Callback → Bool
  | .multiStart _ _ | .execDone _ => true
  | _ => false

namespace Backend

/-- A connection with one more command. -/
def push (b : Backend) (cmd : WireCmd) (cb : Callback) : Backend :=
  { b with
    pending := b.pending ++ [cb]
    wire := if b.isClosed then b.wire else b.wire ++ [cmd] }

/-- A connection with an AUTH, if there is a password. -/
def auth (b : Backend) (cfg : Config) : Backend :=
  if cfg.password = [] then b else b.push .auth .auth

/-- A connection with the commands of a transaction and EXEC. -/
def pushQueue (b : Backend) (queue : List Req) (slotIdx : ℕ) : Backend :=
  (queue.foldl (fun b req => b.push (.queued req) .ignore) b).push .exec (.execDone slotIdx)

/-- A connection of the pool with a blocking command. -/
def reuse (b : Backend) (req : Req) : Backend :=
  ({ b with own := true, pending := [] } : Backend).push (.blocking req) (.blocking req)

/-- The callbacks of a connection fit its kind. -/
structure Ok (b : Backend) : Prop where
  allows : ∀ cb ∈ b.pending, b.kind.allows cb = true
  single : b.kind = .blocking → b.pending.length ≤ 1
  foreign : b.own = false → b.kind = .blocking ∧ b.pending = []

@[simp] theorem push_kind (b : Backend) (cmd : WireCmd) (cb : Callback) :
    (b.push cmd cb).kind = b.kind := rfl

@[simp] theorem push_isClosed (b : Backend) (cmd : WireCmd) (cb : Callback) :
    (b.push cmd cb).isClosed = b.isClosed := rfl

@[simp] theorem push_own (b : Backend) (cmd : WireCmd) (cb : Callback) :
    (b.push cmd cb).own = b.own := rfl

theorem Ok.push (h : b.Ok) (hallows : b.kind.allows cb = true) (hkind : b.kind ≠ .blocking)
    (cmd : WireCmd) : (b.push cmd cb).Ok where
  allows cb' hcb' := by
    rcases List.mem_append.mp hcb' with hcb' | hcb'
    · exact h.allows cb' hcb'
    rw [List.mem_singleton.mp hcb']
    exact hallows
  single hblocking := absurd hblocking hkind
  foreign hforeign := absurd (h.foreign hforeign).1 hkind

/-- The only command that a blocking connection waits for. -/
theorem ok_push_of_nil (hpending : b.pending = []) (hallows : b.kind.allows cb = true)
    (hown : b.own = true) (cmd : WireCmd) : (b.push cmd cb).Ok where
  allows cb' hcb' := by
    simp only [Backend.push, hpending, List.nil_append, List.mem_singleton] at hcb'
    rw [hcb']
    exact hallows
  single _ := by simp [Backend.push, hpending]
  foreign hforeign := by
    rw [push_own, hown] at hforeign
    cases hforeign

private theorem allows_of_ne_blocking (hkind : kind ≠ .blocking)
    (hcb : cb = .auth ∨ cb = .ignore ∨ (∃ queue slotIdx, cb = .multiStart queue slotIdx) ∨
      ∃ slotIdx, cb = .execDone slotIdx) : kind.allows cb = true := by
  cases kind with
  | blocking => exact absurd rfl hkind
  | _ => rcases hcb with rfl | rfl | ⟨queue, slotIdx, rfl⟩ | ⟨slotIdx, rfl⟩ <;> rfl

@[simp] theorem auth_kind (b : Backend) (cfg : Config) : (b.auth cfg).kind = b.kind := by
  unfold auth
  split <;> rfl

@[simp] theorem auth_isClosed (b : Backend) (cfg : Config) :
    (b.auth cfg).isClosed = b.isClosed := by
  unfold auth
  split <;> rfl

@[simp] theorem auth_own (b : Backend) (cfg : Config) : (b.auth cfg).own = b.own := by
  unfold auth
  split <;> rfl

theorem Ok.auth (h : b.Ok) (hkind : b.kind ≠ .blocking) (cfg : Config) : (b.auth cfg).Ok := by
  unfold Backend.auth
  split
  · exact h
  · exact h.push (allows_of_ne_blocking hkind (Or.inl rfl)) hkind _

theorem Ok.start (h : b.Ok) (hkind : b.kind ≠ .blocking) (queue : List Req) (slotIdx : ℕ) :
    (b.push .multi (.multiStart queue slotIdx)).Ok :=
  h.push (allows_of_ne_blocking hkind (Or.inr (Or.inr (Or.inl ⟨queue, slotIdx, rfl⟩)))) hkind _

/-- What a transaction leaves of a connection, by induction on its queue. -/
theorem pushQueue_fields (b : Backend) (queue : List Req) (slotIdx : ℕ) :
    (b.pushQueue queue slotIdx).kind = b.kind ∧
      (b.pushQueue queue slotIdx).isClosed = b.isClosed ∧
      (b.pushQueue queue slotIdx).own = b.own := by
  unfold pushQueue
  induction queue generalizing b with
  | nil => exact ⟨rfl, rfl, rfl⟩
  | cons req queue ih =>
    rw [List.foldl_cons]
    exact ih _

theorem Ok.pushQueue (h : b.Ok) (hkind : b.kind ≠ .blocking) (queue : List Req) (slotIdx : ℕ) :
    (b.pushQueue queue slotIdx).Ok := by
  unfold Backend.pushQueue
  induction queue generalizing b with
  | nil =>
    exact h.push (allows_of_ne_blocking hkind (Or.inr (Or.inr (Or.inr ⟨slotIdx, rfl⟩)))) hkind _
  | cons req queue ih =>
    rw [List.foldl_cons]
    exact ih (h.push (allows_of_ne_blocking hkind (Or.inr (Or.inl rfl))) hkind _) hkind

theorem ok_reuse (hkind : b.kind = .blocking) (req : Req) : (b.reuse req).Ok :=
  ok_push_of_nil rfl (by rw [hkind]; rfl) rfl _

theorem ok_new (kind : ConnKind) (addr : Bytes) : ({ kind, addr } : Backend).Ok :=
  ⟨by simp, by simp, by simp⟩

theorem Ok.pop (h : b.Ok) (hpending : b.pending = cb :: rest) :
    ({ b with pending := rest } : Backend).Ok where
  allows cb' hcb' := h.allows cb' (by rw [hpending]; exact List.mem_cons_of_mem _ hcb')
  single hkind := by
    have hle := h.single hkind
    rw [hpending, List.length_cons] at hle
    exact Nat.le_of_succ_le hle
  foreign hforeign := by
    have hnil := (h.foreign hforeign).2
    rw [hpending] at hnil
    cases hnil

end Backend

namespace Session

/-- A connection that is open and belongs to the client. -/
def Live (s : Session) (kind : ConnKind) (c : ℕ) : Prop :=
  ∃ b, s.conns c = some b ∧ b.kind = kind ∧ b.isClosed = false ∧ b.own = true

@[simp] theorem setConn_self (s : Session) (c : ℕ) (b : Backend) :
    (s.setConn c b).conns c = some b := by
  simp [setConn]

theorem setConn_of_ne (s : Session) {d : ℕ} (b : Backend) (hd : d ≠ c) :
    (s.setConn c b).conns d = s.conns d := by
  simp [setConn, hd]

/-- The client does not refer to a connection. -/
def Unreferenced (s : Session) (c : ℕ) : Prop :=
  s.watchBackend ≠ some c ∧ s.multiBackend ≠ some c ∧ s.blockingBackend ≠ some c

/-- The transactions that tasks are about to start, with their connections and slots. -/
def starts (s : Session) : List (ℕ × List Req × ℕ) :=
  s.tasks.filterMap fun
    | .startMulti c queue slotIdx => some (c, queue, slotIdx)
    | .fill _ _ => none

/-- The callback that the next value of a connection completes. -/
def nextCallback (s : Session) (c : ℕ) : Option Callback :=
  match s.conns c with
  | some b => if b.isClosed || !b.own then none else b.pending.head?
  | none => none

theorem mem_starts {queue : List Req} {slotIdx : ℕ} :
    (c, queue, slotIdx) ∈ s.starts ↔ Task.startMulti c queue slotIdx ∈ s.tasks := by
  simp only [starts, List.mem_filterMap]
  constructor
  · rintro ⟨t, ht, heq⟩
    cases t with
    | fill slotIdx data => cases heq
    | startMulti c' queue' slotIdx' =>
      simp only [Option.some.injEq, Prod.mk.injEq] at heq
      obtain ⟨rfl, rfl, rfl⟩ := heq
      exact ht
  · intro h
    exact ⟨_, h, rfl⟩

/-- The fields that the invariant of the connections is about. -/
def connPart (s : Session) : (ℕ → Option Backend) × ℕ × Option ℕ × Option ℕ × Option ℕ ×
    List (Bytes × ℕ) × List (ℕ × List Req × ℕ) :=
  (s.conns, s.nextConn, s.watchBackend, s.multiBackend, s.blockingBackend, s.idle, s.starts)

/-- What holds of the connections in every run. -/
structure ConnInv (s : Session) : Prop where
  fresh : ∀ c, s.nextConn ≤ c → s.conns c = none
  ok : ∀ c b, s.conns c = some b → b.Ok
  watch : ∀ c, s.watchBackend = some c → s.Live .watch c
  multi : ∀ c, s.multiBackend = some c → s.Live .multi c
  blocking : ∀ c, s.blockingBackend = some c → s.Live .blocking c
  idle : ∀ entry ∈ s.idle, s.blockingBackend ≠ some entry.2 ∧
    ∃ b, s.conns entry.2 = some b ∧ b.kind = .blocking ∧ b.pending = []
  nodup : (s.idle.map Prod.snd).Nodup
  starts : ∀ start ∈ s.starts, ∃ b, s.conns start.1 = some b ∧ b.kind = .multi

namespace ConnInv

/-- A change of other fields. -/
theorem congr {s next : Session} (h : s.ConnInv) (hsame : next.connPart = s.connPart) :
    next.ConnInv := by
  simp only [connPart, Prod.mk.injEq] at hsame
  obtain ⟨hconns, hnext, hwatch, hmulti, hblocking, hidle, hstarts⟩ := hsame
  have hlive : ∀ kind c, s.Live kind c → next.Live kind c := by
    intro kind c hlive
    simpa only [Live, hconns] using hlive
  refine ⟨?_, ?_, ?_, ?_, ?_, ?_, ?_, ?_⟩
  · rw [hnext, hconns]
    exact h.fresh
  · rw [hconns]
    exact h.ok
  · rw [hwatch]
    exact fun c hc => hlive _ c (h.watch c hc)
  · rw [hmulti]
    exact fun c hc => hlive _ c (h.multi c hc)
  · rw [hblocking]
    exact fun c hc => hlive _ c (h.blocking c hc)
  · rw [hidle, hblocking, hconns]
    exact h.idle
  · rw [hidle]
    exact h.nodup
  rw [hstarts, hconns]
  exact h.starts

variable {s : Session} {c : ℕ} {b b' : Backend}

/-- No connection that the client refers to is idle. -/
theorem not_idle (h : s.ConnInv) (hc : s.conns c = some b)
    (hb : b.kind ≠ .blocking ∨ b.pending ≠ [] ∨ s.blockingBackend = some c) :
    c ∉ s.idle.map Prod.snd := by
  intro hmem
  obtain ⟨entry, hentry, rfl⟩ := List.mem_map.mp hmem
  obtain ⟨hne, b', hb', hkind, hpending⟩ := h.idle entry hentry
  rw [hc, Option.some.injEq] at hb'
  subst hb'
  rcases hb with hb | hb | hb
  · exact hb hkind
  · exact hb hpending
  · exact hne hb

/-- Forgetting connections of the client without closing them. -/
theorem forget (h : s.ConnInv) {watch multi blocking : Option ℕ}
    (hwatch : watch = s.watchBackend ∨ watch = none)
    (hmulti : multi = s.multiBackend ∨ multi = none)
    (hblocking : blocking = s.blockingBackend ∨ blocking = none) :
    ({ s with watchBackend := watch, multiBackend := multi,
              blockingBackend := blocking } : Session).ConnInv := by
  have hkept : ∀ (o o' : Option ℕ) c, (o = o' ∨ o = none) → o = some c → o' = some c := by
    rintro o o' c (rfl | rfl) ho
    · exact ho
    · cases ho
  refine ⟨h.fresh, h.ok, fun c hc => ?_, fun c hc => ?_, fun c hc => ?_, fun entry hentry => ?_,
    h.nodup, h.starts⟩
  · exact h.watch c (hkept _ _ c hwatch hc)
  · exact h.multi c (hkept _ _ c hmulti hc)
  · exact h.blocking c (hkept _ _ c hblocking hc)
  obtain ⟨hne, hrest⟩ := h.idle entry hentry
  exact ⟨fun heq => hne (hkept _ _ _ hblocking heq), hrest⟩

/-- A connection is replaced by one of the same kind. It stays open and owned, or the client
does not refer to it. -/
theorem setConn (h : s.ConnInv) (hc : s.conns c = some b) (hkind : b'.kind = b.kind) (hok : b'.Ok)
    (hlive : (b.isClosed = false → b.own = true → b'.isClosed = false ∧ b'.own = true) ∨
      s.Unreferenced c)
    (hidle : c ∈ s.idle.map Prod.snd → b'.pending = []) : (s.setConn c b').ConnInv := by
  have hself := setConn_self s c b'
  have hother : ∀ d, d ≠ c → (s.setConn c b').conns d = s.conns d := fun d hd =>
    setConn_of_ne s b' hd
  have hkept : ∀ kind d, s.Live kind d → ¬ (d = c ∧ s.Unreferenced c) →
      (s.setConn c b').Live kind d := by
    rintro kind d ⟨b₀, hb₀, hkind₀, hclosed₀, hown₀⟩ href
    by_cases hd : d = c
    · subst hd
      rw [hc, Option.some.injEq] at hb₀
      subst hb₀
      obtain ⟨hclosed, hown⟩ := (hlive.resolve_right fun hun => href ⟨rfl, hun⟩) hclosed₀ hown₀
      exact ⟨b', hself, hkind.trans hkind₀, hclosed, hown⟩
    · exact ⟨b₀, (hother d hd).trans hb₀, hkind₀, hclosed₀, hown₀⟩
  refine ⟨fun d hd => ?_, fun d b₀ hb₀ => ?_, fun d hd => ?_, fun d hd => ?_, fun d hd => ?_,
    fun entry hentry => ?_, h.nodup, fun start hstart => ?_⟩
  · have hne : d ≠ c := by
      rintro rfl
      rw [h.fresh d hd] at hc
      cases hc
    exact (hother d hne).trans (h.fresh d hd)
  · by_cases hd : d = c
    · subst hd
      rwa [← Option.some.inj (hself.symm.trans hb₀)]
    · exact h.ok d b₀ ((hother d hd).symm.trans hb₀)
  · exact hkept _ d (h.watch d hd) fun hun => hun.2.1 (hun.1 ▸ hd)
  · exact hkept _ d (h.multi d hd) fun hun => hun.2.2.1 (hun.1 ▸ hd)
  · exact hkept _ d (h.blocking d hd) fun hun => hun.2.2.2 (hun.1 ▸ hd)
  · obtain ⟨hblocking, b₀, hb₀, hkind₀, hpending₀⟩ := h.idle entry hentry
    refine ⟨hblocking, ?_⟩
    by_cases hd : entry.2 = c
    · rw [hd, hc, Option.some.injEq] at hb₀
      subst hb₀
      exact ⟨b', hd ▸ hself, hkind.trans hkind₀, hidle (hd ▸ List.mem_map_of_mem hentry)⟩
    · exact ⟨b₀, (hother _ hd).trans hb₀, hkind₀, hpending₀⟩
  · obtain ⟨b₀, hb₀, hkind₀⟩ := h.starts start hstart
    by_cases hd : start.1 = c
    · rw [hd, hc, Option.some.injEq] at hb₀
      subst hb₀
      exact ⟨b', hd ▸ hself, hkind.trans hkind₀⟩
    · exact ⟨b₀, (hother _ hd).trans hb₀, hkind₀⟩

end ConnInv

theorem request_of_some (hc : s.conns c = some b) (cmd : WireCmd) (cb : Callback) :
    s.request c cmd cb = s.setConn c (b.push cmd cb) := by
  simp only [request, hc]
  rfl

theorem request_of_none (hc : s.conns c = none) (cmd : WireCmd) (cb : Callback) :
    s.request c cmd cb = s := by
  simp only [request, hc]

/-! ### One change of one connection

Each step changes one connection at most. The equations here say how. -/

@[simp] theorem setConn_setConn (s : Session) (c : ℕ) (b b' : Backend) :
    (s.setConn c b).setConn c b' = s.setConn c b' := by
  simp [setConn]

theorem setConn_of_some (hc : s.conns c = some b) : s.setConn c b = s := by
  rw [setConn, ← hc, Function.update_eq_self]

theorem authDedicatedConn_of_some (hc : s.conns c = some b) (cfg : Config) :
    s.authDedicatedConn cfg c = s.setConn c (b.auth cfg) := by
  unfold authDedicatedConn Backend.auth
  split
  · exact (setConn_of_some hc).symm
  · exact request_of_some hc _ _

theorem startMulti_of_some (hc : s.conns c = some b) (cfg : Config) (queue : List Req)
    (slotIdx : ℕ) :
    s.runTask cfg (.startMulti c queue slotIdx) =
      s.setConn c ((b.auth cfg).push .multi (.multiStart queue slotIdx)) := by
  rw [runTask, authDedicatedConn_of_some hc, request_of_some (setConn_self _ _ _), setConn_setConn]

theorem sendQueue_of_some (hc : s.conns c = some b) (queue : List Req) (slotIdx : ℕ) :
    s.sendQueue c queue slotIdx = s.setConn c (b.pushQueue queue slotIdx) := by
  unfold sendQueue Backend.pushQueue
  induction queue generalizing s b with
  | nil => exact request_of_some hc _ _
  | cons req queue ih =>
    rw [List.foldl_cons, List.foldl_cons, request_of_some hc, ih (setConn_self _ _ _),
      setConn_setConn]

theorem reuseBlockingConn_of_some (hc : s.conns c = some b) (req : Req) :
    s.reuseBlockingConn c req =
      { s.setConn c (b.reuse req) with blockingBackend := some c } := by
  simp only [reuseBlockingConn, hc]
  rw [request_of_some (b := { b with own := true, pending := [] }) (by simp)]
  simp only [setConn, Function.update_idem]
  rfl

theorem execOn_of_some (hc : s.conns c = some b) (queue : List Req) : s.execOn c queue =
      s.allocResponseSlot.setConn c (b.push .multi (.multiStart queue s.nextSlot)) :=
  request_of_some (s := s.allocResponseSlot) hc _ _

/-- The connection of a dial for WATCH. -/
def watchConn (s : Session) (cfg : Config) : Backend :=
  let b := ({ kind := .watch, addr := s.watchAddr } : Backend).auth cfg
  match s.pendingWatchReq with
  | none => b
  | some req => b.push (.watch req) (.watchFirst req s.pendingWatchSlot)

theorem onBackendOpen_watch (s : Session) (cfg : Config) (addr : Bytes) :
    s.onBackendOpen cfg (.watch addr) =
      { s.setConn s.nextConn (s.watchConn cfg) with
        nextConn := s.nextConn + 1
        watchBackend := some s.nextConn
        pendingWatchReq := none } := by
  simp only [onBackendOpen, watchConn]
  rw [authDedicatedConn_of_some (b := { kind := .watch, addr := s.watchAddr }) (by simp)]
  cases hpending : s.pendingWatchReq with
  | none => simp [setConn, hpending]
  | some req =>
    simp only [setConn, hpending, Function.update_idem]
    rw [request_of_some (b := ({ kind := .watch, addr := s.watchAddr } : Backend).auth cfg)
      (by simp)]
    simp [setConn]

/-- The connection of a dial for a blocking command. -/
def blockingConn (cfg : Config) (addr : Bytes) (req : Req) : Backend :=
  let b : Backend := { kind := .blocking, addr }
  if cfg.password = [] then b.push (.blocking req) (.blocking req)
  else b.push .auth (.authThenBlocking req)

theorem onBackendOpen_blocking (s : Session) (cfg : Config) (addr : Bytes) (req : Req) :
    s.onBackendOpen cfg (.blocking addr req) =
      { s.setConn s.nextConn (blockingConn cfg addr req) with
        nextConn := s.nextConn + 1
        blockingBackend := some s.nextConn } := by
  simp only [onBackendOpen, blockingConn]
  split
  · rw [request_of_some (b := { kind := .blocking, addr }) (by simp)]
    simp [setConn]
  rw [request_of_some (b := { kind := .blocking, addr }) (by simp)]
  simp [setConn]

/-- The kind of a connection that the client refers to. -/
theorem Live.kind_eq (h : s.Live kind c) (hc : s.conns c = some b) : b.kind = kind := by
  obtain ⟨b', hb', hkind, -⟩ := h
  rw [hc, Option.some.injEq] at hb'
  rw [hb', hkind]

theorem Live.isClosed_eq (h : s.Live kind c) (hc : s.conns c = some b) : b.isClosed = false := by
  obtain ⟨b', hb', -, hopen, -⟩ := h
  rw [hc, Option.some.injEq] at hb'
  rw [hb', hopen]

namespace ConnInv

variable {s : Session} {c : ℕ} {b b' : Backend}

/-- The connections of transactions are not those of blocking commands. -/
theorem ne_of_blocking (h : s.ConnInv) (hc : s.conns c = some b) (hkind : b.kind = .blocking) :
    s.watchBackend ≠ some c ∧ s.multiBackend ≠ some c ∧ c ∉ s.starts.map Prod.fst := by
  refine ⟨fun heq => ?_, fun heq => ?_, fun hmem => ?_⟩
  · cases hkind.symm.trans ((h.watch c heq).kind_eq hc)
  · cases hkind.symm.trans ((h.multi c heq).kind_eq hc)
  obtain ⟨start, hstart, rfl⟩ := List.mem_map.mp hmem
  obtain ⟨b', hb', hkind'⟩ := h.starts start hstart
  rw [hc, Option.some.injEq] at hb'
  rw [← hb', hkind] at hkind'
  cases hkind'

/-- The connection that watches is not one of a transaction. -/
theorem ne_of_watch (h : s.ConnInv) (hc : s.conns c = some b) (hkind : b.kind = .watch) :
    s.multiBackend ≠ some c ∧ c ∉ s.starts.map Prod.fst := by
  refine ⟨fun heq => ?_, fun hmem => ?_⟩
  · cases hkind.symm.trans ((h.multi c heq).kind_eq hc)
  obtain ⟨start, hstart, rfl⟩ := List.mem_map.mp hmem
  obtain ⟨b', hb', hkind'⟩ := h.starts start hstart
  rw [hc, Option.some.injEq] at hb'
  rw [← hb', hkind] at hkind'
  cases hkind'

theorem ne_of_multi (h : s.ConnInv) (hc : s.conns c = some b) (hkind : b.kind = .multi) :
    s.watchBackend ≠ some c := by
  intro heq
  cases hkind.symm.trans ((h.watch c heq).kind_eq hc)

/-- The client does not know the next connection. -/
theorem ne_nextConn (h : s.ConnInv) :
    s.watchBackend ≠ some s.nextConn ∧ s.multiBackend ≠ some s.nextConn ∧
      s.nextConn ∉ s.starts.map Prod.fst := by
  have hnone := h.fresh s.nextConn le_rfl
  have hlive : ∀ kind, ¬ s.Live kind s.nextConn := by
    rintro kind ⟨b, hb, -⟩
    rw [hnone] at hb
    cases hb
  refine ⟨fun heq => hlive _ (h.watch _ heq), fun heq => hlive _ (h.multi _ heq), fun hmem => ?_⟩
  obtain ⟨start, hstart, heq⟩ := List.mem_map.mp hmem
  obtain ⟨b, hb, -⟩ := h.starts start hstart
  rw [heq, hnone] at hb
  cases hb

/-- A command on a connection that is not a blocking one. -/
theorem push (h : s.ConnInv) (hc : s.conns c = some b) (hkind : b.kind ≠ .blocking)
    (hallows : b.kind.allows cb = true) (cmd : WireCmd) : (s.setConn c (b.push cmd cb)).ConnInv :=
  h.setConn hc rfl ((h.ok c b hc).push hallows hkind cmd) (Or.inl fun h₁ h₂ => ⟨h₁, h₂⟩)
    fun hidle => absurd hidle (h.not_idle hc (Or.inl hkind))

private theorem kept_or_none (o : Option ℕ) (c : ℕ) :
    (if o = some c then none else o) = o ∨ (if o = some c then none else o) = none := by
  split
  · exact Or.inr rfl
  · exact Or.inl rfl

private theorem kept_ne (o : Option ℕ) (c : ℕ) : (if o = some c then none else o) ≠ some c := by
  split
  · exact (Option.some_ne_none c).symm
  · assumption

/-- A connection closes and the client forgets it. -/
theorem forgetConn (h : s.ConnInv) (hc : s.conns c = some b) :
    ((s.setConn c { b with isClosed := true }).forgetConn c).ConnInv := by
  have hforget : (s.forgetConn c).ConnInv :=
    h.forget (kept_or_none _ c) (kept_or_none _ c) (kept_or_none _ c)
  have hok := h.ok c b hc
  refine hforget.setConn (b := b) hc rfl ⟨hok.allows, hok.single, hok.foreign⟩
    (Or.inr ⟨kept_ne _ c, kept_ne _ c, kept_ne _ c⟩) fun hidle => ?_
  by_contra hpending
  exact h.not_idle hc (Or.inr (Or.inl hpending)) hidle

/-- The client refers to its own connections only. -/
theorem forgetConn_of_foreign (h : s.ConnInv) (hc : s.conns c = some b) (hown : b.own = false) :
    s.forgetConn c = s := by
  have hother : ∀ kind, ¬ s.Live kind c := by
    rintro kind ⟨b', hb', -, -, hown'⟩
    rw [hc, Option.some.injEq] at hb'
    subst hb'
    rw [hown] at hown'
    cases hown'
  have hwatch : ¬ s.watchBackend = some c := fun heq => hother _ (h.watch c heq)
  have hmulti : ¬ s.multiBackend = some c := fun heq => hother _ (h.multi c heq)
  have hblocking : ¬ s.blockingBackend = some c := fun heq => hother _ (h.blocking c heq)
  simp only [Session.forgetConn, if_neg hwatch, if_neg hmulti, if_neg hblocking]

/-- What closing a connection does: nothing if it is closed already, and otherwise the client
forgets it. A blocking command that waits on it is interrupted. -/
theorem onBackendClose_cases (h : s.ConnInv) (c : ℕ) :
    (s.onBackendClose c = s ∧ ∀ b, s.conns c = some b → b.isClosed = true) ∨
      ∃ b, s.conns c = some b ∧ b.isClosed = false ∧
        ((s.blockingBackend = some c ∧ s.state = .blocking ∧ s.onBackendClose c =
            ((s.setConn c { b with isClosed := true }).forgetConn c).interruptBlocking) ∨
          (¬ (s.blockingBackend = some c ∧ s.state = .blocking) ∧
            s.onBackendClose c = (s.setConn c { b with isClosed := true }).forgetConn c)) := by
  unfold Session.onBackendClose
  split
  · rename_i hc
    exact Or.inl ⟨rfl, fun b hb => by rw [hc] at hb; cases hb⟩
  rename_i b hc
  split
  · rename_i hclosed
    refine Or.inl ⟨rfl, fun b' hb' => ?_⟩
    rw [hc, Option.some.injEq] at hb'
    exact hb' ▸ hclosed
  · rename_i hclosed
    refine Or.inr ⟨b, hc, by simpa using hclosed, ?_⟩
    simp only
    split
    · rename_i hown
      have hforeign : b.own = false := by simpa using hown
      have hsame : (s.setConn c { b with isClosed := true }).forgetConn c =
          s.setConn c { b with isClosed := true } := by
        have hswap : (s.setConn c { b with isClosed := true }).forgetConn c =
            (s.forgetConn c).setConn c { b with isClosed := true } := rfl
        rw [hswap, h.forgetConn_of_foreign hc hforeign]
      refine Or.inr ⟨fun hblocking => ?_, hsame.symm⟩
      obtain ⟨b', hb', -, -, hown'⟩ := h.blocking c hblocking.1
      rw [hc, Option.some.injEq] at hb'
      rw [hb', hown'] at hforeign
      cases hforeign
    · split
      · rename_i hblocking
        exact Or.inl ⟨hblocking.1, hblocking.2, rfl⟩
      rename_i hblocking
      exact Or.inr ⟨hblocking, rfl⟩

theorem onBackendClose (h : s.ConnInv) (c : ℕ) : (s.onBackendClose c).ConnInv := by
  rcases h.onBackendClose_cases c with ⟨hsame, -⟩ | ⟨b, hc, -, ⟨-, -, hclose⟩ | ⟨-, hclose⟩⟩
  · rwa [hsame]
  · rw [hclose]
    exact (h.forgetConn hc).congr rfl
  rw [hclose]
  exact h.forgetConn hc

end ConnInv

/-! ### Writes -/

theorem starts_fillResponseSlot (s : Session) (slotIdx : ℕ) (data : Bytes) :
    (s.fillResponseSlot slotIdx data).starts = s.starts := by
  simp [starts, fillResponseSlot]

theorem connPart_writeImmediate (s : Session) (data : Bytes) :
    (s.writeImmediate data).connPart = s.connPart := by
  unfold writeImmediate
  split
  · rfl
  have hstarts := starts_fillResponseSlot s.allocResponseSlot s.nextSlot data
  simp only [connPart, hstarts]
  rfl

/-! ### The pool of idle connections -/

theorem takeIdle_sublist (s : Session) (addr : Bytes) (idle : List (Bytes × ℕ)) :
    (s.takeIdle addr idle).2.Sublist idle := by
  induction idle with
  | nil => exact List.Sublist.refl _
  | cons entry rest ih =>
    unfold takeIdle
    split
    · rename_i heq
      rw [heq] at ih
      exact ih.cons_cons entry
    rename_i heq
    rw [heq] at ih
    split
    · split
      · exact ih.cons entry
      · exact ih.cons entry
    · exact ih.cons_cons entry

/-- The connection taken is an open one of the pool, and it leaves the pool. -/
theorem takeIdle_some (h : (s.takeIdle addr idle).1 = some c) (hnodup : (idle.map Prod.snd).Nodup) :
    (addr, c) ∈ idle ∧ (∃ b, s.conns c = some b ∧ b.isClosed = false) ∧
      c ∉ (s.takeIdle addr idle).2.map Prod.snd := by
  induction idle with
  | nil => cases h
  | cons entry rest ih =>
    rw [List.map_cons, List.nodup_cons] at hnodup
    have hsub := takeIdle_sublist s addr rest
    unfold takeIdle at h ⊢
    split at h
    · rename_i c' rest' heq
      cases h
      rw [heq] at ih hsub
      obtain ⟨hmem, hopen, hout⟩ := ih rfl hnodup.2
      refine ⟨List.mem_cons_of_mem _ hmem, hopen, ?_⟩
      simp only [List.map_cons, List.mem_cons, not_or]
      exact ⟨fun hc => hnodup.1 (hc ▸ List.mem_map_of_mem hmem), hout⟩
    · rename_i rest' heq
      rw [heq] at hsub
      split at h
      · rename_i haddr
        split at h
        · rename_i hopen
          cases h
          cases hconn : s.conns entry.2 with
          | none => simp [hconn] at hopen
          | some b =>
            have hclosed : b.isClosed = false := by simpa [hconn] using hopen
            refine ⟨?_, ⟨b, rfl, hclosed⟩, ?_⟩
            · rw [← haddr]
              exact List.mem_cons_self
            simp only [haddr, if_true, Option.any_some, hclosed, Bool.not_false]
            exact fun hmem => hnodup.1 ((hsub.map Prod.snd).subset hmem)
        · cases h
      · cases h

namespace ConnInv

variable {s : Session} {c : ℕ} {b : Backend}

theorem idle_sublist (h : s.ConnInv) (hsub : idle.Sublist s.idle) :
    ({ s with idle } : Session).ConnInv :=
  ⟨h.fresh, h.ok, h.watch, h.multi, h.blocking, fun entry hentry => h.idle entry (hsub.subset hentry),
    h.nodup.sublist (hsub.map Prod.snd), h.starts⟩

theorem setWatch (h : s.ConnInv) (hlive : s.Live .watch c) :
    ({ s with watchBackend := some c } : Session).ConnInv :=
  { h with
    watch := fun d hd => by
      cases hd
      exact hlive }

theorem setMulti (h : s.ConnInv) (hlive : s.Live .multi c) :
    ({ s with multiBackend := some c } : Session).ConnInv :=
  { h with
    multi := fun d hd => by
      cases hd
      exact hlive }

theorem setBlocking (h : s.ConnInv) (hlive : s.Live .blocking c) (hidle : c ∉ s.idle.map Prod.snd) :
    ({ s with blockingBackend := some c } : Session).ConnInv :=
  { h with
    blocking := fun d hd => by
      cases hd
      exact hlive
    idle := fun entry hentry => by
      refine ⟨fun heq => hidle ?_, (h.idle entry hentry).2⟩
      cases heq
      exact List.mem_map_of_mem hentry }

/-- A connection is used for a blocking command. -/
theorem reuse (h : s.ConnInv) (hc : s.conns c = some b) (hkind : b.kind = .blocking)
    (hclosed : b.isClosed = false) (hidle : c ∉ s.idle.map Prod.snd) (req : Req) :
    ({ s.setConn c (b.reuse req) with blockingBackend := some c } : Session).ConnInv := by
  have hset : (s.setConn c (b.reuse req)).ConnInv :=
    h.setConn hc rfl (Backend.ok_reuse hkind req) (Or.inl fun _ _ => ⟨hclosed, rfl⟩)
      fun hmem => absurd hmem hidle
  exact hset.setBlocking ⟨_, setConn_self s c _, hkind, hclosed, rfl⟩ hidle

/-- The connection that is taken from the pool. -/
theorem taken (h : s.ConnInv) (hsome : (s.takeIdle addr s.idle).1 = some c) :
    ∃ b, s.conns c = some b ∧ b.kind = .blocking ∧ b.isClosed = false ∧ b.pending = [] ∧
      s.blockingBackend ≠ some c ∧ c ∉ (s.takeIdle addr s.idle).2.map Prod.snd := by
  obtain ⟨hmem, ⟨b, hc, hopen⟩, hout⟩ := takeIdle_some hsome h.nodup
  obtain ⟨hblocking, b', hb', hkind, hpending⟩ := h.idle _ hmem
  obtain rfl : b = b' := Option.some.inj (hc.symm.trans hb')
  exact ⟨b, hc, hkind, hopen, hpending, hblocking, hout⟩

theorem kind_of_taken (h : s.ConnInv) (hsome : (s.takeIdle addr s.idle).1 = some c)
    (hc : s.conns c = some b) : b.kind = .blocking := by
  obtain ⟨b', hb', hkind, -⟩ := h.taken hsome
  rwa [Option.some.inj (hc.symm.trans hb')]

/-- The client takes the next callback of a connection. -/
theorem pop (h : s.ConnInv) (hc : s.conns c = some b) (hpending : b.pending = cb :: rest) :
    (s.setConn c { b with pending := rest }).ConnInv := by
  have hnot : c ∉ s.idle.map Prod.snd := h.not_idle hc (Or.inr (Or.inl (by simp [hpending])))
  exact h.setConn hc rfl ((h.ok c b hc).pop hpending) (Or.inl fun h₁ h₂ => ⟨h₁, h₂⟩)
    fun hidle => absurd hidle hnot

/-- A new connection. -/
theorem openConn (h : s.ConnInv) {b : Backend} (hok : b.Ok) :
    ({ s with nextConn := s.nextConn + 1 }.setConn s.nextConn b).ConnInv := by
  have hnew := h.fresh s.nextConn le_rfl
  have hself : (({ s with nextConn := s.nextConn + 1 } : Session).setConn s.nextConn b).conns
      s.nextConn = some b := by simp [Session.setConn]
  have hother : ∀ d b₀, s.conns d = some b₀ →
      (({ s with nextConn := s.nextConn + 1 } : Session).setConn s.nextConn b).conns d =
        some b₀ := by
    intro d b₀ hb₀
    have hd : d ≠ s.nextConn := by
      rintro rfl
      rw [hnew] at hb₀
      cases hb₀
    simpa [Session.setConn, hd] using hb₀
  have hlive : ∀ kind d, s.Live kind d →
      (({ s with nextConn := s.nextConn + 1 } : Session).setConn s.nextConn b).Live kind d := by
    rintro kind d ⟨b₀, hb₀, hrest⟩
    exact ⟨b₀, hother d b₀ hb₀, hrest⟩
  refine ⟨fun d hd => ?_, fun d b₀ hb₀ => ?_, fun d hd => hlive _ d (h.watch d hd),
    fun d hd => hlive _ d (h.multi d hd), fun d hd => hlive _ d (h.blocking d hd),
    fun entry hentry => ?_, h.nodup, fun start hstart => ?_⟩
  · have hd' : s.nextConn + 1 ≤ d := hd
    have hne : d ≠ s.nextConn := by omega
    simpa [Session.setConn, hne] using h.fresh d (by omega)
  · by_cases hd : d = s.nextConn
    · subst hd
      rwa [← Option.some.inj (hself.symm.trans hb₀)]
    · exact h.ok d b₀ (by simpa [Session.setConn, hd] using hb₀)
  · obtain ⟨hblocking, b₀, hb₀, hrest⟩ := h.idle entry hentry
    exact ⟨hblocking, b₀, hother _ b₀ hb₀, hrest⟩
  obtain ⟨b₀, hb₀, hkind⟩ := h.starts start hstart
  exact ⟨b₀, hother _ b₀ hb₀, hkind⟩

/-- The next connection is not idle. -/
theorem nextConn_not_idle (h : s.ConnInv) : s.nextConn ∉ s.idle.map Prod.snd := by
  intro hmem
  obtain ⟨entry, hentry, heq⟩ := List.mem_map.mp hmem
  obtain ⟨-, b, hb, -⟩ := h.idle entry hentry
  rw [heq, h.fresh _ le_rfl] at hb
  cases hb

end ConnInv

theorem connInv_new (cfg : Config) (policy : GrowthPolicy) : (new cfg policy).ConnInv :=
  ⟨fun _ _ => rfl, by simp [new], by simp [new], by simp [new], by simp [new], by simp [new],
    List.nodup_nil, by simp [new, starts]⟩

end Session

end Pluster.Engine
