import Pluster.Lib.Runs
import Pluster.Router.Exchange

/-!
# Pooled connections stay in sync

The goroutines of the router share the pools of `pkg/pool/pool.go`. Each of them gets a
connection, uses it for one exchange and closes it; `Get`, `dial` and `put` of different
goroutines interleave. An idle connection should have had as many replies read as commands
written. The ASK path breaks this when ASKING is answered with an error: it then returns
without the reply to its second command and without `MarkBroken`.
-/

namespace Pluster.Router

open Proto Pool

variable {c : Conn} {u pool : ℕ}

/-- What a goroutine does with a pool. -/
inductive User
  | idle
  /-- It waits in `Get` for a connection to come back. -/
  | waits (pool : ℕ)
  | dials (pool : ℕ)
  /-- `Get` has returned a connection. -/
  | holds (pool : ℕ) (c : Conn)
  /-- The exchange on the connection is over. -/
  | used (pool : ℕ) (c : Conn)

/-- The pools of the manager and the goroutines of the router. -/
structure Pools where
  pools : ℕ → Pool
  users : ℕ → User

/-- What can happen to the pools. -/
inductive PoolEvent
  /-- A goroutine calls `Get`, or goes on after a wait in it. -/
  | get (user pool : ℕ) (expired : Conn → Bool)
  /-- The context of a waiting goroutine is cancelled. -/
  | cancel (user : ℕ)
  /-- `dial` returns. -/
  | dialed (user : ℕ) (io : DialIO)
  /-- The ASK path of `execOnNodeOnce`. -/
  | ask (user : ℕ) (req : Request) (io : AskIO)
  /-- The exchange of `execBatchOnNode`. -/
  | batch (user : ℕ) (batch : List Request) (io : BatchIO)
  /-- `Close` of the connection. -/
  | close (user : ℕ)
  /-- `Close` of the pool. -/
  | closePool (pool : ℕ)

namespace Pools

/-- Pools without connections. -/
def new (opts : ℕ → Options) (maxSize : ℕ → ℕ) : Pools where
  pools i := { opts := opts i, maxSize := maxSize i }
  users _ := .idle

def setPool (s : Pools) (i : ℕ) (p : Pool) : Pools :=
  { s with pools := Function.update s.pools i p }

def setUser (s : Pools) (u : ℕ) (user : User) : Pools :=
  { s with users := Function.update s.users u user }

/-- One turn of the loop of `Get`. -/
def getTurn (s : Pools) (u pool : ℕ) (expired : Conn → Bool) : Pools :=
  match (s.pools pool).getTurn expired with
  | (.found c, p) => (s.setPool pool p).setUser u (.holds pool c)
  | (.dials, p) => (s.setPool pool p).setUser u (.dials pool)
  | (.waits, p) => (s.setPool pool p).setUser u (.waits pool)

/-- One event. -/
def exec (s : Pools) : PoolEvent → Pools
  | .get u pool expired =>
    match s.users u with
    | .idle => if (s.pools pool).closed then s else s.getTurn u pool expired
    | .waits pool => s.getTurn u pool expired
    | _ => s
  | .cancel u =>
    match s.users u with
    | .waits _ => s.setUser u .idle
    | _ => s
  | .dialed u io =>
    match s.users u with
    | .dials pool =>
      match dial (s.pools pool).opts io with
      | .ok c => s.setUser u (.holds pool c)
      | .error _ =>
        (s.setPool pool { s.pools pool with numConns := (s.pools pool).numConns - 1 }).setUser
          u .idle
    | _ => s
  | .ask u req io =>
    match s.users u with
    | .holds pool c => s.setUser u (.used pool (askOnConn c req io).1)
    | _ => s
  | .batch u batch io =>
    match s.users u with
    | .holds pool c => s.setUser u (.used pool (batchOnConn c batch io).1)
    | _ => s
  | .close u =>
    match s.users u with
    | .used pool c => (s.setPool pool ((s.pools pool).put c)).setUser u .idle
    | _ => s
  | .closePool pool => s.setPool pool (s.pools pool).close

end Pools

/-- ASKING is not answered with an error. -/
def PoolEvent.AskingAccepted : PoolEvent → Prop
  | .ask _ _ io => ∀ v, io.reads 0 = .ok v → v.isError = false
  | _ => True

/-! ### The exchanges -/

/-- After the ASK path a connection is broken or in sync, if ASKING was accepted. -/
theorem askOnConn_inSync (hc : c.InSync) (req : Request) {io : AskIO}
    (haccepted : ∀ v, io.reads 0 = .ok v → v.isError = false) :
    (askOnConn c req io).1.broken = true ∨ (askOnConn c req io).1.InSync := by
  unfold askOnConn
  split
  · exact .inl rfl
  dsimp only
  split
  · exact .inl rfl
  split
  · exact .inl rfl
  rename_i askReply hask
  rw [if_neg (by rw [haccepted askReply hask]; decide)]
  split
  · exact .inl rfl
  right
  simp only [Conn.InSync] at hc
  simp [Conn.InSync, Conn.readValue, Conn.write, hc]

/-- The reads of a batch take one reply for each request, unless one fails. -/
theorem readBatch_read (reads : ℕ → Except Bytes Value) (i : ℕ) (c : Conn) (batch : List Request) :
    (readBatch reads i c batch).1.broken = true ∨
      ((readBatch reads i c batch).1.read = c.read + batch.length ∧
        (readBatch reads i c batch).1.wire = c.wire) := by
  induction batch generalizing i c with
  | nil => exact .inr ⟨rfl, rfl⟩
  | cons req batch ih =>
    unfold readBatch
    split
    · exact .inl rfl
    rcases ih (i + 1) c.readValue with hbroken | ⟨hread, hwire⟩
    · exact .inl hbroken
    right
    constructor
    · rw [hread, List.length_cons]
      simp only [Conn.readValue]
      omega
    · exact hwire

/-- After a batch a connection is broken or in sync. -/
theorem batchOnConn_inSync (hc : c.InSync) (batch : List Request) (io : BatchIO) :
    (batchOnConn c batch io).1.broken = true ∨ (batchOnConn c batch io).1.InSync := by
  unfold batchOnConn
  split
  · exact .inl rfl
  split
  · exact .inl rfl
  rcases readBatch_read io.reads 0 (c.write (batch.map fun req => encodeCommandBytes req.args))
    batch with hbroken | ⟨hread, hwire⟩
  · exact .inl hbroken
  right
  simp only [Conn.InSync] at hc ⊢
  rw [hread, hwire]
  simp [Conn.write, hc]

/-! ### The pools -/

/-! ### What holds of all connections -/

/-- A condition on the connection of a goroutine before and after the exchange. -/
def User.Holding (before after : ℕ → Conn → Prop) : User → Prop
  | .holds pool c => before pool c
  | .used pool c => after pool c
  | _ => True

/-- A condition on the connections of the pools that are idle or not used yet, and one on
those that were used. -/
structure Holding (before after : ℕ → Conn → Prop) (s : Pools) : Prop where
  idle : ∀ pool, ∀ c ∈ (s.pools pool).conns, before pool c
  users : ∀ u, (s.users u).Holding before after

namespace Holding

variable {before after : ℕ → Conn → Prop} {s : Pools}

theorem new (opts : ℕ → Options) (maxSize : ℕ → ℕ) :
    Holding before after (Pools.new opts maxSize) where
  idle _ _ hc := nomatch hc
  users _ := trivial

theorem setUser (h : Holding before after s) (u : ℕ) {user : User}
    (huser : user.Holding before after) : Holding before after (s.setUser u user) where
  idle := h.idle
  users := (Function.forall_update_iff s.users fun _ user => user.Holding before after).mpr
    ⟨huser, fun u' _ => h.users u'⟩

theorem setPool (h : Holding before after s) (pool : ℕ) {p : Pool}
    (hp : ∀ c ∈ p.conns, before pool c) : Holding before after (s.setPool pool p) where
  idle := (Function.forall_update_iff s.pools fun pool p => ∀ c ∈ p.conns, before pool c).mpr
    ⟨hp, fun pool' _ => h.idle pool'⟩
  users := h.users

theorem holds (h : Holding before after s) (huser : s.users u = .holds pool c) : before pool c := by
  have hu := h.users u
  rwa [huser] at hu

theorem used (h : Holding before after s) (huser : s.users u = .used pool c) : after pool c := by
  have hu := h.users u
  rwa [huser] at hu

theorem getTurn (h : Holding before after s) (u pool : ℕ) (expired : Conn → Bool) :
    Holding before after (s.getTurn u pool expired) := by
  obtain ⟨hfound, hleft⟩ := (s.pools pool).getTurn_spec expired
  unfold Pools.getTurn
  rcases hturn : (s.pools pool).getTurn expired with ⟨turn, p⟩
  rw [hturn] at hfound hleft
  have hpool : Holding before after (s.setPool pool p) :=
    h.setPool pool fun c hc => h.idle pool c (hleft hc)
  cases turn with
  | found c => exact hpool.setUser u (h.idle pool c (hfound c rfl))
  | dials | waits => exact hpool.setUser u trivial

/-- One event keeps the conditions, if `dial` establishes the first one, the exchanges lead
from the first to the second one, and a used connection that is not broken is as before. -/
theorem exec (h : Holding before after s) (e : PoolEvent)
    (hdial : ∀ pool io c, dial (s.pools pool).opts io = .ok c → before pool c)
    (hask : ∀ u req io, e = .ask u req io →
      ∀ pool c, before pool c → after pool (askOnConn c req io).1)
    (hbatch : ∀ pool c batch io, before pool c → after pool (batchOnConn c batch io).1)
    (hput : ∀ pool c, after pool c → c.broken = false → before pool c) :
    Holding before after (s.exec e) := by
  cases e with
  | get u pool expired =>
    simp only [Pools.exec]
    split
    · split
      · exact h
      · exact h.getTurn u pool expired
    · exact h.getTurn u _ expired
    · exact h
  | cancel u =>
    simp only [Pools.exec]
    split
    · exact h.setUser u trivial
    · exact h
  | dialed u io =>
    simp only [Pools.exec]
    split
    · rename_i pool _
      split
      · rename_i c hok
        exact h.setUser u (hdial pool io c hok)
      apply Holding.setUser
      · exact h.setPool pool (h.idle pool)
      · trivial
    · exact h
  | ask u req io =>
    simp only [Pools.exec]
    split
    · rename_i pool c huser
      exact h.setUser u (hask u req io rfl pool c (h.holds huser))
    · exact h
  | batch u batch io =>
    simp only [Pools.exec]
    split
    · rename_i pool c huser
      exact h.setUser u (hbatch pool c batch io (h.holds huser))
    · exact h
  | close u =>
    simp only [Pools.exec]
    split
    · rename_i pool c huser
      apply Holding.setUser
      · apply h.setPool
        intro c' hc'
        rcases mem_put hc' with hidle | ⟨rfl, hbroken⟩
        · exact h.idle pool c' hidle
        · exact hput pool c' (h.used huser) hbroken
      · trivial
    · exact h
  | closePool pool => exact h.setPool pool fun c hc => nomatch hc

end Holding

/-- Idle connections are in sync, and so are those in use up to the exchange. -/
abbrev Synced (s : Pools) : Prop :=
  Holding (fun _ c => c.InSync) (fun _ c => c.broken = true ∨ c.InSync) s

/-- One event keeps the connections in sync, if ASKING is accepted. -/
theorem Synced.exec {s : Pools} (h : Synced s) {e : PoolEvent} (he : e.AskingAccepted) :
    Synced (s.exec e) := by
  apply Holding.exec h e
  · intro pool io c hdial
    exact dial_inSync hdial
  · rintro u req io rfl pool c hc
    exact askOnConn_inSync hc req he
  · intro pool c batch io hc
    exact batchOnConn_inSync hc batch io
  rintro pool c (hbroken' | hc) hbroken
  · rw [hbroken] at hbroken'
    cases hbroken'
  · exact hc

/-- In a run in which ASKING is never answered with an error, every idle connection of
every pool has had as many replies read as commands written, and so has every connection
that `Get` hands out. -/
theorem pooled_connections_in_sync (opts : ℕ → Options) (maxSize : ℕ → ℕ)
    (events : List PoolEvent)
    (haccepted : Runs.Meets Pools.exec (fun _ e => e.AskingAccepted) (.new opts maxSize) events) :
    (∀ pool, ∀ c ∈ ((Runs.run Pools.exec (.new opts maxSize) events).pools pool).conns,
        c.read = c.wire.length) ∧
      ∀ u pool c, (Runs.run Pools.exec (.new opts maxSize) events).users u = .holds pool c →
        c.read = c.wire.length := by
  have hsynced : Synced (Runs.run Pools.exec (.new opts maxSize) events) :=
    haccepted.invariant (fun _ _ h he => h.exec he) (.new opts maxSize)
  exact ⟨hsynced.idle, fun u pool c hc => hsynced.holds hc⟩

/-- A run with one pool of one connection, on which ASKING is accepted. -/
def acceptedRun : List PoolEvent :=
  [.get 0 0 fun _ => false, .dialed 0 {},
    .ask 0 { args := [bytes "GET", bytes "k"] }
      { reads := fun i => .ok (if i = 0 then .simpleString (bytes "OK") else .bulkString []) },
    .close 0]

theorem pooled_connections_in_sync_acceptedRun :
    Runs.Meets Pools.exec (fun _ e => e.AskingAccepted) (.new (fun _ => ⟨[], [], [], false⟩) fun _ => 1)
        acceptedRun ∧
      ∀ c ∈ ((Runs.run Pools.exec (.new (fun _ => ⟨[], [], [], false⟩) fun _ => 1)
        acceptedRun).pools 0).conns, c.read = c.wire.length := by
  have hmeets : Runs.Meets Pools.exec (fun _ e => e.AskingAccepted)
      (.new (fun _ => ⟨[], [], [], false⟩) fun _ => 1) acceptedRun := by
    refine ⟨trivial, trivial, ?_, trivial, trivial⟩
    intro v hv
    cases hv
    rfl
  exact ⟨hmeets, (pooled_connections_in_sync _ _ _ hmeets).1 0⟩

/-- ASKING is answered with an error, the reply to the second command is left unread and
the connection goes back to the pool. -/
theorem pooled_connection_behind :
    ((Runs.run Pools.exec (.new (fun _ => ⟨[], [], [], false⟩) fun _ => 1)
      [.get 0 0 fun _ => false, .dialed 0 {},
        .ask 0 { args := [bytes "GET", bytes "k"] }
          { reads := fun _ => .ok (.error (bytes "LOADING Redis is loading the dataset in memory")) },
        .close 0]).pools 0).conns.map (fun c => (c.wire.length, c.read)) = [(2, 1)] := by
  decide +kernel

end Pluster.Router
