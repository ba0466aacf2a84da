import Pluster.Proto.Resp

/-!
# The connection pool

`pkg/pool/pool.go`: the idle connections of one node, what a caller of `Get` is given and
what `Close` of a connection does with it. A connection carries the commands that were
written to it and the number of replies that were read from it. Times are not modelled:
whether an idle connection is too old is an input of `popIdle`.
-/

namespace Pluster

open Proto

namespace Pool

/-- `Conn`, with the commands written to it and the number of replies read. -/
structure Conn where
  wire : List Bytes := []
  read : ℕ := 0
  broken : Bool := false
  deriving DecidableEq

variable {c c' : Conn}

namespace Conn

/-- `MarkBroken`. -/
def markBroken (c : Conn) : Conn := { c with broken := true }

/-- Commands leave on the connection. -/
def write (c : Conn) (cmds : List Bytes) : Conn := { c with wire := c.wire ++ cmds }

/-- `ReadValue` takes one reply. -/
def readValue (c : Conn) : Conn := { c with read := c.read + 1 }

/-- As many replies were read as commands were written, so that the next reply belongs
to the next command. -/
def InSync (c : Conn) : Prop := c.read = c.wire.length

instance (c : Conn) : Decidable c.InSync := inferInstanceAs (Decidable (_ = _))

end Conn

/-- `Options`, the part that `dial` reads. -/
structure Options where
  addr : Bytes
  username : Bytes := []
  password : Bytes := []
  readonly : Bool := false

end Pool

/-- `Pool`. The head of `conns` is the last element of the slice. After `Close` the count
of connections can go below zero. -/
structure Pool where
  opts : Pool.Options
  maxSize : ℕ
  conns : List Pool.Conn := []
  numConns : ℤ := 0
  closed : Bool := false

namespace Pool

/-- What the network does to `dial`: the error of the connection attempt, and what comes
back for each command of the handshake. -/
structure DialIO where
  dialErr : Option Bytes := none
  auth : Except Bytes Value := .ok (.simpleString (bytes "OK"))
  readonly : Except Bytes Value := .ok (.simpleString (bytes "OK"))

/-- One command of the handshake, `auth` or `sendReadonly`. -/
def handshake (failed : Bytes) (args : List Bytes) (answer : Except Bytes Value) (c : Conn) :
    Except Bytes Conn :=
  match answer with
  | .error err => .error err
  | .ok v =>
    if v.isError then .error (failed ++ v.errorMsg)
    else .ok (c.write [encodeCommandBytes args]).readValue

/-- `auth`. -/
def auth (opts : Options) (io : DialIO) (c : Conn) : Except Bytes Conn :=
  handshake (bytes "auth failed: ")
    (if opts.username ≠ [] then [bytes "AUTH", opts.username, opts.password]
      else [bytes "AUTH", opts.password]) io.auth c

/-- `sendReadonly`. -/
def sendReadonly (io : DialIO) (c : Conn) : Except Bytes Conn :=
  handshake (bytes "READONLY failed: ") [bytes "READONLY"] io.readonly c

/-- `dial`. -/
def dial (opts : Options) (io : DialIO) : Except Bytes Conn :=
  match io.dialErr with
  | some err => .error (bytes "dial " ++ opts.addr ++ bytes ": " ++ err)
  | none =>
    match if opts.password ≠ [] then auth opts io {} else .ok {} with
    | .error err => .error err
    | .ok c => if opts.readonly then sendReadonly io c else .ok c

/-- The loop of `popIdle`: the connection it returns, those it leaves and the number of
old ones that it closes. -/
def popIdleLoop (expired : Conn → Bool) : List Conn → Option Conn × List Conn × ℕ
  | [] => (none, [], 0)
  | c :: conns =>
    if expired c then
      match popIdleLoop expired conns with
      | (found, left, dropped) => (found, left, dropped + 1)
    else (some c, conns, 0)

/-- `popIdle`. -/
def popIdle (p : Pool) (expired : Conn → Bool) : Option Conn × Pool :=
  match popIdleLoop expired p.conns with
  | (found, left, dropped) => (found, { p with conns := left, numConns := p.numConns - dropped })

/-- How one turn of the loop of `Get` ends. -/
inductive Turn
  | found (c : Conn)
  | dials
  | waits

/-- One turn of the loop of `Get`, under the lock. -/
def getTurn (p : Pool) (expired : Conn → Bool) : Turn × Pool :=
  match p.popIdle expired with
  | (some c, p) => (.found c, p)
  | (none, p) =>
    if p.numConns < p.maxSize then (.dials, { p with numConns := p.numConns + 1 })
    else (.waits, p)

/-- `put`. -/
def put (p : Pool) (c : Conn) : Pool :=
  if c.broken ∨ p.closed then { p with numConns := p.numConns - 1 }
  else if p.conns.length < p.maxSize then { p with conns := c :: p.conns }
  else { p with numConns := p.numConns - 1 }

/-- `Close`. -/
def close (p : Pool) : Pool := { p with closed := true, conns := [], numConns := 0 }

/-! ### What the operations keep -/

theorem handshake_inSync {failed : Bytes} {args : List Bytes} {answer : Except Bytes Value}
    (hc : c.InSync) (h : handshake failed args answer c = .ok c') : c'.InSync := by
  unfold handshake at h
  split at h
  · cases h
  split at h
  · cases h
  cases h
  simpa [Conn.InSync, Conn.write, Conn.readValue] using hc

/-- A new connection has read the replies of its handshake. -/
theorem dial_inSync {opts : Options} {io : DialIO} (h : dial opts io = .ok c) : c.InSync := by
  have hnew : ({} : Conn).InSync := rfl
  unfold dial at h
  split at h
  · cases h
  split at h
  · cases h
  rename_i c₁ hauth
  have hc₁ : c₁.InSync := by
    split at hauth
    · exact handshake_inSync hnew hauth
    cases hauth
    exact hnew
  split at h
  · exact handshake_inSync hc₁ h
  cases h
  exact hc₁

theorem popIdleLoop_spec (expired : Conn → Bool) (conns : List Conn) :
    (∀ c ∈ (popIdleLoop expired conns).1, c ∈ conns) ∧
      (popIdleLoop expired conns).2.1 ⊆ conns := by
  induction conns with
  | nil => simp [popIdleLoop]
  | cons c conns ih =>
    obtain ⟨hfound, hleft⟩ := ih
    unfold popIdleLoop
    split
    · exact ⟨fun c' hc' => List.mem_cons_of_mem _ (hfound c' hc'),
        fun c' hc' => List.mem_cons_of_mem _ (hleft hc')⟩
    · exact ⟨by simp, fun c' hc' => List.mem_cons_of_mem _ hc'⟩

/-- A turn of `Get` hands out an idle connection and leaves idle ones. -/
theorem getTurn_spec (p : Pool) (expired : Conn → Bool) :
    (∀ c, (p.getTurn expired).1 = .found c → c ∈ p.conns) ∧
      (p.getTurn expired).2.conns ⊆ p.conns := by
  obtain ⟨hfound, hleft⟩ := popIdleLoop_spec expired p.conns
  unfold getTurn popIdle
  rcases hpop : popIdleLoop expired p.conns with ⟨found, left, dropped⟩
  rw [hpop] at hfound hleft
  cases found with
  | some c =>
    refine ⟨?_, hleft⟩
    intro c' hc'
    cases hc'
    exact hfound c rfl
  | none =>
    dsimp only
    split
    · exact ⟨fun c hc => (nomatch hc), hleft⟩
    · exact ⟨fun c hc => (nomatch hc), hleft⟩

/-- Only a connection that is not broken comes back to the idle ones. -/
theorem mem_put {p : Pool} (h : c' ∈ (p.put c).conns) :
    c' ∈ p.conns ∨ (c' = c ∧ c.broken = false) := by
  unfold put at h
  split at h
  · exact .inl h
  rename_i hopen
  split at h
  · rcases List.mem_cons.mp h with rfl | h
    · right
      refine ⟨rfl, ?_⟩
      cases hbroken : c'.broken
      · rfl
      · exact absurd (.inl hbroken) hopen
    · exact .inl h
  · exact .inl h

end Pool

end Pluster
