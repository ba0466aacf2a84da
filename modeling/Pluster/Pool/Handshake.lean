import Pluster.Lib.Runs
import Pluster.Pool.Pipeline
import Pluster.Pool.Pool

/-!
# The first commands on a pooled connection

What `dial` of `pkg/pool/pool.go` and `connect` of `pkg/pool/pipeline.go` write on a new
connection, also if they fail, and what the loop of a pipelined connection writes after
that.
-/

namespace Pluster.Pool

open Proto

variable {wire : List Bytes} {opts : Options} {c : Conn}

/-- The first command on a connection, if there is one, is the given one. -/
def FirstIs (first : Bytes) (wire : List Bytes) : Prop := ∀ cmd ∈ wire.head?, cmd = first

theorem firstIs_nil (first : Bytes) : FirstIs first [] := by
  intro cmd hcmd
  cases hcmd

theorem firstIs_cons (first : Bytes) (wire : List Bytes) : FirstIs first (first :: wire) := by
  intro cmd hcmd
  exact (Option.some.inj hcmd).symm

/-- Later commands do not matter. -/
theorem FirstIs.append {first : Bytes} (h : FirstIs first wire) (hne : wire ≠ [])
    (more : List Bytes) : FirstIs first (wire ++ more) := by
  intro cmd hcmd
  rw [List.head?_append_of_ne_nil _ hne] at hcmd
  exact h cmd hcmd

/-- The AUTH command with the credentials of a pool. -/
def authCommand (opts : Options) : Bytes :=
  encodeCommandBytes
    (if opts.username ≠ [] then [bytes "AUTH", opts.username, opts.password]
      else [bytes "AUTH", opts.password])

/-- A command of the handshake has been accepted. -/
def accepted (answer : Except Bytes Value) : Bool :=
  match answer with
  | .error _ => false
  | .ok v => !v.isError

/-- The commands that the handshake writes. It stops at the first one that fails. -/
def handshakeWire (opts : Options) (io : DialIO) : List Bytes :=
  if io.dialErr.isSome then []
  else
    (if opts.password ≠ [] then [authCommand opts] else []) ++
      if opts.readonly ∧ (opts.password = [] ∨ accepted io.auth) then
        [encodeCommandBytes [bytes "READONLY"]]
      else []

/-- The handshake succeeds. -/
def connects (opts : Options) (io : DialIO) : Bool :=
  io.dialErr.isNone && (opts.password = [] || accepted io.auth) &&
    (!opts.readonly || accepted io.readonly)

theorem firstIs_handshakeWire (hpassword : opts.password ≠ []) (io : DialIO) :
    FirstIs (authCommand opts) (handshakeWire opts io) := by
  unfold handshakeWire
  split
  · exact firstIs_nil _
  · exact firstIs_cons _ _

theorem handshake_ok {failed : Bytes} {args : List Bytes} {answer : Except Bytes Value}
    {c' : Conn} (h : handshake failed args answer c = .ok c') :
    accepted answer = true ∧ c'.wire = c.wire ++ [encodeCommandBytes args] := by
  unfold handshake at h
  split at h
  · cases h
  split at h
  · cases h
  rename_i herr
  cases h
  exact ⟨by simpa [accepted] using herr, rfl⟩

/-- The connection that `dial` returns has carried the handshake. -/
theorem dial_wire {io : DialIO} (h : dial opts io = .ok c) :
    connects opts io = true ∧ c.wire = handshakeWire opts io := by
  unfold dial at h
  split at h
  · cases h
  rename_i hdial
  split at h
  · cases h
  rename_i c₁ hauth
  -- The connection after AUTH.
  have hfirst : (opts.password = [] ∨ accepted io.auth = true) ∧
      c₁.wire = if opts.password ≠ [] then [authCommand opts] else [] := by
    split at hauth
    · rename_i hpassword
      obtain ⟨haccepted, hwire⟩ := handshake_ok hauth
      exact ⟨.inr haccepted, by rw [hwire, if_pos hpassword]; rfl⟩
    rename_i hpassword
    cases hauth
    exact ⟨.inl (not_not.mp hpassword), by rw [if_neg hpassword]⟩
  obtain ⟨hpass, hwire₁⟩ := hfirst
  have hrest : handshakeWire opts io = c₁.wire ++
      if opts.readonly then [encodeCommandBytes [bytes "READONLY"]] else [] := by
    simp only [handshakeWire, hdial, hwire₁, hpass, and_true, Option.isSome_none,
      Bool.false_eq_true, if_false]
  have hauthed : (decide (opts.password = []) || accepted io.auth) = true := by simpa using hpass
  rw [hrest, connects, hdial, hauthed]
  split at h
  · rename_i hreadonly
    obtain ⟨haccepted, hwire⟩ := handshake_ok h
    rw [hwire, haccepted, if_pos hreadonly]
    exact ⟨by simp, rfl⟩
  · rename_i hreadonly
    cases h
    rw [if_neg hreadonly, List.append_nil]
    exact ⟨by simp [hreadonly], rfl⟩

/-! ### The loop of a pipelined connection -/

/-- `pipeConn`: what was written to the connection it has, and to those it had. -/
structure PipeConn where
  conn : Option (List Bytes) := none
  closed : List (List Bytes) := []

/-- One turn of `loop`: the batch, and what the clock and the network do to it. -/
structure PipeTurn where
  batch : List Bytes
  /-- `backoffUntil` is not over. -/
  backoff : Bool := false
  dial : DialIO := {}
  /-- A write or a read fails. -/
  fails : Bool := false
  /-- The number of requests that are written in a turn that fails. -/
  written : ℕ := 0

namespace PipeConn

/-- The part of a turn with a connection. -/
def exchange (pc : PipeConn) (wire : List Bytes) (t : PipeTurn) : PipeConn :=
  if t.fails then { conn := none, closed := pc.closed ++ [wire ++ t.batch.take t.written] }
  else { pc with conn := some (wire ++ t.batch) }

/-- One turn of `loop`. -/
def turn (opts : Options) (pc : PipeConn) (t : PipeTurn) : PipeConn :=
  match pc.conn with
  | some wire => pc.exchange wire t
  | none =>
    if t.backoff then pc
    else if connects opts t.dial then pc.exchange (handshakeWire opts t.dial) t
    else { pc with closed := pc.closed ++ [handshakeWire opts t.dial] }

/-- Every connection began with AUTH, and the one it has was used. -/
structure Greeted (opts : Options) (pc : PipeConn) : Prop where
  conn : ∀ wire, pc.conn = some wire → wire ≠ [] ∧ FirstIs (authCommand opts) wire
  closed : ∀ wire ∈ pc.closed, FirstIs (authCommand opts) wire

variable {opts : Options} {pc : PipeConn}

theorem Greeted.exchange (h : Greeted opts pc) (hne : wire ≠ [])
    (hwire : FirstIs (authCommand opts) wire) (t : PipeTurn) :
    Greeted opts (pc.exchange wire t) := by
  unfold PipeConn.exchange
  split
  · refine ⟨nofun, fun wire' hwire' => ?_⟩
    rcases List.mem_append.mp hwire' with hwire' | hwire'
    · exact h.closed wire' hwire'
    rw [List.mem_singleton.mp hwire']
    exact hwire.append hne _
  · refine ⟨fun wire' hwire' => ?_, h.closed⟩
    cases hwire'
    exact ⟨by simp [hne], hwire.append hne _⟩

theorem Greeted.turn (hpassword : opts.password ≠ []) (h : Greeted opts pc) (t : PipeTurn) :
    Greeted opts (pc.turn opts t) := by
  have hfirst := firstIs_handshakeWire hpassword t.dial
  unfold PipeConn.turn
  split
  · rename_i wire hconn
    obtain ⟨hne, hwire⟩ := h.conn wire hconn
    exact h.exchange hne hwire t
  split
  · exact h
  split
  · rename_i hconnects
    have hne : handshakeWire opts t.dial ≠ [] := by
      simp only [connects, Bool.and_eq_true, Option.isNone_iff_eq_none] at hconnects
      simp [handshakeWire, hconnects.1.1, hpassword]
    exact h.exchange hne hfirst t
  · rename_i hconn hbackoff hconnects
    refine ⟨h.conn, fun wire hwire => ?_⟩
    rcases List.mem_append.mp hwire with hwire | hwire
    · exact h.closed wire hwire
    · rwa [List.mem_singleton.mp hwire]

end PipeConn

end Pluster.Pool
