import Pluster.Engine.Mux
import Pluster.Engine.FanOut
import Pluster.Proto.Command

/-!
# The session of a client

The state of one client (`clientCtx` of `pkg/engine/handler.go`) and of what its
event loop holds for it: the dedicated backend connections, the dials and tasks
that are under way, the requests handed to the multiplexer and to the router.

Everything runs on one event loop, so a session is a state machine. The callbacks
that the source keeps as closures are values of an inductive type here. Pointers to
requests are the requests with their number in the order of arrival. The per-client
subscription connection of the source is never dialled and is left out.
-/

namespace Pluster.Engine

open Proto GoStrings GoRuntime

/-- `clientState`. -/
inductive ClientState
  | normal
  | subscribe
  | multi
  | watch
  | watchMulti
  | blocking
  deriving DecidableEq

/-- A request of the client with its number. -/
structure Req where
  id : ℕ
  body : Request
  deriving DecidableEq

/-- The `respond` functions of `backendPending`, with the variables they capture. -/
inductive Callback
  /-- The reply to the WATCH that opened the connection. -/
  | watchFirst (req : Req) (slotIdx : ℕ)
  /-- The reply to a WATCH on a connection that was open already. -/
  | watchReuse (slotIdx : ℕ)
  /-- A reply that is dropped: to UNWATCH or to a command of a transaction. -/
  | ignore
  /-- The reply to AUTH. -/
  | auth
  /-- The reply to AUTH on a blocking connection, with the command to send next. -/
  | authThenBlocking (req : Req)
  /-- The reply to a blocking command. -/
  | blocking (req : Req)
  /-- The reply to MULTI, with the commands of the transaction. -/
  | multiStart (queue : List Req) (slotIdx : ℕ)
  /-- The reply to EXEC. -/
  | execDone (slotIdx : ℕ)
  deriving DecidableEq

/-- What a dedicated connection is for. -/
inductive ConnKind
  | watch
  | multi
  | blocking
  deriving DecidableEq

/-- A command written to a dedicated connection, by the place that writes it. -/
inductive WireCmd
  | auth
  | watch (req : Req)
  | unwatch
  | blocking (req : Req)
  | multi
  | queued (req : Req)
  | exec
  deriving DecidableEq

/-- `backendCtx` of a dedicated connection that has been opened, with the log of what was
written to it. -/
structure Backend where
  kind : ConnKind
  addr : Bytes
  /-- `clientConn` is this client. -/
  own : Bool := true
  isClosed : Bool := false
  pending : List Callback := []
  wire : List WireCmd := []
  deriving DecidableEq

/-- A dial of a dedicated connection that is under way. -/
inductive Dial
  | watch (addr : Bytes)
  | multi (addr : Bytes) (queue : List Req) (slotIdx : ℕ)
  | blocking (addr : Bytes) (req : Req)
  deriving DecidableEq

/-- A task queued on the event loop. -/
inductive Task
  /-- The task of `fillResponseSlot`. -/
  | fill (slotIdx : ℕ) (data : Bytes)
  /-- The task of `dialMultiBackend`, once its connection is open. -/
  | startMulti (conn : ℕ) (queue : List Req) (slotIdx : ℕ)
  deriving DecidableEq

/-- A request of the client that the multiplexer has. -/
structure MuxEntry where
  slotIdx : ℕ
  addr : Bytes
  req : Request
  /-- The index of the part, for a sub-command of a fan-out. -/
  fanInIdx : Option ℕ := none
  deriving DecidableEq

/-- The part of `pubsubHub` that concerns the client. `pushed` is the log of the messages
given to `AsyncWrite`. -/
structure Hub where
  /-- `backendConn` is not nil. -/
  connected : Bool := false
  dialing : Bool := false
  /-- The patterns under which `subs` has an entry of the client. -/
  subs : List Bytes := []
  /-- The patterns in `clientSubs` of the client. -/
  clientSubs : List Bytes := []
  pushed : List Bytes := []
  deriving DecidableEq

/-- What only the local commands read and change. -/
structure Local where
  authenticated : Bool
  clientName : Bytes := []
  /-- `maxClients` of the handler. -/
  maxClients : ℤ := 0
  deriving DecidableEq

/-- A chunk written to the socket of the client: the request it answers and the response
slot it comes from, if any. -/
structure Chunk where
  owner : ℕ
  slotIdx : Option ℕ
  data : Bytes
  deriving DecidableEq

/-- The configuration, and the identity of the client. -/
structure Config where
  password : Bytes := []
  username : Bytes := []
  clientPassword : Bytes := []
  listenAddr : Bytes := []
  clientId : ℕ := 1
  remoteAddr : Bytes := []

/-- What a handler reads from the topology and the rest of the process at one moment. -/
structure Env where
  /-- The address of `GetNodeForSlot`. -/
  nodeForSlot : ℕ → Option Bytes
  /-- The addresses of `AllMasters`, with those of their replicas. -/
  masters : List (Bytes × List Bytes)
  /-- `NodeAddrForSlot` of the router. -/
  nodeAddrForSlot : ℕ → Bool → Option Bytes
  /-- What `ResolveTCPAddr` and `Register` say to an address. -/
  dial : Bytes → DialOutcome
  /-- The number of connections to an address, over all pools. -/
  connCount : Bytes → ℕ
  /-- The text of the statistics. -/
  stats : Bytes

/-- A cluster of one node, which accepts every dial. -/
def Env.oneNode (addr : Bytes) : Env where
  nodeForSlot _ := some addr
  masters := [(addr, [])]
  nodeAddrForSlot _ _ := some addr
  dial _ := .registered
  connCount _ := 1
  stats := []

/-- A client and its part of the event loop. -/
structure Session where
  -- The fields of `clientCtx`.
  state : ClientState := .normal
  loc : Local
  txQueue : List Req := []
  txErr : Bool := false
  watchAddr : Bytes := []
  watchBackend : Option ℕ := none
  multiBackend : Option ℕ := none
  blockingBackend : Option ℕ := none
  blockingSlotIdx : ℕ := 0
  pendingCmds : List Req := []
  pendingWatchReq : Option Req := none
  pendingWatchSlot : ℕ := 0
  resp : RespQueue
  -- The event loop: connections by number, the pool of idle blocking connections with
  -- their addresses, and the work that is under way.
  conns : ℕ → Option Backend := fun _ => none
  nextConn : ℕ := 0
  idle : List (Bytes × ℕ) := []
  dials : List Dial := []
  tasks : List Task := []
  router : List ℕ := []
  mux : List MuxEntry := []
  hub : Hub := {}
  /-- The rest of the loop of `drainPendingCmds`. -/
  draining : List Req := []
  closed : Bool := false
  panicked : Bool := false
  -- Logs: the number of requests so far, the one being served, the request of each
  -- response slot and the chunks written.
  arrived : ℕ := 0
  serving : ℕ := 0
  owners : List ℕ := []
  written : List Chunk := []

namespace Session

/-- The session of a new client. -/
def new (cfg : Config) (policy : GrowthPolicy) : Session :=
  { loc := { authenticated := cfg.clientPassword = [] }, resp := RespQueue.new policy }

/-! ### Writes and response slots -/

/-- `c.Write` for the request being served. -/
def write (s : Session) (data : Bytes) : Session :=
  { s with written := s.written ++ [⟨s.serving, none, data⟩] }

/-- The chunks that the queue hands on, as chunks of their slots. -/
def slotChunks (s : Session) (chunks : List Bytes) : List Chunk :=
  chunks.zipIdx.map fun x =>
    ⟨s.owners.getD (s.resp.base + x.2) 0, some (s.resp.base + x.2), x.1⟩

/-- Store the result of a completion function and write what it hands on. -/
def complete (s : Session) (result : RespQueue × List Bytes) : Session :=
  { s with resp := result.1, written := s.written ++ s.slotChunks result.2 }

/-- `fillResponseSlotInLoop`. -/
def fillResponseSlotInLoop (s : Session) (slotIdx : ℕ) (data : Bytes) : Session :=
  s.complete (s.resp.fillResponseSlotInLoop slotIdx data)

/-- `fillResponseSlot`, which leaves the work to a task. -/
def fillResponseSlot (s : Session) (slotIdx : ℕ) (data : Bytes) : Session :=
  { s with tasks := s.tasks ++ [.fill slotIdx data] }

/-- The index that `allocResponseSlot` returns. -/
def nextSlot (s : Session) : ℕ := s.resp.base + s.resp.slots.length

/-- `allocResponseSlot`; the index is `nextSlot` before. -/
def allocResponseSlot (s : Session) : Session :=
  { s with resp := s.resp.allocResponseSlot.1, owners := s.owners ++ [s.serving] }

/-- `writeImmediate`. -/
def writeImmediate (s : Session) (data : Bytes) : Session :=
  if s.resp.slots = [] then s.write data
  else s.allocResponseSlot.fillResponseSlot s.nextSlot data

/-! ### Dedicated connections -/

/-- Store the context of a connection. -/
def setConn (s : Session) (c : ℕ) (b : Backend) : Session :=
  { s with conns := Function.update s.conns c (some b) }

/-- Append a callback to the pending list of a connection and write its command. A write
to a closed connection is lost. -/
def request (s : Session) (c : ℕ) (cmd : WireCmd) (cb : Callback) : Session :=
  match s.conns c with
  | none => s
  | some b =>
    s.setConn c { b with
      pending := b.pending ++ [cb]
      wire := if b.isClosed then b.wire else b.wire ++ [cmd] }

/-- `drainPendingCmds` takes the buffered requests; they are dispatched one by one after. -/
def drainPendingCmds (s : Session) : Session :=
  { s with pendingCmds := [], draining := s.pendingCmds ++ s.draining }

/-- The text for a blocking command whose connection was lost. -/
def blockingInterrupted : Bytes :=
  bytes "ERR blocking command interrupted: backend connection closed"

/-- Forget a connection that has closed: the part of `onBackendClose` that compares the
connections of the client with it. -/
def forgetConn (s : Session) (c : ℕ) : Session :=
  { s with
    watchBackend := if s.watchBackend = some c then none else s.watchBackend
    multiBackend := if s.multiBackend = some c then none else s.multiBackend
    blockingBackend := if s.blockingBackend = some c then none else s.blockingBackend }

/-- The part of `onBackendClose` for a blocking command that is under way. -/
def interruptBlocking (s : Session) : Session :=
  { s.fillResponseSlotInLoop s.blockingSlotIdx (encodeError blockingInterrupted) with
    state := .normal }.drainPendingCmds

/-- `onBackendClose`, for a connection that closes or that `EventLoop.Close` closes. -/
def onBackendClose (s : Session) (c : ℕ) : Session :=
  match s.conns c with
  | none => s
  | some b =>
    if b.isClosed then s
    else
      let marked := s.setConn c { b with isClosed := true }
      if !b.own then marked
      else if s.blockingBackend = some c ∧ s.state = .blocking then
        (marked.forgetConn c).interruptBlocking
      else marked.forgetConn c

/-- `EventLoop.Close` of a connection, if there is one. -/
def closeConn (s : Session) : Option ℕ → Session
  | none => s
  | some c => s.onBackendClose c

end Session

end Pluster.Engine
