import Pluster.Proto.Resp
import Pluster.Lib.Pipeline
import Pluster.Engine.ResponseRuns

/-!
# The backend multiplexer

`backendMux` of `pkg/engine/backend_mux.go`: one connection per node address,
shared by all clients of an event loop. The state has the connections that gnet
has open and the dials it works on, so that an event happens only when gnet can
deliver it. Each connection carries the log of what was written to it and of
the replies read from it.

The write buffer and the log are kept as lists of commands; their bytes are the
concatenation. `TriggerRefresh` and the connection counters are left out.
-/

namespace Pluster.Engine

open Proto GoStrings Pipeline

/-- `pendingClientReq`. Of the pointer `fanIn` only whether it is nil is read. -/
structure PendingClientReq where
  clientConn : ℕ
  slotIdx : ℕ
  depth : ℕ := 0
  /-- It is nil in the READONLY sentinel only. -/
  req : Option Request := none
  skipReply : Bool := false
  isAskSentinel : Bool := false
  fanIn : Bool := false
  fanInIdx : ℕ := 0
  deriving DecidableEq

/-- What `ScanValue` finds at the front of the read buffer. -/
structure Reply where
  raw : Bytes
  kind : ErrorKind
  errMsg : Bytes := []
  deriving DecidableEq

/-- `backendMuxConn`, with the logs of its connection. -/
structure BackendMuxConn where
  conn : ℕ
  pending : List PendingClientReq := []
  head : ℕ := 0
  writeBuf : List Bytes := []
  /-- The commands written to the connection. -/
  wire : List Bytes := []
  /-- The replies read from the connection. -/
  read : List Reply := []
  /-- The requests answered, with their replies. -/
  answered : List (PendingClientReq × Reply) := []
  deriving DecidableEq

/-- What `dialBackend` gets from `ResolveTCPAddr` and `Register`. -/
inductive DialOutcome
  | registered
  | resolveError (err : Bytes)
  | registerError (err : Bytes)

/-- A call of `fillResponseSlot`, which is run later by the event loop. -/
structure FillTask where
  clientConn : ℕ
  slotIdx : ℕ
  data : Bytes
  deriving DecidableEq

/-- `backendMux`, with what gnet knows about its connections. -/
structure Mux where
  conns : Bytes → Option BackendMuxConn := fun _ => none
  dialing : Bytes → List PendingClientReq := fun _ => []
  /-- The addresses that gnet is dialling. -/
  registering : Bytes → Bool := fun _ => false
  /-- The address in the context of each open backend connection. -/
  connAddr : ℕ → Option Bytes := fun _ => none
  nextConn : ℕ := 0
  /-- The number of dials so far. -/
  dials : ℕ := 0
  /-- The client connections that have closed, and so lost their context. -/
  closedClients : List ℕ := []
  tasks : List FillTask := []
  /-- The replies given to the response queues of the clients. -/
  delivered : List (ℕ × Accum) := []

/-- `readonlyBytes`. -/
def readonlyBytes : Bytes := bytes "*1\r\n$8\r\nREADONLY\r\n"

/-- `askingBytes`. -/
def askingBytes : Bytes := bytes "*1\r\n$6\r\nASKING\r\n"

/-- `maxMuxRedirects`. -/
def maxMuxRedirects : ℕ := 16

/-- `rawBytes`. -/
def rawBytes (req : Request) : Bytes :=
  if req.raw ≠ [] then req.raw else encodeCommandBytes req.args

/-- The command that an entry of `pending` waits for. -/
def PendingClientReq.command (req : PendingClientReq) : Bytes :=
  if req.isAskSentinel then askingBytes
  else match req.req with
    | none => readonlyBytes
    | some req => rawBytes req

/-- `parseRedirectionMsg`, without the error texts, which are not used. -/
def parseRedirectionMsg (msg : Bytes) : Option (ℤ × Bytes) :=
  match splitN msg 32 3 with
  | [_, slot, addr] => (atoi slot).map fun s => (s, addr)
  | _ => none

namespace Mux

/-- Store a connection under its address. -/
def setConn (m : Mux) (addr : Bytes) (bc : BackendMuxConn) : Mux :=
  { m with conns := Function.update m.conns addr (some bc) }

/-- The `fillResponseSlot` calls that fail a list of requests: sentinels and closed
clients are skipped. -/
def failTasks (m : Mux) (reqs : List PendingClientReq) (data : Bytes) : List FillTask :=
  (reqs.filter fun req => !req.skipReply && !m.closedClients.contains req.clientConn).map
    fun req => ⟨req.clientConn, req.slotIdx, data⟩

/-- `failDialing`. -/
def failDialing (m : Mux) (addr err : Bytes) : Mux :=
  { m with
    dialing := Function.update m.dialing addr []
    tasks := m.tasks ++ m.failTasks (m.dialing addr) (encodeError err) }

/-- `dialBackend`. -/
def dialBackend (outcome : ℕ → Bytes → DialOutcome) (m : Mux) (addr : Bytes) : Mux :=
  let next := { m with dials := m.dials + 1 }
  match outcome m.dials addr with
  | .registered => { next with registering := Function.update m.registering addr true }
  | .resolveError err => next.failDialing addr (bytes "resolve " ++ addr ++ bytes ": " ++ err)
  | .registerError err => next.failDialing addr (bytes "register " ++ addr ++ bytes ": " ++ err)

/-- The part of `send` and `sendAsk` for an address without a connection: queue the
requests and dial if the queue was empty. -/
def enqueueDial (outcome : ℕ → Bytes → DialOutcome) (m : Mux) (addr : Bytes)
    (reqs : List PendingClientReq) : Mux :=
  let queued := { m with dialing := Function.update m.dialing addr (m.dialing addr ++ reqs) }
  if m.dialing addr = [] then dialBackend outcome queued addr else queued

/-- `send`. -/
def send (outcome : ℕ → Bytes → DialOutcome) (m : Mux) (addr : Bytes) (req : PendingClientReq) :
    Mux :=
  match m.conns addr with
  | some bc => m.setConn addr { bc with
      pending := bc.pending ++ [req]
      writeBuf := bc.writeBuf ++ (req.req.map rawBytes).toList }
  | none => m.enqueueDial outcome addr [req]

/-- `sendAsk`. -/
def sendAsk (outcome : ℕ → Bytes → DialOutcome) (m : Mux) (addr : Bytes)
    (req : PendingClientReq) : Mux :=
  let skip := { clientConn := req.clientConn, slotIdx := req.slotIdx, depth := req.depth,
                req := req.req, skipReply := true, isAskSentinel := true }
  match m.conns addr with
  | some bc => m.setConn addr { bc with
      pending := bc.pending ++ [skip, req]
      wire := bc.wire ++ [askingBytes] ++ (req.req.map rawBytes).toList }
  | none => m.enqueueDial outcome addr [skip, req]

/-- `flushBackendWrites`. -/
def flushBackendWrites (m : Mux) : Mux :=
  { m with conns := fun addr =>
      (m.conns addr).map fun bc => { bc with wire := bc.wire ++ bc.writeBuf, writeBuf := [] } }

/-- The entry for READONLY that `onOpen` puts in front of the queued requests. -/
def readonlySentinel (queued : List PendingClientReq) : List PendingClientReq :=
  queued.head?.toList.map fun first =>
    { clientConn := first.clientConn, slotIdx := first.slotIdx, skipReply := true }

/-- `onOpen`. Whether the address is a replica depends on the topology at that time. -/
def onOpen (m : Mux) (conn : ℕ) (addr : Bytes) (isReplicaAddr : Bool) : Mux :=
  let queued := m.dialing addr
  let sentinels := if isReplicaAddr then readonlySentinel queued else []
  let readonly := if isReplicaAddr ∧ queued ≠ [] then [readonlyBytes] else []
  let written := queued.flatMap fun req =>
    if req.isAskSentinel then [askingBytes] else (req.req.map rawBytes).toList
  { m.setConn addr { conn, pending := sentinels ++ queued, wire := readonly ++ written } with
    dialing := Function.update m.dialing addr [] }

/-- `onClose`. -/
def onClose (m : Mux) (addr : Bytes) : Mux :=
  match m.conns addr with
  | none => m
  | some bc =>
    let errMsg := bytes "ERR cluster node disconnected: " ++ addr
    { m with
      conns := Function.update m.conns addr none
      tasks := m.tasks ++ m.failTasks (bc.pending.drop bc.head) (encodeError errMsg) }

/-- Where a reply goes. -/
inductive Route
  | moved (addr : Bytes)
  | ask (addr : Bytes)
  | deliver

/-- The redirection that a reply asks for, if it is followed. -/
def route (req : PendingClientReq) (reply : Reply) : Route :=
  if maxMuxRedirects ≤ req.depth then .deliver
  else
    match reply.kind, parseRedirectionMsg reply.errMsg with
    | .moved, some (_, addr) => .moved addr
    | .ask, some (_, addr) => .ask addr
    | _, _ => .deliver

/-- The request that a redirection sends again. -/
def redirected (req : PendingClientReq) : PendingClientReq :=
  { req with depth := req.depth + 1, skipReply := false, isAskSentinel := false }

/-- Give a reply to the response queue of the client, if it still has a context. -/
def deliver (m : Mux) (req : PendingClientReq) (raw : Bytes) : Mux :=
  if m.closedClients.contains req.clientConn then m
  else
    let accum := if req.fanIn then .part req.slotIdx req.fanInIdx raw else .response req.slotIdx raw
    { m with delivered := m.delivered ++ [(req.clientConn, accum)] }

/-- Take the first pending request of a connection, if there is one. -/
def popPending (bc : BackendMuxConn) (reply : Reply) : BackendMuxConn × Option PendingClientReq :=
  let bc := { bc with read := bc.read ++ [reply] }
  match bc.pending[bc.head]? with
  | none => (bc, none)
  | some req =>
    let bc := { bc with answered := bc.answered ++ [(req, reply)] }
    if bc.head + 1 = bc.pending.length then ({ bc with head := 0, pending := [] }, some req)
    else ({ bc with head := bc.head + 1 }, some req)

/-- One iteration of the loop of `onTraffic`. -/
def onReply (outcome : ℕ → Bytes → DialOutcome) (addr : Bytes) (m : Mux) (reply : Reply) : Mux :=
  match m.conns addr with
  | none => m
  | some bc =>
    match popPending bc reply with
    | (bc, none) => m.setConn addr bc
    | (bc, some req) =>
      let m := m.setConn addr bc
      if req.skipReply then m
      else
        match route req reply with
        | .moved newAddr => m.send outcome newAddr (redirected req)
        | .ask newAddr => m.sendAsk outcome newAddr (redirected req)
        | .deliver => m.deliver req reply.raw

/-- `onTraffic` on the replies that `ScanValue` finds in the read buffer. -/
def onTraffic (outcome : ℕ → Bytes → DialOutcome) (m : Mux) (addr : Bytes)
    (replies : List Reply) : Mux :=
  match m.conns addr with
  | none => m
  | some _ => (replies.foldl (onReply outcome addr) m).flushBackendWrites

end Mux

/-- An event of the multiplexer: a call from a client, or a callback from gnet. -/
inductive MuxEvent
  | send (addr : Bytes) (clientConn slotIdx : ℕ) (req : Request) (fanInIdx : Option ℕ)
  | sendAsk (addr : Bytes) (clientConn slotIdx : ℕ) (req : Request) (fanInIdx : Option ℕ)
  | flushBackendWrites
  /-- A dial succeeds. -/
  | onOpen (addr : Bytes) (isReplicaAddr : Bool)
  /-- A dial fails. -/
  | dialFailed (addr err : Bytes)
  | onTraffic (conn : ℕ) (replies : List Reply)
  | onClose (conn : ℕ)
  | clientClose (clientConn : ℕ)

namespace Mux

/-- The request that a client hands to the multiplexer. -/
def clientReq (clientConn slotIdx : ℕ) (req : Request) (fanInIdx : Option ℕ) : PendingClientReq :=
  { clientConn, slotIdx, req := some req, fanIn := fanInIdx.isSome, fanInIdx := fanInIdx.getD 0 }

/-- Execute one event. One that gnet cannot deliver changes nothing. -/
def exec (outcome : ℕ → Bytes → DialOutcome) (m : Mux) : MuxEvent → Mux
  | .send addr clientConn slotIdx req fanInIdx =>
    m.send outcome addr (clientReq clientConn slotIdx req fanInIdx)
  | .sendAsk addr clientConn slotIdx req fanInIdx =>
    m.sendAsk outcome addr (clientReq clientConn slotIdx req fanInIdx)
  | .flushBackendWrites => m.flushBackendWrites
  | .onOpen addr isReplicaAddr =>
    if m.registering addr then
      let opened := { m with
        registering := Function.update m.registering addr false
        connAddr := Function.update m.connAddr m.nextConn (some addr)
        nextConn := m.nextConn + 1 }
      opened.onOpen m.nextConn addr isReplicaAddr
    else m
  | .dialFailed addr err =>
    if m.registering addr then
      { m with registering := Function.update m.registering addr false }.failDialing addr err
    else m
  | .onTraffic conn replies =>
    match m.connAddr conn with
    | none => m
    | some addr => m.onTraffic outcome addr replies
  | .onClose conn =>
    match m.connAddr conn with
    | none => m
    | some addr => { m with connAddr := Function.update m.connAddr conn none }.onClose addr
  | .clientClose clientConn => { m with closedClients := clientConn :: m.closedClients }

end Mux

end Pluster.Engine
