import Pluster.Engine.Dispatch
import Pluster.Lib.Runs

/-!
# Runs of a session

The callbacks of the dedicated connections, and the events of a session: what gnet,
the multiplexer, the router and the other clients of the event loop can do to it. A
run is a list of events. An event that cannot occur leaves the session as it is.
-/

namespace Pluster.Engine

open Proto GoStrings GoRuntime

/-- The address of `ParseRedirection`, empty if the error has another form. -/
def redirectionAddr : Value → Option Bytes
  | .error str => (parseRedirectionMsg str).map Prod.snd
  | _ => none

/-- `Error` of a value. -/
def errorText : Value → Bytes
  | .error str => str
  | _ => []

/-- `blockingPoolCap`. -/
def blockingPoolCap : ℕ := 10

namespace Session

/-! ### Replies on dedicated connections -/

/-- `returnBlockingConn`. -/
def returnBlockingConn (s : Session) (c : ℕ) : Session :=
  match s.conns c with
  | none => s
  | some b =>
    if b.pending ≠ [] then s.onBackendClose c
    else if (s.idle.filter fun entry => entry.1 = b.addr).length < blockingPoolCap then
      { s with idle := s.idle ++ [(b.addr, c)] }
    else s.onBackendClose c

/-- The end of `handleBlockingResponse`. -/
def finishBlocking (s : Session) (c : ℕ) (v : Value) : Session :=
  let filled := s.fillResponseSlotInLoop s.blockingSlotIdx (encodeValue v)
  { filled with state := .normal, blockingBackend := none }.returnBlockingConn c |>.drainPendingCmds

/-- `handleBlockingResponse`. -/
def handleBlockingResponse (s : Session) (env : Env) (c : ℕ) (v : Value) (req : Req) : Session :=
  if v.isMovedError then
    match redirectionAddr v with
    | some newAddr =>
      ({ s with blockingBackend := none }.onBackendClose c).dialBlockingBackend env newAddr req
    | none => s.finishBlocking c v
  else s.finishBlocking c v

/-- The callback of `authDedicatedConn`. -/
def respondAuth (s : Session) (v : Value) : Session :=
  if v.isError then
    s.fillResponseSlotInLoop s.pendingWatchSlot
      (encodeError (bytes "ERR backend auth failed: " ++ errorText v))
  else s

/-- The reply to a WATCH: the state changes unless it is an error. -/
def ackWatch (s : Session) (slotIdx : ℕ) (v : Value) : Session :=
  { s with state := if v.isError then s.state else .watch }.fillResponseSlotInLoop slotIdx
    (encodeValue v)

/-- The commands of a transaction, once MULTI has been answered. -/
def sendQueue (s : Session) (c : ℕ) (queue : List Req) (slotIdx : ℕ) : Session :=
  (queue.foldl (fun s req => s.request c (.queued req) .ignore) s).request c .exec
    (.execDone slotIdx)

/-- `respond` of a pending entry of a connection. -/
def respond (s : Session) (env : Env) (c : ℕ) (v : Value) : Callback → Session
  | .watchFirst req slotIdx =>
    -- A WATCH that has been moved to another node is sent there.
    if v.isMovedError then
      { s with watchBackend := none }.dialWatch env req slotIdx ((redirectionAddr v).getD [])
    else (s.ackWatch slotIdx v).drainPendingCmds
  | .watchReuse slotIdx => s.ackWatch slotIdx v
  | .ignore => s
  | .auth => s.respondAuth v
  | .authThenBlocking req =>
    let s := s.respondAuth v
    if v.isError then s else s.request c (.blocking req) (.blocking req)
  | .blocking req => s.handleBlockingResponse env c v req
  | .multiStart queue slotIdx =>
    if v.isError then
      (s.onBackendClose c).fillResponseSlotInLoop slotIdx
        (encodeError (bytes "ERR failed to start MULTI on backend"))
    else s.sendQueue c queue slotIdx
  | .execDone slotIdx => (s.onBackendClose c).fillResponseSlotInLoop slotIdx (encodeValue v)

/-- The loop body of `onBackendTraffic`: a value is read from a dedicated connection. -/
def onBackendValue (s : Session) (env : Env) (c : ℕ) (v : Value) : Session :=
  match s.conns c with
  | none => s
  | some b =>
    if b.isClosed || !b.own then s
    else
      match b.pending with
      | [] => s
      | cb :: rest => (s.setConn c { b with pending := rest }).respond env c v cb

/-! ### Dials that end -/

/-- `authDedicatedConn`, if there is a password. -/
def authDedicatedConn (s : Session) (cfg : Config) (c : ℕ) : Session :=
  if cfg.password = [] then s else s.request c .auth .auth

/-- `onBackendOpen` for the connection of a dial, with the task of `dialMultiBackend`. -/
def onBackendOpen (s : Session) (cfg : Config) (d : Dial) : Session :=
  let c := s.nextConn
  let s := { s with nextConn := s.nextConn + 1 }
  match d with
  | .watch _ =>
    let s := { s.setConn c { kind := .watch, addr := s.watchAddr } with watchBackend := some c }
    let s := s.authDedicatedConn cfg c
    match s.pendingWatchReq with
    | none => s
    | some req =>
      { s with pendingWatchReq := none }.request c (.watch req)
        (.watchFirst req s.pendingWatchSlot)
  | .multi addr queue slotIdx =>
    { s.setConn c { kind := .multi, addr } with
      multiBackend := some c
      tasks := s.tasks ++ [.startMulti c queue slotIdx] }
  | .blocking addr req =>
    let s := { s.setConn c { kind := .blocking, addr } with blockingBackend := some c }
    if cfg.password = [] then s.request c (.blocking req) (.blocking req)
    else s.request c .auth (.authThenBlocking req)

/-- The task for a dial that has failed. -/
def onDialFailed (s : Session) (err : Bytes) : Dial → Session
  | .watch _ =>
    s.fillResponseSlotInLoop s.pendingWatchSlot
      (encodeError (bytes "ERR backend connection failed: " ++ err))
  | .multi _ _ slotIdx =>
    s.fillResponseSlotInLoop slotIdx (encodeError (bytes "ERR backend connection failed: " ++ err))
  | .blocking _ _ =>
    let filled := s.fillResponseSlotInLoop s.blockingSlotIdx
      (encodeError (bytes "ERR blocking backend connection failed: " ++ err))
    { filled with state := .normal, blockingBackend := none }.drainPendingCmds

/-! ### Tasks and the multiplexer -/

/-- Run a task of the event loop. -/
def runTask (s : Session) (cfg : Config) : Task → Session
  | .fill slotIdx data => s.fillResponseSlotInLoop slotIdx data
  | .startMulti c queue slotIdx =>
    (s.authDedicatedConn cfg c).request c .multi (.multiStart queue slotIdx)

/-- A reply that the multiplexer delivers, with the flush of the write vector. -/
def onMuxReply (s : Session) (entry : MuxEntry) (data : Bytes) : Session :=
  match entry.fanInIdx with
  | none => s.complete (s.resp.accumulateResponseSlot entry.slotIdx data)
  | some i => s.complete (s.resp.accumulateFanInSubResponse entry.slotIdx i data)

/-! ### The hub and the end of the client -/

/-- `onSharedBackendClose` of the hub. -/
def onHubClosed (s : Session) : Session :=
  { s with
    state := if s.hub.subs = [] then s.state else .normal
    hub :=
      { pushed := s.hub.pushed ++ if s.hub.subs = [] then [] else
          [encodeError (bytes "ERR pubsub backend connection lost; please re-subscribe")] } }

/-- `onClientClose`. -/
def onClientClose (s : Session) : Session :=
  let s := { s.closeConn s.watchBackend with watchBackend := none }
  let s := { s.closeConn s.multiBackend with multiBackend := none }
  let s := { s.closeConn s.blockingBackend with blockingBackend := none }
  { s with closed := true }

/-- An idle connection goes to another client. -/
def loseIdle (s : Session) (taken : Option ℕ × List (Bytes × ℕ)) : Session :=
  match taken.1 with
  | none => { s with idle := taken.2 }
  | some c =>
    { s with
      conns := Function.update s.conns c ((s.conns c).map fun b => { b with own := false })
      idle := taken.2 }

/-- Dispatch a request, in a session that serves it. -/
def dispatch (s : Session) (cfg : Config) (env : Env) (req : Req) : Session :=
  s.perform env req (dispatchClientRequest cfg env s req.body)

/-- The dispatch closes the client. -/
def quits (s : Session) (cfg : Config) (env : Env) (req : Request) : Bool :=
  match dispatchClientRequest cfg env s req with
  | .quit => true
  | _ => false

end Session

/-- The events of a session. -/
inductive SessionEvent
  /-- `onClientTraffic` parses a request and dispatches it. -/
  | request (env : Env) (req : Request)
  /-- `onClientTraffic` meets a protocol error. -/
  | protocolError (err : Bytes)
  /-- The next iteration of `drainPendingCmds`. -/
  | drain (env : Env)
  | clientClosed
  /-- A dial ends with a connection. -/
  | opened (i : ℕ)
  /-- A dial ends with an error. -/
  | dialFailed (i : ℕ) (err : Bytes)
  /-- A value is read from a dedicated connection. -/
  | value (env : Env) (conn : ℕ) (v : Value)
  /-- A dedicated connection is lost. -/
  | lost (conn : ℕ)
  | task (i : ℕ)
  /-- A router call returns. -/
  | routerDone (i : ℕ) (data : Bytes)
  | muxReply (i : ℕ) (data : Bytes)
  /-- The multiplexer gives up on a request and fills its slot with an error later. -/
  | muxFailed (i : ℕ) (err : Bytes)
  | hubOpened
  | hubClosed
  | hubDialFailed
  /-- Another client takes an idle blocking connection of an address. -/
  | idleTaken (addr : Bytes)
  /-- Another client returns a blocking connection to the pool. -/
  | idleReturned (addr : Bytes)
  /-- Another client changes `maxClients`. -/
  | maxClientsSet (n : ℤ)

namespace Session

/-- The session does not run any more. -/
def dead (s : Session) : Bool := s.closed || s.panicked || s.resp.panicked

/-- `onClientTraffic` for one request. -/
def onRequest (s : Session) (cfg : Config) (env : Env) (req : Request) : Session :=
  let served := { s with serving := s.arrived, arrived := s.arrived + 1 }
  let next := served.dispatch cfg env ⟨s.arrived, req⟩
  if served.quits cfg env req then next.onClientClose else next

/-- One iteration of `drainPendingCmds`. After QUIT the loop ends, but the connection of
the client stays open. -/
def onDrain (s : Session) (cfg : Config) (env : Env) : Session :=
  match s.draining with
  | [] => s
  | req :: rest =>
    let served := { s with serving := req.id, draining := rest }
    let next := served.dispatch cfg env req
    if served.quits cfg env req.body then { next with draining := [] } else next

/-- The event outside the loop of `drainPendingCmds`. -/
def onEvent (s : Session) (cfg : Config) : SessionEvent → Session
  | .request env req => s.onRequest cfg env req
  | .protocolError err =>
    ({ s with serving := s.arrived, arrived := s.arrived + 1 }.write
      (encodeError (bytes "ERR Protocol error: " ++ err))).onClientClose
  | .drain _ => s
  | .clientClosed => s.onClientClose
  | .opened i =>
    match s.dials[i]? with
    | none => s
    | some d => { s with dials := s.dials.eraseIdx i }.onBackendOpen cfg d
  | .dialFailed i err =>
    match s.dials[i]? with
    | none => s
    | some d => { s with dials := s.dials.eraseIdx i }.onDialFailed err d
  | .value env c v => s.onBackendValue env c v
  | .lost c => s.onBackendClose c
  | .task i =>
    match s.tasks[i]? with
    | none => s
    | some t => { s with tasks := s.tasks.eraseIdx i }.runTask cfg t
  | .routerDone i data =>
    match s.router[i]? with
    | none => s
    | some slotIdx => { s with router := s.router.eraseIdx i }.fillResponseSlot slotIdx data
  | .muxReply i data =>
    match s.mux[i]? with
    | none => s
    | some entry => { s with mux := s.mux.eraseIdx i }.onMuxReply entry data
  | .muxFailed i err =>
    match s.mux[i]? with
    | none => s
    | some entry =>
      { s with mux := s.mux.eraseIdx i }.fillResponseSlot entry.slotIdx (encodeError err)
  | .hubOpened => { s with hub := { s.hub with connected := true, dialing := false } }
  | .hubClosed => s.onHubClosed
  | .hubDialFailed => { s with hub := { s.hub with dialing := false } }
  | .idleTaken addr => s.loseIdle (s.takeIdle addr s.idle)
  | .idleReturned addr =>
    { s with
      conns := Function.update s.conns s.nextConn (some { kind := .blocking, addr, own := false })
      nextConn := s.nextConn + 1
      idle := s.idle ++ [(addr, s.nextConn)] }
  | .maxClientsSet n => { s with loc := { s.loc with maxClients := n } }

/-- Execute one event. The loop of `drainPendingCmds` runs to its end before anything
else happens. -/
def exec (cfg : Config) (s : Session) (e : SessionEvent) : Session :=
  if s.dead then s
  else if s.draining = [] then s.onEvent cfg e
  else
    match e with
    | .drain env => s.onDrain cfg env
    | _ => s

/-- The session of a new client after some events. -/
def after (cfg : Config) (policy : GrowthPolicy) (events : List SessionEvent) : Session :=
  Runs.run (exec cfg) (new cfg policy) events

end Session

end Pluster.Engine
