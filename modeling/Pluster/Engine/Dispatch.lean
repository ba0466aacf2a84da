import Pluster.Engine.Commands

/-!
# Requests, replies and connections of a session

What the handlers do: the plan of a request is carried out, the callbacks of the
dedicated connections respond to replies, connections open, fail and close. The
events of a session are the things gnet, the multiplexer, the router and the other
clients of the event loop can do to it.

`Execute` queues a task, `EventLoop.Close` runs `OnClose` at once, and the result of
`Register` arrives after `OnOpen`. A dial that fails is seen when its task runs. The
goroutine pool accepts every task.
-/

namespace Pluster.Engine

open Proto GoStrings GoRuntime

namespace Session

/-! ### Dials -/

/-- The error text of a dial that does not start. -/
def dialError (addr : Bytes) : DialOutcome → Option Bytes
  | .registered => none
  | .resolveError err => some (bytes "ERR failed to resolve " ++ addr ++ bytes ": " ++ err)
  | .registerError err =>
    some (bytes "ERR failed to register backend " ++ addr ++ bytes ": " ++ err)

/-- `dialDedicatedBackend` for WATCH. -/
def dialDedicatedBackend (s : Session) (env : Env) (addr : Bytes) : Session :=
  match dialError addr (env.dial addr) with
  | some msg => s.fillResponseSlotInLoop s.pendingWatchSlot (encodeError msg)
  | none => { s with dials := s.dials ++ [.watch addr] }

/-- Remember a WATCH and dial for it. -/
def dialWatch (s : Session) (env : Env) (req : Req) (slotIdx : ℕ) (addr : Bytes) : Session :=
  { s with
    watchAddr := addr
    pendingWatchReq := some req
    pendingWatchSlot := slotIdx }.dialDedicatedBackend env addr

/-- `dialMultiBackend`. -/
def dialMultiBackend (s : Session) (env : Env) (addr : Bytes) (queue : List Req) (slotIdx : ℕ) :
    Session :=
  match dialError addr (env.dial addr) with
  | some msg => s.fillResponseSlot slotIdx (encodeError msg)
  | none => { s with dials := s.dials ++ [.multi addr queue slotIdx] }

/-- `get` of the blocking pool, repeated until it returns a connection that is not closed.
The connections of the address are taken from the end. -/
def takeIdle (s : Session) (addr : Bytes) : List (Bytes × ℕ) → Option ℕ × List (Bytes × ℕ)
  | [] => (none, [])
  | entry :: rest =>
    match takeIdle s addr rest with
    | (some c, rest) => (some c, entry :: rest)
    | (none, rest) =>
      if entry.1 = addr then
        if (s.conns entry.2).any fun b => !b.isClosed then (some entry.2, rest) else (none, rest)
      else (none, entry :: rest)

/-- `reuseBlockingConn` on a connection that is not closed. -/
def reuseBlockingConn (s : Session) (c : ℕ) (req : Req) : Session :=
  match s.conns c with
  | none => s
  | some b =>
    { s.setConn c { b with own := true, pending := [] } with
      blockingBackend := some c }.request c (.blocking req) (.blocking req)

/-- `dialBlockingBackend`. -/
def dialBlockingBackend (s : Session) (env : Env) (addr : Bytes) (req : Req) : Session :=
  match s.takeIdle addr s.idle with
  | (some c, idle) => { s with idle }.reuseBlockingConn c req
  | (none, idle) =>
    let s := { s with idle }
    match dialError addr (env.dial addr) with
    | some msg =>
      { s.fillResponseSlotInLoop s.blockingSlotIdx (encodeError msg) with state := .normal }
    | none => { s with dials := s.dials ++ [.blocking addr req] }

/-! ### Carrying out a plan -/

/-- Close the watch connection and forget it, with its address. -/
def dropWatch (s : Session) : Session :=
  { s.closeConn s.watchBackend with
    watchBackend := none
    watchAddr := if s.watchBackend.isSome then [] else s.watchAddr }

/-- Close the multi connection and forget it. -/
def dropMulti (s : Session) : Session :=
  { s.closeConn s.multiBackend with multiBackend := none }

/-- Close the blocking connection and forget it. -/
def dropBlocking (s : Session) : Session :=
  { s.closeConn s.blockingBackend with blockingBackend := none }

/-- The fields that every way to leave a transaction sets. -/
def leaveMulti (s : Session) : Session := { s with state := .normal, txQueue := [], txErr := false }

/-- `resetClientState`. -/
def resetClientState (s : Session) : Session :=
  { s.leaveMulti.dropWatch.dropMulti.dropBlocking with pendingCmds := [] }

/-- `handleWATCH`, after its checks. -/
def startWatch (s : Session) (env : Env) (req : Req) (addr : Bytes) : Session :=
  match s.watchBackend with
  | some c =>
    if s.watchAddr = addr then
      s.allocResponseSlot.request c (.watch req) (.watchReuse s.nextSlot)
    else s.allocResponseSlot.dropWatch.dialWatch env req s.nextSlot addr
  | none => s.allocResponseSlot.dialWatch env req s.nextSlot addr

/-- `handleUNWATCH`. -/
def handleUNWATCH (s : Session) : Session :=
  let sent := match s.watchBackend with
    | none => s
    | some c => s.request c .unwatch .ignore
  { sent.dropWatch with state := .normal }.writeImmediate okReply

/-- `subscribe` of the hub, with `addSub` for each pattern. -/
def subscribe (s : Session) (env : Env) (patterns : List Bytes) : Session :=
  let dials := !s.hub.connected && !s.hub.dialing
  let started := match env.masters with
    | [] => false
    | master :: _ => (dialError master.1 (env.dial master.1)).isNone
  let added := patterns.eraseDups.filter fun p => p ∉ s.hub.subs
  { s with
    state := .subscribe
    hub := { s.hub with
      dialing := if dials then started else s.hub.dialing
      subs := s.hub.subs ++ added
      clientSubs := s.hub.clientSubs ++ added.filter fun p => p ∉ s.hub.clientSubs } }

/-- The replies of `unsubscribe` without a connection of the hub. -/
def unsubscribeReplies (req : Request) (count : ℕ) : List Bytes :=
  let subType := if req.cmd = bytes "PUNSUBSCRIBE" then bytes "punsubscribe" else bytes "unsubscribe"
  req.args.tail.map fun ch =>
    encodeValue (.array [.bulkString subType, .bulkString ch, .integer count])

/-- `unsubscribe` of the hub. Without arguments, `removeAllSubs` leaves `clientSubs`. -/
def unsubscribe (s : Session) (req : Request) : Session :=
  let patterns := req.args.tail
  let subs := s.hub.subs.filter fun p =>
    if patterns = [] then p ∉ s.hub.clientSubs else p ∉ patterns
  let clientSubs := s.hub.clientSubs.filter fun p => p ∉ patterns
  let pushed := if s.hub.connected then [] else unsubscribeReplies req clientSubs.length
  { s with
    state := if clientSubs = [] then .normal else s.state
    hub := { s.hub with subs, clientSubs, pushed := s.hub.pushed ++ pushed } }

/-- `submitToRouter`. -/
def submitToRouter (s : Session) : Session :=
  { s.allocResponseSlot with router := s.router ++ [s.nextSlot] }

/-- The request sent to a node through the multiplexer. -/
def sendToMux (s : Session) (addr : Bytes) (req : Request) : Session :=
  { s.allocResponseSlot with mux := s.mux ++ [{ slotIdx := s.nextSlot, addr, req }] }

/-- The end of `routeMultiKeyToMux`: a slot with a fan-in state and the sub-commands. -/
def sendFanOut (s : Session) (sends : List (Bytes × Request))
    (mergeFunc : List SubResponse → Bytes) : Session :=
  let slotIdx := s.nextSlot
  let total := sends.length
  let fi := { total, received := 0, subData := List.replicate total ⟨0, []⟩, mergeFunc }
  let s := s.allocResponseSlot
  { s with
    resp := s.resp.attachFanIn slotIdx fi
    mux := s.mux ++ sends.zipIdx.map fun x =>
      { slotIdx, addr := x.1.1, req := x.1.2, fanInIdx := some x.2 } }

/-- `dispatchBlockingCommand`, after its checks. -/
def startBlocking (s : Session) (env : Env) (req : Req) (addr : Bytes) : Session :=
  { s.allocResponseSlot with
    state := .blocking
    blockingSlotIdx := s.nextSlot }.dialBlockingBackend env addr req

/-- `execMultiOnDedicatedConn`, after the connection was taken from the client. -/
def execOn (s : Session) (c : ℕ) (queue : List Req) : Session :=
  s.allocResponseSlot.request c .multi (.multiStart queue s.nextSlot)

/-- Carry out the plan of a request. -/
def perform (s : Session) (env : Env) (req : Req) : Plan → Session
  | .reply data => s.writeImmediate data
  | .replies loc data => data.foldl writeImmediate { s with loc }
  | .buffer => { s with pendingCmds := s.pendingCmds ++ [req] }
  | .write data => s.write data
  | .quit => s.write okReply
  | .reset => s.resetClientState.writeImmediate (encodeSimpleString (bytes "RESET"))
  | .enterMulti state => { s with state, txQueue := [], txErr := false }.writeImmediate okReply
  | .watch addr => s.startWatch env req addr
  | .unwatch => s.handleUNWATCH
  | .subscribe => s.subscribe env req.body.args.tail
  | .unsubscribe => s.unsubscribe req.body
  | .push data => { s with hub := { s.hub with pushed := s.hub.pushed ++ [data] } }
  | .router => s.submitToRouter
  | .mux addr => s.sendToMux addr req.body
  | .fanOut sends mergeFunc => s.sendFanOut sends mergeFunc
  | .blocking addr => s.startBlocking env req addr
  | .queue =>
    { s with txQueue := s.txQueue ++ [req] }.writeImmediate (encodeSimpleString (bytes "QUEUED"))
  | .queueError data => { s with txErr := true }.writeImmediate data
  | .execAbort => s.leaveMulti.dropWatch.dropMulti.writeImmediate
      (encodeError (bytes "EXECABORT Transaction discarded because of previous errors."))
  | .execWatched c =>
    { s.leaveMulti with watchBackend := none, watchAddr := [] }.execOn c s.txQueue
  | .execEmpty => s.leaveMulti.write (encodeValue (.array []))
  | .execError data => s.leaveMulti.writeImmediate data
  | .execReuse c => { s.leaveMulti with multiBackend := none }.execOn c s.txQueue
  | .execDial addr =>
    s.dropMulti.leaveMulti.allocResponseSlot.dialMultiBackend env addr s.txQueue s.dropMulti.nextSlot
  | .discard => s.dropWatch.dropMulti.leaveMulti.writeImmediate okReply
  | .panic => { s with panicked := true }

end Session

end Pluster.Engine
