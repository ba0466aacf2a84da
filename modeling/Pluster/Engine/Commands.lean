import Pluster.Engine.Session

/-!
# What a request asks for

The decisions of the handlers in `pkg/engine/handler_routing.go`, `handler_tx.go`,
`handler_blocking.go` and `handler_pubsub.go`: from a request and the state of the
client, the plan that is then carried out. Replies that the proxy makes itself are
computed here, with their texts.
-/

namespace Pluster.Engine

open Proto GoStrings GoRuntime

/-- The command names that the handlers switch on. -/
inductive Verb
  | quit
  | reset
  | ping
  | echo
  | select
  | readonly
  | readwrite
  | hello
  | auth
  | client
  | info
  | cluster
  | multi
  | watch
  | unwatch
  | discard
  | exec
  | subscribe
  | psubscribe
  | unsubscribe
  | punsubscribe
  | eval
  | proxy
  | broadcast
  | other
  deriving DecidableEq

/-- The names of the verbs. -/
def verbNames : List (Bytes × Verb) :=
  [(bytes "QUIT", .quit), (bytes "RESET", .reset), (bytes "PING", .ping), (bytes "ECHO", .echo),
    (bytes "SELECT", .select), (bytes "READONLY", .readonly), (bytes "READWRITE", .readwrite),
    (bytes "HELLO", .hello), (bytes "AUTH", .auth), (bytes "CLIENT", .client),
    (bytes "INFO", .info), (bytes "CLUSTER", .cluster), (bytes "MULTI", .multi),
    (bytes "WATCH", .watch), (bytes "UNWATCH", .unwatch), (bytes "DISCARD", .discard),
    (bytes "EXEC", .exec), (bytes "SUBSCRIBE", .subscribe), (bytes "PSUBSCRIBE", .psubscribe),
    (bytes "UNSUBSCRIBE", .unsubscribe), (bytes "PUNSUBSCRIBE", .punsubscribe),
    (bytes "EVAL", .eval), (bytes "EVALSHA", .eval), (bytes "EVAL_RO", .eval),
    (bytes "EVALSHA_RO", .eval), (bytes "PROXY", .proxy), (bytes "BROADCAST", .broadcast)]

/-- The verb of a request. -/
def Verb.of (req : Request) : Verb := (verbNames.lookup req.cmd).getD .other

/-- What a handler does with a request. -/
inductive Plan
  /-- `writeImmediate`. -/
  | reply (data : Bytes)
  /-- `writeImmediate` for each reply, with a change of the local data. -/
  | replies (loc : Local) (data : List Bytes)
  /-- Append the request to `pendingCmds`. -/
  | buffer
  /-- `c.Write`. -/
  | write (data : Bytes)
  /-- Write OK and close the connection of the client. -/
  | quit
  | reset
  /-- Accept MULTI. -/
  | enterMulti (state : ClientState)
  /-- The part of `handleWATCH` after its checks. -/
  | watch (addr : Bytes)
  | unwatch
  | subscribe
  | unsubscribe
  /-- `writeHubMsgToClient`. -/
  | push (data : Bytes)
  /-- `submitToRouter`. -/
  | router
  /-- Send the request to a node through the multiplexer. -/
  | mux (addr : Bytes)
  /-- Send sub-commands through the multiplexer and merge their replies. -/
  | fanOut (sends : List (Bytes × Request)) (mergeFunc : List SubResponse → Bytes)
  /-- The part of `dispatchBlockingCommand` after its checks. -/
  | blocking (addr : Bytes)
  /-- Queue the request in the transaction. -/
  | queue
  /-- Refuse the request and spoil the transaction. -/
  | queueError (data : Bytes)
  /-- EXEC after an error. -/
  | execAbort
  /-- EXEC on the watch connection. -/
  | execWatched (conn : ℕ)
  /-- EXEC of an empty transaction. -/
  | execEmpty
  /-- EXEC of a transaction that no node can run. -/
  | execError (data : Bytes)
  /-- EXEC on the connection of a transaction before. -/
  | execReuse (conn : ℕ)
  /-- EXEC on a new connection. -/
  | execDial (addr : Bytes)
  | discard
  /-- A Go run-time panic. -/
  | panic

/-- An error reply. -/
def Plan.error (msg : Bytes) : Plan := .reply (encodeError msg)

/-- The reply OK. -/
def okReply : Bytes := encodeSimpleString (bytes "OK")

/-- The error for a wrong number of arguments of the named command. -/
def wrongArity (name : String) : Bytes :=
  bytes "ERR wrong number of arguments for '" ++ bytes name ++ bytes "' command"

/-- The text of a missing authentication. -/
def noAuth : Bytes := bytes "NOAUTH Authentication required."

/-- The text for a command that the table marks as not allowed. -/
def notSupported (name : Bytes) : Bytes :=
  bytes "ERR command '" ++ toLower name ++ bytes "' is not supported in cluster proxy"

/-- The text for a slot without a node. -/
def noNode (slot : ℕ) : Bytes := bytes "ERR no node for slot " ++ formatNat slot

/-- The text for keys of several slots. -/
def crossSlot : Bytes := bytes "CROSSSLOT Keys in request don't hash to the same slot"

/-! ### Local commands -/

/-- `handleAUTH`: the reply and the authentication after it. -/
def handleAUTH (cfg : Config) (loc : Local) (args : List Bytes) : Local × Bytes :=
  if cfg.clientPassword = [] then
    (loc, encodeError (bytes ("ERR Client sent AUTH, but no password is set. " ++
      "Did you mean ACL SETUSER with >password?")))
  else
    match args with
    | [_, provided] | [_, _, provided] =>
      if provided ≠ cfg.clientPassword then
        ({ loc with authenticated := false },
          encodeError (bytes "WRONGPASS invalid username-password pair or user is disabled."))
      else ({ loc with authenticated := true }, okReply)
    | _ => (loc, encodeError (wrongArity "auth"))

/-- The loop of `handleHELLO` over the options, with the replies written so far. The last
component is false if the loop has returned. -/
def helloOptions (cfg : Config) : List Bytes → Local → List Bytes → Local × List Bytes × Bool
  | [], loc, out => (loc, out, true)
  | arg :: rest, loc, out =>
    if toUpper arg = bytes "AUTH" then
      match rest with
      | user :: password :: rest =>
        let (loc, data) := handleAUTH cfg loc [bytes "AUTH", user, password]
        if loc.authenticated then helloOptions cfg rest loc (out ++ [data])
        else (loc, out ++ [data], false)
      | _ => (loc, out ++ [encodeError (bytes "ERR Syntax error in HELLO option 'auth'")], false)
    else if toUpper arg = bytes "SETNAME" then
      match rest with
      | name :: rest => helloOptions cfg rest { loc with clientName := name } out
      | [] => (loc, out ++ [encodeError (bytes "ERR Syntax error in HELLO option 'setname'")], false)
    else helloOptions cfg rest loc out

/-- The server info of HELLO. -/
def helloInfo (cfg : Config) : Value :=
  .array [.bulkString (bytes "server"), .bulkString (bytes "pluster"),
    .bulkString (bytes "version"), .bulkString (bytes "1.0.0"),
    .bulkString (bytes "proto"), .integer 2,
    .bulkString (bytes "id"), .integer cfg.clientId,
    .bulkString (bytes "mode"), .bulkString (bytes "cluster"),
    .bulkString (bytes "role"), .bulkString (bytes "master"),
    .bulkString (bytes "modules"), .array []]

/-- The end of `handleHELLO`, after its options. -/
def helloReply (cfg : Config) (loc : Local) : Bytes :=
  if loc.authenticated then encodeValue (helloInfo cfg) else encodeError noAuth

/-- `handleHELLO`. -/
def handleHELLO (cfg : Config) (loc : Local) (args : List Bytes) : Local × List Bytes :=
  match args with
  | _ :: version :: options =>
    if version = bytes "3" then
      (loc, [encodeError (bytes "NOPROTO unsupported protocol version")])
    else if version ≠ bytes "2" ∧ version ≠ [] then
      (loc, [encodeError (bytes "ERR Protocol version must be 2 or 3")])
    else
      let (loc, out, finished) := helloOptions cfg options loc []
      if finished then (loc, out ++ [helloReply cfg loc]) else (loc, out)
  | _ => (loc, [helloReply cfg loc])

/-- The address that the proxy shows. -/
def proxyAddr (cfg : Config) : Bytes :=
  if cfg.listenAddr = [] then bytes "127.0.0.1:7777" else cfg.listenAddr

/-- The line of `handleClusterNodes`, which PROXY NODES writes too. -/
def clusterNodes (cfg : Config) : Bytes :=
  encodeBulkString (bytes "0000000000000000000000000000000000000000 " ++ proxyAddr cfg ++
    bytes "@0 myself,master - 0 0 1 connected 0-16383\n")

/-- The text of `handleClusterConnection`. -/
def clusterConnection (env : Env) : Bytes :=
  encodeBulkString (env.masters.flatMap fun master =>
    bytes "master_" ++ master.1 ++ bytes " connection: " ++ formatNat (env.connCount master.1) ++
      [10] ++ master.2.flatMap fun replica =>
        bytes " slave_node_" ++ replica ++ bytes " connection: " ++
          formatNat (env.connCount replica) ++ [10])

/-- The subcommands of CLUSTER that go to the router. -/
def routedClusterSubs : List Bytes :=
  [bytes "SLOTS", bytes "INFO", bytes "MYID", bytes "SHARDS", bytes "KEYSLOT",
    bytes "COUNTKEYSINSLOT", bytes "GETKEYSINSLOT", bytes "RESET"]

/-- `handleCLUSTER`. -/
def handleCLUSTER (cfg : Config) (env : Env) (args : List Bytes) : Plan :=
  match args with
  | _ :: sub :: _ =>
    let sub := toUpper sub
    if sub = bytes "NODES" then .reply (clusterNodes cfg)
    else if sub ∈ routedClusterSubs then .router
    else if sub = bytes "CONNECTION" then .reply (clusterConnection env)
    else .error (bytes "ERR unknown subcommand '" ++ toLower sub ++ bytes "'. Try CLUSTER HELP.")
  | _ => .error (wrongArity "cluster")

/-- `maxClientNameLen`. -/
def maxClientNameLen : ℕ := 100

/-- The subcommands of CLIENT that are answered OK. -/
def acceptedClientSubs : List Bytes :=
  [bytes "NO-EVICT", bytes "NO-TOUCH", bytes "CACHING", bytes "UNPAUSE", bytes "PAUSE"]

/-- The subcommand SETNAME of `handleClientCmd`. -/
def clientSetName (loc : Local) : List Bytes → Local × Bytes
  | name :: _ =>
    if maxClientNameLen < name.length then
      (loc, encodeError (bytes "ERR Client setname command name too long, maximum is " ++
        formatNat maxClientNameLen))
    else ({ loc with clientName := name }, okReply)
  | [] => (loc, encodeError (wrongArity "client|setname"))

/-- `handleClientCmd`. -/
def handleClientCmd (cfg : Config) (loc : Local) (args : List Bytes) : Local × Bytes :=
  match args with
  | _ :: sub :: rest =>
    let sub := toUpper sub
    let info := bytes "id=" ++ formatNat cfg.clientId ++ bytes " addr=" ++ cfg.remoteAddr ++ [10]
    if sub = bytes "SETNAME" then clientSetName loc rest
    else if sub = bytes "GETNAME" then
      (loc, encodeBulkString (if loc.clientName = [] then
        bytes "pluster-client-" ++ formatNat cfg.clientId else loc.clientName))
    else if sub = bytes "ID" then (loc, encodeInteger cfg.clientId)
    else if sub = bytes "INFO" ∨ sub = bytes "LIST" then (loc, encodeBulkString info)
    else if sub ∈ acceptedClientSubs then (loc, okReply)
    else (loc, encodeError
      (bytes "ERR unknown subcommand '" ++ sub ++ bytes "' for 'client' command"))
  | _ => (loc, encodeError (wrongArity "client"))

/-- The text for an option that PROXY CONFIG does not know. -/
def unknownOption (opt : Bytes) : Bytes :=
  encodeError (bytes "ERR unknown option '" ++ opt ++ bytes "'")

/-- The actions of PROXY CONFIG. -/
def proxyConfig (loc : Local) (action : Bytes) (rest : List Bytes) : Local × Bytes :=
  if action = bytes "GET" then
    match rest with
    | opt :: _ =>
      if toLower opt = bytes "max-clients" then
        (loc, encodeValue (.array [.bulkString (bytes "max-clients"),
          .bulkString (itoa loc.maxClients)]))
      else (loc, unknownOption (toLower opt))
    | [] => (loc, encodeError (bytes "ERR wrong number of arguments"))
  else if action = bytes "SET" then
    match rest with
    | opt :: val :: _ =>
      if toLower opt = bytes "max-clients" then
        match atoi val with
        | some n =>
          if n < 0 then (loc, encodeError (bytes "ERR invalid value for max-clients"))
          else ({ loc with maxClients := n }, okReply)
        | none => (loc, encodeError (bytes "ERR invalid value for max-clients"))
      else (loc, unknownOption (toLower opt))
    | _ => (loc, encodeError (bytes "ERR wrong number of arguments"))
  else (loc, encodeError (bytes "ERR unknown action '" ++ action ++ bytes "'"))

/-- The actions of PROXY MULTIPLEXING. -/
def proxyMultiplexing (action : Bytes) : Bytes :=
  if action = bytes "STATUS" then encodeBulkString (bytes "off")
  else if action = bytes "OFF" then okReply
  else encodeError (bytes "ERR unknown subcommand '" ++ toLower action ++
    bytes "'. Try PROXY MULTIPLEXING STATUS|OFF.")

/-- `handleProxyCmd`. -/
def handleProxyCmd (cfg : Config) (env : Env) (loc : Local) (args : List Bytes) : Local × Bytes :=
  match args with
  | _ :: sub :: rest =>
    let sub := toUpper sub
    if sub = bytes "CONFIG" then
      match rest with
      | action :: rest => proxyConfig loc (toUpper action) rest
      | [] => (loc, encodeError (wrongArity "proxy config"))
    else if sub = bytes "INFO" then
      (loc, encodeBulkString
        (bytes "proxy_version:1.0.0\r\ncross_slot:true\r\nmultiplexing_api:off\r\n"))
    else if sub = bytes "STATS" then (loc, encodeBulkString env.stats)
    else if sub = bytes "NODES" then (loc, clusterNodes cfg)
    else if sub = bytes "MULTIPLEXING" then
      match rest with
      | action :: _ => (loc, proxyMultiplexing (toUpper action))
      | [] => (loc, encodeError (wrongArity "proxy multiplexing"))
    else (loc, encodeError
      (bytes "ERR unknown subcommand '" ++ sub ++ bytes "' for 'proxy' command"))
  | _ => (loc, encodeError (wrongArity "proxy"))

/-- A single reply with a change of the local data. -/
def Plan.ofLocal (result : Local × Bytes) : Plan := .replies result.1 [result.2]

/-! ### Requests for the backends -/

/-- The keys of XREAD and XREADGROUP: the first half of the arguments after STREAMS. -/
def extractXREADKeys : List Bytes → List Bytes
  | [] => []
  | arg :: rest =>
    if equalFold arg (bytes "STREAMS") then
      if rest.length % 2 = 0 then rest.take (rest.length / 2) else []
    else extractXREADKeys rest

/-- The keys of BLMPOP and BZMPOP, after the number of keys. -/
def extractCountedKeys (args : List Bytes) (numKeys : ℤ) : Option (List Bytes) :=
  if numKeys ≤ 0 then some []
  else
    let last := wrap64 (3 + numKeys)
    if (args.length : ℤ) ≤ last then some [] else slice args 3 last

/-- `extractBlockingKeys`, `none` for a slice bound out of range. -/
def extractBlockingKeys (req : Request) : Option (List Bytes) :=
  let args := req.args
  if req.cmd ∈ [bytes "BLPOP", bytes "BRPOP", bytes "BZPOPMIN", bytes "BZPOPMAX"] then
    some (if args.length < 3 then [] else args.tail.dropLast)
  else if req.cmd = bytes "BLMOVE" then
    some (if args.length < 6 then [] else args.tail.take 2)
  else if req.cmd = bytes "BLMPOP" ∨ req.cmd = bytes "BZMPOP" then
    if args.length < 5 then some []
    else
      match atoi (args.getD 2 []) with
      | none => some []
      | some numKeys => extractCountedKeys args numKeys
  else if req.cmd = bytes "XREAD" ∨ req.cmd = bytes "XREADGROUP" then
    some (extractXREADKeys args)
  else some []

/-- `dispatchBlockingCommand`. -/
def dispatchBlockingCommand (env : Env) (req : Request) : Plan :=
  match extractBlockingKeys req with
  | none => .panic
  | some [] => .error (bytes "ERR wrong number of arguments for '" ++ toLower req.cmd ++
      bytes "' command")
  | some (key :: keys) =>
    if keys.any fun k => hashSlot k ≠ hashSlot key then .error crossSlot
    else
      match env.nodeForSlot (hashSlot key) with
      | none => .error (noNode (hashSlot key))
      | some addr => .blocking addr

/-- The plan of `routeMultiKeyToMux`. -/
def MultiKeyPlan.toPlan : MultiKeyPlan → Plan
  | .immediate data => .reply data
  | .single addr => .mux addr
  | .fanOut _ sends mergeFunc => .fanOut sends mergeFunc
  | .panic => .panic

/-- `routeToBackend` for a request with a key that the table allows. -/
def routeKey (env : Env) (req : Request) (key : Bytes) (info : CmdInfo) : Plan :=
  if info.isAllNodes then .router
  else if info.isMultiKey then
    match MultiKeyCmd.ofName req.cmd with
    | some cmd => (routeMultiKeyToMux env.nodeForSlot cmd req).toPlan
    | none => .router
  else
    match env.nodeAddrForSlot (hashSlot key) (info.isRead && !info.isWrite) with
    | none => .error (noNode (hashSlot key))
    | some addr => .mux addr

/-- `routeToBackend`. A request with a key is in the table. -/
def routeToBackend (env : Env) (req : Request) : Plan :=
  match getFirstKeyAndInfo req with
  | (_, none) => .router
  | (key, some info) =>
    if info.isNotAllowed then .error (notSupported req.cmd)
    else
      match key with
      | none => .router
      | some key => routeKey env req key info

/-- The default branch of `handleNormal`. -/
def handleOther (env : Env) (req : Request) : Plan :=
  if (getCmdInfo req.cmd).any CmdInfo.isBlocking || isBlockingXREAD req then
    dispatchBlockingCommand env req
  else routeToBackend env req

/-- `handleWATCH`, up to the point where it takes a response slot. -/
def handleWATCH (env : Env) (s : Session) (args : List Bytes) : Plan :=
  match args with
  | _ :: key :: keys =>
    if s.state = .multi ∨ s.state = .watchMulti then
      .error (bytes "ERR WATCH inside MULTI is not allowed")
    else if keys.any fun k => hashSlot k ≠ hashSlot key then .error crossSlot
    else
      match env.nodeForSlot (hashSlot key) with
      | none => .error (noNode (hashSlot key))
      | some addr => .watch addr
  | _ => .error (wrongArity "watch")

/-! ### The handlers by state -/

/-- The switch of `handleNormal`. -/
def handleVerb (cfg : Config) (env : Env) (s : Session) (req : Request) : Plan :=
  let args := req.args
  match Verb.of req with
  | .quit => .quit
  | .reset => .reset
  | .ping =>
    .reply (if args.length = 1 then encodeSimpleString (bytes "PONG")
      else encodeBulkString (args.getD 1 []))
  | .echo =>
    if args.length ≠ 2 then .error (wrongArity "echo")
    else .reply (encodeBulkString (args.getD 1 []))
  | .select =>
    if args.length ≠ 2 then .error (wrongArity "select")
    else if args.getD 1 [] ≠ bytes "0" then
      .error (bytes "ERR SELECT is not allowed in cluster mode")
    else .reply okReply
  | .readonly => if args.length ≠ 1 then .error (wrongArity "readonly") else .reply okReply
  | .readwrite => if args.length ≠ 1 then .error (wrongArity "readwrite") else .reply okReply
  | .hello => .replies (handleHELLO cfg s.loc args).1 (handleHELLO cfg s.loc args).2
  | .auth => .ofLocal (handleAUTH cfg s.loc args)
  | .client => .ofLocal (handleClientCmd cfg s.loc args)
  | .info => .router
  | .cluster => handleCLUSTER cfg env args
  | .multi => .enterMulti (if s.state = .watch then .watchMulti else .multi)
  | .watch => handleWATCH env s args
  | .unwatch => .unwatch
  | .discard => .error (bytes "ERR DISCARD without MULTI")
  | .exec => .error (bytes "ERR EXEC without MULTI")
  | .subscribe | .psubscribe => .subscribe
  | .eval => .router
  | .proxy => .ofLocal (handleProxyCmd cfg env s.loc args)
  | .broadcast => .router
  | .unsubscribe | .punsubscribe | .other => handleOther env req

/-- The request is refused before the switch of `handleNormal`. -/
def refused (s : Session) (req : Request) : Bool :=
  !s.loc.authenticated && !([Verb.auth, .quit, .hello, .ping].contains (Verb.of req))

/-- The request waits for a WATCH that is still dialling. -/
def waitsForWatch (s : Session) (req : Request) : Bool :=
  s.pendingWatchReq.isSome && !([Verb.quit, .reset].contains (Verb.of req))

/-- `handleNormal`. -/
def handleNormal (cfg : Config) (env : Env) (s : Session) (req : Request) : Plan :=
  if refused s req then .error noAuth
  else if waitsForWatch s req then .buffer
  else handleVerb cfg env s req

/-- The loop of `resolveMultiSlot`: the slot of the keys, or an error for several slots. -/
def multiSlot : List Req → Option ℕ → Option (Option ℕ)
  | [], target => some target
  | req :: rest, target =>
    match getFirstKeyFromRequest req.body, target with
    | none, _ => multiSlot rest target
    | some key, none => multiSlot rest (some (hashSlot key))
    | some key, some slot => if hashSlot key = slot then multiSlot rest (some slot) else none

/-- `resolveMultiSlot`: the address or the error text. -/
def resolveMultiSlot (env : Env) (queue : List Req) : Except Bytes Bytes :=
  match multiSlot queue none with
  | none => .error (bytes "CROSSSLOT Keys in MULTI transaction don't hash to the same slot")
  | some none =>
    match env.masters with
    | [] => .error (bytes "ERR no cluster nodes available")
    | master :: _ => .ok master.1
  | some (some slot) =>
    match env.nodeForSlot slot with
    | none => .error (noNode slot)
    | some addr => .ok addr

/-- `execMulti` without a watch connection. -/
def execUnwatched (env : Env) (s : Session) : Plan :=
  if s.txQueue = [] then .execEmpty
  else
    match resolveMultiSlot env s.txQueue with
    | .error msg => .execError (encodeError msg)
    | .ok addr =>
      match s.multiBackend with
      | none => .execDial addr
      | some c => if (s.conns c).any fun b => b.addr = addr then .execReuse c else .execDial addr

/-- `execMulti`. -/
def execMulti (env : Env) (s : Session) : Plan :=
  if s.txErr then .execAbort
  else if s.state = .watchMulti then
    match s.watchBackend with
    | some c => .execWatched c
    | none => execUnwatched env s
  else execUnwatched env s

/-- The default branch of `handleInMulti`. -/
def queueRequest (req : Request) : Plan :=
  match getCmdInfo req.cmd with
  | none => .queueError (encodeError
      (bytes "ERR unknown command '" ++ toLower req.cmd ++ bytes "'"))
  | some info =>
    if info.isNotAllowed then .queueError (encodeError (notSupported req.cmd)) else .queue

/-- `handleInMulti`. It is called in the two MULTI states only, so the case of `stateWatch`
under MULTI does not occur. -/
def handleInMulti (env : Env) (s : Session) (req : Request) : Plan :=
  match Verb.of req with
  | .exec => execMulti env s
  | .discard => .discard
  | .multi => .error (bytes "ERR MULTI calls can not be nested")
  | .watch => .error (bytes "ERR WATCH inside MULTI is not allowed")
  | .unwatch => .error (bytes "ERR UNWATCH not allowed inside MULTI")
  | .reset => .reset
  | .quit => .quit
  | _ => queueRequest req

/-- `handleInSubscribe`. -/
def handleInSubscribe (req : Request) : Plan :=
  match Verb.of req with
  | .reset => .reset
  | .quit => .quit
  | .ping => .push (encodeValue (.array [.bulkString (bytes "pong"), .bulkString []]))
  | .unsubscribe | .punsubscribe => .unsubscribe
  | .subscribe | .psubscribe => .subscribe
  | _ => .error (bytes "ERR Command not allowed inside a subscription context")

/-- `dispatchClientRequest`. -/
def dispatchClientRequest (cfg : Config) (env : Env) (s : Session) (req : Request) : Plan :=
  if req.args = [] then .write (encodeError (bytes "ERR empty command"))
  else
    match s.state with
    | .multi | .watchMulti => handleInMulti env s req
    | .subscribe => handleInSubscribe req
    | .blocking =>
      if [Verb.quit, .reset].contains (Verb.of req) then handleNormal cfg env s req else .buffer
    | .watch | .normal => handleNormal cfg env s req

end Pluster.Engine
