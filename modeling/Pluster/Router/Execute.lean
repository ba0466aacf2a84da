import Pluster.Proto.Command
import Pluster.Proto.Crc16
import Pluster.Lib.GoRuntime
import Pluster.Lib.KeyedOps
import Pluster.Router.Exchange

/-!
# The router

`pkg/router/router.go`: the retries of `execOnNode`, the redirections of
`executeRedirect`, and `Execute` and `ExecScript`, which turn a request into one or more
jobs for the nodes and merge what comes back. Each job runs in a goroutine of its own. What
happens to its calls, and the order in which the jobs end, are inputs.
-/

namespace Pluster.Router

open Proto GoStrings GoRuntime KeyedOps

variable {α : Type}

/-- The result of a router function: a value or the text of an error. -/
abbrev Result := Except Bytes Value

/-- `MaxRedirects`. -/
def maxRedirects : ℕ := 16

/-- `clusterDownMaxRetry`. -/
def clusterDownMaxRetry : ℕ := 3

/-- `pipeRetryMax`. -/
def pipeRetryMax : ℕ := 2

/-- What happens to the calls of one job, by their number. -/
structure CallEnv where
  io : ℕ → CallIO
  /-- The context is cancelled in the wait after the call, with this error. -/
  cancelled : ℕ → Option Bytes := fun _ => none
  /-- `nodeAddrForSlot` before the call. -/
  nodeAddrForSlot : ℕ → ℤ → Bool → Option Bytes

/-! ### Retries and redirections -/

/-- The loop of `execOnNode` with the given number of attempts left after the next one. The
exchange with number `n` is the next one of the job. -/
def execOnNodeFrom (env : CallEnv) (addr : Bytes) (req : Request) (asking : Bool) :
    ℕ → ℕ → Result × List Exchange
  | 0, n =>
    let x := execOnNodeOnce (env.io n) addr req asking
    (x.result, [x])
  | left + 1, n =>
    let x := execOnNodeOnce (env.io n) addr req asking
    let attempt := clusterDownMaxRetry - (left + 1)
    let retry : Result × List Exchange :=
      match env.cancelled n with
      | some err => (.error err, [x])
      | none =>
        match execOnNodeFrom env addr req asking left (n + 1) with
        | (result, log) => (result, x :: log)
    match x.result with
    | .error err => if attempt < pipeRetryMax then retry else (.error err, [x])
    | .ok v => if !v.isClusterDownError && !v.isLoadingError then (.ok v, [x]) else retry

/-- `execOnNode`, from the exchange with number `n` on. -/
def execOnNode (env : CallEnv) (n : ℕ) (addr : Bytes) (req : Request) (asking : Bool) :
    Result × List Exchange :=
  execOnNodeFrom env addr req asking clusterDownMaxRetry n

/-- The address that `executeRedirect` uses. -/
def resolveAddr (env : CallEnv) (n : ℕ) (req : Request) (addr : Bytes) (slot : ℤ) :
    Except Bytes Bytes :=
  if addr = [] then
    let isRead := match getCmdInfo req.cmd with
      | some info => info.isRead && !info.isWrite
      | none => false
    match env.nodeAddrForSlot n slot isRead with
    | some addr => .ok addr
    | none => .error (bytes "no node for slot " ++ itoa slot)
  else .ok addr

/-- `executeRedirect` with the given number of calls left, from the exchange with number `n`
on. -/
def executeRedirectFrom (env : CallEnv) (req : Request) :
    ℕ → ℕ → Bytes → ℤ → Bool → Result × List Exchange
  | 0, _, _, _, _ => (.error (bytes "too many redirects"), [])
  | left + 1, n, addr, slot, asking =>
    match resolveAddr env n req addr slot with
    | .error err => (.error err, [])
    | .ok addr =>
      match execOnNode env n addr req asking with
      | (.error err, log) => (.error err, log)
      | (.ok v, log) =>
        let follow (addr : Bytes) (slot : ℤ) (asking : Bool) : Result × List Exchange :=
          match executeRedirectFrom env req left (n + log.length) addr slot asking with
          | (result, log') => (result, log ++ log')
        if v.isMovedError then
          match v.parseRedirection with
          | none => (.ok v, log)
          | some (newSlot, newAddr) => follow newAddr newSlot false
        else if v.isAskError then
          match v.parseRedirection with
          | none => (.ok v, log)
          | some (_, newAddr) => follow newAddr (-1) true
        else (.ok v, log)

/-- `executeRedirect` at depth 0 with the node of a slot. -/
def executeRedirect (env : CallEnv) (req : Request) (slot : ℕ) : Result × List Exchange :=
  executeRedirectFrom env req (maxRedirects + 1) 0 [] slot false

/-! ### Jobs -/

/-- Where a job goes. -/
inductive Target
  /-- `executeRedirect`. -/
  | slot (slot : ℕ)
  /-- `execOnNode`. -/
  | node (addr : Bytes)

/-- A request of the router to the nodes. -/
structure Job where
  req : Request
  target : Target

/-- What the job returns and the exchanges it makes. -/
def Job.run (env : CallEnv) (job : Job) : Result × List Exchange :=
  match job.target with
  | .slot slot => executeRedirect env job.req slot
  | .node addr => execOnNode env 0 addr job.req false

/-- What the router does with a request. -/
inductive Plan
  | reply (result : Result)
  /-- One job, and what is done with its reply. -/
  | one (job : Job) (finish : Value → Value)
  /-- The same request to each of the masters; the results are merged in their order. -/
  | masters (addrs : List Bytes) (req : Request) (merge : List Result → Result)
  /-- A job for each slot, with the positions of its keys; the results are merged in the
  order in which they come. -/
  | slots (parts : List (List ℕ × Job)) (merge : List (List ℕ × Result) → Result)

/-- The text for a wrong number of arguments. -/
def wrongArgs (name : Bytes) : Bytes :=
  bytes "ERR wrong number of arguments for '" ++ name ++ bytes "' command"

/-- An error value. -/
def Plan.errValue (msg : Bytes) : Plan := .reply (.ok (.error msg))

/-- The error of the functions that need a node. -/
def noNodes : Plan := .reply (.error (bytes "no cluster nodes available"))

/-! ### Merging -/

/-- `mergeIntegerSum`. -/
def mergeIntegerSum (total : ℤ) : List Result → Result
  | [] => .ok (.integer total)
  | .error err :: _ => .error err
  | .ok (.integer n) :: results => mergeIntegerSum (wrap64 (total + n)) results
  | .ok _ :: results => mergeIntegerSum total results

/-- `mergeArrayConcat`. -/
def mergeArrayConcat (all : List Value) : List Result → Result
  | [] => .ok (.array all)
  | .error err :: _ => .error err
  | .ok (.array elems) :: results => mergeArrayConcat (all ++ elems) results
  | .ok _ :: results => mergeArrayConcat all results

/-- `OKValue`. -/
def okValue : Value := .simpleString (bytes "OK")

/-- `mergeOK`. -/
def mergeOK : List Result → Result
  | [] => .ok okValue
  | .error err :: _ => .error err
  | .ok v :: results => if v.isError then .ok v else mergeOK results

/-- The loop of `mergeFirstNonError`: a value, or the first error. -/
def mergeFirstNonErrorLoop : List Result → Option Bytes → Value ⊕ Option Bytes
  | [], firstErr => .inr firstErr
  | .error err :: results, firstErr => mergeFirstNonErrorLoop results (firstErr <|> some err)
  | .ok v :: results, firstErr =>
    if v.isError then mergeFirstNonErrorLoop results firstErr else .inl v

/-- `mergeFirstNonError`. -/
def mergeFirstNonError (results : List Result) : Result :=
  match mergeFirstNonErrorLoop results none with
  | .inl v => .ok v
  | .inr (some err) => .error err
  | .inr none =>
    match results with
    | .ok v :: _ => .ok v
    | _ => .ok okValue

/-- The pairs of one reply to CONFIG GET whose name was not seen before. -/
def addConfig : List Value → List Bytes → List Value → List Bytes × List Value
  | name :: value :: rest, seen, merged =>
    if name.str ∈ seen then addConfig rest seen merged
    else addConfig rest (seen ++ [name.str]) (merged ++ [name, value])
  | _, seen, merged => (seen, merged)

/-- `mergeConfigGet`. -/
def mergeConfigGet : List Result → List Bytes → List Value → Result
  | [], _, merged => .ok (.array merged)
  | .error err :: _, _, _ => .error err
  | .ok v :: results, seen, merged =>
    if v.isError then .ok v
    else
      match v with
      | .array elems =>
        match addConfig elems seen merged with
        | (seen, merged) => mergeConfigGet results seen merged
      | _ => mergeConfigGet results seen merged

/-- The error of a list of results, if one of them has an error. -/
def firstGoError (results : List Result) : Option Bytes :=
  results.findSome? fun
    | .error err => some err
    | .ok _ => none

/-- One master says that it has the script with number `i`. -/
def scriptKnown (i : ℕ) : Result → Bool
  | .ok (.array elems) =>
    match elems[i]? with
    | some (.integer n) => n ≠ 0
    | _ => false
  | _ => false

/-- The end of `executeScriptExists`. -/
def mergeScriptExists (numSHAs : ℕ) (results : List Result) : Result :=
  match firstGoError results with
  | some err => .error err
  | none =>
    .ok (.array ((List.range numSHAs).map fun i =>
      .integer (if results.all (scriptKnown i) then 1 else 0)))

/-- The end of `ExecuteBroadcast`. -/
def mergeBroadcast (addrs : List Bytes) (results : List Result) : Result :=
  .ok (.array ((addrs.zip results).map fun (addr, result) =>
    .array [.bulkString addr, match result with
      | .error err => .error (bytes "ERR " ++ err)
      | .ok v => v]))

/-- The error that a job of a cross-slot command reports: of the call or of the node. -/
def jobError : Result → Option Bytes
  | .error err => some err
  | .ok v => if v.isError then some v.errorMsg else none

/-- The positions and elements that a job of MGET delivers. -/
def mgetElems : List ℕ × Result → List (ℕ × Value)
  | (indices, .ok (.array elems)) => indices.zip elems
  | _ => []

/-- The end of `executeMGET`. -/
def mergeMGET (total : ℕ) (results : List (List ℕ × Result)) : Result :=
  match results.findSome? fun part => jobError part.2 with
  | some err => .error err
  | none => .ok (.array (scatter (List.replicate total .null) (results.flatMap mgetElems)))

/-- A job of MSETNX says that it set nothing. -/
def isZero : Result → Bool
  | .ok (.integer n) => n = 0
  | _ => false

/-- The end of `executeMSET`. -/
def mergeMSET (isMSETNX : Bool) (results : List (List ℕ × Result)) : Result :=
  match results.findSome? fun part => jobError part.2 with
  | some err => .error err
  | none =>
    if isMSETNX then .ok (.integer (if results.any fun part => isZero part.2 then 0 else 1))
    else .ok okValue

/-- The end of `fanOutInteger`: replies that are not integers do not count. -/
def mergeFanOutInteger (results : List (List ℕ × Result)) : Result :=
  mergeIntegerSum 0 (results.map Prod.snd)

/-! ### Requests -/

/-- `getFirstKey`. -/
def getFirstKey (req : Request) (info : CmdInfo) : Option Bytes :=
  if info.firstKey = 0 then none else req.args[info.firstKey]?

/-- `executeOnAnyNode`; `rr` is the new value of `rrCounter`. -/
def executeOnAnyNode (masters : List Bytes) (rr : ℕ) (req : Request) : Plan :=
  match masters[rr % masters.length]? with
  | none => noNodes
  | some addr => .one ⟨req, .node addr⟩ id

/-- `fanOutToMasters` with `execOnNode`. -/
def fanOutToMasters (masters : List Bytes) (req : Request) (merge : List Result → Result) :
    Plan :=
  if masters = [] then noNodes else .masters masters req merge

/-- `executeAllNodes`. -/
def executeAllNodes (masters : List Bytes) (req : Request) (name : Bytes) : Plan :=
  fanOutToMasters masters req
    (if name = bytes "DBSIZE" then mergeIntegerSum 0
      else if name = bytes "KEYS" then mergeArrayConcat []
      else if name = bytes "FLUSHDB" ∨ name = bytes "FLUSHALL" then mergeOK
      else if name = bytes "SCRIPT" then mergeFirstNonError
      else mergeArrayConcat [])

/-- `strconv.ParseUint` in base 10 with 64 bits. -/
def parseUint (s : Bytes) : Option ℕ :=
  if s = [] then none else (digitsVal 0 s).filter (· < 2 ^ 64)

/-- `scanNodeIndexBits`. -/
def scanNodeIndexBits : ℕ := 16

/-- The cursor that the client gets after a node returned its own. -/
def nextClientCursor (masters nodeIdx returned : ℕ) : ℕ :=
  if returned ≠ 0 then returned * 2 ^ scanNodeIndexBits % 2 ^ 64 ||| nodeIdx
  else if nodeIdx + 1 < masters then nodeIdx + 1
  else 0

/-- The reply to SCAN with the cursor replaced. -/
def rewriteCursor (masters nodeIdx : ℕ) : Value → Value
  | .array (cursor :: keys :: rest) =>
    match parseUint cursor.str with
    | none => .array (cursor :: keys :: rest)
    | some returned =>
      .array [.bulkString (formatNat (nextClientCursor masters nodeIdx returned)), keys]
  | v => v

/-- `executeSCAN`. -/
def executeSCAN (masters : List Bytes) (req : Request) : Plan :=
  match req.args with
  | name :: cursor :: rest =>
    if masters = [] then noNodes
    else
      match parseUint cursor with
      | none => .errValue (bytes "ERR value is not an integer or out of range")
      | some clientCursor =>
        let nodeIdx := clientCursor % 2 ^ scanNodeIndexBits
        let realCursor := clientCursor / 2 ^ scanNodeIndexBits
        let (nodeIdx, realCursor) :=
          if masters.length ≤ nodeIdx then (0, 0) else (nodeIdx, realCursor)
        .one ⟨{ args := name :: formatNat realCursor :: rest }, .node (masters.getD nodeIdx [])⟩
          (rewriteCursor masters.length nodeIdx)
  | _ => .errValue (wrongArgs (bytes "scan"))

/-- `executeScriptExists`. -/
def executeScriptExists (masters : List Bytes) (req : Request) : Plan :=
  fanOutToMasters masters req (mergeScriptExists (req.args.length - 2))

/-- `executeScript`. -/
def executeScript (masters : List Bytes) (rr : ℕ) (req : Request) : Plan :=
  match req.args with
  | _ :: sub :: _ =>
    let sub := toUpper sub
    if sub = bytes "LOAD" ∨ sub = bytes "FLUSH" then executeAllNodes masters req (bytes "SCRIPT")
    else if sub = bytes "EXISTS" then executeScriptExists masters req
    else executeOnAnyNode masters rr req
  | _ => .errValue (wrongArgs (bytes "script"))

/-- `executeConfig`. -/
def executeConfig (masters : List Bytes) (rr : ℕ) (req : Request) : Plan :=
  match req.args with
  | _ :: sub :: _ =>
    let sub := toUpper sub
    if sub = bytes "GET" then
      fanOutToMasters masters req fun results => mergeConfigGet results [] []
    else if sub = bytes "SET" ∨ sub = bytes "RESETSTAT" then fanOutToMasters masters req mergeOK
    else executeOnAnyNode masters rr req
  | _ => .errValue (wrongArgs (bytes "config"))

/-- `ExecuteBroadcast`. -/
def executeBroadcast (masters : List Bytes) (req : Request) : Plan :=
  match req.args with
  | _ :: name :: rest =>
    fanOutToMasters masters { args := name :: rest } (mergeBroadcast masters)
  | _ => .errValue (wrongArgs (bytes "broadcast"))

/-- The slots of the keys. -/
def slotsOf {α : Type} (key : α → Bytes) (items : List α) : List ℕ :=
  (items.map fun item => hashSlot (key item)).dedup

/-- One job for each slot: the items of the slot become the arguments after the name. -/
def slotParts {α : Type} (name : Bytes) (key : α → Bytes) (args : α → List Bytes)
    (items : List α) : List (List ℕ × Job) :=
  (slotsOf key items).map fun slot =>
    let part := items.zipIdx.filter fun item => hashSlot (key item.1) = slot
    (part.map Prod.snd, ⟨{ args := name :: part.flatMap fun item => args item.1 }, .slot slot⟩)

/-- `executeMGET`. -/
def executeMGET (req : Request) : Plan :=
  let keys := req.args.tail
  if keys = [] then .errValue (wrongArgs (bytes "mget"))
  else .slots (slotParts (bytes "MGET") id (fun k => [k]) keys) (mergeMGET keys.length)

/-- The pairs of keys and values of MSET. -/
def pairsOf : List Bytes → List (Bytes × Bytes)
  | k :: v :: rest => (k, v) :: pairsOf rest
  | _ => []

/-- `executeMSET`. -/
def executeMSET (req : Request) (name : Bytes) : Plan :=
  if req.args.length < 3 ∨ (req.args.length - 1) % 2 ≠ 0 then .errValue (wrongArgs (toLower name))
  else
    let pairs := pairsOf req.args.tail
    if name = bytes "MSETNX" ∧ 1 < (slotsOf Prod.fst pairs).length then
      .errValue (bytes ("CROSSSLOT MSETNX requires all keys to be in the same slot " ++
        "(atomicity cannot be guaranteed across slots)"))
    else
      .slots (slotParts name Prod.fst (fun pair => [pair.1, pair.2]) pairs)
        (mergeMSET (name = bytes "MSETNX"))

/-- `fanOutInteger`. -/
def fanOutInteger (cmdName : Bytes) (keys : List Bytes) : Plan :=
  .slots (slotParts cmdName id (fun k => [k]) keys) mergeFanOutInteger

/-- `executeDEL`. -/
def executeDEL (req : Request) (name : Bytes) : Plan :=
  let keys := req.args.tail
  if keys = [] then .errValue (wrongArgs (toLower name)) else fanOutInteger name keys

/-- `executeEXISTS`. -/
def executeEXISTS (req : Request) : Plan := fanOutInteger (req.args.headD []) req.args.tail

/-- `executeMultiKey`. For the commands of the last case the first of `GetKeys` is the first
key of the request. -/
def executeMultiKey (masters : List Bytes) (rr : ℕ) (req : Request) : Plan :=
  let name := toUpper (req.args.headD [])
  if name = bytes "MGET" then executeMGET req
  else if name = bytes "MSET" ∨ name = bytes "MSETNX" then executeMSET req name
  else if name = bytes "DEL" ∨ name = bytes "UNLINK" then executeDEL req name
  else if name = bytes "EXISTS" ∨ name = bytes "TOUCH" then executeEXISTS req
  else
    match getFirstKeyFromRequest req with
    | none => executeOnAnyNode masters rr req
    | some key => .one ⟨req, .slot (hashSlot key)⟩ id

/-- The text for a command that the table does not have. -/
def unknownCommand (name : Bytes) : Bytes :=
  bytes "ERR unknown command '" ++ toLower name ++ bytes "', with args beginning with: "

/-- The text for a command that the table marks as not allowed. -/
def notSupported (name : Bytes) : Bytes :=
  bytes "ERR command '" ++ toLower name ++ bytes "' is not supported in cluster proxy"

/-- `Execute`, up to the jobs. -/
def execute (masters : List Bytes) (rr : ℕ) (req : Request) : Plan :=
  match req.args with
  | [] => .reply (.error (bytes "empty request"))
  | name :: _ =>
    let name := toUpper name
    match getCmdInfo name with
    | none => .errValue (unknownCommand name)
    | some info =>
      if info.isNotAllowed then .errValue (notSupported name)
      else if name = bytes "SCAN" then executeSCAN masters req
      else if name = bytes "SCRIPT" then executeScript masters rr req
      else if name = bytes "CONFIG" then executeConfig masters rr req
      else if name = bytes "BROADCAST" then executeBroadcast masters req
      else if info.isAllNodes then executeAllNodes masters req name
      else if info.isMultiKey then executeMultiKey masters rr req
      else
        match getFirstKey req info with
        | none => executeOnAnyNode masters rr req
        | some key => .one ⟨req, .slot (hashSlot key)⟩ id

/-- `ExecScript`, up to the job, and `none` for an index out of range. The loop over the other
keys does not leave the arguments, as they have been counted before. -/
def execScript (masters : List Bytes) (rr : ℕ) (req : Request) : Option Plan :=
  match req.args with
  | _ :: _ :: numKeys :: keys =>
    match atoi numKeys with
    | none => some (.errValue (bytes "ERR value is not an integer or out of range"))
    | some numKeys =>
      if numKeys < 0 then
        some (.errValue (bytes "ERR value is not an integer or out of range"))
      else if numKeys = 0 then some (executeOnAnyNode masters rr req)
      else if (req.args.length : ℤ) < wrap64 (3 + numKeys) then
        some (.errValue (bytes "ERR wrong number of arguments for EVAL"))
      else
        match keys with
        | [] => none
        | firstKey :: more =>
          if (more.take (wrap64 (3 + numKeys) - 4).toNat).any
              fun k => hashSlot k ≠ hashSlot firstKey then
            some (.errValue (bytes "CROSSSLOT Keys in script don't hash to the same slot"))
          else some (.one ⟨req, .slot (hashSlot firstKey)⟩ id)
  | _ => some (.errValue (bytes "ERR wrong number of arguments for EVAL"))

/-! ### Running a plan -/

/-- The order in which a number of jobs end. -/
structure Completion where
  order : ℕ → List ℕ
  perm : ∀ n, (order n).Perm (List.range n)

/-- What happens to the jobs of a request: to the calls of each, and the order in which the
jobs end. -/
structure RouterEnv where
  job : ℕ → CallEnv
  completion : Completion

/-- The jobs of a plan. -/
def Plan.jobs : Plan → List Job
  | .reply _ => []
  | .one job _ => [job]
  | .masters addrs req _ => addrs.map fun addr => ⟨req, .node addr⟩
  | .slots parts _ => parts.map Prod.snd

/-- What the jobs of a plan return, and their exchanges. -/
def Plan.outcomes (env : RouterEnv) (plan : Plan) : List (Result × List Exchange) :=
  plan.jobs.zipIdx.map fun (job, i) => job.run (env.job i)

/-- Rearrange a list in the order in which its elements are completed. -/
def Completion.arrange {α : Type} (completion : Completion) (l : List α) : List α :=
  (completion.order l.length).filterMap fun i => l[i]?

theorem filterMap_getElem?_range (l : List α) :
    (List.range l.length).filterMap (fun i => l[i]?) = l := by
  induction l with
  | nil => rfl
  | cons a l ih =>
    rw [List.length_cons, List.range_succ_eq_map, List.filterMap_cons, List.filterMap_map]
    exact congrArg (List.cons a) ih

theorem Completion.arrange_perm (completion : Completion) (l : List α) :
    (completion.arrange l).Perm l := by
  have hperm := (completion.perm l.length).filterMap fun i => l[i]?
  rwa [filterMap_getElem?_range] at hperm

/-- What the router returns. -/
def Plan.result (env : RouterEnv) (plan : Plan) : Result :=
  match plan with
  | .reply result => result
  | .one job finish => (job.run (env.job 0)).1.map finish
  | .masters addrs req merge =>
    merge (((Plan.masters addrs req merge).outcomes env).map Prod.fst)
  | .slots parts merge =>
    merge (env.completion.arrange
      ((parts.map Prod.fst).zip (((Plan.slots parts merge).outcomes env).map Prod.fst)))

end Pluster.Router
