import Pluster.Proto.Resp

/-!
# The command table

The table of `pkg/proto/command.go` and the lookups that the handlers of a client
use. The arity of a command is not read by them.
-/

namespace Pluster.Proto

open GoStrings

variable {name : Bytes}

/-- `CmdFlag`, one bit of a flag word. -/
inductive CmdFlag
  | write
  | read
  | admin
  | pubSub
  | noKey
  | multiKey
  | blocking
  | transaction
  | script
  | allNodes
  | notAllowed
  deriving DecidableEq

/-- `CmdInfo`. -/
structure CmdInfo where
  name : Bytes
  flags : List CmdFlag
  /-- `KeySpec.FirstKey`. -/
  firstKey : ℕ
  /-- `KeySpec.LastKey`, from the end if it is negative. -/
  lastKey : ℤ
  /-- `KeySpec.Step`. -/
  step : ℕ

/-- `cmdTable`. -/
def cmdTable : List CmdInfo := [
  ⟨bytes "GET", [.read], 1, 1, 1⟩,
  ⟨bytes "SET", [.write], 1, 1, 1⟩,
  ⟨bytes "DEL", [.write, .multiKey], 1, -1, 1⟩,
  ⟨bytes "UNLINK", [.write, .multiKey], 1, -1, 1⟩,
  ⟨bytes "MGET", [.read, .multiKey], 1, -1, 1⟩,
  ⟨bytes "MSET", [.write, .multiKey], 1, -1, 2⟩,
  ⟨bytes "MSETNX", [.write, .multiKey], 1, -1, 2⟩,
  ⟨bytes "EXISTS", [.read, .multiKey], 1, -1, 1⟩,
  ⟨bytes "TOUCH", [.read, .multiKey], 1, -1, 1⟩,
  ⟨bytes "APPEND", [.write], 1, 1, 1⟩,
  ⟨bytes "GETSET", [.write], 1, 1, 1⟩,
  ⟨bytes "GETDEL", [.write], 1, 1, 1⟩,
  ⟨bytes "GETEX", [.write], 1, 1, 1⟩,
  ⟨bytes "SETNX", [.write], 1, 1, 1⟩,
  ⟨bytes "SETEX", [.write], 1, 1, 1⟩,
  ⟨bytes "PSETEX", [.write], 1, 1, 1⟩,
  ⟨bytes "GETRANGE", [.read], 1, 1, 1⟩,
  ⟨bytes "SETRANGE", [.write], 1, 1, 1⟩,
  ⟨bytes "STRLEN", [.read], 1, 1, 1⟩,
  ⟨bytes "INCR", [.write], 1, 1, 1⟩,
  ⟨bytes "INCRBY", [.write], 1, 1, 1⟩,
  ⟨bytes "INCRBYFLOAT", [.write], 1, 1, 1⟩,
  ⟨bytes "DECR", [.write], 1, 1, 1⟩,
  ⟨bytes "DECRBY", [.write], 1, 1, 1⟩,
  ⟨bytes "HGET", [.read], 1, 1, 1⟩,
  ⟨bytes "HSET", [.write], 1, 1, 1⟩,
  ⟨bytes "HSETNX", [.write], 1, 1, 1⟩,
  ⟨bytes "HMGET", [.read], 1, 1, 1⟩,
  ⟨bytes "HMSET", [.write], 1, 1, 1⟩,
  ⟨bytes "HDEL", [.write], 1, 1, 1⟩,
  ⟨bytes "HEXISTS", [.read], 1, 1, 1⟩,
  ⟨bytes "HGETALL", [.read], 1, 1, 1⟩,
  ⟨bytes "HKEYS", [.read], 1, 1, 1⟩,
  ⟨bytes "HVALS", [.read], 1, 1, 1⟩,
  ⟨bytes "HLEN", [.read], 1, 1, 1⟩,
  ⟨bytes "HSTRLEN", [.read], 1, 1, 1⟩,
  ⟨bytes "HRANDFIELD", [.read], 1, 1, 1⟩,
  ⟨bytes "HINCRBY", [.write], 1, 1, 1⟩,
  ⟨bytes "HINCRBYFLOAT", [.write], 1, 1, 1⟩,
  ⟨bytes "HSCAN", [.read], 1, 1, 1⟩,
  ⟨bytes "LPUSH", [.write], 1, 1, 1⟩,
  ⟨bytes "LPUSHX", [.write], 1, 1, 1⟩,
  ⟨bytes "RPUSH", [.write], 1, 1, 1⟩,
  ⟨bytes "RPUSHX", [.write], 1, 1, 1⟩,
  ⟨bytes "LPOP", [.write], 1, 1, 1⟩,
  ⟨bytes "RPOP", [.write], 1, 1, 1⟩,
  ⟨bytes "LLEN", [.read], 1, 1, 1⟩,
  ⟨bytes "LRANGE", [.read], 1, 1, 1⟩,
  ⟨bytes "LINDEX", [.read], 1, 1, 1⟩,
  ⟨bytes "LSET", [.write], 1, 1, 1⟩,
  ⟨bytes "LINSERT", [.write], 1, 1, 1⟩,
  ⟨bytes "LREM", [.write], 1, 1, 1⟩,
  ⟨bytes "LTRIM", [.write], 1, 1, 1⟩,
  ⟨bytes "LPOS", [.read], 1, 1, 1⟩,
  ⟨bytes "LMOVE", [.write], 1, 2, 1⟩,
  ⟨bytes "RPOPLPUSH", [.write, .notAllowed], 1, 2, 1⟩,
  ⟨bytes "LMPOP", [.write], 2, -1, 1⟩,
  ⟨bytes "BLPOP", [.write, .blocking], 1, -2, 1⟩,
  ⟨bytes "BRPOP", [.write, .blocking], 1, -2, 1⟩,
  ⟨bytes "SADD", [.write], 1, 1, 1⟩,
  ⟨bytes "SREM", [.write], 1, 1, 1⟩,
  ⟨bytes "SMEMBERS", [.read], 1, 1, 1⟩,
  ⟨bytes "SISMEMBER", [.read], 1, 1, 1⟩,
  ⟨bytes "SMISMEMBER", [.read], 1, 1, 1⟩,
  ⟨bytes "SCARD", [.read], 1, 1, 1⟩,
  ⟨bytes "SPOP", [.write], 1, 1, 1⟩,
  ⟨bytes "SRANDMEMBER", [.read], 1, 1, 1⟩,
  ⟨bytes "SMOVE", [.write, .notAllowed], 1, 2, 1⟩,
  ⟨bytes "SUNION", [.read, .multiKey, .notAllowed], 1, -1, 1⟩,
  ⟨bytes "SINTER", [.read, .multiKey, .notAllowed], 1, -1, 1⟩,
  ⟨bytes "SDIFF", [.read, .multiKey, .notAllowed], 1, -1, 1⟩,
  ⟨bytes "SUNIONSTORE", [.write, .multiKey, .notAllowed], 1, -1, 1⟩,
  ⟨bytes "SINTERSTORE", [.write, .multiKey, .notAllowed], 1, -1, 1⟩,
  ⟨bytes "SDIFFSTORE", [.write, .multiKey, .notAllowed], 1, -1, 1⟩,
  ⟨bytes "SSCAN", [.read], 1, 1, 1⟩,
  ⟨bytes "SINTERCARD", [.read, .multiKey, .notAllowed], 2, -1, 1⟩,
  ⟨bytes "ZADD", [.write], 1, 1, 1⟩,
  ⟨bytes "ZREM", [.write], 1, 1, 1⟩,
  ⟨bytes "ZINCRBY", [.write], 1, 1, 1⟩,
  ⟨bytes "ZRANK", [.read], 1, 1, 1⟩,
  ⟨bytes "ZREVRANK", [.read], 1, 1, 1⟩,
  ⟨bytes "ZSCORE", [.read], 1, 1, 1⟩,
  ⟨bytes "ZMSCORE", [.read], 1, 1, 1⟩,
  ⟨bytes "ZCARD", [.read], 1, 1, 1⟩,
  ⟨bytes "ZCOUNT", [.read], 1, 1, 1⟩,
  ⟨bytes "ZLEXCOUNT", [.read], 1, 1, 1⟩,
  ⟨bytes "ZRANGE", [.read], 1, 1, 1⟩,
  ⟨bytes "ZREVRANGE", [.read], 1, 1, 1⟩,
  ⟨bytes "ZRANGEBYSCORE", [.read], 1, 1, 1⟩,
  ⟨bytes "ZREVRANGEBYSCORE", [.read], 1, 1, 1⟩,
  ⟨bytes "ZRANGEBYLEX", [.read], 1, 1, 1⟩,
  ⟨bytes "ZREVRANGEBYLEX", [.read], 1, 1, 1⟩,
  ⟨bytes "ZRANGESTORE", [.write], 1, 2, 1⟩,
  ⟨bytes "ZREMRANGEBYSCORE", [.write], 1, 1, 1⟩,
  ⟨bytes "ZREMRANGEBYRANK", [.write], 1, 1, 1⟩,
  ⟨bytes "ZREMRANGEBYLEX", [.write], 1, 1, 1⟩,
  ⟨bytes "ZPOPMIN", [.write], 1, 1, 1⟩,
  ⟨bytes "ZPOPMAX", [.write], 1, 1, 1⟩,
  ⟨bytes "ZRANDMEMBER", [.read], 1, 1, 1⟩,
  ⟨bytes "ZSCAN", [.read], 1, 1, 1⟩,
  ⟨bytes "ZUNIONSTORE", [.write, .multiKey, .notAllowed], 1, 1, 1⟩,
  ⟨bytes "ZINTERSTORE", [.write, .multiKey, .notAllowed], 1, 1, 1⟩,
  ⟨bytes "ZDIFFSTORE", [.write, .multiKey, .notAllowed], 1, 1, 1⟩,
  ⟨bytes "ZUNION", [.read, .multiKey, .notAllowed], 2, -1, 1⟩,
  ⟨bytes "ZINTER", [.read, .multiKey, .notAllowed], 2, -1, 1⟩,
  ⟨bytes "ZDIFF", [.read, .multiKey, .notAllowed], 2, -1, 1⟩,
  ⟨bytes "BZPOPMIN", [.write, .blocking], 1, -2, 1⟩,
  ⟨bytes "BZPOPMAX", [.write, .blocking], 1, -2, 1⟩,
  ⟨bytes "BLMOVE", [.write, .blocking], 1, 2, 1⟩,
  ⟨bytes "BLMPOP", [.write, .blocking], 0, 0, 0⟩,
  ⟨bytes "BZMPOP", [.write, .blocking], 0, 0, 0⟩,
  ⟨bytes "EXPIRE", [.write], 1, 1, 1⟩,
  ⟨bytes "EXPIREAT", [.write], 1, 1, 1⟩,
  ⟨bytes "PEXPIRE", [.write], 1, 1, 1⟩,
  ⟨bytes "PEXPIREAT", [.write], 1, 1, 1⟩,
  ⟨bytes "EXPIRETIME", [.read], 1, 1, 1⟩,
  ⟨bytes "PEXPIRETIME", [.read], 1, 1, 1⟩,
  ⟨bytes "TTL", [.read], 1, 1, 1⟩,
  ⟨bytes "PTTL", [.read], 1, 1, 1⟩,
  ⟨bytes "PERSIST", [.write], 1, 1, 1⟩,
  ⟨bytes "TYPE", [.read], 1, 1, 1⟩,
  ⟨bytes "RENAME", [.write, .notAllowed], 1, 2, 1⟩,
  ⟨bytes "RENAMENX", [.write, .notAllowed], 1, 2, 1⟩,
  ⟨bytes "COPY", [.write], 1, 2, 1⟩,
  ⟨bytes "MOVE", [.write, .notAllowed], 1, 1, 1⟩,
  ⟨bytes "DUMP", [.read, .notAllowed], 1, 1, 1⟩,
  ⟨bytes "RESTORE", [.write, .notAllowed], 1, 1, 1⟩,
  ⟨bytes "OBJECT", [.read], 2, 2, 1⟩,
  ⟨bytes "SORT", [.write], 1, 1, 1⟩,
  ⟨bytes "SCAN", [.read, .allNodes], 0, 0, 0⟩,
  ⟨bytes "PFADD", [.write], 1, 1, 1⟩,
  ⟨bytes "PFCOUNT", [.read, .multiKey], 1, -1, 1⟩,
  ⟨bytes "PFMERGE", [.write, .multiKey, .notAllowed], 1, -1, 1⟩,
  ⟨bytes "GEOADD", [.write], 1, 1, 1⟩,
  ⟨bytes "GEODIST", [.read], 1, 1, 1⟩,
  ⟨bytes "GEOHASH", [.read], 1, 1, 1⟩,
  ⟨bytes "GEOPOS", [.read], 1, 1, 1⟩,
  ⟨bytes "GEORADIUS", [.write], 1, 1, 1⟩,
  ⟨bytes "GEORADIUSBYMEMBER", [.write], 1, 1, 1⟩,
  ⟨bytes "GEOSEARCH", [.read], 1, 1, 1⟩,
  ⟨bytes "GEOSEARCHSTORE", [.write], 1, 2, 1⟩,
  ⟨bytes "BITCOUNT", [.read], 1, 1, 1⟩,
  ⟨bytes "BITPOS", [.read], 1, 1, 1⟩,
  ⟨bytes "BITOP", [.write, .multiKey], 2, -1, 1⟩,
  ⟨bytes "BITFIELD", [.write], 1, 1, 1⟩,
  ⟨bytes "SETBIT", [.write], 1, 1, 1⟩,
  ⟨bytes "GETBIT", [.read], 1, 1, 1⟩,
  ⟨bytes "XADD", [.write], 1, 1, 1⟩,
  ⟨bytes "XREAD", [.read, .multiKey], 0, 0, 0⟩,
  ⟨bytes "XREADGROUP", [.write, .multiKey], 0, 0, 0⟩,
  ⟨bytes "XRANGE", [.read], 1, 1, 1⟩,
  ⟨bytes "XREVRANGE", [.read], 1, 1, 1⟩,
  ⟨bytes "XLEN", [.read], 1, 1, 1⟩,
  ⟨bytes "XACK", [.write], 1, 1, 1⟩,
  ⟨bytes "XDEL", [.write], 1, 1, 1⟩,
  ⟨bytes "XTRIM", [.write], 1, 1, 1⟩,
  ⟨bytes "XINFO", [.read], 2, 2, 1⟩,
  ⟨bytes "XGROUP", [.write], 2, 2, 1⟩,
  ⟨bytes "XCLAIM", [.write], 1, 1, 1⟩,
  ⟨bytes "XAUTOCLAIM", [.write], 1, 1, 1⟩,
  ⟨bytes "XPENDING", [.read], 1, 1, 1⟩,
  ⟨bytes "EVAL", [.script], 3, 0, 1⟩,
  ⟨bytes "EVALSHA", [.script], 3, 0, 1⟩,
  ⟨bytes "EVAL_RO", [.script, .read], 3, 0, 1⟩,
  ⟨bytes "EVALSHA_RO", [.script, .read], 3, 0, 1⟩,
  ⟨bytes "SCRIPT", [.script, .admin], 0, 0, 0⟩,
  ⟨bytes "PUBLISH", [.pubSub], 0, 0, 0⟩,
  ⟨bytes "SUBSCRIBE", [.pubSub], 0, 0, 0⟩,
  ⟨bytes "UNSUBSCRIBE", [.pubSub], 0, 0, 0⟩,
  ⟨bytes "PSUBSCRIBE", [.pubSub], 0, 0, 0⟩,
  ⟨bytes "PUNSUBSCRIBE", [.pubSub], 0, 0, 0⟩,
  ⟨bytes "PUBSUB", [.pubSub, .read], 0, 0, 0⟩,
  ⟨bytes "MULTI", [.transaction], 0, 0, 0⟩,
  ⟨bytes "EXEC", [.transaction], 0, 0, 0⟩,
  ⟨bytes "DISCARD", [.transaction], 0, 0, 0⟩,
  ⟨bytes "WATCH", [.transaction], 1, -1, 1⟩,
  ⟨bytes "UNWATCH", [.transaction], 0, 0, 0⟩,
  ⟨bytes "PING", [.noKey], 0, 0, 0⟩,
  ⟨bytes "ECHO", [.noKey], 0, 0, 0⟩,
  ⟨bytes "SELECT", [.noKey], 0, 0, 0⟩,
  ⟨bytes "AUTH", [.noKey], 0, 0, 0⟩,
  ⟨bytes "QUIT", [.noKey], 0, 0, 0⟩,
  ⟨bytes "RESET", [.noKey], 0, 0, 0⟩,
  ⟨bytes "CLIENT", [.noKey], 0, 0, 0⟩,
  ⟨bytes "DBSIZE", [.read, .allNodes], 0, 0, 0⟩,
  ⟨bytes "KEYS", [.read, .allNodes], 0, 0, 0⟩,
  ⟨bytes "RANDOMKEY", [.read, .allNodes, .notAllowed], 0, 0, 0⟩,
  ⟨bytes "FLUSHDB", [.write, .admin, .allNodes], 0, 0, 0⟩,
  ⟨bytes "FLUSHALL", [.write, .admin, .allNodes], 0, 0, 0⟩,
  ⟨bytes "INFO", [.read, .admin], 0, 0, 0⟩,
  ⟨bytes "CONFIG", [.admin], 0, 0, 0⟩,
  ⟨bytes "DEBUG", [.admin], 0, 0, 0⟩,
  ⟨bytes "CLUSTER", [.admin], 0, 0, 0⟩,
  ⟨bytes "COMMAND", [.noKey], 0, 0, 0⟩,
  ⟨bytes "LATENCY", [.admin], 0, 0, 0⟩,
  ⟨bytes "SLOWLOG", [.admin], 0, 0, 0⟩,
  ⟨bytes "TIME", [.read, .noKey], 0, 0, 0⟩,
  ⟨bytes "WAIT", [.noKey], 0, 0, 0⟩,
  ⟨bytes "HELLO", [.noKey], 0, 0, 0⟩,
  ⟨bytes "READONLY", [.noKey], 0, 0, 0⟩,
  ⟨bytes "READWRITE", [.noKey], 0, 0, 0⟩,
  ⟨bytes "BROADCAST", [.admin, .allNodes], 0, 0, 0⟩]

/-- `GetCmdInfo`. -/
def getCmdInfo (name : Bytes) : Option CmdInfo := cmdTable.find? fun info => info.name = name

/-- The names of the table have no line feed. -/
theorem no_lf_of_getCmdInfo {info : CmdInfo} (h : getCmdInfo name = some info) : 10 ∉ name := by
  have hnames : ∀ info ∈ cmdTable, 10 ∉ info.name := by decide +kernel
  have hname : info.name = name := by simpa using List.find?_some h
  rw [← hname]
  exact hnames info (List.mem_of_find?_eq_some h)

theorem getCmdInfo_of_lf (h : 10 ∈ name) : getCmdInfo name = none := by
  cases hinfo : getCmdInfo name with
  | none => rfl
  | some info => exact absurd h (no_lf_of_getCmdInfo hinfo)

namespace CmdInfo

/-- `HasFlag`. -/
def hasFlag (info : CmdInfo) (f : CmdFlag) : Bool := info.flags.contains f

/-- `IsWrite`. -/
def isWrite (info : CmdInfo) : Bool := info.hasFlag .write

/-- `IsRead`. -/
def isRead (info : CmdInfo) : Bool := info.hasFlag .read

/-- `IsMultiKey`. -/
def isMultiKey (info : CmdInfo) : Bool := info.hasFlag .multiKey

/-- `IsBlocking`. -/
def isBlocking (info : CmdInfo) : Bool := info.hasFlag .blocking

/-- `IsAllNodes`. -/
def isAllNodes (info : CmdInfo) : Bool := info.hasFlag .allNodes

/-- `IsNotAllowed`. -/
def isNotAllowed (info : CmdInfo) : Bool := info.hasFlag .notAllowed

end CmdInfo

/-- `GetFirstKeyAndInfo`. -/
def getFirstKeyAndInfo (req : Request) : Option Bytes × Option CmdInfo :=
  if req.args = [] then (none, none)
  else
    match getCmdInfo req.cmd with
    | none => (none, none)
    | some info => (if info.firstKey = 0 then none else req.args[info.firstKey]?, some info)

/-- `GetFirstKeyFromRequest`. -/
def getFirstKeyFromRequest (req : Request) : Option Bytes := (getFirstKeyAndInfo req).1

/-- The arguments at the positions from `first` to `last` of a loop with a step. -/
def keysBetween (args : List Bytes) (first last step : ℕ) : List Bytes :=
  (List.range' first ((last - first) / step + 1) step).filterMap fun i => args[i]?

/-- `GetKeys`. -/
def getKeys (req : Request) : List Bytes :=
  if req.args = [] then []
  else
    match getCmdInfo req.cmd with
    | none => []
    | some info =>
      if info.firstKey = 0 then []
      else
        let step := if info.step = 0 then 1 else info.step
        let argc : ℤ := req.args.length
        let last := if info.lastKey < 0 then argc + info.lastKey else info.lastKey
        if argc ≤ info.firstKey ∨ argc ≤ last ∨ last < info.firstKey then []
        else keysBetween req.args info.firstKey last.toNat step

/-- `IsBlockingXREAD`: XREAD or XREADGROUP with a BLOCK argument that is not the last one. -/
def isBlockingXREAD (req : Request) : Bool :=
  if req.cmd ≠ bytes "XREAD" ∧ req.cmd ≠ bytes "XREADGROUP" then false
  else req.args.tail.dropLast.any fun arg => equalFold arg (bytes "BLOCK")

end Pluster.Proto
