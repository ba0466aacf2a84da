import Pluster.Proto.Crc16
import Pluster.Proto.Parse
import Pluster.Engine.RespQueue
import Pluster.Lib.KeyedOps

/-!
# Cross-slot commands

`routeMultiKeyToMux` of `pkg/engine/handler_routing.go`: the keys of MGET, MSET,
DEL, UNLINK, EXISTS and TOUCH are grouped by slot, each group becomes a
sub-command for the node of the slot, and a merge function builds one reply from
the replies to the sub-commands. A command whose keys share a slot is forwarded
as it is.
-/

namespace Pluster.Engine

open Proto GoStrings GoRuntime KeyedOps

/-- The commands that `routeMultiKeyToMux` handles. -/
inductive MultiKeyCmd
  | mget
  | mset
  | del
  | unlink
  | exists_
  | touch
  deriving DecidableEq

namespace MultiKeyCmd

/-- The command name. -/
def name : MultiKeyCmd → Bytes
  | .mget => bytes "MGET"
  | .mset => bytes "MSET"
  | .del => bytes "DEL"
  | .unlink => bytes "UNLINK"
  | .exists_ => bytes "EXISTS"
  | .touch => bytes "TOUCH"

/-- The command name in lower case, as in error texts. -/
def lowerName : MultiKeyCmd → Bytes
  | .mget => bytes "mget"
  | .mset => bytes "mset"
  | .del => bytes "del"
  | .unlink => bytes "unlink"
  | .exists_ => bytes "exists"
  | .touch => bytes "touch"

/-- The command of a name. -/
def ofName (s : Bytes) : Option MultiKeyCmd :=
  [mget, mset, del, unlink, exists_, touch].find? fun cmd => cmd.name = s

end MultiKeyCmd

/-- Every second element of a list, from the first on. -/
def everyOther {α : Type} : List α → List α
  | [] => []
  | [a] => [a]
  | a :: _ :: rest => a :: everyOther rest

/-- The keys of a command, from its arguments after the name. -/
def multiKeys (cmd : MultiKeyCmd) (tail : List Bytes) : List Bytes :=
  if cmd = .mset then everyOther tail else tail

/-- `slotGroup`, with its slot. -/
structure SlotGroup where
  slot : ℕ
  addr : Bytes
  indices : List ℕ
  keys : List Bytes
  deriving DecidableEq

/-- Add a key to the group of its slot, or start a group. The error is a slot without a
node. -/
def insertKey (nodeForSlot : ℕ → Option Bytes) (groups : List SlotGroup) (i : ℕ) (k : Bytes) :
    Except ℕ (List SlotGroup) :=
  let slot := hashSlot k
  if groups.any fun g => g.slot = slot then
    .ok (groups.map fun g =>
      if g.slot = slot then { g with indices := g.indices ++ [i], keys := g.keys ++ [k] } else g)
  else
    match nodeForSlot slot with
    | none => .error slot
    | some addr => .ok (groups ++ [{ slot, addr, indices := [i], keys := [k] }])

/-- The loop that groups the keys by slot. -/
def groupKeys (nodeForSlot : ℕ → Option Bytes) :
    List (Bytes × ℕ) → List SlotGroup → Except ℕ (List SlotGroup)
  | [], groups => .ok groups
  | (k, i) :: rest, groups =>
    match insertKey nodeForSlot groups i k with
    | .error slot => .error slot
    | .ok groups => groupKeys nodeForSlot rest groups

/-- The arguments of the sub-command of a group, `none` for an index out of range. -/
def subArgs (cmd : MultiKeyCmd) (args : List Bytes) (g : SlotGroup) : Option (List Bytes) :=
  let name := args.headD []
  if cmd = .mset then do
    let pairs ← (g.keys.zip g.indices).mapM fun (k, i) => do
      let value ← index args (1 + i * 2 + 1)
      return [k, value]
    return name :: pairs.flatten
  else some (name :: g.keys)

/-- The text of `ErrInvalidProtocol`. -/
def invalidProtocolText : Bytes := bytes "invalid RESP protocol"

/-- The loop of the merge function of MGET. It ends early with a reply in its error case.
A sub-reply is a complete value, so the nil value of an incomplete one does not occur. -/
def mergeMGETLoop : List (SlotGroup × SubResponse) → List (Option Bytes) →
    Except Bytes (List (Option Bytes))
  | [], results => .ok results
  | (sg, sub) :: rest, results =>
    match parseValue sub.data with
    | .error .invalidProtocol => .error (encodeError invalidProtocolText)
    | .error _ => .error []
    | .ok (.error _, _) => .error sub.data
    | .ok (.array elems, _) =>
      mergeMGETLoop rest
        (scatter results (sg.indices.zip (elems.map fun v => some (encodeValue v))))
    | .ok _ => mergeMGETLoop rest results

/-- The merge function of MGET. -/
def mergeMGET (groups : List SlotGroup) (totalKeys : ℕ) (subs : List SubResponse) : Bytes :=
  match mergeMGETLoop (groups.zip subs) (List.replicate totalKeys none) with
  | .error data => data
  | .ok results =>
    [42] ++ formatNat totalKeys ++ crlf ++ results.flatMap fun r => r.getD nilBulkBytes

/-- The merge function of MSET. -/
def mergeMSET : List SubResponse → Bytes
  | [] => encodeSimpleString (bytes "OK")
  | sub :: rest =>
    match parseValue sub.data with
    | .error .invalidProtocol => encodeError invalidProtocolText
    | .ok (.error _, _) => sub.data
    | _ => mergeMSET rest

/-- The merge function of the commands that count keys. -/
def mergeCount (total : ℤ) : List SubResponse → Bytes
  | [] => encodeInteger total
  | sub :: rest =>
    match parseValue sub.data with
    | .error .invalidProtocol => encodeError invalidProtocolText
    | .ok (.error _, _) => sub.data
    | .ok (.integer n, _) => mergeCount (wrap64 (total + n)) rest
    | _ => mergeCount total rest

/-- The merge function of a command. -/
def mergeFunc (cmd : MultiKeyCmd) (groups : List SlotGroup) (totalKeys : ℕ) :
    List SubResponse → Bytes :=
  match cmd with
  | .mget => mergeMGET groups totalKeys
  | .mset => mergeMSET
  | _ => mergeCount 0

/-- What `routeMultiKeyToMux` decides to do. -/
inductive MultiKeyPlan
  /-- Reply at once. -/
  | immediate (data : Bytes)
  /-- Forward the request to the node of its only slot. -/
  | single (addr : Bytes)
  /-- Send a sub-command for each group and merge the replies. -/
  | fanOut (groups : List SlotGroup) (subs : List (Bytes × Request))
      (mergeFunc : List SubResponse → Bytes)
  /-- An index of the arguments is out of range. -/
  | panic

/-- The error for a wrong number of arguments. -/
def wrongArgsError (cmd : MultiKeyCmd) : Bytes :=
  bytes "ERR wrong number of arguments for '" ++ cmd.lowerName ++ bytes "' command"

/-- `routeMultiKeyToMux`. The topology is always there: `LoadTopo` returns at least an
empty one. -/
def routeMultiKeyToMux (nodeForSlot : ℕ → Option Bytes) (cmd : MultiKeyCmd) (req : Request) :
    MultiKeyPlan :=
  let keys := multiKeys cmd req.args.tail
  if keys = [] then .immediate (encodeError (wrongArgsError cmd))
  else
    match groupKeys nodeForSlot keys.zipIdx [] with
    | .error slot => .immediate (encodeError (bytes "ERR no node for slot " ++ formatNat slot))
    | .ok [g] => .single g.addr
    | .ok groups =>
      match groups.mapM (subArgs cmd req.args) with
      | none => .panic
      | some subs =>
        let requests := (groups.zip subs).map fun (g, args) =>
          (g.addr, ({ args, cmd := req.cmd } : Request))
        .fanOut groups requests (mergeFunc cmd groups keys.length)

end Pluster.Engine
