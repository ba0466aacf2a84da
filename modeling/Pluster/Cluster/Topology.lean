import Pluster.Lib.TextFields
import Pluster.Proto.Bytes

/-!
# The cluster topology

`parseClusterNodes` of `pkg/cluster/topology.go` reads the answer to `CLUSTER NODES`. The
map of nodes is a list in the order in which the nodes were added, and a pointer to a node
is the address of the node, which is its key. Go ranges over a map in any order: where the
order can matter it is an input.
-/

namespace Pluster.Cluster

open GoStrings

/-- `ClusterSlots`. -/
def clusterSlots : ℕ := 16384

/-- `NodeRole`. -/
inductive NodeRole
  | master
  | replica
  deriving DecidableEq

/-- `Node`. -/
structure Node where
  id : Bytes
  addr : Bytes
  role : NodeRole := .master
  slots : List (ℤ × ℤ) := []
  replicas : List Bytes := []
  masterID : Bytes := []
  deriving DecidableEq

/-- What `parseClusterNodes` has read. -/
structure Parse where
  nodes : List Node := []
  slots : ℕ → Option Bytes := fun _ => none

/-- `nodes[addr]`. -/
def getNode (nodes : List Node) (addr : Bytes) : Option Node := nodes.find? (·.addr = addr)

/-- The node with this address is changed, or added. -/
def putNode (nodes : List Node) (n : Node) : List Node :=
  if (getNode nodes n.addr).isSome then nodes.map fun m => if m.addr = n.addr then n else m
  else nodes ++ [n]

/-- The loop over the slots of a range. -/
def fillSlots (slots : ℕ → Option Bytes) (start stop : ℤ) (addr : Bytes) (s : ℕ) : Option Bytes :=
  if s < clusterSlots ∧ start ≤ s ∧ s ≤ stop then some addr else slots s

/-- One field of the slots of a master: what is added to the ranges of the node and to the
slots. -/
def parseSlotField (addr : Bytes) (acc : List (ℤ × ℤ) × (ℕ → Option Bytes)) (slotField : Bytes) :
    List (ℤ × ℤ) × (ℕ → Option Bytes) :=
  -- A slot that is being migrated is in brackets.
  if hasPrefix slotField (bytes "[") then acc
  else
    match indexByte slotField 45 with
    | some idx =>
      match atoi (slotField.take idx), atoi (slotField.drop (idx + 1)) with
      | some start, some stop => (acc.1 ++ [(start, stop)], fillSlots acc.2 start stop addr)
      | _, _ => acc
    | none =>
      match atoi slotField with
      | some s => (acc.1 ++ [(s, s)], fillSlots acc.2 s s addr)
      | none => acc

/-- The node of a line, without its slots. -/
def parseRole (flags : List Bytes) (masterID : Bytes) (n : Node) : Node :=
  let named := masterID ≠ bytes "-" ∧ masterID ≠ []
  if bytes "master" ∈ flags then { n with role := .master, masterID := [] }
  else if bytes "slave" ∈ flags ∨ bytes "replica" ∈ flags ∨ named then
    { n with role := .replica, masterID := if named then masterID else n.masterID }
  else n

/-- The flags of nodes that are left out. -/
def skipsFlags (flags : List Bytes) : Bool :=
  bytes "noaddr" ∈ flags ∨ bytes "handshake" ∈ flags ∨ bytes "fail" ∈ flags ∨
    bytes "pfail" ∈ flags

/-- The body of the loop over the lines, for the fields of a line. -/
def parseFields (p : Parse) (nodeID addrField flagsField masterID : Bytes)
    (slotFields : List Bytes) : Parse :=
  let addr := (splitN addrField 64 2).headD []
  let flags := split flagsField 44
  if addr = [] ∨ addr = bytes ":0" ∨ skipsFlags flags then p
  else
    let found := (getNode p.nodes addr).getD { id := nodeID, addr }
    let n := parseRole flags masterID (if found.id = [] then { found with id := nodeID } else found)
    if bytes "master" ∈ flags then
      match slotFields.foldl (parseSlotField addr) (n.slots, p.slots) with
      | (ranges, slots) => { nodes := putNode p.nodes { n with slots := ranges }, slots }
    else { p with nodes := putNode p.nodes n }

/-- The body of the loop over the lines. -/
def parseLine (p : Parse) (line : Bytes) : Parse :=
  let line := trimSpace line
  if line = [] then p
  else
    match fields line with
    | nodeID :: addrField :: flagsField :: masterID :: _ :: _ :: _ :: _ :: slotFields =>
      parseFields p nodeID addrField flagsField masterID slotFields
    | _ => p

/-- The loop over the lines. -/
def parseLines (raw : Bytes) : Parse := (split (trimSpace raw) 10).foldl parseLine {}

/-- The body of the loop that links replicas: `inner` is the order of the range over the
nodes in it. -/
def linkReplica (inner : List Bytes) (nodes : List Node) (addr : Bytes) : List Node :=
  match getNode nodes addr with
  | some n =>
    if n.role = .replica ∧ n.masterID ≠ [] then
      match inner.find? fun a => (getNode nodes a).any fun m => m.id = n.masterID with
      | some a =>
        nodes.map fun m => if m.addr = a then { m with replicas := m.replicas ++ [addr] } else m
      | none => nodes
    else nodes
  | none => nodes

/-- The orders in which the two loops that link replicas range over the nodes. -/
structure MapOrder where
  outer : List Bytes
  inner : Bytes → List Bytes

/-- The loop that links replicas to their masters. -/
def linkReplicas (order : MapOrder) (nodes : List Node) : List Node :=
  order.outer.foldl (fun nodes addr => linkReplica (order.inner addr) nodes addr) nodes

/-- `parseClusterNodes`. -/
def parseClusterNodes (order : MapOrder) (raw : Bytes) : Parse :=
  let p := parseLines raw
  { p with nodes := linkReplicas order p.nodes }

/-- The order is one in which Go may range over these nodes. -/
def MapOrder.Ranges (order : MapOrder) (nodes : List Node) : Prop :=
  order.outer.Perm (nodes.map Node.addr) ∧ ∀ addr, (order.inner addr).Perm (nodes.map Node.addr)

end Pluster.Cluster
