import Pluster.Cluster.Topology
import Pluster.Lib.GoSort
import Pluster.Lib.Runs

/-!
# The topology manager

`Manager` of `pkg/cluster/topology.go` asks its entry points for CLUSTER NODES, one after the
other until one answers, and replaces the snapshot. When the fingerprint of the nodes
changes, the nodes become the entry points.
-/

namespace Pluster.Cluster

open GoStrings GoSort

/-- An order in which Go ranges over a map of nodes. -/
structure RangeOrder where
  of : List Node → List Node
  perm : ∀ nodes, (of nodes).Perm nodes

/-- `topoSnapshot`. -/
structure Snapshot where
  nodes : List Node := []
  slots : ℕ → Option Bytes := fun _ => none
  masters : List Node := []
  fingerprint : Bytes := []

/-- `Update`. -/
def update (order : RangeOrder) (p : Parse) (fingerprint : Bytes) : Snapshot :=
  let masters := (order.of p.nodes).filter (·.role = .master)
  { nodes := p.nodes
    slots := p.slots
    masters := masters.insertionSort fun n m => n.addr ≤ m.addr
    fingerprint }

/-- What the fingerprint says of a node. -/
def Node.fingerprint (n : Node) : Bytes :=
  n.addr ++ bytes ":" ++ (if n.role = .master then bytes "m" else bytes "r") ++ bytes ":" ++
    n.slots.flatMap fun r => itoa r.1 ++ bytes "-" ++ itoa r.2 ++ bytes ","

/-- `topoFingerprint`. -/
def topoFingerprint (order : RangeOrder) (nodes : List Node) : Bytes :=
  join 124 (sortStrings ((order.of nodes).map Node.fingerprint))

/-- `Manager`. -/
structure Manager where
  entryPoints : List Bytes
  snap : Snapshot := {}
  /-- The calls of `nodeRemovedHook`. -/
  removed : List (List Bytes) := []

/-- One refresh: what the entry points answer, by the number of the attempt, and the orders of
the loops over maps. An attempt in which dialling, AUTH or reading fails has no answer. -/
structure Refresh where
  answer : ℕ → Option Bytes
  link : MapOrder
  fingerprint : RangeOrder
  update : RangeOrder
  prev : RangeOrder
  next : RangeOrder

namespace Manager

/-- `onTopologyChanged`. -/
def onTopologyChanged (m : Manager) (e : Refresh) (prev next : List Node) : Manager :=
  let removed := ((e.prev.of prev).map Node.addr).filter fun addr => (getNode next addr).isNone
  { m with
    removed := if removed = [] then m.removed else m.removed ++ [removed]
    entryPoints := sortStrings ((e.next.of next).map Node.addr) }

/-- `refreshFrom`, once the entry point has answered. -/
def refreshFrom (m : Manager) (e : Refresh) (raw : Bytes) : Manager :=
  let p := parseClusterNodes e.link raw
  let fingerprint := topoFingerprint e.fingerprint p.nodes
  let prevSnap := m.snap
  let m := { m with snap := update e.update p fingerprint }
  if fingerprint ≠ prevSnap.fingerprint then m.onTopologyChanged e prevSnap.nodes p.nodes else m

/-- The first answer of an entry point. -/
def firstAnswer (m : Manager) (e : Refresh) : Option Bytes :=
  (List.range m.entryPoints.length).findSome? e.answer

/-- `refresh`. It fails if there is no answer. -/
def refresh (m : Manager) (e : Refresh) : Manager :=
  match m.firstAnswer e with
  | some raw => m.refreshFrom e raw
  | none => m

/-- The manager after a number of refreshes. -/
abbrev run (m : Manager) (es : List Refresh) : Manager := Runs.run refresh m es

end Manager

/-! ### Fingerprints -/

theorem Node.fingerprint_ne_nil (n : Node) : n.fingerprint ≠ [] := by
  simp [Node.fingerprint, show bytes ":" = [58] from rfl]

theorem join_eq_nil {sep : UInt8} {strs : List Bytes} (h : ∀ s ∈ strs, s ≠ []) :
    join sep strs = [] ↔ strs = [] := by
  constructor
  · intro hjoin
    cases strs with
    | nil => rfl
    | cons s strs =>
      have hs := h s List.mem_cons_self
      cases strs with
      | nil => exact absurd hjoin hs
      | cons s' strs => simp [join] at hjoin
  · rintro rfl
    rfl

/-- Only the fingerprint of no node is empty. -/
theorem topoFingerprint_eq_nil {order : RangeOrder} {nodes : List Node} :
    topoFingerprint order nodes = [] ↔ nodes = [] := by
  have hne : ∀ s ∈ sortStrings ((order.of nodes).map Node.fingerprint), s ≠ [] := by
    intro s hs
    obtain ⟨n, -, rfl⟩ := List.mem_map.mp ((perm_sortStrings _).mem_iff.mp hs)
    exact n.fingerprint_ne_nil
  rw [topoFingerprint, join_eq_nil hne, sortStrings_eq_nil, List.map_eq_nil_iff,
    ← List.length_eq_zero_iff, (order.perm nodes).length_eq, List.length_eq_zero_iff]

/-! ### The masters -/

/-- The addresses of the masters do not depend on the order in which `Update` ranges over the
nodes. -/
theorem map_addr_masters (order : RangeOrder) (p : Parse) (fingerprint : Bytes) :
    (update order p fingerprint).masters.map Node.addr =
      sortStrings ((p.nodes.filter (·.role = .master)).map Node.addr) := by
  have hsort := List.map_insertionSort (fun n m : Node => n.addr ≤ m.addr) (· ≤ ·) Node.addr
    ((order.of p.nodes).filter (·.role = .master)) fun _ _ _ _ => Iff.rfl
  exact hsort.trans (sortStrings_eq_of_perm (((order.perm p.nodes).filter _).map _))

namespace Manager

theorem snap_refreshFrom (m : Manager) (e : Refresh) (raw : Bytes) :
    (m.refreshFrom e raw).snap =
      update e.update (parseClusterNodes e.link raw)
        (topoFingerprint e.fingerprint (parseClusterNodes e.link raw).nodes) := by
  unfold refreshFrom
  dsimp only
  split
  · rfl
  · rfl

/-- The addresses of the masters among the nodes. -/
def masterAddrs (m : Manager) : List Bytes :=
  (m.snap.nodes.filter (·.role = .master)).map Node.addr

/-- The masters are in the order of their addresses. -/
def Listed (m : Manager) : Prop := m.snap.masters.map Node.addr = sortStrings m.masterAddrs

theorem listed_refresh (m : Manager) (e : Refresh) (h : m.Listed) : (m.refresh e).Listed := by
  unfold refresh
  split
  · unfold Listed masterAddrs
    rw [snap_refreshFrom]
    exact map_addr_masters _ _ _
  · exact h

end Manager

end Pluster.Cluster
