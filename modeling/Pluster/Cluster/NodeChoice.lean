import Pluster.Cluster.Manager
import Pluster.Cluster.SlotTable

/-!
# The node for a slot

`nodeAddrForSlot` of `pkg/router/router.go` and the functions of `pkg/cluster/topology.go` that
choose among the master of a slot and its replicas by a counter, whose new value is an input.
-/

namespace Pluster.Cluster

/-- `ReadMode`. -/
inductive ReadMode
  | masterOnly
  | masterSlave
  | slaveOnly

/-- `GetNodeForSlot`. -/
def getNodeForSlot (snap : Snapshot) (slot : ℤ) : Option Node :=
  if slot < 0 ∨ slot ≥ clusterSlots then none
  else (snap.slots slot.toNat).bind (getNode snap.nodes)

/-- `GetReplicaForSlot`, the address. It is `none` for a master without replicas. -/
def getReplicaForSlot (snap : Snapshot) (rr : ℕ) (slot : ℤ) : Option Bytes :=
  (getNodeForSlot snap slot).bind fun master =>
    master.replicas[rr % master.replicas.length]?

/-- `GetNodeForSlotBalanced`, the address. -/
def getNodeForSlotBalanced (snap : Snapshot) (rr : ℕ) (slot : ℤ) : Option Bytes :=
  (getNodeForSlot snap slot).bind fun master =>
    let all := master.addr :: master.replicas
    all[rr % all.length]?

/-- `nodeAddrForSlot`, with `none` for its error. -/
def nodeAddrForSlot (snap : Snapshot) (mode : ReadMode) (rr : ℕ) (slot : ℤ) (isRead : Bool) :
    Option Bytes :=
  match isRead, mode with
  | true, .masterSlave => getNodeForSlotBalanced snap rr slot
  | true, .slaveOnly =>
    (getReplicaForSlot snap rr slot).or ((getNodeForSlot snap slot).map Node.addr)
  | _, _ => (getNodeForSlot snap slot).map Node.addr

/-- The addresses of the nodes from which a slot is read. -/
def readable (snap : Snapshot) (mode : ReadMode) (slot : ℤ) : List Bytes :=
  match getNodeForSlot snap slot, mode with
  | none, _ => []
  | some m, .masterOnly => [m.addr]
  | some m, .masterSlave => m.addr :: m.replicas
  | some m, .slaveOnly => if m.replicas = [] then [m.addr] else m.replicas

theorem nodeAddrForSlot_read (snap : Snapshot) (mode : ReadMode) (rr : ℕ) (slot : ℤ) :
    nodeAddrForSlot snap mode rr slot true =
      (readable snap mode slot)[rr % (readable snap mode slot).length]? := by
  unfold readable nodeAddrForSlot getNodeForSlotBalanced getReplicaForSlot
  cases getNodeForSlot snap slot with
  | none => cases mode <;> rfl
  | some m =>
    cases mode with
    | masterOnly => simp [Nat.mod_one]
    | masterSlave => rfl
    | slaveOnly =>
      by_cases hnone : m.replicas = []
      · simp [hnone, Nat.mod_one]
      · have hlt := Nat.mod_lt rr (List.length_pos_iff.mpr hnone)
        simp [hnone, hlt]

/-- `isReplicaAddr`, by which `execOnNodeOnce` chooses the read-only pool. -/
def isReplicaAddr (snap : Snapshot) (addr : Bytes) : Bool :=
  (getNode snap.nodes addr).any (·.role = .replica)

/-- In every snapshot made of an answer to CLUSTER NODES, a slot is read from the node that owns
it, or on a read-only connection to one of its replicas. -/
theorem replicas_read_readonly (order : MapOrder) (raw : Bytes) (snapOrder : RangeOrder)
    (fingerprint : Bytes) (mode : ReadMode) (slot : ℤ) :
    let p := parseClusterNodes order raw
    let snap := update snapOrder p fingerprint
    (readable snap mode slot).all fun addr =>
      p.slots slot.toNat = some addr ∨ isReplicaAddr snap addr := by
  intro p snap
  have hlink : LinkOk (parseLines raw).nodes p.nodes :=
    .linkReplicas (fun addr n hn => ((tableOk_parseLines raw).node addr n hn).2) order
  rw [List.all_eq_true]
  intro addr haddr
  rw [decide_eq_true_eq]
  cases hm : getNodeForSlot snap slot with
  | none => simp [readable, hm] at haddr
  | some m =>
    obtain ⟨owner, hslot, hnode⟩ : ∃ owner, p.slots slot.toNat = some owner ∧
        getNode p.nodes owner = some m := by
      unfold getNodeForSlot at hm
      split at hm
      · cases hm
      · exact Option.bind_eq_some_iff.mp hm
    have hread : addr = m.addr ∨ addr ∈ m.replicas := by
      unfold readable at haddr
      rw [hm] at haddr
      cases mode <;> dsimp only at haddr
      · simp_all
      · simp_all
      · split at haddr <;> simp_all
    rcases hread with rfl | hreplica
    · exact .inl ((getNode_eq_some hnode).2 ▸ hslot)
    · obtain ⟨n, hn, hrole, -⟩ := hlink.linked owner m hnode addr hreplica
      rw [← hlink.same, Option.map_eq_some_iff] at hn
      obtain ⟨n', hn', rfl⟩ := hn
      exact .inr (by simpa [isReplicaAddr, snap, update, hn'] using hrole)

end Pluster.Cluster
