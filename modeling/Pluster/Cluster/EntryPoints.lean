import Pluster.Cluster.Manager
import Pluster.Cluster.Recovery

/-!
# Entry points

A manager without entry points asks nobody, and stays without. The nodes of the last answer
become the entry points: an answer that lists no node takes them away, unless the answer
before it listed none either.
-/

namespace Pluster.Cluster

open GoStrings GoSort

variable {nodes : List Node} {order : MapOrder} {raw : Bytes} {m : Manager}

theorem linkReplica_eq_nil {inner : List Bytes} {addr : Bytes} :
    linkReplica inner nodes addr = [] ↔ nodes = [] := by
  unfold linkReplica
  split
  · split
    · split
      · exact List.map_eq_nil_iff
      · exact Iff.rfl
    · exact Iff.rfl
  · exact Iff.rfl

theorem linkReplicas_eq_nil : linkReplicas order nodes = [] ↔ nodes = [] := by
  unfold linkReplicas
  induction order.outer generalizing nodes with
  | nil => exact Iff.rfl
  | cons addr addrs ih => exact ih.trans linkReplica_eq_nil

/-- The text lists a node that is kept. -/
def ListsNode (raw : Bytes) : Prop := (parseLines raw).nodes ≠ []

theorem parseClusterNodes_eq_nil : (parseClusterNodes order raw).nodes = [] ↔ ¬ ListsNode raw := by
  rw [ListsNode, not_not]
  exact linkReplicas_eq_nil

namespace Manager

/-- The fingerprint is the one of the nodes, as far as it says whether there are nodes. -/
def Fingerprinted (m : Manager) : Prop := m.snap.fingerprint = [] ↔ m.snap.nodes = []

theorem fingerprinted_refresh (m : Manager) (e : Refresh) (h : m.Fingerprinted) :
    (m.refresh e).Fingerprinted := by
  unfold refresh
  split
  · unfold Fingerprinted
    rw [snap_refreshFrom]
    exact topoFingerprint_eq_nil
  · exact h

theorem entryPoints_refreshFrom (m : Manager) (e : Refresh) (raw : Bytes) :
    (m.refreshFrom e raw).entryPoints =
      if topoFingerprint e.fingerprint (parseClusterNodes e.link raw).nodes = m.snap.fingerprint
      then m.entryPoints
      else sortStrings ((e.next.of (parseClusterNodes e.link raw).nodes).map Node.addr) := by
  unfold refreshFrom
  dsimp only
  split
  · rfl
  · rw [if_pos (not_not.mp ‹_›)]

/-- An answer leaves the manager with entry points if it lists a node, or if the answer before
it did not list one. -/
theorem entryPoints_refreshFrom_eq_nil (h : m.Fingerprinted) {e : Refresh}
    (hpoints : m.entryPoints ≠ []) :
    (m.refreshFrom e raw).entryPoints = [] ↔ ¬ ListsNode raw ∧ m.snap.nodes ≠ [] := by
  rw [entryPoints_refreshFrom]
  have hpoints' : sortStrings ((e.next.of (parseClusterNodes e.link raw).nodes).map Node.addr) = []
      ↔ ¬ ListsNode raw := by
    rw [sortStrings_eq_nil, List.map_eq_nil_iff, ← List.length_eq_zero_iff,
      (e.next.perm _).length_eq, List.length_eq_zero_iff, parseClusterNodes_eq_nil]
  have hprint : topoFingerprint e.fingerprint (parseClusterNodes e.link raw).nodes = [] ↔
      ¬ ListsNode raw := topoFingerprint_eq_nil.trans parseClusterNodes_eq_nil
  split
  · rename_i heq
    refine iff_of_false hpoints fun ⟨hno, hnodes⟩ => hnodes ?_
    exact h.mp (heq.symm.trans (hprint.mpr hno))
  rename_i hne
  rw [hpoints']
  refine ⟨fun hno => ⟨hno, fun hnodes => hne ?_⟩, And.left⟩
  rw [hprint.mpr hno, h.mpr hnodes]

/-- The refresh does not replace nodes by none. -/
def KeepsNodes (m : Manager) (e : Refresh) : Prop :=
  ∀ raw ∈ m.firstAnswer e, m.snap.nodes ≠ [] → ListsNode raw

theorem entryPoints_refresh (h : m.Fingerprinted) (hpoints : m.entryPoints ≠ []) (e : Refresh) :
    (m.refresh e).entryPoints ≠ [] ↔ m.KeepsNodes e := by
  unfold refresh KeepsNodes
  cases hanswer : m.firstAnswer e with
  | none => simpa using hpoints
  | some raw =>
    simp only [Option.mem_some_iff, forall_eq']
    rw [Ne, entryPoints_refreshFrom_eq_nil h hpoints]
    tauto

/-- A manager without entry points stays without. -/
theorem run_of_entryPoints_eq_nil (h : m.entryPoints = []) (es : List Refresh) : m.run es = m := by
  induction es with
  | nil => rfl
  | cons e es ih =>
    have hstep : m.refresh e = m := by simp [refresh, firstAnswer, h]
    rw [run, Runs.run_cons, hstep]
    exact ih

/-- Every entry point gives the same answer, and maps are ranged over in the order of the
list. -/
def answered (raw : Bytes) : Refresh :=
  let order : RangeOrder := ⟨id, List.Perm.refl⟩
  ⟨fun _ => some raw, ⟨[], fun _ => []⟩, order, order, order, order⟩

theorem firstAnswer_answered (h : m.entryPoints ≠ []) (raw : Bytes) :
    m.firstAnswer (answered raw) = some raw := by
  obtain ⟨n, hn⟩ := Nat.exists_eq_succ_of_ne_zero (List.length_pos_iff.mpr h).ne'
  rw [firstAnswer, hn, List.range_succ_eq_map]
  rfl

theorem listsNode_threeNodes : ListsNode (render threeNodes) := by
  rw [ListsNode, parseLines_nodes threeNodes_ok]
  decide

end Manager

end Pluster.Cluster
