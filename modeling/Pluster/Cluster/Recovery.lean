import Pluster.Cluster.Listing

/-!
# The topology that was listed

`parseClusterNodes` recovers the cluster from the answer to CLUSTER NODES: the nodes that are
kept with their roles, the owner of every slot, and the replicas of every master. The order
in which Go ranges over the map of nodes does not matter.
-/

namespace Pluster.Cluster

open GoStrings

variable {ds : List Desc} {nodes : List Node} {n : Node}

/-! ### The lines -/

/-- The nodes of a cluster, as a node of the cluster may list them. -/
structure ClusterOk (ds : List Desc) : Prop where
  desc : ∀ d ∈ ds, d.Ok
  ids : (ds.map Desc.id).Nodup
  addrs : (ds.map Desc.addr).Nodup
  disjoint : ∀ d ∈ ds, ∀ d' ∈ ds, ∀ s, d.owns s → d'.owns s → d = d'
  named : ∀ r ∈ ds, r.isMaster = false → ∀ d ∈ ds, d.id = r.master → d.isMaster = true

theorem foldl_parseLine (hok : ∀ d ∈ ds, d.Ok) (haddrs : (ds.map Desc.addr).Nodup) {p : Parse}
    (hnew : ∀ n ∈ p.nodes, n.addr ∉ ds.map Desc.addr) :
    (ds.map fun d => join 32 d.line).foldl parseLine p = ds.foldl (fun p d => d.addTo p) p := by
  induction ds generalizing p with
  | nil => rfl
  | cons d ds ih =>
    obtain ⟨hd, hrest⟩ := List.nodup_cons.mp haddrs
    have hline : parseLine p (join 32 d.line) = d.addTo p := by
      refine (hok d List.mem_cons_self).parseLine fun n hn heq => ?_
      exact hnew n hn (by simp [heq])
    rw [List.map_cons, List.foldl_cons, List.foldl_cons, hline]
    refine ih (fun d' hd' => hok d' (List.mem_cons_of_mem _ hd')) hrest fun n hn => ?_
    unfold Desc.addTo at hn
    split at hn
    · rcases List.mem_append.mp hn with hold | hlast
      · exact fun hmem => hnew n hold (List.mem_cons_of_mem _ hmem)
      rw [List.mem_singleton.mp hlast]
      exact hd
    · exact fun hmem => hnew n hn (List.mem_cons_of_mem _ hmem)

theorem parseLines_render (h : ClusterOk ds) :
    parseLines (render ds) = ds.foldl (fun p d => d.addTo p) {} := by
  by_cases hne : ds = []
  · subst hne
    rfl
  have hsplit : split (trimSpace (render ds)) 10 = ds.map fun d => join 32 d.line := by
    have hlines : ∀ line ∈ ds.map Desc.line, IsLine line := by
      intro line hline
      obtain ⟨d, hd, rfl⟩ := List.mem_map.mp hline
      exact (h.desc d hd).line
    rw [render, split_text (by simpa using hne) hlines, List.map_map]
    rfl
  rw [parseLines, hsplit]
  exact foldl_parseLine h.desc h.addrs (by simp)

theorem foldl_addTo_nodes (ds : List Desc) (p : Parse) :
    (ds.foldl (fun p d => d.addTo p) p).nodes =
      p.nodes ++ (ds.filter Desc.kept).map Desc.node := by
  induction ds generalizing p with
  | nil => simp
  | cons d ds ih =>
    rw [List.foldl_cons, ih]
    cases hkept : d.kept <;> simp [Desc.addTo, hkept]

/-- The slots belong to the masters that are kept, or are as they were. -/
theorem foldl_addTo_slots (hdisjoint : ∀ d ∈ ds, ∀ d' ∈ ds, ∀ s, d.owns s → d'.owns s → d = d')
    (p : Parse) (s : ℕ) (addr : Bytes) :
    (ds.foldl (fun p d => d.addTo p) p).slots s = some addr ↔
      (∃ d ∈ ds, d.kept = true ∧ d.owns s ∧ d.addr = addr) ∨
        (¬∃ d ∈ ds, d.kept = true ∧ d.owns s) ∧ p.slots s = some addr := by
  induction ds generalizing p with
  | nil => simp
  | cons d ds ih =>
    have hrest := ih (fun d hd d' hd' => hdisjoint d (List.mem_cons_of_mem _ hd) d'
      (List.mem_cons_of_mem _ hd')) (d.addTo p)
    rw [List.foldl_cons, hrest]
    by_cases howner : d.kept = true ∧ d.owns s
    · -- Another owner of the slot is the same node.
      have hsame : ∀ d' ∈ ds, d'.owns s → d' = d := fun d' hd' howns =>
        hdisjoint d' (List.mem_cons_of_mem _ hd') d List.mem_cons_self s howns howner.2
      have hslot : (d.addTo p).slots s = some d.addr := by simp [Desc.addTo, howner]
      rw [hslot]
      constructor
      · rintro (⟨d', hd', hd''⟩ | ⟨-, hsome⟩)
        · exact .inl ⟨d', List.mem_cons_of_mem _ hd', hd''⟩
        · exact .inl ⟨d, List.mem_cons_self, howner.1, howner.2, Option.some.inj hsome⟩
      rintro (⟨d', hd', hkept, howns, rfl⟩ | ⟨hnone, -⟩)
      · rcases List.mem_cons.mp hd' with rfl | hd'
        · by_cases hlater : ∃ d'' ∈ ds, d''.kept = true ∧ d''.owns s
          · obtain ⟨d'', hd'', hkept'', howns''⟩ := hlater
            exact .inl ⟨d'', hd'', hkept'', howns'', by rw [hsame d'' hd'' howns'']⟩
          · exact .inr ⟨hlater, rfl⟩
        · exact .inl ⟨d', hd', hkept, howns, rfl⟩
      · exact absurd ⟨d, List.mem_cons_self, howner⟩ hnone
    · have hslot : (d.addTo p).slots s = p.slots s := by
        unfold Desc.addTo
        split
        · rename_i hkept
          have hnot : ¬d.owns s := fun howns => howner ⟨hkept, howns⟩
          exact if_neg hnot
        · rfl
      rw [hslot, List.exists_mem_cons_iff, List.exists_mem_cons_iff]
      constructor
      · rintro (hlater | ⟨hnone, hsome⟩)
        · exact .inl (.inr hlater)
        refine .inr ⟨?_, hsome⟩
        rintro (hd | hlater)
        · exact howner hd
        · exact hnone hlater
      · rintro ((⟨hkept, howns, -⟩ | hlater) | ⟨hnone, hsome⟩)
        · exact absurd ⟨hkept, howns⟩ howner
        · exact .inl hlater
        · exact .inr ⟨fun hlater => hnone (.inr hlater), hsome⟩

/-! ### The replicas -/

/-- The node with this address is a replica of `m`. -/
def links (nodes : List Node) (m : Node) (addr : Bytes) : Bool :=
  (getNode nodes addr).any fun n => n.role = .replica ∧ n.masterID ≠ [] ∧ n.masterID = m.id

/-- The nodes when the replicas with these addresses are linked. -/
def linked (nodes : List Node) (addrs : List Bytes) : List Node :=
  nodes.map fun m => { m with replicas := addrs.filter (links nodes m) }

theorem getNode_linked (nodes : List Node) (addrs : List Bytes) (addr : Bytes) :
    getNode (linked nodes addrs) addr =
      (getNode nodes addr).map fun m => { m with replicas := addrs.filter (links nodes m) } := by
  simp only [getNode, linked, List.find?_map]
  rfl

/-- Nodes with an address and an ID of their own. -/
structure Distinct (nodes : List Node) : Prop where
  addrs : (nodes.map Node.addr).Nodup
  ids : (nodes.map Node.id).Nodup

theorem getNode_eq_some {addr : Bytes} (h : getNode nodes addr = some n) :
    n ∈ nodes ∧ n.addr = addr := by
  refine ⟨List.mem_of_find?_eq_some h, ?_⟩
  simpa using List.find?_some h

theorem Distinct.getNode_of_mem (h : Distinct nodes) (hn : n ∈ nodes) :
    getNode nodes n.addr = some n := by
  cases hget : getNode nodes n.addr with
  | none =>
    have := List.find?_eq_none.mp hget n hn
    simp at this
  | some m =>
    obtain ⟨hm, haddr⟩ := getNode_eq_some hget
    rw [List.inj_on_of_nodup_map h.addrs hm hn haddr]

theorem Distinct.links_iff (h : Distinct nodes) (hn : n ∈ nodes) (m : Node) :
    links nodes m n.addr = true ↔ n.role = .replica ∧ n.masterID ≠ [] ∧ n.masterID = m.id := by
  simp [links, h.getNode_of_mem hn]

/-- One turn of the loop links one replica, whatever the order of the range in it. -/
theorem Distinct.linkReplica (h : Distinct nodes) {inner : List Bytes}
    (hinner : inner.Perm (nodes.map Node.addr)) (addrs : List Bytes) (addr : Bytes) :
    linkReplica inner (linked nodes addrs) addr = linked nodes (addrs ++ [addr]) := by
  -- If the node is no replica of any node, nothing changes.
  have hsame (hnot : ∀ m ∈ nodes, links nodes m addr = false) :
      linked nodes addrs = linked nodes (addrs ++ [addr]) := by
    refine List.map_congr_left fun m hm => ?_
    simp [List.filter_append, hnot m hm]
  unfold Cluster.linkReplica
  rw [getNode_linked]
  cases hget : getNode nodes addr with
  | none => exact hsame fun m _ => by simp [links, hget]
  | some n =>
    obtain ⟨hn, rfl⟩ := getNode_eq_some hget
    simp only [Option.map_some]
    split
    · rename_i hreplica
      have hlinks (m : Node) : links nodes m n.addr = true ↔ n.masterID = m.id := by
        rw [h.links_iff hn]
        exact ⟨fun hm => hm.2.2, fun hm => ⟨hreplica.1, hreplica.2, hm⟩⟩
      split
      · -- The node that is found has the ID, and no other node has it.
        rename_i a hfind
        have hany := List.find?_some hfind
        rw [getNode_linked] at hany
        cases hgeta : getNode nodes a with
        | none => simp [hgeta] at hany
        | some m₀ =>
          obtain ⟨hm₀, rfl⟩ := getNode_eq_some hgeta
          have hid : m₀.id = n.masterID := by simpa [hgeta] using hany
          unfold linked
          rw [List.map_map]
          refine List.map_congr_left fun m hm => ?_
          by_cases hsame : m.addr = m₀.addr
          · obtain rfl := List.inj_on_of_nodup_map h.addrs hm hm₀ hsame
            have hlink := (hlinks m).mpr hid.symm
            simp [List.filter_append, hlink]
          have hne : m.id ≠ m₀.id := by
            intro heq
            rw [List.inj_on_of_nodup_map h.ids hm hm₀ heq] at hsame
            exact hsame rfl
          have hlink : links nodes m n.addr = false := by
            rw [Bool.eq_false_iff, Ne, hlinks, ← hid]
            exact hne.symm
          simp [List.filter_append, hlink, hsame]
      · rename_i hfind
        refine hsame fun m hm => ?_
        rw [Bool.eq_false_iff, Ne, hlinks]
        intro hid
        have hmem : m.addr ∈ inner := hinner.mem_iff.mpr (List.mem_map_of_mem hm)
        have := List.find?_eq_none.mp hfind m.addr hmem
        rw [getNode_linked, h.getNode_of_mem hm] at this
        simp [hid] at this
    · rename_i hreplica
      refine hsame fun m _ => ?_
      rw [Bool.eq_false_iff, Ne, h.links_iff hn]
      exact fun hlink => hreplica ⟨hlink.1, hlink.2.1⟩

theorem Distinct.linkReplicas (h : Distinct nodes) (hreplicas : ∀ n ∈ nodes, n.replicas = [])
    {order : MapOrder} (horder : order.Ranges nodes) :
    linkReplicas order nodes = linked nodes order.outer := by
  have hstart : linked nodes [] = nodes := by
    refine (List.map_congr_left fun m hm => ?_).trans (List.map_id nodes)
    rw [List.filter_nil, ← hreplicas m hm]
    rfl
  have hloop (addrs done : List Bytes) :
      addrs.foldl (fun nodes addr => Cluster.linkReplica (order.inner addr) nodes addr)
        (linked nodes done) = linked nodes (done ++ addrs) := by
    induction addrs generalizing done with
    | nil => rw [List.foldl_nil, List.append_nil]
    | cons addr addrs ih =>
      rw [List.foldl_cons, h.linkReplica (horder.2 addr), ih]
      simp
  have := hloop order.outer []
  rwa [hstart, List.nil_append] at this

/-! ### The cluster -/

theorem parseLines_nodes (h : ClusterOk ds) :
    (parseLines (render ds)).nodes = (ds.filter Desc.kept).map Desc.node := by
  rw [parseLines_render h, foldl_addTo_nodes, List.nil_append]

theorem ClusterOk.distinct (h : ClusterOk ds) : Distinct ((ds.filter Desc.kept).map Desc.node) := by
  have hsub : (ds.filter Desc.kept).Sublist ds := List.filter_sublist
  constructor
  · rw [List.map_map]
    exact h.addrs.sublist (hsub.map _)
  rw [List.map_map]
  exact h.ids.sublist (hsub.map _)

/-- `parseClusterNodes` of the answer to CLUSTER NODES returns exactly the nodes that are kept
with their IDs, addresses and roles. A slot belongs to the master that lists it, if that master
is kept. Each replica that is kept is once in the replicas of its master and not in those of
another node, and nothing else is in them. -/
theorem parse_recovers_cluster {ds : List Desc} (h : ClusterOk ds) {order : MapOrder}
    (horder : order.Ranges (parseLines (render ds)).nodes) :
    let p := parseClusterNodes order (render ds)
    (p.nodes.map fun n => (n.id, n.addr, n.role)) =
        ((ds.filter Desc.kept).map fun d =>
          (d.id, d.addr, if d.isMaster then NodeRole.master else .replica)) ∧
      (∀ s addr, p.slots s = some addr ↔
        ∃ d ∈ ds, d.kept = true ∧ d.owns s ∧ d.addr = addr) ∧
      (∀ r ∈ ds, r.kept = true → r.isMaster = false → ∀ m ∈ p.nodes,
        m.replicas.count r.addr = if m.role = .master ∧ m.id = r.master then 1 else 0) ∧
      ∀ m ∈ p.nodes, ∀ addr ∈ m.replicas,
        ∃ r ∈ ds, r.kept = true ∧ r.isMaster = false ∧ r.addr = addr ∧ r.master = m.id := by
  intro p
  have hnodes := parseLines_nodes h
  have hdistinct := h.distinct
  rw [hnodes] at horder
  have hp : p.nodes = linked ((ds.filter Desc.kept).map Desc.node) order.outer := by
    change linkReplicas order (parseLines (render ds)).nodes = _
    rw [hnodes]
    refine hdistinct.linkReplicas (fun n hn => ?_) horder
    obtain ⟨d, -, rfl⟩ := List.mem_map.mp hn
    rfl
  refine ⟨?_, fun s addr => ?_, fun r hr hkept hreplica m hm => ?_, fun m hm addr haddr => ?_⟩
  · rw [hp, linked, List.map_map, List.map_map]
    rfl
  · change (parseLines (render ds)).slots s = some addr ↔ _
    rw [parseLines_render h, foldl_addTo_slots h.disjoint]
    simp
  · rw [hp] at hm
    obtain ⟨m₀, hm₀, rfl⟩ := List.mem_map.mp hm
    obtain ⟨d, hd, rfl⟩ := List.mem_map.mp hm₀
    have hnode : r.node ∈ (ds.filter Desc.kept).map Desc.node :=
      List.mem_map_of_mem (List.mem_filter.mpr ⟨hr, hkept⟩)
    have hlinks : links ((ds.filter Desc.kept).map Desc.node) d.node r.addr = true ↔
        d.node.role = .master ∧ d.id = r.master := by
      have hmaster := h.named r hr hreplica d (List.mem_filter.mp hd).1
      have hne := ((h.desc r hr).master hreplica).1
      have hiff := hdistinct.links_iff hnode d.node
      simp only [Desc.node, hreplica, Bool.false_eq_true, if_false, hne, ne_eq, not_false_eq_true,
        true_and] at hiff
      rw [show links _ d.node r.addr = true ↔ r.master = d.id from hiff]
      constructor
      · intro heq
        exact ⟨by simp [Desc.node, hmaster heq.symm], heq.symm⟩
      · exact fun heq => heq.2.symm
    have hone : order.outer.count r.addr = 1 := by
      rw [horder.1.count_eq]
      exact List.count_eq_one_of_mem hdistinct.addrs (List.mem_map_of_mem hnode)
    change (order.outer.filter _).count r.addr = if d.node.role = .master ∧ d.id = r.master then 1 else 0
    by_cases hlink : links ((ds.filter Desc.kept).map Desc.node) d.node r.addr = true
    · rw [if_pos (hlinks.mp hlink), List.count_filter hlink, hone]
    rw [if_neg fun hmaster => hlink (hlinks.mpr hmaster), List.count_eq_zero]
    exact fun hmem => hlink (List.mem_filter.mp hmem).2
  · rw [hp] at hm
    obtain ⟨m₀, hm₀, rfl⟩ := List.mem_map.mp hm
    have hlink := (List.mem_filter.mp haddr).2
    unfold links at hlink
    cases hget : getNode ((ds.filter Desc.kept).map Desc.node) addr with
    | none => simp [hget] at hlink
    | some n =>
      obtain ⟨hn, rfl⟩ := getNode_eq_some hget
      obtain ⟨r, hr, rfl⟩ := List.mem_map.mp hn
      obtain ⟨hr, hkept⟩ := List.mem_filter.mp hr
      simp only [hget, Option.any_some, decide_eq_true_eq] at hlink
      obtain ⟨hrole, -, hid⟩ := hlink
      have hreplica : r.isMaster = false := by
        cases hmaster : r.isMaster
        · rfl
        · simp [Desc.node, hmaster] at hrole
      refine ⟨r, hr, hkept, hreplica, rfl, ?_⟩
      simpa [Desc.node, hreplica] using hid

/-- A master with a range, a single slot and a slot that leaves, its replica, and a master that
has failed. -/
def threeNodes : List Desc :=
  [{ id := bytes "a1", addr := bytes "h:1", port := bytes "@11,x", before := [.myself]
     duty := .master [.range 0 5, .single 9, .migrating (bytes "9->-b2]")] },
   { id := bytes "b2", addr := bytes "h:2", duty := .replica (bytes "a1") [] },
   { id := bytes "c3", addr := bytes "h:3", after := [.fail], duty := .master [.single 7] }]

theorem threeNodes_ok : ClusterOk threeNodes := by
  have hmem {d : Desc} (hd : d ∈ threeNodes) :
      d = threeNodes[0] ∨ d = threeNodes[1] ∨ d = threeNodes[2] := by
    simpa [threeNodes] using hd
  refine ⟨fun d hd => ?_, by decide, by decide, fun d hd d' hd' s howns howns' => ?_, ?_⟩
  · rcases hmem hd with rfl | rfl | rfl
    · exact ⟨by decide, by decide, .inr ⟨bytes "11,x", by decide, by decide⟩, by decide, by decide,
        by decide⟩
    · exact ⟨by decide, by decide, .inl rfl, by decide, by decide, by decide⟩
    · exact ⟨by decide, by decide, .inl rfl, by decide, by decide, by decide⟩
  · have hslots : ∀ d ∈ threeNodes, d.owns s →
        (d = threeNodes[0] ∧ s ≠ 7) ∨ (d = threeNodes[2] ∧ s = 7) := by
      intro d hd howns
      rcases hmem hd with rfl | rfl | rfl
      · left
        simp [threeNodes, Desc.owns, Desc.items, SlotItem.covers] at howns
        exact ⟨rfl, by omega⟩
      · simp [threeNodes, Desc.owns, Desc.isMaster] at howns
      right
      simp [threeNodes, Desc.owns, Desc.items, SlotItem.covers] at howns
      exact ⟨rfl, howns.2⟩
    rcases hslots d hd howns with ⟨rfl, hs⟩ | ⟨rfl, hs⟩ <;>
      rcases hslots d' hd' howns' with ⟨rfl, hs'⟩ | ⟨rfl, hs'⟩
    · rfl
    · exact absurd hs' hs
    · exact absurd hs hs'
    · rfl
  · decide

theorem parse_recovers_cluster_three :
    let order : MapOrder := ⟨[bytes "h:2", bytes "h:1"], fun _ => [bytes "h:1", bytes "h:2"]⟩
    let p := parseClusterNodes order (render threeNodes)
    (p.slots 9 = some (bytes "h:1") ∧ p.slots 7 ≠ some (bytes "h:3")) ∧
      ∀ m ∈ p.nodes, m.replicas.count (bytes "h:2") =
        if m.role = .master ∧ m.id = bytes "a1" then 1 else 0 := by
  intro order p
  have horder : order.Ranges (parseLines (render threeNodes)).nodes := by
    have haddrs : (parseLines (render threeNodes)).nodes.map Node.addr =
        [bytes "h:1", bytes "h:2"] := by
      rw [parseLines_nodes threeNodes_ok]
      decide
    rw [MapOrder.Ranges, haddrs]
    exact ⟨List.Perm.swap _ _ _, fun _ => List.Perm.refl _⟩
  obtain ⟨-, hslots, hreplicas, -⟩ := parse_recovers_cluster threeNodes_ok horder
  refine ⟨⟨(hslots 9 _).mpr ?_, fun hseven => ?_⟩, fun m hm => ?_⟩
  · exact ⟨threeNodes[0], by simp [threeNodes], by decide, by decide, rfl⟩
  · obtain ⟨d, hd, hkept, -, haddr⟩ := (hslots 7 _).mp hseven
    revert d
    decide
  · exact hreplicas threeNodes[1] (by simp [threeNodes]) (by decide) (by decide) m hm

end Pluster.Cluster
