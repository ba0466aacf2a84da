import Pluster.Cluster.Recovery

/-!
# The slot table of an arbitrary text

A line can repeat the address of an earlier one. The slots that a node has been given stay with
it when a later line makes it a replica.
-/

namespace Pluster.Cluster

open GoStrings

variable {addr line : Bytes} {nodes : List Node}

/-- The role that the flags of a line give, and the ID of the master. -/
def givenRole (flags : List Bytes) (masterID : Bytes) : Option NodeRole :=
  if bytes "master" ∈ flags then some .master
  else if bytes "slave" ∈ flags ∨ bytes "replica" ∈ flags ∨
      (masterID ≠ bytes "-" ∧ masterID ≠ []) then some .replica
  else none

/-- The address of a line that is not left out, with the role that the line gives to it. -/
def lineRole (line : Bytes) : Option (Bytes × Option NodeRole) :=
  match fields (trimSpace line) with
  | _ :: addrField :: flagsField :: masterID :: _ :: _ :: _ :: _ :: _ =>
    let addr := (splitN addrField 64 2).headD []
    let flags := split flagsField 44
    if addr = [] ∨ addr = bytes ":0" ∨ skipsFlags flags then none
    else some (addr, givenRole flags masterID)
  | _ => none

/-- A line gives an address its role. -/
def noteRole (role : Bytes → NodeRole) (line : Bytes) : Bytes → NodeRole :=
  match lineRole line with
  | some (addr, some r) => fun a => if a = addr then r else role a
  | _ => role

/-- The role of an address by the last line that gives it one; without one it is a master. -/
def lastRole (raw : Bytes) : Bytes → NodeRole :=
  (split (trimSpace raw) 10).foldl noteRole fun _ => .master

/-- The node lists a range with the slot. -/
def Node.Covers (n : Node) (s : ℕ) : Prop := ∃ r ∈ n.slots, r.1 ≤ s ∧ s ≤ r.2

theorem getNode_putNode (nodes : List Node) (n : Node) (addr : Bytes) :
    getNode (putNode nodes n) addr = if addr = n.addr then some n else getNode nodes addr := by
  unfold putNode getNode
  split
  · rename_i hsome
    have hcomp : (fun m : Node => decide (m.addr = addr)) ∘
        (fun m => if m.addr = n.addr then n else m) = fun m => decide (m.addr = addr) := by
      funext m
      simp only [Function.comp_apply]
      split
      · rename_i heq
        rw [heq]
      · rfl
    rw [List.find?_map, hcomp]
    split
    · rename_i heq
      obtain ⟨m, hm⟩ := Option.isSome_iff_exists.mp hsome
      have haddr : m.addr = n.addr := by simpa using List.find?_some hm
      rw [heq, hm, Option.map_some, if_pos haddr]
    · rename_i hne
      cases hfind : nodes.find? (fun m => decide (m.addr = addr)) with
      | none => rfl
      | some m =>
        have haddr : m.addr = addr := by simpa using List.find?_some hfind
        rw [Option.map_some, if_neg fun heq => hne (haddr.symm.trans heq)]
  · rename_i hnone
    rw [Option.not_isSome_iff_eq_none] at hnone
    rw [List.find?_append]
    split
    · rename_i heq
      rw [heq, hnone, Option.none_or, List.find?_singleton, if_pos (by simp)]
    · rename_i hne
      rw [List.find?_singleton, if_neg (by simpa using Ne.symm hne), Option.or_none]

/-! ### One line -/

/-- What the slots of a line do to the ranges of the node and to the table. -/
structure Assigns (addr : Bytes) (acc next : List (ℤ × ℤ) × (ℕ → Option Bytes)) : Prop where
  kept : ∀ r ∈ acc.1, r ∈ next.1
  owned : ∀ s a, next.2 s = some a → acc.2 s = some a ∨
    (a = addr ∧ ∃ r ∈ next.1, r.1 ≤ s ∧ s ≤ r.2)

theorem assigns_range (acc : List (ℤ × ℤ) × (ℕ → Option Bytes)) (start stop : ℤ) :
    Assigns addr acc (acc.1 ++ [(start, stop)], fillSlots acc.2 start stop addr) where
  kept r hr := List.mem_append_left _ hr
  owned s a hs := by
    change (if _ then _ else _) = _ at hs
    split at hs
    · rename_i hrange
      refine Or.inr ⟨(Option.some.inj hs).symm, (start, stop), ?_, hrange.2⟩
      exact List.mem_append_right _ (List.mem_singleton_self _)
    · exact Or.inl hs

theorem assigns_parseSlotField (addr : Bytes) (acc : List (ℤ × ℤ) × (ℕ → Option Bytes))
    (slotField : Bytes) : Assigns addr acc (parseSlotField addr acc slotField) := by
  have hsame : Assigns addr acc acc := ⟨fun _ hr => hr, fun _ _ hs => Or.inl hs⟩
  unfold parseSlotField
  split
  · exact hsame
  split
  · split
    · exact assigns_range acc _ _
    · exact hsame
  · split
    · exact assigns_range acc _ _
    · exact hsame

theorem assigns_foldl (addr : Bytes) (slotFields : List Bytes)
    (acc : List (ℤ × ℤ) × (ℕ → Option Bytes)) :
    Assigns addr acc (slotFields.foldl (parseSlotField addr) acc) := by
  induction slotFields generalizing acc with
  | nil => exact ⟨fun _ hr => hr, fun _ _ hs => Or.inl hs⟩
  | cons field slotFields ih =>
    have hfirst := assigns_parseSlotField addr acc field
    have hrest := ih (parseSlotField addr acc field)
    refine ⟨fun r hr => hrest.kept r (hfirst.kept r hr), fun s a hs => ?_⟩
    rcases hrest.owned s a hs with hs | howned
    · rcases hfirst.owned s a hs with hs | ⟨ha, r, hr, hcovers⟩
      · exact Or.inl hs
      · exact Or.inr ⟨ha, r, hrest.kept r hr, hcovers⟩
    · exact Or.inr howned

theorem parseLine_of_lineRole_none (h : lineRole line = none) (p : Parse) :
    parseLine p line = p := by
  unfold lineRole at h
  unfold parseLine
  dsimp only
  split
  · rfl
  split
  · rename_i heq
    rw [heq] at h
    dsimp only at h
    split at h
    · rename_i hskips
      exact if_pos hskips
    · cases h
  · rfl

theorem parseRole_fields (flags : List Bytes) (masterID : Bytes) (n : Node) :
    (parseRole flags masterID n).addr = n.addr ∧
      (parseRole flags masterID n).role = (givenRole flags masterID).getD n.role ∧
      (parseRole flags masterID n).replicas = n.replicas ∧
      (parseRole flags masterID n).slots = n.slots := by
  unfold parseRole givenRole
  dsimp only
  split
  · exact ⟨rfl, rfl, rfl, rfl⟩
  split <;> exact ⟨rfl, rfl, rfl, rfl⟩

/-- A line changes the node that it names: it gives it a role and slots. -/
theorem parseLine_of_lineRole {role : Option NodeRole} (h : lineRole line = some (addr, role))
    (p : Parse) :
    ∃ (old n : Node) (slots : ℕ → Option Bytes),
      parseLine p line = { nodes := putNode p.nodes n, slots } ∧
      (getNode p.nodes addr = some old ∨
        getNode p.nodes addr = none ∧ old.role = .master ∧ old.replicas = []) ∧
      n.addr = addr ∧ n.role = role.getD old.role ∧ n.replicas = old.replicas ∧
      Assigns addr (old.slots, p.slots) (n.slots, slots) := by
  unfold lineRole at h
  split at h
  · rename_i nodeID addrField flagsField masterID _ _ _ _ slotFields heq
    dsimp only at h
    split at h
    · cases h
    rename_i hkept
    cases h
    have hne : trimSpace line ≠ [] := by
      intro hnil
      rw [hnil] at heq
      cases heq
    unfold parseLine
    dsimp only
    rw [if_neg hne, heq]
    dsimp only
    unfold parseFields
    dsimp only
    rw [if_neg hkept]
    generalize (splitN addrField 64 2).headD [] = addr
    generalize split flagsField 44 = flags
    have hfound : ∃ found, (getNode p.nodes addr).getD { id := nodeID, addr } = found ∧
        found.addr = addr ∧ (getNode p.nodes addr = some found ∨
          getNode p.nodes addr = none ∧ found.role = .master ∧ found.replicas = []) := by
      cases hget : getNode p.nodes addr with
      | none => exact ⟨_, rfl, rfl, Or.inr ⟨rfl, rfl, rfl⟩⟩
      | some m => exact ⟨m, rfl, (getNode_eq_some hget).2, Or.inl rfl⟩
    obtain ⟨found, hget, haddr, hfound⟩ := hfound
    rw [hget]
    -- The ID is filled in if it is missing. Nothing else depends on it.
    have hbase : ∃ base, (if found.id = [] then { found with id := nodeID } else found) = base ∧
        base.addr = found.addr ∧ base.role = found.role ∧ base.replicas = found.replicas ∧
        base.slots = found.slots := by
      split <;> exact ⟨_, rfl, rfl, rfl, rfl, rfl⟩
    obtain ⟨base, hid, hbaseAddr, hbaseRole, hbaseReplicas, hbaseSlots⟩ := hbase
    rw [hid]
    obtain ⟨hnAddr, hnRole, hnReplicas, hnSlots⟩ := parseRole_fields flags masterID base
    rw [hbaseAddr, haddr] at hnAddr
    rw [hbaseRole] at hnRole
    rw [hbaseReplicas] at hnReplicas
    split
    · refine ⟨found, _, _, rfl, hfound, hnAddr, hnRole, hnReplicas, ?_⟩
      rw [← hbaseSlots, ← hnSlots]
      exact assigns_foldl addr slotFields ((parseRole flags masterID base).slots, p.slots)
    · refine ⟨found, _, _, rfl, hfound, hnAddr, hnRole, hnReplicas, ?_⟩
      rw [hnSlots, hbaseSlots]
      exact ⟨fun _ hr => hr, fun _ _ hs => Or.inl hs⟩
  · cases h

/-! ### The lines -/

/-- Every node has its last role, and owns slots that it lists. -/
structure TableOk (role : Bytes → NodeRole) (p : Parse) : Prop where
  node : ∀ addr n, getNode p.nodes addr = some n → n.role = role addr ∧ n.replicas = []
  fresh : ∀ addr, getNode p.nodes addr = none → role addr = .master
  slots : ∀ s addr, p.slots s = some addr → ∃ n, getNode p.nodes addr = some n ∧ n.Covers s

theorem TableOk.parseLine {role : Bytes → NodeRole} {p : Parse} (h : TableOk role p)
    (line : Bytes) : TableOk (noteRole role line) (parseLine p line) := by
  cases hline : lineRole line with
  | none =>
    rw [parseLine_of_lineRole_none hline, noteRole, hline]
    exact h
  | some named =>
    obtain ⟨addr, given⟩ := named
    obtain ⟨old, n, slots, hparse, hold, rfl, hrole, hreplicas, hassigns⟩ :=
      parseLine_of_lineRole hline p
    have hother : ∀ a ≠ n.addr, noteRole role line a = role a := by
      intro a ha
      unfold noteRole
      rw [hline]
      cases given with
      | none => rfl
      | some r => exact if_neg ha
    have hself : n.role = noteRole role line n.addr := by
      unfold noteRole
      rw [hrole, hline]
      cases given with
      | some r => exact (if_pos rfl).symm
      | none =>
        rcases hold with hold | ⟨hnone, hmaster, -⟩
        · exact (h.node _ old hold).1
        · exact hmaster.trans (h.fresh _ hnone).symm
    rw [hparse]
    refine ⟨fun a m hm => ?_, fun a hnone => ?_, fun s a hs => ?_⟩
    · rw [getNode_putNode] at hm
      split at hm
      · rename_i ha
        cases hm
        rw [ha, ← hself, hreplicas]
        refine ⟨rfl, ?_⟩
        rcases hold with hold | ⟨-, -, hnil⟩
        · exact (h.node _ old hold).2
        · exact hnil
      · rename_i ha
        rw [hother a ha]
        exact h.node a m hm
    · rw [getNode_putNode] at hnone
      split at hnone
      · cases hnone
      · rename_i ha
        rw [hother a ha]
        exact h.fresh a hnone
    · rcases hassigns.owned s a hs with hs | ⟨rfl, hcovers⟩
      · obtain ⟨m, hm, r, hr, hcovers⟩ := h.slots s a hs
        by_cases ha : a = n.addr
        · refine ⟨n, by rw [getNode_putNode, if_pos ha], r, hassigns.kept r ?_, hcovers⟩
          rcases hold with hold | ⟨hnone, -⟩
          · rw [ha, hold, Option.some.injEq] at hm
            exact hm ▸ hr
          · rw [ha, hnone] at hm
            cases hm
        · exact ⟨m, by rw [getNode_putNode, if_neg ha, hm], r, hr, hcovers⟩
      · exact ⟨n, by rw [getNode_putNode, if_pos rfl], hcovers⟩

theorem tableOk_parseLines (raw : Bytes) : TableOk (lastRole raw) (parseLines raw) := by
  unfold lastRole parseLines
  have hnew : TableOk (fun _ => .master) {} :=
    ⟨nofun, fun _ _ => rfl, nofun⟩
  generalize (fun _ : Bytes => NodeRole.master) = role at hnew ⊢
  generalize ({} : Parse) = p at hnew ⊢
  induction split (trimSpace raw) 10 generalizing role p with
  | nil => exact hnew
  | cons line lines ih => exact ih _ _ (hnew.parseLine line)

/-! ### The replicas -/

theorem getNode_map {f : Node → Node} (hf : ∀ n, (f n).addr = n.addr) (nodes : List Node)
    (addr : Bytes) : getNode (nodes.map f) addr = (getNode nodes addr).map f := by
  simp only [getNode, List.find?_map, Function.comp_def, hf]

/-- Links leave the nodes as they are, and a node that is linked is a replica of its master. -/
structure LinkOk (base nodes : List Node) : Prop where
  same : ∀ addr, (getNode nodes addr).map (fun n => { n with replicas := [] }) = getNode base addr
  linked : ∀ addr m, getNode nodes addr = some m → ∀ a ∈ m.replicas,
    ∃ n, getNode base a = some n ∧ n.role = .replica ∧ n.masterID = m.id

theorem LinkOk.linkReplica {base : List Node} (h : LinkOk base nodes) (inner : List Bytes)
    (addr : Bytes) : LinkOk base (linkReplica inner nodes addr) := by
  unfold Cluster.linkReplica
  split
  · rename_i n hn
    split
    · rename_i hreplica
      split
      · rename_i a ha
        have hany := List.find?_some ha
        rw [Option.any_eq_true] at hany
        obtain ⟨m₀, hm₀, hid⟩ := hany
        have hget := getNode_map (f := fun m => if m.addr = a then
          { m with replicas := m.replicas ++ [addr] } else m) (fun m => by split <;> rfl) nodes
        constructor
        · intro b
          rw [hget, ← h.same, Option.map_map]
          congr 1
          funext m
          simp only [Function.comp_apply]
          split <;> rfl
        · intro b m hm x hx
          rw [hget, Option.map_eq_some_iff] at hm
          obtain ⟨m', hm', rfl⟩ := hm
          by_cases hmaster : m'.addr = a
          · rw [if_pos hmaster] at hx ⊢
            rcases List.mem_append.mp hx with hx | hx
            · exact h.linked b m' hm' x hx
            · have hsame : m' = m₀ := by
                rw [← (getNode_eq_some hm').2, hmaster, hm₀, Option.some.injEq] at hm'
                exact hm'.symm
              rw [List.mem_singleton.mp hx, hsame]
              refine ⟨{ n with replicas := [] }, ?_, hreplica.1, (of_decide_eq_true hid).symm⟩
              rw [← h.same, hn]
              rfl
          · rw [if_neg hmaster] at hx ⊢
            exact h.linked b m' hm' x hx
      · exact h
    · exact h
  · exact h

theorem LinkOk.linkReplicas (hnodes : ∀ addr n, getNode nodes addr = some n → n.replicas = [])
    (order : MapOrder) : LinkOk nodes (linkReplicas order nodes) := by
  have hnew : LinkOk nodes nodes := by
    refine ⟨fun addr => ?_, fun addr m hm a ha => ?_⟩
    · cases hget : getNode nodes addr with
      | none => rfl
      | some n =>
        rw [Option.map_some, ← hnodes addr n hget]
    · rw [hnodes addr m hm] at ha
      cases ha
  have hloop : ∀ (addrs : List Bytes) (linked : List Node), LinkOk nodes linked → LinkOk nodes
      (addrs.foldl (fun nodes addr => Cluster.linkReplica (order.inner addr) nodes addr) linked) := by
    intro addrs
    induction addrs with
    | nil => exact fun _ h => h
    | cons addr addrs ih => exact fun linked h => ih _ (h.linkReplica _ addr)
  exact hloop order.outer nodes hnew

/-- For every text, each slot belongs to a node that is stored under its address and lists a range
with the slot, and the node is a master unless the last line that gives it a role makes it a
replica. Each member of the replicas of a node is a node, a replica and has its ID as master. -/
theorem slot_table_consistent (order : MapOrder) (raw : Bytes) :
    let p := parseClusterNodes order raw
    (∀ s addr, p.slots s = some addr → ∃ n, getNode p.nodes addr = some n ∧ n.addr = addr ∧
      n.Covers s ∧ (n.role = .master ↔ lastRole raw addr ≠ .replica)) ∧
    ∀ addr m, getNode p.nodes addr = some m → ∀ a ∈ m.replicas,
      ∃ n, getNode p.nodes a = some n ∧ n.role = .replica ∧ n.masterID = m.id := by
  intro p
  have htable := tableOk_parseLines raw
  have hlink : LinkOk (parseLines raw).nodes p.nodes :=
    .linkReplicas (fun addr n hn => (htable.node addr n hn).2) order
  have hnode : ∀ addr n, getNode (parseLines raw).nodes addr = some n →
      ∃ n', getNode p.nodes addr = some n' ∧ { n' with replicas := [] } = n := by
    intro addr n hn
    rwa [← hlink.same, Option.map_eq_some_iff] at hn
  constructor
  · intro s addr hs
    obtain ⟨n, hn, hcovers⟩ := htable.slots s addr hs
    have hrole := (htable.node addr n hn).1
    obtain ⟨n', hn', rfl⟩ := hnode addr n hn
    refine ⟨n', hn', (getNode_eq_some hn').2, hcovers, ?_⟩
    rw [show n'.role = _ from hrole]
    cases lastRole raw addr <;> decide
  · intro addr m hm a ha
    obtain ⟨n, hn, hreplica, hid⟩ := hlink.linked addr m hm a ha
    obtain ⟨n', hn', rfl⟩ := hnode a n hn
    exact ⟨n', hn', hreplica, hid⟩

/-- A master with a slot is listed again as a replica: the slot belongs to a replica. -/
theorem slot_table_replica :
    let p := parseClusterNodes ⟨[bytes "h:1"], fun _ => [bytes "h:1"]⟩
      (bytes "a h:1 master - 0 0 0 c 5\na h:1 slave b 0 0 0 c")
    p.slots 5 = some (bytes "h:1") ∧
      (getNode p.nodes (bytes "h:1")).map Node.role = some .replica := by
  decide +kernel

end Pluster.Cluster
