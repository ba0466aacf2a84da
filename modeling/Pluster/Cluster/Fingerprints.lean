import Pluster.Cluster.EntryPoints

/-!
# Fingerprints of the topology

The fingerprint of a node can be read back from its end, so that the fingerprint of the nodes
tells them apart if no address contains the separator. A refresh with the same fingerprint
removes no node.
-/

namespace Pluster.Cluster

open GoStrings GoSort Proto

variable {c : UInt8} {x y z w : Bytes} {nodes : List Node} {m : Manager}

/-- The parts in front of the first separator and behind it are determined. -/
theorem append_cons_inj_of_notMem_left (hx : c ∉ x) (hy : c ∉ y) (h : x ++ c :: z = y ++ c :: w) :
    x = y ∧ z = w := by
  have hlength : x.length = y.length := by
    have hidx := congrArg (List.idxOf c) h
    rwa [List.idxOf_append_of_notMem hx, List.idxOf_append_of_notMem hy, List.idxOf_cons_self,
      List.idxOf_cons_self] at hidx
  obtain ⟨hfront, hback⟩ := List.append_inj h hlength
  exact ⟨hfront, (List.cons.inj hback).2⟩

/-- The parts in front of the last separator and behind it are determined. -/
theorem append_cons_inj_of_notMem_right (hz : c ∉ z) (hw : c ∉ w) (h : x ++ c :: z = y ++ c :: w) :
    x = y ∧ z = w := by
  have hrev := congrArg List.reverse h
  simp only [List.reverse_append, List.reverse_cons, List.append_assoc, List.singleton_append]
    at hrev
  obtain ⟨hback, hfront⟩ := append_cons_inj_of_notMem_left (by simpa using hz) (by simpa using hw)
    hrev
  exact ⟨List.reverse_inj.mp hfront, List.reverse_inj.mp hback⟩

/-! ### The text of a range -/

theorem notMem_itoa {n : ℤ} (hc : c < 45 ∨ 57 < c) : c ∉ itoa n := by
  have hdigits : c ∉ formatNat n.natAbs := by
    refine notMem_formatNat (hc.imp_left fun hlt => UInt8.lt_trans hlt (by decide))
  unfold itoa
  split
  · rw [List.mem_cons, not_or]
    refine ⟨?_, hdigits⟩
    rintro rfl
    exact absurd hc (by decide)
  · exact hdigits

theorem formatNat_injective : Function.Injective formatNat := fun m n h =>
  Option.some.inj ((Reader.digitsVal_formatNat m).symm.trans (h ▸ Reader.digitsVal_formatNat n))

theorem notMem_dash (n : ℕ) : 45 ∉ formatNat n := notMem_formatNat (Or.inl (by decide))

/-- `%d-%d`: the dash behind the first digit ends the first number. -/
theorem itoa_dash_inj {a b a' b' : ℤ}
    (h : itoa a ++ 45 :: itoa b = itoa a' ++ 45 :: itoa b') : a = a' ∧ itoa b = itoa b' := by
  have hhead : ∀ (m : ℕ) (rest : Bytes), (formatNat m ++ rest).head? ≠ some 45 := by
    intro m rest hsome
    obtain ⟨c, digits, hdigits⟩ := List.exists_cons_of_ne_nil (formatNat_ne_nil m)
    rw [hdigits, List.cons_append, List.head?_cons, Option.some.injEq] at hsome
    exact notMem_dash m (hdigits ▸ hsome ▸ List.mem_cons_self)
  have hsigns := congrArg List.head? h
  unfold itoa at h hsigns
  by_cases hneg : a < 0 <;> by_cases hneg' : a' < 0 <;>
    simp only [hneg, hneg', if_true, if_false, List.cons_append, List.head?_cons] at h hsigns
  · obtain ⟨hdigits, hrest⟩ := append_cons_inj_of_notMem_left (notMem_dash _) (notMem_dash _)
      (List.cons.inj h).2
    have habs := formatNat_injective hdigits
    exact ⟨by omega, hrest⟩
  · exact absurd hsigns.symm (hhead _ _)
  · exact absurd hsigns (hhead _ _)
  · obtain ⟨hdigits, hrest⟩ := append_cons_inj_of_notMem_left (notMem_dash _) (notMem_dash _) h
    have habs := formatNat_injective hdigits
    exact ⟨by omega, hrest⟩

theorem itoa_injective : Function.Injective itoa := by
  intro a a' h
  have hdash : itoa a ++ 45 :: itoa 0 = itoa a' ++ 45 :: itoa 0 := by rw [h]
  exact (itoa_dash_inj hdash).1

/-- What the fingerprint says of a range. -/
def rangeText (r : ℤ × ℤ) : Bytes := itoa r.1 ++ bytes "-" ++ itoa r.2

theorem rangeText_injective : Function.Injective rangeText := by
  rintro ⟨a, b⟩ ⟨a', b'⟩ h
  simp only [rangeText, List.append_assoc] at h
  obtain ⟨rfl, hb⟩ := itoa_dash_inj h
  rw [itoa_injective hb]

theorem notMem_rangeText {r : ℤ × ℤ} (hc : c < 45 ∨ 57 < c) : c ∉ rangeText r := by
  have hdash : c ∉ bytes "-" := by
    rw [show bytes "-" = [45] from rfl, List.mem_singleton]
    rintro rfl
    exact absurd hc (by decide)
  simp [rangeText, notMem_itoa hc, hdash]

theorem rangesText_injective :
    Function.Injective fun ranges : List (ℤ × ℤ) => ranges.flatMap fun r => rangeText r ++ [44] := by
  intro ranges
  induction ranges with
  | nil =>
    intro ranges' h
    cases ranges' with
    | nil => rfl
    | cons r ranges' => simp at h
  | cons r ranges ih =>
    intro ranges' h
    cases ranges' with
    | nil => simp at h
    | cons r' ranges' =>
      simp only [List.flatMap_cons, List.append_assoc, List.singleton_append] at h
      obtain ⟨hr, hrest⟩ := append_cons_inj_of_notMem_left (notMem_rangeText (by decide))
        (notMem_rangeText (by decide)) h
      rw [rangeText_injective hr, ih hrest]

/-! ### The fingerprint of a node -/

/-- What a change of the topology is about. -/
def Node.summary (n : Node) : Bytes × NodeRole × List (ℤ × ℤ) := (n.addr, n.role, n.slots)

/-- The fingerprint by the summary of a node. -/
def summaryText (summary : Bytes × NodeRole × List (ℤ × ℤ)) : Bytes :=
  summary.1 ++ [58, if summary.2.1 = .master then 109 else 114] ++
    58 :: summary.2.2.flatMap fun r => rangeText r ++ [44]

theorem fingerprint_eq_summaryText (n : Node) : n.fingerprint = summaryText n.summary := by
  unfold Node.fingerprint summaryText Node.summary rangeText
  cases n.role <;> simp [show bytes ":" = [58] from rfl, show bytes "m" = [109] from rfl,
    show bytes "r" = [114] from rfl, show bytes "," = [44] from rfl]

theorem notMem_ranges {ranges : List (ℤ × ℤ)} (hc : 57 < c) :
    c ∉ ranges.flatMap fun r => rangeText r ++ [44] := by
  intro hmem
  obtain ⟨r, -, hmem⟩ := List.mem_flatMap.mp hmem
  rcases List.mem_append.mp hmem with hmem | hmem
  · exact notMem_rangeText (Or.inr hc) hmem
  · rw [List.mem_singleton.mp hmem] at hc
    exact absurd hc (by decide)

theorem summaryText_injective : Function.Injective summaryText := by
  rintro ⟨addr, role, ranges⟩ ⟨addr', role', ranges'⟩ h
  obtain ⟨hfront, hranges⟩ := append_cons_inj_of_notMem_right (notMem_ranges (by decide))
    (notMem_ranges (by decide)) h
  obtain ⟨haddr, hrole⟩ := List.append_inj' hfront rfl
  have hrole' : role = role' := by
    cases role <;> cases role' <;> first | rfl | simp at hrole
  exact Prod.ext haddr (Prod.ext hrole' (rangesText_injective hranges))

theorem bar_notMem_fingerprint {n : Node} (h : 124 ∉ n.addr) : 124 ∉ n.fingerprint := by
  rw [fingerprint_eq_summaryText, summaryText]
  simp only [List.mem_append, List.mem_cons, not_or]
  refine ⟨⟨h, by decide, ?_, List.not_mem_nil⟩, by decide, notMem_ranges (by decide)⟩
  split <;> decide

theorem join_injective {sep : UInt8} {strs strs' : List Bytes}
    (h : ∀ s ∈ strs, s ≠ [] ∧ sep ∉ s) (h' : ∀ s ∈ strs', s ≠ [] ∧ sep ∉ s)
    (hjoin : join sep strs = join sep strs') : strs = strs' := by
  have hnil : join sep strs = [] ↔ strs = [] := join_eq_nil fun s hs => (h s hs).1
  have hnil' : join sep strs' = [] ↔ strs' = [] := join_eq_nil fun s hs => (h' s hs).1
  by_cases hstrs : strs = []
  · rw [hstrs, eq_comm, ← hnil', ← hjoin, hnil, hstrs]
  have hstrs' : strs' ≠ [] := fun heq => hstrs (hnil.mp (hjoin.trans (hnil'.mpr heq)))
  rw [← split_join hstrs fun s hs => (h s hs).2, hjoin, split_join hstrs' fun s hs => (h' s hs).2]

/-- No address contains the separator. -/
def NoBars (nodes : List Node) : Prop := ∀ n ∈ nodes, 124 ∉ n.addr

/-- Nodes with the same fingerprint have the same addresses, with the same roles and ranges. -/
theorem summaries_of_topoFingerprint_eq {order order' : RangeOrder} {nodes' : List Node}
    (hbars : NoBars nodes) (hbars' : NoBars nodes')
    (h : topoFingerprint order nodes = topoFingerprint order' nodes') :
    (nodes.map Node.summary).Perm (nodes'.map Node.summary) := by
  have hparts : ∀ (o : RangeOrder) (ns : List Node), NoBars ns →
      ∀ s ∈ sortStrings ((o.of ns).map Node.fingerprint), s ≠ [] ∧ 124 ∉ s := by
    intro o ns hns s hs
    obtain ⟨n, hn, rfl⟩ := List.mem_map.mp ((perm_sortStrings _).mem_iff.mp hs)
    exact ⟨n.fingerprint_ne_nil, bar_notMem_fingerprint (hns n ((o.perm ns).mem_iff.mp hn))⟩
  have hsorted := join_injective (hparts order nodes hbars) (hparts order' nodes' hbars') h
  have hperm : ((order.of nodes).map Node.fingerprint).Perm
      ((order'.of nodes').map Node.fingerprint) :=
    (perm_sortStrings _).symm.trans (hsorted ▸ perm_sortStrings _)
  have hnodes := (((order.perm nodes).map Node.fingerprint).symm.trans hperm).trans
    ((order'.perm nodes').map Node.fingerprint)
  rw [← List.map_perm_map_iff summaryText_injective, List.map_map, List.map_map]
  rwa [show Node.fingerprint = summaryText ∘ Node.summary from funext fingerprint_eq_summaryText]
    at hnodes

namespace Manager

/-- The addresses that are in the snapshot and not in the next one. -/
def gone (m next : Manager) : List Bytes :=
  (m.snap.nodes.map Node.addr).filter (· ∉ next.snap.nodes.map Node.addr)

/-- The hook is called once with the addresses that are gone, if there are any. -/
def ReportsGone (m next : Manager) : Prop :=
  if m.gone next = [] then next.removed = m.removed
  else ∃ addrs, addrs.Perm (m.gone next) ∧ next.removed = m.removed ++ [addrs]

/-- The nodes of the next snapshot have no separator in their addresses. -/
def AnswersNoBars (m : Manager) (e : Refresh) : Prop :=
  ∀ raw ∈ m.firstAnswer e, NoBars (parseClusterNodes e.link raw).nodes

/-- The fingerprint of the snapshot is the one of its nodes. -/
def Summarised (m : Manager) : Prop :=
  NoBars m.snap.nodes ∧ ∃ order, m.snap.fingerprint = topoFingerprint order m.snap.nodes

theorem isNone_getNode {addr : Bytes} :
    (getNode nodes addr).isNone = true ↔ addr ∉ nodes.map Node.addr := by
  simp [getNode]

/-- What `onTopologyChanged` calls the hook with. -/
theorem perm_gone (e : Refresh) (m : Manager) (next : List Node) :
    (((e.prev.of m.snap.nodes).map Node.addr).filter fun addr => (getNode next addr).isNone).Perm
      ((m.snap.nodes.map Node.addr).filter (· ∉ next.map Node.addr)) := by
  simp only [← isNone_getNode, Bool.decide_eq_true]
  exact ((e.prev.perm _).map _).filter _

theorem reportsGone_refreshFrom (h : m.Summarised) (e : Refresh) {raw : Bytes}
    (hbars : NoBars (parseClusterNodes e.link raw).nodes) :
    m.ReportsGone (m.refreshFrom e raw) := by
  obtain ⟨hnodes, order, hprint⟩ := h
  have hsnap : (m.refreshFrom e raw).snap.nodes = (parseClusterNodes e.link raw).nodes := by
    rw [snap_refreshFrom]
    rfl
  unfold ReportsGone gone
  rw [hsnap]
  unfold refreshFrom
  dsimp only
  by_cases hsame : topoFingerprint e.fingerprint (parseClusterNodes e.link raw).nodes =
      m.snap.fingerprint
  · have haddrs := (summaries_of_topoFingerprint_eq hbars hnodes (hsame.trans hprint)).map Prod.fst
    rw [List.map_map, List.map_map] at haddrs
    rw [if_neg (not_not.mpr hsame), if_pos]
    rw [List.filter_eq_nil_iff]
    intro addr haddr
    have hmem : addr ∈ (parseClusterNodes e.link raw).nodes.map Node.addr :=
      haddrs.mem_iff.mpr haddr
    simpa using hmem
  · have hcall := perm_gone e m (parseClusterNodes e.link raw).nodes
    rw [if_pos hsame, onTopologyChanged]
    dsimp only
    generalize ((e.prev.of m.snap.nodes).map Node.addr).filter _ = addrs at hcall ⊢
    by_cases hnone : addrs = []
    · subst hnone
      rw [if_pos hcall.symm.eq_nil, if_pos rfl]
    · rw [if_neg fun hnil => hnone (hnil ▸ hcall).eq_nil, if_neg hnone]
      exact ⟨addrs, hcall, rfl⟩

theorem summarised_refresh (m : Manager) (e : Refresh) (h : m.Summarised)
    (hbars : m.AnswersNoBars e) : (m.refresh e).Summarised := by
  unfold refresh
  split
  · rename_i raw hanswer
    rw [Summarised, snap_refreshFrom]
    exact ⟨hbars raw hanswer, e.fingerprint, rfl⟩
  · exact h

theorem reportsGone_refresh (h : m.Summarised) {e : Refresh} (hbars : m.AnswersNoBars e) :
    m.ReportsGone (m.refresh e) := by
  unfold refresh
  split
  · rename_i raw hanswer
    exact reportsGone_refreshFrom h e (hbars raw hanswer)
  · simp [ReportsGone, gone]

/-- Nodes with the same fingerprint have the same addresses with the same roles and ranges,
whatever the order of the ranges over the maps. In every run, each refresh calls the hook with
exactly the addresses that are gone, if there are any. -/
theorem topology_changes_reported :
    (∀ (order order' : RangeOrder) (nodes nodes' : List Node), NoBars nodes → NoBars nodes' →
      topoFingerprint order nodes = topoFingerprint order' nodes' →
      (nodes.map Node.summary).Perm (nodes'.map Node.summary)) ∧
    ∀ (entryPoints : List Bytes) (es : List Refresh) (e : Refresh),
      Runs.Meets refresh AnswersNoBars { entryPoints } (es ++ [e]) →
      (run { entryPoints } es).ReportsGone (run { entryPoints } (es ++ [e])) := by
  refine ⟨fun _ _ _ _ => summaries_of_topoFingerprint_eq, fun entryPoints es e hmeets => ?_⟩
  have hnew : Summarised { entryPoints } :=
    ⟨List.forall_mem_nil _, ⟨id, List.Perm.refl⟩, rfl⟩
  obtain ⟨hfirst, hlast⟩ := hmeets.of_append
  have hinv := hfirst.invariant summarised_refresh hnew
  rw [run, run, Runs.run_append]
  exact reportsGone_refresh hinv hlast.1

/-- One of two nodes goes. -/
theorem topology_changes_reported_gone :
    let two := answered (bytes "a h:1 master - 0 0 0 c\nb h:2 master - 0 0 0 c")
    let one := answered (bytes "a h:1 master - 0 0 0 c")
    let m := run { entryPoints := [bytes "h:9"] } [two]
    m.gone (m.run [one]) = [bytes "h:2"] ∧ m.ReportsGone (m.run [one]) := by
  intro two one m
  have hbars : ∀ (m : Manager) (raw : Bytes),
      (∀ n ∈ (parseClusterNodes (answered raw).link raw).nodes, 124 ∉ n.addr) →
      m.AnswersNoBars (answered raw) := by
    intro m raw hnodes raw' hraw'
    obtain ⟨i, -, hi⟩ := List.exists_of_findSome?_eq_some hraw'
    exact Option.some.inj hi ▸ hnodes
  refine ⟨by decide +kernel, topology_changes_reported.2 _ [two] one ?_⟩
  refine ⟨hbars _ _ ?_, hbars _ _ ?_, trivial⟩
  · decide +kernel
  · decide +kernel

end Manager

end Pluster.Cluster
