import Pluster.Cluster.Topology
import Pluster.Proto.Reader

/-!
# The answer to CLUSTER NODES

The nodes of a cluster and the text in which a node lists them: one line for each node, with
its ID, its address with the port of the cluster bus and the host name, its flags, its
master, four fields that are not read, and its slots. `parseFields` finds in such a line what
was written into it.
-/

namespace Pluster.Cluster

open GoStrings Proto

variable {n : ℕ} {c : UInt8} {flag : Bytes}

/-- The flags of a node other than its role. -/
inductive Flag
  | myself
  | fail
  | handshake
  | noaddr
  deriving DecidableEq

def Flag.text : Flag → Bytes
  | .myself => bytes "myself"
  | .fail => bytes "fail"
  | .handshake => bytes "handshake"
  | .noaddr => bytes "noaddr"

/-- What is listed after the eight fields of a line. -/
inductive SlotItem
  | single (s : ℕ)
  | range (first last : ℕ)
  /-- A slot that is being migrated, in brackets. -/
  | migrating (rest : Bytes)

variable {item : SlotItem}

namespace SlotItem

def text : SlotItem → Bytes
  | .single s => formatNat s
  | .range first last => formatNat first ++ 45 :: formatNat last
  | .migrating rest => 91 :: rest

/-- The slots that are listed. -/
def covers : SlotItem → ℕ → Prop
  | .single s, t => t = s
  | .range first last, t => first ≤ t ∧ t ≤ last
  | .migrating _, _ => False

instance : ∀ (item : SlotItem) (t : ℕ), Decidable (item.covers t)
  | .single _, _ => inferInstanceAs (Decidable (_ = _))
  | .range _ _, _ => inferInstanceAs (Decidable (_ ∧ _))
  | .migrating _, _ => inferInstanceAs (Decidable False)

/-- The range that `parseClusterNodes` notes. -/
def ranges : SlotItem → List (ℤ × ℤ)
  | .single s => [(s, s)]
  | .range first last => [(first, last)]
  | .migrating _ => []

/-- The slots are slots of the cluster. -/
def Ok : SlotItem → Prop
  | .single s => s < clusterSlots
  | .range first last => first ≤ last ∧ last < clusterSlots
  | .migrating rest => NoSpace rest

instance : ∀ item : SlotItem, Decidable item.Ok
  | .single _ => inferInstanceAs (Decidable (_ < _))
  | .range _ _ => inferInstanceAs (Decidable (_ ∧ _))
  | .migrating rest => inferInstanceAs (Decidable (NoSpace rest))

end SlotItem

/-- A node is a master with its slots or the replica of a master. -/
inductive Duty
  | master (items : List SlotItem)
  | replica (masterID : Bytes) (migrating : List Bytes)

/-- A node of the cluster as it is listed. -/
structure Desc where
  id : Bytes
  addr : Bytes
  /-- The port of the cluster bus and the host name, if they are listed. -/
  port : Bytes := []
  /-- The flags in front of the role. -/
  before : List Flag := []
  /-- The flags after the role. -/
  after : List Flag := []
  duty : Duty
  pingSent : Bytes := bytes "0"
  pongRecv : Bytes := bytes "0"
  configEpoch : Bytes := bytes "0"
  linkState : Bytes := bytes "connected"

namespace Desc

def isMaster (d : Desc) : Bool :=
  match d.duty with
  | .master _ => true
  | .replica _ _ => false

def flags (d : Desc) : List Bytes :=
  d.before.map Flag.text ++ [if d.isMaster then bytes "master" else bytes "slave"] ++
    d.after.map Flag.text

def master (d : Desc) : Bytes :=
  match d.duty with
  | .master _ => bytes "-"
  | .replica masterID _ => masterID

def items (d : Desc) : List SlotItem :=
  match d.duty with
  | .master items => items
  | .replica _ migrating => migrating.map .migrating

/-- The fields of the line of a node. -/
def line (d : Desc) : List Bytes :=
  d.id :: (d.addr ++ d.port) :: join 44 d.flags :: d.master :: d.pingSent :: d.pongRecv ::
    d.configEpoch :: d.linkState :: d.items.map SlotItem.text

/-- The node is neither failing nor in handshake nor without address. -/
def kept (d : Desc) : Bool :=
  (d.before ++ d.after).all fun flag => flag = .myself

/-- The slots of a master. -/
def owns (d : Desc) (s : ℕ) : Prop := d.isMaster = true ∧ ∃ item ∈ d.items, item.covers s

instance (d : Desc) (s : ℕ) : Decidable (d.owns s) := inferInstanceAs (Decidable (_ ∧ _))

/-- The node that `parseClusterNodes` makes of the line, before it links the replicas. -/
def node (d : Desc) : Node where
  id := d.id
  addr := d.addr
  role := if d.isMaster then .master else .replica
  slots := if d.isMaster then d.items.flatMap SlotItem.ranges else []
  masterID := if d.isMaster then [] else d.master

/-- The texts of a node are such that the line can be read. -/
structure Ok (d : Desc) : Prop where
  id : d.id ≠ [] ∧ NoSpace d.id
  addr : d.addr ≠ [] ∧ NoSpace d.addr ∧ 64 ∉ d.addr ∧ d.addr ≠ bytes ":0"
  port : d.port = [] ∨ ∃ rest, d.port = 64 :: rest ∧ NoSpace rest
  master : d.isMaster = false → d.master ≠ [] ∧ NoSpace d.master ∧ d.master ≠ bytes "-"
  items : ∀ item ∈ d.items, item.Ok
  unread : ∀ f ∈ [d.pingSent, d.pongRecv, d.configEpoch, d.linkState], f ≠ [] ∧ NoSpace f

end Desc

/-- The answer to CLUSTER NODES. -/
def render (ds : List Desc) : Bytes := text (ds.map Desc.line)

/-! ### The fields of a line -/

theorem visible_formatNat (h : c ∈ formatNat n) : 32 < c ∧ c < 0x80 := by
  obtain ⟨hlow, hhigh⟩ := mem_formatNat h
  exact ⟨UInt8.lt_of_lt_of_le (by decide) hlow, UInt8.lt_of_le_of_lt hhigh (by decide)⟩

theorem formatNat_ne_nil (n : ℕ) : formatNat n ≠ [] := appendDigits_ne_nil n n []

theorem SlotItem.text_ok (h : item.Ok) : item.text ≠ [] ∧ NoSpace item.text := by
  cases item with
  | single s => exact ⟨formatNat_ne_nil s, noSpace_of_visible fun c hc => visible_formatNat hc⟩
  | range first last =>
    refine ⟨by simp [text], noSpace_of_visible fun c hc => ?_⟩
    rcases List.mem_append.mp hc with hfirst | hrest
    · exact visible_formatNat hfirst
    rcases List.mem_cons.mp hrest with rfl | hlast
    · decide
    · exact visible_formatNat hlast
  | migrating rest =>
    refine ⟨by simp [text], noSpace_cons.mpr ⟨?_, h⟩⟩
    exact spaceLen_of_visible (by decide) (by decide) rest

theorem Flag.visible (f : Flag) : ∀ c ∈ f.text, 32 < c ∧ c < 0x80 ∧ c ≠ 44 := by
  cases f <;> decide +kernel

/-- The texts of the flags are different ones. -/
theorem Flag.text_eq_iff (f g : Flag) : f.text = g.text ↔ f = g := by
  cases f <;> cases g <;> decide

theorem Flag.text_ne (f : Flag) :
    f.text ≠ bytes "pfail" ∧ f.text ≠ bytes "master" ∧ f.text ≠ bytes "slave" := by
  cases f <;> decide

namespace Desc

variable {d : Desc}

/-- The text of the role. -/
def role (d : Desc) : Bytes := if d.isMaster then bytes "master" else bytes "slave"

theorem visible_role (d : Desc) : ∀ c ∈ d.role, 32 < c ∧ c < 0x80 ∧ c ≠ 44 := by
  unfold role
  cases d.isMaster <;> decide +kernel

theorem mem_flags :
    flag ∈ d.flags ↔ (∃ f ∈ d.before ++ d.after, f.text = flag) ∨ flag = d.role := by
  simp only [flags, role, List.mem_append, List.mem_map, List.mem_singleton]
  grind

theorem visible_flags (hflag : flag ∈ d.flags) : ∀ c ∈ flag, 32 < c ∧ c < 0x80 ∧ c ≠ 44 := by
  rcases mem_flags.mp hflag with ⟨f, -, rfl⟩ | rfl
  · exact f.visible
  · exact d.visible_role

theorem split_flags (d : Desc) : split (join 44 d.flags) 44 = d.flags := by
  refine split_join (by simp [flags]) fun flag hflag hmem => ?_
  exact (visible_flags hflag 44 hmem).2.2 rfl

theorem flags_ok (d : Desc) : join 44 d.flags ≠ [] ∧ NoSpace (join 44 d.flags) := by
  constructor
  · have hrole : d.role ≠ [] := by
      unfold role
      cases d.isMaster <;> decide +kernel
    obtain ⟨c, rest, hc⟩ := List.exists_cons_of_ne_nil hrole
    have hmem : c ∈ join 44 d.flags :=
      mem_join_of_mem (mem_flags.mpr (.inr rfl)) (by rw [hc]; exact List.mem_cons_self)
    exact List.ne_nil_of_mem hmem
  · refine noSpace_of_visible fun c hc => ?_
    rcases mem_join hc with rfl | ⟨flag, hflag, hc⟩
    · decide
    · exact ⟨(visible_flags hflag c hc).1, (visible_flags hflag c hc).2.1⟩

theorem master_mem_flags : bytes "master" ∈ d.flags ↔ d.isMaster = true := by
  rw [mem_flags]
  constructor
  · rintro (⟨f, -, hf⟩ | hrole)
    · exact absurd hf f.text_ne.2.1
    unfold role at hrole
    split at hrole
    · assumption
    · exact absurd hrole (by decide)
  · intro hmaster
    right
    rw [role, if_pos hmaster]

theorem slave_mem_flags (h : d.isMaster = false) : bytes "slave" ∈ d.flags := by
  refine mem_flags.mpr (.inr ?_)
  simp [role, h]

theorem text_mem_flags (f : Flag) : f.text ∈ d.flags ↔ f ∈ d.before ++ d.after := by
  rw [mem_flags]
  constructor
  · rintro (⟨g, hg, hgf⟩ | hrole)
    · rwa [← (g.text_eq_iff f).mp hgf]
    unfold role at hrole
    split at hrole
    · exact absurd hrole f.text_ne.2.1
    · exact absurd hrole f.text_ne.2.2
  · exact fun hf => .inl ⟨f, hf, rfl⟩

theorem pfail_notMem_flags : bytes "pfail" ∉ d.flags := by
  intro hmem
  rcases mem_flags.mp hmem with ⟨f, -, hf⟩ | hrole
  · exact f.text_ne.1 hf
  unfold role at hrole
  split at hrole
  · exact absurd hrole (by decide)
  · exact absurd hrole (by decide)

/-- The lines of the nodes that are not kept are left out. -/
theorem skipsFlags_flags (d : Desc) : skipsFlags d.flags = !d.kept := by
  have hskips : skipsFlags d.flags = true ↔ ¬d.kept = true := by
    have hnoaddr := text_mem_flags (d := d) .noaddr
    have hhandshake := text_mem_flags (d := d) .handshake
    have hfail := text_mem_flags (d := d) .fail
    simp only [Flag.text] at hnoaddr hhandshake hfail
    simp only [skipsFlags, hnoaddr, hhandshake, hfail, pfail_notMem_flags, or_false,
      decide_eq_true_eq, kept, List.all_eq_true]
    constructor
    · rintro h hall
      rcases h with h | h | h <;> cases hall _ h
    intro h
    by_contra hnone
    refine h fun f hf => ?_
    cases f <;> simp_all
  cases hkept : d.kept <;> simp_all

theorem Ok.addrField (h : d.Ok) : d.addr ++ d.port ≠ [] ∧ NoSpace (d.addr ++ d.port) := by
  obtain ⟨hne, hspace, -, -⟩ := h.addr
  refine ⟨by simp [hne], ?_⟩
  rcases h.port with hport | ⟨rest, hport, hrest⟩
  · rw [hport, List.append_nil]
    exact hspace
  rw [hport]
  refine hspace.append (noSpace_cons.mpr ⟨?_, hrest⟩) (by decide)
  exact spaceLen_of_visible (by decide) (by decide) rest

theorem Ok.masterField (h : d.Ok) : d.master ≠ [] ∧ NoSpace d.master := by
  cases hmaster : d.isMaster
  · obtain ⟨hne, hspace, -⟩ := h.master hmaster
    exact ⟨hne, hspace⟩
  have hdash : d.master = bytes "-" := by
    unfold isMaster at hmaster
    unfold Desc.master
    split
    · rfl
    rename_i hduty
    rw [hduty] at hmaster
    cases hmaster
  rw [hdash]
  decide

theorem Ok.line (h : d.Ok) : IsLine d.line := by
  refine ⟨by simp [Desc.line], fun f hf => ?_⟩
  have hunread := h.unread
  simp only [List.mem_cons, List.not_mem_nil, or_false, forall_eq_or_imp, forall_eq] at hunread
  obtain ⟨hping, hpong, hepoch, hlink⟩ := hunread
  simp only [Desc.line, List.mem_cons] at hf
  rcases hf with rfl | rfl | rfl | rfl | rfl | rfl | rfl | rfl | hitem
  · exact h.id
  · exact h.addrField
  · exact d.flags_ok
  · exact h.masterField
  · exact hping
  · exact hpong
  · exact hepoch
  · exact hlink
  obtain ⟨item, hmem, rfl⟩ := List.mem_map.mp hitem
  exact SlotItem.text_ok (h.items item hmem)

/-- The address is what stands in front of the port of the cluster bus. -/
theorem Ok.splitN_addrField (h : d.Ok) : (splitN (d.addr ++ d.port) 64 2).headD [] = d.addr := by
  obtain ⟨-, -, hat, -⟩ := h.addr
  have hnone : indexByte d.addr 64 = none := by
    rw [indexByte, List.findIdx?_eq_none_iff]
    intro c hc
    rw [beq_eq_false_iff_ne]
    rintro rfl
    exact hat hc
  rcases h.port with hport | ⟨rest, hport, -⟩
  · rw [hport, List.append_nil, splitN, hnone]
    rfl
  rw [hport, splitN, indexByte_append hat]
  simp

end Desc

/-! ### The slots of a line -/

/-- What a listed item adds to the slots. -/
def SlotItem.fill (addr : Bytes) (slots : ℕ → Option Bytes) (item : SlotItem) (s : ℕ) :
    Option Bytes :=
  if item.covers s then some addr else slots s

theorem notMem_formatNat (hc : c < 48 ∨ 57 < c) : c ∉ formatNat n := by
  intro hmem
  obtain ⟨hlow, hhigh⟩ := mem_formatNat hmem
  rcases hc with hc | hc
  · exact UInt8.not_le.mpr hc hlow
  · exact UInt8.not_le.mpr hc hhigh

theorem hasPrefix_formatNat (n : ℕ) (rest : Bytes) :
    hasPrefix (formatNat n ++ rest) (bytes "[") = false := by
  obtain ⟨c, digits, hdigits⟩ := List.exists_cons_of_ne_nil (formatNat_ne_nil n)
  have hne : (91 : UInt8) ≠ c := by
    rintro rfl
    have hmem : (91 : UInt8) ∈ formatNat n := by
      rw [hdigits]
      exact List.mem_cons_self
    exact notMem_formatNat (.inr (by decide)) hmem
  have hbracket : bytes "[" = [91] := by decide
  rw [hdigits, hbracket]
  simp [hasPrefix, List.isPrefixOf, hne]

theorem indexByte_formatNat (n : ℕ) : indexByte (formatNat n) 45 = none := by
  rw [indexByte, List.findIdx?_eq_none_iff]
  intro c hc
  rw [beq_eq_false_iff_ne]
  rintro rfl
  exact notMem_formatNat (.inl (by decide)) hc

theorem atoi_slot {s : ℕ} (h : s < clusterSlots) : atoi (formatNat s) = some (s : ℤ) := by
  refine Reader.atoi_formatNat ?_
  unfold clusterSlots at h
  omega

/-- A field of the slots is read as it was written. -/
theorem parseSlotField_text (h : item.Ok) (addr : Bytes) (acc : List (ℤ × ℤ) × (ℕ → Option Bytes)) :
    parseSlotField addr acc item.text = (acc.1 ++ item.ranges, item.fill addr acc.2) := by
  cases item with
  | single s =>
    have hlt : s < clusterSlots := h
    have hprefix := hasPrefix_formatNat s []
    rw [List.append_nil] at hprefix
    have hfill : fillSlots acc.2 s s addr = SlotItem.fill addr acc.2 (.single s) := by
      funext t
      unfold fillSlots SlotItem.fill SlotItem.covers
      refine if_congr ?_ rfl rfl
      omega
    simp only [parseSlotField, SlotItem.text, hprefix, indexByte_formatNat, atoi_slot hlt,
      Bool.false_eq_true, if_false, SlotItem.ranges, hfill]
  | range first last =>
    obtain ⟨hle, hlt⟩ : first ≤ last ∧ last < clusterSlots := h
    have hprefix := hasPrefix_formatNat first (45 :: formatNat last)
    have hindex : indexByte (formatNat first ++ 45 :: formatNat last) 45 =
        some (formatNat first).length :=
      indexByte_append (notMem_formatNat (.inl (by decide))) _
    have hstop : (formatNat first ++ 45 :: formatNat last).drop ((formatNat first).length + 1) =
        formatNat last := by
      rw [← List.drop_drop]
      simp
    have hfill : fillSlots acc.2 first last addr = SlotItem.fill addr acc.2 (.range first last) := by
      funext t
      unfold fillSlots SlotItem.fill SlotItem.covers
      refine if_congr ?_ rfl rfl
      omega
    simp only [parseSlotField, SlotItem.text, hprefix, hindex, List.take_left, hstop,
      atoi_slot (Nat.lt_of_le_of_lt hle hlt), atoi_slot hlt, Bool.false_eq_true, if_false,
      SlotItem.ranges, hfill]
  | migrating rest =>
    have hprefix : hasPrefix (91 :: rest) (bytes "[") = true := by
      have hbracket : bytes "[" = [91] := by decide
      rw [hbracket]
      simp [hasPrefix, List.isPrefixOf]
    have hfill : acc.2 = SlotItem.fill addr acc.2 (.migrating rest) := by
      funext t
      simp [SlotItem.fill, SlotItem.covers]
    simp only [parseSlotField, SlotItem.text, hprefix, if_true, SlotItem.ranges, List.append_nil,
      ← hfill]

theorem foldl_parseSlotField {items : List SlotItem} (h : ∀ item ∈ items, item.Ok) (addr : Bytes)
    (acc : List (ℤ × ℤ) × (ℕ → Option Bytes)) :
    (items.map SlotItem.text).foldl (parseSlotField addr) acc =
      (acc.1 ++ items.flatMap SlotItem.ranges,
        fun s => if ∃ item ∈ items, item.covers s then some addr else acc.2 s) := by
  induction items generalizing acc with
  | nil => simp
  | cons item items ih =>
    rw [List.map_cons, List.foldl_cons, parseSlotField_text (h item List.mem_cons_self),
      ih fun i hi => h i (List.mem_cons_of_mem _ hi)]
    refine Prod.ext (by simp) (funext fun s => ?_)
    by_cases hcovers : ∃ item ∈ items, item.covers s
    · simp [hcovers]
    · simp [hcovers, SlotItem.fill]

namespace Desc

variable {d : Desc}

/-- What the line of a node adds. -/
def addTo (d : Desc) (p : Parse) : Parse :=
  if d.kept then
    { nodes := p.nodes ++ [d.node]
      slots := fun s => if d.owns s then some d.addr else p.slots s }
  else p

theorem Ok.parseRole (h : d.Ok) : parseRole d.flags d.master { id := d.id, addr := d.addr } =
    { d.node with slots := [] } := by
  cases hmaster : d.isMaster
  · obtain ⟨hne, -, hdash⟩ := h.master hmaster
    have hnot : bytes "master" ∉ d.flags := by
      rw [master_mem_flags, hmaster]
      decide
    simp [Cluster.parseRole, hnot, slave_mem_flags hmaster, hne, hdash, node, hmaster]
  · simp [Cluster.parseRole, master_mem_flags.mpr hmaster, node, hmaster]

/-- The line of a node that is not there yet adds the node. -/
theorem Ok.parseLine (h : d.Ok) {p : Parse} (hnew : ∀ n ∈ p.nodes, n.addr ≠ d.addr) :
    parseLine p (join 32 d.line) = d.addTo p := by
  have hline := h.line
  have hnone : getNode p.nodes d.addr = none := by
    rw [getNode, List.find?_eq_none]
    intro n hn
    simpa using hnew n hn
  have hput (n : Node) (hn : n.addr = d.addr) : putNode p.nodes n = p.nodes ++ [n] := by
    rw [putNode, hn, hnone]
    rfl
  have hfields : Cluster.parseLine p (join 32 d.line) =
      parseFields p d.id (d.addr ++ d.port) (join 44 d.flags) d.master
        (d.items.map SlotItem.text) := by
    simp only [Cluster.parseLine, hline.framed.trimSpace, hline.framed.ne_nil, if_false,
      hline.fields]
    rfl
  rw [hfields]
  obtain ⟨haddr, -, -, hport⟩ := h.addr
  simp only [parseFields, h.splitN_addrField, d.split_flags, d.skipsFlags_flags, haddr, hport,
    false_or, hnone, Option.getD_none, if_neg h.id.1, h.parseRole, master_mem_flags]
  cases hkept : d.kept
  · simp [addTo, hkept]
  cases hmaster : d.isMaster
  · have hnode : ({ d.node with slots := [] } : Node) = d.node := by simp [node, hmaster]
    have howns (s : ℕ) : ¬d.owns s := by simp [owns, hmaster]
    simp [addTo, hkept, hnode, hput d.node rfl, howns]
  have hslots := foldl_parseSlotField h.items d.addr ([], p.slots)
  have howns (s : ℕ) : d.owns s ↔ ∃ item ∈ d.items, item.covers s := by simp [owns, hmaster]
  have hnode : ({ d.node with slots := d.items.flatMap SlotItem.ranges } : Node) = d.node := by
    simp [node, hmaster]
  simp [addTo, hkept, hslots, hnode, hput d.node rfl, howns]

end Desc

end Pluster.Cluster
