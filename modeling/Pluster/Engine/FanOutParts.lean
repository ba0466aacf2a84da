import Pluster.Engine.FanOut
import Pluster.Proto.RoundTrip

/-!
# The parts of a cross-slot command

The commands of `routeMultiKeyToMux` on one store, as operations on single keys.
Each node holds a part of the key space and executes the sub-commands it gets.
The groups that the proxy builds hold the operations of their slot, so the
sub-commands, run in any order, do what the command does on one store.
-/

namespace Pluster.Engine

open Proto GoStrings GoRuntime KeyedOps ReorderBuffer RespQueue

/-! ### The commands on one store -/

/-- A value of the key space. Only strings are read by the commands here. -/
inductive Stored
  | string (data : Bytes)
  | other (tag : ℕ)
  deriving DecidableEq

/-- A key space. -/
abbrev Store := Bytes → Option Stored

/-- What a command does to one of its keys. -/
inductive KeyOp
  | read (key : Bytes)
  | delete (key : Bytes)
  | set (key value : Bytes)
  deriving DecidableEq

/-- An operation returns the old cell. -/
def keyOpSem : Semantics Bytes (Option Stored) KeyOp (Option Stored) where
  key
    | .read k => k
    | .delete k => k
    | .set k _ => k
  act
    | .read _, cell => (cell, cell)
    | .delete _, cell => (cell, none)
    | .set _ value, cell => (cell, some (.string value))

/-- The operations of MSET. -/
def setOps : List Bytes → List KeyOp
  | k :: value :: rest => .set k value :: setOps rest
  | _ => []

/-- The operations of a command on the keys in its arguments. -/
def keyOps (cmd : MultiKeyCmd) (tail : List Bytes) : List KeyOp :=
  match cmd with
  | .mget | .exists_ | .touch => tail.map .read
  | .del | .unlink => tail.map .delete
  | .mset => setOps tail

/-- The element of an MGET reply for a cell: a key that holds no string reads as nil. -/
def readReply : Option Stored → Value
  | some (.string data) => .bulkString data
  | _ => .nilBulkString

/-- The reply of a command, from the old cells of its keys. -/
def opsReply (cmd : MultiKeyCmd) (cells : List (Option Stored)) : Value :=
  match cmd with
  | .mget => .array (cells.map readReply)
  | .mset => .simpleString (bytes "OK")
  | _ => .integer (cells.countP Option.isSome)

/-- The command as Redis executes it on a store. -/
def redisExec (cmd : MultiKeyCmd) (tail : List Bytes) (store : Store) : Value × Store :=
  if tail = [] ∨ cmd = .mset ∧ tail.length % 2 = 1 then (.error (wrongArgsError cmd), store)
  else
    let (cells, store) := run keyOpSem (keyOps cmd tail) store
    (opsReply cmd cells, store)

/-- What a node does with a request, by the name in its first argument. -/
def nodeExec (args : List Bytes) (store : Store) : Value × Store :=
  match MultiKeyCmd.ofName (args.headD []) with
  | some cmd => redisExec cmd args.tail store
  | none => (.null, store)

/-- The part of the key space that a node holds. -/
def partOf (nodeForSlot : ℕ → Option Bytes) (store : Store) (addr : Bytes) : Store := fun k =>
  if nodeForSlot (hashSlot k) = some addr then store k else none

/-- The nodes execute requests one after the other. -/
def runSends : List (Bytes × Request) → (Bytes → Store) → List Value × (Bytes → Store)
  | [], shards => ([], shards)
  | (addr, req) :: rest, shards =>
    let (reply, store) := nodeExec req.args (shards addr)
    let (replies, final) := runSends rest (Function.update shards addr store)
    (reply :: replies, final)

@[simp] theorem ofName_name (cmd : MultiKeyCmd) : MultiKeyCmd.ofName cmd.name = some cmd := by
  cases cmd <;> decide

/-! ### Groups -/

/-- The groups of the keys handled so far: one for each slot, with its keys in order. -/
structure GroupsOk (nodeForSlot : ℕ → Option Bytes) (done : List (Bytes × ℕ))
    (groups : List SlotGroup) : Prop where
  nodup : (groups.map SlotGroup.slot).Nodup
  keys : ∀ g ∈ groups, g.keys = (done.filter fun x => hashSlot x.1 = g.slot).map Prod.fst
  indices : ∀ g ∈ groups, g.indices = (done.filter fun x => hashSlot x.1 = g.slot).map Prod.snd
  addr : ∀ g ∈ groups, nodeForSlot g.slot = some g.addr
  cover : ∀ x ∈ done, hashSlot x.1 ∈ groups.map SlotGroup.slot
  occurs : ∀ g ∈ groups, ∃ x ∈ done, hashSlot x.1 = g.slot

namespace GroupsOk

variable {nodeForSlot : ℕ → Option Bytes} {done : List (Bytes × ℕ)} {groups : List SlotGroup}

private theorem any_slot_iff (slot : ℕ) :
    (groups.any fun g => g.slot = slot) = true ↔ slot ∈ groups.map SlotGroup.slot := by
  simp [List.any_eq_true, List.mem_map]

theorem insertKey (h : GroupsOk nodeForSlot done groups) {k : Bytes} {i : ℕ}
    {groups' : List SlotGroup} (hinsert : insertKey nodeForSlot groups i k = .ok groups') :
    GroupsOk nodeForSlot (done ++ [(k, i)]) groups' := by
  unfold Engine.insertKey at hinsert
  simp only at hinsert
  split at hinsert
  · rename_i hany
    have hmem := any_slot_iff (hashSlot k) |>.mp hany
    cases hinsert
    have hslots : (groups.map fun g : SlotGroup => if g.slot = hashSlot k then
        { g with indices := g.indices ++ [i], keys := g.keys ++ [k] } else g).map
        SlotGroup.slot = groups.map SlotGroup.slot := by
      rw [List.map_map]
      refine List.map_congr_left fun g _ => ?_
      simp only [Function.comp]
      split <;> rfl
    refine ⟨by rw [hslots]; exact h.nodup, ?_, ?_, ?_, ?_, ?_⟩
    · intro g hg
      obtain ⟨old, hold, rfl⟩ := List.mem_map.mp hg
      split
      · rename_i hslot
        simp [h.keys old hold, hslot]
      rename_i hslot
      simp [h.keys old hold, Ne.symm hslot]
    · intro g hg
      obtain ⟨old, hold, rfl⟩ := List.mem_map.mp hg
      split
      · rename_i hslot
        simp [h.indices old hold, hslot]
      rename_i hslot
      simp [h.indices old hold, Ne.symm hslot]
    · intro g hg
      obtain ⟨old, hold, rfl⟩ := List.mem_map.mp hg
      split <;> exact h.addr old hold
    · intro x hx
      rw [hslots]
      rcases List.mem_append.mp hx with hx | hx
      · exact h.cover x hx
      rw [List.mem_singleton.mp hx]
      exact hmem
    · intro g hg
      obtain ⟨old, hold, rfl⟩ := List.mem_map.mp hg
      obtain ⟨x, hx, hslot⟩ := h.occurs old hold
      exact ⟨x, List.mem_append_left _ hx, by split <;> exact hslot⟩
  · rename_i hany
    have hnotMem : hashSlot k ∉ groups.map SlotGroup.slot := fun hmem =>
      hany ((any_slot_iff _).mpr hmem)
    have hnone : done.filter (fun x => hashSlot x.1 = hashSlot k) = [] := by
      refine List.filter_eq_nil_iff.mpr fun x hx hslot => hnotMem ?_
      rw [← of_decide_eq_true hslot]
      exact h.cover x hx
    have hold : ∀ g ∈ groups, hashSlot k ≠ g.slot := fun g hg heq =>
      hnotMem (heq ▸ List.mem_map_of_mem hg)
    split at hinsert
    · cases hinsert
    rename_i addr haddr
    cases hinsert
    refine ⟨?_, ?_, ?_, ?_, ?_, ?_⟩
    · rw [List.map_append, List.nodup_append]
      refine ⟨h.nodup, by simp, fun a ha b hb => ?_⟩
      have hb : b = hashSlot k := by simpa using hb
      rintro rfl
      exact hnotMem (hb ▸ ha)
    · intro g hg
      rcases List.mem_append.mp hg with hg | hg
      · simp [h.keys g hg, hold g hg]
      rw [List.mem_singleton.mp hg]
      simp [hnone]
    · intro g hg
      rcases List.mem_append.mp hg with hg | hg
      · simp [h.indices g hg, hold g hg]
      rw [List.mem_singleton.mp hg]
      simp [hnone]
    · intro g hg
      rcases List.mem_append.mp hg with hg | hg
      · exact h.addr g hg
      rw [List.mem_singleton.mp hg]
      exact haddr
    · intro x hx
      rw [List.map_append, List.mem_append]
      rcases List.mem_append.mp hx with hx | hx
      · exact Or.inl (h.cover x hx)
      right
      rw [List.mem_singleton.mp hx]
      simp
    · intro g hg
      rcases List.mem_append.mp hg with hg | hg
      · obtain ⟨x, hx, hslot⟩ := h.occurs g hg
        exact ⟨x, List.mem_append_left _ hx, hslot⟩
      rw [List.mem_singleton.mp hg]
      exact ⟨(k, i), by simp, rfl⟩

/-- The loop over the keys, by induction on the keys that are left. -/
theorem groupKeys {rest : List (Bytes × ℕ)} (h : GroupsOk nodeForSlot done groups)
    {groups' : List SlotGroup} (hgroup : groupKeys nodeForSlot rest groups = .ok groups') :
    GroupsOk nodeForSlot (done ++ rest) groups' := by
  induction rest generalizing done groups with
  | nil =>
    cases hgroup
    rwa [List.append_nil]
  | cons x rest ih =>
    obtain ⟨k, i⟩ := x
    rw [Engine.groupKeys] at hgroup
    split at hgroup
    · cases hgroup
    rename_i next hnext
    have := ih (h.insertKey hnext) hgroup
    rwa [List.append_assoc] at this

/-- The groups of all keys. -/
theorem of_groupKeys {keys : List Bytes}
    (h : Engine.groupKeys nodeForSlot keys.zipIdx [] = .ok groups) :
    GroupsOk nodeForSlot keys.zipIdx groups := by
  have hempty : GroupsOk nodeForSlot [] [] := by constructor <;> simp
  simpa using hempty.groupKeys h

/-- Every key is in a group. -/
theorem slot_mem {keys : List Bytes} (h : GroupsOk nodeForSlot keys.zipIdx groups) {k : Bytes}
    (hk : k ∈ keys) : hashSlot k ∈ groups.map SlotGroup.slot := by
  obtain ⟨i, hi, rfl⟩ := List.mem_iff_getElem.mp hk
  exact h.cover (keys[i], i)
    (List.mem_zipIdx_iff_getElem?.mpr (List.getElem?_eq_getElem hi))

end GroupsOk

theorem fst_mem_of_mem_zipIdx {keys : List Bytes} {x : Bytes × ℕ} (hx : x ∈ keys.zipIdx) :
    x.1 ∈ keys := by
  have hmem := List.mem_map_of_mem (f := Prod.fst) hx
  rwa [List.zipIdx_map_fst] at hmem

/-- The keys are grouped if every slot has a node. -/
theorem groupKeys_ok {nodeForSlot : ℕ → Option Bytes} (rest : List (Bytes × ℕ))
    (hcover : ∀ x ∈ rest, (nodeForSlot (hashSlot x.1)).isSome) (groups : List SlotGroup) :
    ∃ groups', groupKeys nodeForSlot rest groups = .ok groups' := by
  induction rest generalizing groups with
  | nil => exact ⟨groups, rfl⟩
  | cons x rest ih =>
    obtain ⟨k, i⟩ := x
    have hinsert : ∃ next, insertKey nodeForSlot groups i k = .ok next := by
      obtain ⟨addr, haddr⟩ := Option.isSome_iff_exists.mp (hcover (k, i) (by simp))
      simp only [insertKey, haddr]
      split
      · exact ⟨_, rfl⟩
      · exact ⟨_, rfl⟩
    obtain ⟨next, hnext⟩ := hinsert
    obtain ⟨groups', hgroups'⟩ := ih (fun y hy => hcover y (List.mem_cons_of_mem _ hy)) next
    exact ⟨groups', by rw [groupKeys, hnext]; exact hgroups'⟩

/-! ### Sub-commands -/

/-- The arguments of MSET for key/value pairs. -/
def pairArgs (pairs : List (Bytes × Bytes)) : List Bytes := pairs.flatMap fun x => [x.1, x.2]

theorem exists_pairArgs : ∀ {tail : List Bytes}, tail.length % 2 = 0 → ∃ pairs, tail = pairArgs pairs
  | [], _ => ⟨[], rfl⟩
  | [_], h => by simp at h
  | k :: value :: rest, h => by
    have hrest : rest.length % 2 = 0 := by simp only [List.length_cons] at h; omega
    obtain ⟨pairs, rfl⟩ := exists_pairArgs hrest
    exact ⟨(k, value) :: pairs, rfl⟩

theorem everyOther_pairArgs (pairs : List (Bytes × Bytes)) :
    everyOther (pairArgs pairs) = pairs.map Prod.fst := by
  induction pairs with
  | nil => rfl
  | cons x pairs ih => simpa [pairArgs, everyOther] using ih

theorem setOps_pairArgs (pairs : List (Bytes × Bytes)) :
    setOps (pairArgs pairs) = pairs.map fun x => .set x.1 x.2 := by
  induction pairs with
  | nil => rfl
  | cons x pairs ih => simpa [pairArgs, setOps] using ih

theorem pairArgs_length (pairs : List (Bytes × Bytes)) :
    (pairArgs pairs).length = pairs.length * 2 := by
  induction pairs with
  | nil => rfl
  | cons x pairs ih =>
    simp only [pairArgs, List.flatMap_cons, List.length_append, List.length_cons,
      List.length_nil] at ih ⊢
    omega

theorem pairArgs_getElem? (pairs : List (Bytes × Bytes)) (i : ℕ) :
    (pairArgs pairs)[i * 2 + 1]? = pairs[i]?.map Prod.snd := by
  induction pairs generalizing i with
  | nil => simp [pairArgs]
  | cons x pairs ih =>
    cases i with
    | zero => simp [pairArgs]
    | succ i =>
      have hindex : (i + 1) * 2 + 1 = i * 2 + 1 + 1 + 1 := by omega
      simpa [pairArgs, hindex] using ih i

private theorem zip_fst_snd {α β : Type} (l : List (α × β)) :
    (l.map Prod.fst).zip (l.map Prod.snd) = l := by
  induction l with
  | nil => rfl
  | cons x l ih => simp [ih]

private theorem filter_zipIdx_fst {α : Type} (l : List α) (p : α → Bool) :
    (l.zipIdx.filter fun x => p x.1).map Prod.fst = l.filter p := by
  have h := List.filter_map (f := Prod.fst) (p := p) (l := l.zipIdx)
  rw [List.zipIdx_map_fst] at h
  rw [h]
  rfl

/-- The sub-command of a slot holds the operations on the keys of the slot. -/
structure SubCommand (cmd : MultiKeyCmd) (tail : List Bytes) (slot : ℕ) (sub : List Bytes) :
    Prop where
  ops : keyOps cmd sub = (keyOps cmd tail).filter fun o => hashSlot (keyOpSem.key o) = slot
  ne_nil : sub ≠ []
  even : cmd = .mset → sub.length % 2 = 0

/-- MGET, DEL, UNLINK, EXISTS and TOUCH do one thing to every key. -/
theorem keyOps_of_ne_mset {cmd : MultiKeyCmd} (hcmd : cmd ≠ .mset) :
    ∃ op : Bytes → KeyOp, (∀ k, keyOpSem.key (op k) = k) ∧ ∀ tail, keyOps cmd tail = tail.map op := by
  cases cmd with
  | mset => exact absurd rfl hcmd
  | mget | exists_ | touch => exact ⟨.read, fun _ => rfl, fun _ => rfl⟩
  | del | unlink => exact ⟨.delete, fun _ => rfl, fun _ => rfl⟩

section SubArgs

variable {nodeForSlot : ℕ → Option Bytes} {cmd : MultiKeyCmd} {tail : List Bytes}
  {groups : List SlotGroup} {g : SlotGroup}

private theorem filter_ne_nil (h : GroupsOk nodeForSlot (multiKeys cmd tail).zipIdx groups)
    (hg : g ∈ groups) :
    ((multiKeys cmd tail).filter fun k => hashSlot k = g.slot) ≠ [] := by
  obtain ⟨x, hx, hslot⟩ := h.occurs g hg
  exact List.ne_nil_of_mem
    (List.mem_filter.mpr ⟨fst_mem_of_mem_zipIdx hx, by simpa using hslot⟩)

private theorem group_keys_eq (h : GroupsOk nodeForSlot (multiKeys cmd tail).zipIdx groups)
    (hg : g ∈ groups) : g.keys = (multiKeys cmd tail).filter fun k => hashSlot k = g.slot := by
  rw [h.keys g hg, filter_zipIdx_fst _ fun k => decide (hashSlot k = g.slot)]

/-- The pairs of MSET whose key is in a slot. -/
private theorem subArgs_mset {pairs : List (Bytes × Bytes)} {name : Bytes}
    (h : GroupsOk nodeForSlot (pairs.map Prod.fst).zipIdx groups) (hg : g ∈ groups) :
    subArgs .mset (name :: pairArgs pairs) g =
      some (name :: pairArgs (pairs.filter fun x => hashSlot x.1 = g.slot)) := by
  let sel := pairs.zipIdx.filter fun x => hashSlot x.1.1 = g.slot
  have hzip : g.keys.zip g.indices = sel.map fun x => (x.1.1, x.2) := by
    rw [h.keys g hg, h.indices g hg, zip_fst_snd, List.zipIdx_map, List.filter_map]
    rfl
  have hvalue : ∀ x ∈ sel, index (name :: pairArgs pairs) (1 + x.2 * 2 + 1) = some x.1.2 := by
    intro x hx
    have hget : pairs[x.2]? = some x.1 := by
      have := List.mem_zipIdx_iff_getElem?.mp (List.mem_of_mem_filter hx)
      simpa using this
    have hindex : (1 + (x.2 : ℤ) * 2 + 1) = ((x.2 * 2 + 1 + 1 : ℕ) : ℤ) := by omega
    rw [hindex, index_natCast, List.getElem?_cons_succ, pairArgs_getElem?, hget]
    rfl
  have hmapM : (g.keys.zip g.indices).mapM (fun x => do
      let value ← index (name :: pairArgs pairs) (1 + x.2 * 2 + 1)
      return [x.1, value]) = some (sel.map fun x => [x.1.1, x.1.2]) := by
    rw [hzip, List.mapM_map]
    clear hzip
    clear_value sel
    induction sel with
    | nil => rfl
    | cons x sel ih =>
      rw [List.mapM_cons, ih fun y hy => hvalue y (List.mem_cons_of_mem _ hy)]
      simp only [Function.comp, hvalue x (by simp)]
      rfl
  have hflat : (sel.map fun x => [x.1.1, x.1.2]).flatten =
      pairArgs (pairs.filter fun x => hashSlot x.1 = g.slot) := by
    rw [← filter_zipIdx_fst pairs fun x => decide (hashSlot x.1 = g.slot), pairArgs,
      List.flatMap_map, ← List.flatMap_def]
  simp only [subArgs, List.headD_cons, if_true]
  rw [hmapM]
  simp [hflat]

/-- Every group has a sub-command. -/
theorem subArgs_eq_some (name : Bytes) (heven : cmd = .mset → tail.length % 2 = 0)
    (h : GroupsOk nodeForSlot (multiKeys cmd tail).zipIdx groups) (hg : g ∈ groups) :
    ∃ sub, subArgs cmd (name :: tail) g = some (name :: sub) ∧ SubCommand cmd tail g.slot sub := by
  have hne := filter_ne_nil h hg
  by_cases hcmd : cmd = .mset
  · subst hcmd
    obtain ⟨pairs, rfl⟩ := exists_pairArgs (heven rfl)
    have hkeys : multiKeys .mset (pairArgs pairs) = pairs.map Prod.fst :=
      everyOther_pairArgs pairs
    rw [hkeys] at h hne
    refine ⟨_, subArgs_mset h hg, ?_, ?_, fun _ => ?_⟩
    · simp only [keyOps, setOps_pairArgs, List.filter_map]
      rfl
    · rw [List.filter_map] at hne
      intro hnil
      have hlength := pairArgs_length (pairs.filter fun x => hashSlot x.1 = g.slot)
      rw [hnil, List.length_nil] at hlength
      have hzero := List.length_eq_zero_iff.mp
        (show (pairs.filter fun x => hashSlot x.1 = g.slot).length = 0 by omega)
      exact hne (by simpa [Function.comp_def] using hzero)
    · rw [pairArgs_length]
      omega
  · have hkeys : multiKeys cmd tail = tail := if_neg hcmd
    have hgroup := group_keys_eq h hg
    rw [hkeys] at hgroup hne
    refine ⟨g.keys, by simp [subArgs, hcmd], ?_, by rwa [hgroup], fun h => absurd h hcmd⟩
    obtain ⟨op, hop, hops⟩ := keyOps_of_ne_mset hcmd
    rw [hops, hops, hgroup, List.filter_map]
    simp only [Function.comp_def, hop]

end SubArgs

/-! ### The run of the sub-commands -/

theorem redisExec_of_ok {cmd : MultiKeyCmd} {tail : List Bytes} (hne : tail ≠ [])
    (heven : cmd = .mset → tail.length % 2 = 0) (store : Store) :
    redisExec cmd tail store = (opsReply cmd (run keyOpSem (keyOps cmd tail) store).1,
      (run keyOpSem (keyOps cmd tail) store).2) := by
  rw [redisExec, if_neg]
  rintro (hnil | ⟨hcmd, hodd⟩)
  · exact hne hnil
  have := heven hcmd
  omega

/-- A request that is the sub-command of a slot, sent to the node of the slot. -/
structure Serves (home : ℕ → Bytes) (cmd : MultiKeyCmd) (tail : List Bytes) (slot : ℕ)
    (send : Bytes × Request) : Prop where
  addr : send.1 = home slot
  args : ∃ sub, send.2.args = cmd.name :: sub ∧ SubCommand cmd tail slot sub

theorem nodeExec_of_serves {home : ℕ → Bytes} {cmd : MultiKeyCmd} {tail : List Bytes} {slot : ℕ}
    {send : Bytes × Request} (h : Serves home cmd tail slot send) (store : Store) :
    let part := run keyOpSem
      ((keyOps cmd tail).filter fun o => hashSlot (keyOpSem.key o) = slot) store
    nodeExec send.2.args store = (opsReply cmd part.1, part.2) := by
  obtain ⟨sub, hargs, hsub⟩ := h.args
  simp only [nodeExec, hargs, List.headD_cons, ofName_name, List.tail_cons]
  rw [redisExec_of_ok hsub.ne_nil hsub.even, hsub.ops]

/-- The nodes run the operations of the command slot by slot. -/
theorem runSends_eq_runClasses {home : ℕ → Bytes} {cmd : MultiKeyCmd} {tail : List Bytes}
    {slots : List ℕ} {sends : List (Bytes × Request)}
    (h : List.Forall₂ (Serves home cmd tail) slots sends) (shards : Bytes → Store) :
    let parts := runClasses keyOpSem hashSlot home (keyOps cmd tail) slots shards
    runSends sends shards = (parts.1.map (opsReply cmd), parts.2) := by
  induction h generalizing shards with
  | nil => rfl
  | cons hserves _ ih =>
    simp only [runSends, nodeExec_of_serves hserves, hserves.addr, ih, runClasses, List.map_cons]

theorem exists_group_of_mem_keyOps {nodeForSlot : ℕ → Option Bytes} {cmd : MultiKeyCmd}
    {tail : List Bytes} {groups : List SlotGroup} (heven : cmd = .mset → tail.length % 2 = 0)
    (h : GroupsOk nodeForSlot (multiKeys cmd tail).zipIdx groups) {o : KeyOp}
    (ho : o ∈ keyOps cmd tail) : hashSlot (keyOpSem.key o) ∈ groups.map SlotGroup.slot := by
  have hkey : keyOpSem.key o ∈ multiKeys cmd tail := by
    by_cases hcmd : cmd = .mset
    · subst hcmd
      obtain ⟨pairs, rfl⟩ := exists_pairArgs (heven rfl)
      simp only [keyOps, setOps_pairArgs, List.mem_map] at ho
      obtain ⟨x, hx, rfl⟩ := ho
      simp only [multiKeys, if_true, everyOther_pairArgs]
      exact List.mem_map_of_mem hx
    · obtain ⟨op, hop, hops⟩ := keyOps_of_ne_mset hcmd
      rw [hops] at ho
      obtain ⟨k, hk, rfl⟩ := List.mem_map.mp ho
      simpa [multiKeys, hcmd, hop] using hk
  obtain ⟨i, hi, hget⟩ := List.getElem_of_mem hkey
  refine h.cover (keyOpSem.key o, i) ?_
  rw [List.mem_zipIdx_iff_getElem?]
  simp [hi, hget]

/-- The parts of the key space after the sub-commands of all groups have run in some order
are the parts of the key space after the command, and the replies are those of the slots. -/
theorem runSends_spec {nodeForSlot : ℕ → Option Bytes} {cmd : MultiKeyCmd} {tail : List Bytes}
    {groups : List SlotGroup} (heven : cmd = .mset → tail.length % 2 = 0)
    (h : GroupsOk nodeForSlot (multiKeys cmd tail).zipIdx groups) (store : Store)
    {slots : List ℕ} (hslots : slots.Perm (groups.map SlotGroup.slot))
    {sends : List (Bytes × Request)}
    (hsends : List.Forall₂ (Serves (fun c => (nodeForSlot c).getD []) cmd tail) slots sends) :
    runSends sends (partOf nodeForSlot store) =
      (slots.map fun slot => opsReply cmd (resultsOf keyOpSem hashSlot (keyOps cmd tail) store slot),
        partOf nodeForSlot (run keyOpSem (keyOps cmd tail) store).2) := by
  have hhome : ∀ slot ∈ slots, ∃ addr, nodeForSlot slot = some addr := by
    intro slot hslot
    obtain ⟨g, hg, rfl⟩ := List.mem_map.mp (hslots.mem_iff.mp hslot)
    exact ⟨g.addr, h.addr g hg⟩
  have hagree : ∀ k, hashSlot k ∈ slots →
      partOf nodeForSlot store ((nodeForSlot (hashSlot k)).getD []) k = store k := by
    intro k hk
    obtain ⟨addr, haddr⟩ := hhome _ hk
    simp [partOf, haddr]
  obtain ⟨hresults, hfinal, huntouched⟩ := runClasses_spec keyOpSem hashSlot
    (fun c => (nodeForSlot c).getD []) (keyOps cmd tail) store
    (hslots.nodup_iff.mpr h.nodup) hagree
  rw [runSends_eq_runClasses hsends]
  refine Prod.ext ?_ (funext fun addr => funext fun k => ?_)
  · simp only [hresults, List.map_map, Function.comp_def]
  simp only
  by_cases hk : hashSlot k ∈ slots
  · obtain ⟨home, hhome⟩ := hhome _ hk
    by_cases haddr : addr = home
    · subst haddr
      have := hfinal k hk
      simp only [hhome, Option.getD_some] at this
      simp [this, partOf, hhome]
    · rw [huntouched addr k fun _ => by simpa [hhome] using haddr]
      have hne : nodeForSlot (hashSlot k) ≠ some addr := by
        simpa [hhome] using fun heq => haddr heq.symm
      simp [partOf, hne]
  · rw [huntouched addr k fun hmem => absurd hmem hk]
    have hkeep := run_untouched keyOpSem (keyOps cmd tail) store (k := k) fun o ho heq =>
      hk (hslots.mem_iff.mpr (heq ▸ exists_group_of_mem_keyOps heven h ho))
    simp only [partOf, hkeep]

end Pluster.Engine
