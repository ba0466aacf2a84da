import Pluster.Engine.FanOutParts

/-!
# Cross-slot commands mean what they mean on one store

The merge functions rebuild the reply of the command from the replies of the
slots, and `accumulateFanInSubResponse` completes the slot of the client with it
when the last part arrives, in whatever order the parts arrive.
-/

namespace Pluster.Engine

open Proto GoStrings GoRuntime KeyedOps ReorderBuffer RespQueue

variable {cells : List (List (Option Stored))} {subs : List SubResponse} {m n : ℕ} {g : SlotGroup}
  {arrivals : List (ℕ × Bytes)} {β : Type} {cmd : MultiKeyCmd} {tail : List Bytes}

/-! ### Merging the replies -/

section Merge

variable {cmd : MultiKeyCmd}

/-- A reply as a sub-response that the proxy can parse. -/
structure Delivers (v : Value) (sub : SubResponse) : Prop where
  data : sub.data = encodeValue v
  length : (encodeValue v).length ≤ maxAlloc
  encodable : v.Encodable

theorem Delivers.parseValue {v : Value} {sub : SubResponse} (h : Delivers v sub) :
    parseValue sub.data = .ok (v.decoded, ((encodeValue v).length : ℤ)) := by
  have hparse := parseValue_encodeValue h.encodable [] (by simpa using h.length)
  rw [h.data]
  rwa [List.append_nil] at hparse

theorem mergeMSET_eq (h : List.Forall₂ (fun c sub => Delivers (opsReply .mset c) sub) cells subs) :
    mergeMSET subs = encodeSimpleString (bytes "OK") := by
  induction h with
  | nil => rfl
  | cons hsub _ ih =>
    rw [mergeMSET, hsub.parseValue]
    exact ih

/-- The running total is a 64-bit integer, but the count of existing keys stays far below
its limit. -/
theorem mergeCount_eq
    (h : List.Forall₂ (fun c sub => Delivers (.integer (c.countP Option.isSome : ℕ)) sub) cells subs)
    (total : ℕ) (hbound : total + (cells.map fun c => c.countP Option.isSome).sum < 2 ^ 63) :
    mergeCount total subs =
      encodeInteger ((total + (cells.map fun c => c.countP Option.isSome).sum : ℕ) : ℤ) := by
  induction h generalizing total with
  | nil => rfl
  | @cons c sub cells subs hsub _ ih =>
    rw [List.map_cons, List.sum_cons] at hbound
    have hwrap : wrap64 ((total : ℤ) + (c.countP Option.isSome : ℕ)) =
        ((total + c.countP Option.isSome : ℕ) : ℤ) := by
      rw [wrap64_eq_self (by omega) (by omega)]
      omega
    have hnext := ih (total + c.countP Option.isSome) (by omega)
    rw [mergeCount, hsub.parseValue]
    simp only [Value.decoded]
    rw [hwrap, hnext, List.map_cons, List.sum_cons, Nat.add_assoc]

theorem decodedAll_map_readReply (cells : List (Option Stored)) :
    decodedAll (cells.map readReply) = cells.map readReply := by
  induction cells with
  | nil => rfl
  | cons cell cells ih =>
    have hcell : (readReply cell).decoded = readReply cell := by
      cases cell with
      | none => rfl
      | some v => cases v <;> rfl
    rw [List.map_cons, decodedAll, hcell, ih]

/-- The merge loop of MGET stores the elements of every reply at the indices of its group. -/
theorem mergeMGETLoop_eq {items : List (SlotGroup × List (Option Stored))}
    (h : List.Forall₂ (fun x sub => Delivers (opsReply .mget x.2) sub) items subs)
    (results : List (Option Bytes)) :
    mergeMGETLoop ((items.map Prod.fst).zip subs) results =
      .ok (scatter results (items.flatMap fun x =>
        x.1.indices.zip (x.2.map fun cell => some (encodeValue (readReply cell))))) := by
  induction h generalizing results with
  | nil => rfl
  | cons hsub _ ih =>
    rw [List.map_cons, List.zip_cons_cons, mergeMGETLoop, hsub.parseValue]
    simp only [opsReply, Value.decoded, decodedAll_map_readReply]
    rw [ih, List.flatMap_cons, scatter_append, List.map_map]
    rfl

theorem appendDigits_length_le {fuel fuel' : ℕ} (hmn : m ≤ n) (hn : n < fuel')
    {rest rest' : Bytes} (hrest : rest.length ≤ rest'.length) :
    (appendDigits fuel m rest).length ≤ (appendDigits fuel' n rest').length := by
  have hgrow : ∀ (fuel n : ℕ) (rest : Bytes), rest.length ≤ (appendDigits fuel n rest).length := by
    intro fuel
    induction fuel with
    | zero => exact fun _ _ => le_rfl
    | succ fuel ih =>
      intro n rest
      rw [appendDigits]
      split
      · simp
      · exact le_trans (by simp) (ih _ _)
  induction fuel generalizing fuel' m n rest rest' with
  | zero => exact hrest.trans (hgrow _ _ _)
  | succ fuel ih =>
    cases fuel' with
    | zero => omega
    | succ fuel' =>
      rw [appendDigits, appendDigits]
      by_cases hm : m < 10
      · rw [if_pos hm]
        split
        · simpa using hrest
        · exact le_trans (by simpa using hrest) (hgrow _ _ _)
      · rw [if_neg hm, if_neg (by omega)]
        exact ih (Nat.div_le_div_right hmn) (by omega) (by simpa using hrest)

theorem formatNat_length_le (hmn : m ≤ n) : (formatNat m).length ≤ (formatNat n).length :=
  appendDigits_length_le hmn (Nat.lt_succ_self n) le_rfl

theorem encodeValues_eq_flatMap (vs : List Value) : encodeValues vs = vs.flatMap encodeValue := by
  induction vs with
  | nil => rfl
  | cons v vs ih => rw [encodeValues, ih, List.flatMap_cons]

theorem itoa_natCast (n : ℕ) : itoa (n : ℤ) = formatNat n := by
  rw [itoa, if_neg (by omega), Int.natAbs_natCast]

/-- The reply for some of the keys is not longer than the reply for all. -/
theorem opsReply_length_le {part cells : List (Option Stored)} (h : part.Sublist cells) :
    (encodeValue (opsReply cmd part)).length ≤ (encodeValue (opsReply cmd cells)).length := by
  have hcount : (encodeInteger (part.countP Option.isSome : ℕ)).length ≤
      (encodeInteger (cells.countP Option.isSome : ℕ)).length := by
    have := formatNat_length_le (h.countP_le (p := Option.isSome))
    simpa [encodeInteger, itoa_natCast] using this
  cases cmd with
  | mget =>
    have helems : (encodeValues (part.map readReply)).length ≤
        (encodeValues (cells.map readReply)).length := by
      rw [encodeValues_eq_flatMap, encodeValues_eq_flatMap]
      exact ((h.map readReply).flatMap encodeValue).length_le
    have hheader := formatNat_length_le h.length_le
    simp only [opsReply, encodeValue, List.length_append, List.length_map]
    omega
  | mset => exact le_rfl
  | del | unlink | exists_ | touch => exact hcount

theorem allEncodable_map_readReply (cells : List (Option Stored)) :
    AllEncodable (cells.map readReply) := by
  induction cells with
  | nil => trivial
  | cons cell cells ih =>
    refine ⟨?_, ih⟩
    cases cell with
    | none => trivial
    | some v => cases v <;> trivial

theorem opsReply_encodable {cells : List (Option Stored)}
    (h : MakeOk sizeofSlice cells.length) : (opsReply cmd cells).Encodable := by
  have hlength : (cells.length : ℤ) * 24 ≤ 2 ^ 48 := by
    simpa [sizeofSlice, maxAlloc] using h.2
  have hcount : (Value.integer (cells.countP Option.isSome : ℕ)).Encodable := by
    have := List.countP_le_length (p := Option.isSome) (l := cells)
    simp only [Value.Encodable]
    omega
  cases cmd with
  | mget =>
    refine ⟨⟨by omega, ?_⟩, allEncodable_map_readReply cells⟩
    simp only [List.length_map, sizeofPointer, maxAlloc]
    omega
  | mset => exact (by decide : 10 ∉ bytes "OK")
  | del | unlink | exists_ | touch => exact hcount

variable {nodeForSlot : ℕ → Option Bytes} {tail : List Bytes} {groups : List SlotGroup}

/-- The old cells of the keys of a slot, in a run of the command on one store. -/
def slotCells (cmd : MultiKeyCmd) (tail : List Bytes) (store : Store) (slot : ℕ) :
    List (Option Stored) :=
  resultsOf keyOpSem hashSlot (keyOps cmd tail) store slot

/-- The old cells of all keys. -/
def allCells (cmd : MultiKeyCmd) (tail : List Bytes) (store : Store) : List (Option Stored) :=
  (run keyOpSem (keyOps cmd tail) store).1

theorem keyOps_length_le (cmd : MultiKeyCmd) (tail : List Bytes) :
    (keyOps cmd tail).length ≤ tail.length := by
  have hset : ∀ tail : List Bytes, (setOps tail).length ≤ tail.length := by
    intro tail
    fun_induction setOps tail with
    | case1 k value rest ih => simp only [List.length_cons]; omega
    | case2 => simp
  cases cmd with
  | mset => exact hset tail
  | mget | del | unlink | exists_ | touch => simp [keyOps]

theorem allCells_length_le (cmd : MultiKeyCmd) (tail : List Bytes) (store : Store) :
    (allCells cmd tail store).length ≤ tail.length := by
  rw [allCells, run_length]
  exact keyOps_length_le cmd tail

theorem slotCells_sublist (cmd : MultiKeyCmd) (tail : List Bytes) (store : Store) (slot : ℕ) :
    (slotCells cmd tail store slot).Sublist (allCells cmd tail store) := by
  have hsub := (List.filter_sublist (l := (keyOps cmd tail).zip (allCells cmd tail store))
    (p := fun x => decide (hashSlot (keyOpSem.key x.1) = slot))).map Prod.snd
  rwa [List.map_snd_zip (by simp [allCells])] at hsub

/-- The counts of the slots add up to the count of the command. -/
theorem sum_slot_counts (heven : cmd = .mset → tail.length % 2 = 0)
    (h : GroupsOk nodeForSlot (multiKeys cmd tail).zipIdx groups) (store : Store) :
    ((groups.map fun g => slotCells cmd tail store g.slot).map fun c =>
        c.countP Option.isSome).sum = (allCells cmd tail store).countP Option.isSome := by
  have hsplit := countP_eq_sum_classes (fun x => hashSlot (keyOpSem.key x.1))
    (fun x : KeyOp × Option Stored => x.2.isSome) h.nodup
    ((keyOps cmd tail).zip (allCells cmd tail store)) fun x hx =>
      exists_group_of_mem_keyOps heven h (List.of_mem_zip hx).1
  have hall : ((keyOps cmd tail).zip (allCells cmd tail store)).countP (fun x => x.2.isSome) =
      (allCells cmd tail store).countP Option.isSome := by
    have hsnd : ((keyOps cmd tail).zip (allCells cmd tail store)).map Prod.snd =
        allCells cmd tail store := List.map_snd_zip (by simp [allCells])
    conv_rhs => rw [← hsnd, List.countP_map]
    rfl
  rw [← hall, hsplit, List.map_map, List.map_map]
  congr 1
  refine List.map_congr_left fun g _ => ?_
  simp only [Function.comp, slotCells, resultsOf, List.countP_map]
  rfl

/-- The keys of MGET with their old cells and positions. -/
private def indexedCells (tail : List Bytes) (store : Store) : List ((Bytes × Option Stored) × ℕ) :=
  (tail.zip (allCells .mget tail store)).zipIdx

private theorem allCells_mget_length (tail : List Bytes) (store : Store) :
    (allCells .mget tail store).length = tail.length := by
  simp [allCells, keyOps]

private theorem mget_indices (h : GroupsOk nodeForSlot tail.zipIdx groups) (store : Store)
    (hg : g ∈ groups) :
    g.indices = ((indexedCells tail store).filter fun x => hashSlot x.1.1 = g.slot).map
      Prod.snd := by
  have hzip : tail.zipIdx = (indexedCells tail store).map fun x => (x.1.1, x.2) := by
    have hfst : (tail.zip (allCells .mget tail store)).map Prod.fst = tail :=
      List.map_fst_zip (by rw [allCells_mget_length])
    conv_lhs => rw [← hfst, List.zipIdx_map]
    rfl
  rw [h.indices g hg, hzip, List.filter_map, List.map_map]
  rfl

private theorem mget_slotCells (tail : List Bytes) (store : Store) (slot : ℕ) :
    slotCells .mget tail store slot =
      ((indexedCells tail store).filter fun x => hashSlot x.1.1 = slot).map fun x => x.1.2 := by
  have hzip : tail.zip (allCells .mget tail store) = (indexedCells tail store).map Prod.fst :=
    (List.zipIdx_map_fst _ _).symm
  have hcells : slotCells .mget tail store slot =
      ((tail.zip (allCells .mget tail store)).filter fun x => hashSlot x.1 = slot).map
        Prod.snd := by
    simp only [slotCells, resultsOf, keyOps, List.zip_map_left, List.filter_map, List.map_map]
    rfl
  rw [hcells, hzip, List.filter_map, List.map_map]
  rfl

/-- The merge function of MGET rebuilds the reply for all keys. -/
theorem mergeMGET_eq (h : GroupsOk nodeForSlot tail.zipIdx groups) (store : Store)
    (hsubs : List.Forall₂ (fun g sub => Delivers (opsReply .mget (slotCells .mget tail store g.slot))
      sub) groups subs) :
    mergeMGET groups tail.length subs =
      encodeValue (opsReply .mget (allCells .mget tail store)) := by
  let cells := allCells .mget tail store
  let items := groups.map fun g => (g, slotCells .mget tail store g.slot)
  let encoded : Option Stored → Option Bytes := fun cell => some (encodeValue (readReply cell))
  let pairs := items.flatMap fun x => x.1.indices.zip (x.2.map encoded)
  have hlength : cells.length = tail.length := allCells_mget_length tail store
  have hitems : items.map Prod.fst = groups := by simp [items, Function.comp_def]
  have hloop : mergeMGETLoop (groups.zip subs) (List.replicate tail.length none) =
      .ok (scatter (List.replicate tail.length none) pairs) := by
    have hforall : List.Forall₂ (fun x sub => Delivers (opsReply .mget x.2) sub) items subs :=
      List.forall₂_map_left_iff.mpr hsubs
    have := mergeMGETLoop_eq hforall (List.replicate tail.length none)
    rwa [hitems] at this
  -- A pair of a group is a position of a key in its slot with the cell of the key.
  have hmem : ∀ p, p ∈ pairs ↔ ∃ g ∈ groups, ∃ x ∈ indexedCells tail store,
      hashSlot x.1.1 = g.slot ∧ p = (x.2, encoded x.1.2) := by
    intro p
    simp only [pairs, items, List.mem_flatMap, List.mem_map, exists_exists_and_eq_and]
    refine exists_congr fun g => and_congr_right fun hg => ?_
    rw [mget_indices h store hg, mget_slotCells, List.map_map, List.zip_map']
    simp only [List.mem_map, List.mem_filter, decide_eq_true_eq, Function.comp, and_assoc]
    exact exists_congr fun x => and_congr_right fun _ => and_congr_right fun _ => eq_comm
  have hscatter : scatter (List.replicate tail.length none) pairs = cells.map encoded := by
    refine scatter_eq (by simp [hlength]) ?_ ?_
    · intro p hp
      obtain ⟨g, -, x, hx, -, rfl⟩ := (hmem p).mp hp
      have hget := List.mem_zipIdx_iff_getElem?.mp hx
      rw [List.getElem?_zip_eq_some] at hget
      rw [List.getElem?_map, hget.2]
      rfl
    · intro i hi
      right
      rw [List.length_map, hlength] at hi
      have hcell : i < cells.length := by omega
      have hx : ((tail[i], cells[i]), i) ∈ indexedCells tail store := by
        rw [indexedCells, List.mem_zipIdx_iff_getElem?, List.getElem?_zip_eq_some]
        exact ⟨List.getElem?_eq_getElem hi, List.getElem?_eq_getElem hcell⟩
      have hslot := h.cover (tail[i], i) (List.mem_zipIdx_iff_getElem?.mpr
        (List.getElem?_eq_getElem hi))
      obtain ⟨g, hg, hgslot⟩ := List.mem_map.mp hslot
      exact ⟨_, (hmem _).mpr ⟨g, hg, _, hx, hgslot.symm, rfl⟩, rfl⟩
  have hflat : (cells.map encoded).flatMap (fun r => r.getD nilBulkBytes) =
      encodeValues (cells.map readReply) := by
    rw [encodeValues_eq_flatMap, List.flatMap_map, List.flatMap_map]
    rfl
  simp only [mergeMGET, hloop, hscatter, hflat, opsReply, encodeValue, List.length_map]
  rw [← hlength]

/-- The merge function of a command builds the reply of the command. -/
theorem mergeFunc_eq (heven : cmd = .mset → tail.length % 2 = 0)
    (hmake : MakeOk sizeofSlice (tail.length + 1))
    (h : GroupsOk nodeForSlot (multiKeys cmd tail).zipIdx groups) (store : Store)
    (hsubs : List.Forall₂ (fun g sub => Delivers (opsReply cmd (slotCells cmd tail store g.slot))
      sub) groups subs) :
    mergeFunc cmd groups (multiKeys cmd tail).length subs =
      encodeValue (opsReply cmd (allCells cmd tail store)) := by
  have hlength : ((tail.length : ℤ) + 1) * 24 ≤ 2 ^ 48 := by
    simpa [sizeofSlice, maxAlloc] using hmake.2
  have hcells : List.Forall₂ (fun c sub => Delivers (opsReply cmd c) sub)
      (groups.map fun g => slotCells cmd tail store g.slot) subs :=
    List.forall₂_map_left_iff.mpr hsubs
  have hsum := sum_slot_counts heven h store
  have hcount := List.countP_le_length (p := Option.isSome) (l := allCells cmd tail store)
  have hle := allCells_length_le cmd tail store
  have hbound : 0 + ((groups.map fun g => slotCells cmd tail store g.slot).map fun c =>
      c.countP Option.isSome).sum < 2 ^ 63 := by
    rw [hsum]
    omega
  cases cmd with
  | mget => exact mergeMGET_eq h store hsubs
  | mset => exact mergeMSET_eq hcells
  | del | unlink | exists_ | touch =>
    have hmerge := mergeCount_eq hcells 0 hbound
    rw [hsum, Nat.zero_add] at hmerge
    exact hmerge

end Merge

/-! ### Delivery of the replies -/

/-- Deliver replies to sub-commands to a slot, with the chunks handed on so far. -/
def deliver (slotIdx : ℕ) : List (ℕ × Bytes) → RespQueue × List Bytes → RespQueue × List Bytes
  | [], acc => acc
  | (subIdx, data) :: rest, (q, sent) =>
    let (q, chunks) := q.accumulateFanInSubResponse slotIdx subIdx data
    deliver slotIdx rest (q, sent ++ chunks)

/-- The parts that are missing complete the slot, by induction on the arrivals: every part
but the last one is only recorded. -/
theorem deliver_toBuffer {slotIdx : ℕ} {q : RespQueue} {sent : List Bytes} {slot : ResponseSlot}
    {fi : FanInState} (hne : arrivals ≠ []) (hbase : sent.length = q.base)
    (hblocked : (q.toBuffer sent).Blocked) (hslot : q.slotAt slotIdx = some slot)
    (hfan : slot.fanIn = some fi) (hcount : fi.received + arrivals.length = fi.total)
    (hin : ∀ x ∈ arrivals, x.1 < fi.subData.length) :
    (deliver slotIdx arrivals (q, sent)).1.toBuffer (deliver slotIdx arrivals (q, sent)).2 =
      (q.toBuffer sent).complete slotIdx (fi.mergeFunc
        (scatter fi.subData (arrivals.map fun x => (x.1, ⟨x.1, x.2⟩)))) := by
  induction arrivals generalizing q slot fi with
  | nil => exact absurd rfl hne
  | cons x rest ih =>
    obtain ⟨subIdx, data⟩ := x
    obtain ⟨hrel, hget⟩ := relIdx_of_slotAt hslot
    have hfan' : q.slots[slotIdx - q.base]?.bind ResponseSlot.fanIn = some fi := by
      rw [hget, Option.bind_some, hfan]
    have hsub : subIdx < fi.subData.length := hin (subIdx, data) (by simp)
    rw [List.length_cons] at hcount
    by_cases hrest : rest = []
    · subst hrest
      have hlast := accumulateFanInSubResponse_of_last hbase hblocked hrel hfan' hsub
        (by simp at hcount; omega) data
      have hcomplete : completeAt (q.toBuffer sent) slotIdx
          (fi.mergeFunc (fi.record subIdx data).subData) =
          (q.toBuffer sent).complete slotIdx (fi.mergeFunc (fi.record subIdx data).subData) := by
        rw [completeAt, if_neg (by omega), Int.toNat_natCast]
      exact hlast.1.trans hcomplete
    · have hmore : fi.received + 1 < fi.total := by
        have := List.length_pos_of_ne_nil hrest
        omega
      have hpart := accumulateFanInSubResponse_of_more hrel hfan' hsub hmore data
      let q' := { q with slots := q.slots.modify (slotIdx - q.base) fun slot =>
        { slot with fanIn := some (fi.record subIdx data) } }
      have hvalues : q'.toBuffer sent = q.toBuffer sent := by
        simp only [q', toBuffer, map_value_modify_fanIn]
      have hslot' : q'.slotAt slotIdx =
          some { slot with fanIn := some (fi.record subIdx data) } := by
        have hbounds := slotAt_bounds hslot
        rw [slotAt_modify, if_pos (by omega), hslot]
        rfl
      have hnext := ih hrest (q := q') hbase (by rw [hvalues]; exact hblocked) hslot' rfl
        (by rw [FanInState.record_received, FanInState.record_total]; omega)
        (fun y hy => by simpa [FanInState.record] using hin y (List.mem_cons_of_mem _ hy))
      simp only [deliver, hpart, List.append_nil]
      rw [hnext, hvalues]
      rfl

/-! ### The command as a whole -/

section Whole

variable {nodeForSlot : ℕ → Option Bytes} {cmd : MultiKeyCmd} {tail : List Bytes}
  {groups : List SlotGroup} {store : Store} {q : RespQueue} {sent : List Bytes}

/-- The reply of a slot is one that the proxy can parse. -/
theorem delivers_slotCells (hmake : MakeOk sizeofSlice (tail.length + 1))
    (hlength : (encodeValue (opsReply cmd (allCells cmd tail store))).length ≤ maxAlloc)
    (slot i : ℕ) :
    Delivers (opsReply cmd (slotCells cmd tail store slot))
      ⟨i, encodeValue (opsReply cmd (slotCells cmd tail store slot))⟩ := by
  have hsub := slotCells_sublist cmd tail store slot
  refine ⟨rfl, (opsReply_length_le hsub).trans hlength, opsReply_encodable ⟨by omega, ?_⟩⟩
  have hle := hsub.length_le.trans (allCells_length_le cmd tail store)
  have hmake := hmake.2
  simp only [sizeofSlice] at hmake ⊢
  omega

private theorem mapM_eq_some_map {α : Type} {f : α → Option β} {h : α → β} {l : List α}
    (hf : ∀ a ∈ l, f a = some (h a)) : l.mapM f = some (l.map h) := by
  induction l with
  | nil => rfl
  | cons a l ih =>
    rw [List.mapM_cons, hf a (by simp), ih fun b hb => hf b (List.mem_cons_of_mem _ hb)]
    rfl

/-- The sub-command that the proxy sends for a group. -/
def sendOf (cmd : MultiKeyCmd) (tail : List Bytes) (g : SlotGroup) : Bytes × Request :=
  (g.addr, { args := (subArgs cmd (cmd.name :: tail) g).getD [], cmd := cmd.name })

/-- The sub-commands of a fan-out are those of its groups. -/
theorem routeMultiKeyToMux_fanOut {raw : Bytes} (heven : cmd = .mset → tail.length % 2 = 0)
    (hkeys : multiKeys cmd tail ≠ [])
    (hgroups : groupKeys nodeForSlot (multiKeys cmd tail).zipIdx [] = .ok groups)
    (h : GroupsOk nodeForSlot (multiKeys cmd tail).zipIdx groups) (hmany : ∀ g, groups ≠ [g]) :
    routeMultiKeyToMux nodeForSlot cmd { args := cmd.name :: tail, raw, cmd := cmd.name } =
      .fanOut groups (groups.map (sendOf cmd tail))
        (mergeFunc cmd groups (multiKeys cmd tail).length) := by
  have hargs : groups.mapM (subArgs cmd (cmd.name :: tail)) =
      some (groups.map fun g => (subArgs cmd (cmd.name :: tail) g).getD []) := by
    refine mapM_eq_some_map fun g hg => ?_
    obtain ⟨sub, hsub, -⟩ := subArgs_eq_some cmd.name heven h hg
    rw [hsub]
    rfl
  have hzip : groups.zip (groups.map fun g => (subArgs cmd (cmd.name :: tail) g).getD []) =
      groups.map fun g => (g, (subArgs cmd (cmd.name :: tail) g).getD []) := by
    conv_lhs => rw [← List.map_id groups, List.map_map, List.zip_map']
    rfl
  simp only [routeMultiKeyToMux, List.tail_cons, if_neg hkeys, hgroups, hargs, hzip, List.map_map]
  rfl

theorem serves_sendOf (heven : cmd = .mset → tail.length % 2 = 0)
    (h : GroupsOk nodeForSlot (multiKeys cmd tail).zipIdx groups) (hg : g ∈ groups) :
    Serves (fun c => (nodeForSlot c).getD []) cmd tail g.slot (sendOf cmd tail g) := by
  obtain ⟨sub, hsub, hcommand⟩ := subArgs_eq_some cmd.name heven h hg
  refine ⟨?_, sub, ?_, hcommand⟩
  · simp [sendOf, h.addr g hg]
  · simp [sendOf, hsub]

/-- The queue after `allocResponseSlot`, with the fan-in state that
`routeMultiKeyToMux` puts on the new slot. -/
def openFanIn (q : RespQueue) (total : ℕ) (mergeFunc : List SubResponse → Bytes) : RespQueue :=
  let (queue, slotIdx) := q.allocResponseSlot
  queue.attachFanIn slotIdx
    { total, received := 0, subData := List.replicate total ⟨0, []⟩, mergeFunc }

theorem slotAt_allocResponseSlot (q : RespQueue) :
    q.allocResponseSlot.1.slotAt (q.base + q.slots.length) = some {} := by
  simp [slotAt, allocResponseSlot]

theorem toBuffer_allocResponseSlot (q : RespQueue) (sent : List Bytes) :
    q.allocResponseSlot.1.toBuffer sent = (q.toBuffer sent).alloc := by
  simp [toBuffer, allocResponseSlot, Buffer.alloc, value]

theorem slotAt_openFanIn (q : RespQueue) (total : ℕ) (mergeFunc : List SubResponse → Bytes) :
    (openFanIn q total mergeFunc).slotAt (q.base + q.slots.length) =
      some { fanIn := some ⟨total, 0, List.replicate total ⟨0, []⟩, mergeFunc⟩ } := by
  have hslot := slotAt_allocResponseSlot q
  simp only [openFanIn, attachFanIn]
  rw [slotAt_modify, hslot, if_pos (by simp [allocResponseSlot])]
  rfl

theorem toBuffer_openFanIn (q : RespQueue) (total : ℕ) (mergeFunc : List SubResponse → Bytes)
    (sent : List Bytes) : (openFanIn q total mergeFunc).toBuffer sent = (q.toBuffer sent).alloc := by
  rw [← toBuffer_allocResponseSlot]
  simp only [openFanIn, attachFanIn, toBuffer, map_value_modify_fanIn]

/-- What happens to a command with its reply in a slot of its own: the slot is completed
with the reply. -/
def Completes (q : RespQueue) (sent : List Bytes) (result : RespQueue × List Bytes)
    (reply : Bytes) : Prop :=
  result.1.toBuffer result.2 =
    (q.toBuffer sent).alloc.complete (q.base + q.slots.length) reply

/-- A command whose keys share a slot, forwarded as it is. -/
theorem single_slot_spec (raw : Bytes) (heven : cmd = .mset → tail.length % 2 = 0)
    (hne : tail ≠ []) (h : GroupsOk nodeForSlot (multiKeys cmd tail).zipIdx [g]) (store : Store) :
    runSends [(g.addr, { args := cmd.name :: tail, raw, cmd := cmd.name })]
        (partOf nodeForSlot store) =
      ([(redisExec cmd tail store).1], partOf nodeForSlot (redisExec cmd tail store).2) := by
  have hslot : ∀ o ∈ keyOps cmd tail, hashSlot (keyOpSem.key o) = g.slot := fun o ho => by
    simpa using exists_group_of_mem_keyOps heven h ho
  have hserves : Serves (fun c => (nodeForSlot c).getD []) cmd tail g.slot
      (g.addr, { args := cmd.name :: tail, raw, cmd := cmd.name }) := by
    refine ⟨by simp [h.addr g (by simp)], tail, rfl, ?_, hne, heven⟩
    exact (List.filter_eq_self.mpr fun o ho => decide_eq_true (hslot o ho)).symm
  have hcells : slotCells cmd tail store g.slot = allCells cmd tail store := by
    rw [slotCells, resultsOf, List.filter_eq_self.mpr fun x hx =>
      decide_eq_true (hslot x.1 (List.of_mem_zip hx).1), List.map_snd_zip (by simp)]
    rfl
  have hslots : [g.slot].Perm ([g].map SlotGroup.slot) := by simp
  rw [runSends_spec heven h store hslots (.cons hserves .nil), redisExec_of_ok hne heven]
  have hreply := congrArg (fun cells => [opsReply cmd cells]) hcells
  exact Prod.ext hreply rfl

/-- The replies of a fan-out, delivered in any order, complete its slot with the reply of
the command. -/
theorem fanOut_completes (heven : cmd = .mset → tail.length % 2 = 0)
    (h : GroupsOk nodeForSlot (multiKeys cmd tail).zipIdx groups) (hgroups : groups ≠ [])
    (hbase : sent.length = q.base) (hblocked : (q.toBuffer sent).Blocked)
    (hmake : MakeOk sizeofSlice (tail.length + 1))
    (hlength : (encodeValue (opsReply cmd (allCells cmd tail store))).length ≤ maxAlloc)
    (harrivals : arrivals.Perm (groups.zipIdx.map fun x =>
      (x.2, encodeValue (opsReply cmd (slotCells cmd tail store x.1.slot))))) :
    Completes q sent
      (deliver (q.base + q.slots.length) arrivals
        (openFanIn q groups.length (mergeFunc cmd groups (multiKeys cmd tail).length), sent))
      (encodeValue (opsReply cmd (allCells cmd tail store))) := by
  let subs : List SubResponse := groups.zipIdx.map fun x =>
    ⟨x.2, encodeValue (opsReply cmd (slotCells cmd tail store x.1.slot))⟩
  have hcount : arrivals.length = groups.length := by simpa using harrivals.length_eq
  have hmem : ∀ y ∈ arrivals, ∃ g i, groups[i]? = some g ∧
      y = (i, encodeValue (opsReply cmd (slotCells cmd tail store g.slot))) := by
    intro y hy
    obtain ⟨x, hx, rfl⟩ := List.mem_map.mp (harrivals.mem_iff.mp hy)
    exact ⟨x.1, x.2, List.mem_zipIdx_iff_getElem?.mp hx, rfl⟩
  have hget : ∀ {g : SlotGroup} {i : ℕ}, groups[i]? = some g → subs[i]? =
      some ⟨i, encodeValue (opsReply cmd (slotCells cmd tail store g.slot))⟩ := by
    intro g i hg
    simp [subs, hg]
  have hscatter : scatter (List.replicate groups.length ⟨0, []⟩)
      (arrivals.map fun y => (y.1, ⟨y.1, y.2⟩)) = subs := by
    refine scatter_eq (by simp [subs]) ?_ ?_
    · intro p hp
      obtain ⟨y, hy, rfl⟩ := List.mem_map.mp hp
      obtain ⟨g, i, hg, rfl⟩ := hmem y hy
      exact hget hg
    · intro i hi
      right
      have hi : i < groups.length := by simpa [subs] using hi
      have hin : (i, encodeValue (opsReply cmd (slotCells cmd tail store groups[i].slot))) ∈
          arrivals := by
        rw [harrivals.mem_iff]
        exact List.mem_map.mpr ⟨(groups[i], i), List.mem_zipIdx_iff_getElem?.mpr (by simp), rfl⟩
      exact ⟨_, List.mem_map_of_mem hin, rfl⟩
  have hsubs : List.Forall₂ (fun g sub => Delivers (opsReply cmd (slotCells cmd tail store g.slot))
      sub) groups subs := by
    have hsame : List.Forall₂ (fun g sub => Delivers
        (opsReply cmd (slotCells cmd tail store g.slot)) sub) (groups.zipIdx.map Prod.fst) subs :=
      List.forall₂_map_left_iff.mpr (List.forall₂_map_right_iff.mpr (List.forall₂_same.mpr
        fun x _ => delivers_slotCells hmake hlength x.1.slot x.2))
    rwa [List.zipIdx_map_fst] at hsame
  have hne : arrivals ≠ [] := by
    rintro rfl
    exact hgroups (List.length_eq_zero_iff.mp hcount.symm)
  have hslot := slotAt_openFanIn q groups.length (mergeFunc cmd groups (multiKeys cmd tail).length)
  have hblocked' : ((openFanIn q groups.length
      (mergeFunc cmd groups (multiKeys cmd tail).length)).toBuffer sent).Blocked := by
    rw [toBuffer_openFanIn]
    exact hblocked.alloc
  have hdeliver := deliver_toBuffer hne (q := openFanIn q groups.length _) hbase hblocked' hslot rfl
    (by simpa using hcount) fun y hy => by
      obtain ⟨g, i, hg, rfl⟩ := hmem y hy
      simpa using (List.getElem?_eq_some_iff.mp hg).1
  have hmerge := mergeFunc_eq heven hmake h store hsubs
  rw [Completes, hdeliver, toBuffer_openFanIn, hscatter]
  exact congrArg _ hmerge

/-- The reply of a forwarded command completes its slot. -/
theorem accumulate_completes (hbase : sent.length = q.base)
    (hblocked : (q.toBuffer sent).Blocked) (reply : Bytes) :
    let result := q.allocResponseSlot.1.accumulateResponseSlot (q.base + q.slots.length : ℕ) reply
    Completes q sent (result.1, sent ++ result.2) reply := by
  obtain ⟨hrel, hget⟩ := relIdx_of_slotAt (slotAt_allocResponseSlot q)
  have hplain := accumulateResponseSlot_of_plain (q := q.allocResponseSlot.1) hbase
    (by rw [toBuffer_allocResponseSlot]; exact hblocked.alloc) hrel (by rw [hget]; rfl) reply
  rw [Completes, hplain.1, completeAt, if_neg (by omega), Int.toNat_natCast,
    toBuffer_allocResponseSlot]

/-- The slot of the group at an index. -/
private def slotOf (groups : List SlotGroup) (i : ℕ) : ℕ := ((groups[i]?).map SlotGroup.slot).getD 0

private theorem map_zipIdx_slotOf (groups : List SlotGroup) (send : SlotGroup → Bytes × Request)
    (f : ℕ → ℕ → β) :
    ((groups.map send).zipIdx.map fun x => f x.2 (slotOf groups x.2)) =
      groups.zipIdx.map fun x => f x.2 x.1.slot := by
  rw [List.zipIdx_map, List.map_map]
  refine List.map_congr_left fun x hx => ?_
  have hget := List.mem_zipIdx_iff_getElem?.mp hx
  simp [slotOf, hget]

/-- The sub-commands of a fan-out, executed in any order. -/
theorem fanOut_runs (heven : cmd = .mset → tail.length % 2 = 0)
    (h : GroupsOk nodeForSlot (multiKeys cmd tail).zipIdx groups) (store : Store)
    {order : List ((Bytes × Request) × ℕ)}
    (horder : order.Perm (groups.map (sendOf cmd tail)).zipIdx) :
    let result := runSends (order.map Prod.fst) (partOf nodeForSlot store)
    result.2 = partOf nodeForSlot (run keyOpSem (keyOps cmd tail) store).2 ∧
      ((order.map Prod.snd).zip (result.1.map encodeValue)).Perm (groups.zipIdx.map fun x =>
        (x.2, encodeValue (opsReply cmd (slotCells cmd tail store x.1.slot)))) := by
  have hslots : (order.map fun x => slotOf groups x.2).Perm (groups.map SlotGroup.slot) := by
    have hperm := horder.map fun x => slotOf groups x.2
    rw [map_zipIdx_slotOf groups _ fun _ slot => slot] at hperm
    have hfst := congrArg (List.map SlotGroup.slot) (List.zipIdx_map_fst 0 groups)
    rw [List.map_map] at hfst
    exact hfst ▸ hperm
  have hserves : List.Forall₂ (Serves (fun c => (nodeForSlot c).getD []) cmd tail)
      (order.map fun x => slotOf groups x.2) (order.map Prod.fst) := by
    refine List.forall₂_map_left_iff.mpr (List.forall₂_map_right_iff.mpr
      (List.forall₂_same.mpr fun x hx => ?_))
    have hget := List.mem_zipIdx_iff_getElem?.mp (horder.mem_iff.mp hx)
    rw [List.getElem?_map] at hget
    obtain ⟨g, hg, hsend⟩ := Option.map_eq_some_iff.mp hget
    have hslot : slotOf groups x.2 = g.slot := by simp [slotOf, hg]
    rw [hslot, ← hsend]
    exact serves_sendOf heven h (List.mem_of_getElem? hg)
  have hrun := runSends_spec heven h store hslots hserves
  simp only [hrun, true_and]
  have hzip : (order.map Prod.snd).zip (((order.map fun x => slotOf groups x.2).map fun slot =>
      opsReply cmd (resultsOf keyOpSem hashSlot (keyOps cmd tail) store slot)).map encodeValue) =
      order.map fun x => (x.2, encodeValue (opsReply cmd
        (slotCells cmd tail store (slotOf groups x.2)))) := by
    rw [List.map_map, List.map_map, List.zip_map']
    rfl
  rw [hzip, ← map_zipIdx_slotOf groups (sendOf cmd tail) fun i slot =>
    (i, encodeValue (opsReply cmd (slotCells cmd tail store slot)))]
  exact horder.map _

end Whole

theorem multiKeys_eq_nil : multiKeys cmd tail = [] ↔ tail = [] := by
  unfold multiKeys
  split
  · cases tail with
    | nil => simp [everyOther]
    | cons a rest => cases rest <;> simp [everyOther]
  · exact Iff.rfl

/-- The keys are grouped if the nodes cover them. -/
theorem exists_groups {nodeForSlot : ℕ → Option Bytes}
    (hcover : ∀ k ∈ multiKeys cmd tail, (nodeForSlot (hashSlot k)).isSome) :
    ∃ groups, groupKeys nodeForSlot (multiKeys cmd tail).zipIdx [] = .ok groups ∧
      GroupsOk nodeForSlot (multiKeys cmd tail).zipIdx groups := by
  obtain ⟨groups, hgroups⟩ :=
    groupKeys_ok _ (fun x hx => hcover x.1 (fst_mem_of_mem_zipIdx hx)) []
  exact ⟨groups, hgroups, .of_groupKeys hgroups⟩

/-- What a command does is what it does on one store. Its reply is written at once, or
completes the slot of the command, and the parts of the key space are those after the
command. The sub-commands run in any order, and their replies arrive in any order. -/
def PreservesMeaning (nodeForSlot : ℕ → Option Bytes) (cmd : MultiKeyCmd) (tail : List Bytes)
    (raw : Bytes) (store : Store) (q : RespQueue) (sent : List Bytes) : Prop :=
  let req : Request := { args := cmd.name :: tail, raw, cmd := cmd.name }
  let reply := encodeValue (redisExec cmd tail store).1
  let final := (redisExec cmd tail store).2
  match routeMultiKeyToMux nodeForSlot cmd req with
  | .immediate data => data = reply ∧ final = store
  | .single addr =>
    let result := runSends [(addr, req)] (partOf nodeForSlot store)
    let (queue, slotIdx) := q.allocResponseSlot
    let (queue, chunks) := queue.accumulateResponseSlot slotIdx reply
    result.1.map encodeValue = [reply] ∧ result.2 = partOf nodeForSlot final ∧
      Completes q sent (queue, sent ++ chunks) reply
  | .fanOut groups sends mergeFunc =>
    ∀ order : List ((Bytes × Request) × ℕ), order.Perm sends.zipIdx →
      let result := runSends (order.map Prod.fst) (partOf nodeForSlot store)
      result.2 = partOf nodeForSlot final ∧
        ∀ arrivals : List (ℕ × Bytes),
          arrivals.Perm ((order.map Prod.snd).zip (result.1.map encodeValue)) →
          Completes q sent (deliver (q.base + q.slots.length) arrivals
            (openFanIn q groups.length mergeFunc, sent)) reply
  | .panic => False

/-- Cross-slot fan-out preserves meaning, for pairs that are complete, nodes that cover the
keys, a request that `ParseRequest` could make and a reply that fits in memory. -/
theorem multiKey_preserves_meaning {nodeForSlot : ℕ → Option Bytes} {cmd : MultiKeyCmd}
    {tail : List Bytes} {raw : Bytes} {store : Store} {q : RespQueue} {sent : List Bytes}
    (hpairs : cmd = .mset → tail.length % 2 = 0)
    (hcover : ∀ k ∈ multiKeys cmd tail, (nodeForSlot (hashSlot k)).isSome)
    (hbase : sent.length = q.base) (hblocked : (q.toBuffer sent).Blocked)
    (hmake : MakeOk sizeofSlice (tail.length + 1))
    (hlength : (encodeValue (redisExec cmd tail store).1).length ≤ maxAlloc) :
    PreservesMeaning nodeForSlot cmd tail raw store q sent := by
  unfold PreservesMeaning
  intro req reply final
  by_cases hkeys : multiKeys cmd tail = []
  · have htail := multiKeys_eq_nil.mp hkeys
    have hplan : routeMultiKeyToMux nodeForSlot cmd req =
        .immediate (encodeError (wrongArgsError cmd)) := by
      simp [routeMultiKeyToMux, req, hkeys]
    rw [hplan]
    simp [reply, final, redisExec, htail, encodeValue]
  · have htail : tail ≠ [] := fun h => hkeys (multiKeys_eq_nil.mpr h)
    obtain ⟨groups, hgroups, hok⟩ := exists_groups hcover
    have hexec := redisExec_of_ok htail hpairs store
    have hreply : reply = encodeValue (opsReply cmd (allCells cmd tail store)) := by
      simp only [reply, hexec]
      rfl
    have hfinal : final = (run keyOpSem (keyOps cmd tail) store).2 := by
      simp only [final, hexec]
    by_cases hsingle : ∃ g, groups = [g]
    · obtain ⟨g, rfl⟩ := hsingle
      have hplan : routeMultiKeyToMux nodeForSlot cmd req = .single g.addr := by
        simp only [routeMultiKeyToMux, req, List.tail_cons, if_neg hkeys, hgroups]
      have hrun := single_slot_spec raw hpairs htail hok store
      rw [hplan]
      refine ⟨?_, ?_, ?_⟩
      · simp only [req, hrun, List.map_cons, List.map_nil, reply]
      · simp only [req, hrun, final]
      · exact accumulate_completes hbase hblocked reply
    · have hmany : ∀ g, groups ≠ [g] := fun g hg => hsingle ⟨g, hg⟩
      have hne : groups ≠ [] := by
        rintro rfl
        obtain ⟨k, hk⟩ := List.exists_mem_of_ne_nil _ hkeys
        simpa using hok.slot_mem hk
      have hplan : routeMultiKeyToMux nodeForSlot cmd req = .fanOut groups _ _ :=
        routeMultiKeyToMux_fanOut hpairs hkeys hgroups hok hmany
      rw [hplan]
      intro order horder
      obtain ⟨hshards, hreplies⟩ := fanOut_runs hpairs hok store horder
      refine ⟨hshards.trans (by rw [hfinal]), fun arrivals harrivals => ?_⟩
      rw [hreply]
      exact fanOut_completes hpairs hok hne hbase hblocked hmake (hreply ▸ hlength)
        (harrivals.trans hreplies)

/-- MGET of two keys on two nodes, one of them twice and one of them missing. -/
theorem multiKey_preserves_meaning_mget_twice :
    let nodes : ℕ → Option Bytes := fun slot =>
      some (if slot < 8192 then bytes "a:1" else bytes "b:1")
    let tail := [bytes "x", bytes "y", bytes "x"]
    let store : Store := fun k => if k = bytes "x" then some (.string (bytes "v")) else none
    (∃ groups sends merge, routeMultiKeyToMux nodes .mget { args := bytes "MGET" :: tail } =
      .fanOut groups sends merge) ∧
    PreservesMeaning nodes .mget tail [] store (RespQueue.new .doubling) [] := by
  intro nodes tail store
  refine ⟨⟨_, _, _, rfl⟩, multiKey_preserves_meaning (by decide) (fun _ _ => rfl) rfl ?_ ?_ ?_⟩
  · simp [Buffer.Blocked, toBuffer, RespQueue.new]
  · decide
  · decide +kernel

end Pluster.Engine
