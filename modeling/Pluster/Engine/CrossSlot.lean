import Pluster.Engine.FanOutCorrect
import Pluster.Engine.PlanUnits
import Pluster.Router.Execute

/-!
# Two implementations of the cross-slot commands

A command for keys of several slots is either split by `routeMultiKeyToMux`, which merges
the frames of the sub-replies in the order of the groups, or by the router, which merges
values in the order in which its goroutines end. Both get one final reply for each slot.
They make the same of these replies, except that the router drops the error replies to the
commands that count keys. Only the router refuses an MSET whose last key has no value.
-/

namespace Pluster.Engine

open Proto GoStrings GoRuntime KeyedOps
open Router (Result Job jobError mgetElems okValue slotsOf slotParts)

variable {α : Type} {name : Bytes} {tail : List Bytes}

/-! ### Final replies -/

/-- The final reply for each slot: the frame that the mux gets and the result that the router
gets. An error of the router stands for an error frame of the mux. -/
structure FinalReplies where
  data : ℕ → Bytes
  result : ℕ → Result
  same : ∀ slot, match result slot with
    | .ok v => ∃ n, parseValue (data slot) = .ok (v, n)
    | .error _ => ∃ msg n, parseValue (data slot) = .ok (.error msg, n)

namespace FinalReplies

/-- The final reply for a slot is an error. -/
def Failed (replies : FinalReplies) (slot : ℕ) : Prop := jobError (replies.result slot) ≠ none

theorem failed_or_ok (replies : FinalReplies) (slot : ℕ) :
    (replies.Failed slot ∧ ∃ msg n, parseValue (replies.data slot) = .ok (.error msg, n)) ∨
      (¬ replies.Failed slot ∧ ∃ v n, replies.result slot = .ok v ∧ v.isError = false ∧
        parseValue (replies.data slot) = .ok (v, n)) := by
  have hsame := replies.same slot
  unfold Failed
  cases hresult : replies.result slot with
  | error err =>
    rw [hresult] at hsame
    exact .inl ⟨by simp [jobError], hsame⟩
  | ok v =>
    rw [hresult] at hsame
    obtain ⟨n, hparse⟩ := hsame
    cases herr : v.isError with
    | true =>
      left
      cases v with
      | error msg => exact ⟨by simp [jobError, herr], msg, n, hparse⟩
      | _ => cases herr
    | false => exact .inr ⟨by simp [jobError, herr], v, n, rfl, herr, hparse⟩

end FinalReplies

/-- The reply is an error reply. -/
def IsErrorReply (data : Bytes) : Prop := data.head? = some 45

/-- A frame that is parsed as an error is an error reply. -/
theorem isErrorReply_of_parseValue {data msg : Bytes} {n : ℤ}
    (h : parseValue data = .ok (.error msg, n)) : IsErrorReply data := by
  cases data with
  | nil => cases h
  | cons c rest =>
    by_contra herr
    have hne : c ≠ typeError := by
      rintro rfl
      exact herr rfl
    rw [parseValue, parseValueAt, if_neg (by simp)] at h
    obtain ⟨typ, htyp, h⟩ := bind_eq_ok h
    cases htyp
    -- The values of the other types are no errors.
    split at h
    · obtain ⟨⟨line, last⟩, -, h⟩ := bind_eq_ok h
      cases h
    split at h
    · obtain ⟨⟨line, last⟩, -, h⟩ := bind_eq_ok h
      simp only at h
      split at h <;> cases h
    split at h
    · obtain ⟨⟨line, last⟩, -, h⟩ := bind_eq_ok h
      simp only at h
      split at h
      · cases h
      split at h
      · cases h
      unfold parseBulkPayload at h
      simp only at h
      split at h
      · cases h
      obtain ⟨_, -, h⟩ := bind_eq_ok h
      obtain ⟨_, -, h⟩ := bind_eq_ok h
      cases h
    split at h
    · obtain ⟨⟨line, last⟩, -, h⟩ := bind_eq_ok h
      simp only at h
      split at h
      · cases h
      split at h
      · cases h
      obtain ⟨_, -, h⟩ := bind_eq_ok h
      obtain ⟨_, -, h⟩ := bind_eq_ok h
      cases h
    · obtain ⟨_, -, h⟩ := bind_eq_ok h
      obtain ⟨_, -, h⟩ := bind_eq_ok h
      cases h

/-! ### What both make of the replies -/

/-- Add a result to a count of keys. -/
def addReply (total : ℤ) : Result → ℤ
  | .ok (.integer n) => wrap64 (total + n)
  | _ => total

/-- The merged reply if no group failed. -/
def mergedReply (cmd : MultiKeyCmd) (total : ℕ) (groups : List SlotGroup) (replies : FinalReplies) :
    Value :=
  match cmd with
  | .mget => .array (scatter (List.replicate total .null)
      (groups.flatMap fun g => mgetElems (g.indices, replies.result g.slot)))
  | .mset => okValue
  | _ => .integer ((groups.map fun g => replies.result g.slot).foldl addReply 0)

/-- The sub-replies that the mux collects. -/
def FinalReplies.subs (replies : FinalReplies) (groups : List SlotGroup) : List SubResponse :=
  groups.zipIdx.map fun x => ⟨x.2, replies.data x.1.slot⟩

theorem FinalReplies.data_subs (replies : FinalReplies) (groups : List SlotGroup) :
    (replies.subs groups).map SubResponse.data = groups.map fun g => replies.data g.slot := by
  conv_rhs => rw [← List.zipIdx_map_fst 0 groups, List.map_map]
  rw [subs, List.map_map]
  rfl

/-! ### The mux -/

section Mux

variable {replies : FinalReplies} {groups : List SlotGroup} {subs : List SubResponse}

theorem mergeMSET_groups (hsubs : subs.map SubResponse.data = groups.map fun g => replies.data g.slot) :
    ((∃ g ∈ groups, replies.Failed g.slot) → IsErrorReply (mergeMSET subs)) ∧
      ((∀ g ∈ groups, ¬ replies.Failed g.slot) → mergeMSET subs = encodeValue okValue) := by
  induction groups generalizing subs with
  | nil =>
    rw [List.map_nil, List.map_eq_nil_iff] at hsubs
    subst hsubs
    simp [mergeMSET, okValue, encodeValue]
  | cons g groups ih =>
    obtain ⟨sub, subs, rfl, hdata, hrest⟩ := List.map_eq_cons_iff.mp hsubs
    rw [List.exists_mem_cons_iff, List.forall_mem_cons]
    rcases replies.failed_or_ok g.slot with ⟨hfailed, msg, n, hparse⟩ | ⟨hok, v, n, -, herr, hparse⟩
    · have hmerge : mergeMSET (sub :: subs) = sub.data := by
        rw [mergeMSET, hdata, hparse]
      rw [hmerge, hdata]
      exact ⟨fun _ => isErrorReply_of_parseValue hparse, fun hall => absurd hfailed hall.1⟩
    · have hmerge : mergeMSET (sub :: subs) = mergeMSET subs := by
        rw [mergeMSET, hdata, hparse]
        cases v with
        | error msg => cases herr
        | _ => rfl
      rw [hmerge]
      exact ⟨fun hany => (ih hrest).1 (hany.resolve_left hok), fun hall => (ih hrest).2 hall.2⟩

theorem mergeCount_groups (hsubs : subs.map SubResponse.data = groups.map fun g => replies.data g.slot)
    (total : ℤ) :
    ((∃ g ∈ groups, replies.Failed g.slot) → IsErrorReply (mergeCount total subs)) ∧
      ((∀ g ∈ groups, ¬ replies.Failed g.slot) → mergeCount total subs =
        encodeInteger ((groups.map fun g => replies.result g.slot).foldl addReply total)) := by
  induction groups generalizing subs total with
  | nil =>
    rw [List.map_nil, List.map_eq_nil_iff] at hsubs
    subst hsubs
    simp [mergeCount]
  | cons g groups ih =>
    obtain ⟨sub, subs, rfl, hdata, hrest⟩ := List.map_eq_cons_iff.mp hsubs
    rw [List.exists_mem_cons_iff, List.forall_mem_cons]
    rcases replies.failed_or_ok g.slot with
      ⟨hfailed, msg, n, hparse⟩ | ⟨hok, v, n, hresult, herr, hparse⟩
    · have hmerge : mergeCount total (sub :: subs) = sub.data := by
        rw [mergeCount, hdata, hparse]
      rw [hmerge, hdata]
      exact ⟨fun _ => isErrorReply_of_parseValue hparse, fun hall => absurd hfailed hall.1⟩
    · have hmerge : mergeCount total (sub :: subs) =
          mergeCount (addReply total (replies.result g.slot)) subs := by
        rw [mergeCount, hdata, hparse, hresult]
        cases v with
        | error msg => cases herr
        | _ => rfl
      rw [hmerge, List.map_cons, List.foldl_cons]
      exact ⟨fun hany => (ih hrest _).1 (hany.resolve_left hok), fun hall => (ih hrest _).2 hall.2⟩

/-- The pairs of positions and elements in the loop of MGET, as they are written. -/
theorem mergeMGETLoop_groups
    (hsubs : subs.map SubResponse.data = groups.map fun g => replies.data g.slot)
    (results : List (Option Bytes)) :
    ((∃ g ∈ groups, replies.Failed g.slot) →
        ∃ data, mergeMGETLoop (groups.zip subs) results = .error data ∧ IsErrorReply data) ∧
      ((∀ g ∈ groups, ¬ replies.Failed g.slot) → mergeMGETLoop (groups.zip subs) results =
        .ok (scatter results ((groups.flatMap fun g =>
          mgetElems (g.indices, replies.result g.slot)).map fun x => (x.1, some (encodeValue x.2))))) := by
  induction groups generalizing subs results with
  | nil => simp [mergeMGETLoop, scatter]
  | cons g groups ih =>
    obtain ⟨sub, subs, rfl, hdata, hrest⟩ := List.map_eq_cons_iff.mp hsubs
    rw [List.exists_mem_cons_iff, List.forall_mem_cons, List.zip_cons_cons]
    rcases replies.failed_or_ok g.slot with
      ⟨hfailed, msg, n, hparse⟩ | ⟨hok, v, n, hresult, herr, hparse⟩
    · have hmerge : mergeMGETLoop ((g, sub) :: groups.zip subs) results = .error sub.data := by
        rw [mergeMGETLoop, hdata, hparse]
      rw [hmerge, hdata]
      exact ⟨fun _ => ⟨_, rfl, isErrorReply_of_parseValue hparse⟩, fun hall => absurd hfailed hall.1⟩
    · have hmerge : mergeMGETLoop ((g, sub) :: groups.zip subs) results =
          mergeMGETLoop (groups.zip subs) (scatter results
            ((mgetElems (g.indices, replies.result g.slot)).map fun x =>
              (x.1, some (encodeValue x.2)))) := by
        rw [mergeMGETLoop, hdata, hparse, hresult]
        cases v with
        | error msg => cases herr
        | array elems =>
          have hzip : g.indices.zip (elems.map fun v => some (encodeValue v)) =
              (g.indices.zip elems).map fun x => (x.1, some (encodeValue x.2)) := by
            rw [List.zip_map_right]
            rfl
          simp only [mgetElems, hzip]
        | _ => rfl
      rw [hmerge, List.flatMap_cons, List.map_append, scatter_append]
      exact ⟨fun hany => (ih hrest _).1 (hany.resolve_left hok), fun hall => (ih hrest _).2 hall.2⟩

/-- The frame of an array whose elements were written one by one. -/
theorem encodeValue_scatter (total : ℕ) (pairs : List (ℕ × Value)) :
    [42] ++ formatNat total ++ crlf ++ (scatter (List.replicate total none)
        (pairs.map fun x => (x.1, some (encodeValue x.2)))).flatMap (fun r => r.getD nilBulkBytes) =
      encodeValue (.array (scatter (List.replicate total .null) pairs)) := by
  have hmux : (scatter (List.replicate total none)
      (pairs.map fun x => (x.1, some (encodeValue x.2)))).map (fun r => r.getD nilBulkBytes) =
      (scatter (List.replicate total .null) pairs).map encodeValue := by
    simp only [map_scatter, List.map_replicate, List.map_map, Option.getD_none, encodeValue]
    rfl
  rw [encodeValue, length_scatter, List.length_replicate, List.flatMap_def, hmux,
    encodeValues_eq_flatMap, List.flatMap_def]

/-- The mux reports an error if one of the groups failed, and otherwise the merged reply. -/
theorem mergeFunc_groups (cmd : MultiKeyCmd) (total : ℕ)
    (hsubs : subs.map SubResponse.data = groups.map fun g => replies.data g.slot) :
    ((∃ g ∈ groups, replies.Failed g.slot) → IsErrorReply (mergeFunc cmd groups total subs)) ∧
      ((∀ g ∈ groups, ¬ replies.Failed g.slot) →
        mergeFunc cmd groups total subs = encodeValue (mergedReply cmd total groups replies)) := by
  cases cmd with
  | mget =>
    obtain ⟨hfailed, hok⟩ := mergeMGETLoop_groups hsubs (List.replicate total none)
    constructor
    · intro hany
      obtain ⟨data, hloop, hdata⟩ := hfailed hany
      rw [mergeFunc, mergeMGET, hloop]
      exact hdata
    · intro hall
      rw [mergeFunc, mergeMGET, hok hall, mergedReply]
      exact encodeValue_scatter total _
  | mset => exact mergeMSET_groups hsubs
  | _ => exact mergeCount_groups hsubs 0

end Mux

/-! ### The router -/

/-- The slot of a job. -/
def jobSlot (job : Job) : ℕ :=
  match job.target with
  | .slot slot => slot
  | .node _ => 0

/-- The result of a plan whose jobs got the final replies of their slots, in the order in
which they came. -/
def RouterReturns (plan : Router.Plan) (replies : FinalReplies) (result : Result) : Prop :=
  match plan with
  | .slots parts merge => ∃ arrived : List (List ℕ × Result),
      arrived.Perm (parts.map fun part => (part.1, replies.result (jobSlot part.2))) ∧
        result = merge arrived
  | _ => False

/-- How the router merges the results of a command. -/
def routerMerge (cmd : MultiKeyCmd) (total : ℕ) : List (List ℕ × Result) → Result :=
  match cmd with
  | .mget => Router.mergeMGET total
  | .mset => Router.mergeMSET false
  | _ => Router.mergeFanOutInteger

/-- The positions of the keys of a slot. -/
def indicesOf (keys : List Bytes) (slot : ℕ) : List ℕ :=
  (keys.zipIdx.filter fun x => hashSlot x.1 = slot).map Prod.snd

theorem slotParts_indices (name : Bytes) (key : α → Bytes) (args : α → List Bytes)
    (items : List α) (result : ℕ → Result) :
    (slotParts name key args items).map (fun part => (part.1, result (jobSlot part.2))) =
      (slotsOf id (items.map key)).map fun slot => (indicesOf (items.map key) slot, result slot) := by
  have hslots : slotsOf key items = slotsOf id (items.map key) := by
    simp [slotsOf, List.map_map, Function.comp_def]
  rw [slotParts, List.map_map, hslots]
  apply List.map_congr_left
  intro slot _
  simp [indicesOf, jobSlot, List.zipIdx_map, List.filter_map, List.map_map, Function.comp_def]

/-- The pairs of keys and values of a well-paired MSET. -/
theorem pairsOf_pairArgs (pairs : List (Bytes × Bytes)) : Router.pairsOf (pairArgs pairs) = pairs := by
  induction pairs with
  | nil => rfl
  | cons pair pairs ih => exact congrArg (List.cons pair) ih

theorem execute_eq_executeMultiKey (masters : List Bytes) (rr : ℕ) {cmd : MultiKeyCmd}
    {req : Request} (hargs : req.args = name :: tail) (hname : toUpper name = cmd.name) :
    Router.execute masters rr req = Router.executeMultiKey masters rr req := by
  rw [Router.execute, hargs]
  simp only [hname]
  cases cmd <;> rfl

theorem executeMultiKey_of_ne (masters : List Bytes) (rr : ℕ) {cmd : MultiKeyCmd} {req : Request}
    (hargs : req.args = name :: tail) (hname : toUpper name = cmd.name) (htail : tail ≠ [])
    (hcmd : cmd ≠ .mset) :
    ∃ name', Router.executeMultiKey masters rr req =
      .slots (slotParts name' id (fun k => [k]) tail) (routerMerge cmd tail.length) := by
  simp only [Router.executeMultiKey, hargs, List.headD_cons, hname, Router.executeMGET,
    Router.executeDEL, Router.executeEXISTS, List.tail_cons, if_neg htail]
  cases cmd with
  | mset => exact absurd rfl hcmd
  | _ => exact ⟨_, rfl⟩

theorem executeMultiKey_mset {masters : List Bytes} {rr : ℕ} {req : Request}
    {pairs : List (Bytes × Bytes)} (hargs : req.args = name :: pairArgs pairs)
    (hname : toUpper name = bytes "MSET") (hpairs : pairs ≠ []) :
    Router.executeMultiKey masters rr req =
      .slots (slotParts (bytes "MSET") Prod.fst (fun pair => [pair.1, pair.2]) pairs)
        (Router.mergeMSET false) := by
  have hplan : Router.executeMultiKey masters rr req = Router.executeMSET req (bytes "MSET") := by
    simp only [Router.executeMultiKey, hargs, List.headD_cons, hname]
    rfl
  have hlength : req.args.length = pairs.length * 2 + 1 := by
    rw [hargs, List.length_cons, pairArgs_length]
  have hpos := List.length_pos_iff.mpr hpairs
  simp only [hplan, Router.executeMSET]
  rw [if_neg (by omega), hargs, List.tail_cons, pairsOf_pairArgs, if_neg]
  · rfl
  rintro ⟨h, -⟩
  revert h
  decide

/-- What the router does with a cross-slot command. -/
theorem execute_multiKey (masters : List Bytes) (rr : ℕ) {cmd : MultiKeyCmd} {req : Request}
    (hargs : req.args = name :: tail) (hname : toUpper name = cmd.name) (htail : tail ≠ [])
    (heven : cmd = .mset → tail.length % 2 = 0) :
    ∃ parts, Router.execute masters rr req =
        .slots parts (routerMerge cmd (multiKeys cmd tail).length) ∧
      ∀ result : ℕ → Result, parts.map (fun part => (part.1, result (jobSlot part.2))) =
        (slotsOf id (multiKeys cmd tail)).map fun slot =>
          (indicesOf (multiKeys cmd tail) slot, result slot) := by
  rw [execute_eq_executeMultiKey masters rr hargs hname]
  by_cases hcmd : cmd = .mset
  · subst hcmd
    obtain ⟨pairs, rfl⟩ := exists_pairArgs (heven rfl)
    have hpairs : pairs ≠ [] := by
      rintro rfl
      exact htail rfl
    have hkeys : multiKeys .mset (pairArgs pairs) = pairs.map Prod.fst := by
      rw [multiKeys, if_pos rfl, everyOther_pairArgs]
    rw [hkeys, executeMultiKey_mset hargs hname hpairs]
    exact ⟨_, rfl, slotParts_indices _ _ _ _⟩
  · obtain ⟨name', hplan⟩ := executeMultiKey_of_ne masters rr hargs hname htail hcmd
    rw [multiKeys, if_neg hcmd, hplan]
    refine ⟨_, rfl, fun result => ?_⟩
    simpa using slotParts_indices name' id (fun k => [k]) tail result

/-! ### The groups of both -/

section Groups

variable {nodeForSlot : ℕ → Option Bytes} {keys : List Bytes} {groups : List SlotGroup}

/-- The router has a job for each group of the mux. -/
theorem slots_perm_groups (h : GroupsOk nodeForSlot keys.zipIdx groups) (result : ℕ → Result) :
    ((slotsOf id keys).map fun slot => (indicesOf keys slot, result slot)).Perm
      (groups.map fun g => (g.indices, result g.slot)) := by
  have hslots : (slotsOf id keys).Perm (groups.map SlotGroup.slot) := by
    apply (List.perm_ext_iff_of_nodup (List.nodup_dedup _) h.nodup).mpr
    intro slot
    rw [List.mem_dedup, List.mem_map]
    constructor
    · rintro ⟨k, hk, rfl⟩
      exact h.slot_mem hk
    intro hslot
    obtain ⟨g, hg, rfl⟩ := List.mem_map.mp hslot
    obtain ⟨x, hx, hx'⟩ := h.occurs g hg
    exact ⟨x.1, fst_mem_of_mem_zipIdx hx, hx'⟩
  have hgroups : groups.map (fun g => (g.indices, result g.slot)) =
      (groups.map SlotGroup.slot).map fun slot => (indicesOf keys slot, result slot) := by
    rw [List.map_map]
    apply List.map_congr_left
    intro g hg
    simp only [Function.comp, indicesOf, h.indices g hg]
  rw [hgroups]
  exact hslots.map _

/-- No position is in two groups. -/
theorem nodup_indices (h : GroupsOk nodeForSlot keys.zipIdx groups) :
    (groups.flatMap SlotGroup.indices).Nodup := by
  rw [List.nodup_flatMap]
  constructor
  · intro g hg
    rw [h.indices g hg]
    have hsub : ((keys.zipIdx.filter fun x => hashSlot x.1 = g.slot).map Prod.snd).Sublist
        (keys.zipIdx.map Prod.snd) := List.filter_sublist.map _
    apply hsub.nodup
    rw [List.zipIdx_map_snd]
    exact List.nodup_range'
  · apply (List.pairwise_map.mp h.nodup).imp_of_mem
    intro g g' hg hg' hne i hi hi'
    rw [h.indices g hg, List.mem_map] at hi
    rw [h.indices g' hg', List.mem_map] at hi'
    obtain ⟨x, hx, rfl⟩ := hi
    obtain ⟨x', hx', hsame⟩ := hi'
    obtain ⟨hx, hslot⟩ := List.mem_filter.mp hx
    obtain ⟨hx', hslot'⟩ := List.mem_filter.mp hx'
    have hkey : x'.1 = x.1 := by
      rw [List.mem_zipIdx_iff_getElem?] at hx hx'
      rw [hsame, hx] at hx'
      exact (Option.some.inj hx').symm
    apply hne
    rw [← of_decide_eq_true hslot, ← of_decide_eq_true hslot', hkey]

theorem fst_zip_sublist {β : Type} (l : List α) (l' : List β) :
    ((l.zip l').map Prod.fst).Sublist l := by
  induction l generalizing l' with
  | nil => exact List.Sublist.slnil
  | cons a l ih =>
    cases l' with
    | nil => exact List.nil_sublist _
    | cons b l' => exact (ih l').cons_cons a

theorem fst_mgetElems_sublist (indices : List ℕ) (result : Result) :
    ((mgetElems (indices, result)).map Prod.fst).Sublist indices := by
  unfold mgetElems
  split
  · rename_i indices' elems heq
    cases heq
    exact fst_zip_sublist _ _
  · exact List.nil_sublist _

/-- The positions that the elements of the replies go to differ. -/
theorem nodup_mgetElems (h : GroupsOk nodeForSlot keys.zipIdx groups) (result : ℕ → Result) :
    ((groups.flatMap fun g => mgetElems (g.indices, result g.slot)).map Prod.fst).Nodup := by
  have hsub : ((groups.flatMap fun g => mgetElems (g.indices, result g.slot)).map
      Prod.fst).Sublist (groups.flatMap SlotGroup.indices) := by
    rw [List.map_flatMap]
    exact List.Sublist.flatMap_right groups fun g _ => fst_mgetElems_sublist g.indices _
  exact hsub.nodup (nodup_indices h)

end Groups

/-! ### What the router makes of the replies -/

/-- The router reports an error of one of the groups. -/
def ReportsError (groups : List SlotGroup) (replies : FinalReplies) (result : Result) : Prop :=
  ∃ g ∈ groups, ∃ err, jobError (replies.result g.slot) = some err ∧ result = .error err

section RouterMerge

variable {nodeForSlot : ℕ → Option Bytes} {keys : List Bytes} {groups : List SlotGroup}
  {replies : FinalReplies} {arrived : List (List ℕ × Result)}

/-- The first error of some kind among the replies that arrived is one of a group. -/
theorem findSome_arrived {f : Result → Option Bytes}
    (hf : ∀ r err, f r = some err → jobError r = some err)
    (harrived : arrived.Perm (groups.map fun g => (g.indices, replies.result g.slot))) :
    ((∃ g ∈ groups, f (replies.result g.slot) ≠ none) →
        ∃ err, arrived.findSome? (fun part => f part.2) = some err ∧
          ReportsError groups replies (.error err)) ∧
      ((∀ g ∈ groups, f (replies.result g.slot) = none) →
        arrived.findSome? (fun part => f part.2) = none) := by
  constructor
  · rintro ⟨g, hg, hfailed⟩
    have hmem : (g.indices, replies.result g.slot) ∈ arrived :=
      harrived.mem_iff.mpr (List.mem_map_of_mem hg)
    obtain ⟨err, herr⟩ : ∃ err, arrived.findSome? (fun part => f part.2) = some err := by
      rw [← Option.isSome_iff_exists, List.findSome?_isSome_iff]
      exact ⟨_, hmem, Option.isSome_iff_ne_none.mpr hfailed⟩
    obtain ⟨part, hpart, hpartErr⟩ := List.exists_of_findSome?_eq_some herr
    obtain ⟨g', hg', rfl⟩ := List.mem_map.mp (harrived.mem_iff.mp hpart)
    exact ⟨err, herr, g', hg', err, hf _ _ hpartErr, rfl⟩
  · intro hall
    rw [List.findSome?_eq_none_iff]
    intro part hpart
    obtain ⟨g, hg, rfl⟩ := List.mem_map.mp (harrived.mem_iff.mp hpart)
    exact hall g hg

theorem mergeIntegerSum_eq (total : ℤ) (results : List Result) :
    Router.mergeIntegerSum total results =
      match Router.firstGoError results with
      | some err => .error err
      | none => .ok (.integer (results.foldl addReply total)) := by
  induction results generalizing total with
  | nil => rfl
  | cons result results ih =>
    rcases result with err | v
    · rfl
    cases v with
    | _ => exact ih _

theorem addReply_right_comm (total : ℤ) (r r' : Result) :
    addReply (addReply total r) r' = addReply (addReply total r') r := by
  have hswap : ∀ m n, wrap64 (wrap64 (total + m) + n) = wrap64 (wrap64 (total + n) + m) := by
    intro m n
    rw [wrap64_wrap64_add, wrap64_wrap64_add, add_right_comm]
  unfold addReply
  split <;> split <;> first | rfl | exact hswap _ _

/-- The replies that count keys are added up in any order. -/
theorem foldl_addReply_perm
    (harrived : arrived.Perm (groups.map fun g => (g.indices, replies.result g.slot))) :
    (arrived.map Prod.snd).foldl addReply 0 =
      (groups.map fun g => replies.result g.slot).foldl addReply 0 := by
  have hperm := harrived.map Prod.snd
  rw [List.map_map] at hperm
  exact hperm.foldl_eq' (fun r _ r' _ total => addReply_right_comm total r r') 0

/-- The command counts keys. -/
def MultiKeyCmd.counts (cmd : MultiKeyCmd) : Bool := cmd ≠ .mget ∧ cmd ≠ .mset

/-- How a command that counts keys is merged. -/
theorem routerMerge_of_counts {cmd : MultiKeyCmd} (hcmd : cmd.counts = true) (total : ℕ)
    (harrived : arrived.Perm (groups.map fun g => (g.indices, replies.result g.slot))) :
    routerMerge cmd total arrived =
      match Router.firstGoError (arrived.map Prod.snd) with
      | some err => .error err
      | none => .ok (mergedReply cmd total groups replies) := by
  have hmerge := mergeIntegerSum_eq 0 (arrived.map Prod.snd)
  rw [foldl_addReply_perm harrived] at hmerge
  cases cmd with
  | mget | mset => cases hcmd
  | _ => exact hmerge

/-- The error of a call of the router. -/
def goError : Result → Option Bytes
  | .error err => some err
  | .ok _ => none

theorem goError_ne_none {r : Result} : goError r ≠ none ↔ ∃ err, r = .error err := by
  cases r <;> simp [goError]

theorem firstGoError_map (arrived : List (List ℕ × Result)) :
    Router.firstGoError (arrived.map Prod.snd) = arrived.findSome? fun part => goError part.2 := by
  rw [Router.firstGoError, List.findSome?_map]
  rfl

theorem jobError_of_goError (r : Result) (err : Bytes) (h : goError r = some err) :
    jobError r = some err := by
  cases r with
  | error err' => exact h
  | ok v => cases h

/-- If no group failed then the router returns the merged reply. -/
theorem routerMerge_of_ok (cmd : MultiKeyCmd) (total : ℕ)
    (h : GroupsOk nodeForSlot keys.zipIdx groups)
    (harrived : arrived.Perm (groups.map fun g => (g.indices, replies.result g.slot)))
    (hok : ∀ g ∈ groups, ¬ replies.Failed g.slot) :
    routerMerge cmd total arrived = .ok (mergedReply cmd total groups replies) := by
  have hnone := (findSome_arrived (fun _ _ => id) harrived).2 fun g hg => not_not.mp (hok g hg)
  cases hcmd : cmd.counts with
  | true =>
    have hreturned : ∀ g ∈ groups, goError (replies.result g.slot) = none := by
      intro g hg
      rw [← not_ne_iff, goError_ne_none]
      rintro ⟨err, herr⟩
      apply hok g hg
      simp [FinalReplies.Failed, herr, jobError]
    rw [routerMerge_of_counts hcmd total harrived, firstGoError_map,
      (findSome_arrived jobError_of_goError harrived).2 hreturned]
  | false =>
    cases cmd with
    | mget =>
      have hpairs : (arrived.flatMap mgetElems).Perm
          (groups.flatMap fun g => mgetElems (g.indices, replies.result g.slot)) := by
        have := harrived.flatMap_right mgetElems
        rwa [List.flatMap_map] at this
      rw [routerMerge, Router.mergeMGET, hnone, mergedReply]
      dsimp only
      rw [scatter_perm hpairs.symm (nodup_mgetElems h replies.result)]
    | mset =>
      rw [routerMerge, Router.mergeMSET, hnone]
      rfl
    | _ => cases hcmd

/-- The router drops the errors that the nodes reply to a command that counts keys: it does
not report one if every call returned. -/
def DropsErrors (cmd : MultiKeyCmd) (groups : List SlotGroup) (replies : FinalReplies) : Prop :=
  cmd.counts = true ∧ (∃ g ∈ groups, replies.Failed g.slot) ∧
    ∀ g ∈ groups, goError (replies.result g.slot) = none

/-- If a group failed then the router reports an error of a group, unless it drops it. -/
theorem routerMerge_of_failed {cmd : MultiKeyCmd} (total : ℕ)
    (harrived : arrived.Perm (groups.map fun g => (g.indices, replies.result g.slot)))
    (hfailed : ∃ g ∈ groups, replies.Failed g.slot) (hdrops : ¬ DropsErrors cmd groups replies) :
    ReportsError groups replies (routerMerge cmd total arrived) := by
  obtain ⟨err, hfirst, hreports⟩ := (findSome_arrived (fun _ _ => id) harrived).1 hfailed
  cases hcmd : cmd.counts with
  | true =>
    have hcall : ∃ g ∈ groups, goError (replies.result g.slot) ≠ none := by
      by_contra hnone
      simp only [not_exists, not_and, not_not] at hnone
      exact hdrops ⟨hcmd, hfailed, hnone⟩
    obtain ⟨err', hfirst', hreports'⟩ := (findSome_arrived jobError_of_goError harrived).1 hcall
    rw [routerMerge_of_counts hcmd total harrived, firstGoError_map, hfirst']
    exact hreports'
  | false =>
    cases cmd with
    | mget =>
      rw [routerMerge, Router.mergeMGET, hfirst]
      exact hreports
    | mset =>
      rw [routerMerge, Router.mergeMSET, hfirst]
      exact hreports
    | _ => cases hcmd

/-- Dropped errors leave a count. -/
theorem routerMerge_of_drops {cmd : MultiKeyCmd} (total : ℕ)
    (harrived : arrived.Perm (groups.map fun g => (g.indices, replies.result g.slot)))
    (hdrops : DropsErrors cmd groups replies) :
    routerMerge cmd total arrived = .ok (mergedReply cmd total groups replies) := by
  rw [routerMerge_of_counts hdrops.1 total harrived, firstGoError_map,
    (findSome_arrived jobError_of_goError harrived).2 hdrops.2.2]

end RouterMerge

/-! ### Agreement -/

/-- The replies of both paths agree: one is an error exactly if the other is, and otherwise
they are the same. -/
structure Agree (muxReply : Bytes) (result : Result) : Prop where
  error_iff : IsErrorReply muxReply ↔ jobError result ≠ none
  same : jobError result = none → ∃ v, result = .ok v ∧ muxReply = encodeValue v

/-- The router returns the same in any order of the replies, up to which error it reports. -/
def SameUpToError (groups : List SlotGroup) (replies : FinalReplies) (result result' : Result) :
    Prop :=
  result = result' ∨ ReportsError groups replies result ∧ ReportsError groups replies result'

/-- Both implementations of a cross-slot command agree on the final replies. -/
def CrossSlotAgree (plan : Router.Plan) (merge : List SubResponse → Bytes) (groups : List SlotGroup)
    (replies : FinalReplies) : Prop :=
  (∃ result, RouterReturns plan replies result) ∧
    ∀ result, RouterReturns plan replies result →
      Agree (merge (replies.subs groups)) result ∧
        ∀ result', RouterReturns plan replies result' → SameUpToError groups replies result result'

theorem mergedReply_not_error (cmd : MultiKeyCmd) (total : ℕ) (groups : List SlotGroup)
    (replies : FinalReplies) : (mergedReply cmd total groups replies).isError = false := by
  cases cmd <;> rfl

theorem not_isErrorReply_mergedReply (cmd : MultiKeyCmd) (total : ℕ) (groups : List SlotGroup)
    (replies : FinalReplies) : ¬ IsErrorReply (encodeValue (mergedReply cmd total groups replies)) := by
  unfold IsErrorReply
  cases cmd <;> simp [mergedReply, encodeValue, encodeInteger, okValue, encodeSimpleString]

/-- The fan-out of the mux: its groups, and the keys that they group. -/
theorem fanOut_groups {nodeForSlot : ℕ → Option Bytes} {cmd : MultiKeyCmd} {req : Request}
    {groups : List SlotGroup} {subs : List (Bytes × Request)} {merge : List SubResponse → Bytes}
    (hplan : routeMultiKeyToMux nodeForSlot cmd req = .fanOut groups subs merge) :
    multiKeys cmd req.args.tail ≠ [] ∧
      GroupsOk nodeForSlot (multiKeys cmd req.args.tail).zipIdx groups ∧
      merge = mergeFunc cmd groups (multiKeys cmd req.args.tail).length := by
  simp only [routeMultiKeyToMux] at hplan
  split at hplan
  · cases hplan
  rename_i hkeys
  split at hplan
  · cases hplan
  · cases hplan
  rename_i groups' _ hgroups
  split at hplan
  · cases hplan
  cases hplan
  exact ⟨hkeys, .of_groupKeys hgroups, rfl⟩

variable {nodeForSlot : ℕ → Option Bytes} {cmd : MultiKeyCmd} {req : Request}
  {groups : List SlotGroup} {subs : List (Bytes × Request)} {merge : List SubResponse → Bytes}

/-- The results of the router on the final replies of the groups. -/
theorem routerReturns_iff (masters : List Bytes) (rr : ℕ)
    (hname : toUpper (req.args.headD []) = cmd.name)
    (heven : cmd = .mset → req.args.tail.length % 2 = 0)
    (hkeys : multiKeys cmd req.args.tail ≠ [])
    (hgroups : GroupsOk nodeForSlot (multiKeys cmd req.args.tail).zipIdx groups)
    (replies : FinalReplies) (result : Result) :
    RouterReturns (Router.execute masters rr req) replies result ↔
      ∃ arrived : List (List ℕ × Result),
        arrived.Perm (groups.map fun g => (g.indices, replies.result g.slot)) ∧
          result = routerMerge cmd (multiKeys cmd req.args.tail).length arrived := by
  have htail : req.args.tail ≠ [] := fun h => hkeys (multiKeys_eq_nil.mpr h)
  obtain ⟨name, tail, hargs⟩ : ∃ name tail, req.args = name :: tail := by
    cases hargs : req.args with
    | nil => simp [hargs] at htail
    | cons name tail => exact ⟨name, tail, rfl⟩
  rw [hargs] at hname htail heven hgroups ⊢
  obtain ⟨parts, hplan, hparts⟩ := execute_multiKey masters rr hargs hname htail heven
  have hperm := slots_perm_groups hgroups replies.result
  rw [List.tail_cons, ← hparts] at hperm
  rw [hplan]
  apply exists_congr
  intro arrived
  rw [hperm.congr_right]
  rfl

/-- Both implementations of a cross-slot command agree on the final replies of the groups
exactly if the router drops no error. -/
theorem cross_slot_agree_iff (masters : List Bytes) (rr : ℕ)
    (hname : toUpper (req.args.headD []) = cmd.name)
    (heven : cmd = .mset → req.args.tail.length % 2 = 0)
    (hplan : routeMultiKeyToMux nodeForSlot cmd req = .fanOut groups subs merge)
    (replies : FinalReplies) :
    CrossSlotAgree (Router.execute masters rr req) merge groups replies ↔
      ¬ DropsErrors cmd groups replies := by
  obtain ⟨hkeys, hgroups, rfl⟩ := fanOut_groups hplan
  obtain ⟨hmuxFailed, hmuxOk⟩ :=
    mergeFunc_groups cmd (multiKeys cmd req.args.tail).length (replies.data_subs groups)
  simp only [CrossSlotAgree, routerReturns_iff masters rr hname heven hkeys hgroups replies]
  constructor
  · rintro ⟨-, hagree⟩ hdrops
    have hresult := routerMerge_of_drops (multiKeys cmd req.args.tail).length (.refl _) hdrops
    have hiff := (hagree _ ⟨_, .refl _, rfl⟩).1.error_iff
    rw [hresult] at hiff
    apply hiff.mp (hmuxFailed hdrops.2.1)
    simp [jobError, mergedReply_not_error]
  · intro hdrops
    refine ⟨⟨_, _, .refl _, rfl⟩, ?_⟩
    rintro result ⟨arrived, harrived, rfl⟩
    by_cases hfailed : ∃ g ∈ groups, replies.Failed g.slot
    · have hreports := routerMerge_of_failed (multiKeys cmd req.args.tail).length harrived hfailed hdrops
      constructor
      · obtain ⟨g, hg, err, herr, hresult⟩ := hreports
        rw [hresult]
        exact ⟨⟨fun _ => by simp [jobError], fun _ => hmuxFailed hfailed⟩, fun h => nomatch h⟩
      rintro result' ⟨arrived', harrived', rfl⟩
      right
      exact ⟨hreports, routerMerge_of_failed _ harrived' hfailed hdrops⟩
    · have hok : ∀ g ∈ groups, ¬ replies.Failed g.slot := fun g hg h => hfailed ⟨g, hg, h⟩
      have hresult := routerMerge_of_ok cmd (multiKeys cmd req.args.tail).length hgroups harrived hok
      rw [hresult, hmuxOk hok]
      constructor
      · constructor
        · simp [jobError, mergedReply_not_error, not_isErrorReply_mergedReply]
        intro _
        exact ⟨_, rfl, rfl⟩
      · rintro result' ⟨arrived', harrived', rfl⟩
        left
        exact (routerMerge_of_ok cmd _ hgroups harrived' hok).symm

/-! ### Two keys -/

/-- A request for two keys of different slots. -/
def twoKeys (cmd : MultiKeyCmd) : Request where
  args := [cmd.name, bytes "a", bytes "b"]
  cmd := cmd.name

/-- The groups of the two keys. -/
def twoGroups : List SlotGroup :=
  [⟨15431, bytes "n:1", [0], [bytes "a"]⟩, ⟨3108, bytes "n:1", [1], [bytes "b"]⟩]

theorem hashSlot_a : hashSlot (bytes "a") = 15431 := by decide +kernel

theorem hashSlot_b : hashSlot (bytes "b") = 3108 := by decide +kernel

theorem routeMultiKeyToMux_twoKeys {cmd : MultiKeyCmd} (hcmd : cmd ≠ .mset) :
    routeMultiKeyToMux (fun _ => some (bytes "n:1")) cmd (twoKeys cmd) =
      .fanOut twoGroups
        (twoGroups.map fun g => (g.addr, { args := cmd.name :: g.keys, cmd := cmd.name }))
        (mergeFunc cmd twoGroups 2) := by
  simp [routeMultiKeyToMux, twoKeys, multiKeys, hcmd, groupKeys, insertKey, hashSlot_a, hashSlot_b,
    subArgs, twoGroups]

/-- The final replies with given values. -/
def FinalReplies.ofValues (value : ℕ → Value) (hencodable : ∀ slot, (value slot).Encodable)
    (hdecoded : ∀ slot, (value slot).decoded = value slot)
    (hlength : ∀ slot, (encodeValue (value slot)).length ≤ maxAlloc) : FinalReplies where
  data slot := encodeValue (value slot)
  result slot := .ok (value slot)
  same slot := by
    have hparse := parseValue_encodeValue (hencodable slot) [] (by simpa using hlength slot)
    rw [List.append_nil, hdecoded slot] at hparse
    exact ⟨_, hparse⟩

/-- The node of one slot refuses the command, the other one counts a key. -/
def refusedReplies : FinalReplies :=
  .ofValues (fun slot => if slot = 15431 then .error (bytes "NOPERM") else .integer 1)
    (fun slot => by split <;> simp only [Value.Encodable] <;> decide)
    (fun slot => by split <;> rfl)
    (fun slot => by split <;> decide)

/-- A command that counts keys and that one node refuses fails on the mux, but the router
returns the count of the other node. -/
theorem router_drops_refusal :
    mergeFunc .del twoGroups 2 (refusedReplies.subs twoGroups) = bytes "-NOPERM\r\n" ∧
      RouterReturns (Router.execute [] 0 (twoKeys .del)) refusedReplies (.ok (.integer 1)) := by
  constructor
  · decide +kernel
  have hplan : routeMultiKeyToMux _ .del (twoKeys .del) = _ :=
    routeMultiKeyToMux_twoKeys (by decide)
  obtain ⟨hkeys, hgroups, -⟩ := fanOut_groups hplan
  rw [routerReturns_iff [] 0 (by decide) (by decide) hkeys hgroups]
  exact ⟨_, .refl _, rfl⟩

/-- Every node replies with one element. -/
def elementReplies : FinalReplies :=
  .ofValues (fun _ => .array [.bulkString (bytes "v")])
    (fun _ => by simp only [Value.Encodable, AllEncodable]; decide) (fun _ => rfl)
    (fun _ => by decide)

theorem cross_slot_agree_iff_mget :
    CrossSlotAgree (Router.execute [] 0 (twoKeys .mget)) (mergeFunc .mget twoGroups 2) twoGroups
      elementReplies :=
  (cross_slot_agree_iff [] 0 (by decide) (by decide) (routeMultiKeyToMux_twoKeys (by decide))
    elementReplies).mpr fun hdrops => nomatch hdrops.1

/-! ### Missing values -/

/-- The command causes no panic, and if its last key has no value then it is refused with the
error of the router and nothing is sent. -/
structure RefusesMissing (nodeForSlot : ℕ → Option Bytes) (cmd : MultiKeyCmd) (req : Request) :
    Prop where
  inRange : routeMultiKeyToMux nodeForSlot cmd req ≠ .panic
  missing : cmd = .mset → req.args.tail.length % 2 = 1 →
    Router.executeMSET req cmd.name = .errValue (wrongArgsError cmd) ∧
      routeMultiKeyToMux nodeForSlot cmd req = .immediate (encodeError (wrongArgsError cmd))

theorem everyOther_ne_nil {l : List α} (h : l ≠ []) : everyOther l ≠ [] := by
  match l with
  | [] => exact absurd rfl h
  | [_] | _ :: _ :: _ => exact List.cons_ne_nil _ _

/-- The router refuses every MSET whose last key has no value. -/
theorem executeMSET_of_missing {req : Request} (hodd : req.args.tail.length % 2 = 1) :
    Router.executeMSET req (bytes "MSET") = .errValue (wrongArgsError .mset) := by
  rw [List.length_tail] at hodd
  rw [Router.executeMSET, if_pos (.inr (by omega))]
  rfl

/-- The error for a slot without a node is another one. -/
theorem noNode_ne_wrongArgs (slot : ℕ) :
    encodeError (bytes "ERR no node for slot " ++ formatNat slot) ≠
      encodeError (wrongArgsError .mset) := by
  intro h
  have hbyte : some (110 : UInt8) = some 119 := congrArg (·[5]?) h
  exact absurd hbyte (by decide)

/-- With keys, `routeMultiKeyToMux` does not say that the number of arguments is wrong. -/
theorem routeMultiKeyToMux_ne_wrongArgs (nodeForSlot : ℕ → Option Bytes) {req : Request}
    (hkeys : req.args.tail ≠ []) :
    routeMultiKeyToMux nodeForSlot .mset req ≠
      .immediate (encodeError (wrongArgsError .mset)) := by
  have hkeys' : multiKeys .mset req.args.tail ≠ [] := everyOther_ne_nil hkeys
  unfold routeMultiKeyToMux
  simp only [if_neg hkeys']
  intro h
  split at h
  · exact noNode_ne_wrongArgs _ (MultiKeyPlan.immediate.inj h)
  · cases h
  · split at h <;> cases h

/-- Malformed requests are refused exactly if they are no MSET without the last value. -/
theorem malformed_refused_iff (nodeForSlot : ℕ → Option Bytes) (cmd : MultiKeyCmd)
    {req : Request} (hargs : req.args ≠ []) :
    RefusesMissing nodeForSlot cmd req ↔ ¬ (cmd = .mset ∧ req.args.tail.length % 2 = 1) := by
  obtain ⟨name, tail, hargs⟩ := List.exists_cons_of_ne_nil hargs
  have htail : req.args.tail = tail := by rw [hargs, List.tail_cons]
  constructor
  · rintro h ⟨rfl, hodd⟩
    have hkeys : req.args.tail ≠ [] := by
      intro hnil
      simp [hnil] at hodd
    exact routeMultiKeyToMux_ne_wrongArgs nodeForSlot hkeys (h.missing rfl hodd).2
  · intro hnot
    constructor
    · rw [Ne, routeMultiKeyToMux_panic_iff nodeForSlot cmd hargs]
      rintro ⟨hcmd, hodd, -⟩
      exact hnot ⟨hcmd, htail ▸ hodd⟩
    intro hcmd hodd
    exact absurd ⟨hcmd, hodd⟩ hnot

theorem malformed_refused_mget : RefusesMissing (fun _ => none) .mget { args := [bytes "MGET"] } :=
  (malformed_refused_iff _ .mget (by simp)).mpr (by decide)

/-- An MSET whose last key has no value. -/
def msetMissing (keys : List Bytes) : Request where
  args := bytes "MSET" :: keys
  cmd := bytes "MSET"

/-- With one slot the request is sent to its node. With two slots the sub-command for the first
one has been sent when the value of the last key is looked up out of range. The router refuses
both requests. -/
theorem mset_without_last_value :
    routeMultiKeyToMux (fun _ => some (bytes "n:1")) .mset (msetMissing [bytes "a"]) =
        .single (bytes "n:1") ∧
      routeMultiKeyToMux (fun _ => some (bytes "n:1")) .mset
        (msetMissing [bytes "a", bytes "1", bytes "b"]) = .panic ∧
      twoGroups.map (subArgs .mset (msetMissing [bytes "a", bytes "1", bytes "b"]).args) =
        [some [bytes "MSET", bytes "a", bytes "1"], none] ∧
      Router.executeMSET (msetMissing [bytes "a"]) (bytes "MSET") =
        .errValue (wrongArgsError .mset) ∧
      Router.executeMSET (msetMissing [bytes "a", bytes "1", bytes "b"]) (bytes "MSET") =
        .errValue (wrongArgsError .mset) := by
  refine ⟨?_, ?_, by decide +kernel, executeMSET_of_missing rfl, executeMSET_of_missing rfl⟩
  · simp [routeMultiKeyToMux, msetMissing, multiKeys, everyOther, groupKeys, insertKey]
  simp [routeMultiKeyToMux, msetMissing, multiKeys, everyOther, groupKeys, insertKey, hashSlot_a,
    hashSlot_b, subArgs, index]

end Pluster.Engine
