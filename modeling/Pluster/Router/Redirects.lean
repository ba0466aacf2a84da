import Pluster.Router.Replies
import Pluster.Router.Retry

/-!
# Redirections

A node that does not own the key of a request answers MOVED or ASK with the address of
another node. `executeRedirect` follows these answers. The other ways of the router to a
node return what the node says. The router returns the reply of the owner exactly for the
requests that it routes by their keys, as long as a command for several keys that all have
one owner gets a reply of its own kind.
-/

namespace Pluster.Router

open Proto GoStrings GoRuntime KeyedOps

/-! ### Clusters -/

/-- The reply is MOVED or ASK. -/
def redirects (v : Value) : Bool := v.isMovedError || v.isAskError

/-- Where a reply sends the request, and whether ASKING goes before it. -/
def redirection (v : Value) : Option (Bytes × Bool) :=
  if redirects v then v.parseRedirection.map fun r => (r.2, !v.isMovedError) else none

/-- What the nodes reply to one request, without and with ASKING before it. -/
abbrev Nodes := Bytes → Bool → Value

namespace Nodes

/-- The node that gets the request after some redirections; it is the last one if there is
no further redirection. -/
def visit (nodes : Nodes) (start : Bytes) : ℕ → Bytes × Bool
  | 0 => (start, false)
  | n + 1 => (redirection (nodes (visit nodes start n).1 (visit nodes start n).2)).getD
      (visit nodes start n)

/-- The reply of the node that gets the request after some redirections. -/
def reply (nodes : Nodes) (start : Bytes) (n : ℕ) : Value :=
  nodes (nodes.visit start n).1 (nodes.visit start n).2

theorem visit_succ (nodes : Nodes) (start : Bytes) (n : ℕ) :
    nodes.visit start (n + 1) =
      (redirection (nodes.reply start n)).getD (nodes.visit start n) := rfl

theorem reply_congr (nodes : Nodes) {start : Bytes} {n m : ℕ}
    (h : nodes.visit start n = nodes.visit start m) : nodes.reply start n = nodes.reply start m := by
  rw [reply, reply, h]

/-- Well-formed redirections lead from a node to the owner of the keys, which replies. -/
structure Leads (nodes : Nodes) (start : Bytes) (hops : ℕ) (owned : Value) : Prop where
  formed : ∀ n < hops, ∃ addr asking, redirection (nodes.reply start n) = some (addr, asking) ∧
    addr ≠ []
  owner : nodes.reply start hops = owned

end Nodes

/-- The calls of a job get the replies of the nodes. -/
def CallEnv.Answers (env : CallEnv) (req : Request) (nodes : Nodes) (start : Bytes) : Prop :=
  ∀ n, (execOnNodeOnce (env.io n) (nodes.visit start n).1 req (nodes.visit start n).2).result =
    .ok (nodes.reply start n) ∧ env.cancelled n = none

/-- The first node of a job. -/
def Job.StartsAt (job : Job) (env : CallEnv) (start : Bytes) : Prop :=
  match job.target with
  | .slot slot => resolveAddr env 0 job.req [] slot = .ok start
  | .node addr => start = addr

/-- A job meets a cluster in which redirections lead to the owner of its keys within the
number of redirections that the router follows. -/
def Job.Meets (job : Job) (env : CallEnv) (nodes : Nodes) (owned : Value) : Prop :=
  ∃ start hops, job.StartsAt env start ∧ hops ≤ maxRedirects ∧ nodes.Leads start hops owned ∧
    env.Answers job.req nodes start

/-! ### Following redirections -/

/-- A redirection is not one of the errors after which `execOnNode` tries again. -/
theorem not_retried_of_redirects {v : Value} (h : redirects v = true) :
    v.isClusterDownError = false ∧ v.isLoadingError = false := by
  have hmoved : bytes "MOVED " = [77, 79, 86, 69, 68, 32] := by decide
  have hask : bytes "ASK " = [65, 83, 75, 32] := by decide
  have hdown : bytes "CLUSTERDOWN" = 67 :: bytes "LUSTERDOWN" := by decide
  have hloading : bytes "LOADING" = 76 :: bytes "OADING" := by decide
  cases v with
  | error str =>
    cases str with
    | nil => exact ⟨by decide, by decide⟩
    | cons c str =>
      -- The four texts differ in their first letters.
      simp only [redirects, Value.isMovedError, Value.isAskError, hasPrefix, hmoved, hask,
        List.isPrefixOf_cons_cons, Bool.or_eq_true, Bool.and_eq_true, beq_iff_eq] at h
      simp only [Value.isClusterDownError, Value.isLoadingError, hasPrefix, hdown, hloading,
        List.isPrefixOf_cons_cons, Bool.and_eq_false_iff, beq_eq_false_iff_ne]
      rcases h with ⟨rfl, -⟩ | ⟨rfl, -⟩
      · exact ⟨.inl (by decide), .inl (by decide)⟩
      · exact ⟨.inl (by decide), .inl (by decide)⟩
  | _ => exact ⟨rfl, rfl⟩

variable {env : CallEnv} {req : Request} {nodes : Nodes} {start : Bytes} {hops : ℕ} {owned : Value}
  {masters : List Bytes} {name : Bytes}

/-- `execOnNode` returns a redirection after one exchange. -/
theorem execOnNode_of_redirects {n : ℕ} {addr : Bytes} {asking : Bool} {v : Value}
    (hv : (execOnNodeOnce (env.io n) addr req asking).result = .ok v) (h : redirects v = true) :
    execOnNode env n addr req asking = (.ok v, [execOnNodeOnce (env.io n) addr req asking]) := by
  obtain ⟨hdown, hloading⟩ := not_retried_of_redirects h
  simp [execOnNode, clusterDownMaxRetry, execOnNodeFrom, hv, hdown, hloading]

/-- If a node always gives the same reply then the retries of `execOnNode` end with it. -/
theorem execOnNodeFrom_of_constant {addr : Bytes} {asking : Bool} {v : Value} (left : ℕ) {n : ℕ}
    (h : ∀ m ≥ n, (execOnNodeOnce (env.io m) addr req asking).result = .ok v ∧
      env.cancelled m = none) :
    (execOnNodeFrom env addr req asking left n).1 = .ok v := by
  induction left generalizing n with
  | zero => exact (h n le_rfl).1
  | succ left ih =>
    obtain ⟨hv, hcancelled⟩ := h n le_rfl
    simp only [execOnNodeFrom, hv, hcancelled]
    split
    · rfl
    · exact ih fun m hm => h m (by omega)

/-- The owner is not left again. -/
theorem Nodes.Leads.visit_owner (h : nodes.Leads start hops owned) (howned : redirects owned = false)
    {n : ℕ} (hn : hops ≤ n) : nodes.visit start n = nodes.visit start hops := by
  induction n, hn using Nat.le_induction with
  | base => rfl
  | succ n hn ih =>
    have hnone : redirection (nodes.reply start n) = none := by
      rw [nodes.reply_congr ih, h.owner, redirection, if_neg (by simp [howned])]
    rw [visit_succ, hnone, Option.getD_none, ih]

/-- `executeRedirect` follows the redirections to the owner: by induction on the calls that
are left, of which there is one for each redirection on the way and one for the owner. -/
theorem executeRedirectFrom_of_leads (h : nodes.Leads start hops owned)
    (howned : redirects owned = false) (hanswers : env.Answers req nodes start) {left n : ℕ}
    (hn : n ≤ hops) (hleft : hops < n + left) {addr : Bytes} {slot : ℤ}
    (haddr : resolveAddr env n req addr slot = .ok (nodes.visit start n).1) :
    (executeRedirectFrom env req left n addr slot (nodes.visit start n).2).1 = .ok owned := by
  induction left generalizing n addr slot with
  | zero => omega
  | succ left ih =>
    simp only [executeRedirectFrom, haddr]
    rcases Nat.lt_or_eq_of_le hn with hn' | rfl
    · obtain ⟨next, asking, hnext, hne⟩ := h.formed n hn'
      have hredirects : redirects (nodes.reply start n) = true := by
        by_contra hfalse
        rw [redirection, if_neg hfalse] at hnext
        cases hnext
      have hvisit : nodes.visit start (n + 1) = (next, asking) := by
        rw [Nodes.visit_succ, hnext, Option.getD_some]
      have hresolve : ∀ slot, resolveAddr env (n + 1) req next slot = .ok next := fun slot => by
        rw [resolveAddr, if_neg hne]
      have hfollow : ∀ slot, (executeRedirectFrom env req left (n + 1) next slot asking).1 =
          .ok owned := fun slot => by
        have := ih hn' (by omega) (by rw [hvisit]; exact hresolve slot)
        rwa [hvisit] at this
      rw [redirection, if_pos hredirects, Option.map_eq_some_iff] at hnext
      obtain ⟨⟨newSlot, newAddr⟩, hparse, heq⟩ := hnext
      simp only [Prod.mk.injEq] at heq
      obtain ⟨rfl, rfl⟩ := heq
      rw [execOnNode_of_redirects (hanswers n).1 hredirects]
      cases hmoved : (nodes.reply start n).isMovedError with
      | true => simpa [hmoved, hparse] using hfollow newSlot
      | false =>
        have hask : (nodes.reply start n).isAskError = true := by
          simpa [redirects, hmoved] using hredirects
        simpa [hmoved, hask, hparse] using hfollow (-1)
    · have howner : (execOnNode env n (nodes.visit start n).1 req (nodes.visit start n).2).1 =
          .ok owned := by
        apply execOnNodeFrom_of_constant
        intro m hm
        have := hanswers m
        rwa [nodes.reply_congr (h.visit_owner howned hm), h.visit_owner howned hm, h.owner] at this
      simp only [redirects, Bool.or_eq_false_iff] at howned
      cases hcall : execOnNode env n (nodes.visit start n).1 req (nodes.visit start n).2 with
      | mk result log =>
        rw [hcall] at howner
        subst howner
        simp [howned]

/-- A job for a slot returns the reply of the owner. -/
theorem Job.run_of_meets {slot : ℕ} (h : Job.Meets ⟨req, .slot slot⟩ env nodes owned)
    (howned : redirects owned = false) : (Job.run env ⟨req, .slot slot⟩).1 = .ok owned := by
  obtain ⟨start, hops, hstart, hhops, hleads, hanswers⟩ := h
  exact executeRedirectFrom_of_leads hleads howned hanswers (Nat.zero_le _) (by omega) hstart

/-! ### What the owners reply -/

/-- The reply is of the kind that the command of a job for several keys has: MGET returns an
element for each key, MSET returns OK, MSETNX says whether it set the keys, and the other
commands count keys. -/
def Job.Expects (job : Job) (v : Value) : Prop :=
  let name := job.req.args.headD []
  if name = bytes "MGET" then ∃ elems, v = .array elems ∧ elems.length + 1 = job.req.args.length
  else if name = bytes "MSET" then v = okValue
  else if name = bytes "MSETNX" then v = .integer 0 ∨ v = .integer 1
  else ∃ n : ℤ, v = .integer n ∧ -2 ^ 63 ≤ n ∧ n < 2 ^ 63

/-- The keys of the request decide where it goes. -/
def Plan.routedByKey : Plan → Bool
  | .one ⟨_, .slot _⟩ _ => true
  | .slots _ _ => true
  | _ => false

/-- If one node owns all keys of a command for several keys then its reply is of the kind
of the command. -/
def Plan.Expects (reply : Request → Value) : Plan → Prop
  | .slots [part] _ => part.2.Expects (reply part.2.req)
  | _ => True

/-- The result of a plan is the reply of the owner of the keys. If there are several owners
it is what their replies amount to. -/
def Plan.OwnersReply (reply : Request → Value) (completion : Completion) (result : Result) :
    Plan → Prop
  | .one job _ => result = .ok (reply job.req)
  | .slots [part] _ => result = .ok (reply part.2.req)
  | .slots parts merge =>
    result = merge (completion.arrange (parts.map fun part => (part.1, .ok (reply part.2.req))))
  | _ => False

theorem Completion.arrange_singleton {α : Type} (completion : Completion) (a : α) :
    completion.arrange [a] = [a] := List.perm_singleton.mp (completion.arrange_perm [a])

/-- If all items have one slot then its job has all of them. -/
theorem slotParts_eq_singleton {α : Type} {name : Bytes} {key : α → Bytes} {args : α → List Bytes}
    {items : List α} {part : List ℕ × Job} (h : slotParts name key args items = [part]) :
    part.1 = List.range items.length ∧ part.2.req.args = name :: items.flatMap args := by
  obtain ⟨slot, hslots, rfl⟩ := List.map_eq_singleton_iff.mp h
  have hslot : ∀ item ∈ items, hashSlot (key item) = slot := by
    intro item hitem
    have hmem : hashSlot (key item) ∈ slotsOf key items :=
      List.mem_dedup.mpr (List.mem_map_of_mem hitem)
    rw [hslots] at hmem
    exact List.mem_singleton.mp hmem
  have hall : items.zipIdx.filter (fun item => hashSlot (key item.1) = slot) = items.zipIdx := by
    apply List.filter_eq_self.mpr
    intro item hitem
    exact decide_eq_true (hslot item.1 (List.fst_mem_of_mem_zipIdx hitem))
  dsimp only
  rw [hall]
  constructor
  · rw [List.zipIdx_map_snd, List.range_eq_range']
  · rw [← List.flatMap_map Prod.fst, List.zipIdx_map_fst]

/-- The elements of a reply to MGET for all keys are put where they were. -/
theorem scatter_range {elems : List Value} :
    scatter (List.replicate elems.length .null) ((List.range elems.length).zip elems) = elems := by
  apply scatter_eq
  · exact List.length_replicate
  · rintro ⟨i, v⟩ hpair
    obtain ⟨j, hj, heq⟩ := List.mem_iff_getElem.mp hpair
    simp only [List.getElem_zip, List.getElem_range, Prod.mk.injEq] at heq
    obtain ⟨rfl, rfl⟩ := heq
    exact List.getElem?_eq_getElem _
  · intro i hi
    right
    refine ⟨(i, elems[i]), List.mem_iff_getElem.mpr ⟨i, by simpa using hi, ?_⟩, rfl⟩
    simp

/-! ### Merging the reply of one owner -/

theorem mergeMGET_single_iff {keys : List Bytes} {part : List ℕ × Job}
    (h : slotParts (bytes "MGET") id (fun k => [k]) keys = [part]) (v : Value) :
    mergeMGET keys.length [(part.1, .ok v)] = .ok v ↔ part.2.Expects v := by
  obtain ⟨hindices, hargs⟩ := slotParts_eq_singleton h
  have hexpects : part.2.Expects v ↔ ∃ elems, v = .array elems ∧ elems.length = keys.length := by
    simp [Job.Expects, hargs]
  rw [hexpects, hindices]
  cases v with
  | array elems =>
    have hmerge : mergeMGET keys.length [(List.range keys.length, .ok (.array elems))] =
        .ok (.array (scatter (List.replicate keys.length .null)
          ((List.range keys.length).zip elems))) := by
      simp [mergeMGET, jobError, Value.isError, mgetElems]
    rw [hmerge, Except.ok.injEq, Value.array.injEq]
    constructor
    · intro hscatter
      refine ⟨elems, rfl, ?_⟩
      have := congrArg List.length hscatter
      simpa using this.symm
    · rintro ⟨elems', heq, hlength⟩
      cases heq
      rw [← hlength]
      exact scatter_range
  | _ => simp [mergeMGET, jobError, Value.isError]

theorem mergeMSET_single_iff {name : Bytes} (hname : name = bytes "MSET" ∨ name = bytes "MSETNX")
    {pairs : List (Bytes × Bytes)} {part : List ℕ × Job}
    (h : slotParts name Prod.fst (fun pair => [pair.1, pair.2]) pairs = [part]) (v : Value) :
    mergeMSET (name = bytes "MSETNX") [(part.1, .ok v)] = .ok v ↔ part.2.Expects v := by
  obtain ⟨-, hargs⟩ := slotParts_eq_singleton h
  have hmget : bytes "MSET" ≠ bytes "MGET" ∧ bytes "MSETNX" ≠ bytes "MGET" ∧
      bytes "MSET" ≠ bytes "MSETNX" := by decide
  rcases hname with rfl | rfl
  · have hexpects : part.2.Expects v ↔ v = okValue := by
      simp [Job.Expects, hargs, hmget]
    rw [hexpects]
    cases herr : v.isError with
    | true =>
      have hne : v ≠ okValue := by
        rintro rfl
        cases herr
      simp [mergeMSET, jobError, herr, hne]
    | false => simp [mergeMSET, jobError, herr, hmget, eq_comm (a := v)]
  · have hexpects : part.2.Expects v ↔ v = .integer 0 ∨ v = .integer 1 := by
      simp [Job.Expects, hargs, hmget, Ne.symm hmget.2.2]
    rw [hexpects]
    cases v with
    | integer n =>
      by_cases hn : n = 0
      · simp [mergeMSET, jobError, Value.isError, isZero, hn]
      · simp [mergeMSET, jobError, Value.isError, isZero, hn, eq_comm (b := n)]
    | _ => simp [mergeMSET, jobError, Value.isError]

theorem mergeFanOutInteger_single_iff {name : Bytes}
    (hname : name ∉ [bytes "MGET", bytes "MSET", bytes "MSETNX"]) {keys : List Bytes}
    {part : List ℕ × Job} (h : slotParts name id (fun k => [k]) keys = [part]) (v : Value) :
    mergeFanOutInteger [(part.1, .ok v)] = .ok v ↔ part.2.Expects v := by
  obtain ⟨-, hargs⟩ := slotParts_eq_singleton h
  have hexpects : part.2.Expects v ↔ ∃ n : ℤ, v = .integer n ∧ -2 ^ 63 ≤ n ∧ n < 2 ^ 63 := by
    simp only [List.mem_cons, List.not_mem_nil, or_false, not_or] at hname
    simp [Job.Expects, hargs, hname]
  rw [hexpects]
  cases v with
  | integer n =>
    simp only [mergeFanOutInteger, List.map_cons, List.map_nil, mergeIntegerSum, zero_add,
      Except.ok.injEq, Value.integer.injEq]
    constructor
    · intro hwrap
      refine ⟨n, rfl, ?_⟩
      rw [← hwrap]
      exact wrap64_bounds n
    · rintro ⟨n, rfl, hlow, hhigh⟩
      exact wrap64_eq_self hlow hhigh
  | _ => simp [mergeFanOutInteger, mergeIntegerSum]

/-- Merging the reply of a single owner keeps it if it is of the kind of the command. -/
theorem merge_single_iff {part : List ℕ × Job} {merge : List (List ℕ × Result) → Result}
    (h : Plan.Routed masters name (.slots [part] merge)) (v : Value) :
    merge [(part.1, .ok v)] = .ok v ↔ part.2.Expects v := by
  generalize hplan : Plan.slots [part] merge = plan at h
  cases h with
  | mget keys =>
    obtain ⟨hparts, rfl⟩ := Plan.slots.inj hplan
    exact mergeMGET_single_iff hparts.symm v
  | mset name hname pairs =>
    obtain ⟨hparts, rfl⟩ := Plan.slots.inj hplan
    exact mergeMSET_single_iff hname hparts.symm v
  | count name hname keys =>
    obtain ⟨hparts, rfl⟩ := Plan.slots.inj hplan
    exact mergeFanOutInteger_single_iff hname hparts.symm v
  | _ => cases hplan

theorem integer_of_mergeIntegerSum {total : ℤ} {results : List Result} {v : Value}
    (h : mergeIntegerSum total results = .ok v) : ∃ n, v = .integer n := by
  induction results generalizing total with
  | nil =>
    cases h
    exact ⟨total, rfl⟩
  | cons result results ih =>
    rcases result with err | v'
    · cases h
    cases v' with
    | _ => exact ih h

/-- The results of several jobs are not merged into a redirection. -/
theorem redirects_merge {parts : List (List ℕ × Job)} {merge : List (List ℕ × Result) → Result}
    (h : Plan.Routed masters name (.slots parts merge)) {results : List (List ℕ × Result)} {v : Value}
    (hv : merge results = .ok v) : redirects v = false := by
  generalize hplan : Plan.slots parts merge = plan at h
  cases h with
  | mget keys =>
    obtain ⟨-, rfl⟩ := Plan.slots.inj hplan
    unfold mergeMGET at hv
    split at hv
    · cases hv
    cases hv
    rfl
  | mset name hname pairs =>
    obtain ⟨-, rfl⟩ := Plan.slots.inj hplan
    unfold mergeMSET at hv
    split at hv
    · cases hv
    split at hv
    · cases hv
      rfl
    cases hv
    rfl
  | count name hname keys =>
    obtain ⟨-, rfl⟩ := Plan.slots.inj hplan
    obtain ⟨n, rfl⟩ := integer_of_mergeIntegerSum hv
    rfl
  | _ => cases hplan

/-! ### Requests -/

/-- The functions of the router that take a request. -/
inductive Entry
  | execute
  | execScript

/-- What the router does with a request. -/
def Entry.plan (entry : Entry) (masters : List Bytes) (rr : ℕ) (req : Request) : Option Plan :=
  match entry with
  | .execute => some (Router.execute masters rr req)
  | .execScript => Router.execScript masters rr req

theorem Entry.routed (entry : Entry) (masters : List Bytes) (rr : ℕ) (req : Request) :
    ∀ plan ∈ entry.plan masters rr req, ∃ name, plan.Routed masters name := by
  intro plan hplan
  cases entry with
  | execute =>
    cases hplan
    exact ⟨_, .execute masters rr req⟩
  | execScript => exact ⟨_, .execScript masters rr req plan hplan⟩

/-- Every job of a plan meets a cluster in which the owner of its keys gives the reply. -/
def Plan.MeetsOwners (plan : Plan) (env : RouterEnv) (nodes : ℕ → Nodes)
    (reply : Request → Value) : Prop :=
  ∀ (i : ℕ) (job : Job), plan.jobs[i]? = some job →
    job.Meets (env.job i) (nodes i) (reply job.req)

/-- In every such cluster the result of a plan is the reply of the owners and no
redirection. -/
def Plan.HidesRedirections (plan : Plan) (reply : Request → Value) : Prop :=
  ∀ (env : RouterEnv) (nodes : ℕ → Nodes), plan.MeetsOwners env nodes reply →
    plan.OwnersReply reply env.completion (plan.result env) ∧
      ∀ v, plan.result env = .ok v → redirects v = false

variable {reply : Request → Value}

/-- The jobs for several keys go to slots. -/
theorem target_of_slots {parts : List (List ℕ × Job)} {merge : List (List ℕ × Result) → Result}
    (h : Plan.Routed masters name (.slots parts merge)) {part : List ℕ × Job} (hpart : part ∈ parts) :
    ∃ slot, part.2 = ⟨part.2.req, .slot slot⟩ := by
  generalize hplan : Plan.slots parts merge = plan at h
  cases h with
  | mget | mset | count =>
    obtain ⟨rfl, -⟩ := Plan.slots.inj hplan
    obtain ⟨slot, -, rfl⟩ := List.mem_map.mp hpart
    exact ⟨slot, rfl⟩
  | _ => cases hplan

/-- The jobs for several keys return the replies of the owners. -/
theorem Plan.MeetsOwners.outcomes {parts : List (List ℕ × Job)}
    {merge : List (List ℕ × Result) → Result} (hrouted : Plan.Routed masters name (.slots parts merge))
    (hreply : ∀ req, redirects (reply req) = false) {renv : RouterEnv} {nodes : ℕ → Nodes}
    (h : (Plan.slots parts merge).MeetsOwners renv nodes reply) :
    ((Plan.slots parts merge).outcomes renv).map Prod.fst =
      parts.map fun part => .ok (reply part.2.req) := by
  apply List.ext_getElem?
  intro i
  cases hpart : parts[i]? with
  | none => simp [Plan.outcomes, Plan.jobs, hpart]
  | some part =>
    have hjob : (Plan.slots parts merge).jobs[i]? = some part.2 := by
      rw [Plan.jobs, List.getElem?_map, hpart, Option.map_some]
    obtain ⟨slot, hslot⟩ := target_of_slots hrouted (List.mem_of_getElem? hpart)
    have hmeets := h i part.2 hjob
    rw [hslot] at hmeets
    have hrun : (part.2.run (renv.job i)).1 = .ok (reply part.2.req) := by
      rw [hslot]
      exact Job.run_of_meets hmeets (hreply _)
    simp [Plan.outcomes, hjob, hpart, hrun]

/-- A plan that goes by the keys returns what the owners reply. -/
theorem Plan.Routed.hidesRedirections {plan : Plan} (h : plan.Routed masters name)
    (hreply : ∀ req, redirects (reply req) = false) (hkey : plan.routedByKey = true)
    (hexpects : plan.Expects reply) : plan.HidesRedirections reply := by
  intro renv nodes hmeets
  cases plan with
  | reply | masters => cases hkey
  | one job finish =>
    cases h with
    | node => cases hkey
    | slot req slot =>
      have hrun := Job.run_of_meets (hmeets 0 _ rfl) (hreply req)
      have hresult : Plan.result renv (.one ⟨req, .slot slot⟩ id) = .ok (reply req) := by
        rw [Plan.result, hrun]
        rfl
      refine ⟨hresult, fun v hv => ?_⟩
      rw [hresult] at hv
      cases hv
      exact hreply req
  | slots parts merge =>
    have hresult : Plan.result renv (.slots parts merge) =
        merge (renv.completion.arrange (parts.map fun part => (part.1, .ok (reply part.2.req)))) := by
      rw [Plan.result, hmeets.outcomes h hreply, List.zip_map']
    refine ⟨?_, fun v hv => redirects_merge h hv⟩
    rcases parts with _ | ⟨part, _ | ⟨next, rest⟩⟩
    · exact hresult
    · rw [List.map_singleton, Completion.arrange_singleton] at hresult
      rw [Plan.OwnersReply, hresult]
      exact (merge_single_iff h _).mpr hexpects
    · exact hresult

/-! ### Clusters that show the difference -/

theorem execOnNodeOnce_always (v : Value) (addr : Bytes) (req : Request) (asking : Bool) :
    (execOnNodeOnce (.always (.ok v)) addr req asking).result = .ok v := by
  cases asking with
  | false => rfl
  | true =>
    cases hv : v.isError <;> simp [execOnNodeOnce, CallIO.always, askOnConn, Exchange.of, hv]

/-- Every node gives the reply to a request. -/
def RouterEnv.uniform (plan : Plan) (reply : Request → Value) : RouterEnv where
  job i :=
    { io := fun _ => .always (.ok ((plan.jobs[i]?.map fun job => reply job.req).getD .null))
      nodeAddrForSlot := fun _ _ _ => some (bytes "10.0.0.1:6379") }
  completion := .inOrder

theorem meetsOwners_uniform (plan : Plan) (reply : Request → Value) :
    plan.MeetsOwners (.uniform plan reply)
      (fun i _ _ => (plan.jobs[i]?.map fun job => reply job.req).getD .null) reply := by
  rintro i ⟨req, target⟩ hjob
  have hnodes : (plan.jobs[i]?.map fun job => reply job.req).getD .null = reply req := by
    rw [hjob, Option.map_some, Option.getD_some]
  cases target with
  | slot slot =>
    refine ⟨bytes "10.0.0.1:6379", 0, rfl, Nat.zero_le _, ⟨?_, hnodes⟩, ?_⟩
    · intro n hn
      cases hn
    intro n
    exact ⟨execOnNodeOnce_always _ _ _ _, rfl⟩
  | node addr =>
    refine ⟨addr, 0, rfl, Nat.zero_le _, ⟨?_, hnodes⟩, ?_⟩
    · intro n hn
      cases hn
    intro n
    exact ⟨execOnNodeOnce_always _ _ _ _, rfl⟩

/-- The reply that sends a request to another node. -/
def movedTo (addr : Bytes) : Value := .error (bytes "MOVED 0 " ++ addr)

theorem isMovedError_movedTo (addr : Bytes) : (movedTo addr).isMovedError = true := rfl

theorem redirects_movedTo (addr : Bytes) : redirects (movedTo addr) = true := by
  rw [redirects, isMovedError_movedTo, Bool.true_or]

theorem redirection_movedTo (addr : Bytes) : redirection (movedTo addr) = some (addr, false) := by
  have hsplit : splitN (bytes "MOVED 0 " ++ addr) 32 3 = [bytes "MOVED", bytes "0", addr] := rfl
  have hparse : (movedTo addr).parseRedirection = some (0, addr) := by
    have hslot : atoi (bytes "0") = some 0 := by decide
    simp [movedTo, Value.parseRedirection, hsplit, hslot]
  simp [redirection, redirects_movedTo, isMovedError_movedTo, hparse]

/-- A node sends the request to another node, which gives the reply. -/
def RouterEnv.elsewhere (addr : Bytes) (owned : Value) : RouterEnv where
  job _ :=
    { io := fun n => .always (.ok (if n = 0 then movedTo (addr ++ [48]) else owned))
      nodeAddrForSlot := fun _ _ _ => none }
  completion := .inOrder

theorem meetsOwners_elsewhere (reply : Request → Value) (req : Request) (addr : Bytes)
    (finish : Value → Value) (hreply : ∀ req, redirects (reply req) = false) :
    (Plan.one ⟨req, .node addr⟩ finish).MeetsOwners (.elsewhere addr (reply req))
      (fun _ other _ => if other = addr then movedTo (addr ++ [48]) else reply req) reply := by
  have hother : addr ++ [48] ≠ addr := by
    intro heq
    have := congrArg List.length heq
    simp at this
  intro i job hjob
  cases i with
  | succ i => cases hjob
  | zero =>
    cases hjob
    have hzero : Nodes.reply (fun other _ => if other = addr then movedTo (addr ++ [48])
        else reply req) addr 0 = movedTo (addr ++ [48]) := if_pos rfl
    have hleads : Nodes.Leads (fun other _ => if other = addr then movedTo (addr ++ [48])
        else reply req) addr 1 (reply req) := by
      constructor
      · intro n hn
        cases Nat.lt_one_iff.mp hn
        refine ⟨addr ++ [48], false, ?_, by simp⟩
        rw [hzero]
        exact redirection_movedTo _
      · rw [Nodes.reply, Nodes.visit_succ, hzero, redirection_movedTo, Option.getD_some]
        exact if_neg hother
    refine ⟨addr, 1, rfl, by decide, hleads, ?_⟩
    intro n
    refine ⟨?_, rfl⟩
    cases n with
    | zero =>
      rw [hzero]
      exact execOnNodeOnce_always _ _ _ _
    | succ n =>
      rw [Nodes.reply_congr _ (hleads.visit_owner (hreply req) (Nat.le_add_left 1 n)), hleads.owner]
      exact execOnNodeOnce_always _ _ _ _

/-- A plan that returns what the owners reply goes by the keys. -/
theorem Plan.Routed.routedByKey {plan : Plan} (h : plan.Routed masters name)
    (hreply : ∀ req, redirects (reply req) = false) (hhides : plan.HidesRedirections reply) :
    plan.routedByKey = true := by
  cases h with
  | reply | masters => exact (hhides _ _ (meetsOwners_uniform _ reply)).1.elim
  | @node req addr _ finish hfinish =>
    -- The node that the plan names may not be the owner.
    have hmoved : (Plan.one ⟨req, .node addr⟩ finish).result (.elsewhere addr (reply req)) =
        .ok (movedTo (addr ++ [48])) := by
      have hcall : execOnNode ((RouterEnv.elsewhere addr (reply req)).job 0) 0 addr req false =
          (.ok (movedTo (addr ++ [48])), [_]) :=
        execOnNode_of_redirects (execOnNodeOnce_always _ _ _ _) (redirects_movedTo _)
      simp only [Plan.result, Job.run, hcall]
      exact congrArg Except.ok (hfinish _)
    have := (hhides _ _ (meetsOwners_elsewhere reply req addr finish hreply)).2 _ hmoved
    rw [redirects_movedTo] at this
    cases this
  | _ => rfl

/-- If there is one owner then its reply is of the kind of the command. -/
theorem Plan.Routed.expects {plan : Plan} (h : plan.Routed masters name)
    (hreply : ∀ req, redirects (reply req) = false) (hhides : plan.HidesRedirections reply) :
    plan.Expects reply := by
  match plan with
  | .slots [part] merge =>
    have hmeets := meetsOwners_uniform (.slots [part] merge) reply
    have howner := (hhides _ _ hmeets).1
    rw [Plan.OwnersReply, Plan.result, hmeets.outcomes h hreply, List.map_singleton,
      List.map_singleton, List.zip_cons_cons, List.zip_nil_left, Completion.arrange_singleton]
      at howner
    exact (merge_single_iff h _).mp howner
  | .reply _ | .one _ _ | .masters _ _ _ | .slots [] _ | .slots (_ :: _ :: _) _ => trivial

/-- XREAD of one stream. -/
def xread : Request where
  args := [bytes "XREAD", bytes "STREAMS", bytes "k", bytes "0"]
  cmd := bytes "XREAD"

end Pluster.Router
