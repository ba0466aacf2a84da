import Pluster.Cluster.EntryPoints
import Pluster.Router.Retry

/-!
# SCAN over the masters

`executeSCAN` keeps the state of an iteration in the cursor of the client: the low bits are
the number of the master, the others the cursor of the master. A client that returns every
cursor it gets goes through the masters in the order of their addresses, and through each of
them as if it was the only node. The topology may be refreshed in between, as long as the
masters stay the same.
-/

namespace Pluster.Router

open Proto GoStrings GoSort Cluster

variable {n nodeIdx cursor returned i c rr : ℕ} {addr : Bytes} {env : RouterEnv}
  {done : List ((Bytes × Bytes) × Value)} {rest : List (ℕ × Value)}

/-! ### Cursors -/

theorem parseUint_formatNat (h : n < 2 ^ 64) : parseUint (formatNat n) = some n := by
  have hne : formatNat n ≠ [] := appendDigits_ne_nil n n []
  rw [parseUint, if_neg hne, Reader.digitsVal_formatNat]
  simpa using h

/-- The cursor of the client for a master and a cursor of the master. -/
def packed (nodeIdx cursor : ℕ) : ℕ := cursor * 2 ^ scanNodeIndexBits + nodeIdx

theorem packed_lt (hidx : nodeIdx < 2 ^ 16) (hcursor : cursor < 2 ^ 48) :
    packed nodeIdx cursor < 2 ^ 64 := by
  unfold packed scanNodeIndexBits
  omega

theorem executeSCAN_packed {masters : List Bytes} (hsmall : nodeIdx < 2 ^ 16)
    (hidx : masters[nodeIdx]? = some addr) (hcursor : cursor < 2 ^ 48) (name : Bytes)
    (opts : List Bytes) :
    executeSCAN masters { args := name :: formatNat (packed nodeIdx cursor) :: opts } =
      .one ⟨{ args := name :: formatNat cursor :: opts }, .node addr⟩
        (rewriteCursor masters.length nodeIdx) := by
  obtain ⟨hlt, -⟩ := List.getElem?_eq_some_iff.mp hidx
  have hne : masters ≠ [] := List.ne_nil_of_length_pos (Nat.zero_lt_of_lt hlt)
  have hmod : packed nodeIdx cursor % 2 ^ scanNodeIndexBits = nodeIdx := by
    unfold packed scanNodeIndexBits
    omega
  have hdiv : packed nodeIdx cursor / 2 ^ scanNodeIndexBits = cursor := by
    unfold packed scanNodeIndexBits
    omega
  have hparse := parseUint_formatNat (packed_lt hsmall hcursor)
  simp [executeSCAN, hne, hparse, hmod, hdiv, Nat.not_le.mpr hlt, hidx]

theorem nextClientCursor_of_ne_zero {masters : ℕ} (hne : returned ≠ 0)
    (hidx : nodeIdx < 2 ^ scanNodeIndexBits) (hreturned : returned < 2 ^ 48) :
    nextClientCursor masters nodeIdx returned = packed nodeIdx returned := by
  have hshift : returned * 2 ^ scanNodeIndexBits % 2 ^ 64 = 2 ^ scanNodeIndexBits * returned := by
    unfold scanNodeIndexBits
    omega
  rw [nextClientCursor, if_pos hne, hshift, ← Nat.two_pow_add_eq_or_of_lt hidx, packed,
    Nat.mul_comm]

theorem nextClientCursor_zero (masters nodeIdx : ℕ) :
    nextClientCursor masters nodeIdx 0 =
      if nodeIdx + 1 < masters then packed (nodeIdx + 1) 0 else 0 := by
  simp [nextClientCursor, packed]

/-! ### Cursors that the client gives back -/

theorem formatNat_inj {m : ℕ} (h : formatNat m = formatNat n) : m = n := by
  have hval := congrArg (digitsVal 0) h
  rw [Reader.digitsVal_formatNat, Reader.digitsVal_formatNat] at hval
  exact Option.some.inj hval

/-- After its last cursor a master is followed by the next one, so that the masters differ in
how they rewrite cursors. -/
theorem rewriteCursor_inj {masters j : ℕ} (hi : i < masters) (hj : j < masters)
    (h : rewriteCursor masters i = rewriteCursor masters j) : i = j := by
  have hzero : parseUint (Value.bulkString (formatNat 0)).str = some 0 :=
    parseUint_formatNat (by omega)
  have happlied := congrFun h (.array [.bulkString (formatNat 0), .null])
  simp only [rewriteCursor, hzero, Value.array.injEq, List.cons.injEq, Value.bulkString.injEq,
    and_true] at happlied
  have hnext := formatNat_inj happlied
  rw [nextClientCursor_zero, nextClientCursor_zero, packed, packed] at hnext
  split at hnext <;> split at hnext <;> omega

/-- A master has returned a cursor. The client gets an error, or a cursor which is not zero and
with which `executeSCAN` asks the same master for the cursor that the master returned. -/
def Resumes (masters : List Bytes) (nodeIdx returned : ℕ) : Prop :=
  ∀ (cursor keys : Value) (more : List Value) (name : Bytes) (opts : List Bytes),
    parseUint cursor.str = some returned →
      (∃ msg, rewriteCursor masters.length nodeIdx (.array (cursor :: keys :: more)) =
          .error msg) ∨
      ∃ next, rewriteCursor masters.length nodeIdx (.array (cursor :: keys :: more)) =
          .array [.bulkString next, keys] ∧ parseUint next ≠ some 0 ∧
        executeSCAN masters { args := name :: next :: opts } =
          .one ⟨{ args := name :: formatNat returned :: opts }, .node (masters.getD nodeIdx [])⟩
            (rewriteCursor masters.length nodeIdx)

theorem rewriteCursor_of_parse {masters : ℕ} {cursor : Value}
    (hparse : parseUint cursor.str = some returned) (keys : Value) (more : List Value) :
    rewriteCursor masters nodeIdx (.array (cursor :: keys :: more)) =
      .array [.bulkString (formatNat (nextClientCursor masters nodeIdx returned)), keys] := by
  simp only [rewriteCursor, hparse]

/-- What a cursor of the client says about the master and the cursor that it stands for. -/
theorem executeSCAN_inv {masters : List Bytes} {target : Target} (hidx : nodeIdx < masters.length)
    (hne : returned ≠ 0) {name : Bytes} {opts : List Bytes}
    (h : executeSCAN masters { args := name :: formatNat cursor :: opts } =
      .one ⟨{ args := name :: formatNat returned :: opts }, target⟩
        (rewriteCursor masters.length nodeIdx)) :
    cursor < 2 ^ 64 ∧ cursor % 2 ^ 16 = nodeIdx ∧ cursor / 2 ^ 16 = returned := by
  have hmasters : masters ≠ [] := List.ne_nil_of_length_pos (Nat.zero_lt_of_lt hidx)
  by_cases hfits : cursor < 2 ^ 64
  · simp only [executeSCAN, if_neg hmasters, parseUint_formatNat hfits] at h
    split at h
    · -- The numbers that no master has start over at the first one.
      simp only [Plan.one.injEq, Job.mk.injEq, Request.mk.injEq, List.cons.injEq] at h
      exact absurd (formatNat_inj h.1.1.1.2.1) (Ne.symm hne)
    rename_i hmaster
    simp only [Plan.one.injEq, Job.mk.injEq, Request.mk.injEq, List.cons.injEq] at h
    have hnode := rewriteCursor_inj (Nat.lt_of_not_le hmaster) hidx h.2
    exact ⟨hfits, hnode, formatNat_inj h.1.1.1.2.1⟩
  · have hnone : parseUint (formatNat cursor) = none := by
      have hnil : formatNat cursor ≠ [] := appendDigits_ne_nil cursor cursor []
      rw [parseUint, if_neg hnil, Reader.digitsVal_formatNat]
      simpa using Nat.le_of_not_lt hfits
    simp only [executeSCAN, if_neg hmasters, hnone, Plan.errValue] at h
    cases h

/-- A cursor of a master comes back to the same master exactly if it has at most 48 bits and
the number of the master at most 16. -/
theorem scan_resumes_iff {masters : List Bytes} {nodeIdx returned : ℕ}
    (hidx : nodeIdx < masters.length) (hne : returned ≠ 0) (hlt : returned < 2 ^ 64) :
    Resumes masters nodeIdx returned ↔ returned < 2 ^ 48 ∧ nodeIdx < 2 ^ 16 := by
  constructor
  · intro h
    have hparse : parseUint (Value.bulkString (formatNat returned)).str = some returned :=
      parseUint_formatNat hlt
    obtain ⟨msg, herror⟩ | ⟨next, hrewrite, -, hplan⟩ := h _ .null [] [] [] hparse
    · rw [rewriteCursor_of_parse hparse] at herror
      cases herror
    rw [rewriteCursor_of_parse hparse] at hrewrite
    cases hrewrite
    obtain ⟨hcursor, hmod, hdiv⟩ := executeSCAN_inv hidx hne hplan
    omega
  · rintro ⟨hreturned, hsmall⟩ cursor keys more name opts hparse
    have haddr : masters[nodeIdx]? = some (masters.getD nodeIdx []) := by
      simp [List.getD_eq_getElem?_getD, hidx]
    have hnext : nextClientCursor masters.length nodeIdx returned = packed nodeIdx returned :=
      nextClientCursor_of_ne_zero hne hsmall hreturned
    refine .inr ⟨_, rewriteCursor_of_parse hparse keys more, ?_, ?_⟩
    · rw [hnext, parseUint_formatNat (packed_lt hsmall hreturned)]
      unfold packed scanNodeIndexBits
      simp only [ne_eq, Option.some.injEq]
      omega
    · rw [hnext]
      exact executeSCAN_packed hsmall haddr hreturned name opts

theorem scan_resumes_iff_second :
    Resumes [bytes "h:1", bytes "h:2"] 1 7 :=
  (scan_resumes_iff (by decide) (by decide) (by decide)).mpr (by decide)

/-- A cursor of 49 bits is cut off: the client gets the cursor 0, which ends the iteration. With
the one after it the client asks for the cursor 1. -/
theorem scan_cursor_cut_off :
    rewriteCursor 1 0 (.array [.bulkString (formatNat (2 ^ 48)), .null]) =
        .array [.bulkString (bytes "0"), .null] ∧
      rewriteCursor 1 0 (.array [.bulkString (formatNat (2 ^ 48 + 1)), .null]) =
        .array [.bulkString (bytes "65536"), .null] ∧
      ((executeSCAN [bytes "h:1"] { args := [bytes "SCAN", bytes "65536"] }).jobs.map
        fun job => job.req.args) = [[bytes "SCAN", bytes "1"]] := by
  refine ⟨by rfl, by rfl, by decide⟩

/-! ### The iteration of a client -/

/-- A client that iterates with SCAN, and the topology of the router. -/
structure ScanState where
  manager : Manager
  /-- The cursor of the next request. -/
  cursor : Bytes := bytes "0"
  /-- The number of requests of the client. -/
  calls : ℕ := 0
  /-- The masters that were asked, with the cursors they got. -/
  sent : List (Bytes × Bytes) := []
  /-- The batches the client received. -/
  batches : List Value := []

variable {s : ScanState}

/-- The topology is refreshed, or the client sends the next request. -/
inductive ScanEvent
  | refresh (e : Refresh)
  | call (rr : ℕ) (env : RouterEnv)

/-- The node and the cursor of a request to scan a node. -/
def Job.query (job : Job) : Option (Bytes × Bytes) :=
  match job.target with
  | .node addr => some (addr, job.req.args.getD 1 [])
  | .slot _ => none

/-- The requests that are sent to nodes, one for each exchange. -/
def Plan.queries (env : RouterEnv) (plan : Plan) : List (Bytes × Bytes) :=
  (plan.jobs.zip (plan.outcomes env)).flatMap fun part => part.2.2.filterMap fun _ => part.1.query

/-- What the client reads from the reply to SCAN: the cursor and the keys. -/
def readScan : Result → Option (Bytes × Value)
  | .ok (.array [cursor, keys]) => some (cursor.str, keys)
  | _ => none

namespace ScanState

/-- The plan for the next request. -/
def plan (name : Bytes) (opts : List Bytes) (s : ScanState) (rr : ℕ) : Plan :=
  execute (s.manager.snap.masters.map Node.addr) rr { args := name :: s.cursor :: opts }

def exec (name : Bytes) (opts : List Bytes) (s : ScanState) : ScanEvent → ScanState
  | .refresh e => { s with manager := s.manager.refresh e }
  | .call rr env =>
    let plan := s.plan name opts rr
    let s := { s with calls := s.calls + 1, sent := s.sent ++ plan.queries env }
    match readScan (plan.result env) with
    | some (cursor, keys) => { s with cursor, batches := s.batches ++ [keys] }
    | none => s

/-- The cursors that a master got. -/
def asked (s : ScanState) (addr : Bytes) : List Bytes :=
  (s.sent.filter fun query => query.1 = addr).map Prod.snd

/-- The refreshes keep the addresses of the masters. The client goes on until it gets the
cursor 0. The master that is asked answers; what it answers may depend on all the cursors it
got. -/
def Allows (name : Bytes) (opts : List Bytes) (masters : List Bytes)
    (node : Bytes → List Bytes → Value) (s : ScanState) : ScanEvent → Prop
  | .refresh e => (s.manager.refresh e).masterAddrs.Perm masters
  | .call rr env =>
    (s.calls = 0 ∨ s.cursor ≠ bytes "0") ∧
    ∀ job finish addr, s.plan name opts rr = .one job finish → job.target = .node addr →
      (execOnNodeOnce ((env.job 0).io 0) addr job.req false).result =
        .ok (node addr (s.asked addr ++ [job.req.args.getD 1 []]))

end ScanState

/-- A node that has got some cursors answers the next ones with a chain, given by the cursors
it returns and the keys. The chain ends with the cursor 0. -/
def Scans (node : List Bytes → Value) : List Bytes → ℕ → List (ℕ × Value) → Prop
  | _, _, [] => False
  | asked, c, (returned, keys) :: rest =>
    (∃ cursor more, node (asked ++ [formatNat c]) = .array (cursor :: keys :: more) ∧
      parseUint cursor.str = some returned) ∧
    returned < 2 ^ 48 ∧
    if returned = 0 then rest = [] else Scans node (asked ++ [formatNat c]) returned rest

/-- The chain of a node, from a cursor on: what the node gets and the keys it returns. -/
def chainRounds (addr : Bytes) : ℕ → List (ℕ × Value) → List ((Bytes × Bytes) × Value)
  | _, [] => []
  | c, (returned, keys) :: rest => ((addr, formatNat c), keys) :: chainRounds addr returned rest

/-- The chains of nodes, one after the other. -/
def scanRounds (chain : Bytes → List (ℕ × Value)) (masters : List Bytes) :
    List ((Bytes × Bytes) × Value) :=
  masters.flatMap fun addr => chainRounds addr 0 (chain addr)

/-! ### One request -/

theorem execute_scan {name : Bytes} (hname : toUpper name = bytes "SCAN") (masters : List Bytes)
    (rr : ℕ) (rest : List Bytes) :
    execute masters rr { args := name :: rest } = executeSCAN masters { args := name :: rest } := by
  have hinfo : ∃ info, getCmdInfo (bytes "SCAN") = some info ∧ info.isNotAllowed = false :=
    ⟨_, rfl, rfl⟩
  obtain ⟨info, hinfo, hallowed⟩ := hinfo
  simp [execute, hname, hinfo, hallowed]

/-- An answer that is an array ends the job after one exchange. -/
theorem run_node_of_array {env : CallEnv} {req : Request} {elems : List Value}
    (h : (execOnNodeOnce (env.io 0) addr req false).result = .ok (.array elems)) :
    Job.run env ⟨req, .node addr⟩ =
      (.ok (.array elems), [execOnNodeOnce (env.io 0) addr req false]) := by
  have hdown : (Value.array elems).isClusterDownError = false := rfl
  have hloading : (Value.array elems).isLoadingError = false := rfl
  simp [Job.run, execOnNode, clusterDownMaxRetry, execOnNodeFrom, h, hdown, hloading]

variable {name : Bytes} {opts masters : List Bytes} {node : Bytes → List Bytes → Value}
  {chain : Bytes → List (ℕ × Value)}

/-- The rounds that the client has finished. -/
structure Did (s : ScanState) (done : List ((Bytes × Bytes) × Value)) : Prop where
  calls : s.calls = done.length
  sent : s.sent = done.map Prod.fst
  batches : s.batches = done.map Prod.snd

/-- The client has finished some rounds of the iteration, and goes on with a master and the
rest of its chain. -/
structure Midway (masters : List Bytes) (node : Bytes → List Bytes → Value)
    (chain : Bytes → List (ℕ × Value)) (s : ScanState) (done : List ((Bytes × Bytes) × Value))
    (i c : ℕ) (addr : Bytes) (rest : List (ℕ × Value)) : Prop where
  master : masters[i]? = some addr
  cursor : s.cursor = formatNat (packed i c)
  small : c < 2 ^ 48
  scans : Scans (node addr) (s.asked addr) c rest
  fresh : ∀ next ∈ masters.drop (i + 1), s.asked next = []
  rounds : scanRounds chain masters =
    done ++ (chainRounds addr c rest ++ scanRounds chain (masters.drop (i + 1)))
  did : Did s done
  positive : s.calls = 0 ∨ packed i c ≠ 0

/-- The client has gone through the chains of all masters. -/
structure Finished (masters : List Bytes) (chain : Bytes → List (ℕ × Value)) (s : ScanState) :
    Prop where
  cursor : s.cursor = formatNat 0
  did : Did s (scanRounds chain masters)
  positive : s.calls ≠ 0

/-- Where the client is in the iteration. -/
def OnTheWay (masters : List Bytes) (node : Bytes → List Bytes → Value)
    (chain : Bytes → List (ℕ × Value)) (s : ScanState) : Prop :=
  (∃ done i c addr rest, Midway masters node chain s done i c addr rest) ∨
    Finished masters chain s

theorem Midway.plan (h : Midway masters node chain s done i c addr rest)
    (hname : toUpper name = bytes "SCAN") (hmax : masters.length ≤ 2 ^ 16)
    (hmasters : s.manager.snap.masters.map Node.addr = masters) (rr : ℕ) :
    s.plan name opts rr =
      .one ⟨{ args := name :: formatNat c :: opts }, .node addr⟩
        (rewriteCursor masters.length i) := by
  rw [ScanState.plan, hmasters, h.cursor, execute_scan hname]
  have hlt := (List.getElem?_eq_some_iff.mp h.master).1
  exact executeSCAN_packed (Nat.lt_of_lt_of_le hlt hmax) h.master h.small name opts

theorem Midway.exec_call {keys : Value}
    (h : Midway masters node chain s done i c addr ((returned, keys) :: rest))
    (hname : toUpper name = bytes "SCAN") (hmax : masters.length ≤ 2 ^ 16)
    (hmasters : s.manager.snap.masters.map Node.addr = masters)
    (hallows : s.Allows name opts masters node (.call rr env)) :
    s.exec name opts (.call rr env) =
      { s with
        calls := s.calls + 1
        sent := s.sent ++ [(addr, formatNat c)]
        cursor := formatNat (nextClientCursor masters.length i returned)
        batches := s.batches ++ [keys] } := by
  have hplan : s.plan name opts rr = _ := h.plan hname hmax hmasters rr
  obtain ⟨⟨cursor, more, hnode, hparse⟩, -⟩ := h.scans
  have hanswer := hallows.2 _ _ addr hplan rfl
  have hrun := run_node_of_array (hanswer.trans (congrArg _ hnode))
  have hqueries : (s.plan name opts rr).queries env = [(addr, formatNat c)] := by
    simp [hplan, Plan.queries, Plan.jobs, Plan.outcomes, hrun, Job.query]
  have hresult : (s.plan name opts rr).result env =
      .ok (.array [.bulkString (formatNat (nextClientCursor masters.length i returned)), keys]) := by
    simp [hplan, Plan.result, hrun, Except.map, rewriteCursor, hparse]
  simp only [ScanState.exec, hqueries, hresult]
  rfl

theorem asked_append {s' : ScanState} {cursor : Bytes}
    (hsent : s'.sent = s.sent ++ [(addr, cursor)]) (other : Bytes) :
    s'.asked other = s.asked other ++ if addr = other then [cursor] else [] := by
  rw [ScanState.asked, hsent, List.filter_append, List.map_append]
  by_cases heq : addr = other
  · simp [ScanState.asked, heq]
  · simp [ScanState.asked, heq]

/-- The client after an answer of the master. -/
structure Answered (s s' : ScanState) (cursor addr : Bytes) (c : ℕ) (keys : Value) : Prop where
  calls : s'.calls = s.calls + 1
  sent : s'.sent = s.sent ++ [(addr, formatNat c)]
  cursor : s'.cursor = cursor
  batches : s'.batches = s.batches ++ [keys]

section Answered

variable {s s' : ScanState} {done : List ((Bytes × Bytes) × Value)} {i c returned : ℕ}
  {addr cursor : Bytes} {keys : Value} {rest : List (ℕ × Value)}

theorem Did.answered (h : Did s done) (hans : Answered s s' cursor addr c keys) :
    Did s' (done ++ [((addr, formatNat c), keys)]) where
  calls := by simp [hans.calls, h.calls]
  sent := by simp [hans.sent, h.sent]
  batches := by simp [hans.batches, h.batches]

theorem Midway.rounds_answered
    (h : Midway masters node chain s done i c addr ((returned, keys) :: rest)) :
    scanRounds chain masters = (done ++ [((addr, formatNat c), keys)]) ++
      (chainRounds addr returned rest ++ scanRounds chain (masters.drop (i + 1))) := by
  rw [h.rounds, chainRounds]
  simp

/-- The master that was asked does not come again. -/
theorem Midway.fresh_answered (h : Midway masters node chain s done i c addr rest)
    (hnodup : masters.Nodup) (hans : Answered s s' cursor addr c keys) :
    ∀ next ∈ masters.drop (i + 1), s'.asked next = [] := by
  intro next hnext
  obtain ⟨hlt, haddr⟩ := List.getElem?_eq_some_iff.mp h.master
  have hother : addr ≠ next := by
    have hdrop : (masters.drop i).Nodup := hnodup.sublist (List.drop_sublist _ _)
    rw [List.drop_eq_getElem_cons hlt, haddr] at hdrop
    exact fun heq => (List.nodup_cons.mp hdrop).1 (heq ▸ hnext)
  rw [asked_append hans.sent, h.fresh next hnext, if_neg hother]
  rfl

/-- The master returned a cursor, which is the next one it gets. -/
theorem Midway.next_cursor
    (h : Midway masters node chain s done i c addr ((returned, keys) :: rest))
    (hnodup : masters.Nodup) (hne : returned ≠ 0)
    (hans : Answered s s' (formatNat (packed i returned)) addr c keys) :
    Midway masters node chain s' (done ++ [((addr, formatNat c), keys)]) i returned addr rest := by
  obtain ⟨-, hsmall, hscans⟩ := h.scans
  rw [if_neg hne] at hscans
  refine ⟨h.master, hans.cursor, hsmall, ?_, h.fresh_answered hnodup hans, h.rounds_answered,
    h.did.answered hans, .inr ?_⟩
  · rw [asked_append hans.sent, if_pos rfl]
    exact hscans
  unfold packed scanNodeIndexBits
  omega

/-- The chain of the master has ended, and the next master is asked with the cursor 0. -/
theorem Midway.next_master
    (h : Midway masters node chain s done i c addr [(0, keys)]) (hnodup : masters.Nodup)
    (hscans : ∀ addr ∈ masters, Scans (node addr) [] 0 (chain addr)) {next : Bytes}
    (hnext : masters[i + 1]? = some next)
    (hans : Answered s s' (formatNat (packed (i + 1) 0)) addr c keys) :
    Midway masters node chain s' (done ++ [((addr, formatNat c), keys)]) (i + 1) 0 next
      (chain next) := by
  obtain ⟨hlt, hget⟩ := List.getElem?_eq_some_iff.mp hnext
  have hfresh := h.fresh_answered hnodup hans
  have hrounds := h.rounds_answered
  rw [List.drop_eq_getElem_cons hlt, hget] at hfresh hrounds
  refine ⟨hnext, hans.cursor, by decide, ?_, ?_, hrounds, h.did.answered hans, .inr ?_⟩
  · rw [hfresh next List.mem_cons_self]
    exact hscans next (List.mem_of_getElem? hnext)
  · exact fun later hlater => hfresh later (List.mem_cons_of_mem _ hlater)
  · exact Nat.succ_ne_zero _

/-- The chain of the last master has ended. -/
theorem Midway.finish (h : Midway masters node chain s done i c addr [(0, keys)])
    (hlast : masters.length ≤ i + 1) (hans : Answered s s' (formatNat 0) addr c keys) :
    Finished masters chain s' := by
  have hall : scanRounds chain masters = done ++ [((addr, formatNat c), keys)] := by
    rw [h.rounds_answered, List.drop_eq_nil_of_le hlast]
    exact List.append_nil _
  refine ⟨hans.cursor, ?_, by rw [hans.calls]; exact Nat.succ_ne_zero _⟩
  rw [hall]
  exact h.did.answered hans

end Answered

theorem onTheWay_call (hname : toUpper name = bytes "SCAN") (hmax : masters.length ≤ 2 ^ 16)
    (hnodup : masters.Nodup) (hscans : ∀ addr ∈ masters, Scans (node addr) [] 0 (chain addr))
    (h : OnTheWay masters node chain s)
    (hmasters : s.manager.snap.masters.map Node.addr = masters)
    (hallows : s.Allows name opts masters node (.call rr env)) :
    OnTheWay masters node chain (s.exec name opts (.call rr env)) := by
  rcases h with ⟨done, i, c, addr, _ | ⟨⟨returned, keys⟩, rest⟩, h⟩ | h
  · exact h.scans.elim
  · have hans : Answered s (s.exec name opts (.call rr env))
        (formatNat (nextClientCursor masters.length i returned)) addr c keys := by
      rw [h.exec_call hname hmax hmasters hallows]
      exact ⟨rfl, rfl, rfl, rfl⟩
    obtain ⟨-, hsmall, hnext⟩ := h.scans
    obtain ⟨hlt, -⟩ := List.getElem?_eq_some_iff.mp h.master
    by_cases hzero : returned = 0
    · subst hzero
      obtain rfl : rest = [] := by simpa using hnext
      rw [nextClientCursor_zero] at hans
      by_cases hlast : i + 1 < masters.length
      · rw [if_pos hlast] at hans
        have hmaster := h.next_master hnodup hscans (List.getElem?_eq_getElem hlast) hans
        exact .inl ⟨_, _, _, _, _, hmaster⟩
      rw [if_neg hlast] at hans
      exact .inr (h.finish (Nat.not_lt.mp hlast) hans)
    · rw [nextClientCursor_of_ne_zero hzero (Nat.lt_of_lt_of_le hlt hmax) hsmall] at hans
      exact .inl ⟨_, _, _, _, _, h.next_cursor hnodup hzero hans⟩
  · -- The client stops at the cursor 0.
    rcases hallows.1 with hnone | hcursor
    · exact absurd hnone h.positive
    · exact absurd h.cursor hcursor

/-- A refresh changes nothing for the client. -/
theorem onTheWay_refresh (h : OnTheWay masters node chain s) (e : Refresh) :
    OnTheWay masters node chain (s.exec name opts (.refresh e)) := by
  rcases h with ⟨done, i, c, addr, rest, h⟩ | h
  · exact .inl ⟨done, i, c, addr, rest, { h with did := { h.did with } }⟩
  · exact .inr { h with did := { h.did with } }

/-! ### The whole iteration -/

theorem onTheWay_start (hpos : masters ≠ [])
    (hscans : ∀ addr ∈ masters, Scans (node addr) [] 0 (chain addr)) (manager : Manager) :
    OnTheWay masters node chain { manager } := by
  obtain ⟨addr, more, rfl⟩ := List.exists_cons_of_ne_nil hpos
  exact .inl ⟨[], 0, 0, addr, chain addr, rfl, rfl, by decide, hscans addr List.mem_cons_self,
    fun _ _ => rfl, rfl, ⟨rfl, rfl, rfl⟩, .inl rfl⟩

/-- What holds all along the iteration. -/
structure Scanning (masters : List Bytes) (node : Bytes → List Bytes → Value)
    (chain : Bytes → List (ℕ × Value)) (s : ScanState) : Prop where
  listed : s.manager.Listed
  perm : s.manager.masterAddrs.Perm masters
  way : OnTheWay masters node chain s

theorem Scanning.addrs (h : Scanning masters node chain s) (hsorted : masters.Pairwise (· < ·)) :
    s.manager.snap.masters.map Node.addr = masters := by
  rw [h.listed]
  refine ((perm_sortStrings _).trans h.perm).eq_of_pairwise' (sorted_sortStrings _) ?_
  exact hsorted.imp List.le_of_lt

theorem Scanning.exec (hname : toUpper name = bytes "SCAN") (hsorted : masters.Pairwise (· < ·))
    (hmax : masters.length ≤ 2 ^ 16)
    (hscans : ∀ addr ∈ masters, Scans (node addr) [] 0 (chain addr))
    (h : Scanning masters node chain s) {e : ScanEvent}
    (hallows : s.Allows name opts masters node e) :
    Scanning masters node chain (s.exec name opts e) := by
  cases e with
  | refresh e =>
    exact ⟨Manager.listed_refresh _ e h.listed, hallows, onTheWay_refresh h.way e⟩
  | call rr env =>
    have hnodup := nodup_of_sorted hsorted
    have hkeeps : (s.exec name opts (.call rr env)).manager = s.manager := by
      unfold ScanState.exec
      dsimp only
      split
      · rfl
      · rfl
    refine ⟨?_, ?_, onTheWay_call hname hmax hnodup hscans h.way (h.addrs hsorted) hallows⟩
    · rw [hkeeps]
      exact h.listed
    rw [hkeeps]
    exact h.perm

theorem OnTheWay.cursor_iff (hmax : masters.length ≤ 2 ^ 16) (h : OnTheWay masters node chain s)
    (hcalls : s.calls ≠ 0) :
    s.cursor = bytes "0" ↔ s.calls = (scanRounds chain masters).length := by
  rcases h with ⟨done, i, c, addr, _ | ⟨⟨returned, keys⟩, rest⟩, h⟩ | h
  · exact h.scans.elim
  · refine iff_of_false (fun hcursor => ?_) fun hall => ?_
    · obtain ⟨hlt, -⟩ := List.getElem?_eq_some_iff.mp h.master
      have hparse := parseUint_formatNat (packed_lt (Nat.lt_of_lt_of_le hlt hmax) h.small)
      rw [← h.cursor, hcursor] at hparse
      exact h.positive.elim hcalls fun hne => hne (Option.some.inj hparse).symm
    · rw [h.rounds, h.did.calls, List.length_append, List.length_append, chainRounds,
        List.length_cons] at hall
      omega
  · exact iff_of_true h.cursor h.did.calls

theorem OnTheWay.did (h : OnTheWay masters node chain s) :
    ∃ done todo, scanRounds chain masters = done ++ todo ∧ Did s done := by
  rcases h with ⟨done, i, c, addr, rest, h⟩ | h
  · exact ⟨done, _, h.rounds, h.did⟩
  · exact ⟨_, [], (List.append_nil _).symm, h.did⟩

/-- A client that scans through the proxy asks the masters in the order of their addresses,
each with its own chain of cursors from 0 on, receives the batches in the same order, and
gets the cursor 0 exactly when the last chain has ended. -/
theorem scan_is_complete (hname : toUpper name = bytes "SCAN")
    (hsorted : masters.Pairwise (· < ·)) (hpos : masters ≠ []) (hmax : masters.length ≤ 65536)
    (hscans : ∀ addr ∈ masters, Scans (node addr) [] 0 (chain addr)) {entryPoints : List Bytes}
    {es : List Refresh} (hstart : (Manager.run { entryPoints } es).masterAddrs.Perm masters)
    {events : List ScanEvent}
    (hmeets : Runs.Meets (ScanState.exec name opts) (ScanState.Allows name opts masters node)
      { manager := Manager.run { entryPoints } es } events) :
    let s := Runs.run (ScanState.exec name opts) { manager := Manager.run { entryPoints } es } events
    let rounds := scanRounds chain masters
    s.calls ≤ rounds.length ∧ s.sent = (rounds.take s.calls).map Prod.fst ∧
      s.batches = (rounds.take s.calls).map Prod.snd ∧
      (s.calls ≠ 0 → (s.cursor = bytes "0" ↔ s.calls = rounds.length)) := by
  intro s rounds
  have hnew : Manager.Listed { entryPoints } := rfl
  have hstep : ∀ (s : ScanState) (e : ScanEvent), Scanning masters node chain s →
      s.Allows name opts masters node e → Scanning masters node chain (s.exec name opts e) :=
    fun s e h hallows => h.exec hname hsorted hmax hscans hallows
  have h : Scanning masters node chain s := hmeets.invariant hstep
    ⟨Runs.run_invariant Manager.listed_refresh hnew es, hstart, onTheWay_start hpos hscans _⟩
  obtain ⟨done, todo, hrounds, hdid⟩ := h.way.did
  have htake : rounds.take s.calls = done := by
    rw [hdid.calls, show rounds = done ++ todo from hrounds, List.take_left]
  refine ⟨?_, ?_, ?_, h.way.cursor_iff hmax⟩
  · rw [hdid.calls, show rounds = done ++ todo from hrounds, List.length_append]
    exact Nat.le_add_right _ _
  · rw [htake, hdid.sent]
  · rw [htake, hdid.batches]

/-- As long as the iteration is not finished, the master that is next can answer. -/
theorem Scanning.exists_call (hname : toUpper name = bytes "SCAN")
    (hsorted : masters.Pairwise (· < ·)) (hmax : masters.length ≤ 2 ^ 16)
    (h : Scanning masters node chain s) (hcalls : s.calls < (scanRounds chain masters).length)
    (opts : List Bytes) :
    ∃ e, s.Allows name opts masters node e ∧ (s.exec name opts e).calls = s.calls + 1 := by
  rcases hway : h.way with ⟨done, i, c, addr, rest, hmid⟩ | hdone
  · let env : RouterEnv :=
      .oneNode fun _ => .always (.ok (node addr (s.asked addr ++ [formatNat c])))
    refine ⟨.call 0 env, ⟨?_, ?_⟩, ?_⟩
    · by_contra hnot
      obtain ⟨hne, hcursor⟩ := not_or.mp hnot
      exact hcalls.ne ((h.way.cursor_iff hmax hne).mp (not_not.mp hcursor))
    · intro job finish addr' hplan htarget
      rw [hmid.plan hname hmax (h.addrs hsorted)] at hplan
      cases hplan
      cases htarget
      rfl
    · unfold ScanState.exec
      dsimp only
      split
      · rfl
      · rfl
  · exact absurd hdone.did.calls hcalls.ne

theorem Scanning.exists_run (hname : toUpper name = bytes "SCAN")
    (hsorted : masters.Pairwise (· < ·)) (hmax : masters.length ≤ 2 ^ 16)
    (hscans : ∀ addr ∈ masters, Scans (node addr) [] 0 (chain addr)) (k : ℕ)
    (h : Scanning masters node chain s) (hk : s.calls + k ≤ (scanRounds chain masters).length)
    (opts : List Bytes) :
    ∃ events, Runs.Meets (ScanState.exec name opts) (ScanState.Allows name opts masters node) s
        events ∧
      (Runs.run (ScanState.exec name opts) s events).calls = s.calls + k := by
  induction k generalizing s with
  | zero => exact ⟨[], trivial, rfl⟩
  | succ k ih =>
    obtain ⟨e, hallows, hcalls⟩ := h.exists_call hname hsorted hmax (by omega) opts
    obtain ⟨events, hmeets, hrun⟩ :=
      ih (h.exec hname hsorted hmax hscans hallows) (by rw [hcalls]; omega)
    exact ⟨e :: events, ⟨hallows, hmeets⟩, by rw [Runs.run_cons, hrun, hcalls]; omega⟩

/-- Two masters. -/
def twoMasters : Refresh :=
  Manager.answered (bytes "a h:1 master - 0 0 0 c\nb h:2 master - 0 0 0 c")

/-- The first master has two batches, the second one. -/
def twoChains (addr : Bytes) : List (ℕ × Value) :=
  if addr = bytes "h:1" then [(7, .array []), (0, .nilArray)] else [(0, .null)]

/-- The node answers with its chain. -/
def answerChain (addr : Bytes) (asked : List Bytes) : Value :=
  match (twoChains addr)[asked.length - 1]? with
  | some (returned, keys) => .array [.bulkString (formatNat returned), keys]
  | none => .null

theorem scan_is_complete_two :
    let start : ScanState :=
      { manager := Manager.run { entryPoints := [bytes "h:1"] } [twoMasters] }
    ∃ events, let s := Runs.run (ScanState.exec (bytes "scan") []) start events
      s.batches = [.array [], .nilArray, .null] ∧ s.cursor = bytes "0" ∧
      s.sent = [(bytes "h:1", bytes "0"), (bytes "h:1", bytes "7"), (bytes "h:2", bytes "0")] := by
  intro start
  have hname : toUpper (bytes "scan") = bytes "SCAN" := rfl
  have hsorted : [bytes "h:1", bytes "h:2"].Pairwise (· < ·) := by decide
  have hscans : ∀ addr ∈ [bytes "h:1", bytes "h:2"],
      Scans (answerChain addr) [] 0 (twoChains addr) := by
    intro addr haddr
    have hanswer (returned : ℕ) (h : returned < 2 ^ 64) :
        parseUint (Value.bulkString (formatNat returned)).str = some returned :=
      parseUint_formatNat h
    rcases List.mem_pair.mp haddr with rfl | rfl
    · exact ⟨⟨_, [], rfl, hanswer 7 (by decide)⟩, by decide, ⟨_, [], rfl, hanswer 0 (by decide)⟩,
        by decide, rfl⟩
    · exact ⟨⟨_, [], rfl, hanswer 0 (by decide)⟩, by decide, rfl⟩
  have hstart : (Manager.run { entryPoints := [bytes "h:1"] } [twoMasters]).masterAddrs.Perm
      [bytes "h:1", bytes "h:2"] := by
    rw [show (Manager.run { entryPoints := [bytes "h:1"] } [twoMasters]).masterAddrs =
      [bytes "h:1", bytes "h:2"] by decide]
  have hscanning : Scanning [bytes "h:1", bytes "h:2"] answerChain twoChains start :=
    ⟨Manager.listed_refresh { entryPoints := [bytes "h:1"] } twoMasters rfl, hstart,
      onTheWay_start (by decide) hscans _⟩
  obtain ⟨events, hmeets, hcalls⟩ := hscanning.exists_run hname hsorted (by decide) hscans 3
    (Nat.le_refl 3) []
  obtain ⟨-, hsent, hbatches, hcursor⟩ :=
    scan_is_complete hname hsorted (by decide) (by decide) hscans hstart hmeets
  have hthree : (Runs.run (ScanState.exec (bytes "scan") []) start events).calls = 3 := hcalls
  rw [hthree] at hsent hbatches hcursor
  exact ⟨events, hbatches, (hcursor (by decide)).mpr rfl, hsent⟩

end Pluster.Router
