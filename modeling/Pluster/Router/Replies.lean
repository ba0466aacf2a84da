import Pluster.Proto.Frames
import Pluster.Router.Execute

/-!
# The replies of the router

What the router returns becomes one reply: the encoding of a value, or an error line. If the
nodes send well-formed values and the texts of transport errors have no line feed, the
result has none in its lines either, whatever way the results of several nodes are merged.
The one text of the client that the router puts into a line is the name of an unknown
command.
-/

namespace Pluster.Router

open Proto GoStrings GoRuntime KeyedOps Pool

variable {io : CallIO} {addr err name cmd : Bytes} {env : CallEnv} {v : Value}
  {results : List Result} {merged : List Value} {plan : Plan}

/-- The bytes that `submitToRouter` makes of a result. -/
def replyBytes : Result → Bytes
  | .error err => encodeError err
  | .ok v => encodeValue v

/-- The lines of a result have no line feed. -/
def Safe : Result → Prop
  | .error err => 10 ∉ err
  | .ok v => v.LineSafe

theorem Safe.singleFrame {result : Result} (h : Safe result) (hfits : Fits (replyBytes result)) :
    SingleFrame (replyBytes result) := by
  cases result with
  | error err => exact (singleFrame_encodeError_iff hfits).mpr h
  | ok v => exact Value.LineSafe.singleFrame h hfits

/-! ### The environment -/

/-- The reads of a connection return values with safe lines and errors without a line
feed. -/
def SafeReads (reads : ℕ → Except Bytes Value) : Prop := ∀ i, Safe (reads i)

/-- What a call meets on the network has no line feed in its texts. -/
structure SafeCall (io : CallIO) : Prop where
  connectErr : ∀ err, io.pipe.io.connectErr = some err → 10 ∉ err
  pipeReads : SafeReads io.pipe.io.reads
  getErr : ∀ err, io.ask.getErr = some err → 10 ∉ err
  askingErr : ∀ err, io.ask.io.askingErr = some err → 10 ∉ err
  writeErr : ∀ err, io.ask.io.writeErr = some err → 10 ∉ err
  askReads : SafeReads io.ask.io.reads

/-- The same for all calls of a job, and for the addresses of the nodes. -/
structure SafeEnv (env : CallEnv) : Prop where
  calls : ∀ n, SafeCall (env.io n)
  cancelled : ∀ n err, env.cancelled n = some err → 10 ∉ err
  addr : ∀ n slot isRead addr, env.nodeAddrForSlot n slot isRead = some addr → 10 ∉ addr

/-! ### Jobs -/

theorem safe_readReplies {reads : ℕ → Except Bytes Value} (h : SafeReads reads) (i : ℕ)
    (pending : List Bytes) : ∀ resp ∈ readReplies reads i pending, Safe resp.result := by
  induction pending generalizing i with
  | nil => simp [readReplies]
  | cons data pending ih =>
    have hi := h i
    unfold readReplies
    split
    · rename_i v hv
      rw [hv] at hi
      rintro resp (_ | ⟨_, hresp⟩)
      · exact hi
      · exact ih (i + 1) resp hresp
    · rename_i err herr
      rw [herr] at hi
      rintro resp (_ | ⟨_, hresp⟩)
      · exact hi
      obtain ⟨_, -, rfl⟩ := List.mem_map.mp hresp
      exact (by decide : 10 ∉ bytes "connection reset")

theorem safe_serve (h : SafeCall io) (haddr : 10 ∉ addr) (data : Bytes) :
    Safe (io.pipe.serve addr data).result := by
  have hunavailable : 10 ∉ bytes "backend " ++ addr ++ bytes " unavailable (reconnecting)" := by
    have h₁ : 10 ∉ bytes "backend " := by decide
    have h₂ : 10 ∉ bytes " unavailable (reconnecting)" := by decide
    simp [h₁, h₂, haddr]
  unfold PipeCall.serve
  rcases hresp : (turn addr io.pipe.connected io.pipe.io
    (io.pipe.before ++ data :: io.pipe.after))[io.pipe.before.length]? with _ | resp
  · exact List.not_mem_nil
  show Safe resp.result
  unfold turn at hresp
  split at hresp
  · rw [getElem?_failAll hresp]
    exact hunavailable
  split at hresp
  · rename_i err herr
    rw [getElem?_failAll hresp]
    split at herr
    · cases herr
    · exact h.connectErr err herr
  · split at hresp
    · exact safe_readReplies h.pipeReads 0 _ resp (List.mem_of_getElem? hresp)
    rw [getElem?_failAll hresp]
    exact (by decide : 10 ∉ bytes "write error")

theorem safe_askOnConn (h : SafeCall io) (req : Request) :
    Safe (askOnConn io.ask.conn req io.ask.io).2 := by
  unfold askOnConn
  split
  · rename_i err herr
    exact h.askingErr err herr
  dsimp only
  split
  · rename_i err herr
    exact h.writeErr err herr
  have hfirst := h.askReads 0
  have hsecond := h.askReads 1
  split
  · rename_i err herr
    rw [herr] at hfirst
    exact hfirst
  rename_i v hv
  rw [hv] at hfirst
  split
  · exact hfirst
  split
  · rename_i err herr
    rw [herr] at hsecond
    exact hsecond
  rename_i v' hv'
  rw [hv'] at hsecond
  exact hsecond

theorem safe_execOnNodeOnce (h : SafeCall io) (haddr : 10 ∉ addr) (req : Request) (asking : Bool) :
    Safe (execOnNodeOnce io addr req asking).result := by
  unfold execOnNodeOnce
  split
  · split
    · rename_i err herr
      have h₁ : 10 ∉ bytes "get conn from " := by decide
      have h₂ : 10 ∉ bytes ": " := by decide
      have h₃ := h.getErr err herr
      simp only [Exchange.of, Safe]
      simp [h₁, h₂, h₃, haddr]
    · exact safe_askOnConn h req
  · exact safe_serve h haddr _

theorem safe_execOnNodeFrom (h : SafeEnv env) (haddr : 10 ∉ addr) (req : Request) (asking : Bool)
    (left n : ℕ) : Safe (execOnNodeFrom env addr req asking left n).1 := by
  induction left generalizing n with
  | zero => exact safe_execOnNodeOnce (h.calls n) haddr req asking
  | succ left ih =>
    have honce := safe_execOnNodeOnce (h.calls n) haddr req asking
    rw [execOnNodeFrom]
    cases hresult : (execOnNodeOnce (env.io n) addr req asking).result with
    | error err =>
      rw [hresult] at honce
      dsimp only
      split
      · split
        · exact h.cancelled n _ ‹_›
        · exact ih (n + 1)
      · exact honce
    | ok v =>
      rw [hresult] at honce
      dsimp only
      split
      · exact honce
      split
      · exact h.cancelled n _ ‹_›
      · exact ih (n + 1)

/-- The address of a redirection is a part of the line of the node. -/
theorem parseRedirection_addr (hv : v.LineSafe) {slot : ℤ}
    (h : v.parseRedirection = some (slot, addr)) : 10 ∉ addr := by
  unfold Value.parseRedirection at h
  split at h
  · rename_i str
    have hstr : 10 ∉ str := by simpa only [Value.LineSafe] using hv
    split at h
    · rename_i a b c hsplit
      obtain ⟨_, -, hpair⟩ := Option.map_eq_some_iff.mp h
      cases hpair
      exact fun hmem => hstr (mem_of_mem_splitN (by rw [hsplit]; simp) hmem)
    · cases h
  · cases h

theorem safe_resolveAddr (h : SafeEnv env) (n : ℕ) (req : Request) (haddr : 10 ∉ addr) (slot : ℤ) :
    (∀ err, resolveAddr env n req addr slot = .error err → 10 ∉ err) ∧
      ∀ found, resolveAddr env n req addr slot = .ok found → 10 ∉ found := by
  have hnone : 10 ∉ bytes "no node for slot " := by decide
  unfold resolveAddr
  split
  · dsimp only
    cases hnode : env.nodeAddrForSlot n slot _ with
    | some found =>
      constructor
      · exact fun err herr => nomatch herr
      rintro _ ⟨⟩
      exact h.addr n slot _ found hnode
    | none =>
      constructor
      · rintro _ ⟨⟩
        simp [hnone, itoa_no_lf]
      · exact fun found hfound => nomatch hfound
  · constructor
    · exact fun err herr => nomatch herr
    rintro _ ⟨⟩
    exact haddr

theorem safe_executeRedirectFrom (h : SafeEnv env) (req : Request) (left n : ℕ)
    (haddr : 10 ∉ addr) (slot : ℤ) (asking : Bool) :
    Safe (executeRedirectFrom env req left n addr slot asking).1 := by
  induction left generalizing n addr slot asking with
  | zero => exact (by decide : 10 ∉ bytes "too many redirects")
  | succ left ih =>
    rw [executeRedirectFrom]
    obtain ⟨hfails, hfound⟩ := safe_resolveAddr h n req haddr slot
    cases hres : resolveAddr env n req addr slot with
    | error err => exact hfails err hres
    | ok addr' =>
      have haddr' : 10 ∉ addr' := hfound addr' hres
      have hnode := safe_execOnNodeFrom h haddr' req asking clusterDownMaxRetry n
      dsimp only
      rcases hexec : execOnNode env n addr' req asking with ⟨result, log⟩
      rw [execOnNode] at hexec
      rw [hexec] at hnode
      cases result with
      | error err => exact hnode
      | ok v =>
        dsimp only
        split
        · split
          · exact hnode
          rename_i hredirect
          exact ih _ (parseRedirection_addr hnode hredirect) _ _
        · split
          · split
            · exact hnode
            rename_i hredirect
            exact ih _ (parseRedirection_addr hnode hredirect) _ _
          · exact hnode

/-- The address of a job has no line feed. -/
def Target.Safe : Target → Prop
  | .slot _ => True
  | .node addr => 10 ∉ addr

theorem safe_run (h : SafeEnv env) {job : Job} (hjob : job.target.Safe) : Safe (job.run env).1 := by
  unfold Job.run
  cases htarget : job.target with
  | slot slot => exact safe_executeRedirectFrom h _ _ _ List.not_mem_nil _ _
  | node addr =>
    rw [htarget] at hjob
    exact safe_execOnNodeFrom h hjob _ _ _ _

/-! ### Merging -/

theorem safe_mergeIntegerSum {total : ℤ} (htotal : -2 ^ 63 ≤ total ∧ total < 2 ^ 63)
    (h : ∀ r ∈ results, Safe r) : Safe (mergeIntegerSum total results) := by
  induction results generalizing total with
  | nil => simpa only [mergeIntegerSum, Safe, Value.LineSafe] using htotal
  | cons r results ih =>
    have htail : ∀ r ∈ results, Safe r := fun r hr => h r (List.mem_cons_of_mem _ hr)
    unfold mergeIntegerSum
    split
    · cases ‹_ :: _ = []›
    · rename_i heq
      cases heq
      exact h _ (List.mem_cons_self ..)
    · rename_i heq
      cases heq
      exact ih (wrap64_bounds _) htail
    rename_i heq
    cases heq
    exact ih htotal htail

theorem safe_mergeArrayConcat {all : List Value} (hall : ∀ v ∈ all, v.LineSafe)
    (h : ∀ r ∈ results, Safe r) : Safe (mergeArrayConcat all results) := by
  induction results generalizing all with
  | nil =>
    rw [mergeArrayConcat, Safe, Value.LineSafe, allLineSafe_iff]
    exact hall
  | cons r results ih =>
    have htail : ∀ r ∈ results, Safe r := fun r hr => h r (List.mem_cons_of_mem _ hr)
    unfold mergeArrayConcat
    split
    · cases ‹_ :: _ = []›
    · rename_i heq
      cases heq
      exact h _ (List.mem_cons_self ..)
    · rename_i elems _ heq
      cases heq
      have helems : ∀ v ∈ elems, v.LineSafe := by
        have hr := h _ (List.mem_cons_self ..)
        rwa [Safe, Value.LineSafe, allLineSafe_iff] at hr
      apply ih _ htail
      intro v hv
      rcases List.mem_append.mp hv with hv | hv
      · exact hall v hv
      · exact helems v hv
    · rename_i heq
      cases heq
      exact ih hall htail

theorem safe_okValue : Safe (.ok okValue) := by
  rw [Safe, okValue, Value.LineSafe]
  decide

theorem safe_mergeOK (h : ∀ r ∈ results, Safe r) : Safe (mergeOK results) := by
  induction results with
  | nil => exact safe_okValue
  | cons r results ih =>
    cases r with
    | error err => exact h _ (List.mem_cons_self ..)
    | ok v =>
      rw [mergeOK]
      split
      · exact h _ (List.mem_cons_self ..)
      · exact ih fun r hr => h r (List.mem_cons_of_mem _ hr)

theorem safe_mergeFirstNonErrorLoop {firstErr : Option Bytes} (h : ∀ r ∈ results, Safe r)
    (hfirst : ∀ err, firstErr = some err → 10 ∉ err) :
    (∀ v, mergeFirstNonErrorLoop results firstErr = .inl v → v.LineSafe) ∧
      ∀ err, mergeFirstNonErrorLoop results firstErr = .inr (some err) → 10 ∉ err := by
  induction results generalizing firstErr with
  | nil =>
    constructor
    · exact fun v hv => nomatch hv
    intro err herr
    exact hfirst err (Sum.inr.inj herr)
  | cons r results ih =>
    have htail : ∀ r ∈ results, Safe r := fun r hr => h r (List.mem_cons_of_mem _ hr)
    have hhead := h r (List.mem_cons_self ..)
    cases r with
    | error err =>
      apply ih htail
      intro err' herr'
      cases firstErr with
      | none =>
        cases herr'
        exact hhead
      | some first =>
        cases herr'
        exact hfirst _ rfl
    | ok v =>
      rw [mergeFirstNonErrorLoop]
      split
      · exact ih htail hfirst
      constructor
      · rintro _ ⟨⟩
        exact hhead
      · exact fun err herr => nomatch herr

theorem safe_mergeFirstNonError (h : ∀ r ∈ results, Safe r) :
    Safe (mergeFirstNonError results) := by
  obtain ⟨hvalue, herror⟩ := safe_mergeFirstNonErrorLoop h
    (fun err (herr : none = some err) => nomatch herr)
  unfold mergeFirstNonError
  split
  · exact hvalue _ ‹_›
  · exact herror _ ‹_›
  split
  · exact h _ (List.mem_cons_self ..)
  · exact safe_okValue

theorem safe_addConfig {elems : List Value} (helems : ∀ v ∈ elems, v.LineSafe)
    (hmerged : ∀ v ∈ merged, v.LineSafe) (seen : List Bytes) :
    ∀ v ∈ (addConfig elems seen merged).2, v.LineSafe := by
  fun_induction addConfig elems seen merged with
  | case1 name value rest seen merged _ ih =>
    exact ih (fun v hv => helems v (by simp [hv])) hmerged
  | case2 name value rest seen merged _ ih =>
    apply ih (fun v hv => helems v (by simp [hv]))
    intro v hv
    rcases List.mem_append.mp hv with hv | hv
    · exact hmerged v hv
    apply helems v
    rcases List.mem_cons.mp hv with rfl | hv
    · simp
    cases List.mem_singleton.mp hv
    simp
  | case3 => exact hmerged

theorem safe_mergeConfigGet (h : ∀ r ∈ results, Safe r) (seen : List Bytes)
    (hmerged : ∀ v ∈ merged, v.LineSafe) : Safe (mergeConfigGet results seen merged) := by
  induction results generalizing seen merged with
  | nil =>
    rw [mergeConfigGet, Safe, Value.LineSafe, allLineSafe_iff]
    exact hmerged
  | cons r results ih =>
    have htail : ∀ r ∈ results, Safe r := fun r hr => h r (List.mem_cons_of_mem _ hr)
    have hhead := h r (List.mem_cons_self ..)
    cases r with
    | error err => exact hhead
    | ok v =>
      unfold mergeConfigGet
      dsimp only
      split
      · exact hhead
      split
      · rename_i elems _
        have helems : ∀ v ∈ elems, v.LineSafe := by
          rwa [Safe, Value.LineSafe, allLineSafe_iff] at hhead
        exact ih htail _ (safe_addConfig helems hmerged seen)
      · exact ih htail seen hmerged

theorem safe_firstGoError (h : ∀ r ∈ results, Safe r) (herr : firstGoError results = some err) :
    10 ∉ err := by
  obtain ⟨r, hr, hfound⟩ := List.exists_of_findSome?_eq_some herr
  have hsafe := h r hr
  cases r with
  | error err' =>
    cases hfound
    exact hsafe
  | ok v => cases hfound

theorem lineSafe_bit (b : Bool) : (Value.integer (if b then 1 else 0)).LineSafe := by
  rw [Value.LineSafe]
  cases b <;> decide

theorem safe_mergeScriptExists (numSHAs : ℕ) (h : ∀ r ∈ results, Safe r) :
    Safe (mergeScriptExists numSHAs results) := by
  unfold mergeScriptExists
  split
  · exact safe_firstGoError h ‹_›
  rw [Safe, Value.LineSafe, allLineSafe_iff]
  intro v hv
  obtain ⟨i, -, rfl⟩ := List.mem_map.mp hv
  exact lineSafe_bit _

theorem safe_mergeBroadcast (addrs : List Bytes) (h : ∀ r ∈ results, Safe r) :
    Safe (mergeBroadcast addrs results) := by
  rw [mergeBroadcast, Safe, Value.LineSafe, allLineSafe_iff]
  intro v hv
  obtain ⟨⟨addr, result⟩, hmem, rfl⟩ := List.mem_map.mp hv
  have hresult := h result (List.of_mem_zip hmem).2
  have herr : 10 ∉ bytes "ERR " := by decide
  simp only [Value.LineSafe, AllLineSafe, true_and, and_true]
  cases result with
  | error err =>
    rw [Safe] at hresult
    simp [Value.LineSafe, herr, hresult]
  | ok v => exact hresult

theorem safe_jobError {r : Result} (h : Safe r) (herr : jobError r = some err) : 10 ∉ err := by
  cases r with
  | error err' =>
    cases herr
    exact h
  | ok v =>
    rw [jobError] at herr
    split at herr
    · cases herr
      cases v with
      | error str => simpa only [Safe, Value.LineSafe, Value.errorMsg] using h
      | _ => exact List.not_mem_nil
    · cases herr

theorem safe_findSome_jobError {results : List (List ℕ × Result)}
    (h : ∀ part ∈ results, Safe part.2)
    (herr : (results.findSome? fun part => jobError part.2) = some err) : 10 ∉ err := by
  obtain ⟨part, hpart, hfound⟩ := List.exists_of_findSome?_eq_some herr
  exact safe_jobError (h part hpart) hfound

theorem safe_mergeMGET (total : ℕ) {results : List (List ℕ × Result)}
    (h : ∀ part ∈ results, Safe part.2) : Safe (mergeMGET total results) := by
  unfold mergeMGET
  split
  · exact safe_findSome_jobError h ‹_›
  rw [Safe, Value.LineSafe, allLineSafe_iff]
  intro v hv
  rcases mem_scatter hv with hnull | ⟨pair, hpair, rfl⟩
  · rw [List.eq_of_mem_replicate hnull]
    simp only [Value.LineSafe]
  obtain ⟨⟨indices, result⟩, hpart, hpair⟩ := List.mem_flatMap.mp hpair
  have hsafe := h _ hpart
  unfold mgetElems at hpair
  split at hpair
  · rename_i elems heq
    cases heq
    rw [Safe, Value.LineSafe, allLineSafe_iff] at hsafe
    exact hsafe _ (List.of_mem_zip hpair).2
  · cases hpair

theorem safe_mergeMSET (isMSETNX : Bool) {results : List (List ℕ × Result)}
    (h : ∀ part ∈ results, Safe part.2) : Safe (mergeMSET isMSETNX results) := by
  unfold mergeMSET
  split
  · exact safe_findSome_jobError h ‹_›
  split
  · rw [Safe, Value.LineSafe]
    split <;> decide
  · exact safe_okValue

theorem safe_mergeFanOutInteger {results : List (List ℕ × Result)}
    (h : ∀ part ∈ results, Safe part.2) : Safe (mergeFanOutInteger results) := by
  apply safe_mergeIntegerSum (by decide)
  intro r hr
  obtain ⟨part, hpart, rfl⟩ := List.mem_map.mp hr
  exact h part hpart

theorem lineSafe_rewriteCursor (masters nodeIdx : ℕ) (h : v.LineSafe) :
    (rewriteCursor masters nodeIdx v).LineSafe := by
  unfold rewriteCursor
  split
  · split
    · exact h
    simp only [Value.LineSafe, AllLineSafe] at h ⊢
    exact ⟨trivial, h.2.1, trivial⟩
  · exact h

/-! ### Plans -/

/-- The plan leads to a result with safe lines, on safe results of its jobs. -/
def Plan.Safe : Plan → Prop
  | .reply result => Router.Safe result
  | .one job finish => job.target.Safe ∧ ∀ v, v.LineSafe → (finish v).LineSafe
  | .masters addrs _ merge => (∀ addr ∈ addrs, 10 ∉ addr) ∧
      ∀ results, (∀ r ∈ results, Router.Safe r) → Router.Safe (merge results)
  | .slots parts merge => (∀ part ∈ parts, part.2.target.Safe) ∧
      ∀ results, (∀ part ∈ results, Router.Safe part.2) → Router.Safe (merge results)

theorem safe_outcomes {env : RouterEnv} (henv : ∀ i, SafeEnv (env.job i))
    (hjobs : ∀ job ∈ plan.jobs, job.target.Safe) : ∀ out ∈ plan.outcomes env, Safe out.1 := by
  intro out hout
  obtain ⟨⟨job, i⟩, hjob, rfl⟩ := List.mem_map.mp hout
  exact safe_run (henv i) (hjobs job (List.fst_mem_of_mem_zipIdx hjob))

theorem Plan.Safe.result (h : plan.Safe) {env : RouterEnv} (henv : ∀ i, SafeEnv (env.job i)) :
    Router.Safe (plan.result env) := by
  cases plan with
  | reply result => exact h
  | one job finish =>
    have hrun := safe_run (henv 0) h.1
    show Router.Safe ((job.run (env.job 0)).1.map finish)
    cases hresult : (job.run (env.job 0)).1 with
    | error err =>
      rw [hresult] at hrun
      exact hrun
    | ok v =>
      rw [hresult] at hrun
      exact h.2 v hrun
  | masters addrs req merge =>
    apply h.2
    intro r hr
    obtain ⟨out, hout, rfl⟩ := List.mem_map.mp hr
    apply safe_outcomes henv _ out hout
    intro job hjob
    obtain ⟨addr, haddr, rfl⟩ := List.mem_map.mp hjob
    exact h.1 addr haddr
  | slots parts merge =>
    apply h.2
    intro part hpart
    obtain ⟨i, -, hi⟩ := List.mem_filterMap.mp hpart
    obtain ⟨out, hout, hr⟩ := List.mem_map.mp (List.of_mem_zip (List.mem_of_getElem? hi)).2
    rw [← hr]
    apply safe_outcomes henv _ out hout
    intro job hjob
    obtain ⟨part, hpart, rfl⟩ := List.mem_map.mp hjob
    exact h.1 part hpart

theorem wrongArgs_no_lf (h : 10 ∉ name) : 10 ∉ wrongArgs name := by
  have h₁ : 10 ∉ bytes "ERR wrong number of arguments for '" := by decide
  have h₂ : 10 ∉ bytes "' command" := by decide
  simp [wrongArgs, h, h₁, h₂]

/-- The error line for an unknown command shows its name. -/
theorem lf_mem_unknownCommand (name : Bytes) : 10 ∈ unknownCommand name ↔ 10 ∈ name := by
  have h₁ : 10 ∉ bytes "ERR unknown command '" := by decide
  have h₂ : 10 ∉ bytes "', with args beginning with: " := by decide
  simp [unknownCommand, h₁, h₂, lf_mem_toLower]

theorem notSupported_no_lf (h : 10 ∉ name) : 10 ∉ notSupported name := by
  have h₁ : 10 ∉ bytes "ERR command '" := by decide
  have h₂ : 10 ∉ bytes "' is not supported in cluster proxy" := by decide
  simp [notSupported, h₁, h₂, lf_mem_toLower, h]

theorem safe_slotParts {α : Type} (name : Bytes) (key : α → Bytes) (args : α → List Bytes)
    (items : List α) {merge : List (List ℕ × Result) → Result}
    (hmerge : ∀ results, (∀ part ∈ results, Router.Safe part.2) → Router.Safe (merge results)) :
    (Plan.slots (slotParts name key args items) merge).Safe := by
  refine ⟨?_, hmerge⟩
  intro part hpart
  obtain ⟨slot, -, rfl⟩ := List.mem_map.mp hpart
  trivial

/-- The plans of the router for a request with the given name, which it shows only in the
error for an unknown command. -/
inductive Plan.Routed (masters : List Bytes) (name : Bytes) : Plan → Prop
  | reply {result : Result} (hsafe : 10 ∉ name → Router.Safe result) :
    Routed masters name (.reply result)
  | masters (req : Request) {merge : List Result → Result}
    (hmerge : ∀ results, (∀ r ∈ results, Router.Safe r) → Router.Safe (merge results)) :
    Routed masters name (.masters masters req merge)
  | node (req : Request) {addr : Bytes} (haddr : addr ∈ masters ∨ addr = [])
    {finish : Value → Value} (hfinish : ∀ msg, finish (.error msg) = .error msg)
    (hsafe : ∀ v, v.LineSafe → (finish v).LineSafe) :
    Routed masters name (.one ⟨req, .node addr⟩ finish)
  | slot (req : Request) (slot : ℕ) : Routed masters name (.one ⟨req, .slot slot⟩ id)
  | mget (keys : List Bytes) : Routed masters name
    (.slots (slotParts (bytes "MGET") id (fun k => [k]) keys) (mergeMGET keys.length))
  | mset (cmd : Bytes) (hcmd : cmd = bytes "MSET" ∨ cmd = bytes "MSETNX")
    (pairs : List (Bytes × Bytes)) : Routed masters name
    (.slots (slotParts cmd Prod.fst (fun pair => [pair.1, pair.2]) pairs)
      (mergeMSET (cmd = bytes "MSETNX")))
  | count (cmd : Bytes) (hcmd : cmd ∉ [bytes "MGET", bytes "MSET", bytes "MSETNX"])
    (keys : List Bytes) : Routed masters name (fanOutInteger cmd keys)

namespace Plan.Routed

variable {masters : List Bytes} {name : Bytes} {plan : Plan}

theorem safe (h : plan.Routed masters name) (hmasters : ∀ addr ∈ masters, 10 ∉ addr)
    (hname : 10 ∉ name) : plan.Safe := by
  cases h with
  | reply hsafe => exact hsafe hname
  | masters req hmerge => exact ⟨hmasters, hmerge⟩
  | node req haddr _ hsafe =>
    refine ⟨?_, hsafe⟩
    rcases haddr with haddr | rfl
    · exact hmasters _ haddr
    · exact List.not_mem_nil
  | slot => exact ⟨trivial, fun _ h => h⟩
  | mget => exact safe_slotParts _ _ _ _ fun _ h => safe_mergeMGET _ h
  | mset => exact safe_slotParts _ _ _ _ fun _ h => safe_mergeMSET _ h
  | count => exact safe_slotParts _ _ _ _ fun _ h => safe_mergeFanOutInteger h

theorem errValue {msg : Bytes} (h : 10 ∉ msg) : Routed masters name (.errValue msg) := by
  refine reply fun _ => ?_
  rw [Router.Safe, Value.LineSafe]
  exact h

theorem noNodes : Routed masters name Router.noNodes :=
  reply fun _ => (by decide : 10 ∉ bytes "no cluster nodes available")

variable (masters name)

theorem executeOnAnyNode (rr : ℕ) (req : Request) :
    Routed masters name (Router.executeOnAnyNode masters rr req) := by
  unfold Router.executeOnAnyNode
  split
  · exact noNodes
  · rename_i haddr
    exact node req (.inl (List.mem_of_getElem? haddr)) (fun _ => rfl) fun _ h => h

theorem fanOutToMasters (req : Request) {merge : List Result → Result}
    (hmerge : ∀ results, (∀ r ∈ results, Router.Safe r) → Router.Safe (merge results)) :
    Routed masters name (Router.fanOutToMasters masters req merge) := by
  unfold Router.fanOutToMasters
  split
  · exact noNodes
  · exact .masters req hmerge

theorem executeAllNodes (req : Request) (cmd : Bytes) :
    Routed masters name (Router.executeAllNodes masters req cmd) := by
  apply fanOutToMasters
  intro results h
  split
  · exact safe_mergeIntegerSum (by decide) h
  split
  · exact safe_mergeArrayConcat (by simp) h
  split
  · exact safe_mergeOK h
  split
  · exact safe_mergeFirstNonError h
  · exact safe_mergeArrayConcat (by simp) h

omit name in
theorem getD_mem (i : ℕ) : masters.getD i [] ∈ masters ∨ masters.getD i [] = [] := by
  rw [List.getD_eq_getElem?_getD]
  cases haddr : masters[i]? with
  | none => exact .inr rfl
  | some addr => exact .inl (List.mem_of_getElem? haddr)

theorem executeSCAN (req : Request) : Routed masters name (Router.executeSCAN masters req) := by
  unfold Router.executeSCAN
  split
  · split
    · exact noNodes
    split
    · exact errValue (by decide)
    exact node _ (getD_mem masters _) (fun _ => rfl) fun v hv => lineSafe_rewriteCursor _ _ hv
  · exact errValue (wrongArgs_no_lf (by decide))

theorem executeScript (rr : ℕ) (req : Request) :
    Routed masters name (Router.executeScript masters rr req) := by
  unfold Router.executeScript
  split
  · dsimp only
    split
    · exact executeAllNodes masters name req _
    split
    · exact fanOutToMasters masters name req fun _ h => safe_mergeScriptExists _ h
    · exact executeOnAnyNode masters name rr req
  · exact errValue (wrongArgs_no_lf (by decide))

theorem executeConfig (rr : ℕ) (req : Request) :
    Routed masters name (Router.executeConfig masters rr req) := by
  unfold Router.executeConfig
  split
  · dsimp only
    split
    · exact fanOutToMasters masters name req fun _ h => safe_mergeConfigGet h [] (by simp)
    split
    · exact fanOutToMasters masters name req fun _ h => safe_mergeOK h
    · exact executeOnAnyNode masters name rr req
  · exact errValue (wrongArgs_no_lf (by decide))

theorem executeBroadcast (req : Request) :
    Routed masters name (Router.executeBroadcast masters req) := by
  unfold Router.executeBroadcast
  split
  · exact fanOutToMasters masters name _ fun _ h => safe_mergeBroadcast masters h
  · exact errValue (wrongArgs_no_lf (by decide))

theorem executeMSET (req : Request) (hcmd : cmd = bytes "MSET" ∨ cmd = bytes "MSETNX") :
    Routed masters name (Router.executeMSET req cmd) := by
  unfold Router.executeMSET
  split
  · apply errValue
    rcases hcmd with rfl | rfl <;> exact wrongArgs_no_lf (by decide)
  dsimp only
  split
  · exact errValue (by decide)
  · exact mset cmd hcmd _

theorem executeDEL (req : Request) (hcmd : cmd = bytes "DEL" ∨ cmd = bytes "UNLINK") :
    Routed masters name (Router.executeDEL req cmd) := by
  unfold Router.executeDEL
  dsimp only
  split
  · apply errValue
    rcases hcmd with rfl | rfl <;> exact wrongArgs_no_lf (by decide)
  · apply count
    rcases hcmd with rfl | rfl <;> decide

theorem executeMultiKey (rr : ℕ) (req : Request) :
    Routed masters name (Router.executeMultiKey masters rr req) := by
  unfold Router.executeMultiKey
  dsimp only
  split
  · unfold executeMGET
    dsimp only
    split
    · exact errValue (wrongArgs_no_lf (by decide))
    · exact mget _
  split
  · exact executeMSET masters name req ‹_›
  split
  · exact executeDEL masters name req ‹_›
  split
  · rename_i hcmd
    apply count
    -- EXISTS and TOUCH are sent as the client wrote them.
    intro hmem
    simp only [List.mem_cons, List.not_mem_nil, or_false] at hmem
    rcases hmem with h | h | h
    all_goals
      rw [h] at hcmd
      revert hcmd
      decide
  split
  · exact executeOnAnyNode masters name rr req
  · exact slot _ _

theorem execute (rr : ℕ) (req : Request) :
    Routed masters (req.args.headD []) (Router.execute masters rr req) := by
  unfold Router.execute
  split
  · exact reply fun _ => (by decide : 10 ∉ bytes "empty request")
  rename_i cmd rest hargs
  rw [hargs]
  dsimp only [List.headD_cons]
  split
  · refine reply fun hname => ?_
    rw [Router.Safe, Value.LineSafe, lf_mem_unknownCommand, lf_mem_toUpper]
    exact hname
  split
  · refine reply fun hname => ?_
    rw [Router.Safe, Value.LineSafe]
    apply notSupported_no_lf
    rwa [lf_mem_toUpper]
  split
  · exact executeSCAN masters cmd req
  split
  · exact executeScript masters cmd rr req
  split
  · exact executeConfig masters cmd rr req
  split
  · exact executeBroadcast masters cmd req
  split
  · exact executeAllNodes masters cmd req _
  split
  · exact executeMultiKey masters cmd rr req
  split
  · exact executeOnAnyNode masters cmd rr req
  · exact slot _ _

theorem execScript (rr : ℕ) (req : Request) :
    ∀ plan ∈ Router.execScript masters rr req, Routed masters [] plan := by
  intro plan hplan
  unfold Router.execScript at hplan
  split at hplan
  · split at hplan
    · cases hplan
      exact errValue (by decide)
    split at hplan
    · cases hplan
      exact errValue (by decide)
    split at hplan
    · cases hplan
      exact executeOnAnyNode masters [] rr req
    split at hplan
    · cases hplan
      exact errValue (by decide)
    split at hplan
    · cases hplan
    split at hplan
    · cases hplan
      exact errValue (by decide)
    cases hplan
    exact slot _ _
  · cases hplan
    exact errValue (by decide)

end Plan.Routed

/-- A command that the table does not have is answered with its name. -/
theorem execute_unknown {masters : List Bytes} {rr : ℕ} {req : Request} {rest : List Bytes}
    (hargs : req.args = name :: rest) (hname : 10 ∈ name) (env : RouterEnv) :
    replyBytes ((execute masters rr req).result env) =
      encodeError (unknownCommand (toUpper name)) := by
  have hunknown : getCmdInfo (toUpper name) = none := getCmdInfo_of_lf (by rwa [lf_mem_toUpper])
  rw [execute, hargs]
  simp only [hunknown]
  rfl

end Pluster.Router
