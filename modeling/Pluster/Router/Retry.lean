import Pluster.Lib.Attempts
import Pluster.Router.Execute

/-!
# What a node executes twice

A request should be sent again only after a reply that proves that the node did not execute
it: MOVED, ASK, CLUSTERDOWN or LOADING. `execOnNode` also sends it again after an error of
the transport, and then the node may have executed it already. On a network that does not
fail after a request was written, every request is executed at most once.
-/

namespace Pluster.Router

open Proto GoStrings Pool Attempts

variable {io : CallIO} {addr : Bytes} {req : Request} {asking : Bool} {result : Result} {n : ℕ}

/-- The ASK path works once `Get` has returned: the connection is in sync, the request is
written, ASKING is accepted and the reply comes. -/
def AskCall.Reliable (call : AskCall) : Prop :=
  call.conn.InSync ∧ call.io.writeErr = none ∧
    (∃ v, call.io.reads 0 = .ok v ∧ v.isError = false) ∧ ∃ v, call.io.reads 1 = .ok v

/-- Nothing fails after the request was written. -/
def CallIO.Reliable (io : CallIO) : Prop := io.pipe.io.Reliable ∧ io.ask.Reliable

/-- The exchange ended with a reply that refuses the request. -/
def Exchange.refused (x : Exchange) : Bool := Router.refused x.result x.own

/-! ### One exchange -/

/-- On a reliable ASK path the reply returned is the one to the request. -/
theorem askOnConn_of_reliable {call : AskCall} (h : call.Reliable) (req : Request)
    (hasking : call.io.askingErr = none) :
    (∃ v, (askOnConn call.conn req call.io).2 = .ok v) ∧
      (askOnConn call.conn req call.io).1.InSync := by
  obtain ⟨hsync, hwrite, ⟨askReply, hask, haccepted⟩, v, hv⟩ := h
  have hresult : askOnConn call.conn req call.io =
      ((((call.conn.write [askingCmdBytes]).write [encodeCommandBytes req.args]).readValue).readValue,
        .ok v) := by
    simp [askOnConn, hasking, hwrite, hask, haccepted, hv]
  rw [hresult]
  refine ⟨⟨v, rfl⟩, ?_⟩
  simp only [Conn.InSync] at hsync
  simp [Conn.InSync, Conn.readValue, Conn.write, hsync]

/-- On a reliable network a request that was sent has been answered. -/
theorem execOnNodeOnce_of_reliable (h : io.Reliable)
    (hsent : (execOnNodeOnce io addr req asking).sent = true) :
    ∃ v, (execOnNodeOnce io addr req asking).result = .ok v ∧
      (execOnNodeOnce io addr req asking).own = true := by
  unfold execOnNodeOnce at hsent ⊢
  cases asking with
  | true =>
    rw [if_pos rfl] at hsent ⊢
    cases hget : io.ask.getErr with
    | some err =>
      rw [hget] at hsent
      cases hsent
    | none =>
      rw [hget] at hsent
      have hasking : io.ask.io.askingErr = none := Option.isNone_iff_eq_none.mp hsent
      obtain ⟨⟨v, hv⟩, hsync⟩ := askOnConn_of_reliable h.2 req hasking
      exact ⟨v, hv, decide_eq_true hsync⟩
  | false =>
    rw [if_neg (by decide)] at hsent ⊢
    obtain ⟨v, hv⟩ := PipeCall.serve_of_reliable h.1 hsent
    exact ⟨v, hv, rfl⟩

/-- A node executes what it got and did not refuse. -/
theorem execOnNodeOnce_executed (h : (execOnNodeOnce io addr req asking).executed = true) :
    (execOnNodeOnce io addr req asking).sent = true ∧
      (execOnNodeOnce io addr req asking).refused = false := by
  have hof : ∀ result sent own, (Exchange.of io result sent own).executed = true →
      (Exchange.of io result sent own).sent = true ∧
        (Exchange.of io result sent own).refused = false := by
    intro result sent own hexecuted
    simp only [Exchange.of, Bool.and_eq_true, Bool.not_eq_true'] at hexecuted
    exact ⟨hexecuted.1.1, hexecuted.2⟩
  unfold execOnNodeOnce at h ⊢
  split
  · rename_i hasking
    rw [if_pos hasking] at h
    split
    · rename_i hget
      rw [hget] at h
      exact hof _ _ _ h
    rename_i hget
    rw [hget] at h
    exact hof _ _ _ h
  · rename_i hasking
    rw [if_neg hasking] at h
    exact hof _ _ _ h

/-! ### Retries and redirections -/

/-- What holds of the outcome of a job: the request is sent again only after a refusal, and
if the result is a refusal then every exchange so far was refused. -/
structure Orderly (out : Result × List Exchange) : Prop where
  resent : ResentAfterRefusal Exchange.sent Exchange.refused out.2
  allRefused : ∀ v, out.1 = .ok v → refuses v = true →
    AllRefused Exchange.sent Exchange.refused out.2
  executed : ∀ x ∈ out.2, x.executed = true → x.sent = true ∧ x.refused = false

namespace Orderly

/-- No exchange was made. -/
theorem nil (result : Result) : Orderly (result, []) where
  resent := List.Pairwise.nil
  allRefused _ _ _ _ hx := nomatch hx
  executed _ hx := nomatch hx

/-- The refused exchanges of one outcome, and then those of another one. -/
theorem follow {result' : Result} {log log' : List Exchange} (h : Orderly (result, log))
    (hrefused : AllRefused Exchange.sent Exchange.refused log) (h' : Orderly (result', log')) :
    Orderly (result', log ++ log') where
  resent := .append hrefused h'.resent
  allRefused v hv hrefuses := hrefused.append (h'.allRefused v hv hrefuses)
  executed x hx := by
    rcases List.mem_append.mp hx with hx | hx
    · exact h.executed x hx
    · exact h'.executed x hx

variable {env : CallEnv} (hreliable : ∀ n, (env.io n).Reliable)

include hreliable

/-- An answered exchange that the node refuses is a refused one. -/
theorem refused_of_result {v : Value}
    (hv : (execOnNodeOnce (env.io n) addr req asking).result = .ok v)
    (hrefuses : refuses v = true) :
    AllRefused Exchange.sent Exchange.refused [execOnNodeOnce (env.io n) addr req asking] := by
  intro x hx hsent
  cases List.mem_singleton.mp hx
  obtain ⟨v', hv', hown⟩ := execOnNodeOnce_of_reliable (hreliable n) hsent
  simp only [Exchange.refused, Router.refused, hv, hown, Bool.true_and]
  exact hrefuses

/-- An exchange that ended with an error of the transport had not sent the request. -/
theorem refused_of_error {err : Bytes}
    (herr : (execOnNodeOnce (env.io n) addr req asking).result = .error err) :
    AllRefused Exchange.sent Exchange.refused [execOnNodeOnce (env.io n) addr req asking] := by
  intro x hx hsent
  cases List.mem_singleton.mp hx
  obtain ⟨v, hv, -⟩ := execOnNodeOnce_of_reliable (hreliable n) hsent
  rw [herr] at hv
  cases hv

/-- A single exchange, with its own result or with an error. -/
theorem single (n : ℕ) (addr : Bytes) (req : Request) (asking : Bool)
    (hresult : ∀ v, result = .ok v → (execOnNodeOnce (env.io n) addr req asking).result = .ok v) :
    Orderly (result, [execOnNodeOnce (env.io n) addr req asking]) where
  resent := resentAfterRefusal_singleton _
  allRefused v hv hrefuses := refused_of_result hreliable (hresult v hv) hrefuses
  executed x hx hexecuted := by
    cases List.mem_singleton.mp hx
    exact execOnNodeOnce_executed hexecuted

/-- The loop of `execOnNode`, by induction on the attempts that are left. -/
theorem execOnNodeFrom (addr : Bytes) (req : Request) (asking : Bool) (left n : ℕ) :
    Orderly (Router.execOnNodeFrom env addr req asking left n) := by
  induction left generalizing n with
  | zero => exact single hreliable n addr req asking fun v hv => hv
  | succ left ih =>
    have herror : ∀ err, Orderly (.error err, [execOnNodeOnce (env.io n) addr req asking]) :=
      fun err => single hreliable n addr req asking (by simp)
    have honce := single hreliable n addr req asking fun v hv => hv
    rw [Router.execOnNodeFrom]
    cases hresult : (execOnNodeOnce (env.io n) addr req asking).result with
    | error err =>
      dsimp only
      split
      · split
        · exact herror _
        · exact honce.follow (refused_of_error hreliable hresult) (ih (n + 1))
      · exact herror _
    | ok v =>
      dsimp only
      split
      · exact single hreliable n addr req asking fun v' hv' => by rw [← hv']; exact hresult
      rename_i hrefuses
      split
      · exact herror _
      refine honce.follow (refused_of_result hreliable hresult ?_) (ih (n + 1))
      simp only [Bool.and_eq_true, Bool.not_eq_true'] at hrefuses
      simp only [refuses, Bool.or_eq_true]
      grind

/-- `executeRedirect`, by induction on the redirections that are left. -/
theorem executeRedirectFrom (req : Request) (left n : ℕ) (addr : Bytes) (slot : ℤ)
    (asking : Bool) : Orderly (Router.executeRedirectFrom env req left n addr slot asking) := by
  induction left generalizing n addr slot asking with
  | zero => exact nil _
  | succ left ih =>
    rw [Router.executeRedirectFrom]
    split
    · exact nil _
    rename_i addr _
    have hnode : Orderly (execOnNode env n addr req asking) :=
      execOnNodeFrom hreliable addr req asking clusterDownMaxRetry n
    rcases hexec : execOnNode env n addr req asking with ⟨result, log⟩
    rw [hexec] at hnode
    cases result with
    | error err => exact hnode
    | ok v =>
      dsimp only
      split
      · rename_i hmoved
        split
        · exact hnode
        · exact hnode.follow (hnode.allRefused v rfl (by simp [refuses, hmoved])) (ih ..)
      · split
        · rename_i hask
          split
          · exact hnode
          · exact hnode.follow (hnode.allRefused v rfl (by simp [refuses, hask])) (ih ..)
        · exact hnode

theorem run (job : Job) : Orderly (job.run env) := by
  unfold Job.run
  split
  · exact executeRedirectFrom hreliable _ _ _ _ _ _
  · exact execOnNodeFrom hreliable _ _ _ _ _

end Orderly

/-- On a network that does not fail after a request was written, what `Execute` and
`ExecScript` ask of a node is sent again only after a reply that refuses it, and a node
executes it at most once. -/
theorem router_executes_at_most_once (masters : List Bytes) (rr : ℕ) (req : Request)
    (env : RouterEnv) (hreliable : ∀ job n, ((env.job job).io n).Reliable) :
    ∀ plan ∈ execute masters rr req :: (execScript masters rr req).toList,
      ∀ out ∈ plan.outcomes env,
        ResentAfterRefusal Exchange.sent Exchange.refused out.2 ∧
          (out.2.filter Exchange.executed).length ≤ 1 := by
  intro plan _ out hout
  obtain ⟨⟨job, i⟩, -, rfl⟩ := List.mem_map.mp hout
  have horderly : Orderly (job.run (env.job i)) := Orderly.run (hreliable i) job
  exact ⟨horderly.resent, horderly.resent.done_at_most_once horderly.executed⟩

/-- Jobs that end in their order. -/
def Completion.inOrder : Completion := ⟨List.range, fun _ => .refl _⟩

/-- A call in which every read returns the same. -/
def CallIO.always (answer : Except Bytes Value) : CallIO where
  pipe := { io := { reads := fun _ => answer } }
  ask := { io := { reads := fun _ => answer } }

/-- A cluster of one node, with the given calls. -/
def RouterEnv.oneNode (io : ℕ → CallIO) : RouterEnv where
  job _ := { io, nodeAddrForSlot := fun _ _ _ => some (bytes "10.0.0.1:6379") }
  completion := .inOrder

/-- An update that is not idempotent. -/
def incr : Request := { args := [bytes "INCR", bytes "k"], cmd := bytes "INCR" }

theorem router_executes_at_most_once_incr :
    ((execute [] 0 incr).outcomes (.oneNode fun _ => .always (.ok (.integer 1)))).length = 1 ∧
      ∀ out ∈ (execute [] 0 incr).outcomes (.oneNode fun _ => .always (.ok (.integer 1))),
        ResentAfterRefusal Exchange.sent Exchange.refused out.2 ∧
          (out.2.filter Exchange.executed).length ≤ 1 := by
  refine ⟨by decide +kernel, ?_⟩
  apply router_executes_at_most_once [] 0 incr (.oneNode fun _ => .always (.ok (.integer 1)))
  · intro _ _
    exact ⟨⟨rfl, fun _ => ⟨_, rfl⟩⟩, rfl, rfl, ⟨_, rfl, rfl⟩, _, rfl⟩
  · exact List.mem_cons_self ..

/-- The node executes INCR and the connection fails before its reply: the router sends INCR
again, and the node executes it a second time. -/
theorem router_executes_twice :
    ((execute [] 0 incr).outcomes (.oneNode fun n =>
      .always (if n = 0 then .error (bytes "EOF") else .ok (.integer 2)))).map
        (fun out => (out.2.filter Exchange.executed).length) = [2] := by
  decide +kernel

end Pluster.Router
