import Pluster.Engine.Connections
import Pluster.Engine.PlanUnits
import Pluster.Engine.StateSteps

/-!
# The authentication of clients

With a client password, a client is authenticated if the latest comparison of a password
that AUTH or HELLO made for it has succeeded. Only `handleNormal` reads the flag. The
other handlers are reached in states that an unauthenticated client cannot be in, so
what it sends never leaves the proxy.
-/

namespace Pluster.Engine

open Proto GoStrings GoRuntime

variable {cfg : Config} {plan : Plan} {next : Session} {log : List Bool} {loc : Local}
  {data : List Bytes} {e : SessionEvent}

/-! ### Password comparisons -/

/-- The comparison that `handleAUTH` makes. -/
def authComparisons (cfg : Config) (args : List Bytes) : List Bool :=
  if cfg.clientPassword = [] then []
  else
    match args with
    | [_, provided] | [_, _, provided] => [provided = cfg.clientPassword]
    | _ => []

/-- The comparisons that the options of HELLO make. The loop ends after one that fails. -/
def optionComparisons (cfg : Config) : List Bytes → List Bool
  | [] => []
  | arg :: rest =>
    if toUpper arg = bytes "AUTH" then
      match rest with
      | user :: password :: rest =>
        authComparisons cfg [bytes "AUTH", user, password] ++
          if password = cfg.clientPassword then optionComparisons cfg rest else []
      | _ => []
    else if toUpper arg = bytes "SETNAME" then
      match rest with
      | _ :: rest => optionComparisons cfg rest
      | [] => []
    else optionComparisons cfg rest

/-- The comparisons that `handleHELLO` makes. -/
def helloComparisons (cfg : Config) (args : List Bytes) : List Bool :=
  match args with
  | _ :: version :: options =>
    if version = bytes "2" ∨ version = [] then optionComparisons cfg options else []
  | _ => []

/-- The password comparisons of a request that the switch of `handleNormal` gets. -/
def comparisons (cfg : Config) (req : Request) : List Bool :=
  match Verb.of req with
  | .auth => authComparisons cfg req.args
  | .hello => helloComparisons cfg req.args
  | _ => []

/-- The log of the comparisons, over the requests dispatched. -/
def compareStep (cfg : Config) (s : Session) (log : List Bool) (e : SessionEvent) : List Bool :=
  match s.dispatched e with
  | none => log
  | some (t, env, req) =>
    match dispatchClientRequest cfg env t req.body with
    | .replies _ _ => log ++ comparisons cfg req.body
    | _ => log

/-- The flag after some comparisons. -/
def flagAfter (flag : Bool) (compared : List Bool) : Bool := compared.getLast?.getD flag

theorem flagAfter_append (flag : Bool) (first second : List Bool) :
    flagAfter flag (first ++ second) = flagAfter (flagAfter flag first) second := by
  cases hsecond : second.getLast? with
  | none =>
    rw [List.getLast?_eq_none_iff] at hsecond
    simp [flagAfter, hsecond]
  | some last => simp [flagAfter, List.getLast?_append, hsecond]

/-- What AUTH does to the local data. -/
theorem handleAUTH_spec (hpassword : cfg.clientPassword ≠ []) (loc : Local) (args : List Bytes) :
    (handleAUTH cfg loc args).1 =
      { loc with authenticated := flagAfter loc.authenticated (authComparisons cfg args) } := by
  unfold handleAUTH authComparisons
  rw [if_neg hpassword, if_neg hpassword]
  -- The comparison is made for two and for three arguments.
  have hcompared : ∀ provided : Bytes,
      (if provided ≠ cfg.clientPassword then
        ({ loc with authenticated := false },
          encodeError (bytes "WRONGPASS invalid username-password pair or user is disabled."))
      else ({ loc with authenticated := true }, okReply)).1 =
        { loc with authenticated := flagAfter loc.authenticated [provided = cfg.clientPassword] } := by
    intro provided
    by_cases hright : provided = cfg.clientPassword
    · simp [hright, flagAfter]
    · simp [hright, flagAfter]
  rcases args with _ | ⟨a, _ | ⟨b, _ | ⟨c, _ | ⟨d, rest⟩⟩⟩⟩
  · rfl
  · rfl
  · exact hcompared b
  · exact hcompared c
  · rfl

theorem helloOptions_spec (hpassword : cfg.clientPassword ≠ []) (options : List Bytes)
    (loc : Local) (out : List Bytes) : let result := (helloOptions cfg options loc out).1
    result.authenticated = flagAfter loc.authenticated (optionComparisons cfg options) ∧
      result.maxClients = loc.maxClients := by
  -- The comparison of one AUTH option, by the password it gives.
  have hauthenticated : ∀ (loc : Local) (user password : Bytes),
      (handleAUTH cfg loc [bytes "AUTH", user, password]).1.authenticated =
        decide (password = cfg.clientPassword) := by
    intro loc user password
    rw [handleAUTH_spec hpassword]
    simp [authComparisons, hpassword, flagAfter]
  fun_induction helloOptions cfg options loc out with
  | case1 loc out => exact ⟨rfl, rfl⟩
  | case2 arg loc out hauth user password rest loc' data heq haccepted ih =>
    have hright : password = cfg.clientPassword := by
      have hflag := hauthenticated loc user password
      rw [heq] at hflag
      simpa [haccepted] using hflag.symm
    have hloc : loc' = (handleAUTH cfg loc [bytes "AUTH", user, password]).1 := by rw [heq]
    rw [handleAUTH_spec hpassword] at hloc
    obtain ⟨hflag, hmax⟩ := ih
    refine ⟨?_, ?_⟩
    · rw [optionComparisons.eq_def]
      simp only
      rw [if_pos hauth, if_pos hright, flagAfter_append, hflag, hloc]
    · rw [hmax, hloc]
  | case3 arg loc out hauth user password rest loc' data heq hrefused =>
    have hwrong : password ≠ cfg.clientPassword := by
      intro hright
      have hflag := hauthenticated loc user password
      rw [heq] at hflag
      exact hrefused (by simpa [hright] using hflag)
    have hloc : loc' = (handleAUTH cfg loc [bytes "AUTH", user, password]).1 := by rw [heq]
    rw [handleAUTH_spec hpassword] at hloc
    refine ⟨?_, ?_⟩
    · rw [optionComparisons.eq_def]
      simp only
      rw [if_pos hauth, if_neg hwrong, List.append_nil, hloc]
    · rw [hloc]
  | case4 arg rest loc out hauth hshort =>
    rcases rest with _ | ⟨user, _ | ⟨password, tail⟩⟩
    · simp [optionComparisons, hauth, flagAfter]
    · simp [optionComparisons, hauth, flagAfter]
    · exact absurd rfl (hshort user password tail)
  | case5 arg loc out hauth hname name rest ih =>
    rw [optionComparisons.eq_def]
    simp only [if_neg hauth, if_pos hname]
    exact ih
  | case6 arg loc out hauth hname => simp [optionComparisons, hname, flagAfter]
  | case7 arg rest loc out hauth hname ih =>
    rw [optionComparisons.eq_def]
    simp only [if_neg hauth, if_neg hname]
    exact ih

theorem handleHELLO_spec (hpassword : cfg.clientPassword ≠ []) (loc : Local) (args : List Bytes) :
    (handleHELLO cfg loc args).1.authenticated =
        flagAfter loc.authenticated (helloComparisons cfg args) ∧
      (handleHELLO cfg loc args).1.maxClients = loc.maxClients := by
  rcases args with _ | ⟨name, _ | ⟨version, options⟩⟩
  · exact ⟨rfl, rfl⟩
  · exact ⟨rfl, rfl⟩
  have hoptions := helloOptions_spec hpassword options loc []
  simp only [handleHELLO, helloComparisons]
  by_cases hversion : version = bytes "2" ∨ version = []
  · have hthree : ¬ version = bytes "3" := by
      rcases hversion with rfl | rfl <;> decide
    have hknown : ¬ (version ≠ bytes "2" ∧ version ≠ []) := by
      rcases hversion with rfl | rfl <;> simp
    rw [if_neg hthree, if_neg hknown, if_pos hversion]
    revert hoptions
    rcases helloOptions cfg options loc [] with ⟨loc', out, _ | _⟩
    · exact id
    · exact id
  · rw [if_neg hversion]
    split
    · exact ⟨rfl, rfl⟩
    rw [if_pos (by simpa using hversion)]
    exact ⟨rfl, rfl⟩

/-! ### The gate -/

/-- The plan answers, buffers the request or ends the client. -/
def Plan.staysLocal : Plan → Bool
  | .reply _ | .replies _ _ | .buffer | .write _ | .quit => true
  | _ => false

namespace Session

/-- The states that only an authenticated client is in. -/
def Gated (s : Session) : Prop :=
  s.state = .multi ∨ s.state = .watchMulti ∨ s.state = .subscribe ∨ s.state = .blocking

/-- Nothing was sent to a backend or is on its way to one, no transaction, subscription or
setting of the proxy has changed. -/
structure Untouched (s next : Session) : Prop where
  conns : ∀ c, (next.conns c).map (fun b => (b.wire, b.pending)) =
    (s.conns c).map fun b => (b.wire, b.pending)
  dials : next.dials = s.dials
  starts : next.starts = s.starts
  router : next.router = s.router
  mux : next.mux = s.mux
  watch : next.pendingWatchReq = s.pendingWatchReq
  state : next.state = s.state
  queue : next.txQueue = s.txQueue
  err : next.txErr = s.txErr
  hub : next.hub = s.hub
  maxClients : next.loc.maxClients = s.loc.maxClients

namespace Untouched

variable {s t u : Session}

theorem trans (h : Untouched s t) (h' : Untouched t u) : Untouched s u where
  conns c := (h'.conns c).trans (h.conns c)
  dials := h'.dials.trans h.dials
  starts := h'.starts.trans h.starts
  router := h'.router.trans h.router
  mux := h'.mux.trans h.mux
  watch := h'.watch.trans h.watch
  state := h'.state.trans h.state
  queue := h'.queue.trans h.queue
  err := h'.err.trans h.err
  hub := h'.hub.trans h.hub
  maxClients := h'.maxClients.trans h.maxClients

theorem refl (s : Session) : Untouched s s :=
  ⟨fun _ => rfl, rfl, rfl, rfl, rfl, rfl, rfl, rfl, rfl, rfl, rfl⟩

/-- A change of the logs and of the buffered requests. -/
theorem logs (s : Session) {written : List Chunk} {pendingCmds draining : List Req}
    {serving arrived : ℕ} :
    Untouched s { s with written, pendingCmds, draining, serving, arrived } :=
  ⟨fun _ => rfl, rfl, rfl, rfl, rfl, rfl, rfl, rfl, rfl, rfl, rfl⟩

theorem writeImmediate (s : Session) (data : Bytes) : Untouched s (s.writeImmediate data) := by
  unfold Session.writeImmediate
  split
  · exact logs s
  refine ⟨fun _ => rfl, rfl, ?_, rfl, rfl, rfl, rfl, rfl, rfl, rfl, rfl⟩
  exact starts_fillResponseSlot _ _ _

theorem foldl_writeImmediate (s : Session) (data : List Bytes) :
    Untouched s (data.foldl Session.writeImmediate s) := by
  induction data generalizing s with
  | nil => exact refl s
  | cons d data ih => exact (writeImmediate s d).trans (ih _)

/-- A connection closes outside a blocking command. -/
theorem onBackendClose (hstate : s.state ≠ .blocking) (c : ℕ) :
    Untouched s (s.onBackendClose c) := by
  unfold Session.onBackendClose
  split
  · exact refl s
  rename_i b hc
  have hmark : ∀ d, ((s.setConn c { b with isClosed := true }).conns d).map
      (fun b => (b.wire, b.pending)) = (s.conns d).map fun b => (b.wire, b.pending) := by
    intro d
    by_cases hd : d = c
    · rw [hd, setConn_self, hc]
      rfl
    · rw [setConn_of_ne s _ hd]
  split
  · exact refl s
  simp only [hstate, and_false, if_false]
  split
  · exact ⟨hmark, rfl, rfl, rfl, rfl, rfl, rfl, rfl, rfl, rfl, rfl⟩
  · exact ⟨hmark, rfl, rfl, rfl, rfl, rfl, rfl, rfl, rfl, rfl, rfl⟩

theorem closeConn (hstate : s.state ≠ .blocking) (c : Option ℕ) : Untouched s (s.closeConn c) := by
  cases c with
  | none => exact refl s
  | some c => exact onBackendClose hstate c

/-- The client forgets its connections. -/
theorem forget (h : Untouched s t) {watch multi blocking : Option ℕ} {closed : Bool} :
    Untouched s { t with
      watchBackend := watch, multiBackend := multi, blockingBackend := blocking, closed } :=
  ⟨h.conns, h.dials, h.starts, h.router, h.mux, h.watch, h.state, h.queue, h.err, h.hub,
    h.maxClients⟩

theorem onClientClose (hstate : s.state ≠ .blocking) : Untouched s s.onClientClose := by
  have hwatch : Untouched s { s.closeConn s.watchBackend with watchBackend := none } :=
    (closeConn hstate s.watchBackend).forget
  have hmulti : Untouched s
      ({ s.closeConn s.watchBackend with watchBackend := none } : Session).dropMulti := by
    refine hwatch.trans (forget (closeConn ?_ _))
    rw [hwatch.state]
    exact hstate
  have hblocking : Untouched s
      ({ s.closeConn s.watchBackend with watchBackend := none } : Session).dropMulti.dropBlocking := by
    refine hmulti.trans (forget (closeConn ?_ _))
    rw [hmulti.state]
    exact hstate
  exact hblocking.forget

end Untouched

variable {cfg : Config} {env : Env} {s : Session} {req : Request}

/-- Without authentication `handleNormal` lets four commands through. -/
theorem verb_of_not_refused (hflag : s.loc.authenticated = false) (hrefused : refused s req = false) :
    Verb.of req = .auth ∨ Verb.of req = .quit ∨ Verb.of req = .hello ∨ Verb.of req = .ping := by
  rw [refused, hflag, Bool.not_false, Bool.true_and, Bool.not_eq_false'] at hrefused
  simpa using hrefused

/-- What `handleNormal` decides without authentication. -/
theorem handleNormal_unauthenticated (hpassword : cfg.clientPassword ≠ [])
    (hflag : s.loc.authenticated = false) :
    (handleNormal cfg env s req).staysLocal = true ∧
      ∀ loc data, handleNormal cfg env s req = .replies loc data →
        loc.maxClients = s.loc.maxClients := by
  unfold handleNormal
  split
  · exact ⟨rfl, by rintro _ _ ⟨⟩⟩
  rename_i hrefused
  split
  · exact ⟨rfl, by rintro _ _ ⟨⟩⟩
  rcases verb_of_not_refused hflag (by simpa using hrefused) with hverb | hverb | hverb | hverb
  · simp only [handleVerb, hverb, Plan.ofLocal]
    refine ⟨rfl, fun loc data heq => ?_⟩
    cases heq
    rw [handleAUTH_spec hpassword]
  · simp only [handleVerb, hverb]
    exact ⟨rfl, by rintro _ _ ⟨⟩⟩
  · simp only [handleVerb, hverb]
    refine ⟨rfl, fun loc data heq => ?_⟩
    cases heq
    exact (handleHELLO_spec hpassword s.loc req.args).2
  · simp only [handleVerb, hverb]
    exact ⟨rfl, by rintro _ _ ⟨⟩⟩

/-- What is decided for a client that is not authenticated, in the states it can be in. -/
theorem dispatch_unauthenticated (hpassword : cfg.clientPassword ≠ [])
    (hflag : s.loc.authenticated = false) (hgated : ¬ s.Gated) (env : Env) (req : Request) :
    (dispatchClientRequest cfg env s req).staysLocal = true ∧
      ∀ loc data, dispatchClientRequest cfg env s req = .replies loc data →
        loc.maxClients = s.loc.maxClients := by
  simp only [Gated, not_or] at hgated
  unfold dispatchClientRequest
  split
  · exact ⟨rfl, nofun⟩
  cases hstate : s.state with
  | multi => exact absurd hstate hgated.1
  | watchMulti => exact absurd hstate hgated.2.1
  | subscribe => exact absurd hstate hgated.2.2.1
  | blocking => exact absurd hstate hgated.2.2.2
  | normal | watch => exact handleNormal_unauthenticated hpassword hflag

/-- A plan that stays local touches nothing. -/
theorem untouched_perform (env : Env) (r : Req) (hlocal : plan.staysLocal = true)
    (hmax : ∀ loc data, plan = .replies loc data → loc.maxClients = s.loc.maxClients) :
    Untouched s (s.perform env r plan) := by
  cases plan with
  | reply data => exact .writeImmediate s data
  | replies loc data =>
    have hloc : Untouched s { s with loc } :=
      ⟨fun _ => rfl, rfl, rfl, rfl, rfl, rfl, rfl, rfl, rfl, rfl, hmax loc data rfl⟩
    exact hloc.trans (.foldl_writeImmediate _ data)
  | buffer | write data | quit => exact .logs s
  | _ => cases hlocal

/-! ### Runs -/

/-- The data that belongs to the local commands and to the hub. -/
def kept (s : Session) : Local × Hub := (s.loc, s.hub)

theorem Settles.kept {s : Session} (h : Settles s next) : next.kept = s.kept :=
  Prod.ext h.loc h.hub

theorem kept_writeImmediate (s : Session) (data : Bytes) :
    (s.writeImmediate data).kept = s.kept := by
  unfold writeImmediate
  split <;> rfl

theorem kept_startWatch (s : Session) (env : Env) (r : Req) (addr : Bytes) :
    (s.startWatch env r addr).kept = s.kept := by
  unfold startWatch
  split
  · split
    · exact (stepRel_settles.request _ _ _ _).kept
    rw [(stepRel_settles.dialWatch _ env r _ addr).kept, (stepRel_settles.dropWatch _).kept]
    rfl
  · exact (stepRel_settles.dialWatch _ env r _ addr).kept

theorem kept_handleUNWATCH (s : Session) : s.handleUNWATCH.kept = s.kept := by
  rw [handleUNWATCH, kept_writeImmediate]
  have hdrop := fun t : Session => (stepRel_settles.dropWatch t).kept
  cases s.watchBackend with
  | none => exact hdrop s
  | some c => exact (hdrop _).trans (stepRel_settles.request s c _ _).kept

/-- The local data and the subscriptions change by plans that say so only. -/
theorem kept_perform (s : Session) (env : Env) (r : Req)
    (hlocal : ∀ loc data, plan ≠ .replies loc data) (hsub : plan ≠ .subscribe)
    (hunsub : plan ≠ .unsubscribe) (hpush : ∀ data, plan ≠ .push data) :
    (s.perform env r plan).kept = s.kept := by
  have hwatch := fun t : Session => (stepRel_settles.dropWatch t).kept
  have hmulti := fun t : Session => (stepRel_settles.dropMulti t).kept
  have hblocking := fun t : Session => (stepRel_settles.dropBlocking t).kept
  cases plan with
  | reply data => exact kept_writeImmediate s data
  | replies loc data => exact absurd rfl (hlocal loc data)
  | subscribe => exact absurd rfl hsub
  | unsubscribe => exact absurd rfl hunsub
  | push data => exact absurd rfl (hpush data)
  | reset =>
    refine (kept_writeImmediate _ _).trans ?_
    exact (hblocking _).trans ((hmulti _).trans (hwatch s.leaveMulti))
  | enterMulti state => exact kept_writeImmediate _ okReply
  | watch addr => exact kept_startWatch s env r addr
  | unwatch => exact kept_handleUNWATCH s
  | blocking addr => exact (stepRel_settles.dialBlockingBackend _ env addr r).kept
  | queue => exact kept_writeImmediate _ _
  | queueError data | execError data => exact kept_writeImmediate _ data
  | execAbort =>
    refine (kept_writeImmediate _ _).trans ?_
    exact (hmulti _).trans (hwatch s.leaveMulti)
  | execWatched c | execReuse c => exact (stepRel_settles.request _ c _ _).kept
  | execDial addr =>
    simp only [perform, dialMultiBackend]
    split
    · exact hmulti s
    · exact hmulti s
  | discard =>
    refine (kept_writeImmediate _ _).trans ?_
    exact (hmulti _).trans (hwatch s)
  | _ => rfl

/-- The local data changes by a plan that says so only. -/
theorem loc_perform (s : Session) (env : Env) (r : Req)
    (hplan : ∀ loc data, plan ≠ .replies loc data) : (s.perform env r plan).loc = s.loc := by
  cases plan with
  | subscribe | unsubscribe | push data => rfl
  | _ => exact congrArg Prod.fst (kept_perform s env r hplan nofun nofun nofun)

/-- The subscriptions change by a plan that says so only. -/
theorem hub_perform (s : Session) (env : Env) (r : Req) (hsub : plan ≠ .subscribe)
    (hunsub : plan ≠ .unsubscribe) (hpush : ∀ data, plan ≠ .push data) :
    (s.perform env r plan).hub = s.hub := by
  cases plan with
  | replies loc data => exact (Untouched.foldl_writeImmediate { s with loc } data).hub
  | _ => exact congrArg Prod.snd (kept_perform s env r (by nofun) hsub hunsub hpush)

/-- What holds of the authentication of a client in every run. -/
structure AuthInv (log : List Bool) (s : Session) : Prop where
  flag : s.loc.authenticated = flagAfter false log
  gated : s.Gated → s.loc.authenticated = true

/-- A step that keeps the local data and enters no gated state. -/
theorem AuthInv.settle (h : s.AuthInv log) (hflag : next.loc.authenticated = s.loc.authenticated)
    (hstate : next.state = s.state ∨ next.state = .normal ∨ next.state = .watch) :
    next.AuthInv log := by
  refine ⟨hflag.trans h.flag, fun hgated => ?_⟩
  rw [hflag]
  rcases hstate with hstate | hstate | hstate
  · exact h.gated (by rwa [Gated, hstate] at hgated)
  · simp [Gated, hstate] at hgated
  · simp [Gated, hstate] at hgated

/-- The requests that change the local data reach the switch of `handleNormal`. -/
theorem handleVerb_of_replies (hplan : dispatchClientRequest cfg env s req = .replies loc data) :
    s.ReachesSwitch req ∧ Verb.of req ∈ localVerbs ∧
      handleVerb cfg env s req = .replies loc data := by
  have hchooses := chooses_dispatchClientRequest cfg env s req
  rw [hplan] at hchooses
  exact ⟨hchooses.1, hchooses.2, (dispatch_of_reaches hchooses.1 cfg env).symm.trans hplan⟩

theorem handleClientCmd_authenticated (cfg : Config) (loc : Local) (args : List Bytes) :
    (handleClientCmd cfg loc args).1.authenticated = loc.authenticated := by
  unfold handleClientCmd
  split
  · simp only
    split
    · unfold clientSetName
      split
      · split <;> rfl
      · rfl
    · repeat' split
      all_goals rfl
  · rfl

theorem proxyConfig_authenticated (loc : Local) (action : Bytes) (rest : List Bytes) :
    (proxyConfig loc action rest).1.authenticated = loc.authenticated := by
  unfold proxyConfig
  repeat' split
  all_goals rfl

theorem handleProxyCmd_authenticated (cfg : Config) (env : Env) (loc : Local) (args : List Bytes) :
    (handleProxyCmd cfg env loc args).1.authenticated = loc.authenticated := by
  unfold handleProxyCmd
  split
  · simp only
    split
    · split
      · exact proxyConfig_authenticated _ _ _
      · rfl
    repeat' split
    all_goals rfl
  · rfl

/-- The local data that AUTH, HELLO and the other local commands leave. -/
theorem authenticated_of_replies (hpassword : cfg.clientPassword ≠ [])
    (hlocal : Verb.of req ∈ localVerbs) (hplan : handleVerb cfg env s req = .replies loc data) :
    loc.authenticated = flagAfter s.loc.authenticated (comparisons cfg req) := by
  simp only [handleVerb] at hplan
  cases hverb : Verb.of req with
  | auth =>
    simp only [hverb, Plan.ofLocal, Plan.replies.injEq] at hplan
    rw [← hplan.1, handleAUTH_spec hpassword, comparisons, hverb]
  | hello =>
    simp only [hverb, Plan.replies.injEq] at hplan
    rw [← hplan.1, (handleHELLO_spec hpassword s.loc req.args).1, comparisons, hverb]
  | client =>
    simp only [hverb, Plan.ofLocal, Plan.replies.injEq] at hplan
    rw [← hplan.1, handleClientCmd_authenticated, comparisons, hverb]
    rfl
  | proxy =>
    simp only [hverb, Plan.ofLocal, Plan.replies.injEq] at hplan
    rw [← hplan.1, handleProxyCmd_authenticated, comparisons, hverb]
    rfl
  | _ =>
    rw [hverb] at hlocal
    exact absurd hlocal (by decide)

/-- The dispatch of a request that leaves the local data. -/
theorem AuthInv.dispatch_of_ne_replies (h : s.AuthInv log) (hpassword : cfg.clientPassword ≠ [])
    (env : Env) (r : Req)
    (hplan : ∀ loc data, dispatchClientRequest cfg env s r.body ≠ .replies loc data) :
    (s.dispatch cfg env r).AuthInv log := by
  have hloc : (s.dispatch cfg env r).loc = s.loc := loc_perform s env r hplan
  refine ⟨by rw [hloc, h.flag], fun hgated => ?_⟩
  rw [hloc]
  by_contra hflag
  have hfalse : s.loc.authenticated = false := by simpa using hflag
  have hnot : ¬ s.Gated := fun hgated => hflag (h.gated hgated)
  obtain ⟨hlocal, hmax⟩ := dispatch_unauthenticated hpassword hfalse hnot env r.body
  have huntouched : Untouched s (s.dispatch cfg env r) := untouched_perform env r hlocal hmax
  rw [Gated, huntouched.state] at hgated
  exact hnot hgated

/-- The dispatch of a request that changes the local data, outside of the gated states. -/
theorem AuthInv.dispatch_of_replies (h : s.AuthInv log) (hpassword : cfg.clientPassword ≠ [])
    (env : Env) (r : Req) (hplan : dispatchClientRequest cfg env s r.body = .replies loc data) :
    (s.dispatch cfg env r).AuthInv (log ++ comparisons cfg r.body) := by
  obtain ⟨⟨-, hstate, -⟩, hlocal, hverb⟩ := handleVerb_of_replies hplan
  have hloc : ∀ (data : List Bytes) (t : Session),
      (data.foldl Session.writeImmediate t).loc = t.loc := by
    intro data
    induction data with
    | nil => exact fun _ => rfl
    | cons d data ih => exact fun t => (ih _).trans (congrArg Prod.fst (kept_writeImmediate t d))
  have hsame : (s.dispatch cfg env r).state = s.state := by
    rw [Session.dispatch, hplan]
    exact (Untouched.foldl_writeImmediate { s with loc } data).state
  refine ⟨?_, fun hgated => ?_⟩
  · rw [Session.dispatch, hplan, perform, hloc, flagAfter_append, ← h.flag]
    exact authenticated_of_replies hpassword hlocal hverb
  rw [Gated, hsame] at hgated
  rcases hstate with hstate | hstate
  · simp [hstate] at hgated
  · simp [hstate] at hgated

/-- The dispatch of a request, with the log of its comparisons. -/
theorem AuthInv.dispatch {t : Session} {r : Req} (h : s.AuthInv log)
    (hpassword : cfg.clientPassword ≠ []) (hsome : s.dispatched e = some (t, env, r)) :
    (t.dispatch cfg env r).AuthInv (compareStep cfg s log e) := by
  obtain ⟨serving, arrived, draining, rfl⟩ := dispatched_served hsome
  have hserved : ({ s with serving, arrived, draining } : Session).AuthInv log :=
    h.settle rfl (Or.inl rfl)
  simp only [compareStep, hsome]
  split
  · rename_i loc data hplan
    exact hserved.dispatch_of_replies hpassword env r hplan
  rename_i hplan
  exact hserved.dispatch_of_ne_replies hpassword env r hplan

/-- Events of what the clients share. -/
theorem AuthInv.shared (h : s.AuthInv log) (he : e.isShared = true) :
    (s.onEvent cfg e).AuthInv log := by
  cases e with
  | hubOpened | hubDialFailed | maxClientsSet n => exact h.settle rfl (Or.inl rfl)
  | hubClosed =>
    refine h.settle rfl ?_
    simp only [onEvent, onHubClosed]
    split
    · exact Or.inl rfl
    · exact Or.inr (Or.inl rfl)
  | _ => cases he

theorem AuthInv.exec (h : s.AuthInv log) (hpassword : cfg.clientPassword ≠ []) (e : SessionEvent) :
    (s.exec cfg e).AuthInv (compareStep cfg s log e) := by
  have hquiet : s.dispatched e = none → compareStep cfg s log e = log := by
    intro hnone
    simp only [compareStep, hnone]
  have hclose : ∀ {t : Session} {log : List Bool}, t.AuthInv log → t.onClientClose.AuthInv log :=
    fun ht => ht.settle (by rw [(stepRel_settles.onClientClose _).loc])
      (stepRel_settles.onClientClose _).state
  have heffect := effect_exec cfg s e
  generalize s.exec cfg e = next at heffect ⊢
  cases heffect with
  | none hnone =>
    rw [hquiet hnone]
    exact h
  | dispatch hsome hquits => exact h.dispatch hpassword hsome
  | quit hsome hquits => exact hclose (h.dispatch hpassword hsome)
  | stop hsome hquits => exact (h.dispatch hpassword hsome).settle rfl (Or.inl rfl)
  | protocolError hnone he hdraining =>
    rw [hquiet hnone]
    exact hclose (h.settle rfl (Or.inl rfl))
  | other hnone he hdraining =>
    rw [hquiet hnone]
    cases hshared : e.isShared with
    | true => exact h.shared hshared
    | false =>
      have hsettles := stepRel_settles.onEvent s cfg he hshared
      exact h.settle (by rw [hsettles.loc]) hsettles.state

theorem authInv_new (hpassword : cfg.clientPassword ≠ []) (policy : GrowthPolicy) :
    (new cfg policy).AuthInv [] :=
  ⟨by simp [new, hpassword, flagAfter], by simp [Gated, new]⟩

/-- The dispatch of a request of a client that is not authenticated. -/
theorem untouched_exec (hpassword : cfg.clientPassword ≠ []) (hflag : s.loc.authenticated = false)
    (hgated : ¬ s.Gated) (he : e.dispatches = true) : Untouched s (s.exec cfg e) := by
  have hblocking : s.state ≠ .blocking := fun hstate => hgated (by simp [Gated, hstate])
  have hdispatch : ∀ {t : Session} {env : Env} {r : Req}, s.dispatched e = some (t, env, r) →
      Untouched s (t.dispatch cfg env r) := by
    intro t env r hsome
    obtain ⟨serving, arrived, draining, rfl⟩ := dispatched_served hsome
    obtain ⟨hlocal, hmax⟩ := dispatch_unauthenticated
      (s := { s with serving, arrived, draining }) hpassword hflag hgated env r.body
    exact (Untouched.logs s).trans (untouched_perform env r hlocal hmax)
  have hclose : ∀ {t : Session}, Untouched s t → Untouched s t.onClientClose := by
    intro t ht
    refine ht.trans (Untouched.onClientClose ?_)
    rw [ht.state]
    exact hblocking
  have heffect := effect_exec cfg s e
  generalize s.exec cfg e = next at heffect ⊢
  cases heffect with
  | none hnone => exact .refl s
  | dispatch hsome hquits => exact hdispatch hsome
  | quit hsome hquits => exact hclose (hdispatch hsome)
  | stop hsome hquits => exact (hdispatch hsome).trans (.logs _)
  | protocolError hnone he hdraining => exact hclose (.logs s)
  | other hnone hother hdraining =>
    rw [he] at hother
    cases hother

/-- The password comparisons that were made for a client. -/
def compared (cfg : Config) (policy : GrowthPolicy) (events : List SessionEvent) : List Bool :=
  (Runs.run (Runs.withLog (Session.exec cfg) (compareStep cfg)) (new cfg policy, []) events).2

/-- With a client password, a request of a client whose latest password comparison has not
succeeded never leaves the proxy, in every run. In the states of a transaction, of a
subscription and of a blocking command the latest comparison has succeeded. -/
theorem unauthenticated_requests_stay_local {cfg : Config} (hpassword : cfg.clientPassword ≠ [])
    (policy : GrowthPolicy) (events : List SessionEvent) :
    let s := after cfg policy events
    let authenticated := (compared cfg policy events).getLast? = some true
    (s.loc.authenticated = true ↔ authenticated) ∧ (s.Gated → authenticated) ∧
      ∀ e : SessionEvent, e.dispatches = true → ¬ authenticated → Untouched s (s.exec cfg e) := by
  intro s authenticated
  have hinv : s.AuthInv (compared cfg policy events) :=
    Runs.run_withLog_invariant (fun _ _ e h => h.exec hpassword e) (authInv_new hpassword policy)
      events
  have hflag : s.loc.authenticated = true ↔ authenticated := by
    rw [hinv.flag, flagAfter]
    cases hlast : (compared cfg policy events).getLast? with
    | none | some last => simp [authenticated, hlast]
  refine ⟨hflag, fun hgated => hflag.mp (hinv.gated hgated), fun e he hnot => ?_⟩
  have hfalse : s.loc.authenticated = false := by simpa using fun h => hnot (hflag.mp h)
  exact untouched_exec hpassword hfalse (fun hgated => hnot (hflag.mp (hinv.gated hgated))) he

/-- A GET after an AUTH with the right password and one with a wrong password. -/
theorem unauthenticated_requests_stay_local_revoked :
    let cfg : Config := { clientPassword := bytes "secret" }
    let env := Env.oneNode (bytes "a:1")
    let auth (password : Bytes) : Request :=
      { args := [bytes "AUTH", password], cmd := bytes "AUTH" }
    let get : Request := { args := [bytes "GET", bytes "x"], cmd := bytes "GET" }
    let events : List SessionEvent :=
      [.request env (auth (bytes "secret")), .request env (auth (bytes "wrong"))]
    let s := after cfg .doubling events
    compared cfg .doubling events = [true, false] ∧
      Untouched s (s.exec cfg (.request env get)) := by
  intro cfg env auth get events s
  have hcompared : compared cfg .doubling events = [true, false] := by decide
  have hpassword : cfg.clientPassword ≠ [] := by decide
  refine ⟨hcompared, ?_⟩
  refine (unauthenticated_requests_stay_local hpassword .doubling events).2.2 _ rfl ?_
  rw [hcompared]
  decide

end Session

end Pluster.Engine
