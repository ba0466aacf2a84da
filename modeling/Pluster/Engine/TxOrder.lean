import Pluster.Engine.StateSteps
import Pluster.Engine.TxSteps

/-!
# Transactions one after the other

EXEC and DISCARD can meet a transaction of the same client that is still under way on its
multi connection. EXEC then uses that connection for its own transaction, or closes it, and
DISCARD closes it. Otherwise the transactions on a connection follow each other, and none is
cut off by a later one.
-/

namespace Pluster.Engine

open Proto GoStrings GoRuntime

variable {execs : List Req → Prop} {cfg : Config} {s t : Session} {e : SessionEvent} {env : Env}
  {req : Req} {c d : ℕ} {b : Backend} {o : Option ℕ} {plan : Plan}

/-! ### Blocks -/

/-- MULTI and EXEC take turns. -/
def alternates : Bool → List WireCmd → Bool
  | _, [] => true
  | false, .multi :: wire => alternates true wire
  | true, .multi :: _ => false
  | _, .exec :: wire => alternates false wire
  | inBlock, _ :: wire => alternates inBlock wire

theorem alternates_setup {setup : List WireCmd} (h : IsSetup setup) (wire : List WireCmd) :
    alternates false (setup ++ wire) = alternates false wire := by
  obtain ⟨auth, watches, rfl, hauth, hwatches⟩ := h
  have hwatches' : alternates false (watches ++ wire) = alternates false wire := by
    clear hauth
    induction watches with
    | nil => rfl
    | cons cmd watches ih =>
      obtain ⟨req, rfl⟩ := hwatches cmd List.mem_cons_self
      exact ih fun cmd' hcmd' => hwatches cmd' (List.mem_cons_of_mem _ hcmd')
  rw [List.append_assoc]
  rcases hauth with rfl | rfl
  · exact hwatches'
  · exact hwatches'

theorem alternates_block (queue : List Req) (wire : List WireCmd) :
    alternates false (block queue ++ wire) = alternates false wire := by
  have hqueue : alternates true (queue.map .queued ++ (.exec :: wire)) = alternates false wire := by
    induction queue with
    | nil => rfl
    | cons req queue ih => exact ih
  simpa [block, alternates] using hqueue

theorem TxWire.alternates {wire : List WireCmd} (h : TxWire execs wire) :
    alternates false wire = true := by
  cases h with
  | blocks setup queues next hsetup hqueues hnext hwire =>
    rw [hwire, List.append_assoc, alternates_setup hsetup]
    clear hwire hqueues
    induction queues with
    | nil => rcases hnext with rfl | rfl <;> rfl
    | cons queue queues ih => rw [List.flatMap_cons, List.append_assoc, alternates_block, ih]
  | unwatched setup hsetup hwire =>
    rw [hwire, alternates_setup hsetup]
    rfl

namespace Session

/-! ### What EXEC and DISCARD meet -/

/-- Every watch or multi connection has carried transactions one after the other. -/
def Ordered (s : Session) : Prop :=
  ∀ c b, s.conns c = some b → b.kind ≠ .blocking → TxWire (fun _ => True) b.wire

/-- A transaction of the client is under way on a connection: it is about to start, or it
waits for the reply to MULTI or to EXEC. -/
def InFlight (s : Session) (c : ℕ) (b : Backend) : Prop :=
  s.conns c = some b ∧ b.isClosed = false ∧ (c ∈ s.starts.map Prod.fst ∨ b.Busy)

/-- The event dispatches an EXEC or a DISCARD. -/
def EndsMulti (s : Session) (e : SessionEvent) : Prop :=
  ∃ t env req, s.dispatched e = some (t, env, req) ∧
    (Verb.of req.body = .exec ∨ Verb.of req.body = .discard)

/-- An EXEC or DISCARD closes the connection of a transaction that is under way. -/
def Aborts (cfg : Config) (s : Session) (e : SessionEvent) : Prop :=
  s.EndsMulti e ∧ ∃ c b b', s.InFlight c b ∧ (s.exec cfg e).conns c = some b' ∧ b'.isClosed = true

/-- An EXEC starts a transaction on a connection before the EXEC of the one under way was
written. -/
def StartsEarly (cfg : Config) (s : Session) (e : SessionEvent) : Prop :=
  s.EndsMulti e ∧ ∃ c b b', s.InFlight c b ∧ .exec ∉ b.wire ∧
    (s.exec cfg e).conns c = some b' ∧ b'.wire = b.wire ++ [.multi]

/-- EXEC or DISCARD does not meet a transaction that is under way on the multi connection,
except an EXEC that follows the EXEC written there. -/
def clearFor (t : Session) : Plan → Bool
  | .execReuse c => (t.conns c).all fun b => b.wire.contains .exec
  | .execDial _ | .execAbort | .discard => t.multiBackend.isNone
  | _ => true

/-- The request that the event dispatches, if any, finds the multi connection clear. -/
def findsClear (cfg : Config) (s : Session) (e : SessionEvent) : Bool :=
  (s.dispatched e).all fun (t, env, req) =>
    t.clearFor (dispatchClientRequest cfg env t req.body)

theorem clearFor_of_findsClear (h : s.findsClear cfg e = true)
    (hsome : s.dispatched e = some (t, env, req)) :
    t.clearFor (dispatchClientRequest cfg env t req.body) = true := by
  rwa [findsClear, hsome] at h

theorem clearFor_execReuse :
    t.clearFor (.execReuse c) = true ↔ ∀ b, t.conns c = some b → .exec ∈ b.wire := by
  simp [clearFor, Option.all_eq_true]

theorem WireInv.exec (h : s.WireInv execs) (hconn : s.ConnInv)
    (hclear : s.findsClear cfg e = true)
    (hqueue : ∀ t env req, s.dispatched e = some (t, env, req) → req.body.args ≠ [] →
      t.Executes req.body → execs t.txQueue) : (s.exec cfg e).WireInv execs := by
  refine (keeps_exec (fun hlink h => h.link hlink)
    (fun hconn h hmove => h.move hconn ?_ ?_ hmove) hconn h).2
  · rintro queue ⟨t, env, req, hsome, hargs, hexec, rfl⟩
    exact hqueue t env req hsome hargs hexec
  rintro c b ⟨env, req, hsome, hplan⟩ hc
  have hclear := clearFor_of_findsClear hclear hsome
  rw [hplan] at hclear
  exact clearFor_execReuse.mp hclear b hc

/-! ### What a plan does to a transaction under way -/

theorem conns_onBackendClose_of_ne (s : Session) (hne : d ≠ c) :
    (s.onBackendClose c).conns d = s.conns d := by
  unfold onBackendClose
  split
  · rfl
  split
  · rfl
  simp only
  split
  · exact setConn_of_ne s _ hne
  split
  · exact setConn_of_ne s _ hne
  · exact setConn_of_ne s _ hne

theorem conns_onBackendClose_self (hc : s.conns c = some b) (hopen : b.isClosed = false) :
    (s.onBackendClose c).conns c = some { b with isClosed := true } := by
  simp only [onBackendClose, hc, hopen]
  rw [if_neg (by simp)]
  split
  · exact setConn_self s c _
  split
  · exact setConn_self s c _
  · exact setConn_self s c _

theorem conns_closeConn_of_ne (s : Session) (hne : o ≠ some d) :
    (s.closeConn o).conns d = s.conns d := by
  cases o with
  | none => rfl
  | some c => exact conns_onBackendClose_of_ne s fun heq => hne (by rw [heq])

theorem multiBackend_closeConn_iff (s : Session) (hne : o ≠ some d) :
    (s.closeConn o).multiBackend = some d ↔ s.multiBackend = some d := by
  have hforget : ∀ c, c ≠ d →
      ((if s.multiBackend = some c then none else s.multiBackend) = some d ↔
        s.multiBackend = some d) := by
    intro c hcd
    split
    · rename_i heq
      exact iff_of_false nofun fun heq' => hcd (Option.some.inj (heq.symm.trans heq'))
    · rfl
  cases o with
  | none => exact Iff.rfl
  | some c =>
    have hcd : c ≠ d := fun heq => hne (by rw [heq])
    simp only [closeConn, onBackendClose]
    split
    · exact Iff.rfl
    split
    · exact Iff.rfl
    split
    · exact Iff.rfl
    split
    · exact hforget c hcd
    · exact hforget c hcd

/-- A blocking command leaves the connections of other kinds. -/
theorem conns_dialBlockingBackend (hconn : s.ConnInv) (hc : s.conns c = some b)
    (hkind : b.kind ≠ .blocking) (env : Env) (addr : Bytes) (req : Req) :
    (s.dialBlockingBackend env addr req).conns c = s.conns c := by
  unfold dialBlockingBackend
  split
  · rename_i d idle heq
    obtain ⟨hmem, ⟨b', hd, -⟩, -⟩ := takeIdle_some (by rw [heq]) hconn.nodup
    obtain ⟨-, b₀, hb₀, hkind₀, -⟩ := hconn.idle _ hmem
    have hne : c ≠ d := by
      rintro rfl
      rw [hc, Option.some.injEq] at hb₀
      exact hkind (hb₀ ▸ hkind₀)
    rw [reuseBlockingConn_of_some (s := { s with idle }) hd]
    exact setConn_of_ne _ _ hne
  · simp only
    split
    · rfl
    · rfl

/-- The plan closes the multi connection. -/
def dropsMulti : Plan → Bool
  | .execDial _ | .execAbort | .discard => true
  | _ => false

/-- What the plan of an EXEC or DISCARD does to a transaction that is under way. -/
inductive TxEffect (t : Session) (plan : Plan) (c : ℕ) (b : Backend) (next : Session) : Prop
  | starts (hplan : plan = .execReuse c)
      (hconns : next.conns c = some (b.push .multi (.multiStart t.txQueue t.nextSlot)))
  | drops (hplan : dropsMulti plan = true) (hmulti : t.multiBackend = some c)
      (hconns : next.conns c = some { b with isClosed := true })
  | leaves (hreuse : plan ≠ .execReuse c)
      (hdrops : dropsMulti plan = true → t.multiBackend ≠ some c) (hconns : next.conns c = some b)

theorem conns_writeImmediate (s : Session) (data : Bytes) :
    (s.writeImmediate data).conns = s.conns :=
  congrArg Prod.fst (connPart_writeImmediate s data)

theorem conns_foldl_writeImmediate (s : Session) (data : List Bytes) :
    (data.foldl writeImmediate s).conns = s.conns := by
  induction data generalizing s with
  | nil => rfl
  | cons d data ih => rw [List.foldl_cons, ih, conns_writeImmediate]

theorem conns_dialMultiBackend (s : Session) (env : Env) (addr : Bytes) (queue : List Req)
    (slotIdx : ℕ) : (s.dialMultiBackend env addr queue slotIdx).conns = s.conns := by
  unfold dialMultiBackend
  split
  · rfl
  · rfl

theorem conns_execOn (hc : s.conns c = some b) (queue : List Req) :
    (s.execOn c queue).conns =
      (s.setConn c (b.push .multi (.multiStart queue s.nextSlot))).conns := by
  unfold execOn
  rw [request_of_some (s := s.allocResponseSlot) hc]
  rfl

section TxEffect

variable {t : Session} {c : ℕ} {b : Backend}

/-- Closing the multi connection. -/
theorem conns_dropMulti (hc : t.conns c = some b) (hopen : b.isClosed = false) :
    (t.multiBackend = some c ∧ t.dropMulti.conns c = some { b with isClosed := true }) ∨
      (t.multiBackend ≠ some c ∧ t.dropMulti.conns c = some b) := by
  by_cases hmulti : t.multiBackend = some c
  · left
    refine ⟨hmulti, ?_⟩
    simp only [dropMulti, hmulti]
    exact conns_onBackendClose_self hc hopen
  · exact .inr ⟨hmulti, (conns_closeConn_of_ne t hmulti).trans hc⟩

theorem TxEffect.of_dropMulti {u next : Session} (hplan : dropsMulti plan = true)
    (hmulti : u.multiBackend = some c ↔ t.multiBackend = some c) (hc : u.conns c = some b)
    (hopen : b.isClosed = false) (hnext : next.conns = u.dropMulti.conns) :
    TxEffect t plan c b next := by
  rcases conns_dropMulti hc hopen with ⟨hmulti', hconns⟩ | ⟨hmulti', hconns⟩
  · exact .drops hplan (hmulti.mp hmulti') (by rw [hnext, hconns])
  refine .leaves ?_ (fun _ heq => hmulti' (hmulti.mpr heq)) (by rw [hnext, hconns])
  rintro rfl
  cases hplan

/-- The plan of an EXEC or DISCARD starts a transaction on the connection, closes it, or
leaves it. -/
theorem txEffect_perform (h : t.WireInv execs) (hconn : t.ConnInv) (hflight : t.InFlight c b)
    (env : Env) (req : Req) (hchooses : t.Chooses req.body plan)
    (hverb : Verb.of req.body = .exec ∨ Verb.of req.body = .discard) :
    TxEffect t plan c b (t.perform env req plan) := by
  obtain ⟨hc, hopen, htx⟩ := hflight
  have hwatch : t.watchBackend ≠ some c := by
    intro heq
    rcases htx with hmem | hbusy
    · exact (hconn.ne_of_watch hc ((hconn.watch c heq).kind_eq hc)).2 hmem
    · exact (h.ne_of_tx hc hopen hbusy).1 heq
  have hkind : b.kind ≠ .blocking := by
    intro hblocking
    rcases htx with hmem | ⟨cb, hcb, htx⟩
    · exact (hconn.ne_of_blocking hc hblocking).2.2 hmem
    · exact kind_of_isTx ((hconn.ok c b hc).allows cb hcb) htx hblocking
  have hother : ∀ {v : Verb}, v ≠ .exec → v ≠ .discard → Verb.of req.body ≠ v := by
    rintro v hexec hdiscard rfl
    exact hverb.elim hexec hdiscard
  have hleaves : ∀ {next : Session}, (∀ c, plan ≠ .execReuse c) → dropsMulti plan = false →
      next.conns c = t.conns c → TxEffect t plan c b next := by
    intro next hreuse hdrops hconns
    refine .leaves (hreuse c) (fun htrue => ?_) (hconns.trans hc)
    rw [hdrops] at htrue
    cases htrue
  cases plan with
  | reply data => exact hleaves (by simp) rfl (by rw [perform, conns_writeImmediate])
  | replies loc data => exact hleaves (by simp) rfl (by rw [perform, conns_foldl_writeImmediate])
  | enterMulti state | queue | queueError data =>
    exact hleaves (by simp) rfl (by rw [perform, conns_writeImmediate])
  | execError data => exact hleaves (by simp) rfl (by rw [perform, conns_writeImmediate]; rfl)
  | reset => exact absurd hchooses (hother (by decide) (by decide))
  | watch addr | unwatch => exact absurd hchooses.2 (hother (by decide) (by decide))
  | blocking addr =>
    have hstate : ({ t.allocResponseSlot with
        state := .blocking, blockingSlotIdx := t.nextSlot } : Session).ConnInv := hconn.congr rfl
    exact hleaves (by simp) rfl (conns_dialBlockingBackend hstate hc hkind env addr req)
  | execAbort =>
    refine .of_dropMulti (u := t.leaveMulti.dropWatch) rfl
      (multiBackend_closeConn_iff t.leaveMulti hwatch)
      ((conns_closeConn_of_ne t.leaveMulti hwatch).trans hc) hopen ?_
    rw [perform, conns_writeImmediate]
  | discard =>
    refine .of_dropMulti (u := t.dropWatch) rfl (multiBackend_closeConn_iff t hwatch)
      ((conns_closeConn_of_ne t hwatch).trans hc) hopen ?_
    rw [perform, conns_writeImmediate]
    rfl
  | execDial addr =>
    refine .of_dropMulti (u := t) rfl Iff.rfl hc hopen ?_
    rw [perform, conns_dialMultiBackend]
    rfl
  | execWatched d =>
    obtain ⟨b', hb', -⟩ := hconn.watch d hchooses.2.2
    have hne : c ≠ d := by
      rintro rfl
      exact hwatch hchooses.2.2
    have hconns := conns_execOn (s := { t.leaveMulti with watchBackend := none, watchAddr := [] })
      hb' t.txQueue
    exact hleaves (by simp) rfl ((congrFun hconns c).trans (setConn_of_ne _ _ hne))
  | execReuse d =>
    obtain ⟨b', hb', -⟩ := hconn.multi d hchooses.2.2.2
    have hconns : (t.perform env req (.execReuse d)).conns =
        (t.setConn d (b'.push .multi (.multiStart t.txQueue t.nextSlot))).conns :=
      conns_execOn (s := { t.leaveMulti with multiBackend := none }) hb' t.txQueue
    by_cases hdc : d = c
    · subst hdc
      have hb : b' = b := Option.some.inj (hb'.symm.trans hc)
      subst hb
      exact .starts rfl (by rw [hconns, setConn_self])
    · refine .leaves (fun heq => hdc (by cases heq; rfl)) (by simp [dropsMulti]) ?_
      rw [hconns, setConn_of_ne _ _ fun heq => hdc heq.symm]
      exact hc
  | _ => exact hleaves (by simp) rfl rfl

end TxEffect

/-! ### Runs -/

/-- A request that does not end the client is dispatched. -/
theorem exec_of_stays (hsome : s.dispatched e = some (t, env, req))
    (hstays : t.quits cfg env req.body = false) : s.exec cfg e = t.dispatch cfg env req := by
  have heffect := effect_exec cfg s e
  generalize s.exec cfg e = next at heffect ⊢
  cases heffect with
  | none hnone | protocolError hnone _ _ | other hnone _ _ => rw [hsome] at hnone; cases hnone
  | dispatch hsome' _ =>
    rw [hsome] at hsome'
    cases hsome'
    rfl
  | quit hsome' hquits | stop hsome' hquits =>
    rw [hsome] at hsome'
    cases hsome'
    rw [hstays] at hquits
    cases hquits

theorem quits_of_verb {req : Request} (hquits : t.quits cfg env req = true) :
    req.args ≠ [] ∧ Verb.of req = .quit := by
  have hchooses := chooses_dispatchClientRequest cfg env t req
  unfold quits at hquits
  split at hquits
  · rename_i hplan
    rw [hplan] at hchooses
    refine ⟨fun hargs => ?_, hchooses⟩
    unfold dispatchClientRequest at hplan
    rw [if_pos hargs] at hplan
    cases hplan
  · cases hquits

theorem exec_of_dispatched (hsome : s.dispatched e = some (t, env, req))
    (hverb : req.body.args = [] ∨ Verb.of req.body ≠ .quit) :
    s.exec cfg e = t.dispatch cfg env req := by
  refine exec_of_stays hsome ?_
  by_contra hquits
  obtain ⟨hargs, hquit⟩ := quits_of_verb (by simpa using hquits)
  exact hverb.elim hargs fun hne => hne hquit

/-- The multi connection has a transaction under way. -/
theorem WireInv.inFlight (h : s.WireInv execs) (hconn : s.ConnInv)
    (hmulti : s.multiBackend = some c) : ∃ b, s.InFlight c b := by
  obtain ⟨b, hc, -, hopen, -⟩ := hconn.multi c hmulti
  exact ⟨b, hc, hopen, (h.multi c b hmulti hc).imp_right Backend.Once.busy⟩

section Clear

variable {cfg : Config} {execs : List Req → Prop} {s t : Session} {e : SessionEvent} {env : Env}
  {req : Req} {c : ℕ} {b : Backend}

/-- What an EXEC or DISCARD that an event dispatches does to a transaction under way. -/
theorem txEffect_exec (h : s.WireInv execs) (hconn : s.ConnInv) (hflight : s.InFlight c b)
    (hsome : s.dispatched e = some (t, env, req))
    (hverb : Verb.of req.body = .exec ∨ Verb.of req.body = .discard) :
    TxEffect t (dispatchClientRequest cfg env t req.body) c b (s.exec cfg e) := by
  have hquit : Verb.of req.body ≠ .quit := by
    intro hquit
    rw [hquit] at hverb
    exact hverb.elim nofun nofun
  rw [exec_of_dispatched hsome (.inr hquit)]
  have hchooses := chooses_dispatchClientRequest cfg env t req.body
  obtain ⟨serving, arrived, draining, rfl⟩ := dispatched_served hsome
  have hserved : ({ s with serving, arrived, draining } : Session).WireInv execs := h.congr rfl
  have hconn' : ({ s with serving, arrived, draining } : Session).ConnInv := hconn.congr rfl
  exact txEffect_perform hserved hconn' hflight env req hchooses hverb

theorem not_aborts_of_findsClear (h : s.WireInv execs) (hconn : s.ConnInv)
    (hclear : s.findsClear cfg e = true) : ¬ s.Aborts cfg e := by
  rintro ⟨⟨t, env, req, hsome, hverb⟩, c, b, b', hflight, hb', hclosed⟩
  have hclear := clearFor_of_findsClear hclear hsome
  have hsame : ∀ {b₀ : Backend}, (s.exec cfg e).conns c = some b₀ → b₀.isClosed = false → False := by
    intro b₀ hb₀ hopen
    rw [hb', Option.some.injEq] at hb₀
    rw [← hb₀, hclosed] at hopen
    cases hopen
  cases txEffect_exec h hconn hflight hsome hverb with
  | starts _ hconns | leaves _ _ hconns => exact hsame hconns hflight.2.1
  | drops hplan hmulti _ =>
    generalize dispatchClientRequest cfg env t req.body = plan at hplan hclear
    have hnone : t.multiBackend.isNone = true := by
      cases plan with
      | execDial addr | execAbort | discard => exact hclear
      | _ => cases hplan
    rw [hmulti] at hnone
    cases hnone

theorem not_startsEarly_of_findsClear (h : s.WireInv execs) (hconn : s.ConnInv)
    (hclear : s.findsClear cfg e = true) : ¬ s.StartsEarly cfg e := by
  rintro ⟨⟨t, env, req, hsome, hverb⟩, c, b, b', hflight, hexec, hb', hwire⟩
  have hclear := clearFor_of_findsClear hclear hsome
  have hsame : ∀ {b₀ : Backend}, (s.exec cfg e).conns c = some b₀ → b₀.wire = b.wire → False := by
    intro b₀ hb₀ hwire₀
    rw [hb', Option.some.injEq] at hb₀
    rw [← hb₀, hwire] at hwire₀
    exact absurd hwire₀ (by simp)
  cases txEffect_exec h hconn hflight hsome hverb with
  | starts hplan _ =>
    rw [hplan] at hclear
    obtain ⟨serving, arrived, draining, rfl⟩ := dispatched_served hsome
    exact hexec (clearFor_execReuse.mp hclear b hflight.1)
  | leaves _ _ hconns | drops _ _ hconns => exact hsame hconns rfl

/-- An EXEC or DISCARD that meets a transaction under way starts another one too early, or
closes its connection. -/
theorem findsClear_of_not (h : s.WireInv execs) (hconn : s.ConnInv) (haborts : ¬ s.Aborts cfg e)
    (hearly : ¬ s.StartsEarly cfg e) : s.findsClear cfg e = true := by
  unfold findsClear
  rw [Option.all_eq_true]
  rintro ⟨t, env, req⟩ hsome
  change t.clearFor (dispatchClientRequest cfg env t req.body) = true
  have hchooses := chooses_dispatchClientRequest cfg env t req.body
  have hfields : t.multiBackend = s.multiBackend ∧ t.conns = s.conns := by
    obtain ⟨serving, arrived, draining, rfl⟩ := dispatched_served hsome
    exact ⟨rfl, rfl⟩
  have heffect : ∀ {c b}, s.InFlight c b →
      (Verb.of req.body = .exec ∨ Verb.of req.body = .discard) →
      TxEffect t (dispatchClientRequest cfg env t req.body) c b (s.exec cfg e) :=
    fun hflight hverb => txEffect_exec h hconn hflight hsome hverb
  generalize dispatchClientRequest cfg env t req.body = plan at hchooses heffect ⊢
  have hnone : dropsMulti plan = true →
      (Verb.of req.body = .exec ∨ Verb.of req.body = .discard) → t.multiBackend.isNone = true := by
    intro hdrops hverb
    rw [Option.isNone_iff_eq_none]
    by_contra hsome'
    obtain ⟨c, hmulti⟩ := Option.ne_none_iff_exists'.mp hsome'
    obtain ⟨b, hflight⟩ := h.inFlight hconn (hfields.1 ▸ hmulti)
    cases heffect hflight hverb with
    | starts hplan _ => rw [hplan] at hdrops; cases hdrops
    | leaves _ hleft _ => exact hleft hdrops hmulti
    | drops _ _ hconns =>
      exact haborts ⟨⟨t, env, req, hsome, hverb⟩, c, b, _, hflight, hconns, rfl⟩
  cases plan with
  | execReuse c =>
    refine clearFor_execReuse.mpr fun b₀ hb₀ => ?_
    by_contra hexec
    obtain ⟨b, hflight⟩ := h.inFlight hconn (hfields.1 ▸ hchooses.2.2.2)
    rw [hfields.2, hflight.1, Option.some.injEq] at hb₀
    subst hb₀
    have hverb : Verb.of req.body = .exec ∨ Verb.of req.body = .discard := .inl hchooses.1.2.1
    cases heffect hflight hverb with
    | starts _ hconns =>
      refine hearly ⟨⟨t, env, req, hsome, hverb⟩, c, b, _, hflight, hexec, hconns, ?_⟩
      simp [Backend.push, hflight.2.1]
    | leaves hreuse _ _ => exact absurd rfl hreuse
    | drops hplan _ _ => cases hplan
  | execDial addr => exact hnone rfl (.inl hchooses.1.2.1)
  | execAbort => exact hnone rfl (.inl hchooses.2.1)
  | discard => exact hnone rfl (.inr hchooses.2)
  | _ => rfl

end Clear

/-- In every run in which EXEC and DISCARD find the multi connection clear, the transactions on
a connection follow each other. EXEC and DISCARD find it clear if and only if they neither
close the connection of a transaction that is under way nor start one too early. -/
theorem transactions_do_not_interleave {cfg : Config} {policy : GrowthPolicy}
    {events : List SessionEvent}
    (hmeets : Runs.Meets (exec cfg) (fun s e => s.findsClear cfg e = true) (new cfg policy) events) :
    (after cfg policy events).Ordered ∧
      ∀ e, (after cfg policy events).findsClear cfg e = true ↔
        ¬ (after cfg policy events).Aborts cfg e ∧ ¬ (after cfg policy events).StartsEarly cfg e := by
  have hstep : ∀ (s : Session) (e : SessionEvent), s.WireInv (fun _ => True) ∧ s.ConnInv →
      s.findsClear cfg e = true → (s.exec cfg e).WireInv (fun _ => True) ∧ (s.exec cfg e).ConnInv :=
    fun s e ⟨h, hconn⟩ hclear =>
      ⟨h.exec hconn hclear fun _ _ _ _ _ _ => trivial, hconn.exec cfg e⟩
  have hinv : (after cfg policy events).WireInv (fun _ => True) ∧
      (after cfg policy events).ConnInv :=
    hmeets.invariant hstep ⟨wireInv_new _ cfg policy, connInv_new cfg policy⟩
  obtain ⟨h, hconn⟩ := hinv
  refine ⟨fun c b hc hkind => (h.conns c b hc hkind).wire, fun e => ⟨fun hclear => ?_, ?_⟩⟩
  · exact ⟨not_aborts_of_findsClear h hconn hclear, not_startsEarly_of_findsClear h hconn hclear⟩
  rintro ⟨haborts, hearly⟩
  exact findsClear_of_not h hconn haborts hearly

/-- A request without arguments, in a cluster of one node. -/
def bare (name : String) : SessionEvent :=
  .request (.oneNode (bytes "a:1")) { args := [bytes name], cmd := bytes name }

/-- A transaction with one command. -/
def setTransaction : List SessionEvent :=
  [bare "MULTI",
    .request (.oneNode (bytes "a:1"))
      { args := [bytes "SET", bytes "k", bytes "v"], cmd := bytes "SET" },
    bare "EXEC"]

/-- The connection for the transaction opens, and MULTI is sent. -/
def startedTransaction : List SessionEvent := setTransaction ++ [.opened 0, .task 0]

/-- A second transaction follows the EXEC of the first one on its connection. -/
theorem transactions_do_not_interleave_two :
    let s := after {} .doubling (startedTransaction ++
      .value (.oneNode (bytes "a:1")) 0 (.simpleString (bytes "OK")) :: setTransaction)
    s.Ordered ∧ (s.conns 0).map (fun b => b.wire.length) = some 4 := by
  intro s
  exact ⟨(transactions_do_not_interleave (by decide +kernel)).1, by decide +kernel⟩

/-- Before the reply to MULTI, the EXEC of a second transaction sends its MULTI on the same
connection, and a DISCARD closes the connection. -/
theorem second_transaction_interferes :
    let second := after {} .doubling (startedTransaction ++ setTransaction)
    let begun := after {} .doubling (startedTransaction ++ [bare "MULTI"])
    ¬ second.Ordered ∧ begun.Aborts {} (bare "DISCARD") := by
  intro second begun
  constructor
  · intro hordered
    have hconn : (second.conns 0).map (fun b => (b.kind, b.wire)) =
        some (.multi, [.multi, .multi]) := by decide +kernel
    obtain ⟨b, hb, hwire⟩ := Option.map_eq_some_iff.mp hconn
    obtain ⟨hkind, hwire⟩ := Prod.mk.inj hwire
    have halternates := (hordered 0 b hb (by rw [hkind]; decide)).alternates
    rw [hwire] at halternates
    cases halternates
  · have hdispatched : ((begun.dispatched (bare "DISCARD")).map fun d => Verb.of d.2.2.body) =
        some .discard := by decide +kernel
    obtain ⟨⟨t, env, req⟩, hsome, hverb⟩ := Option.map_eq_some_iff.mp hdispatched
    have hconn : (begun.conns 0).map (fun b => (b.isClosed, b.pending.any Callback.isTx)) =
        some (false, true) := by decide +kernel
    obtain ⟨b, hb, hflight⟩ := Option.map_eq_some_iff.mp hconn
    obtain ⟨hopen, htx⟩ := Prod.mk.inj hflight
    have hclosed : ((begun.exec {} (bare "DISCARD")).conns 0).map (fun b => b.isClosed) =
        some true := by decide +kernel
    obtain ⟨b', hb', hclosed⟩ := Option.map_eq_some_iff.mp hclosed
    exact ⟨⟨t, env, req, hsome, .inr hverb⟩, 0, b, b',
      ⟨hb, hopen, .inr (List.any_eq_true.mp htx)⟩, hb', hclosed⟩

end Session

end Pluster.Engine
