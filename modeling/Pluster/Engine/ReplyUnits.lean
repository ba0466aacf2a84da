import Pluster.Engine.PlanUnits

/-!
# One reply for each request

A dispatch produces reply units: immediate writes, response slots and buffered
requests. Their number is that of the plan, whatever the state. In a run whose
requests all have one unit, every request is answered once or still waits.
-/

namespace Pluster.Engine

open Proto GoStrings GoRuntime

namespace Session

/-- The reply units between two states: immediate writes, response slots and buffered
requests. -/
def units (s next : Session) : ℕ :=
  (next.tally - s.tally) + (next.pendingCmds.length - s.pendingCmds.length)

theorem Yields.units {n : ℕ} {s next : Session} (h : Yields n s next) : s.units next = n := by
  have htally := h.tally
  have hbuffered := h.buffered
  rw [Session.units]
  omega

private theorem units_write (s : Session) (data : Bytes) : s.units (s.write data) = 1 := by
  have hpending : (s.write data).pendingCmds.length = s.pendingCmds.length := rfl
  rw [units, tally_write, hpending]
  omega

/-- Carrying out a plan produces its units. -/
theorem units_perform (s : Session) (env : Env) (req : Req) (plan : Plan) :
    s.units (s.perform env req plan) = plan.units := by
  by_cases hdirect : plan.writesDirectly = true
  · cases plan with
    | write data => exact units_write s data
    | quit => exact units_write s okReply
    | execEmpty => exact units_write s.leaveMulti _
    | _ => cases hdirect
  · by_cases hbuffer : plan = .buffer
    · subst hbuffer
      simp [units, perform, tally, directWrites, nextSlot, Plan.units]
    by_cases hreset : plan = .reset
    · subst hreset
      obtain ⟨htally, hbuffered, -⟩ := yields_reset s env req
      have hsame : ({ s with pendingCmds := [] } : Session).tally = s.tally := rfl
      rw [units, htally, hsame]
      simp only [List.length_nil] at hbuffered
      simp only [Plan.units]
      omega
    · exact (yields_perform s env req (fun h => absurd h hdirect) hreset hbuffer).units

/-! ### Runs -/

/-- Every request is answered once or waits, and nothing else is answered. -/
def Accounted (s : Session) : Prop :=
  (s.answers ++ s.waiting.map Req.id).Perm (List.range s.arrived)

/-- The dispatch of a request has one unit and drops no other request. `left` are the
requests still to be dispatched in the loop of `drainPendingCmds`. -/
def KeepsCount (cfg : Config) (env : Env) (s : Session) (req : Request) (left : List Req) : Prop :=
  s.state ≠ .subscribe ∧ isSubscribe req = false ∧ ¬ Miscounts cfg env s req ∧
    (Verb.of req = .reset → s.pendingCmds = []) ∧ (Verb.of req = .quit → left = [])

/-- The condition on one step of a run: what it dispatches keeps the count. -/
def StepKeepsCount (cfg : Config) (s : Session) : SessionEvent → Prop
  | .request env req => KeepsCount cfg env s req []
  | .drain env => ∀ req rest, s.draining = req :: rest → KeepsCount cfg env s req.body rest
  | _ => True

private theorem perm_write (s : Session) (data : Bytes) :
    ((s.write data).answers ++ s.waiting.map Req.id).Perm
      (s.serving :: (s.answers ++ s.waiting.map Req.id)) := by
  rw [answers_write, answers, List.append_assoc, List.append_assoc]
  exact List.perm_middle

private theorem perm_append_front {α : Type} (l new rest : List α) :
    (l ++ new ++ rest).Perm (new ++ (l ++ rest)) := by
  rw [← List.append_assoc]
  exact List.perm_append_comm.append_right rest

/-- What carrying out a plan adds to the answers and the requests that wait. -/
theorem perm_perform {s : Session} (hlog : s.LogOk) (env : Env) {req : Req}
    (hid : req.id = s.serving) (plan : Plan) (hreset : plan = .reset → s.pendingCmds = []) :
    (s.perform env req plan).LogOk ∧ (s.perform env req plan).arrived = s.arrived ∧
      ((s.perform env req plan).answers ++ (s.perform env req plan).waiting.map Req.id).Perm
        (List.replicate plan.units s.serving ++ (s.answers ++ s.waiting.map Req.id)) := by
  by_cases hdirect : plan.writesDirectly = true
  · cases plan with
    | write data => exact ⟨hlog, rfl, perm_write s data⟩
    | quit => exact ⟨hlog, rfl, perm_write s okReply⟩
    | execEmpty => exact ⟨hlog, rfl, perm_write s.leaveMulti _⟩
    | _ => cases hdirect
  · by_cases hbuffer : plan = .buffer
    · subst hbuffer
      have hwaiting : (s.perform env req .buffer).waiting.map Req.id =
          s.pendingCmds.map Req.id ++ s.serving :: s.draining.map Req.id := by
        simp [waiting, perform, hid]
      have hperm : (s.answers ++ (s.pendingCmds.map Req.id ++ s.serving :: s.draining.map Req.id)).Perm
          (s.serving :: (s.answers ++ (s.pendingCmds.map Req.id ++ s.draining.map Req.id))) := by
        rw [← List.append_assoc, ← List.append_assoc]
        exact List.perm_middle
      refine ⟨hlog, rfl, ?_⟩
      rw [hwaiting, waiting, List.map_append]
      exact hperm
    · by_cases hplan : plan = .reset
      · subst hplan
        have hyields := yields_reset s env req
        have hsame : ({ s with pendingCmds := [] } : Session).waiting = s.waiting := by
          simp only [waiting, hreset rfl]
        refine ⟨hyields.logOk hlog, hyields.arrived, ?_⟩
        rw [hyields.answers hlog, hyields.waiting, hsame]
        exact perm_append_front _ _ _
      · have hyields := yields_perform s env req (fun h => absurd h hdirect) hplan hbuffer
        refine ⟨hyields.logOk hlog, hyields.arrived, ?_⟩
        rw [hyields.answers hlog, hyields.waiting]
        exact perm_append_front _ _ _

/-- The answer to the next request. -/
private theorem Accounted.next {s : Session} (h : s.Accounted) :
    (s.arrived :: (s.answers ++ s.waiting.map Req.id)).Perm (List.range (s.arrived + 1)) := by
  rw [List.range_succ]
  exact (List.Perm.cons s.arrived h).trans (List.perm_append_singleton _ _).symm

/-- The invariant of runs that keep the count. -/
structure CountInv (s : Session) : Prop where
  log : s.LogOk
  accounted : s.Accounted

/-- A step that adds nothing keeps the count. -/
theorem CountInv.quiet {s next : Session} (h : s.CountInv) (hyields : Yields 0 s next) :
    next.CountInv := by
  refine ⟨hyields.logOk h.log, ?_⟩
  rw [Accounted, hyields.answers h.log, hyields.waiting, hyields.arrived, List.replicate_zero,
    List.append_nil]
  exact h.accounted

/-- The dispatch of a request that keeps the count, in a session that serves it. -/
private theorem perm_dispatch {cfg : Config} {env : Env} {s : Session} (req : Req)
    {left : List Req} (hlog : s.LogOk) (hid : req.id = s.serving)
    (hkeeps : KeepsCount cfg env s req.body left) :
    (s.dispatch cfg env req).LogOk ∧ (s.dispatch cfg env req).arrived = s.arrived ∧
      ((s.dispatch cfg env req).answers ++ (s.dispatch cfg env req).waiting.map Req.id).Perm
        (s.serving :: (s.answers ++ s.waiting.map Req.id)) := by
  obtain ⟨hstate, hsub, hcount, hreset, -⟩ := hkeeps
  have hunits := (dispatchClientRequest_units cfg env s hstate hsub).mpr hcount
  have hchooses := chooses_dispatchClientRequest cfg env s req.body
  have hperform := perm_perform hlog env hid (dispatchClientRequest cfg env s req.body)
    (fun hplan => hreset (by
      rw [hplan] at hchooses
      exact hchooses))
  rwa [hunits] at hperform

/-- QUIT is answered by a direct write. -/
theorem dispatch_of_quits {s : Session} {cfg : Config} {env : Env} {req : Req}
    (h : s.quits cfg env req.body = true) :
    Verb.of req.body = .quit ∧ s.dispatch cfg env req = s.write okReply := by
  have hplan : dispatchClientRequest cfg env s req.body = .quit := by
    unfold quits at h
    split at h
    · assumption
    · cases h
  have hchooses := chooses_dispatchClientRequest cfg env s req.body
  rw [hplan] at hchooses
  exact ⟨hchooses, by rw [dispatch, hplan]; rfl⟩

theorem CountInv.onRequest {cfg : Config} {env : Env} {s : Session} {req : Request}
    (h : s.CountInv) (hkeeps : KeepsCount cfg env s req []) :
    (s.onRequest cfg env req).CountInv := by
  let served : Session := { s with serving := s.arrived, arrived := s.arrived + 1 }
  obtain ⟨hlog, harrived, hperm⟩ :=
    perm_dispatch (s := served) ⟨s.arrived, req⟩ h.log rfl hkeeps
  have hnext : (served.dispatch cfg env ⟨s.arrived, req⟩).CountInv := by
    refine ⟨hlog, hperm.trans ?_⟩
    rw [harrived]
    exact h.accounted.next
  unfold Session.onRequest
  simp only
  split
  · exact hnext.quiet (stepRel_yields.onClientClose _)
  · exact hnext

theorem CountInv.onProtocolError {s : Session} (h : s.CountInv) (data : Bytes) :
    ({ s with serving := s.arrived, arrived := s.arrived + 1 }.write data).CountInv := by
  refine ⟨h.log, (perm_write { s with serving := s.arrived, arrived := s.arrived + 1 } data).trans ?_⟩
  exact h.accounted.next

theorem CountInv.onDrain {cfg : Config} {env : Env} {s : Session} (h : s.CountInv)
    (hkeeps : ∀ req rest, s.draining = req :: rest → KeepsCount cfg env s req.body rest) :
    (s.onDrain cfg env).CountInv := by
  unfold Session.onDrain
  split
  · exact h
  rename_i req rest hdraining
  have hkeep := hkeeps req rest hdraining
  let served : Session := { s with serving := req.id, draining := rest }
  obtain ⟨hlog, harrived, hperm⟩ := perm_dispatch (s := served) req h.log rfl hkeep
  have hnext : (served.dispatch cfg env req).CountInv := by
    refine ⟨hlog, hperm.trans ?_⟩
    have haccounted := h.accounted
    rw [Accounted, waiting, hdraining] at haccounted
    rw [harrived]
    refine List.Perm.trans ?_ haccounted
    rw [waiting, List.map_append, List.map_append, List.map_cons, ← List.append_assoc,
      ← List.append_assoc]
    exact List.perm_middle.symm
  simp only
  split
  · rename_i hquits
    obtain ⟨hverb, hwrite⟩ := dispatch_of_quits (s := served) hquits
    have hleft : rest = [] := hkeep.2.2.2.2 hverb
    refine hnext.quiet (.none ?_)
    rw [hwrite]
    simp only [replyPart, write, served, hleft]
  · exact hnext

theorem CountInv.exec {cfg : Config} {s : Session} {e : SessionEvent} (h : s.CountInv)
    (hkeeps : StepKeepsCount cfg s e) : (s.exec cfg e).CountInv := by
  unfold Session.exec
  split
  · exact h
  split
  · cases e with
    | request env req => exact h.onRequest hkeeps
    | protocolError err => exact (h.onProtocolError _).quiet (stepRel_yields.onClientClose _)
    | _ => exact h.quiet (yields_onEvent s cfg rfl)
  · split
    · exact h.onDrain hkeeps
    · exact h

theorem countInv_new (cfg : Config) (policy : GrowthPolicy) : (new cfg policy).CountInv :=
  ⟨rfl, List.Perm.refl _⟩

/-- One dispatch has exactly one reply unit unless the request is a HELLO with an accepted
AUTH or panics. In a run without such requests, in which RESET and a drained QUIT drop no
other request, every request is answered exactly once or still waits. -/
theorem one_reply_per_request (cfg : Config) :
    (∀ (env : Env) (s : Session) (req : Req), s.state ≠ .subscribe → isSubscribe req.body = false →
      (s.units (s.dispatch cfg env req) = 1 ↔ ¬ Miscounts cfg env s req.body)) ∧
    ∀ (policy : GrowthPolicy) (events : List SessionEvent),
      Runs.Meets (exec cfg) (StepKeepsCount cfg) (new cfg policy) events →
      (after cfg policy events).Accounted := by
  constructor
  · intro env s req hstate hsub
    rw [dispatch, units_perform]
    exact dispatchClientRequest_units cfg env s hstate hsub
  intro policy events hmeets
  have hinv := hmeets.invariant (fun s e => CountInv.exec) (countInv_new cfg policy)
  exact hinv.accounted

/-- HELLO with a correct password is answered by OK and by the server info. -/
theorem hello_with_auth_has_two_units :
    let cfg : Config := { clientPassword := bytes "secret" }
    let args := [bytes "HELLO", bytes "2", bytes "AUTH", bytes "default", bytes "secret"]
    let req : Req := ⟨0, { args, cmd := bytes "HELLO" }⟩
    let s := new cfg .doubling
    s.state ≠ .subscribe ∧ isSubscribe req.body = false ∧
      s.units (s.dispatch cfg (.oneNode (bytes "a:1")) req) = 2 := by
  refine ⟨by decide, by decide, ?_⟩
  rw [dispatch, units_perform]
  decide

/-- PING and a GET that the multiplexer answers. -/
theorem one_reply_per_request_ping_get :
    let env := Env.oneNode (bytes "a:1")
    let ping : Request := { args := [bytes "PING"], cmd := bytes "PING" }
    let get : Request := { args := [bytes "GET", bytes "x"], cmd := bytes "GET" }
    let events : List SessionEvent :=
      [.request env ping, .request env get, .muxReply 0 (bytes "$-1\r\n")]
    Runs.Meets (exec {}) (StepKeepsCount {}) (new {} .doubling) events ∧
      (after {} .doubling events).Accounted := by
  intro env ping get events
  have hmeets : Runs.Meets (exec {}) (StepKeepsCount {}) (new {} .doubling) events :=
    ⟨⟨by decide, by decide, not_miscounts (by decide) (by decide), by decide, by decide⟩,
      ⟨by decide, by decide, not_miscounts (by decide) (by decide), by decide, by decide⟩,
      trivial, trivial⟩
  exact ⟨hmeets, (one_reply_per_request {}).2 .doubling events hmeets⟩

end Session

end Pluster.Engine
