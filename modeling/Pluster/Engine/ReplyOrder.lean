import Pluster.Engine.ReplyLog
import Pluster.Engine.Plans

/-!
# The order of replies

The line of a session is the list of the requests that own the chunks written, the
slots in the queue and, behind them, the requests that still wait for their dispatch.
It stays in the order of arrival as long as no direct write passes the queue and no
dispatch passes a buffered request.
-/

namespace Pluster.Engine

open Proto GoStrings GoRuntime

variable {s next : Session} {req : Request} {plan : Plan} {l rest : List ℕ} {a n : ℕ}
  {cfg : Config} {env : Env}

namespace Session

/-- The requests whose replies are not written: those with a slot in the queue and those
that wait for their dispatch. -/
def outstanding (s : Session) : List ℕ :=
  s.owners.drop s.resp.base ++ s.waiting.map Req.id

/-- The requests of the chunks written, and then of the replies outstanding. -/
def line (s : Session) : List ℕ := s.answers ++ s.waiting.map Req.id

/-- The replies are written in the order of the requests, and none while the reply to an
earlier request is outstanding. -/
def RepliesInOrder (s : Session) : Prop :=
  (s.written.map Chunk.owner).Pairwise (· ≤ ·) ∧
    ∀ chunk ∈ s.written, ∀ r ∈ s.outstanding, chunk.owner ≤ r

theorem repliesInOrder_of_line (h : s.line.Pairwise (· ≤ ·)) : s.RepliesInOrder := by
  rw [line, answers, List.append_assoc, List.pairwise_append] at h
  obtain ⟨hwritten, -, hbetween⟩ := h
  exact ⟨hwritten, fun chunk hchunk r hr =>
    hbetween chunk.owner (List.mem_map_of_mem hchunk) r hr⟩

/-! ### The dispatch of a request -/

/-- The reply to the request is written to the socket whatever the queue holds: the
request is empty, a QUIT or an EXEC of an empty transaction. -/
def WritesDirectly (s : Session) (req : Request) : Prop :=
  req.args = [] ∨ Verb.of req = .quit ∨ (s.Executes req ∧ s.Unwatched ∧ s.txQueue = [])

/-- The request is a RESET that is not refused. -/
def Resets (s : Session) (req : Request) : Prop :=
  req.args ≠ [] ∧ Verb.of req = .reset ∧ refused s req = false

/-- A direct write finds no reply outstanding, and no dispatch passes a buffered
request. -/
def KeepsOrder (s : Session) (req : Request) : Prop :=
  isSubscribe req = false ∧
    (s.WritesDirectly req → s.resp.slots = [] ∧ s.pendingCmds = []) ∧
    (s.pendingCmds = [] ∨ s.Buffers req ∨ s.Resets req)

theorem dispatch_of_buffers (h : s.Buffers req) (cfg : Config) (env : Env) :
    dispatchClientRequest cfg env s req = .buffer := by
  obtain ⟨hargs, ⟨hstate, hquit, hreset⟩ | ⟨hstate, hrefused, hwaits⟩⟩ := h
  · simp [dispatchClientRequest, hargs, hstate, hquit, hreset]
  rcases hstate with hstate | hstate <;>
    simp [dispatchClientRequest, hargs, hstate, handleNormal, hrefused, hwaits]

theorem dispatch_of_resets (h : s.Resets req) (cfg : Config) (env : Env) :
    dispatchClientRequest cfg env s req = .reset := by
  obtain ⟨hargs, hverb, hrefused⟩ := h
  have hnormal : handleNormal cfg env s req = .reset := by
    simp [handleNormal, hrefused, waitsForWatch, handleVerb, hverb]
  cases hstate : s.state <;>
    simp [dispatchClientRequest, hargs, hstate, hnormal, handleInMulti, handleInSubscribe, hverb]

theorem writesDirectly_of_chooses (h : s.Chooses req plan) (hdirect : plan.writesDirectly = true) :
    s.WritesDirectly req := by
  cases plan with
  | write data => exact Or.inl h
  | quit => exact Or.inr (Or.inl h)
  | execEmpty => exact Or.inr (Or.inr h)
  | _ => cases hdirect

/-- The line after a plan: the request being served comes behind the buffered requests and
before those that the loop of `drainPendingCmds` still has. -/
theorem line_perform (hlog : s.LogOk) (env : Env) {req : Req} (hid : req.id = s.serving)
    (hdirect : plan.writesDirectly = true → s.resp.slots = [])
    (hpending : s.pendingCmds = [] ∨ plan = .buffer ∨ plan = .reset) :
    (s.perform env req plan).LogOk ∧ (s.perform env req plan).arrived = s.arrived ∧
      (s.perform env req plan).line.Sublist (s.answers ++ s.pendingCmds.map Req.id ++
        (List.replicate plan.units s.serving ++ s.draining.map Req.id)) := by
  by_cases hbuffer : plan = .buffer
  · subst hbuffer
    refine ⟨hlog, rfl, ?_⟩
    have hline : (s.perform env req .buffer).line = s.answers ++ s.pendingCmds.map Req.id ++
        (List.replicate 1 s.serving ++ s.draining.map Req.id) := by
      simp [line, waiting, perform, hid, answers]
    rw [hline]
    exact List.Sublist.refl _
  · by_cases hreset : plan = .reset
    · subst hreset
      have hyields := yields_reset s env req
      refine ⟨hyields.logOk hlog, hyields.arrived, ?_⟩
      rw [line, hyields.answers hlog, hyields.waiting, List.append_assoc, List.append_assoc]
      refine (List.Sublist.refl _).append ?_
      exact List.sublist_append_right _ _
    · have hyields := yields_perform s env req hdirect hreset hbuffer
      have hnil : s.pendingCmds = [] := by simpa [hbuffer, hreset] using hpending
      refine ⟨hyields.logOk hlog, hyields.arrived, ?_⟩
      rw [line, hyields.answers hlog, hyields.waiting, waiting, hnil]
      simp

/-- The line after a dispatch that keeps the order. -/
theorem line_dispatch (hlog : s.LogOk) (cfg : Config) (env : Env) (req : Req)
    (hid : req.id = s.serving) (hkeeps : s.KeepsOrder req.body) :
    (s.dispatch cfg env req).LogOk ∧ (s.dispatch cfg env req).arrived = s.arrived ∧
      ∃ n, (s.dispatch cfg env req).line.Sublist (s.answers ++ s.pendingCmds.map Req.id ++
        (List.replicate n s.serving ++ s.draining.map Req.id)) := by
  obtain ⟨-, hdirect, hpending⟩ := hkeeps
  have hchooses := chooses_dispatchClientRequest cfg env s req.body
  have hplan : s.pendingCmds = [] ∨ dispatchClientRequest cfg env s req.body = .buffer ∨
      dispatchClientRequest cfg env s req.body = .reset := by
    rcases hpending with hnil | hbuffers | hresets
    · exact Or.inl hnil
    · exact Or.inr (Or.inl (dispatch_of_buffers hbuffers cfg env))
    · exact Or.inr (Or.inr (dispatch_of_resets hresets cfg env))
  obtain ⟨hlog', harrived, hline⟩ := line_perform hlog env hid
    (fun h => (hdirect (writesDirectly_of_chooses hchooses h)).1) hplan
  exact ⟨hlog', harrived, _, hline⟩

/-! ### Runs -/

/-- The condition on one step of a run: what it dispatches keeps the order. -/
def StepKeepsOrder (s : Session) : SessionEvent → Prop
  | .request _ req => s.KeepsOrder req
  | .protocolError _ => s.resp.slots = [] ∧ s.pendingCmds = []
  | .drain _ => ∀ req rest, s.draining = req :: rest → s.KeepsOrder req.body
  | _ => True

/-- The invariant of runs that keep the order. -/
structure OrderInv (s : Session) : Prop where
  log : s.LogOk
  sorted : s.line.Pairwise (· ≤ ·)
  bounded : ∀ r ∈ s.line, r < s.arrived

theorem OrderInv.quiet (h : s.OrderInv) (hyields : Yields 0 s next) : next.OrderInv := by
  have hline : next.line = s.line := by
    rw [line, hyields.answers h.log, hyields.waiting, List.replicate_zero, List.append_nil, line]
  refine ⟨hyields.logOk h.log, ?_, ?_⟩
  · rw [hline]
    exact h.sorted
  rw [hline, hyields.arrived]
  exact h.bounded

/-- Answering a request several times keeps a line in order. -/
private theorem pairwise_replicate (n : ℕ) (h : (l ++ a :: rest).Pairwise (· ≤ ·)) :
    (l ++ (List.replicate n a ++ rest)).Pairwise (· ≤ ·) := by
  rw [List.pairwise_append, List.pairwise_cons] at h
  obtain ⟨hl, ⟨ha, hrest⟩, hbetween⟩ := h
  rw [List.pairwise_append, List.pairwise_append]
  refine ⟨hl, ⟨?_, hrest, ?_⟩, ?_⟩
  · exact List.pairwise_replicate.mpr (Or.inr le_rfl)
  · intro b hb r hr
    rw [List.eq_of_mem_replicate hb]
    exact ha r hr
  intro x hx r hr
  rcases List.mem_append.mp hr with hr | hr
  · rw [List.eq_of_mem_replicate hr]
    exact hbetween x hx a (by simp)
  · exact hbetween x hx r (by simp [hr])

/-- The invariant after a request has taken its place in the line. -/
private theorem orderInv_of_line (hlog : next.LogOk) (hsorted : (l ++ a :: rest).Pairwise (· ≤ ·))
    (hbounded : ∀ r ∈ l ++ a :: rest, r < next.arrived)
    (hline : next.line.Sublist (l ++ (List.replicate n a ++ rest))) : next.OrderInv := by
  refine ⟨hlog, (pairwise_replicate n hsorted).sublist hline, fun r hr => hbounded r ?_⟩
  have hmem := hline.subset hr
  simp only [List.mem_append, List.mem_replicate, List.mem_cons] at hmem ⊢
  tauto

/-- The invariant after the answers to a new request. -/
private theorem OrderInv.extend (h : s.OrderInv) (hlog : next.LogOk)
    (harrived : next.arrived = s.arrived + 1)
    (hline : next.line.Sublist (s.line ++ (List.replicate n s.arrived ++ []))) : next.OrderInv := by
  refine orderInv_of_line hlog ?_ ?_ hline
  · rw [List.pairwise_append]
    refine ⟨h.sorted, List.pairwise_singleton _ _, fun r hr b hb => ?_⟩
    rw [List.mem_singleton.mp hb]
    exact (h.bounded r hr).le
  · intro r hr
    rw [harrived]
    rcases List.mem_append.mp hr with hr | hr
    · exact (h.bounded r hr).trans (Nat.lt_succ_self _)
    rw [List.mem_singleton.mp hr]
    exact Nat.lt_succ_self _

theorem OrderInv.onRequest (h : s.OrderInv) (hdraining : s.draining = [])
    (hkeeps : s.KeepsOrder req) : (s.onRequest cfg env req).OrderInv := by
  let served : Session := { s with serving := s.arrived, arrived := s.arrived + 1 }
  obtain ⟨hlog, harrived, n, hline⟩ :=
    line_dispatch (s := served) h.log cfg env ⟨s.arrived, req⟩ rfl hkeeps
  have hserved : served.draining = [] := hdraining
  have hbase : s.line = s.answers ++ s.pendingCmds.map Req.id := by
    simp [line, waiting, hdraining]
  have hnext : (served.dispatch cfg env ⟨s.arrived, req⟩).OrderInv := by
    rw [hserved] at hline
    refine h.extend (n := n) hlog harrived ?_
    rw [hbase]
    exact hline
  unfold Session.onRequest
  simp only
  split
  · exact hnext.quiet (stepRel_yields.onClientClose _)
  · exact hnext

theorem OrderInv.onDrain (h : s.OrderInv)
    (hkeeps : ∀ req rest, s.draining = req :: rest → s.KeepsOrder req.body) :
    (s.onDrain cfg env).OrderInv := by
  unfold Session.onDrain
  split
  · exact h
  rename_i req rest hdraining
  let served : Session := { s with serving := req.id, draining := rest }
  obtain ⟨hlog, harrived, n, hline⟩ :=
    line_dispatch (s := served) h.log cfg env req rfl (hkeeps req rest hdraining)
  have hbase : s.line = s.answers ++ s.pendingCmds.map Req.id ++ req.id :: rest.map Req.id := by
    simp [line, waiting, hdraining]
  have hnext : (served.dispatch cfg env req).OrderInv := by
    refine orderInv_of_line hlog ?_ ?_ hline
    · have hsorted := h.sorted
      rwa [hbase] at hsorted
    have hbounded := h.bounded
    rw [hbase] at hbounded
    rwa [harrived]
  simp only
  split
  · -- The requests that QUIT drops leave the line.
    have hsub : ({ served.dispatch cfg env req with draining := [] } : Session).line.Sublist
        (served.dispatch cfg env req).line := by
      simp only [line, waiting, List.append_nil, List.map_append]
      refine (List.Sublist.refl _).append ?_
      exact List.sublist_append_left _ _
    exact ⟨hnext.log, hnext.sorted.sublist hsub, fun r hr => hnext.bounded r (hsub.subset hr)⟩
  · exact hnext

theorem OrderInv.onProtocolError (h : s.OrderInv) (hslots : s.resp.slots = [])
    (hwaiting : s.waiting = []) (data : Bytes) :
    ({ s with serving := s.arrived, arrived := s.arrived + 1 }.write data).OrderInv := by
  let served : Session := { s with serving := s.arrived, arrived := s.arrived + 1 }
  have hyields : Yields 1 served (served.write data) := yields_write (s := served) hslots data
  have hserved : served.waiting = [] := hwaiting
  refine h.extend (n := 1) (hyields.logOk h.log) hyields.arrived ?_
  rw [line, hyields.answers h.log, hyields.waiting, hserved, line, hwaiting]
  simp only [List.map_nil, List.append_nil]
  exact List.Sublist.refl _

theorem OrderInv.exec {e : SessionEvent} (h : s.OrderInv) (hkeeps : s.StepKeepsOrder e) :
    (s.exec cfg e).OrderInv := by
  unfold Session.exec
  split
  · exact h
  split
  · rename_i hdraining
    cases e with
    | request env req => exact h.onRequest hdraining hkeeps
    | protocolError err =>
      have hwaiting : s.waiting = [] := by rw [waiting, hkeeps.2, hdraining, List.append_nil]
      exact (h.onProtocolError hkeeps.1 hwaiting _).quiet (stepRel_yields.onClientClose _)
    | _ => exact h.quiet (yields_onEvent s cfg rfl)
  · split
    · exact h.onDrain hkeeps
    · exact h

theorem orderInv_new (cfg : Config) (policy : GrowthPolicy) : (new cfg policy).OrderInv :=
  ⟨rfl, List.Pairwise.nil, fun _ hr => by cases hr⟩

/-- Replies leave in the order of the requests, in every run in which direct writes find no
reply outstanding and no request passes a buffered one. -/
theorem replies_in_request_order {cfg : Config} {policy : GrowthPolicy}
    {events : List SessionEvent}
    (hmeets : Runs.Meets (Session.exec cfg) StepKeepsOrder (new cfg policy) events) :
    (after cfg policy events).RepliesInOrder :=
  repliesInOrder_of_line
    (hmeets.invariant (fun _ _ => OrderInv.exec) (orderInv_new cfg policy)).sorted


/-- EXEC of an empty transaction is answered while the reply to a GET is outstanding. -/
theorem empty_exec_passes_get :
    let env := Env.oneNode (bytes "a:1")
    let get : Request := { args := [bytes "GET", bytes "x"], cmd := bytes "GET" }
    let multi : Request := { args := [bytes "MULTI"], cmd := bytes "MULTI" }
    let exec : Request := { args := [bytes "EXEC"], cmd := bytes "EXEC" }
    let s := after {} .doubling [.request env get, .request env multi, .request env exec]
    s.written.map Chunk.owner = [2] ∧ s.outstanding = [0, 1] ∧ ¬ s.RepliesInOrder := by
  intro env get multi exec s
  have hwritten : s.written.map Chunk.owner = [2] := by decide
  have houtstanding : s.outstanding = [0, 1] := by decide
  refine ⟨hwritten, houtstanding, fun h => ?_⟩
  obtain ⟨chunk, hchunk, howner⟩ := List.mem_map.mp (hwritten ▸ List.mem_singleton.mpr rfl)
  have hle := h.2 chunk hchunk 0 (by simp [houtstanding])
  omega

/-- A GET, and a MULTI and an EXEC after its reply. -/
theorem replies_in_request_order_get_multi :
    let env := Env.oneNode (bytes "a:1")
    let get : Request := { args := [bytes "GET", bytes "x"], cmd := bytes "GET" }
    let multi : Request := { args := [bytes "MULTI"], cmd := bytes "MULTI" }
    let exec : Request := { args := [bytes "EXEC"], cmd := bytes "EXEC" }
    let events : List SessionEvent := [.request env get, .request env multi,
      .muxReply 0 (bytes "$-1\r\n"), .task 0, .request env exec]
    Runs.Meets (Session.exec {}) StepKeepsOrder (new {} .doubling) events ∧
      (after {} .doubling events).RepliesInOrder := by
  intro env get multi exec events
  have hmulti : ¬ (Session.exec {} (new {} .doubling) (.request env get)).WritesDirectly multi := by
    rintro (hargs | hquit | ⟨⟨-, hexec, -⟩, -⟩)
    · cases hargs
    · exact absurd hquit (by decide)
    · exact absurd hexec (by decide)
  have hmeets : Runs.Meets (Session.exec {}) StepKeepsOrder (new {} .doubling) events :=
    ⟨⟨by decide, fun _ => ⟨rfl, rfl⟩, Or.inl rfl⟩,
      ⟨by decide, fun h => absurd h hmulti, Or.inl (by decide)⟩, trivial, trivial,
      ⟨by decide, fun _ => by decide +kernel, Or.inl (by decide +kernel)⟩, trivial⟩
  exact ⟨hmeets, replies_in_request_order hmeets⟩

end Session

end Pluster.Engine
