import Pluster.Engine.StateSteps

/-!
# The replies of a session

Each reply is an immediate write or a response slot. The requests that own the
chunks written so far and the slots still in the queue are the answers of a
session. Every effect of a handler appends a fixed number of answers for the
request being served and keeps the requests that wait for their dispatch.
-/

namespace Pluster.Engine

open Proto GoStrings GoRuntime

variable {n : ℕ} {s t u next : Session}

namespace Session

/-- The requests that own the chunks written and the slots in the queue. -/
def answers (s : Session) : List ℕ := s.written.map Chunk.owner ++ s.owners.drop s.resp.base

/-- The requests that have been read and not dispatched yet. -/
def waiting (s : Session) : List Req := s.pendingCmds ++ s.draining

/-- Every slot has an owner. -/
def LogOk (s : Session) : Prop := s.owners.length = s.nextSlot

/-- The immediate writes to the client so far. -/
def directWrites (s : Session) : ℕ := s.written.countP fun chunk => chunk.slotIdx.isNone

/-- The immediate writes and the response slots so far. -/
def tally (s : Session) : ℕ := s.directWrites + s.nextSlot

/-- The fields that the replies depend on. -/
def replyPart (s : Session) :
    List Chunk × RespQueue × List ℕ × List Req × List Req × ℕ × ℕ :=
  (s.written, s.resp, s.owners, s.pendingCmds, s.draining, s.serving, s.arrived)

/-- Between two states the client gets `n` answers to the request being served, and the
same requests wait. -/
structure Yields (n : ℕ) (s next : Session) : Prop where
  tally : next.tally = s.tally + n
  buffered : next.pendingCmds.length ≤ s.pendingCmds.length
  waiting : next.waiting = s.waiting
  serving : next.serving = s.serving
  arrived : next.arrived = s.arrived
  logOk : s.LogOk → next.LogOk
  answers : s.LogOk → next.answers = s.answers ++ List.replicate n s.serving

theorem Yields.trans {m : ℕ} (h : Yields m s t) (h' : Yields n t u) : Yields (m + n) s u where
  tally := by rw [h'.tally, h.tally, Nat.add_assoc]
  buffered := h'.buffered.trans h.buffered
  waiting := h'.waiting.trans h.waiting
  serving := h'.serving.trans h.serving
  arrived := h'.arrived.trans h.arrived
  logOk hlog := h'.logOk (h.logOk hlog)
  answers hlog := by
    rw [h'.answers (h.logOk hlog), h.answers hlog, h.serving, List.append_assoc,
      List.replicate_append_replicate]

/-- A change of other fields yields nothing. -/
theorem Yields.none (hsame : next.replyPart = s.replyPart) : Yields 0 s next := by
  simp only [replyPart, Prod.mk.injEq] at hsame
  obtain ⟨hwritten, hresp, howners, hpending, hdraining, hserving, harrived⟩ := hsame
  refine ⟨?_, by rw [hpending], ?_, hserving, harrived, fun hlog => ?_, fun _ => ?_⟩
  · simp only [Session.tally, directWrites, nextSlot, hwritten, hresp, Nat.add_zero]
  · simp only [Session.waiting, hpending, hdraining]
  · simpa only [LogOk, nextSlot, howners, hresp] using hlog
  · simp only [Session.answers, hwritten, howners, hresp, List.replicate_zero, List.append_nil]

/-- First nothing, then some answers. -/
theorem Yields.quiet_trans (h : Yields 0 s t) (h' : Yields n t u) : Yields n s u := by
  have hall := h.trans h'
  rwa [Nat.zero_add] at hall

/-- First some answers, then a change of other fields. -/
theorem Yields.then_same (h : Yields n s t) (hsame : next.replyPart = t.replyPart) :
    Yields n s next :=
  h.trans (.none hsame)

/-- First a change of other fields, then some answers. -/
theorem Yields.from_same (h : Yields n t next) (hsame : t.replyPart = s.replyPart) :
    Yields n s next :=
  (Yields.none hsame).quiet_trans h

/-! ### Writes and slots -/

theorem tally_write (s : Session) (data : Bytes) : (s.write data).tally = s.tally + 1 := by
  simp only [tally, directWrites, nextSlot, write, List.countP_append]
  simp
  omega

/-- An immediate write comes before the slots of the queue. -/
theorem answers_write (s : Session) (data : Bytes) :
    (s.write data).answers =
      s.written.map Chunk.owner ++ s.serving :: s.owners.drop s.resp.base := by
  simp [answers, write]

theorem drop_owners_of_slots_nil (hlog : s.LogOk) (hslots : s.resp.slots = []) :
    s.owners.drop s.resp.base = [] := by
  rw [LogOk, nextSlot, hslots, List.length_nil, Nat.add_zero] at hlog
  rw [← hlog, List.drop_length]

theorem yields_write (hslots : s.resp.slots = []) (data : Bytes) : Yields 1 s (s.write data) := by
  refine ⟨tally_write s data, le_rfl, rfl, rfl, rfl, id, fun hlog => ?_⟩
  rw [answers_write, answers, drop_owners_of_slots_nil hlog hslots]
  simp

theorem yields_allocResponseSlot (s : Session) : Yields 1 s s.allocResponseSlot := by
  refine ⟨?_, le_rfl, rfl, rfl, rfl, fun hlog => ?_, fun hlog => ?_⟩
  · simp only [Session.tally, directWrites, nextSlot, allocResponseSlot,
      RespQueue.allocResponseSlot, List.length_append, List.length_singleton]
    omega
  · simp only [LogOk, nextSlot, allocResponseSlot, RespQueue.allocResponseSlot,
      List.length_append, List.length_singleton] at hlog ⊢
    omega
  have hle : s.resp.base ≤ s.owners.length := by
    rw [LogOk, nextSlot] at hlog
    omega
  simp only [Session.answers, allocResponseSlot, RespQueue.allocResponseSlot]
  rw [List.drop_append_of_le_length hle]
  simp

theorem yields_writeImmediate (s : Session) (data : Bytes) :
    Yields 1 s (s.writeImmediate data) := by
  unfold writeImmediate
  split
  · rename_i hslots
    exact yields_write hslots data
  · exact (yields_allocResponseSlot s).then_same rfl

theorem yields_foldl_writeImmediate (data : List Bytes) (s : Session) :
    Yields data.length s (data.foldl writeImmediate s) := by
  induction data generalizing s with
  | nil => exact .none rfl
  | cons d data ih =>
    rw [List.foldl_cons, List.length_cons, Nat.add_comm]
    exact (yields_writeImmediate s d).trans (ih _)

theorem directWrites_slotChunks (s : Session) (chunks : List Bytes) :
    (s.slotChunks chunks).countP (fun chunk => chunk.slotIdx.isNone) = 0 := by
  rw [List.countP_eq_zero]
  intro chunk hchunk
  obtain ⟨x, -, rfl⟩ := List.mem_map.mp hchunk
  simp

/-- The chunks of slots have the owners of the slots. -/
theorem owner_slotChunks {chunks : List Bytes}
    (hle : s.resp.base + chunks.length ≤ s.owners.length) :
    (s.slotChunks chunks).map Chunk.owner = (s.owners.drop s.resp.base).take chunks.length := by
  apply List.ext_getElem?
  intro i
  simp only [slotChunks, List.getElem?_map, List.getElem?_zipIdx, List.getElem?_take,
    List.getElem?_drop]
  by_cases hi : i < chunks.length
  · have hin : s.resp.base + i < s.owners.length := by omega
    simp [hi, List.getElem?_eq_getElem hin]
  · simp [hi]

/-- Completing slots moves their owners to the chunks written. -/
theorem yields_complete {result : RespQueue × List Bytes} (h : s.resp.Advances result) :
    Yields 0 s (s.complete result) := by
  have hbase := h.base
  have htotal := h.total
  refine ⟨?_, le_rfl, rfl, rfl, rfl, fun hlog => ?_, fun hlog => ?_⟩
  · simp only [Session.tally, directWrites, nextSlot, complete, List.countP_append,
      directWrites_slotChunks, htotal, Nat.add_zero]
  · simp only [LogOk, nextSlot, complete] at hlog ⊢
    omega
  rw [LogOk, nextSlot] at hlog
  have hle : s.resp.base + result.2.length ≤ s.owners.length := by omega
  simp only [Session.answers, complete, List.map_append, owner_slotChunks hle, hbase,
    List.replicate_zero, List.append_nil, List.append_assoc]
  rw [← List.drop_drop, List.take_append_drop]

/-! ### Steps of events -/

/-- The steps of events yield nothing. -/
theorem stepRel_yields : StepRel (Yields 0) where
  trans := Yields.trans
  same hsame := by
    simp only [clientPart, Prod.mk.injEq] at hsame
    obtain ⟨-, -, -, -, -, hresp, hwritten, howners, hpending, hdraining, hserving, harrived, -⟩ :=
      hsame
    exact .none (by simp only [replyPart, *])
  fill s slotIdx data :=
    yields_complete (RespQueue.fillResponseSlotInLoop_advances s.resp slotIdx data)
  muxReply s entry data := by
    unfold onMuxReply
    split
    · exact yields_complete (RespQueue.accumulateResponseSlot_advances _ _ _)
    · exact yields_complete (RespQueue.accumulateFanInSubResponse_advances _ _ _ _)
  unblock _ := .none rfl
  watch _ := .none rfl
  drain s := by
    refine ⟨rfl, by simp [drainPendingCmds], by simp [Session.waiting, drainPendingCmds], rfl, rfl,
      id, fun _ => ?_⟩
    simp [Session.answers, drainPendingCmds]
  close _ := .none rfl

/-! ### Plans -/

theorem yields_startWatch (s : Session) (env : Env) (req : Req) (addr : Bytes) :
    Yields 1 s (s.startWatch env req addr) := by
  have halloc := yields_allocResponseSlot s
  unfold startWatch
  split
  · split
    · exact halloc.trans (stepRel_yields.request _ _ _ _)
    have hdrop := halloc.trans (stepRel_yields.dropWatch _)
    exact hdrop.trans (stepRel_yields.dialWatch _ env req _ addr)
  · exact halloc.trans (stepRel_yields.dialWatch _ env req _ addr)

theorem yields_handleUNWATCH (s : Session) : Yields 1 s s.handleUNWATCH := by
  unfold handleUNWATCH
  refine Yields.quiet_trans (Yields.trans ?_ (stepRel_yields.dropWatch _))
    ((yields_writeImmediate _ okReply).from_same rfl)
  split
  · exact .none rfl
  · exact stepRel_yields.request s _ _ _

theorem yields_sendFanOut (s : Session) (sends : List (Bytes × Request))
    (mergeFunc : List SubResponse → Bytes) : Yields 1 s (s.sendFanOut sends mergeFunc) := by
  obtain ⟨htally, hbuffered, hwaiting, hserving, harrived, hlog, hanswers⟩ :=
    yields_allocResponseSlot s
  refine ⟨?_, hbuffered, hwaiting, hserving, harrived, fun h => ?_, hanswers⟩
  · rw [← htally]
    simp only [Session.tally, directWrites, nextSlot, sendFanOut, RespQueue.attachFanIn,
      List.length_modify]
  have hslots := hlog h
  simpa only [LogOk, nextSlot, sendFanOut, RespQueue.attachFanIn, List.length_modify]
    using hslots

end Session

/-- The answers of a plan, a buffered request counted as one. -/
def Plan.units : Plan → ℕ
  | .replies _ data => data.length
  | .subscribe | .unsubscribe | .push _ | .panic => 0
  | _ => 1

/-- The plan writes to the socket without a look at the queue. -/
def Plan.writesDirectly : Plan → Bool
  | .write _ | .quit | .execEmpty => true
  | _ => false

namespace Session

/-- The answers of a plan other than RESET and a buffered request, if a direct write finds
no slot in the queue. -/
theorem yields_perform (s : Session) (env : Env) (req : Req) {plan : Plan}
    (hdirect : plan.writesDirectly = true → s.resp.slots = []) (hreset : plan ≠ .reset)
    (hbuffer : plan ≠ .buffer) : Yields plan.units s (s.perform env req plan) := by
  have hleave : ∀ t : Session, Yields 0 t t.leaveMulti := fun _ => .none rfl
  cases plan with
  | reply data => exact yields_writeImmediate s data
  | replies loc data =>
    have hloc : Yields 0 s { s with loc } := .none rfl
    exact hloc.quiet_trans (yields_foldl_writeImmediate data _)
  | buffer => exact absurd rfl hbuffer
  | write data => exact yields_write (hdirect rfl) data
  | quit => exact yields_write (hdirect rfl) okReply
  | reset => exact absurd rfl hreset
  | enterMulti state => exact (yields_writeImmediate _ okReply).from_same rfl
  | watch addr => exact yields_startWatch s env req addr
  | unwatch => exact yields_handleUNWATCH s
  | subscribe | unsubscribe | push data | panic => exact .none rfl
  | router | mux addr => exact (yields_allocResponseSlot s).then_same rfl
  | fanOut sends mergeFunc => exact yields_sendFanOut s sends mergeFunc
  | blocking addr =>
    have hdial := stepRel_yields.dialBlockingBackend
      { s.allocResponseSlot with state := .blocking, blockingSlotIdx := s.nextSlot } env addr req
    exact (yields_allocResponseSlot s).trans (hdial.from_same rfl)
  | queue => exact (yields_writeImmediate _ _).from_same rfl
  | queueError data | execError data => exact (yields_writeImmediate _ data).from_same rfl
  | execAbort =>
    have hdrop := ((hleave s).trans (stepRel_yields.dropWatch _)).trans (stepRel_yields.dropMulti _)
    exact hdrop.quiet_trans (yields_writeImmediate _ _)
  | execWatched c =>
    have halloc := yields_allocResponseSlot { s.leaveMulti with watchBackend := none, watchAddr := [] }
    exact (halloc.trans (stepRel_yields.request _ c _ _)).from_same rfl
  | execEmpty => exact (yields_write (s := s.leaveMulti) (hdirect rfl) _).from_same rfl
  | execReuse c =>
    have halloc := yields_allocResponseSlot { s.leaveMulti with multiBackend := none }
    exact (halloc.trans (stepRel_yields.request _ c _ _)).from_same rfl
  | execDial addr =>
    have hleft := (stepRel_yields.dropMulti s).trans (hleave _)
    have halloc := hleft.quiet_trans (yields_allocResponseSlot _)
    refine halloc.trans (n := 0) ?_
    simp only [perform, dialMultiBackend]
    split <;> exact .none rfl
  | discard =>
    have hdrop := ((stepRel_yields.dropWatch s).trans (stepRel_yields.dropMulti _)).trans (hleave _)
    exact hdrop.quiet_trans (yields_writeImmediate _ okReply)

/-- Outside a blocking command, closing a connection does not touch the replies. -/
theorem closeConn_of_not_blocking (hstate : s.state ≠ .blocking) (c : Option ℕ) :
    (s.closeConn c).replyPart = s.replyPart ∧ (s.closeConn c).state = s.state := by
  cases c with
  | none => exact ⟨rfl, rfl⟩
  | some c =>
    simp only [closeConn, onBackendClose, hstate, and_false, if_false]
    split
    · exact ⟨rfl, rfl⟩
    split
    · exact ⟨rfl, rfl⟩
    · split <;> exact ⟨rfl, rfl⟩

private theorem resetClientState_replyPart (s : Session) :
    s.resetClientState.replyPart = { s with pendingCmds := [] }.replyPart := by
  have hleave : s.leaveMulti.state ≠ .blocking := by simp [leaveMulti]
  obtain ⟨hwatch, hstate₁⟩ := closeConn_of_not_blocking hleave s.leaveMulti.watchBackend
  have hmulti := closeConn_of_not_blocking (s := s.leaveMulti.dropWatch)
    (by rw [dropWatch, hstate₁]; exact hleave) s.leaveMulti.dropWatch.multiBackend
  have hblocking := closeConn_of_not_blocking (s := s.leaveMulti.dropWatch.dropMulti)
    (by rw [dropMulti, hmulti.2, dropWatch, hstate₁]; exact hleave)
    s.leaveMulti.dropWatch.dropMulti.blockingBackend
  have hall : s.leaveMulti.dropWatch.dropMulti.dropBlocking.replyPart = s.replyPart :=
    (hblocking.1.trans hmulti.1).trans hwatch
  simp only [replyPart, Prod.mk.injEq] at hall ⊢
  obtain ⟨hwritten, hresp, howners, -, hdraining, hserving, harrived⟩ := hall
  exact ⟨hwritten, hresp, howners, rfl, hdraining, hserving, harrived⟩

/-- RESET forgets the buffered requests and answers. -/
theorem yields_reset (s : Session) (env : Env) (req : Req) :
    Yields 1 { s with pendingCmds := [] } (s.perform env req .reset) :=
  (yields_writeImmediate _ _).from_same (resetClientState_replyPart s)

end Session

/-- The client sends something that is answered. -/
def SessionEvent.isInput : SessionEvent → Bool
  | .request _ _ | .protocolError _ => true
  | _ => false

namespace Session

/-- An event that is not an input of the client adds no answer. -/
theorem yields_onEvent (s : Session) (cfg : Config) {e : SessionEvent} (he : e.isInput = false) :
    Yields 0 s (s.onEvent cfg e) := by
  cases e with
  | request env req | protocolError err => cases he
  | drain env | hubOpened | hubClosed | hubDialFailed | maxClientsSet n => exact .none rfl
  | _ => exact stepRel_yields.onEvent s cfg rfl rfl

end Session

end Pluster.Engine
