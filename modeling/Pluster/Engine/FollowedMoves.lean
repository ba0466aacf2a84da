import Pluster.Engine.SendCount
import Pluster.Engine.Awaited

/-!
# Redirections of WATCH and of blocking commands

A WATCH or a blocking command that is answered with MOVED is sent again to the node that the
reply names, by the callback of its reply. Nothing bounds how often. ASK is handed to the client,
and so is MOVED if the WATCH used a connection that was open already. A command is sent again
within a bound, and the client sees no redirection before, if the backends reply within it.
-/

namespace Pluster.Engine

open Proto GoStrings GoRuntime

variable {cb : Callback} {v : Value} {moved : Req → ℕ} {s : Session} {addr : Bytes}

/-- A well-formed MOVED or ASK error. -/
def isRedirection (v : Value) : Bool :=
  (v.isMovedError || v.isAskError) && (redirectionAddr v).isSome

namespace Callback

/-- The reply to a WATCH or to a blocking command. -/
def answers : Callback → Bool
  | .watchFirst _ _ | .watchReuse _ | .blocking _ => true
  | _ => false

/-- The request that a callback can send again. -/
def request : Callback → Option Req
  | .watchFirst req _ | .blocking req => some req
  | _ => none

end Callback

/-- What the replies to WATCH and to blocking commands have led to. -/
structure RedirectLog where
  /-- How often each request was sent again because of a redirection. -/
  moved : Req → ℕ := fun _ => 0
  /-- The replies that were filled into slots, with how often their requests had been sent
  again. -/
  filled : List (ℕ × Value) := []

/-- A reply is followed or filled into the slot. -/
def RedirectLog.step (s : Session) (log : RedirectLog) (e : SessionEvent) : RedirectLog :=
  match s.repliesTo e with
  | none => log
  | some (cb, v) =>
    match cb.follows v with
    | some req => { log with moved := Function.update log.moved req (log.moved req + 1) }
    | none =>
      if cb.answers then
        { log with filled := log.filled ++ [(cb.request.elim 0 log.moved, v)] }
      else log

theorem RedirectLog.moved_step (s : Session) (log : RedirectLog) (e : SessionEvent) (r : Req) :
    (log.step s e).moved r = log.moved r + (s.resent e).elim 0 (unit r) := by
  unfold RedirectLog.step Session.resent
  cases s.repliesTo e with
  | none => rfl
  | some reply =>
    simp only [Option.bind_some]
    cases hfollows : reply.1.follows reply.2 with
    | none =>
      simp only
      split <;> rfl
    | some req =>
      simp only [Option.elim_some, unit]
      by_cases hreq : req = r
      · subst hreq
        rw [Function.update_self, if_pos rfl]
      · rw [Function.update_of_ne (Ne.symm hreq), if_neg hreq, Nat.add_zero]

/-- No request was sent again more than `bound` times, and no redirection was filled into a slot
before the request had been sent again as often. -/
def FollowsWithin (bound : ℕ) (st : Session × RedirectLog) : Prop :=
  (∀ r, st.1.sends r ≤ bound + 1) ∧
    ∀ reply ∈ st.2.filled, isRedirection reply.2 = true → reply.1 = bound

/-- What a backend may reply: MOVED fewer times than `bound`, ASK afterwards only, and none of them
to a WATCH on a connection that was open already. -/
def RepliesWithin (bound : ℕ) (moved : Req → ℕ) (v : Value) : Callback → Prop
  | .watchFirst req _ =>
    (v.isMovedError = true → moved req < bound) ∧
      (v.isAskError = true ∧ isRedirection v = true → moved req = bound)
  | .blocking req =>
    (v.isMovedError = true ∧ isRedirection v = true → moved req < bound) ∧
      (v.isAskError = true ∧ isRedirection v = true → moved req = bound)
  | .watchReuse _ => isRedirection v = true → bound = 0
  | _ => True

/-- Every reply of a run is one that a backend may give. -/
def Within (bound : ℕ) (st : Session × RedirectLog) (e : SessionEvent) : Prop :=
  ∀ reply ∈ st.1.repliesTo e, RepliesWithin bound st.2.moved reply.2 reply.1

instance (bound : ℕ) (moved : Req → ℕ) (v : Value) :
    (cb : Callback) → Decidable (RepliesWithin bound moved v cb)
  | .watchFirst _ _ | .blocking _ => inferInstanceAs (Decidable (_ ∧ _))
  | .watchReuse _ => inferInstanceAs (Decidable (_ → _))
  | .ignore | .auth | .authThenBlocking _ | .multiStart _ _ | .execDone _ =>
    inferInstanceAs (Decidable True)

instance (bound : ℕ) (st : Session × RedirectLog) (e : SessionEvent) :
    Decidable (Within bound st e) :=
  inferInstanceAs (Decidable (∀ _ ∈ _, _))

/-- What holds of the log while the replies are within the bound. -/
structure RedirectLog.Ok (bound : ℕ) (log : RedirectLog) : Prop where
  moved : ∀ r, log.moved r ≤ bound
  filled : ∀ reply ∈ log.filled, isRedirection reply.2 = true → reply.1 = bound

namespace RedirectLog

variable {bound : ℕ} {log : RedirectLog} {s : Session} {e : SessionEvent}

/-- A request that is sent again was answered with MOVED. -/
theorem moved_lt {req : Req} (hfollows : cb.follows v = some req)
    (hwithin : RepliesWithin bound moved v cb) : moved req < bound := by
  cases cb with
  | watchFirst req' slotIdx =>
    simp only [Callback.follows] at hfollows
    split at hfollows
    · rename_i hmoved
      cases hfollows
      exact hwithin.1 hmoved
    · cases hfollows
  | blocking req' =>
    simp only [Callback.follows] at hfollows
    split at hfollows
    · rename_i hmoved
      cases hfollows
      rw [Bool.and_eq_true] at hmoved
      exact hwithin.1 ⟨hmoved.1, by simp [isRedirection, hmoved.1, hmoved.2]⟩
    · cases hfollows
  | _ => cases hfollows

/-- A redirection that is filled into a slot is an ASK, or the reply to a WATCH on a connection
that was open already. -/
theorem filled_eq (hfollows : cb.follows v = none) (hanswers : cb.answers = true)
    (hwithin : RepliesWithin bound moved v cb) (hredirection : isRedirection v = true) :
    cb.request.elim 0 moved = bound := by
  have hkind : v.isMovedError = true ∨ v.isAskError = true := by
    simp only [isRedirection, Bool.and_eq_true, Bool.or_eq_true] at hredirection
    exact hredirection.1
  have haddr : (redirectionAddr v).isSome = true := by
    simp only [isRedirection, Bool.and_eq_true] at hredirection
    exact hredirection.2
  cases cb with
  | watchFirst req slotIdx =>
    have hmoved : ¬ v.isMovedError = true := by simpa [Callback.follows] using hfollows
    exact hwithin.2 ⟨hkind.resolve_left hmoved, hredirection⟩
  | blocking req =>
    have hmoved : ¬ v.isMovedError = true := by
      intro hmoved
      simp [Callback.follows, hmoved, haddr] at hfollows
    exact hwithin.2 ⟨hkind.resolve_left hmoved, hredirection⟩
  | watchReuse slotIdx => exact (hwithin hredirection).symm
  | _ => cases hanswers

theorem Ok.step (h : log.Ok bound) (hwithin : Within bound (s, log) e) :
    (log.step s e).Ok bound := by
  unfold RedirectLog.step
  cases hreply : s.repliesTo e with
  | none => exact h
  | some reply =>
    obtain ⟨cb, v⟩ := reply
    have hcb : RepliesWithin bound log.moved v cb := hwithin (cb, v) hreply
    simp only
    cases hfollows : cb.follows v with
    | some req =>
      refine ⟨fun r => ?_, h.filled⟩
      by_cases hr : r = req
      · subst hr
        simp only [Function.update_self]
        exact moved_lt hfollows hcb
      simp only [Function.update_of_ne hr]
      exact h.moved r
    | none =>
      simp only
      split
      · rename_i hanswers
        refine ⟨h.moved, fun reply hmem hredirection => ?_⟩
        rcases List.mem_append.mp hmem with hold | hnew
        · exact h.filled reply hold hredirection
        obtain rfl := List.mem_singleton.mp hnew
        exact filled_eq hfollows hanswers hcb hredirection
      · exact h

end RedirectLog

namespace Session

theorem resp_onBackendClose (hblocking : s.blockingBackend = none) (c : ℕ) :
    (s.onBackendClose c).resp = s.resp := by
  unfold onBackendClose
  split
  · rfl
  split
  · rfl
  simp only [hblocking, reduceCtorEq, false_and, if_false]
  split <;> rfl

theorem resp_finishBlocking (s : Session) (c : ℕ) (v : Value) :
    (s.finishBlocking c v).resp =
      (s.resp.fillResponseSlotInLoop s.blockingSlotIdx (encodeValue v)).1 := by
  have hreturn : ∀ t : Session, t.blockingBackend = none →
      (t.returnBlockingConn c).resp = t.resp := by
    intro t ht
    unfold returnBlockingConn
    split
    · rfl
    split
    · exact resp_onBackendClose ht c
    split
    · rfl
    · exact resp_onBackendClose ht c
  exact hreturn _ rfl

/-- A reply to a WATCH or to a blocking command that is not followed is filled into the slot of
the command as it is. -/
theorem resp_respond {env : Env} {c slotIdx : ℕ} (hfollows : cb.follows v = none)
    (hanswers : cb.answers = true) (hslot : cb.slot s.blockingSlotIdx = some slotIdx) :
    (s.respond env c v cb).resp =
      (s.resp.fillResponseSlotInLoop slotIdx (encodeValue v)).1 := by
  cases cb with
  | watchFirst req idx =>
    cases hslot
    have hmoved : ¬ v.isMovedError = true := by simpa [Callback.follows] using hfollows
    rw [respond, if_neg hmoved]
    rfl
  | watchReuse idx =>
    cases hslot
    rfl
  | blocking req =>
    cases hslot
    rw [respond, handleBlockingResponse]
    split
    · rename_i hmoved
      cases haddr : redirectionAddr v with
      | none => exact resp_finishBlocking s c v
      | some addr => simp [Callback.follows, hmoved, haddr] at hfollows
    · exact resp_finishBlocking s c v
  | _ => cases hanswers

end Session

/-! ### Commands that are never at rest -/

/-- A redirection to another node. -/
def movedReply : Value := .error (bytes "MOVED 7 b:1")

/-- The blocking command that is sent from node to node. -/
def popRequest : Req := ⟨0, { args := [bytes "BLPOP", bytes "k", bytes "0"], cmd := bytes "BLPOP" }⟩

/-- The client sends the command, and its first connection opens. -/
def popOpened : List SessionEvent :=
  [.request (.oneNode (bytes "a:1")) popRequest.body, .opened 0]

/-- The replies of the first nodes, each of which names another one. -/
def movedRounds : ℕ → List SessionEvent
  | 0 => popOpened
  | n + 1 => movedRounds n ++ [.value (.oneNode (bytes "b:1")) n movedReply, .opened 0]

/-- The connection on which the command was sent. -/
def popConn (addr : Bytes) : Backend where
  kind := .blocking
  addr := addr
  pending := [.blocking popRequest]
  wire := [.blocking popRequest]

/-- The command waits for a reply on the last connection, and was sent on each of them. -/
structure Chasing (n : ℕ) (s : Session) : Prop where
  live : s.dead = false
  draining : s.draining = []
  dials : s.dials = []
  idle : s.idle = []
  next : s.nextConn = n + 1
  conn : ∃ addr, s.conns n = some (popConn addr)
  sends : s.sends popRequest = n + 1

namespace Chasing

variable {n : ℕ} {s : Session}

/-- The redirection closes the connection and dials the next one. -/
theorem exec_value (h : Chasing n s) (hconn : s.conns n = some (popConn addr)) :
    s.exec {} (.value (.oneNode (bytes "b:1")) n movedReply) =
      { s.setConn n { popConn addr with isClosed := true, pending := [] } with
        watchBackend := if s.watchBackend = some n then none else s.watchBackend
        multiBackend := if s.multiBackend = some n then none else s.multiBackend
        blockingBackend := none
        dials := [.blocking (bytes "b:1") popRequest] } := by
  have hmoved : movedReply.isMovedError = true := by decide
  have haddr : redirectionAddr movedReply = some (bytes "b:1") := by decide +kernel
  simp [Session.exec, h.live, h.draining, Session.onEvent, Session.onBackendValue, hconn, popConn,
    Session.respond, Session.handleBlockingResponse, hmoved, haddr, Session.onBackendClose,
    Session.setConn, Session.dialBlockingBackend, Session.takeIdle, h.idle, Session.forgetConn,
    Session.dialError, Env.oneNode, h.dials]

/-- The dial ends, and the command is sent. -/
theorem exec_opened {t : Session} (hlive : t.dead = false) (hdraining : t.draining = [])
    (hdials : t.dials = [.blocking addr popRequest]) :
    t.exec {} (.opened 0) =
      { t.setConn t.nextConn (popConn addr) with
        nextConn := t.nextConn + 1
        blockingBackend := some t.nextConn
        dials := [] } := by
  simp [Session.exec, hlive, hdraining, Session.onEvent, hdials, Session.onBackendOpen_blocking,
    Session.blockingConn, popConn, Backend.push, Session.setConn]

/-- A connection that changes, but not in what was sent on it. -/
theorem sends_setConn {b b' : Backend} (hconn : s.conns n = some b)
    (hsends : b'.sends popRequest = b.sends popRequest) (d : ℕ) :
    ((s.setConn n b').conns d).elim 0 (Backend.sends popRequest) =
      (s.conns d).elim 0 (Backend.sends popRequest) := by
  by_cases hd : d = n
  · subst hd
    rw [Session.setConn_self, hconn]
    exact hsends
  · rw [Session.setConn_of_ne s b' hd]

theorem round (h : Chasing n s) :
    Chasing (n + 1) (Runs.run (Session.exec {}) s
      [.value (.oneNode (bytes "b:1")) n movedReply, .opened 0]) := by
  obtain ⟨addr, hconn⟩ := h.conn
  have hkept : ∀ d, ((s.exec {} (.value (.oneNode (bytes "b:1")) n movedReply)).conns d).elim 0
      (Backend.sends popRequest) = (s.conns d).elim 0 (Backend.sends popRequest) := by
    rw [h.exec_value hconn]
    exact sends_setConn hconn rfl
  have hmid := h.exec_value hconn
  rw [Runs.run_cons, Runs.run_cons, Runs.run_nil]
  generalize s.exec {} (.value (.oneNode (bytes "b:1")) n movedReply) = mid at hkept hmid ⊢
  have hnext : mid.nextConn = n + 1 := by rw [hmid]; exact h.next
  have hlive : mid.dead = false := by rw [hmid]; exact h.live
  have hdraining : mid.draining = [] := by rw [hmid]; exact h.draining
  have hidle : mid.idle = [] := by rw [hmid]; exact h.idle
  have hdials : mid.dials = [.blocking (bytes "b:1") popRequest] := by rw [hmid]
  rw [exec_opened hlive hdraining hdials]
  refine ⟨hlive, hdraining, rfl, hidle, congrArg (· + 1) hnext, ⟨bytes "b:1", ?_⟩, ?_⟩
  · rw [← hnext]
    exact Session.setConn_self mid mid.nextConn (popConn (bytes "b:1"))
  change ∑ d ∈ Finset.range (mid.nextConn + 1),
    ((mid.setConn mid.nextConn (popConn (bytes "b:1"))).conns d).elim 0
      (Backend.sends popRequest) = n + 1 + 1
  have hbefore : ∑ d ∈ Finset.range (n + 1), (s.conns d).elim 0 (Backend.sends popRequest) =
      n + 1 := by
    rw [← h.next]
    exact h.sends.trans h.next.symm
  rw [hnext, Finset.sum_range_succ, Session.setConn_self]
  refine congrArg₂ (· + ·) (Eq.trans ?_ hbefore) rfl
  refine Finset.sum_congr rfl fun d hd => ?_
  have hlt : d < n + 1 := Finset.mem_range.mp hd
  rw [Session.setConn_of_ne _ _ (by omega), hkept d]

/-- After any number of redirections. -/
theorem movedRounds (n : ℕ) : Chasing n (Session.after {} .doubling (Engine.movedRounds n)) := by
  induction n with
  | zero =>
    refine ⟨?_, ?_, ?_, ?_, ?_, ⟨bytes "a:1", ?_⟩, ?_⟩ <;> decide +kernel
  | succ n ih =>
    rw [Session.after, Engine.movedRounds, Runs.run_append]
    exact ih.round

end Chasing

end Pluster.Engine
