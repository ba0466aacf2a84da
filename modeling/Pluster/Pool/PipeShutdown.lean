import Pluster.Pool.PipeOrderly

/-!
# Shutting a pipelined pool down

If the pool is closed in order every call of `Do` returns: the callers and the connections
make only so many steps on their own, and where they stop nobody waits. Otherwise `do` sends
on a closed channel, or `loop` leaves with the requests of a batch that is not full.
-/

namespace Pluster.Pool

open Proto

variable {c : LoopConn} {events : List PipeEvent}

/-- A step of a caller or of the `loop` of a connection. -/
def PipeEvent.isInternal : PipeEvent → Bool
  | .pick _ | .send _ | .receive _ | .drain _ | .serve _ _ | .answer _ => true
  | _ => false

/-- A bound for the steps that a caller can make before its request is taken. -/
def DoPhase.weight : DoPhase → ℕ
  | .calling => 7
  | .sending _ => 6
  | _ => 0

namespace LoopConn

/-- A bound for the steps that `loop` can make with the requests it has. -/
def weight (c : LoopConn) : ℕ :=
  5 * c.queue.length + match c.loop with
    | .receiving => 1
    | .collecting pending => pending.length + 4
    | .batched pending => pending.length + 3
    | .answering todo => todo.length + 2
    | .ended => 0

theorem receive_weight (c : LoopConn) : c.receive = c ∨ c.receive.weight < c.weight := by
  unfold LoopConn.receive
  split
  · rename_i i queue hloop hqueue
    right
    simp only [weight, hloop, hqueue, List.length_cons, List.length_nil]
    omega
  · rename_i hloop hqueue
    split
    · right
      simp [weight, hloop]
    · exact .inl rfl
  · exact .inl rfl

theorem drain_weight (c : LoopConn) : c.drain = c ∨ c.drain.weight < c.weight := by
  unfold LoopConn.drain
  split
  · rename_i pending hloop
    right
    split
    · split
      · rename_i i queue hqueue
        simp only [weight, hloop, hqueue, List.length_cons, List.length_append, List.length_nil]
        omega
      · split <;> simp only [weight, hloop] <;> omega
    · simp only [weight, hloop]
      omega
  · exact .inl rfl

theorem serve_weight (addr : Bytes) (data : ℕ → Bytes) (io : TurnIO) (c : LoopConn) :
    c.serve addr data io = c ∨ (c.serve addr data io).weight < c.weight := by
  unfold LoopConn.serve
  split
  · rename_i pending hloop
    right
    simp only [weight, hloop, List.length_zip, length_turn, List.length_map, Nat.min_self]
    omega
  · exact .inl rfl

theorem drain_ne {pending : List ℕ} (hloop : c.loop = .collecting pending) :
    c.drain.loop ≠ c.loop := by
  unfold LoopConn.drain
  rw [hloop]
  dsimp only
  split
  · split
    · simp
    · split <;> nofun
  · nofun

/-- A connection whose `loop` can make no step holds no request. -/
theorem Ok.idle (h : c.Ok) (hreceive : c.receive = c) (hdrain : c.drain = c) {addr : Bytes}
    {data : ℕ → Bytes} {io : TurnIO} (hserve : c.serve addr data io = c)
    (hanswer : ∀ todo, c.loop ≠ .answering todo) : c.held = [] := by
  cases hloop : c.loop with
  | receiving =>
    cases hqueue : c.queue with
    | nil => simp [held, hloop, hqueue]
    | cons i queue =>
      have hnext : c.receive.loop = .collecting [i] := by simp [LoopConn.receive, hloop, hqueue]
      rw [hreceive, hloop] at hnext
      cases hnext
  | collecting pending => exact absurd (congrArg LoopConn.loop hdrain) (drain_ne hloop)
  | batched pending =>
    have hsame := congrArg LoopConn.loop hserve
    simp [LoopConn.serve, hloop] at hsame
  | answering todo => exact absurd hloop (hanswer todo)
  | ended => simp [held, hloop, (h.ended hloop).2]

end LoopConn

namespace PipePool

variable {s s' : PipePool} {e : PipeEvent} {i k : ℕ} {caller : PipeCaller} {c c' : LoopConn}

/-- A bound for the steps that the callers and the connections can make on their own. -/
def potential (s : PipePool) : ℕ :=
  (s.conns.map LoopConn.weight).sum + (s.callers.map fun caller => caller.phase.weight).sum

theorem potential_onConn (hk : s.conns[k]? = some c) (hweight : c' = c ∨ c'.weight < c.weight) :
    ({ s with conns := s.conns.set k c' } : PipePool) = s ∨
      ({ s with conns := s.conns.set k c' } : PipePool).potential < s.potential := by
  refine hweight.imp (fun hsame => ?_) fun hlt => ?_
  · obtain ⟨hk, rfl⟩ := List.getElem?_eq_some_iff.mp hk
    rw [hsame, List.set_getElem_self]
  have hset := Parties.sum_map_set LoopConn.weight hk c'
  simp only [potential]
  omega

theorem callers_weight (hi : s.callers[i]? = some caller) (phase : DoPhase) :
    ((s.callers.set i { caller with phase }).map fun caller => caller.phase.weight).sum +
        caller.phase.weight =
      (s.callers.map fun caller => caller.phase.weight).sum + phase.weight :=
  Parties.sum_map_set (fun caller : PipeCaller => caller.phase.weight) hi { caller with phase }

/-- A response does not move its caller. -/
theorem callers_weight_modify (callers : List PipeCaller) (i : ℕ) (resp : PipeResp) :
    ((callers.modify i fun caller => { caller with resps := caller.resps ++ [resp] }).map
      fun caller => caller.phase.weight) = callers.map fun caller => caller.phase.weight := by
  refine List.ext_getElem? fun j => ?_
  simp only [List.getElem?_map, List.getElem?_modify, Option.map_eq_map, Option.map_map]
  congr 1
  funext caller
  simp only [Function.comp]
  split <;> rfl

/-- A step of a caller or of a connection uses up some of the bound. -/
theorem potential_lt (hstep : Step s e s') (hinternal : e.isInternal = true) :
    s' = s ∨ s'.potential < s.potential := by
  cases hstep with
  | same => exact .inl rfl
  | callDo | callClose _ | closesConn _ _ | returns _ _ | awaited _ _ _ => cases hinternal
  | picks hi hphase _ =>
    have hcallers := callers_weight hi (.sending (s.idx % s.size))
    rw [hphase] at hcallers
    change _ + 7 = _ + 6 at hcallers
    right
    simp only [potential]
    omega
  | panics hi hphase _ _ =>
    have hcallers := callers_weight hi .panicked
    rw [hphase] at hcallers
    change _ + 6 = _ + 0 at hcallers
    right
    simp only [potential]
    omega
  | @sends i k caller c hi hphase hk _ _ =>
    have hcallers := callers_weight hi .waiting
    rw [hphase] at hcallers
    change _ + 6 = _ + 0 at hcallers
    have hconns := Parties.sum_map_set LoopConn.weight hk { c with queue := c.queue ++ [i] }
    have hqueue : ({ c with queue := c.queue ++ [i] } : LoopConn).weight = c.weight + 5 := by
      simp only [LoopConn.weight, List.length_append, List.length_singleton]
      omega
    right
    simp only [potential]
    omega
  | receives hk => exact potential_onConn hk (LoopConn.receive_weight _)
  | drains hk => exact potential_onConn hk (LoopConn.drain_weight _)
  | serves hk => exact potential_onConn hk (LoopConn.serve_weight _ _ _ _)
  | finishes hk hloop =>
    refine potential_onConn hk (.inr ?_)
    simp [LoopConn.weight, hloop]
  | @answers k i resp todo c hk hloop =>
    have hconns := Parties.sum_map_set LoopConn.weight hk { c with loop := .answering todo }
    have hlt : ({ c with loop := .answering todo } : LoopConn).weight < c.weight := by
      simp [LoopConn.weight, hloop]
    right
    simp only [potential, callers_weight_modify]
    omega

/-- A step that a caller or a connection makes. -/
def Moves (s : PipePool) (e : PipeEvent) : Prop := e.isInternal = true ∧ s.exec e ≠ s

/-- No caller and no connection can make a step. -/
def Still (s : PipePool) : Prop := ∀ e : PipeEvent, e.isInternal = true → s.exec e = s

theorem length_le_potential (h : Runs.Meets exec Moves s events) : events.length ≤ s.potential := by
  induction events generalizing s with
  | nil => exact Nat.zero_le _
  | cons e events ih =>
    have hlt := (potential_lt (exec_step s e) h.1.1).resolve_left h.1.2
    have hrest := ih h.2
    rw [List.length_cons]
    omega

theorem Guarded.moves (h : s.Guarded) (hmoves : Runs.Meets PipePool.exec Moves s events) :
    (Runs.run PipePool.exec s events).Guarded := by
  have hstep : ∀ (s : PipePool) e, s.Guarded → s.Moves e → (s.exec e).Guarded := by
    intro s e h hmoves
    have horderly : s.Orderly e := by
      cases e <;> first | trivial | cases hmoves.1
    exact h.exec horderly
  exact hmoves.invariant hstep h

/-- When no `loop` can make a step, the connections hold no request. -/
theorem Guarded.held_of_still (h : s.Guarded) (hstill : s.Still) (hk : s.conns[k]? = some c) :
    c.held = [] := by
  have hstays {f : LoopConn → LoopConn} (hsame : s.onConn k f = s) : f c = c := by
    have hconns := congrArg (fun s : PipePool => s.conns[k]?) hsame
    simp only [PipePool.onConn, hk] at hconns
    rw [List.getElem?_set_self (List.getElem?_eq_some_iff.mp hk).1] at hconns
    exact Option.some.inj hconns
  have hserve := hstays (hstill (.serve k { reads := fun _ => .error [] }) rfl)
  refine (h.shape.conns k c hk).idle (hstays (hstill (.receive k) rfl))
    (hstays (hstill (.drain k) rfl)) hserve fun todo hloop => ?_
  obtain ⟨queue, closed, loop, connected⟩ := c
  cases hloop
  have hsame := congrArg (fun s : PipePool => s.conns[k]?) (hstill (.answer k) rfl)
  have hlt := (List.getElem?_eq_some_iff.mp hk).1
  cases todo with
  | nil =>
    have hexec : (s.exec (.answer k)).conns = s.conns.set k ⟨queue, closed, .receiving, connected⟩ := by
      simp only [PipePool.exec, hk]
    simp only [hexec, List.getElem?_set_self hlt, hk] at hsame
    cases hsame
  | cons first todo =>
    have hexec : (s.exec (.answer k)).conns =
        s.conns.set k ⟨queue, closed, .answering todo, connected⟩ := by
      simp only [PipePool.exec, hk]
    simp only [hexec, List.getElem?_set_self hlt, hk] at hsame
    simp at hsame

/-- When nobody can make a step, every call has its response. -/
theorem Guarded.answered_of_still (h : s.Guarded) (hstill : s.Still)
    (hi : s.callers[i]? = some caller) : ∃ resp, caller.resps = [resp] := by
  have hplaced : s.placed i = 0 := by
    by_contra hpos
    obtain ⟨n, hn, hn'⟩ := List.sum_pos_iff_exists_pos_nat.mp (Nat.pos_of_ne_zero hpos)
    obtain ⟨c, hc, rfl⟩ := List.mem_map.mp hn
    obtain ⟨k, hk⟩ := List.mem_iff_getElem?.mp hc
    rw [h.held_of_still hstill hk] at hn'
    cases hn'
  have howed : caller.owed = 0 := by
    rw [← owed_of_some hi]
    exact Nat.le_zero.mp (hplaced ▸ h.covered i)
  cases hphase : caller.phase with
  | calling =>
    have huncalled := h.shape.calling i caller hi hphase
    have hsame := congrArg PipePool.idx (hstill (.pick i) rfl)
    obtain ⟨data, phase, resps⟩ := caller
    cases hphase
    simp [PipePool.exec, hi, huncalled] at hsame
  | sending k =>
    obtain ⟨c, hk, hopen⟩ := h.shape.sending i caller k hi hphase
    have hqueue : c.queue = [] := by
      have := h.held_of_still hstill hk
      exact (List.append_eq_nil_iff.mp this).1
    have hlt := (List.getElem?_eq_some_iff.mp hi).1
    obtain ⟨data, phase, resps⟩ := caller
    cases hphase
    have hexec : (s.exec (.send i)).callers = s.callers.set i ⟨data, .waiting, resps⟩ := by
      simp [PipePool.exec, hi, hk, hopen, hqueue, reqChSize]
    have hsame := congrArg (fun s : PipePool => s.callers[i]?) (hstill (.send i) rfl)
    simp only [hexec, List.getElem?_set_self hlt, hi] at hsame
    cases hsame
  | waiting =>
    obtain ⟨hle, -⟩ := h.fair.single i caller hi
    cases hresps : caller.resps with
    | nil => simp [PipeCaller.owed, hphase, hresps] at howed
    | cons resp resps =>
      rw [hresps, List.length_cons] at hle
      have hnil : resps = [] := List.length_eq_zero_iff.mp (by omega)
      exact ⟨resp, by rw [hnil]⟩
  | panicked => exact absurd hphase (h.shape.calm i caller hi)

/-- In every state of an orderly run no caller has sent on a closed channel and none has two
responses. However the callers and the connections go on from there, they come to an end, and
then every call has exactly one response. -/
theorem every_call_answered (addr : Bytes) (size : ℤ) (events : List PipeEvent)
    (horderly : Runs.Meets exec Orderly (new addr size) events) :
    let s := Runs.run exec (new addr size) events
    (∀ (i : ℕ) (caller : PipeCaller), s.callers[i]? = some caller →
      caller.phase ≠ .panicked ∧ caller.resps.length ≤ 1) ∧
      ∀ later, Runs.Meets exec Moves s later →
        later.length ≤ s.potential ∧
          ((Runs.run exec s later).Still → ∀ (i : ℕ) (caller : PipeCaller),
            (Runs.run exec s later).callers[i]? = some caller → ∃ resp, caller.resps = [resp]) := by
  intro s
  have hstep : ∀ (s : PipePool) e, s.Guarded → s.Orderly e → (s.exec e).Guarded :=
    fun _ _ h horderly => h.exec horderly
  have hinv : s.Guarded := horderly.invariant hstep (guarded_new addr size)
  refine ⟨fun i caller hi => ?_, fun later hmoves => ?_⟩
  · exact ⟨hinv.shape.calm i caller hi, (hinv.fair.single i caller hi).1⟩
  refine ⟨length_le_potential hmoves, fun hstill i caller hi => ?_⟩
  exact (hinv.moves hmoves).answered_of_still hstill hi

/-- A request is in the channel when `Close` is called, and `loop` puts it into a batch before
the channel is closed. -/
theorem every_call_answered_close :
    let events : List PipeEvent := [.callDo [], .pick 0, .send 0, .callClose, .receive 0, .drain 0,
      .closeConn]
    let s := Runs.run exec (new [] 1) events
    s.closer = .awaiting 0 ∧ (∀ caller ∈ s.callers, caller.phase = .waiting ∧ caller.resps.length ≤ 1)
    := by
  intro events s
  have horderly : Runs.Meets exec Orderly (new [] 1) events := by decide
  have hphases : ∀ caller ∈ s.callers, caller.phase = .waiting := by decide
  refine ⟨by decide, fun caller hmem => ⟨hphases caller hmem, ?_⟩⟩
  obtain ⟨i, hi⟩ := List.mem_iff_getElem?.mp hmem
  exact ((every_call_answered [] 1 events horderly).1 i caller hi).2

/-! ### A request that is lost -/

/-- The caller waits, and no connection holds its request. -/
def Lost (s : PipePool) (i : ℕ) : Prop :=
  s.placed i = 0 ∧ ∃ data, s.callers[i]? = some ⟨data, .waiting, []⟩

/-- A step of a connection does not find a request again. -/
theorem Lost.onConn (h : s.Lost i) (hk : s.conns[k]? = some c)
    (hconns : s'.conns = s.conns.set k c') (hcallers : s'.callers[i]? = s.callers[i]?)
    (hheld : c'.held.count i ≤ c.held.count i) : s'.Lost i := by
  refine ⟨?_, hcallers ▸ h.2⟩
  have hset := placed_set hk hconns i
  have hplaced := h.1
  omega

theorem Lost.onCaller (h : s.Lost i) {j : ℕ} (hj : s.callers[j]? = some caller)
    (hphase : caller.phase ≠ .waiting) (hconns : s'.conns = s.conns) {caller' : PipeCaller}
    (hcallers : s'.callers = s.callers.set j caller') : s'.Lost i := by
  obtain ⟨hplaced, data, hi⟩ := h
  have hij : j ≠ i := by
    rintro rfl
    rw [hi] at hj
    cases hj
    exact hphase rfl
  refine ⟨(placed_congr hconns i).trans hplaced, data, ?_⟩
  rw [hcallers, List.getElem?_set_ne hij, hi]

theorem Lost.step (h : s.Lost i) (hstep : Step s e s') : s'.Lost i := by
  cases hstep with
  | same | callClose _ | returns _ _ | awaited _ _ _ => exact h
  | callDo =>
    obtain ⟨hplaced, data, hi⟩ := h
    refine ⟨hplaced, data, ?_⟩
    rw [List.getElem?_append_left (List.getElem?_eq_some_iff.mp hi).1, hi]
  | picks hj hphase _ | panics hj hphase _ _ => exact h.onCaller hj (by simp [hphase]) rfl rfl
  | @sends j k caller c hj hphase hk _ _ =>
    have hij : j ≠ i := by
      rintro rfl
      obtain ⟨-, data, hi⟩ := h
      rw [hi] at hj
      cases hj
      cases hphase
    have hmoved : ({ s with callers := s.callers.set j { caller with phase := .waiting } } :
        PipePool).Lost i := h.onCaller hj (by simp [hphase]) rfl rfl
    refine hmoved.onConn hk rfl rfl ?_
    simp [LoopConn.held, List.count_append, hij]
  | closesConn _ hk => exact h.onConn hk rfl rfl le_rfl
  | receives hk => exact h.onConn hk rfl rfl (Nat.le_of_eq (LoopConn.receive_count _ i))
  | drains hk => exact h.onConn hk rfl rfl (LoopConn.drain_count_le _ i)
  | serves hk => exact h.onConn hk rfl rfl (Nat.le_of_eq (LoopConn.serve_count _ _ _ _ i))
  | finishes hk hloop => exact h.onConn hk rfl rfl (by simp [LoopConn.held, hloop])
  | @answers k j resp todo c hk hloop =>
    have hij : j ≠ i := by
      rintro rfl
      have hle := count_held_le_placed hk j
      have hplaced := h.1
      simp only [LoopConn.held, hloop, List.map_cons, List.count_append, List.count_cons_self] at hle
      omega
    refine h.onConn hk rfl ?_ ?_
    · simp [hij]
    · simp [LoopConn.held, hloop, List.count_append, List.count_cons]

theorem Lost.run (h : s.Lost i) (later : List PipeEvent) : (Runs.run exec s later).Lost i := by
  have hstep : ∀ (s : PipePool) e, s.Lost i → (s.exec e).Lost i := fun s e h =>
    h.step (exec_step s e)
  exact Runs.run_invariant hstep h later

/-- `loop` has taken a request when the channel is closed, and leaves: nothing that happens
later answers it. A call of `Do` after `Close` sends on a closed channel. -/
theorem close_loses_request :
    let lost : List PipeEvent :=
      [.callDo [], .pick 0, .send 0, .receive 0, .callClose, .closeConn, .drain 0]
    let late : List PipeEvent :=
      [.callClose, .closeConn, .receive 0, .awaitConn, .closeConn, .callDo [], .pick 0, .send 0]
    (∀ later, ∃ data, (Runs.run exec (new [] 1) (lost ++ later)).callers[0]? =
      some ⟨data, .waiting, []⟩) ∧
      ∃ caller, (Runs.run exec (new [] 1) late).callers[0]? = some caller ∧
        caller.phase = .panicked := by
  intro lost late
  refine ⟨fun later => ?_, _, rfl, rfl⟩
  rw [Runs.run_append]
  have hlost : (Runs.run exec (new [] 1) lost).Lost 0 := ⟨rfl, [], rfl⟩
  exact (hlost.run later).2

end PipePool

end Pluster.Pool
