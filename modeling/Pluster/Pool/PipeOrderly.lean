import Pluster.Pool.PipeFair

/-!
# Closing a pipelined pool in order

No request is lost if `Close` begins when no caller is at the lock and none comes later, and
closes the channel of a connection when no caller is about to send on it and the requests
that `loop` has not yet put into a batch fill their batches.
-/

namespace Pluster.Pool

open Proto

variable {phase : DoPhase}

namespace LoopConn

/-- The number of requests that `loop` has not put into a batch. -/
def remaining (c : LoopConn) : ℕ :=
  c.queue.length + match c.loop with
    | .collecting pending => pending.length
    | _ => 0

/-- What holds of a connection that is closed only when the requests fill their batches. -/
structure Ok (c : LoopConn) : Prop where
  batch : ∀ pending, c.loop = .collecting pending →
    0 < pending.length ∧ pending.length ≤ batchSize
  ended : c.loop = .ended → c.closed = true ∧ c.queue = []
  full : c.closed = true → c.remaining % batchSize = 0

variable {c : LoopConn}

theorem Ok.not_drops (h : c.Ok) : ¬c.DropsBatch := by
  rintro ⟨pending, hloop, hlt, hqueue, hclosed⟩
  have hpos := (h.batch pending hloop).1
  have hfull := h.full hclosed
  simp only [remaining, hloop, hqueue, List.length_nil, Nat.zero_add] at hfull
  rw [Nat.mod_eq_of_lt hlt] at hfull
  omega

theorem Ok.receive (h : c.Ok) : c.receive.Ok := by
  unfold LoopConn.receive
  split
  · rename_i i queue hloop hqueue
    refine ⟨fun pending hpending => ?_, nofun, fun hclosed => ?_⟩
    · cases hpending
      simp [batchSize]
    · simpa [remaining, hloop, hqueue] using h.full hclosed
  · rename_i hloop hqueue
    split
    · rename_i hclosed
      exact ⟨nofun, fun _ => ⟨hclosed, hqueue⟩, fun _ => by simp [remaining, hqueue]⟩
    · exact h
  · exact h

theorem Ok.drain (h : c.Ok) : c.drain.Ok := by
  have hdrops := h.not_drops
  unfold LoopConn.drain
  split
  · rename_i pending hloop
    have hbatch := h.batch pending hloop
    have hfull := h.full
    simp only [remaining, hloop] at hfull
    split
    · rename_i hlt
      split
      · rename_i i queue hqueue
        refine ⟨fun pending' hpending => ?_, nofun, fun hclosed => ?_⟩
        · cases hpending
          simp
          omega
        have := hfull hclosed
        rw [hqueue, List.length_cons, Nat.add_right_comm] at this
        simpa only [remaining, List.length_append, List.length_singleton, Nat.add_assoc] using this
      · rename_i hqueue
        split
        · exact absurd ⟨pending, hloop, hlt, hqueue, ‹_›⟩ hdrops
        rename_i hopen
        exact ⟨nofun, nofun, fun hclosed => absurd hclosed hopen⟩
    · rename_i hnot
      have hlength : pending.length = batchSize := by omega
      refine ⟨nofun, nofun, fun hclosed => ?_⟩
      have := hfull hclosed
      rw [hlength, Nat.add_mod_right] at this
      simpa only [remaining, Nat.add_zero] using this
  · exact h

/-- The batch of a turn is not part of what remains. -/
theorem Ok.afterTurn (h : c.Ok) (hloop : ∀ pending, c.loop ≠ .collecting pending) {loop : LoopPhase}
    (hnext : ∀ pending, loop ≠ .collecting pending) (hnext' : loop ≠ .ended) (connected : Bool) :
    ({ c with loop, connected } : LoopConn).Ok := by
  refine ⟨fun pending hpending => absurd hpending (hnext pending),
    fun hends => absurd hends hnext', fun hclosed => ?_⟩
  have hfull := h.full hclosed
  have hold : c.remaining = c.queue.length := by
    unfold remaining
    split
    · rename_i pending hcollect
      exact absurd hcollect (hloop pending)
    · rfl
  rw [hold] at hfull
  unfold remaining
  split
  · rename_i pending hcollect
    exact absurd hcollect (hnext pending)
  · exact hfull

theorem Ok.serve (h : c.Ok) (addr : Bytes) (data : ℕ → Bytes) (io : TurnIO) :
    (c.serve addr data io).Ok := by
  unfold LoopConn.serve
  split
  · rename_i pending hloop
    exact h.afterTurn (by simp [hloop]) (by nofun) (by nofun) _
  · exact h

theorem Ok.enqueue (h : c.Ok) (hopen : c.closed = false) (i : ℕ) :
    ({ c with queue := c.queue ++ [i] } : LoopConn).Ok := by
  refine ⟨h.batch, fun hended => ?_, fun hclosed => ?_⟩
  · rw [(h.ended hended).1] at hopen
    cases hopen
  rw [hopen] at hclosed
  cases hclosed

theorem Ok.close (h : c.Ok) (hfull : c.remaining % batchSize = 0) :
    ({ c with closed := true } : LoopConn).Ok :=
  ⟨h.batch, fun hended => ⟨rfl, (h.ended hended).2⟩, fun _ => hfull⟩

theorem receive_closed (c : LoopConn) : c.receive.closed = c.closed := by
  unfold LoopConn.receive
  split
  · rfl
  · split <;> rfl
  · rfl

theorem drain_closed (c : LoopConn) : c.drain.closed = c.closed := by
  unfold LoopConn.drain
  split
  · split
    · split
      · rfl
      · split <;> rfl
    · rfl
  · rfl

theorem serve_closed (addr : Bytes) (data : ℕ → Bytes) (io : TurnIO) (c : LoopConn) :
    (c.serve addr data io).closed = c.closed := by
  unfold LoopConn.serve
  split <;> rfl

end LoopConn

/-- The connection whose channel `Close` closes next. -/
def ClosePhase.next : ClosePhase → Option ℕ
  | .closing k => some k
  | _ => none

namespace PipePool

/-- `Close` begins when no caller is at the lock of the pool, and nobody calls `Do` later. It
closes a channel when no caller is about to send on it and the requests that `loop` has not
put into a batch fill their batches. -/
def Orderly (s : PipePool) : PipeEvent → Prop
  | .callDo _ => s.closer = .uncalled
  | .callClose => ∀ caller ∈ s.callers, caller.phase ≠ .calling
  | .closeConn => ∀ k ∈ s.closer.next, (∀ caller ∈ s.callers, caller.phase ≠ .sending k) ∧
      ∀ c ∈ s.conns[k]?, c.remaining % batchSize = 0
  | _ => True

instance (s : PipePool) : DecidablePred s.Orderly := fun e => by
  cases e <;> unfold Orderly <;> infer_instance

variable {s s' : PipePool} {e : PipeEvent} {i j k : ℕ} {caller caller' : PipeCaller}
  {c c' : LoopConn}

/-- What holds of the goroutines in an orderly run. -/
structure Shape (s : PipePool) : Prop where
  sized : s.conns.length = s.size ∧ 0 < s.size
  conns : ∀ (k : ℕ) (c : LoopConn), s.conns[k]? = some c → c.Ok
  opened : s.closer = .uncalled → ∀ (k : ℕ) (c : LoopConn), s.conns[k]? = some c → c.closed = false
  calling : ∀ (i : ℕ) (caller : PipeCaller), s.callers[i]? = some caller →
    caller.phase = .calling → s.closer = .uncalled
  sending : ∀ (i : ℕ) (caller : PipeCaller) (k : ℕ), s.callers[i]? = some caller →
    caller.phase = .sending k → ∃ c, s.conns[k]? = some c ∧ c.closed = false
  calm : ∀ (i : ℕ) (caller : PipeCaller), s.callers[i]? = some caller → caller.phase ≠ .panicked

/-- The `loop` of a connection goes on. -/
theorem Shape.onConn (h : s.Shape) (hk : s.conns[k]? = some c) (hsize : s'.size = s.size)
    (hconns : s'.conns = s.conns.set k c') (hcloser : s'.closer = s.closer) (hok : c'.Ok)
    (hclosed : c'.closed = c.closed)
    (hphases : ∀ (i : ℕ) (caller' : PipeCaller), s'.callers[i]? = some caller' →
      ∃ caller, s.callers[i]? = some caller ∧ caller.phase = caller'.phase) : s'.Shape where
  sized := by
    rw [hconns, hsize, List.length_set]
    exact h.sized
  conns j d hj := by
    rw [hconns] at hj
    rcases Parties.set_some hj with hold | ⟨-, rfl⟩
    · exact h.conns j d hold
    · exact hok
  opened huncalled j d hj := by
    rw [hcloser] at huncalled
    rw [hconns] at hj
    rcases Parties.set_some hj with hold | ⟨-, rfl⟩
    · exact h.opened huncalled j d hold
    rw [hclosed]
    exact h.opened huncalled k c hk
  calling i caller' hi hphase := by
    obtain ⟨caller, hold, hsame⟩ := hphases i caller' hi
    rw [hcloser]
    exact h.calling i caller hold (hsame.trans hphase)
  sending i caller' j hi hphase := by
    obtain ⟨caller, hold, hsame⟩ := hphases i caller' hi
    obtain ⟨d, hj, hopen⟩ := h.sending i caller j hold (hsame.trans hphase)
    rw [hconns]
    by_cases hkj : k = j
    · subst hkj
      rw [hk] at hj
      cases hj
      exact ⟨c', List.getElem?_set_self (List.getElem?_eq_some_iff.mp hk).1, hclosed.trans hopen⟩
    · exact ⟨d, by rw [List.getElem?_set_ne hkj, hj], hopen⟩
  calm i caller' hi := by
    obtain ⟨caller, hold, hsame⟩ := hphases i caller' hi
    rw [← hsame]
    exact h.calm i caller hold

/-- A caller goes on. -/
theorem Shape.onCaller (h : s.Shape) (hsize : s'.size = s.size) (hconns : s'.conns = s.conns)
    (hcloser : s'.closer = s.closer)
    (hcallers : s'.callers = s.callers.set i { caller with phase }) (hcalling : phase ≠ .calling)
    (hcalm : phase ≠ .panicked)
    (hsending : ∀ k, phase = .sending k → ∃ c, s.conns[k]? = some c ∧ c.closed = false) :
    s'.Shape where
  sized := by
    rw [hconns, hsize]
    exact h.sized
  conns := by
    rw [hconns]
    exact h.conns
  opened := by
    rw [hconns, hcloser]
    exact h.opened
  calling j caller' hj hphase := by
    rw [hcallers] at hj
    rw [hcloser]
    rcases Parties.set_some hj with hold | ⟨-, rfl⟩
    · exact h.calling j caller' hold hphase
    · exact absurd hphase hcalling
  sending j caller' k hj hphase := by
    rw [hcallers] at hj
    rw [hconns]
    rcases Parties.set_some hj with hold | ⟨-, rfl⟩
    · exact h.sending j caller' k hold hphase
    · exact hsending k hphase
  calm j caller' hj := by
    rw [hcallers] at hj
    rcases Parties.set_some hj with hold | ⟨-, rfl⟩
    · exact h.calm j caller' hold
    · exact hcalm

theorem Shape.step (h : s.Shape) (hstep : Step s e s') (horderly : s.Orderly e) : s'.Shape := by
  have hphases : ∀ (i : ℕ) (caller' : PipeCaller), s.callers[i]? = some caller' →
      ∃ caller, s.callers[i]? = some caller ∧ caller.phase = caller'.phase :=
    fun _ caller hi => ⟨caller, hi, rfl⟩
  cases hstep with
  | same => exact h
  | callDo =>
    refine ⟨h.sized, h.conns, h.opened, fun i caller hi hphase => ?_,
      fun i caller k hi hphase => ?_, fun i caller hi => ?_⟩
    · exact horderly
    · rcases some_of_append hi with hold | rfl
      · exact h.sending i caller k hold hphase
      · cases hphase
    rcases some_of_append hi with hold | rfl
    · exact h.calm i caller hold
    · nofun
  | callClose huncalled =>
    refine ⟨h.sized, h.conns, nofun, fun i caller hi hphase => ?_, h.sending, h.calm⟩
    exact absurd hphase (horderly caller (List.mem_of_getElem? hi))
  | picks hi hphase hfree =>
    refine h.onCaller rfl rfl rfl rfl (by nofun) (by nofun) fun k hk => ?_
    cases hk
    have hlt : s.idx % s.size < s.conns.length := by
      rw [h.sized.1]
      exact Nat.mod_lt _ h.sized.2
    have hk := List.getElem?_eq_getElem hlt
    exact ⟨_, hk, h.opened (h.calling _ _ hi hphase) _ _ hk⟩
  | panics hi hphase hk hclosed =>
    obtain ⟨c', hk', hopen⟩ := h.sending _ _ _ hi hphase
    rw [hk] at hk'
    cases hk'
    rw [hclosed] at hopen
    cases hopen
  | @sends i k caller c hi hphase hk hopen hroom =>
    have hok := (h.conns _ _ hk).enqueue hopen i
    have hsent : ({ s with conns := s.conns.set k { c with queue := c.queue ++ [i] } } :
        PipePool).Shape := h.onConn hk rfl rfl rfl hok rfl hphases
    exact hsent.onCaller rfl rfl rfl rfl (by nofun) (by nofun) (by nofun)
  | @closesConn k c hcloser hk =>
    have hguard : (∀ caller ∈ s.callers, caller.phase ≠ .sending k) ∧
        ∀ c ∈ s.conns[k]?, c.remaining % batchSize = 0 := horderly k (by rw [hcloser]; rfl)
    refine ⟨?_, fun j d hj => ?_, nofun, fun i caller hi hphase => ?_,
      fun i caller j hi hphase => ?_, h.calm⟩
    · simpa using h.sized
    · rcases Parties.set_some hj with hold | ⟨-, rfl⟩
      · exact h.conns j d hold
      · exact (h.conns k c hk).close (hguard.2 c hk)
    · have := h.calling i caller hi hphase
      rw [hcloser] at this
      cases this
    obtain ⟨d, hj, hopen⟩ := h.sending i caller j hi hphase
    have hkj : k ≠ j := by
      rintro rfl
      exact hguard.1 caller (List.mem_of_getElem? hi) hphase
    exact ⟨d, by rw [List.getElem?_set_ne hkj, hj], hopen⟩
  | returns hcloser hk | awaited hcloser hk hended =>
    refine ⟨h.sized, h.conns, nofun, fun i caller hi hphase => ?_, h.sending, h.calm⟩
    have := h.calling i caller hi hphase
    rw [hcloser] at this
    cases this
  | receives hk =>
    exact h.onConn hk rfl rfl rfl (h.conns _ _ hk).receive (LoopConn.receive_closed _) hphases
  | drains hk =>
    exact h.onConn hk rfl rfl rfl (h.conns _ _ hk).drain (LoopConn.drain_closed _) hphases
  | serves hk =>
    exact h.onConn hk rfl rfl rfl ((h.conns _ _ hk).serve _ _ _) (LoopConn.serve_closed _ _ _ _)
      hphases
  | finishes hk hloop =>
    refine h.onConn hk rfl rfl rfl ?_ rfl hphases
    exact (h.conns _ _ hk).afterTurn (by simp [hloop]) (by nofun) (by nofun) _
  | answers hk hloop =>
    refine h.onConn hk rfl rfl rfl ?_ rfl fun j caller' hj => ?_
    · exact (h.conns _ _ hk).afterTurn (by simp [hloop]) (by nofun) (by nofun) _
    rw [List.getElem?_modify, Option.map_eq_map, Option.map_eq_some_iff] at hj
    obtain ⟨caller, hold, rfl⟩ := hj
    refine ⟨caller, hold, ?_⟩
    split <;> rfl

/-- The request of every caller that is owed a response has a place. -/
def Covered (s : PipePool) : Prop := ∀ i, s.owed i ≤ s.placed i

theorem Covered.onConn (h : s.Covered) (hk : s.conns[k]? = some c)
    (hconns : s'.conns = s.conns.set k c') (hcallers : s'.callers = s.callers)
    (hheld : ∀ j, c'.held.count j = c.held.count j) : s'.Covered := by
  intro j
  have hset := placed_set hk hconns j
  have hcovered := h j
  rw [hheld j] at hset
  rw [owed_congr hcallers]
  omega

theorem Covered.onCaller (h : s.Covered) (hi : s.callers[i]? = some caller)
    (hconns : s'.conns = s.conns) (hcallers : s'.callers = s.callers.set i { caller with phase })
    (hphase : phase ≠ .waiting) : s'.Covered := by
  intro j
  rw [owed_set hi hcallers, placed_congr hconns]
  split
  · simp [PipeCaller.owed, hphase]
  · exact h j

theorem Covered.send (h : s.Covered) (hi : s.callers[i]? = some caller) (hk : s.conns[k]? = some c)
    (hconns : s'.conns = s.conns.set k { c with queue := c.queue ++ [i] })
    (hcallers : s'.callers = s.callers.set i { caller with phase := .waiting }) : s'.Covered := by
  intro j
  have hset := placed_set hk hconns j
  have hcovered := h j
  rw [owed_set hi hcallers]
  simp only [LoopConn.held, List.count_append, List.count_singleton] at hset
  split
  · rename_i hij
    subst hij
    have hone : ({ caller with phase := .waiting } : PipeCaller).owed ≤ 1 := by
      unfold PipeCaller.owed
      split <;> decide
    simp only [beq_self_eq_true, if_true] at hset
    omega
  · rename_i hij
    simp only [beq_eq_false_iff_ne.mpr hij, Bool.false_eq_true, if_false] at hset
    omega

theorem Covered.answer (h : s.Covered) (hfair : s.Fair) (hk : s.conns[k]? = some c)
    {resp : PipeResp} {todo : List (ℕ × PipeResp)}
    (hloop : c.loop = .answering ((i, resp) :: todo))
    (hconns : s'.conns = s.conns.set k { c with loop := .answering todo })
    (hcallers : s'.callers = s.callers.modify i fun caller =>
      { caller with resps := caller.resps ++ [resp] }) : s'.Covered := by
  intro j
  have hheld : i ∈ c.held := by simp [LoopConn.held, hloop]
  obtain ⟨caller, hi, -, -⟩ := hfair.waits hk hheld
  rw [modify_eq_set hi] at hcallers
  have hset := placed_set hk hconns j
  have hcovered := h j
  rw [owed_set hi hcallers]
  simp only [LoopConn.held, hloop, List.count_append, List.map_cons, List.count_cons] at hset
  split
  · simp [PipeCaller.owed]
  rename_i hij
  simp only [beq_eq_false_iff_ne.mpr hij, Bool.false_eq_true, if_false] at hset
  omega

theorem Covered.step (h : s.Covered) (hstep : Step s e s') (hfair : s.Fair) (hshape : s.Shape) :
    s'.Covered := by
  cases hstep with
  | same | callClose _ | returns _ _ | awaited _ _ _ => exact h
  | callDo =>
    intro j
    rw [owed_append rfl, placed_congr rfl]
    exact h j
  | picks hi _ _ | panics hi _ _ _ => exact h.onCaller hi rfl rfl nofun
  | sends hi _ hk _ _ => exact h.send hi hk rfl rfl
  | closesConn _ hk => exact h.onConn hk rfl rfl fun _ => rfl
  | receives hk => exact h.onConn hk rfl rfl fun j => LoopConn.receive_count _ j
  | drains hk =>
    exact h.onConn hk rfl rfl fun j =>
      LoopConn.drain_count_of_not_drops (hshape.conns _ _ hk).not_drops j
  | serves hk => exact h.onConn hk rfl rfl fun j => LoopConn.serve_count _ _ _ _ j
  | finishes hk hloop => exact h.onConn hk rfl rfl fun j => by simp [LoopConn.held, hloop]
  | answers hk hloop => exact h.answer hfair hk hloop rfl rfl

/-- What holds in every state of an orderly run. -/
structure Guarded (s : PipePool) : Prop where
  fair : s.Fair
  shape : s.Shape
  covered : s.Covered

theorem Guarded.exec (h : s.Guarded) (horderly : s.Orderly e) : (s.exec e).Guarded :=
  have hstep := exec_step s e
  ⟨h.fair.step hstep, h.shape.step hstep horderly, h.covered.step hstep h.fair h.shape⟩

theorem guarded_new (addr : Bytes) (size : ℤ) : (new addr size).Guarded := by
  have hconn {k : ℕ} {c : LoopConn} (hk : (new addr size).conns[k]? = some c) : c = {} :=
    List.eq_of_mem_replicate (List.mem_of_getElem? hk)
  refine ⟨fair_new addr size, ⟨⟨?_, ?_⟩, fun k c hk => ?_, fun _ k c hk => ?_, fun i _ hi => ?_,
    fun i _ _ hi => ?_, fun i _ hi => ?_⟩, fun i => Nat.zero_le _⟩
  · simp [new]
  · simp only [new]
    split <;> omega
  · rw [hconn hk]
    exact ⟨by simp, by simp, by simp⟩
  · rw [hconn hk]
  · cases hi
  · cases hi
  · cases hi

end PipePool

end Pluster.Pool
