import Pluster.Pool.PipeLoop

/-!
# No request is answered twice

The requests that the connections of a pipelined pool hold are those of callers that wait
for a response, each once. This holds in every run, whenever the pool is closed.
-/

namespace Pluster.Pool

open Proto

variable {data : Bytes}

/-- The caller has sent its request and has no response yet. -/
def PipeCaller.owed (caller : PipeCaller) : ℕ :=
  if caller.phase = .waiting ∧ caller.resps.isEmpty then 1 else 0

namespace PipePool

/-- How often the request of a caller is held by the connections. -/
def placed (s : PipePool) (i : ℕ) : ℕ := (s.conns.map fun c => c.held.count i).sum

/-- The number of responses that a caller waits for. -/
def owed (s : PipePool) (i : ℕ) : ℕ := (s.callers[i]?).elim 0 PipeCaller.owed

variable {s s' : PipePool} {e : PipeEvent} {i j k : ℕ} {caller caller' : PipeCaller}
  {c c' : LoopConn}

theorem placed_congr (hconns : s'.conns = s.conns) (j : ℕ) : s'.placed j = s.placed j := by
  rw [placed, hconns, placed]

theorem placed_set (hk : s.conns[k]? = some c) (hconns : s'.conns = s.conns.set k c') (j : ℕ) :
    s'.placed j + c.held.count j = s.placed j + c'.held.count j := by
  rw [placed, hconns]
  exact Parties.sum_map_set (fun c => c.held.count j) hk c'

theorem count_held_le_placed (hk : s.conns[k]? = some c) (j : ℕ) :
    c.held.count j ≤ s.placed j := by
  have hset := Parties.sum_map_set (fun c => c.held.count j) hk {}
  simp only [LoopConn.held, List.append_nil, List.count_nil] at hset
  exact Nat.le_of_add_left_le (Nat.le_of_eq hset)

theorem owed_congr (hcallers : s'.callers = s.callers) (j : ℕ) : s'.owed j = s.owed j := by
  rw [owed, hcallers, owed]

theorem owed_of_some (hi : s.callers[i]? = some caller) : s.owed i = caller.owed := by
  rw [owed, hi]
  rfl

theorem owed_set (hi : s.callers[i]? = some caller)
    (hcallers : s'.callers = s.callers.set i caller') (j : ℕ) :
    s'.owed j = if i = j then caller'.owed else s.owed j := by
  have hlt : i < s.callers.length := (List.getElem?_eq_some_iff.mp hi).1
  unfold owed
  rw [hcallers]
  by_cases hij : i = j
  · subst hij
    rw [if_pos rfl, List.getElem?_set_self hlt]
    rfl
  · rw [if_neg hij, List.getElem?_set_ne hij]

theorem owed_append (hcallers : s'.callers = s.callers ++ [{ data := data }]) (j : ℕ) :
    s'.owed j = s.owed j := by
  unfold owed
  rw [hcallers, List.getElem?_append]
  split
  · rfl
  rename_i hlt
  rw [List.getElem?_eq_none (not_lt.mp hlt), List.getElem?_singleton]
  split <;> rfl

theorem some_of_append (h : (s.callers ++ [{ data := data }])[i]? = some caller) :
    s.callers[i]? = some caller ∨ caller = { data := data } := by
  rw [List.getElem?_append] at h
  split at h
  · exact .inl h
  · exact .inr (List.mem_singleton.mp (List.mem_of_getElem? h))

/-- The request of a caller has at most one place, and one only while the caller waits for a
response. Nobody has two responses. -/
structure Fair (s : PipePool) : Prop where
  placed : ∀ i, s.placed i ≤ s.owed i
  single : ∀ (i : ℕ) (caller : PipeCaller), s.callers[i]? = some caller →
    caller.resps.length ≤ 1 ∧ (caller.phase ≠ .waiting → caller.resps = [])

/-- A step of a connection that holds no request it did not hold before. -/
theorem Fair.onConn (h : s.Fair) (hk : s.conns[k]? = some c)
    (hconns : s'.conns = s.conns.set k c') (hcallers : s'.callers = s.callers)
    (hheld : ∀ j, c'.held.count j ≤ c.held.count j) : s'.Fair := by
  refine ⟨fun j => ?_, hcallers ▸ h.single⟩
  have hset := placed_set hk hconns j
  have hle := hheld j
  have hplaced := h.placed j
  rw [owed_congr hcallers]
  omega

/-- A caller that is not owed a response goes on. -/
theorem Fair.onCaller (h : s.Fair) (hi : s.callers[i]? = some caller)
    (hphase : caller.phase ≠ .waiting) {phase : DoPhase} (hconns : s'.conns = s.conns)
    (hcallers : s'.callers = s.callers.set i { caller with phase }) (hphase' : phase ≠ .waiting) :
    s'.Fair := by
  have hnone := (h.single i caller hi).2 hphase
  refine ⟨fun j => ?_, fun j caller' hj => ?_⟩
  · have hplaced := h.placed j
    rw [owed_set hi hcallers, placed_congr hconns]
    split
    · rename_i hij
      subst hij
      rw [owed_of_some hi] at hplaced
      simpa [PipeCaller.owed, hphase, hphase'] using hplaced
    · exact hplaced
  · rw [hcallers] at hj
    rcases Parties.set_some hj with hold | ⟨-, rfl⟩
    · exact h.single j caller' hold
    · exact ⟨by simp [hnone], fun _ => hnone⟩

/-- A request gets its place. -/
theorem Fair.send (h : s.Fair) (hi : s.callers[i]? = some caller)
    (hphase : caller.phase ≠ .waiting) (hk : s.conns[k]? = some c)
    (hconns : s'.conns = s.conns.set k { c with queue := c.queue ++ [i] })
    (hcallers : s'.callers = s.callers.set i { caller with phase := .waiting }) : s'.Fair := by
  have hnone := (h.single i caller hi).2 hphase
  refine ⟨fun j => ?_, fun j caller' hj => ?_⟩
  · have hplaced := h.placed j
    have hset := placed_set hk hconns j
    rw [owed_set hi hcallers]
    simp only [LoopConn.held, List.count_append, List.count_singleton] at hset
    split
    · rename_i hij
      subst hij
      have howed : caller.owed = 0 := by simp [PipeCaller.owed, hphase]
      rw [owed_of_some hi, howed] at hplaced
      simp only [PipeCaller.owed, hnone, List.isEmpty_nil, and_self, if_true]
      simp only [beq_self_eq_true, if_true] at hset
      omega
    · rename_i hij
      simp only [beq_eq_false_iff_ne.mpr hij, Bool.false_eq_true, if_false] at hset
      omega
  · rw [hcallers] at hj
    rcases Parties.set_some hj with hold | ⟨-, rfl⟩
    · exact h.single j caller' hold
    · exact ⟨by simp [hnone], fun hne => absurd rfl hne⟩

/-- The caller whose request is answered waits for that response. -/
theorem Fair.waits (h : s.Fair) (hk : s.conns[k]? = some c) (hheld : i ∈ c.held) :
    ∃ caller, s.callers[i]? = some caller ∧ caller.phase = .waiting ∧ caller.resps = [] := by
  have hplace : 0 < s.placed i :=
    Nat.lt_of_lt_of_le (List.count_pos_iff.mpr hheld) (count_held_le_placed hk i)
  have howed := h.placed i
  unfold owed at howed
  cases hi : s.callers[i]? with
  | none =>
    rw [hi] at howed
    simp only [Option.elim] at howed
    omega
  | some caller =>
    rw [hi] at howed
    simp only [Option.elim, PipeCaller.owed] at howed
    split at howed
    · rename_i hwaits
      exact ⟨caller, rfl, hwaits.1, List.isEmpty_iff.mp hwaits.2⟩
    · omega

theorem modify_eq_set {callers : List PipeCaller} (hi : callers[i]? = some caller)
    (f : PipeCaller → PipeCaller) : callers.modify i f = callers.set i (f caller) := by
  refine List.ext_getElem? fun j => ?_
  obtain ⟨hlt, hget⟩ := List.getElem?_eq_some_iff.mp hi
  rw [List.getElem?_modify]
  by_cases hij : i = j
  · subst hij
    simp [hlt, hget]
  · simp [hij]

theorem Fair.answer (h : s.Fair) (hk : s.conns[k]? = some c) {resp : PipeResp}
    {todo : List (ℕ × PipeResp)} (hloop : c.loop = .answering ((i, resp) :: todo))
    (hconns : s'.conns = s.conns.set k { c with loop := .answering todo })
    (hcallers : s'.callers = s.callers.modify i fun caller =>
      { caller with resps := caller.resps ++ [resp] }) : s'.Fair := by
  have hheld : i ∈ c.held := by simp [LoopConn.held, hloop]
  obtain ⟨caller, hi, hphase, hnone⟩ := h.waits hk hheld
  rw [modify_eq_set hi] at hcallers
  refine ⟨fun j => ?_, fun j caller' hj => ?_⟩
  · have hplaced := h.placed j
    have hset := placed_set hk hconns j
    rw [owed_set hi hcallers]
    simp only [LoopConn.held, hloop, List.count_append, List.map_cons, List.count_cons] at hset
    split
    · rename_i hij
      subst hij
      rw [owed_of_some hi] at hplaced
      simp only [PipeCaller.owed, hphase, hnone, List.isEmpty_nil, and_self, if_true] at hplaced
      simp only [beq_self_eq_true, if_true] at hset
      omega
    · omega
  · rw [hcallers] at hj
    rcases Parties.set_some hj with hold | ⟨-, rfl⟩
    · exact h.single j caller' hold
    · exact ⟨by simp [hnone], fun hne => absurd hphase hne⟩

theorem Fair.step (h : s.Fair) (hstep : Step s e s') : s'.Fair := by
  cases hstep with
  | same => exact h
  | callDo =>
    refine ⟨fun j => ?_, fun j caller hj => ?_⟩
    · rw [owed_append rfl, placed_congr rfl]
      exact h.placed j
    rcases some_of_append hj with hold | rfl
    · exact h.single j caller hold
    · exact ⟨Nat.zero_le _, fun _ => rfl⟩
  | callClose _ | returns _ _ | awaited _ _ _ => exact ⟨h.placed, h.single⟩
  | picks hi hphase _ | panics hi hphase _ _ => exact h.onCaller hi (by simp [hphase]) rfl rfl nofun
  | sends hi hphase hk _ _ => exact h.send hi (by simp [hphase]) hk rfl rfl
  | closesConn _ hk => exact h.onConn hk rfl rfl fun _ => le_rfl
  | receives hk => exact h.onConn hk rfl rfl fun j => Nat.le_of_eq (LoopConn.receive_count _ j)
  | drains hk => exact h.onConn hk rfl rfl fun j => LoopConn.drain_count_le _ j
  | serves hk => exact h.onConn hk rfl rfl fun j => Nat.le_of_eq (LoopConn.serve_count _ _ _ _ j)
  | finishes hk hloop => exact h.onConn hk rfl rfl fun j => by simp [LoopConn.held, hloop]
  | answers hk hloop => exact h.answer hk hloop rfl rfl

theorem fair_new (addr : Bytes) (size : ℤ) : (new addr size).Fair := by
  refine ⟨fun i => ?_, fun i caller hi => nomatch hi⟩
  simp [placed, new, LoopConn.held]

end PipePool

end Pluster.Pool
