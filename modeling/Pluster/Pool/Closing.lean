import Pluster.Pool.Accounting

/-!
# Closing the pool

`Get` and `put` read `closed` before they take the lock and not again, and `Close` sets
`numConns` to zero whatever is counted. A pool therefore stays closed if nobody is between
those two points, or has a connection, when `Close` takes the lock.
-/

namespace Pluster.Pool

/-- The caller has passed the test of `closed` in `Get`, or has a connection. A caller that
waits is not one of them. -/
def Phase.isActive : Phase → Bool
  | .checking _ => true
  | phase => phase.isBusy

namespace Shared

/-- No caller is under way, and none that waits will be woken. -/
def Settled (s : Shared) : Prop :=
  (∀ phase ∈ s.callers, phase.isActive = false) ∧ (.waiting ∉ s.callers ∨ s.wakeups = 0)

instance (s : Shared) : Decidable s.Settled := inferInstanceAs (Decidable (_ ∧ _))

/-- `Close` takes the lock only when the callers are settled. -/
def ClosesSettled (s : Shared) : CallerEvent → Prop
  | .finishClose i => s.callers[i]? = some .closing → s.Settled
  | _ => True

instance (s : Shared) : DecidablePred s.ClosesSettled := fun e => by
  cases e <;> unfold ClosesSettled <;> infer_instance

/-- The call `i` of `Get` returns the connection `c`. -/
def GetReturns (s : Shared) (e : CallerEvent) (i c : ℕ) : Prop :=
  (∀ broken, s.callers[i]? ≠ some (.holding c broken)) ∧
    (s.exec e).callers[i]? = some (.holding c false)

variable {s s' : Shared} {i : ℕ} {a b : Phase} {e : CallerEvent}

/-! ### A closed pool -/

theorem Settled.append (h : s.Settled) (hactive : a.isActive = false) (hwaiting : a ≠ .waiting)
    (hnotifying : a ≠ .notifying) (closed : Bool) :
    ({ s with closed, callers := s.callers ++ [a] } : Shared).Settled := by
  refine ⟨fun phase hphase => ?_, ?_⟩
  · rcases List.mem_append.mp hphase with hold | hnew
    · exact h.1 phase hold
    rw [List.mem_singleton.mp hnew]
    exact hactive
  · refine h.2.imp (fun hno => ?_) fun hnone => ?_
    · simpa [hwaiting.symm] using hno
    · simpa [wakeups, hnotifying] using hnone

theorem Settled.enter (h : s.Settled) (hi : s.callers[i]? = some a) (hactive : b.isActive = false)
    (hwaiting : b ≠ .waiting) {idle : List ℕ} {n : ℤ} {tokens : ℕ}
    (hwakes : tokens + (decide (b = .notifying)).toNat ≤
      s.tokens + (decide (a = .notifying)).toNat) :
    ({ s.enter i b with idle, numConns := n, tokens } : Shared).Settled := by
  refine ⟨fun phase hphase => ?_, ?_⟩
  · rcases List.mem_or_eq_of_mem_set hphase with hold | rfl
    · exact h.1 phase hold
    · exact hactive
  refine h.2.imp (fun hno hmem => ?_) fun hnone => ?_
  · rcases List.mem_or_eq_of_mem_set hmem with hold | heq
    · exact hno hold
    · exact hwaiting heq.symm
  have hset := Parties.countP_set (p := fun phase => decide (phase = .notifying)) hi b
  simp only [wakeups, enter_callers] at hnone ⊢
  omega

theorem Settled.not_active (h : s.Settled) (hi : s.callers[i]? = some a)
    (hactive : a.isActive = true) : False := by
  rw [h.1 a (List.mem_of_getElem? hi)] at hactive
  cases hactive

/-- What holds after a `Close` that found the callers settled. -/
structure Shut (s : Shared) : Prop where
  closed : s.closed = true
  settled : s.Settled
  idle : s.idle = []
  numConns : s.numConns = 0

theorem Shut.step (h : s.Shut) (hstep : Step s e s') : s'.Shut := by
  obtain ⟨hclosed, hsettled, hidle, hnum⟩ := h
  cases hstep with
  | same => exact ⟨hclosed, hsettled, hidle, hnum⟩
  | callGet =>
    exact ⟨hclosed, hsettled.append rfl (by nofun) (by nofun) s.closed, hidle, hnum⟩
  | callClose => exact ⟨rfl, hsettled.append rfl (by nofun) (by nofun) true, hidle, hnum⟩
  | refused hi _ => exact ⟨hclosed, hsettled.enter hi rfl (by nofun) le_rfl, hidle, hnum⟩
  | begins hi hopen =>
    rw [hopen] at hclosed
    cases hclosed
  | receives hi htoken =>
    rcases hsettled.2 with hno | hnone
    · exact absurd (List.mem_of_getElem? hi) hno
    unfold wakeups at hnone
    omega
  | cancelled hi | notifies hi _ =>
    exact ⟨hclosed, hsettled.enter hi rfl (by nofun) le_rfl, hidle, hnum⟩
  | dropsToken hi _ =>
    exact ⟨hclosed, hsettled.enter hi rfl (by nofun) (Nat.le_add_right _ _), hidle, hnum⟩
  | closes hi => exact ⟨hclosed, hsettled.enter hi rfl (by nofun) le_rfl, rfl, rfl⟩
  -- The other steps are those of a caller that is under way.
  | _ => exact (hsettled.not_active (by assumption) (by rfl)).elim

/-- `Close` returns only from its part under the lock. -/
theorem Step.of_returned (hstep : Step s e s') (hs' : .closeReturned ∈ s'.callers) :
    .closeReturned ∈ s.callers ∨ ∃ i : ℕ, e = .finishClose i ∧ s.callers[i]? = some .closing ∧
      s' = { s.enter i .closeReturned with idle := [], numConns := 0 } := by
  cases hstep with
  | same => exact .inl hs'
  | callGet | callClose => exact .inl (by simpa using hs')
  | closes hi => exact .inr ⟨_, rfl, hi, rfl⟩
  | _ => exact .inl ((List.mem_or_eq_of_mem_set hs').resolve_right nofun)

/-- What holds in every state if `Close` takes the lock only when the callers are settled. -/
structure Guarded (s : Shared) : Prop where
  books : s.Books
  noCloser : s.NoCloser
  shut : .closeReturned ∈ s.callers → s.Shut

theorem Guarded.exec (h : s.Guarded) (hguard : s.ClosesSettled e) : (s.exec e).Guarded := by
  have hstep := exec_step s e
  refine ⟨h.books.step hstep, h.noCloser.step hstep, fun hreturned => ?_⟩
  rcases hstep.of_returned hreturned with hold | ⟨i, rfl, hi, heq⟩
  · exact (h.shut hold).step hstep
  have hclosed : s.closed = true := by
    by_contra hopen
    exact (h.noCloser (Bool.not_eq_true _ ▸ hopen) _ (List.mem_of_getElem? hi)).1 rfl
  have hsettled : s.Settled := hguard hi
  rw [heq]
  exact ⟨hclosed, hsettled.enter hi rfl (by nofun) le_rfl, rfl, rfl⟩

theorem guarded_new (maxSize : ℤ) : (new maxSize).Guarded :=
  ⟨books_new maxSize, fun _ _ hphase => (nomatch hphase), fun hreturned => (nomatch hreturned)⟩

/-- A `Get` returns a connection only if it was under way. -/
theorem active_of_getReturns {c : ℕ} (h : s.GetReturns e i c) :
    ∃ phase : Phase, s.callers[i]? = some phase ∧ phase.isActive = true := by
  obtain ⟨hbefore, hafter⟩ := h
  have hmoved {j : ℕ} {b : Phase} (hset : (s.callers.set j b)[i]? = some (.holding c false)) :
      j = i ∧ b = .holding c false :=
    (Parties.set_some hset).resolve_left (hbefore false)
  have hadded {b : Phase} (happend : (s.callers ++ [b])[i]? = some (.holding c false)) :
      b = .holding c false := by
    rw [List.getElem?_append] at happend
    split at happend
    · exact absurd happend (hbefore false)
    · exact List.mem_singleton.mp (List.mem_of_getElem? happend) |>.symm
  have hstep := exec_step s e
  generalize s.exec e = s' at hstep hafter
  cases hstep with
  | same => exact absurd hafter (hbefore false)
  | callGet | callClose => cases hadded hafter
  | pops hi hidle | connected hi =>
    obtain ⟨rfl, -⟩ := hmoved hafter
    exact ⟨_, hi, rfl⟩
  | _ => cases (hmoved hafter).2

/-- In every state of a run in which `Close` takes the lock only when the callers are settled:
after a `Close` has returned no `Get` returns a connection, and the pool has no idle connection
once every call of `Close` and `put` is over. The count of connections is never negative. -/
theorem closed_pool_stays_closed (maxSize : ℤ) (events : List CallerEvent)
    (hguard : Runs.Meets exec ClosesSettled (new maxSize) events) :
    let s := Runs.run exec (new maxSize) events
    (.closeReturned ∈ s.callers → ∀ e i c, ¬s.GetReturns e i c) ∧
      (.closeReturned ∈ s.callers → .closing ∉ s.callers →
        (∀ c drops, .putting c drops ∉ s.callers) → s.idle = []) ∧
      0 ≤ s.numConns := by
  intro s
  have hstep : ∀ (s : Shared) e, s.Guarded → s.ClosesSettled e → (s.exec e).Guarded :=
    fun _ _ h hguard => h.exec hguard
  have hinv : s.Guarded := hguard.invariant hstep (guarded_new maxSize)
  refine ⟨fun hreturned e i c hget => ?_, fun hreturned _ _ => (hinv.shut hreturned).idle, ?_⟩
  · obtain ⟨phase, hphase, hactive⟩ := active_of_getReturns hget
    exact (hinv.shut hreturned).settled.not_active hphase hactive
  by_cases hreturned : .closeReturned ∈ s.callers
  · have hnum := (hinv.shut hreturned).numConns
    omega
  have hunclosed : s.Unclosed := fun i hi => hreturned (List.mem_of_getElem? hi)
  have hcount := (hinv.books hunclosed).count
  omega

/-- A caller has put its connection back and another one is about to read `closed` when the
pool is closed. -/
theorem closed_pool_stays_closed_idle :
    let events : List CallerEvent := [.callGet, .begin 0, .check 0 (fun _ => false), .dialed 0 true,
      .callPut 0, .store 0, .notify 0, .callClose, .callGet, .finishClose 1]
    let s := Runs.run exec (new 1) events
    s.callers = [.done, .closeReturned, .getting] ∧ s.idle = [] ∧ 0 ≤ s.numConns := by
  intro events s
  have hguard : Runs.Meets exec ClosesSettled (new 1) events := by decide
  have hcallers : s.callers = [.done, .closeReturned, .getting] := by decide
  obtain ⟨-, hidle, hnum⟩ := closed_pool_stays_closed 1 events hguard
  refine ⟨hcallers, hidle ?_ ?_ ?_, hnum⟩
  · change .closeReturned ∈ s.callers
    simp [hcallers]
  · change .closing ∉ s.callers
    simp [hcallers]
  change ∀ c drops, .putting c drops ∉ s.callers
  simp [hcallers]

/-- A `Get` that dials returns its connection after `Close`. A `put` that has read `closed`
before `Close` leaves a connection in the idle list. A connection that is put back after
`Close` makes the count negative. -/
theorem closed_pool_reopens :
    let gets : List CallerEvent := [.callGet, .begin 0, .check 0 (fun _ => false)]
    let closes : List CallerEvent := [.callClose, .finishClose 1]
    let dialing := Runs.run exec (new 1) (gets ++ closes)
    let puts := Runs.run exec (new 1) (gets ++ [.dialed 0 true, .callPut 0] ++ closes ++ [.store 0])
    let late := Runs.run exec (new 1) (gets ++ [.dialed 0 true] ++ closes ++ [.callPut 0, .store 0])
    (dialing.callers = [.dialing, .closeReturned] ∧
      (dialing.exec (.dialed 0 true)).callers = [.holding 0 false, .closeReturned]) ∧
      (puts.callers = [.notifying, .closeReturned] ∧ puts.idle = [0]) ∧
      (late.callers = [.notifying, .closeReturned] ∧ late.numConns = -1) := by
  decide

end Shared

end Pluster.Pool
