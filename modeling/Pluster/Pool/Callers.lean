import Pluster.Lib.Parties
import Pluster.Lib.Runs
import Pluster.Pool.Pool

/-!
# Callers of a connection pool

Any number of goroutines call `Get`, `put` and `Close` of one pool of `pkg/pool/pool.go`.
What runs under the lock is one step, and so is every other access to what the callers
share: the flag `closed` and the channel `waiters`. A dial ends at any time. Connections
are numbers here, so that they can be told apart.
-/

namespace Pluster.Pool

variable {expired : ℕ → Bool} {c i : ℕ} {conns idle : List ℕ}

/-- Where a caller of the pool is. -/
inductive Phase
  /-- `Get` is called. -/
  | getting
  /-- `Get` is about to look at the pool, at first or after it was woken. -/
  | checking (woken : Bool)
  /-- `Get` waits for a token or for the end of its context. -/
  | waiting
  | dialing
  /-- The dial of `Get` has failed, and it is still counted. -/
  | dialFailed
  /-- `Get` has returned the connection, and it is in use. -/
  | holding (c : ℕ) (broken : Bool)
  /-- `put` has looked at `broken` and `closed`, and is about to drop the connection or to
  keep it. -/
  | putting (c : ℕ) (drops : Bool)
  /-- `Get` or `put` is about to call `notify`, which is the last thing it does. -/
  | notifying
  /-- `Close` has set the flag. -/
  | closing
  /-- `Close` has returned. -/
  | closeReturned
  | done
  deriving DecidableEq

/-- What the callers share, and the callers. `idle` is `conns`, the last one first. -/
structure Shared where
  maxSize : ℕ
  idle : List ℕ := []
  numConns : ℤ := 0
  closed : Bool := false
  /-- The tokens in `waiters`, which has room for `maxSize` of them. -/
  tokens : ℕ := 0
  nextConn : ℕ := 0
  callers : List Phase := []

/-- What the callers do. -/
inductive CallerEvent
  | callGet
  /-- `Close` is called and sets `closed`. -/
  | callClose
  /-- `Get` reads `closed`. -/
  | begin (i : ℕ)
  /-- One turn of the loop of `Get`, under the lock. -/
  | check (i : ℕ) (expired : ℕ → Bool)
  /-- `Get` takes a token. -/
  | receive (i : ℕ)
  /-- The context of `Get` ends. -/
  | cancel (i : ℕ)
  | dialed (i : ℕ) (ok : Bool)
  /-- `Get` gives back the count of a dial that failed, under the lock. -/
  | release (i : ℕ)
  | markBroken (i : ℕ)
  /-- `put` is called and reads `broken` and `closed`. -/
  | callPut (i : ℕ)
  /-- The part of `put` under the lock. -/
  | store (i : ℕ)
  | notify (i : ℕ)
  /-- The part of `Close` under the lock. -/
  | finishClose (i : ℕ)

variable {s s' : Shared} {e : CallerEvent}

namespace Shared

/-- A caller gets to a phase. -/
def enter (s : Shared) (i : ℕ) (phase : Phase) : Shared :=
  { s with callers := s.callers.set i phase }

@[simp] theorem enter_maxSize (s : Shared) (i : ℕ) (phase : Phase) :
    (s.enter i phase).maxSize = s.maxSize := rfl

@[simp] theorem enter_idle (s : Shared) (i : ℕ) (phase : Phase) :
    (s.enter i phase).idle = s.idle := rfl

@[simp] theorem enter_numConns (s : Shared) (i : ℕ) (phase : Phase) :
    (s.enter i phase).numConns = s.numConns := rfl

@[simp] theorem enter_closed (s : Shared) (i : ℕ) (phase : Phase) :
    (s.enter i phase).closed = s.closed := rfl

@[simp] theorem enter_tokens (s : Shared) (i : ℕ) (phase : Phase) :
    (s.enter i phase).tokens = s.tokens := rfl

@[simp] theorem enter_callers (s : Shared) (i : ℕ) (phase : Phase) :
    (s.enter i phase).callers = s.callers.set i phase := rfl

/-- The loop of `popIdle`: the connection it returns and those it leaves. -/
def popIdle (expired : ℕ → Bool) : List ℕ → Option ℕ × List ℕ
  | [] => (none, [])
  | c :: idle => if expired c then popIdle expired idle else (some c, idle)

/-- The part of `Get` under the lock, for a caller. -/
def checkPool (s : Shared) (i : ℕ) (expired : ℕ → Bool) : Shared :=
  match popIdle expired s.idle with
  | (some c, idle) =>
    -- The connections in front of `c` are closed.
    { s.enter i (.holding c false) with
      idle, numConns := s.numConns - (s.idle.length - (idle.length + 1) : ℕ) }
  | (none, idle) =>
    let numConns := s.numConns - s.idle.length
    if numConns < s.maxSize then { s.enter i .dialing with idle, numConns := numConns + 1 }
    else { s.enter i .waiting with idle, numConns }

/-- The part of `put` under the lock, for a caller. -/
def storeConn (s : Shared) (i c : ℕ) (drops : Bool) : Shared :=
  if drops then { s.enter i .notifying with numConns := s.numConns - 1 }
  else if s.idle.length < s.maxSize then { s.enter i .notifying with idle := c :: s.idle }
  else { s.enter i .notifying with numConns := s.numConns - 1 }

/-- Execute one event. An event that cannot occur changes nothing. -/
def exec (s : Shared) : CallerEvent → Shared
  | .callGet => { s with callers := s.callers ++ [.getting] }
  | .callClose => { s with closed := true, callers := s.callers ++ [.closing] }
  | .begin i =>
    if s.callers[i]? = some .getting then
      s.enter i (if s.closed then .done else .checking false)
    else s
  | .check i expired =>
    match s.callers[i]? with
    | some (.checking _) => s.checkPool i expired
    | _ => s
  | .receive i =>
    if s.callers[i]? = some .waiting ∧ 0 < s.tokens then
      { s.enter i (.checking true) with tokens := s.tokens - 1 }
    else s
  | .cancel i => if s.callers[i]? = some .waiting then s.enter i .done else s
  | .dialed i ok =>
    if s.callers[i]? = some .dialing then
      if ok then { s.enter i (.holding s.nextConn false) with nextConn := s.nextConn + 1 }
      else s.enter i .dialFailed
    else s
  | .release i =>
    if s.callers[i]? = some .dialFailed then
      { s.enter i .notifying with numConns := s.numConns - 1 }
    else s
  | .markBroken i =>
    match s.callers[i]? with
    | some (.holding c _) => s.enter i (.holding c true)
    | _ => s
  | .callPut i =>
    match s.callers[i]? with
    | some (.holding c broken) => s.enter i (.putting c (broken || s.closed))
    | _ => s
  | .store i =>
    match s.callers[i]? with
    | some (.putting c drops) => s.storeConn i c drops
    | _ => s
  | .notify i =>
    if s.callers[i]? = some .notifying then
      { s.enter i .done with tokens := if s.tokens < s.maxSize then s.tokens + 1 else s.tokens }
    else s
  | .finishClose i =>
    if s.callers[i]? = some .closing then
      { s.enter i .closeReturned with idle := [], numConns := 0 }
    else s

/-- A new pool. `New` replaces a size that is not positive by `DefaultPoolSize`. -/
def new (maxSize : ℤ) : Shared := { maxSize := if maxSize ≤ 0 then 10 else maxSize.toNat }

/-! ### The steps of the callers -/

/-- What an event does, by what the source does there. -/
inductive Step (s : Shared) : CallerEvent → Shared → Prop
  | same {e : CallerEvent} : Step s e s
  | callGet : Step s .callGet { s with callers := s.callers ++ [.getting] }
  | callClose : Step s .callClose { s with closed := true, callers := s.callers ++ [.closing] }
  | refused {i : ℕ} (h : s.callers[i]? = some .getting) (hclosed : s.closed = true) :
    Step s (.begin i) (s.enter i .done)
  | begins {i : ℕ} (h : s.callers[i]? = some .getting) (hopen : s.closed = false) :
    Step s (.begin i) (s.enter i (.checking false))
  | pops {i c : ℕ} {woken : Bool} {expired : ℕ → Bool} {old idle : List ℕ}
    (h : s.callers[i]? = some (.checking woken)) (hidle : s.idle = old ++ c :: idle) :
    Step s (.check i expired)
      { s.enter i (.holding c false) with idle, numConns := s.numConns - old.length }
  | dials {i : ℕ} {woken : Bool} {expired : ℕ → Bool} (h : s.callers[i]? = some (.checking woken))
    (hroom : s.numConns - s.idle.length < s.maxSize) :
    Step s (.check i expired)
      { s.enter i .dialing with idle := [], numConns := s.numConns - s.idle.length + 1 }
  | waits {i : ℕ} {woken : Bool} {expired : ℕ → Bool} (h : s.callers[i]? = some (.checking woken))
    (hfull : (s.maxSize : ℤ) ≤ s.numConns - s.idle.length) :
    Step s (.check i expired)
      { s.enter i .waiting with idle := [], numConns := s.numConns - s.idle.length }
  | receives {i : ℕ} (h : s.callers[i]? = some .waiting) (htoken : 0 < s.tokens) :
    Step s (.receive i) { s.enter i (.checking true) with tokens := s.tokens - 1 }
  | cancelled {i : ℕ} (h : s.callers[i]? = some .waiting) : Step s (.cancel i) (s.enter i .done)
  | connected {i : ℕ} (h : s.callers[i]? = some .dialing) :
    Step s (.dialed i true)
      { s.enter i (.holding s.nextConn false) with nextConn := s.nextConn + 1 }
  | fails {i : ℕ} (h : s.callers[i]? = some .dialing) :
    Step s (.dialed i false) (s.enter i .dialFailed)
  | releases {i : ℕ} (h : s.callers[i]? = some .dialFailed) :
    Step s (.release i) { s.enter i .notifying with numConns := s.numConns - 1 }
  | breaks {i c : ℕ} {broken : Bool} (h : s.callers[i]? = some (.holding c broken)) :
    Step s (.markBroken i) (s.enter i (.holding c true))
  | puts {i c : ℕ} {broken : Bool} (h : s.callers[i]? = some (.holding c broken)) :
    Step s (.callPut i) (s.enter i (.putting c (broken || s.closed)))
  | drops {i c : ℕ} (h : s.callers[i]? = some (.putting c true)) :
    Step s (.store i) { s.enter i .notifying with numConns := s.numConns - 1 }
  | keeps {i c : ℕ} (h : s.callers[i]? = some (.putting c false))
    (hroom : s.idle.length < s.maxSize) :
    Step s (.store i) { s.enter i .notifying with idle := c :: s.idle }
  | surplus {i c : ℕ} (h : s.callers[i]? = some (.putting c false))
    (hfull : s.maxSize ≤ s.idle.length) :
    Step s (.store i) { s.enter i .notifying with numConns := s.numConns - 1 }
  | notifies {i : ℕ} (h : s.callers[i]? = some .notifying) (hroom : s.tokens < s.maxSize) :
    Step s (.notify i) { s.enter i .done with tokens := s.tokens + 1 }
  | dropsToken {i : ℕ} (h : s.callers[i]? = some .notifying) (hfull : s.maxSize ≤ s.tokens) :
    Step s (.notify i) (s.enter i .done)
  | closes {i : ℕ} (h : s.callers[i]? = some .closing) :
    Step s (.finishClose i) { s.enter i .closeReturned with idle := [], numConns := 0 }

theorem popIdle_some (h : popIdle expired conns = (some c, idle)) :
    ∃ old, conns = old ++ c :: idle := by
  induction conns with
  | nil => cases h
  | cons c' conns ih =>
    unfold popIdle at h
    split at h
    · obtain ⟨old, rfl⟩ := ih h
      exact ⟨c' :: old, rfl⟩
    cases h
    exact ⟨[], rfl⟩

theorem popIdle_none (h : popIdle expired conns = (none, idle)) : idle = [] := by
  induction conns with
  | nil =>
    cases h
    rfl
  | cons c conns ih =>
    unfold popIdle at h
    split at h
    · exact ih h
    · cases h

theorem checkPool_step {woken : Bool} (h : s.callers[i]? = some (.checking woken))
    (expired : ℕ → Bool) : Step s (.check i expired) (s.checkPool i expired) := by
  unfold checkPool
  split
  · rename_i c idle hpop
    obtain ⟨old, hidle⟩ := popIdle_some hpop
    have hold : s.idle.length - (idle.length + 1) = old.length := by simp [hidle]
    rw [hold]
    exact .pops h hidle
  · rename_i idle hpop
    rw [popIdle_none hpop]
    dsimp only
    split
    · exact .dials h ‹_›
    rename_i hfull
    exact .waits h (Int.not_lt.mp hfull)

theorem storeConn_step {drops : Bool} (h : s.callers[i]? = some (.putting c drops)) :
    Step s (.store i) (s.storeConn i c drops) := by
  unfold storeConn
  split
  · subst drops
    exact .drops h
  rename_i hkeeps
  rw [Bool.not_eq_true] at hkeeps
  subst drops
  split
  · exact .keeps h ‹_›
  · exact .surplus h (not_lt.mp ‹_›)

/-- Every event is one of the steps. -/
theorem exec_step (s : Shared) (e : CallerEvent) : Step s e (s.exec e) := by
  cases e with
  | callGet => exact .callGet
  | callClose => exact .callClose
  | begin i =>
    simp only [exec]
    split
    · rename_i h
      cases hclosed : s.closed
      · exact .begins h hclosed
      · exact .refused h hclosed
    · exact .same
  | check i expired =>
    simp only [exec]
    split
    · exact checkPool_step ‹_› expired
    · exact .same
  | receive i =>
    simp only [exec]
    split
    · rename_i h
      exact .receives h.1 h.2
    · exact .same
  | cancel i =>
    simp only [exec]
    split
    · exact .cancelled ‹_›
    · exact .same
  | dialed i ok =>
    simp only [exec]
    split
    · cases ok
      · exact .fails ‹_›
      · exact .connected ‹_›
    · exact .same
  | release i =>
    simp only [exec]
    split
    · exact .releases ‹_›
    · exact .same
  | markBroken i =>
    simp only [exec]
    split
    · exact .breaks ‹_›
    · exact .same
  | callPut i =>
    simp only [exec]
    split
    · exact .puts ‹_›
    · exact .same
  | store i =>
    simp only [exec]
    split
    · exact storeConn_step ‹_›
    · exact .same
  | notify i =>
    simp only [exec]
    split
    · split
      · exact .notifies ‹_› ‹_›
      · exact .dropsToken ‹_› (not_lt.mp ‹_›)
    · exact .same
  | finishClose i =>
    simp only [exec]
    split
    · exact .closes ‹_›
    · exact .same

theorem Step.maxSize_eq (h : Step s e s') : s'.maxSize = s.maxSize := by
  cases h <;> rfl

theorem maxSize_run (s : Shared) (events : List CallerEvent) :
    (Runs.run exec s events).maxSize = s.maxSize := by
  have hstep : ∀ (t : Shared) e, t.maxSize = s.maxSize → (t.exec e).maxSize = s.maxSize :=
    fun t e h => (exec_step t e).maxSize_eq.trans h
  have hnew : s.maxSize = s.maxSize := rfl
  exact Runs.run_invariant hstep hnew events

/-- A step adds a caller or moves one that has not returned from `Close`. -/
theorem Step.callers_eq (h : Step s e s') :
    (∃ added, s'.callers = s.callers ++ added) ∨
      ∃ (i : ℕ) (a b : Phase), s.callers[i]? = some a ∧ a ≠ .closeReturned ∧
        s'.callers = s.callers.set i b := by
  cases h with
  | same => exact .inl ⟨[], (List.append_nil _).symm⟩
  | callGet | callClose => exact .inl ⟨_, rfl⟩
  | _ => exact .inr ⟨_, _, _, by assumption, by nofun, rfl⟩

/-- A `Close` that has returned does nothing more. -/
theorem Step.returned (h : Step s e s') {j : ℕ} (hj : s.callers[j]? = some .closeReturned) :
    s'.callers[j]? = some .closeReturned := by
  rcases h.callers_eq with ⟨added, hcallers⟩ | ⟨i, a, b, hi, hne, hcallers⟩
  · rw [hcallers, List.getElem?_append_left (List.getElem?_eq_some_iff.mp hj).1]
    exact hj
  have hij : i ≠ j := by
    rintro rfl
    rw [hi] at hj
    cases hj
    exact hne rfl
  rw [hcallers, List.getElem?_set_ne hij]
  exact hj

/-- No call of `Close` has returned. -/
def Unclosed (s : Shared) : Prop := ∀ i : ℕ, s.callers[i]? ≠ some .closeReturned

/-- An open pool has no call of `Close`. -/
def NoCloser (s : Shared) : Prop :=
  s.closed = false → ∀ phase ∈ s.callers, phase ≠ .closing ∧ phase ≠ .closeReturned

theorem NoCloser.unclosed (h : s.NoCloser) (hopen : s.closed = false) : s.Unclosed :=
  fun _ hi => (h hopen _ (List.mem_of_getElem? hi)).2 rfl

theorem NoCloser.enter (h : s.NoCloser) {b : Phase} (hclosing : b ≠ .closing)
    (hreturned : b ≠ .closeReturned) : (s.enter i b).NoCloser := by
  intro hopen phase hphase
  rcases List.mem_or_eq_of_mem_set hphase with hold | rfl
  · exact h hopen phase hold
  · exact ⟨hclosing, hreturned⟩

theorem NoCloser.step (h : s.NoCloser) (hstep : Step s e s') : s'.NoCloser := by
  cases hstep with
  | same => exact h
  | callGet =>
    intro hopen phase hphase
    rcases List.mem_append.mp hphase with hold | hnew
    · exact h hopen phase hold
    rw [List.mem_singleton.mp hnew]
    exact ⟨nofun, nofun⟩
  | callClose => exact fun hopen => nomatch hopen
  | closes hi => exact fun hopen => absurd rfl (h hopen _ (List.mem_of_getElem? hi)).1
  | _ => exact NoCloser.enter h nofun nofun

theorem noCloser_run (maxSize : ℤ) (events : List CallerEvent) :
    (Runs.run exec (new maxSize) events).NoCloser := by
  have hstep : ∀ (s : Shared) e, s.NoCloser → (s.exec e).NoCloser :=
    fun s e h => h.step (exec_step s e)
  have hnew : (new maxSize).NoCloser := fun _ phase hphase => nomatch hphase
  exact Runs.run_invariant hstep hnew events

/-! ### The callers run the code of the pool -/

/-- The pool that the callers share, if `conn` says what is known of each connection. -/
def toPool (s : Shared) (opts : Options) (conn : ℕ → Conn) : Pool :=
  { opts, maxSize := s.maxSize, conns := s.idle.map conn, numConns := s.numConns
    closed := s.closed }

theorem popIdleLoop_map (expired : Conn → Bool) (conn : ℕ → Conn) (conns : List ℕ) :
    popIdleLoop expired (conns.map conn) =
      match popIdle (expired ∘ conn) conns with
      | (some c, idle) => (some (conn c), idle.map conn, conns.length - (idle.length + 1))
      | (none, _) => (none, [], conns.length) := by
  induction conns with
  | nil => rfl
  | cons c conns ih =>
    by_cases hexpired : expired (conn c)
    · simp only [List.map_cons, popIdleLoop, popIdle, Function.comp, hexpired, if_true] at ih ⊢
      rw [ih]
      split
      · rename_i c' idle hpop
        obtain ⟨old, hidle⟩ := popIdle_some hpop
        simp only [hidle, List.length_append, List.length_cons, Prod.mk.injEq, true_and]
        omega
      · simp
    · simp [popIdleLoop, popIdle, hexpired]

/-- A turn of the loop of `Get` is the one of the pool. -/
theorem checkPool_toPool (s : Shared) (opts : Options) (conn : ℕ → Conn) (i : ℕ)
    (expired : Conn → Bool) :
    (s.checkPool i (expired ∘ conn)).toPool opts conn =
      ((s.toPool opts conn).getTurn expired).2 := by
  have hloop := popIdleLoop_map expired conn s.idle
  unfold checkPool getTurn Pool.popIdle
  simp only [toPool, hloop]
  rcases hpop : popIdle (expired ∘ conn) s.idle with ⟨_ | c, idle⟩
  · rw [popIdle_none hpop]
    dsimp only
    split <;> rfl
  · rfl

/-- A caller that puts its connection back without being interrupted does what `put` of the
pool does. -/
theorem put_toPool {broken : Bool} (h : s.callers[i]? = some (.holding c broken)) (opts : Options)
    (conn : ℕ → Conn) (hbroken : (conn c).broken = broken) :
    ((s.exec (.callPut i)).exec (.store i)).toPool opts conn =
      (s.toPool opts conn).put (conn c) := by
  have hlt : i < s.callers.length := (List.getElem?_eq_some_iff.mp h).1
  have hputs : s.exec (.callPut i) = s.enter i (.putting c (broken || s.closed)) := by
    simp [exec, h]
  have hstores : (s.enter i (.putting c (broken || s.closed))).exec (.store i) =
      (s.enter i (.putting c (broken || s.closed))).storeConn i c (broken || s.closed) := by
    simp [exec, enter, hlt]
  rw [hputs, hstores]
  by_cases hdrops : broken = true ∨ s.closed = true
  · simp [storeConn, Pool.put, toPool, enter, hbroken, hdrops]
  by_cases hroom : s.idle.length < s.maxSize
  · simp [storeConn, Pool.put, toPool, enter, hbroken, hdrops, hroom]
  · simp [storeConn, Pool.put, toPool, enter, hbroken, hdrops, hroom]

/-- A `Close` that is not interrupted is the one of the pool. -/
theorem close_toPool (s : Shared) (opts : Options) (conn : ℕ → Conn) :
    ((s.exec .callClose).exec (.finishClose s.callers.length)).toPool opts conn =
      (s.toPool opts conn).close := by
  simp [exec, enter, toPool, close]

end Shared

end Pluster.Pool
