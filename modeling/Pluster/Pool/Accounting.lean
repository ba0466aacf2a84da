import Pluster.Pool.Callers

/-!
# What the pool counts

While no `Close` has returned, `numConns` is the number of connections that are idle, in
use or being dialled, and no connection is there twice. From that it follows that a token
is never missing when a caller of `Get` waits although the pool could serve it.
-/

namespace Pluster.Pool

variable {idle : List ℕ} {n : ℤ} {tokens : ℕ}

namespace Phase

/-- The caller has a connection. -/
@[simp] def inUse : Phase → Bool
  | .holding .. | .putting .. => true
  | _ => false

/-- The caller has the connection `c`. -/
@[simp] def uses (c : ℕ) : Phase → Bool
  | .holding c' _ | .putting c' _ => c' == c
  | _ => false

/-- The dial of the caller is counted. -/
@[simp] def isDial : Phase → Bool
  | .dialing | .dialFailed => true
  | _ => false

/-- The caller has a connection, or its dial is counted. -/
@[simp] def isBusy (phase : Phase) : Bool := phase.inUse || phase.isDial

/-- The caller was woken and looks at the pool again. -/
@[simp] def isWoken : Phase → Bool
  | .checking woken => woken
  | _ => false

end Phase

namespace Shared

/-- The number of connections in use. -/
def inUse (s : Shared) : ℕ := s.callers.countP Phase.inUse

/-- The number of dials that are counted. -/
def dials (s : Shared) : ℕ := s.callers.countP Phase.isDial

/-- The number of callers that have a connection or dial one. -/
def busy (s : Shared) : ℕ := s.callers.countP Phase.isBusy

/-- The number of callers that have the connection `c`. -/
def users (s : Shared) (c : ℕ) : ℕ := s.callers.countP (Phase.uses c)

/-- The number of callers that wait for a token. -/
def waiters (s : Shared) : ℕ := s.callers.countP (· = .waiting)

/-- The tokens that are in the channel or about to be sent. -/
def wakeups (s : Shared) : ℕ := s.tokens + s.callers.countP (· = .notifying)

/-- The number of callers that were woken and look at the pool again. -/
def woken (s : Shared) : ℕ := s.callers.countP Phase.isWoken

theorem busy_eq (s : Shared) : s.busy = s.inUse + s.dials := by
  unfold busy inUse dials
  induction s.callers with
  | nil => rfl
  | cons phase callers ih =>
    have hphase : phase.isBusy.toNat = phase.inUse.toNat + phase.isDial.toNat := by
      cases phase <;> rfl
    simp only [List.countP_cons, ih]
    revert hphase
    cases phase.isBusy <;> cases phase.inUse <;> cases phase.isDial <;> simp <;> omega

/-- The accounts of the pool are right. -/
structure Accounted (s : Shared) : Prop where
  count : s.numConns = s.idle.length + s.busy
  bound : s.numConns ≤ s.maxSize
  single : ∀ c, s.idle.count c + s.users c ≤ 1
  fresh : ∀ c, s.nextConn ≤ c → s.idle.count c + s.users c = 0

variable {s s' : Shared} {e : CallerEvent} {i : ℕ} {a b : Phase}

/-- A caller that has no connection and is not counted enters. -/
theorem Accounted.append (h : s.Accounted) (hbusy : a.isBusy = false)
    (huses : ∀ c, a.uses c = false) (closed : Bool) :
    ({ s with closed, callers := s.callers ++ [a] } : Shared).Accounted := by
  have hsame : (s.callers ++ [a]).countP Phase.isBusy = s.callers.countP Phase.isBusy := by
    rw [Parties.countP_append_singleton, hbusy]
    rfl
  have husers (c : ℕ) :
      (s.callers ++ [a]).countP (Phase.uses c) = s.callers.countP (Phase.uses c) := by
    rw [Parties.countP_append_singleton, huses c]
    rfl
  refine ⟨?_, h.bound, fun c => ?_, fun c hc => ?_⟩
  · simpa only [busy, hsame] using h.count
  · simpa only [users, husers] using h.single c
  · simpa only [users, husers] using h.fresh c hc

/-- A caller goes from one phase to another, and what it gives up and takes is counted. The
connections that it takes are ones that it has given up. -/
theorem Accounted.move (h : s.Accounted) (hi : s.callers[i]? = some a)
    (hcount : n + s.idle.length + a.isBusy.toNat = s.numConns + idle.length + b.isBusy.toNat)
    (hbound : n ≤ s.maxSize)
    (huses : ∀ c, idle.count c + (b.uses c).toNat ≤ s.idle.count c + (a.uses c).toNat) :
    ({ s.enter i b with idle, numConns := n, tokens } : Shared).Accounted := by
  have hbusy := Parties.countP_set (p := Phase.isBusy) hi b
  have husers (c : ℕ) := Parties.countP_set (p := Phase.uses c) hi b
  refine ⟨?_, hbound, fun c => ?_, fun c hc => ?_⟩
  · have := h.count
    simp only [busy, enter] at this ⊢
    omega
  · have hsingle := h.single c
    have hcopies := huses c
    have hset := husers c
    simp only [users, enter] at hsingle ⊢
    omega
  · have hfresh := h.fresh c hc
    have hcopies := huses c
    have hset := husers c
    simp only [users, enter] at hfresh ⊢
    omega

/-- A dial is finished with a connection that nobody has. -/
theorem Accounted.connect (h : s.Accounted) (hi : s.callers[i]? = some .dialing) :
    ({ s.enter i (.holding s.nextConn false) with nextConn := s.nextConn + 1 } : Shared).Accounted
    := by
  have hbusy := Parties.countP_set (p := Phase.isBusy) hi (.holding s.nextConn false)
  have husers (c : ℕ) := Parties.countP_set (p := Phase.uses c) hi (.holding s.nextConn false)
  refine ⟨?_, h.bound, fun c => ?_, fun c hc => ?_⟩
  · have := h.count
    simp only [busy, enter] at this ⊢
    simp only [Phase.isBusy, Phase.inUse, Phase.isDial, Bool.or_false, Bool.or_true] at hbusy
    omega
  · have hset := husers c
    simp only [users, enter]
    simp only [Phase.uses] at hset
    by_cases hc : s.nextConn = c
    · subst hc
      have hfresh := h.fresh _ le_rfl
      simp only [users] at hfresh
      simp only [beq_self_eq_true, Bool.toNat_true, Bool.toNat_false] at hset
      omega
    · have hsingle := h.single c
      simp only [users] at hsingle
      rw [beq_eq_false_iff_ne.mpr hc] at hset
      omega
  · have hset := husers c
    have hne : s.nextConn ≠ c := by
      dsimp only at hc
      omega
    have hfresh := h.fresh c (by dsimp only at hc; omega)
    simp only [users, enter] at hfresh ⊢
    simp only [Phase.uses, beq_eq_false_iff_ne.mpr hne] at hset
    omega

/-- Every step keeps the accounts, until a `Close` returns. -/
theorem Accounted.step (h : s.Accounted) (hstep : Step s e s') (hs' : s'.Unclosed) :
    s'.Accounted := by
  have hcount := h.count
  have hbound := h.bound
  cases hstep with
  | same => exact h
  | callGet => exact h.append rfl (fun _ => rfl) s.closed
  | callClose => exact h.append rfl (fun _ => rfl) true
  | refused hi hclosed | begins hi hopen | receives hi htoken | cancelled hi | fails hi =>
    exact h.move hi rfl hbound fun _ => le_rfl
  | pops hi hidle =>
    rename_i i c woken expired old idle
    refine h.move hi ?_ ?_ fun c' => ?_
    · simp [hidle]
      omega
    · omega
    simp only [hidle, List.count_append, List.count_cons, Phase.uses]
    cases c == c' <;> simp
  | dials hi hroom | drops hi | surplus hi hfull =>
    refine h.move hi ?_ ?_ fun c => ?_
    · simp
      omega
    · omega
    · simp
  | waits hi hfull =>
    refine h.move hi ?_ ?_ fun c => ?_
    · simp
    · omega
    · simp
  | connected hi => exact h.connect hi
  | releases hi =>
    refine h.move hi ?_ ?_ fun _ => le_rfl
    · simp
      omega
    · omega
  | breaks hi | puts hi => exact h.move hi rfl hbound fun c => le_rfl
  | keeps hi hroom =>
    rename_i i c
    refine h.move hi ?_ hbound fun c' => ?_
    · simp
      omega
    simp only [List.count_cons, Phase.uses]
    cases c == c' <;> simp
  | notifies hi hroom | dropsToken hi hfull => exact h.move hi rfl hbound fun _ => le_rfl
  | closes hi =>
    have hlt := (List.getElem?_eq_some_iff.mp hi).1
    exact absurd (List.getElem?_set_self hlt) (hs' _)

/-- Until a `Close` returns the accounts are right. -/
def Books (s : Shared) : Prop := s.Unclosed → s.Accounted

theorem Books.step (h : s.Books) (hstep : Step s e s') : s'.Books := by
  intro hs'
  have hs : s.Unclosed := fun i hi => hs' i (hstep.returned hi)
  exact (h hs).step hstep hs'

theorem books_new (maxSize : ℤ) : (new maxSize).Books := by
  intro
  refine ⟨rfl, ?_, fun _ => ?_, fun _ _ => rfl⟩
  · simp only [new]
    split <;> omega
  · simp [new, users]

theorem books_run (maxSize : ℤ) (events : List CallerEvent) :
    (Runs.run exec (new maxSize) events).Books := by
  have hstep : ∀ (s : Shared) e, s.Books → (s.exec e).Books := fun s e h => h.step (exec_step s e)
  exact Runs.run_invariant hstep (books_new maxSize) events

/-- In every state of an open pool `numConns` is the number of idle connections, of connections
in use and of dials, and at most `maxSize`. No connection is idle twice or idle and in use. When
`put` is about to keep a connection there is room for it. -/
theorem pool_accounting (maxSize : ℤ) (events : List CallerEvent) :
    let s := Runs.run exec (new maxSize) events
    s.closed = false →
      s.numConns = s.idle.length + s.inUse + s.dials ∧ s.numConns ≤ (new maxSize).maxSize ∧
        (∀ c, s.idle.count c ≤ 1 ∧ s.users c ≤ 1 ∧ (c ∈ s.idle → s.users c = 0)) ∧
        ∀ i c : ℕ, s.callers[i]? = some (.putting c false) → s.idle.length < s.maxSize := by
  intro s hopen
  have hbooks : s.Accounted :=
    books_run maxSize events ((noCloser_run maxSize events).unclosed hopen)
  have hcount := hbooks.count
  have hbound := hbooks.bound
  refine ⟨?_, ?_, fun c => ?_, fun i c hi => ?_⟩
  · have hbusy := busy_eq s
    omega
  · rw [← maxSize_run (new maxSize) events]
    exact hbound
  · have hsingle := hbooks.single c
    refine ⟨by omega, by omega, fun hc => ?_⟩
    have hidle : 0 < s.idle.count c := List.count_pos_iff.mpr hc
    omega
  · -- The caller is counted, so that the idle connections are fewer than all.
    have hbusy : 0 < s.busy := Parties.countP_pos_of hi rfl
    omega

/-- Of two callers one has broken its connection and puts it back, the other dials. -/
theorem pool_accounting_two :
    let events : List CallerEvent := [.callGet, .begin 0, .check 0 (fun _ => false), .dialed 0 true,
      .callGet, .begin 1, .check 1 (fun _ => false), .markBroken 0, .callPut 0]
    let s := Runs.run exec (new 2) events
    s.closed = false ∧ s.callers = [.putting 0 true, .dialing] ∧ s.numConns = 2 ∧
      s.numConns = s.idle.length + s.inUse + s.dials := by
  intro events s
  have hopen : s.closed = false := by decide
  exact ⟨hopen, by decide, by decide, (pool_accounting 2 events hopen).1⟩

/-! ### Wake-ups -/

/-- Either every caller that waits has a wake-up of its own, or all the connections that the
pool may have are accounted for by busy callers and by wake-ups. -/
def Woken (s : Shared) : Prop :=
  s.waiters ≤ s.wakeups ∨ s.maxSize ≤ s.busy + s.wakeups + s.woken

theorem Woken.append (h : s.Woken) (hwaiting : a ≠ .waiting) (closed : Bool) :
    ({ s with closed, callers := s.callers ++ [a] } : Shared).Woken := by
  simp only [Woken, waiters, wakeups, busy, woken, Parties.countP_append_singleton] at h ⊢
  simp only [hwaiting, decide_false, Bool.toNat_false]
  omega

/-- A caller goes from one phase to another. A wake-up that it takes is its own, and what it
takes from the connections and the wake-ups it gives back. -/
theorem Woken.move (h : s.Woken) (hi : s.callers[i]? = some a) {nextConn : ℕ} (hb : b ≠ .waiting)
    (hwakes : s.tokens + (decide (a = .notifying)).toNat ≤
      tokens + (decide (b = .notifying)).toNat + (decide (a = .waiting)).toNat)
    (hbusy : s.tokens + (decide (a = .notifying)).toNat + a.isBusy.toNat + a.isWoken.toNat ≤
      tokens + (decide (b = .notifying)).toNat + b.isBusy.toNat + b.isWoken.toNat) :
    ({ s.enter i b with idle, numConns := n, tokens, nextConn } : Shared).Woken := by
  have hwaiters := Parties.countP_set (p := fun phase => decide (phase = .waiting)) hi b
  have hnotifying := Parties.countP_set (p := fun phase => decide (phase = .notifying)) hi b
  have hbusies := Parties.countP_set (p := Phase.isBusy) hi b
  have hwoken := Parties.countP_set (p := Phase.isWoken) hi b
  simp only [hb, decide_false, Bool.toNat_false] at hwaiters
  simp only [Woken, waiters, wakeups, busy, woken, enter] at h ⊢
  omega

/-- A caller begins to wait when every connection that the pool may have is busy. -/
theorem woken_of_waits {again : Bool} (hbooks : s.Accounted) (hi : s.callers[i]? = some (.checking again))
    (hfull : (s.maxSize : ℤ) ≤ s.numConns - s.idle.length) :
    ({ s.enter i .waiting with idle := [], numConns := s.numConns - s.idle.length } :
      Shared).Woken := by
  have hbusies := Parties.countP_set (p := Phase.isBusy) hi .waiting
  have hcount := hbooks.count
  right
  simp only [Phase.isBusy, Phase.inUse, Phase.isDial, Bool.or_false, Bool.toNat_false] at hbusies
  simp only [busy, enter] at hcount ⊢
  omega

/-- A token is dropped when the channel is full. -/
theorem woken_of_full (hfull : s.maxSize ≤ s.tokens) : (s.enter i b).Woken := by
  right
  simp only [wakeups, enter]
  omega

theorem Woken.step (h : s.Woken) (hstep : Step s e s') (hbooks : s.Accounted) :
    s'.Woken := by
  cases hstep with
  | same => exact h
  | callGet => exact h.append (by nofun) s.closed
  | callClose => exact h.append (by nofun) true
  | refused hi hclosed | begins hi hopen | connected hi | fails hi | breaks hi | puts hi =>
    exact h.move hi nofun le_rfl le_rfl
  | @pops _ _ woken _ _ _ hi hidle | @dials _ woken _ hi hroom =>
    refine h.move hi nofun le_rfl ?_
    cases woken <;> simp
  | waits hi hfull => exact woken_of_waits hbooks hi hfull
  | receives hi htoken => exact h.move hi nofun (by simp; omega) (by simp; omega)
  | cancelled hi | releases hi => exact h.move hi nofun (by simp) (by simp)
  | drops hi | keeps hi hroom | surplus hi hfull | notifies hi hroom =>
    exact h.move hi nofun (by simp) (by simp)
  | dropsToken hi hfull => exact woken_of_full hfull
  | closes hi => exact h.move hi nofun le_rfl le_rfl

/-- While the accounts are right no wake-up is missing. -/
def Served (s : Shared) : Prop := s.Books ∧ (s.Unclosed → s.Woken)

theorem Served.step (h : s.Served) (hstep : Step s e s') : s'.Served := by
  refine ⟨h.1.step hstep, fun hs' => ?_⟩
  have hs : s.Unclosed := fun i hi => hs' i (hstep.returned hi)
  exact (h.2 hs).step hstep (h.1 hs)

theorem served_run (maxSize : ℤ) (events : List CallerEvent) :
    (Runs.run exec (new maxSize) events).Served := by
  have hstep : ∀ (s : Shared) e, s.Served → (s.exec e).Served := fun s e h => h.step (exec_step s e)
  have hnew : (new maxSize).Served := ⟨books_new maxSize, fun _ => .inl (Nat.zero_le _)⟩
  exact Runs.run_invariant hstep hnew events

/-- In every state of an open pool in which a caller of `Get` waits although there is an idle
connection or room for another one, a token is in the channel, or a caller is about to send
one, or a caller that was woken looks at the pool again. -/
theorem no_lost_wakeup (maxSize : ℤ) (events : List CallerEvent) :
    let s := Runs.run exec (new maxSize) events
    s.closed = false → ∀ i : ℕ, s.callers[i]? = some .waiting →
      (s.idle ≠ [] ∨ s.numConns < (new maxSize).maxSize) →
      0 < s.tokens ∨ (∃ j : ℕ, s.callers[j]? = some .notifying) ∨
        ∃ j : ℕ, s.callers[j]? = some (.checking true) := by
  intro s hopen i hwaits hserves
  have hserved : s.Served := served_run maxSize events
  have hunclosed := (noCloser_run maxSize events).unclosed hopen
  have hbooks := hserved.1 hunclosed
  have hcount := hbooks.count
  have hbound := hbooks.bound
  have hsize : s.maxSize = (new maxSize).maxSize := maxSize_run (new maxSize) events
  have hfree : s.busy < s.maxSize := by
    rcases hserves with hidle | hroom
    · have := List.length_pos_iff.mpr hidle
      omega
    · omega
  have hwaiters : 0 < s.waiters := Parties.countP_pos_of hwaits rfl
  have hsome : 0 < s.wakeups ∨ 0 < s.woken := by
    have := hserved.2 hunclosed
    unfold Woken at this
    omega
  rcases hsome with hwakes | hwoken
  · rcases Nat.eq_zero_or_pos s.tokens with hnone | htoken
    · right; left
      have hnotifying : 0 < s.callers.countP (· = .notifying) := by
        simpa only [wakeups, hnone, Nat.zero_add] using hwakes
      obtain ⟨j, phase, hj, hphase⟩ := Parties.exists_of_countP_pos hnotifying
      exact ⟨j, by rw [hj, of_decide_eq_true hphase]⟩
    · exact .inl htoken
  · right; right
    obtain ⟨j, phase, hj, hphase⟩ := Parties.exists_of_countP_pos hwoken
    cases phase with
    | checking woken =>
      cases hphase
      exact ⟨j, hj⟩
    | _ => cases hphase

/-- With room for one connection the second caller waits. The first one has put its connection
back and is about to send a token. -/
theorem no_lost_wakeup_put :
    let events : List CallerEvent := [.callGet, .begin 0, .check 0 (fun _ => false), .dialed 0 true,
      .callGet, .begin 1, .check 1 (fun _ => false), .callPut 0, .store 0]
    let s := Runs.run exec (new 1) events
    s.closed = false ∧ s.callers[1]? = some .waiting ∧ s.idle = [0] ∧
      (0 < s.tokens ∨ (∃ j : ℕ, s.callers[j]? = some .notifying) ∨
        ∃ j : ℕ, s.callers[j]? = some (.checking true)) := by
  intro events s
  have hopen : s.closed = false := by decide
  have hwaits : s.callers[1]? = some .waiting := by decide
  have hidle : s.idle = [0] := by decide
  refine ⟨hopen, hwaits, hidle, no_lost_wakeup 1 events hopen 1 hwaits (.inl ?_)⟩
  change s.idle ≠ []
  rw [hidle]
  nofun

end Shared

end Pluster.Pool
