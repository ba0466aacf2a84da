import Pluster.Pool.PipeWires

/-!
# Requests and responses of a pipelined connection

In every run of a `pipeConn` that nobody closes, each request has exactly one response after a
bounded number of steps of `loop`, however many requests come after it, and a value is the
reply that was read for the request.
-/

namespace Pluster.Pool

open Proto

namespace Pipe

variable {opts : Options} {replies : ℕ → ℕ → Except Bytes Value} {s : Pipe}

/-! ### The invariant -/

structure Inv (replies : ℕ → ℕ → Except Bytes Value) (s : Pipe) : Prop where
  ok : s.conn.Ok
  isOpen : s.conn.closed = false
  /-- A request is held or has its response. -/
  once : ∀ i, (s.responses i).length + s.conn.held.count i = if i < s.requests.length then 1 else 0
  synced : s.Synced
  sent : ∀ i, ∀ resp ∈ s.responses i, Answers replies s.wires i resp
  todo : ∀ todo, s.conn.loop = .answering todo → ∀ p ∈ todo, Answers replies s.wires p.1 p.2

theorem inv_empty (replies : ℕ → ℕ → Except Bytes Value) : Inv replies {} where
  ok := ⟨nofun, nofun, nofun⟩
  isOpen := rfl
  once _ := rfl
  synced := nofun
  sent := nofun
  todo := nofun

theorem Inv.arrive (h : Inv replies s) (data : Bytes) :
    Inv replies (s.exec opts replies (.arrive data)) := by
  simp only [exec]
  split
  · refine ⟨h.ok.enqueue h.isOpen _, h.isOpen, fun i => ?_, h.synced, h.sent, h.todo⟩
    have honce := h.once i
    simp only [LoopConn.held, List.count_append, List.count_singleton, beq_iff_eq,
      List.length_append, List.length_singleton] at honce ⊢
    by_cases hi : s.requests.length = i
    · subst hi
      simp only [Nat.lt_irrefl, if_false, Nat.lt_succ_self, if_true] at honce ⊢
      omega
    have hlt : i < s.requests.length + 1 ↔ i < s.requests.length := by omega
    simp only [if_neg hi, hlt]
    omega
  · exact h

/-- Requests go from the channel to the batch. -/
theorem Inv.collect (h : Inv replies s) {c : LoopConn} (hok : c.Ok)
    (hclosed : c.closed = s.conn.closed) (hcount : ∀ i, c.held.count i = s.conn.held.count i)
    (hconnected : c.connected = s.conn.connected)
    (hloop : ∀ todo, c.loop = .answering todo → s.conn.loop = .answering todo) :
    Inv replies { s with conn := c } where
  ok := hok
  isOpen := hclosed.trans h.isOpen
  once i := by rw [hcount]; exact h.once i
  synced hc := h.synced (hconnected ▸ hc)
  sent := h.sent
  todo todo htodo := h.todo todo (hloop todo htodo)

theorem Inv.receive (h : Inv replies s) : Inv replies (s.exec opts replies .receive) := by
  refine h.collect h.ok.receive (LoopConn.receive_closed _) (LoopConn.receive_count _) ?_ ?_
  · unfold LoopConn.receive
    split
    · rfl
    · split <;> rfl
    · rfl
  · intro todo
    unfold LoopConn.receive
    split
    · nofun
    · split
      · nofun
      · exact id
    · exact id

theorem Inv.drain (h : Inv replies s) : Inv replies (s.exec opts replies .drain) := by
  refine h.collect h.ok.drain (LoopConn.drain_closed _)
    (LoopConn.drain_count_of_not_drops h.ok.not_drops) ?_ ?_
  · unfold LoopConn.drain
    split
    · split
      · split
        · rfl
        · split <;> rfl
      · rfl
    · rfl
  · intro todo
    unfold LoopConn.drain
    split
    · split
      · split
        · nofun
        · split <;> nofun
      · nofun
    · exact id

theorem Inv.serve (h : Inv replies s) (io : ServeIO) :
    Inv replies (s.exec opts replies (.serve io)) := by
  simp only [exec]
  split
  · rename_i pending hloop
    have hkeeps : Keeps s.wires (s.wiresAfter opts replies io pending) := h.synced.keeps io pending
    refine ⟨h.ok.serve _ _ _, ?_, fun i => ?_, ?_, fun i resp hresp => ?_,
      fun todo htodo p hp => ?_⟩
    · exact (LoopConn.serve_closed _ _ _ _).trans h.isOpen
    · exact LoopConn.serve_count opts.addr s.dataOf _ s.conn i ▸ h.once i
    · intro hconnected
      simp only [LoopConn.serve, hloop] at hconnected
      exact h.synced.after hconnected
    · exact (h.sent i resp hresp).keeps hkeeps
    simp only [LoopConn.serve, hloop, LoopPhase.answering.injEq] at htodo
    subst htodo
    obtain ⟨k, hk⟩ := List.mem_iff_getElem?.mp hp
    obtain ⟨hi, hresp⟩ := List.getElem?_zip_eq_some.mp hk
    exact h.synced.answers hi hresp
  · exact h

theorem Inv.answer (h : Inv replies s) : Inv replies (s.exec opts replies .answer) := by
  simp only [exec]
  split
  · rename_i hloop
    refine ⟨⟨by simp, by simp, fun hclosed => ?_⟩, h.isOpen, fun i => ?_, h.synced, h.sent, by simp⟩
    · rw [h.isOpen] at hclosed
      cases hclosed
    have honce := h.once i
    simp only [LoopConn.held, hloop, List.map_nil] at honce
    exact honce
  · rename_i i resp todo hloop
    have hanswers := h.todo _ hloop
    refine ⟨⟨by simp, by simp, fun hclosed => ?_⟩, h.isOpen, fun j => ?_, h.synced, fun j => ?_, ?_⟩
    · rw [h.isOpen] at hclosed
      cases hclosed
    · have honce := h.once j
      simp only [LoopConn.held, hloop, List.map_cons, List.count_append, List.count_cons,
        beq_iff_eq] at honce ⊢
      by_cases hj : j = i
      · subst hj
        simp only [Function.update_self, List.length_append, List.length_singleton, if_true]
          at honce ⊢
        omega
      · rw [Function.update_of_ne hj]
        rw [if_neg (Ne.symm hj)] at honce
        omega
    · intro resp' hresp'
      dsimp only at hresp' ⊢
      by_cases hj : j = i
      · subst hj
        rw [Function.update_self] at hresp'
        rcases List.mem_append.mp hresp' with hresp' | hresp'
        · exact h.sent j resp' hresp'
        rw [List.mem_singleton.mp hresp']
        exact hanswers (j, resp) (List.mem_cons_self ..)
      · rw [Function.update_of_ne hj] at hresp'
        exact h.sent j resp' hresp'
    · intro todo' htodo p hp
      cases htodo
      exact hanswers p (List.mem_cons_of_mem _ hp)
  · exact h

theorem Inv.exec (h : Inv replies s) (e : MatchEvent) : Inv replies (s.exec opts replies e) := by
  cases e with
  | arrive data => exact h.arrive data
  | receive => exact h.receive
  | drain => exact h.drain
  | serve io => exact h.serve io
  | answer => exact h.answer

end Pipe

/-! ### The way of a request to its response -/

namespace LoopConn

/-- A bound for the steps that are left of a turn. -/
def turnLeft (c : LoopConn) : ℕ :=
  match c.loop with
  | .receiving | .ended => 0
  | .collecting pending => (batchSize - pending.length) + batchSize + 3
  | .batched pending => pending.length + 2
  | .answering todo => todo.length + 1

/-- A bound for the steps that `loop` makes until it has answered a request: each request ahead
of it in the channel can take a whole turn. Requests that come later do not matter. -/
def wait (c : LoopConn) (i : ℕ) : ℕ :=
  c.turnLeft + if i ∈ c.queue then (2 * batchSize + 3) * (c.queue.idxOf i + 1) else 0

variable {c : LoopConn} {i : ℕ}

theorem wait_pos (hheld : i ∈ c.held) : 0 < c.wait i := by
  rcases List.mem_append.mp hheld with hqueue | hloop
  · rw [wait, if_pos hqueue]
    have hpos : 0 < (2 * batchSize + 3) * (c.queue.idxOf i + 1) := by
      apply Nat.mul_pos
      · decide
      · omega
    omega
  · have hleft : 0 < c.turnLeft := by
      unfold turnLeft
      cases hphase : c.loop <;> simp [hphase] at hloop ⊢
    exact Nat.lt_of_lt_of_le hleft (Nat.le_add_right _ _)

theorem wait_enqueue {j : ℕ} (hne : i ≠ j) :
    ({ c with queue := c.queue ++ [j] } : LoopConn).wait i = c.wait i := by
  have hturn : ({ c with queue := c.queue ++ [j] } : LoopConn).turnLeft = c.turnLeft := rfl
  rw [wait, wait, hturn]
  by_cases hqueue : i ∈ c.queue
  · rw [if_pos hqueue, if_pos (List.mem_append_left _ hqueue), List.idxOf_append_of_mem hqueue]
  have hnot : i ∉ c.queue ++ [j] := by simp [hqueue, hne]
  rw [if_neg hqueue, if_neg hnot]

/-- A step that takes the first request out of the channel. -/
theorem wait_take {j : ℕ} {queue : List ℕ} {loop : LoopPhase} (hqueue : c.queue = j :: queue)
    (hone : c.queue.count i ≤ 1)
    (hturn : ({ c with queue, loop } : LoopConn).turnLeft < c.turnLeft + (2 * batchSize + 3))
    (hloop : i ∉ c.queue → ({ c with queue, loop } : LoopConn).turnLeft < c.turnLeft) :
    ({ c with queue, loop } : LoopConn).wait i < c.wait i := by
  rw [hqueue] at hone hloop
  simp only [wait, hqueue]
  by_cases hj : j = i
  · -- The request itself.
    subst hj
    have hnot : j ∉ queue := by
      intro hmem
      have hpos := List.count_pos_iff.mpr hmem
      rw [List.count_cons_self] at hone
      omega
    rw [if_neg hnot, if_pos List.mem_cons_self, List.idxOf_cons_self]
    omega
  · rw [List.idxOf_cons_ne _ hj]
    by_cases hmem : i ∈ queue
    · -- A request ahead of it.
      rw [if_pos hmem, if_pos (List.mem_cons_of_mem _ hmem), Nat.succ_eq_add_one,
        Nat.mul_add_one _ (queue.idxOf i + 1)]
      omega
    · -- A request behind it.
      have hnot : i ∉ j :: queue := by simp [hmem, Ne.symm hj]
      rw [if_neg hmem, if_neg hnot]
      have hlt := hloop hnot
      omega

/-- A step that leaves the channel. -/
theorem wait_step {c' : LoopConn} (hqueue : c'.queue = c.queue) (hturn : c'.turnLeft < c.turnLeft) :
    c'.wait i < c.wait i := by
  simp only [wait, hqueue]
  omega

theorem receive_wait (hheld : i ∈ c.held) (hone : c.held.count i ≤ 1) (hopen : c.closed = false) :
    c.receive = c ∨ c.receive.wait i < c.wait i := by
  unfold receive
  split
  · rename_i j queue hloop hqueue
    have hin : i ∈ c.queue := by simpa [held, hloop] using hheld
    simp only [held, hloop, List.append_nil] at hone
    refine .inr (wait_take hqueue hone ?_ fun hnot => absurd hin hnot)
    simp [turnLeft, hloop, batchSize]
  · rw [if_neg (by rw [hopen]; exact Bool.false_ne_true)]
    exact .inl rfl
  · exact .inl rfl

theorem Ok.drain_wait (h : c.Ok) (hone : c.held.count i ≤ 1) (hopen : c.closed = false) :
    c.drain = c ∨ c.drain.wait i < c.wait i := by
  have hqueued : c.queue.count i ≤ 1 := by
    rw [held, List.count_append] at hone
    omega
  unfold LoopConn.drain
  split
  · rename_i pending hloop
    obtain ⟨-, hle⟩ := h.batch pending hloop
    -- The batch is complete.
    have hbatched : ({ c with loop := .batched pending } : LoopConn).wait i < c.wait i := by
      refine wait_step rfl ?_
      simp only [turnLeft, hloop]
      omega
    split
    · rename_i hlt
      split
      · rename_i j queue hqueue
        have hturn : ({ c with queue, loop := .collecting (pending ++ [j]) } : LoopConn).turnLeft <
            c.turnLeft := by
          simp only [turnLeft, hloop, List.length_append, List.length_singleton]
          omega
        exact .inr (wait_take hqueue hqueued (by omega) fun _ => hturn)
      · rw [if_neg (by rw [hopen]; exact Bool.false_ne_true)]
        exact .inr hbatched
    · exact .inr hbatched
  · exact .inl rfl

theorem serve_wait (addr : Bytes) (data : ℕ → Bytes) (io : TurnIO) {pending : List ℕ}
    (hloop : c.loop = .batched pending) : (c.serve addr data io).wait i < c.wait i := by
  unfold serve
  rw [hloop]
  refine wait_step rfl ?_
  simp only [turnLeft, hloop, List.length_zip, length_turn, List.length_map, Nat.min_self]
  omega

end LoopConn

namespace Pipe

variable {opts : Options} {replies : ℕ → ℕ → Except Bytes Value} {s : Pipe} {i : ℕ}

theorem Inv.count_le (h : Inv replies s) (i : ℕ) : s.conn.held.count i ≤ 1 := by
  have honce := h.once i
  split at honce <;> omega

/-- A step of `loop` brings every request that is held closer to its response. -/
theorem Inv.wait_internal (h : Inv replies s) (hheld : i ∈ s.conn.held) {e : MatchEvent}
    (hinternal : e.isInternal = true) :
    s.exec opts replies e = s ∨ (s.exec opts replies e).conn.wait i < s.conn.wait i := by
  -- A step that leaves the `LoopConn` leaves the state.
  have hsame {c : LoopConn} (hc : c = s.conn ∨ c.wait i < s.conn.wait i) :
      ({ s with conn := c } : Pipe) = s ∨ c.wait i < s.conn.wait i := by
    refine hc.imp (fun hc => ?_) id
    rw [hc]
  cases e with
  | arrive data => cases hinternal
  | receive => exact hsame (LoopConn.receive_wait hheld (h.count_le i) h.isOpen)
  | drain => exact hsame (h.ok.drain_wait (h.count_le i) h.isOpen)
  | serve io =>
    simp only [Pipe.exec]
    split
    · exact .inr (LoopConn.serve_wait _ _ _ ‹_›)
    · exact .inl rfl
  | answer =>
    simp only [Pipe.exec]
    split
    · rename_i hloop
      refine .inr (LoopConn.wait_step rfl ?_)
      simp [LoopConn.turnLeft, hloop]
    · rename_i hloop
      refine .inr (LoopConn.wait_step rfl ?_)
      simp [LoopConn.turnLeft, hloop]
    · exact .inl rfl

theorem Inv.wait_arrive (h : Inv replies s) (hheld : i ∈ s.conn.held) (data : Bytes) :
    (s.exec opts replies (.arrive data)).conn.wait i = s.conn.wait i := by
  have hne : i ≠ s.requests.length := by
    rintro rfl
    have honce := h.once s.requests.length
    have hpos := List.count_pos_iff.mpr hheld
    rw [if_neg (Nat.lt_irrefl _)] at honce
    omega
  simp only [Pipe.exec]
  split
  · exact LoopConn.wait_enqueue hne
  · rfl

theorem requests_le (opts : Options) (replies : ℕ → ℕ → Except Bytes Value) (s : Pipe)
    (e : MatchEvent) : s.requests.length ≤ (s.exec opts replies e).requests.length := by
  cases e with
  | arrive data =>
    simp only [Pipe.exec]
    split
    · simp
    · exact le_rfl
  | receive | drain => exact le_rfl
  | serve io | answer =>
    simp only [Pipe.exec]
    split <;> exact le_rfl

theorem responses_le (opts : Options) (replies : ℕ → ℕ → Except Bytes Value) (s : Pipe)
    (e : MatchEvent) (i : ℕ) :
    (s.responses i).length ≤ ((s.exec opts replies e).responses i).length := by
  cases e with
  | arrive data | serve io =>
    simp only [Pipe.exec]
    split <;> exact le_rfl
  | receive | drain => exact le_rfl
  | answer =>
    simp only [Pipe.exec]
    split
    · exact le_rfl
    · rename_i j resp todo hloop
      dsimp only
      by_cases hi : i = j
      · rw [hi, Function.update_self, List.length_append]
        omega
      · rw [Function.update_of_ne hi]
    · exact le_rfl

/-- A request that has arrived is held until it has its response. -/
theorem Inv.held_of_exec (h : Inv replies s) (hi : i < s.requests.length) {e : MatchEvent}
    (hheld : i ∈ (s.exec opts replies e).conn.held) : i ∈ s.conn.held := by
  have hbefore := h.once i
  have hinv : Inv replies (s.exec opts replies e) := h.exec e
  have hafter := hinv.once i
  have hrequests := requests_le opts replies s e
  have hresponses := responses_le opts replies s e i
  have hpos := List.count_pos_iff.mpr hheld
  rw [if_pos hi] at hbefore
  rw [if_pos (by omega)] at hafter
  exact List.count_pos_iff.mp (by omega)

/-- A run in which every event of `loop` is a step. -/
def Moving (opts : Options) (replies : ℕ → ℕ → Except Bytes Value) (s : Pipe) (e : MatchEvent) :
    Prop := e.isInternal = true → s.exec opts replies e ≠ s

/-- `loop` can make no step. -/
def Still (opts : Options) (replies : ℕ → ℕ → Except Bytes Value) (s : Pipe) : Prop :=
  ∀ e : MatchEvent, e.isInternal = true → s.exec opts replies e = s

/-- The steps that `loop` makes while it holds a request. -/
theorem Inv.wait_run (h : Inv replies s) (hi : i < s.requests.length) {later : List MatchEvent}
    (hmoving : Runs.Meets (Pipe.exec opts replies) (Moving opts replies) s later)
    (hheld : i ∈ (Runs.run (Pipe.exec opts replies) s later).conn.held) :
    i ∈ s.conn.held ∧ later.countP MatchEvent.isInternal +
      (Runs.run (Pipe.exec opts replies) s later).conn.wait i ≤ s.conn.wait i := by
  induction later generalizing s with
  | nil => exact ⟨hheld, by simp⟩
  | cons e later ih =>
    have hrequests := requests_le opts replies s e
    obtain ⟨hnext, hwait⟩ := ih (h.exec e) (by omega) hmoving.2 hheld
    have hhere := h.held_of_exec hi hnext
    refine ⟨hhere, ?_⟩
    rw [List.countP_cons, Runs.run_cons]
    cases hinternal : e.isInternal with
    | true =>
      have hlt := (h.wait_internal hhere hinternal).resolve_left (hmoving.1 hinternal)
      rw [if_pos rfl]
      omega
    | false =>
      cases e with
      | arrive data =>
        have hsame : (s.exec opts replies (.arrive data)).conn.wait i = s.conn.wait i :=
          h.wait_arrive hhere data
        rw [if_neg Bool.false_ne_true]
        omega
      | receive | drain | serve io | answer => cases hinternal

theorem Inv.held_of_still (h : Inv replies s) (hstill : s.Still opts replies) :
    s.conn.held = [] := by
  have hreceive : s.conn.receive = s.conn := congrArg Pipe.conn (hstill .receive rfl)
  have hdrain : s.conn.drain = s.conn := congrArg Pipe.conn (hstill .drain rfl)
  have hserve : s.conn.serve opts.addr s.dataOf (s.turnInput opts replies {}) = s.conn := by
    have hsame := congrArg Pipe.conn (hstill (.serve {}) rfl)
    simp only [Pipe.exec] at hsame
    split at hsame
    · exact hsame
    rename_i hloop
    unfold LoopConn.serve
    split
    · exact absurd ‹_› (hloop _)
    · rfl
  refine h.ok.idle hreceive hdrain hserve fun todo hloop => ?_
  have hsame := congrArg (fun s : Pipe => s.conn.loop) (hstill .answer rfl)
  cases todo with
  | nil =>
    simp only [Pipe.exec, hloop] at hsame
    cases hsame
  | cons first todo =>
    simp only [Pipe.exec, hloop] at hsame
    simp at hsame

theorem Inv.answered (h : Inv replies s) (hi : i < s.requests.length) (hheld : i ∉ s.conn.held) :
    ∃ resp, s.responses i = [resp] := by
  have honce := h.once i
  rw [List.count_eq_zero.mpr hheld, if_pos hi] at honce
  exact List.length_eq_one_iff.mp honce

/-- A connection with a reply that was not read is never used again. -/
theorem Inv.unread_run (h : Inv replies s) {e : ℕ} {w : Wire} (hw : s.wires[e]? = some w)
    (hunread : w.read < w.commands.length) (later : List MatchEvent) :
    (Runs.run (Pipe.exec opts replies) s later).wires[e]? = some w := by
  induction later generalizing s with
  | nil => exact hw
  | cons event later ih =>
    refine ih (h.exec event) ?_
    cases event with
    | arrive data | answer =>
      simp only [Pipe.exec]
      split <;> exact hw
    | receive | drain => exact hw
    | serve io =>
      simp only [Pipe.exec]
      split
      · rcases h.synced.keeps io _ e w hw with hsame | ⟨hstep, -⟩
        · exact hsame
        rw [hstep] at hunread
        omega
      · exact hw

/-- In every state of a run no request has two responses, and a value is the reply that the
backend sent for the request: it was read as the reply to the command that the request was on its
connection. However the run goes on, a request has exactly one response after as many steps of
`loop` as `wait` says, or earlier if `loop` comes to a stop; and a connection with a reply that
was not read stays as it is. -/
theorem pipelined_replies_match (opts : Options) (replies : ℕ → ℕ → Except Bytes Value)
    (events : List MatchEvent) :
    let exec := Pipe.exec opts replies
    let s := Runs.run exec {} events
    (∀ i, (s.responses i).length ≤ 1) ∧
      (∀ i, ∀ resp ∈ s.responses i, ∀ v, resp.result = .ok v →
        ∃ e n w, s.wires[e]? = some w ∧ w.commands[n]? = some (some i) ∧ n < w.read ∧
          replies e n = .ok v) ∧
      (∀ i < s.requests.length, ∀ later, Runs.Meets exec (Moving opts replies) s later →
        s.conn.wait i ≤ later.countP MatchEvent.isInternal ∨
          (Runs.run exec s later).Still opts replies →
        ∃ resp, (Runs.run exec s later).responses i = [resp]) ∧
      ∀ (e : ℕ) (w : Wire), s.wires[e]? = some w → w.read < w.commands.length →
        ∀ later, (Runs.run exec s later).wires[e]? = some w := by
  intro exec s
  have hinv (s : Pipe) (h : Inv replies s) (events : List MatchEvent) :
      Inv replies (Runs.run exec s events) :=
    Runs.run_invariant (fun _ e h => h.exec e) h events
  have h : Inv replies s := hinv {} (inv_empty replies) events
  refine ⟨fun i => ?_, h.sent, fun i hi later hmoving hend => ?_, fun e w hw hunread later => ?_⟩
  · have honce := h.once i
    split at honce <;> omega
  · have hlater := hinv s h later
    have hrequests : i < (Runs.run exec s later).requests.length := by
      refine @Runs.run_invariant _ _ _ (fun s : Pipe => i < s.requests.length) ?_ _ hi later
      intro s e hi
      exact lt_of_lt_of_le hi (requests_le opts replies s e)
    apply hlater.answered hrequests
    intro hheld
    rcases hend with hsteps | hstill
    · obtain ⟨-, hwait⟩ := h.wait_run hi hmoving hheld
      have hpos : 0 < (Runs.run (Pipe.exec opts replies) s later).conn.wait i :=
        LoopConn.wait_pos hheld
      omega
    · rw [hlater.held_of_still hstill] at hheld
      cases hheld
  · exact h.unread_run hw hunread later

/-- The second read of the first batch fails, and the next batch has a connection of its own. -/
example :
    let replies : ℕ → ℕ → Except Bytes Value :=
      fun e n => if e = 0 ∧ n = 1 then .error [] else .ok (.integer n)
    let s := Runs.run (exec { addr := [] } replies) {} [.arrive [], .receive, .arrive [], .drain,
      .drain, .serve {}, .arrive [], .answer, .answer, .answer, .receive, .drain, .serve {}]
    s.wires.map Wire.commands = [[some 0, some 1], [some 2]] ∧ s.wires.map Wire.read = [1, 1] := by
  decide

end Pipe

end Pluster.Pool
