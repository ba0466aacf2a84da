import Pluster.Lib.Parties
import Pluster.Lib.Runs

/-!
# Counting clients

`onClientOpen` and `onClientClose` of `pkg/engine/handler.go` count the clients in
`numClients` and refuse a connection when `maxClients` of them are open. The event loops
run them at the same time, so that each access to a counter is a step of its own. Of gnet
it is assumed that `OnClose` is called once for every connection for which `OnOpen` was
called. A connection that was refused has no context: `isClientConn` takes it for a client
by its local address.
-/

namespace Pluster.Engine

variable {n : ℤ}

/-- How far a client connection is. -/
inductive ClientPhase
  /-- `OnOpen` has been called. -/
  | arrived
  /-- `maxClients` has been read. -/
  | limited (max : ℤ)
  /-- `onClientOpen` goes on to count the connection. -/
  | admitted
  /-- The connection is counted and has its context. -/
  | accepted
  /-- `OnOpen` asks gnet to close the connection. -/
  | rejected
  /-- An accepted connection has been closed. -/
  | left
  /-- A rejected connection has been closed. -/
  | turnedAway
  deriving DecidableEq

/-- The connections in the order of their arrival, and the counters of the handler. -/
structure ClientTable where
  conns : List ClientPhase := []
  numClients : ℤ := 0
  maxClients : ℤ

/-- What happens to the connections. -/
inductive ClientEvent
  | arrive
  | loadMaxClients (i : ℕ)
  | loadNumClients (i : ℕ)
  /-- `numClients.Add(1)` and the rest of `onClientOpen`. -/
  | count (i : ℕ)
  /-- `OnClose`. -/
  | close (i : ℕ)
  | setMaxClients (n : ℤ)
  deriving DecidableEq

variable {e : ClientEvent}

namespace ClientTable

/-- A connection gets to a phase. -/
def enter (s : ClientTable) (i : ℕ) (phase : ClientPhase) : ClientTable :=
  { s with conns := s.conns.set i phase }

/-- Execute one event. An event that cannot occur changes nothing. -/
def exec (s : ClientTable) : ClientEvent → ClientTable
  | .arrive => { s with conns := s.conns ++ [.arrived] }
  | .loadMaxClients i =>
    if s.conns[i]? = some .arrived then
      s.enter i (if 0 < s.maxClients then .limited s.maxClients else .admitted)
    else s
  | .loadNumClients i =>
    match s.conns[i]? with
    | some (.limited max) => s.enter i (if max ≤ s.numClients then .rejected else .admitted)
    | _ => s
  | .count i =>
    if s.conns[i]? = some .admitted then
      { s.enter i .accepted with numClients := s.numClients + 1 }
    else s
  | .close i =>
    match s.conns[i]? with
    | some .accepted => { s.enter i .left with numClients := s.numClients - 1 }
    -- `isClientConn` says yes, and `onClientClose` counts before it looks for a context.
    | some .rejected => { s.enter i .turnedAway with numClients := s.numClients - 1 }
    | _ => s
  | .setMaxClients n => { s with maxClients := n }

/-- The handler before the first connection. -/
def new (maxClients : ℤ) : ClientTable := { maxClients }

/-- The number of accepted connections that are open. -/
def numOpen (s : ClientTable) : ℕ := s.conns.countP (· = .accepted)

/-- The number of rejected connections that have been closed. -/
def numTurnedAway (s : ClientTable) : ℕ := s.conns.countP (· = .turnedAway)

/-- `onClientOpen` is between its check and the count, for some connection. -/
def isOpening : ClientPhase → Bool
  | .limited _ | .admitted => true
  | _ => false

/-- No other connection is being opened. -/
def Quiet (s : ClientTable) : Prop := ∀ phase ∈ s.conns, isOpening phase = false

instance (s : ClientTable) : Decidable s.Quiet := inferInstanceAs (Decidable (∀ _ ∈ _, _))

/-- Connections are opened one after the other, the limit does not change meanwhile, and no
rejected connection is closed. -/
def Serial (s : ClientTable) : ClientEvent → Prop
  | .loadMaxClients _ | .setMaxClients _ => s.Quiet
  | .close i => s.conns[i]? ≠ some .rejected
  | _ => True

instance (s : ClientTable) : DecidablePred s.Serial := fun e => by
  cases e <;> unfold Serial <;> infer_instance

variable {s : ClientTable} {i : ℕ} {phase phase' : ClientPhase}

/-! ### What is counted -/

/-- The count of a phase when one connection changes its phase. -/
theorem countP_enter (p : ClientPhase → Bool) (h : s.conns[i]? = some phase) (phase' : ClientPhase) :
    ((s.enter i phase').conns.countP p : ℤ) =
      s.conns.countP p - (p phase).toNat + (p phase').toNat := by
  have hset := Parties.countP_set (p := p) h phase'
  simp only [enter]
  omega

/-- `numClients` counts the accepted connections up and down, and the rejected ones down
only. -/
def Counted (s : ClientTable) : Prop := s.numClients = s.numOpen - s.numTurnedAway

theorem Counted.enter (h : s.Counted) (hphase : s.conns[i]? = some phase)
    (hn : n = s.numClients - (decide (phase = .accepted)).toNat +
      (decide (phase' = .accepted)).toNat + (decide (phase = .turnedAway)).toNat -
      (decide (phase' = .turnedAway)).toNat) :
    ({ s.enter i phase' with numClients := n } : ClientTable).Counted := by
  have hopen := countP_enter (fun phase => decide (phase = .accepted)) hphase phase'
  have haway := countP_enter (fun phase => decide (phase = .turnedAway)) hphase phase'
  simp only [Counted, numOpen, numTurnedAway] at h ⊢
  rw [hn, h, hopen, haway]
  ring

theorem Counted.exec (h : s.Counted) (e : ClientEvent) : (s.exec e).Counted := by
  cases e with
  | arrive => simpa [Counted, numOpen, numTurnedAway, ClientTable.exec] using h
  | loadMaxClients i | loadNumClients i =>
    simp only [ClientTable.exec]
    split
    · rename_i hphase
      split
      · exact h.enter hphase (by simp)
      · exact h.enter hphase (by simp)
    · exact h
  | count i =>
    simp only [ClientTable.exec]
    split
    · rename_i hphase
      exact h.enter hphase (by simp)
    · exact h
  | close i =>
    simp only [ClientTable.exec]
    split
    · rename_i hphase
      exact h.enter hphase (by simp)
    · rename_i hphase
      exact h.enter hphase (by simp)
    · exact h
  | setMaxClients n => exact h

theorem counted_run (maxClients : ℤ) (events : List ClientEvent) :
    (Runs.run exec (new maxClients) events).Counted := by
  have hstep : ∀ (s : ClientTable) e, s.Counted → (s.exec e).Counted := fun _ e h => h.exec e
  have hnew : (new maxClients).Counted := rfl
  exact Runs.run_invariant hstep hnew events

/-! ### The limit -/

/-- What holds while connections are opened one after the other: what `onClientOpen` has read
for the connection that it opens is still true. -/
structure Checked (s : ClientTable) : Prop where
  single : s.conns.countP isOpening ≤ 1
  limited : ∀ max, .limited max ∈ s.conns → max = s.maxClients
  admitted : .admitted ∈ s.conns → s.maxClients ≤ 0 ∨ s.numClients < s.maxClients

theorem mem_enter (h : phase ∈ (s.enter i phase').conns) : phase ∈ s.conns ∨ phase = phase' :=
  List.mem_or_eq_of_mem_set h

/-- A connection that is not being opened changes its phase, and the count does not grow. -/
theorem Checked.leave (h : s.Checked) (hphase : s.conns[i]? = some phase)
    (hnot : isOpening phase' = false) (hn : n ≤ s.numClients) :
    ({ s.enter i phase' with numClients := n } : ClientTable).Checked where
  single := by
    have hcount := countP_enter isOpening hphase phase'
    have hsingle := h.single
    have hgoal : (s.enter i phase').conns.countP isOpening ≤ 1 := by
      rw [hnot, Bool.toNat_false] at hcount
      omega
    exact hgoal
  limited max hmem := by
    rcases mem_enter hmem with hmem | rfl
    · exact h.limited max hmem
    · cases hnot
  admitted hmem := by
    rcases mem_enter hmem with hmem | rfl
    · exact (h.admitted hmem).imp_right fun hlt => hn.trans_lt hlt
    · cases hnot

/-- The connection that is being opened is the only one. -/
theorem Checked.alone (h : s.Checked) (hphase : s.conns[i]? = some phase)
    (hopening : isOpening phase = true) (hnot : isOpening phase' = false) :
    (s.enter i phase').Quiet := by
  have hcount := countP_enter isOpening hphase phase'
  have hsingle := h.single
  have hzero : (s.enter i phase').conns.countP isOpening = 0 := by
    rw [hopening, hnot, Bool.toNat_true, Bool.toNat_false] at hcount
    omega
  intro other hother
  simpa using List.countP_eq_zero.mp hzero other hother

theorem Quiet.checked (h : s.Quiet) : s.Checked where
  single := by
    have hzero : s.conns.countP isOpening = 0 :=
      List.countP_eq_zero.mpr fun phase hphase => by simp [h phase hphase]
    omega
  limited max hmem := by
    have := h _ hmem
    cases this
  admitted hmem := by
    have := h _ hmem
    cases this

/-- A connection begins to be opened, or has passed the check. -/
theorem Checked.pass (h : s.Checked) (hphase : s.conns[i]? = some phase)
    (hold : isOpening phase = true ∨ s.Quiet)
    (hlimited : ∀ max, phase' = .limited max → max = s.maxClients)
    (hadmitted : phase' = .admitted → s.maxClients ≤ 0 ∨ s.numClients < s.maxClients) :
    (s.enter i phase').Checked where
  single := by
    have hcount := countP_enter isOpening hphase phase'
    have hle : s.conns.countP isOpening ≤ (isOpening phase).toNat := by
      rcases hold with hopening | hquiet
      · rw [hopening]
        exact h.single
      have hzero : s.conns.countP isOpening = 0 :=
        List.countP_eq_zero.mpr fun phase hphase => by simp [hquiet phase hphase]
      omega
    have hone := Bool.toNat_le (isOpening phase')
    omega
  limited max hmem := by
    rcases mem_enter hmem with hmem | heq
    · exact h.limited max hmem
    · exact hlimited max heq.symm
  admitted hmem := by
    rcases mem_enter hmem with hmem | heq
    · exact h.admitted hmem
    · exact hadmitted heq.symm

theorem Checked.exec (h : s.Checked) (hserial : s.Serial e) : (s.exec e).Checked := by
  cases e with
  | arrive =>
    refine ⟨?_, fun max hmem => ?_, fun hmem => ?_⟩
    · simpa [ClientTable.exec, isOpening] using h.single
    · exact h.limited max (by simpa [ClientTable.exec] using hmem)
    · exact h.admitted (by simpa [ClientTable.exec] using hmem)
  | loadMaxClients i =>
    simp only [ClientTable.exec]
    split
    · rename_i hphase
      split
      · refine h.pass hphase (Or.inr hserial) (fun max heq => ?_) nofun
        cases heq
        rfl
      rename_i hmax
      exact h.pass hphase (Or.inr hserial) nofun fun _ => Or.inl (not_lt.mp hmax)
    · exact h
  | loadNumClients i =>
    simp only [ClientTable.exec]
    split
    · rename_i max hphase
      have hmax := h.limited max (List.mem_of_getElem? hphase)
      split
      · exact h.leave hphase rfl le_rfl
      rename_i hlt
      refine h.pass hphase (Or.inl rfl) nofun fun _ => Or.inr ?_
      rw [← hmax]
      exact not_le.mp hlt
    · exact h
  | count i =>
    simp only [ClientTable.exec]
    split
    · rename_i hphase
      have hquiet : ({ s.enter i .accepted with numClients := s.numClients + 1 } :
          ClientTable).Quiet := h.alone hphase rfl rfl
      exact hquiet.checked
    · exact h
  | close i =>
    simp only [ClientTable.exec]
    split
    · rename_i hphase
      exact h.leave hphase rfl (by omega)
    · rename_i hphase
      exact absurd hphase hserial
    · exact h
  | setMaxClients n =>
    have hquiet : s.Quiet := hserial
    have hsame : ({ s with maxClients := n } : ClientTable).Quiet := hquiet
    exact hsame.checked

/-- No rejected connection has been closed. -/
theorem numTurnedAway_exec (h : s.numTurnedAway = 0) (hserial : s.Serial e) :
    (s.exec e).numTurnedAway = 0 := by
  have hnone : ∀ phase ∈ s.conns, phase ≠ .turnedAway := by
    simpa [numTurnedAway, List.countP_eq_zero] using h
  have henter : ∀ {i phase'} {n : ℤ}, phase' ≠ .turnedAway →
      ({ s.enter i phase' with numClients := n } : ClientTable).numTurnedAway = 0 := by
    intro i phase' n hne
    refine List.countP_eq_zero.mpr fun phase hmem => ?_
    rcases mem_enter hmem with hmem | rfl
    · simpa using hnone phase hmem
    · simpa using hne
  cases e with
  | arrive => simpa [numTurnedAway, ClientTable.exec] using h
  | loadMaxClients i | loadNumClients i =>
    simp only [ClientTable.exec]
    split
    · split <;> exact henter (by simp)
    · exact h
  | count i =>
    simp only [ClientTable.exec]
    split
    · exact henter (by simp)
    · exact h
  | close i =>
    simp only [ClientTable.exec]
    split
    · exact henter (by simp)
    · rename_i hphase
      exact absurd hphase hserial
    · exact h
  | setMaxClients n => exact h

/-- In every run `numClients` is the number of accepted connections that are open if and only
if no rejected connection has been closed. If moreover connections are opened one after the
other, a connection is accepted only when fewer than `maxClients` accepted ones are open. -/
theorem client_count_exact_iff (maxClients : ℤ) (events : List ClientEvent) :
    let s := Runs.run exec (new maxClients) events
    (s.numClients = s.numOpen ↔ s.numTurnedAway = 0) ∧
      (Runs.Meets exec Serial (new maxClients) events →
        s.numClients = s.numOpen ∧
          ∀ i, s.conns[i]? = some .admitted → (s.exec (.count i)).numOpen = s.numOpen + 1 ∧
            (0 < s.maxClients → (s.numOpen : ℤ) < s.maxClients)) := by
  intro s
  have hcounted : s.Counted := counted_run maxClients events
  have hiff : s.numClients = s.numOpen ↔ s.numTurnedAway = 0 := by
    unfold Counted at hcounted
    omega
  refine ⟨hiff, fun hserial => ?_⟩
  have hstep : ∀ (s : ClientTable) e, s.Checked ∧ s.numTurnedAway = 0 → s.Serial e →
      (s.exec e).Checked ∧ (s.exec e).numTurnedAway = 0 :=
    fun s e h hs => ⟨h.1.exec hs, numTurnedAway_exec h.2 hs⟩
  have hnew : (new maxClients).Checked ∧ (new maxClients).numTurnedAway = 0 :=
    ⟨Quiet.checked (by simp [Quiet, new]), rfl⟩
  have hinv : s.Checked ∧ s.numTurnedAway = 0 := hserial.invariant hstep hnew
  have hexact := hiff.mpr hinv.2
  refine ⟨hexact, fun i hphase => ⟨?_, fun hmax => ?_⟩⟩
  · have hcount := countP_enter (fun phase => decide (phase = .accepted)) hphase .accepted
    simp only [ClientTable.exec, if_pos hphase, numOpen]
    simp only [reduceCtorEq, decide_false, decide_true, Bool.toNat_false, Bool.toNat_true] at hcount
    omega
  · rcases hinv.1.admitted (List.mem_of_getElem? hphase) with hle | hlt
    · omega
    rw [← hexact]
    exact hlt

/-- Two clients with room for two: the second one is accepted with one open. -/
theorem client_count_exact_iff_room :
    let events : List ClientEvent := [.arrive, .loadMaxClients 0, .loadNumClients 0, .count 0,
      .arrive, .loadMaxClients 1, .loadNumClients 1]
    let s := Runs.run exec (new 2) events
    s.numClients = s.numOpen ∧ s.conns[1]? = some .admitted ∧ (s.numOpen : ℤ) < s.maxClients := by
  intro events s
  have hserial : Runs.Meets exec Serial (new 2) events := by decide
  obtain ⟨hexact, hlimit⟩ := (client_count_exact_iff 2 events).2 hserial
  have hphase : s.conns[1]? = some .admitted := by decide
  exact ⟨hexact, hphase, (hlimit 1 hphase).2 (by decide)⟩

/-- With room for one client, a second one is rejected. Its close is counted, and a third one
is accepted while the first is still open. -/
theorem rejected_client_uncounts :
    let events : List ClientEvent := [.arrive, .loadMaxClients 0, .loadNumClients 0, .count 0,
      .arrive, .loadMaxClients 1, .loadNumClients 1, .close 1]
    let later : List ClientEvent := [.arrive, .loadMaxClients 2, .loadNumClients 2, .count 2]
    let s := Runs.run exec (new 1) events
    let t := Runs.run exec (new 1) (events ++ later)
    s.numClients = 0 ∧ s.numOpen = 1 ∧ t.conns = [.accepted, .turnedAway, .accepted] ∧
      t.maxClients = 1 ∧ t.numOpen = 2 := by
  decide

end ClientTable

end Pluster.Engine
