import Pluster.Engine.Commands

/-!
# When a plan is chosen

For each plan of `dispatchClientRequest`, the requests and client states for which it
is chosen. Results about runs take cases on the plan and read these conditions off.
-/

namespace Pluster.Engine

open Proto GoStrings GoRuntime

variable {s : Session} {req : Request}

/-- SUBSCRIBE or PSUBSCRIBE. -/
def isSubscribe (req : Request) : Bool := [Verb.subscribe, .psubscribe].contains (Verb.of req)

namespace Session

/-- The client is in a transaction. -/
def InMulti (s : Session) : Prop := s.state = .multi ∨ s.state = .watchMulti

instance (s : Session) : Decidable s.InMulti := inferInstanceAs (Decidable (_ ∨ _))

/-- The request reaches the switch of `handleNormal`. -/
def ReachesSwitch (s : Session) (req : Request) : Prop :=
  req.args ≠ [] ∧ (s.state = .normal ∨ s.state = .watch) ∧ refused s req = false ∧
    waitsForWatch s req = false

/-- The request is buffered: a blocking command is under way, or a WATCH is dialling. -/
def Buffers (s : Session) (req : Request) : Prop :=
  req.args ≠ [] ∧
    ((s.state = .blocking ∧ Verb.of req ≠ .quit ∧ Verb.of req ≠ .reset) ∨
      ((s.state = .normal ∨ s.state = .watch) ∧ refused s req = false ∧
        waitsForWatch s req = true))

/-- The request is an EXEC in a transaction without errors. -/
def Executes (s : Session) (req : Request) : Prop :=
  s.InMulti ∧ Verb.of req = .exec ∧ s.txErr = false

/-- EXEC does not find a watch connection. -/
def Unwatched (s : Session) : Prop := s.state = .multi ∨ s.watchBackend = none

instance (s : Session) : Decidable s.Unwatched := inferInstanceAs (Decidable (_ ∨ _))

/-- The commands that can change the local data. -/
def localVerbs : List Verb := [.auth, .hello, .client, .proxy]

/-- The condition under which a plan is chosen. -/
def Chooses (s : Session) (req : Request) : Plan → Prop
  | .reply _ => req.args ≠ []
  | .replies _ _ => s.ReachesSwitch req ∧ Verb.of req ∈ localVerbs
  | .router | .mux _ | .fanOut _ _ | .blocking _ | .panic => s.ReachesSwitch req
  | .buffer => s.Buffers req
  | .write _ => req.args = []
  | .quit => Verb.of req = .quit
  | .reset => Verb.of req = .reset
  | .enterMulti state => s.ReachesSwitch req ∧ Verb.of req = .multi ∧
      state = if s.state = .watch then .watchMulti else .multi
  | .watch _ => s.ReachesSwitch req ∧ Verb.of req = .watch
  | .unwatch => s.ReachesSwitch req ∧ Verb.of req = .unwatch
  | .subscribe => s.state = .subscribe ∨ isSubscribe req = true
  | .unsubscribe | .push _ => s.state = .subscribe
  | .queue | .queueError _ => s.InMulti ∧ Verb.of req ≠ .exec ∧ Verb.of req ≠ .discard
  | .execAbort => s.InMulti ∧ Verb.of req = .exec ∧ s.txErr = true
  | .execWatched c => s.Executes req ∧ s.state = .watchMulti ∧ s.watchBackend = some c
  | .execEmpty => s.Executes req ∧ s.Unwatched ∧ s.txQueue = []
  | .execError _ | .execDial _ => s.Executes req ∧ s.Unwatched ∧ s.txQueue ≠ []
  | .execReuse c => s.Executes req ∧ s.Unwatched ∧ s.txQueue ≠ [] ∧ s.multiBackend = some c
  | .discard => s.InMulti ∧ Verb.of req = .discard

private theorem chooses_handleCLUSTER (h : s.ReachesSwitch req) (cfg : Config) (env : Env)
    (args : List Bytes) : s.Chooses req (handleCLUSTER cfg env args) := by
  unfold handleCLUSTER
  split
  · simp only
    split
    · exact h.1
    split
    · exact h
    · split <;> exact h.1
  · exact h.1

private theorem chooses_handleWATCH (h : s.ReachesSwitch req) (hverb : Verb.of req = .watch)
    (env : Env) (args : List Bytes) : s.Chooses req (handleWATCH env s args) := by
  unfold handleWATCH
  split
  · split
    · exact h.1
    split
    · exact h.1
    split
    · exact h.1
    · exact ⟨h, hverb⟩
  · exact h.1

private theorem chooses_handleOther (h : s.ReachesSwitch req) (env : Env) :
    s.Chooses req (handleOther env req) := by
  unfold handleOther
  split
  · unfold dispatchBlockingCommand
    split
    · exact h
    · exact h.1
    split
    · exact h.1
    split
    · exact h.1
    · exact h
  · unfold routeToBackend
    split
    · exact h
    split
    · exact h.1
    split
    · exact h
    unfold routeKey
    split
    · exact h
    split
    · split
      · cases routeMultiKeyToMux env.nodeForSlot _ req with
        | immediate data => exact h.1
        | _ => exact h
      · exact h
    · split
      · exact h.1
      · exact h

theorem chooses_handleVerb (h : s.ReachesSwitch req) (cfg : Config) (env : Env) :
    s.Chooses req (handleVerb cfg env s req) := by
  simp only [handleVerb]
  cases hverb : Verb.of req with
  | quit | reset => exact hverb
  | hello | auth | client | proxy => exact ⟨h, by rw [hverb]; decide⟩
  | info | eval | broadcast => exact h
  | cluster => exact chooses_handleCLUSTER h cfg env _
  | multi => exact ⟨h, hverb, rfl⟩
  | watch => exact chooses_handleWATCH h hverb env _
  | unwatch => exact ⟨h, hverb⟩
  | subscribe | psubscribe => exact Or.inr (by simp [isSubscribe, hverb])
  | other | unsubscribe | punsubscribe => exact chooses_handleOther h env
  | echo | readonly | readwrite =>
    simp only
    split <;> exact h.1
  | select =>
    simp only
    split
    · exact h.1
    · split <;> exact h.1
  | _ => exact h.1

private theorem chooses_execUnwatched (h : s.Executes req) (hun : s.Unwatched) (env : Env) :
    s.Chooses req (execUnwatched env s) := by
  unfold execUnwatched
  split
  · rename_i hqueue
    exact ⟨h, hun, hqueue⟩
  rename_i hqueue
  split
  · exact ⟨h, hun, hqueue⟩
  split
  · exact ⟨h, hun, hqueue⟩
  rename_i c hmulti
  split
  · exact ⟨h, hun, hqueue, hmulti⟩
  · exact ⟨h, hun, hqueue⟩

private theorem chooses_execMulti (h : s.InMulti) (hverb : Verb.of req = .exec) (env : Env) :
    s.Chooses req (execMulti env s) := by
  unfold execMulti
  split
  · rename_i herr
    exact ⟨h, hverb, herr⟩
  rename_i herr
  have hexec : s.Executes req := ⟨h, hverb, by simpa using herr⟩
  split
  · rename_i hstate
    split
    · rename_i c hwatch
      exact ⟨hexec, hstate, hwatch⟩
    rename_i hwatch
    exact chooses_execUnwatched hexec (Or.inr hwatch) env
  · rename_i hstate
    exact chooses_execUnwatched hexec (Or.inl (h.resolve_right hstate)) env

private theorem chooses_queueRequest (h : s.InMulti) (hexec : Verb.of req ≠ .exec)
    (hdiscard : Verb.of req ≠ .discard) : s.Chooses req (queueRequest req) := by
  unfold queueRequest
  split
  · exact ⟨h, hexec, hdiscard⟩
  · split <;> exact ⟨h, hexec, hdiscard⟩

theorem chooses_handleInMulti (h : s.InMulti) (hargs : req.args ≠ []) (env : Env) :
    s.Chooses req (handleInMulti env s req) := by
  unfold handleInMulti
  cases hverb : Verb.of req with
  | exec => exact chooses_execMulti h hverb env
  | discard => exact ⟨h, hverb⟩
  | reset | quit => exact hverb
  | multi | watch | unwatch => exact hargs
  | _ => exact chooses_queueRequest h (by simp [hverb]) (by simp [hverb])

theorem chooses_handleInSubscribe (h : s.state = .subscribe) (hargs : req.args ≠ []) :
    s.Chooses req (handleInSubscribe req) := by
  unfold handleInSubscribe
  cases hverb : Verb.of req with
  | reset | quit => exact hverb
  | ping | unsubscribe | punsubscribe => exact h
  | subscribe | psubscribe => exact Or.inl h
  | _ => exact hargs

theorem chooses_handleNormal (hargs : req.args ≠ [])
    (hstate : s.state = .normal ∨ s.state = .watch) (cfg : Config) (env : Env) :
    s.Chooses req (handleNormal cfg env s req) := by
  unfold handleNormal
  split
  · exact hargs
  rename_i hrefused
  split
  · rename_i hwaits
    exact ⟨hargs, Or.inr ⟨hstate, by simpa using hrefused, hwaits⟩⟩
  rename_i hwaits
  exact chooses_handleVerb ⟨hargs, hstate, by simpa using hrefused, by simpa using hwaits⟩ cfg env

/-- In a blocking command only QUIT and RESET are handled. -/
private theorem chooses_leaving (hargs : req.args ≠ [])
    (hverb : Verb.of req = .quit ∨ Verb.of req = .reset) (cfg : Config) (env : Env) :
    s.Chooses req (handleNormal cfg env s req) := by
  unfold handleNormal
  split
  · exact hargs
  have hwaits : waitsForWatch s req = false := by
    rcases hverb with hverb | hverb <;> simp [waitsForWatch, hverb]
  rw [hwaits, if_neg (by simp)]
  rcases hverb with hverb | hverb
  · simp only [handleVerb, hverb, Chooses]
  · simp only [handleVerb, hverb, Chooses]

/-- What `dispatchClientRequest` decides. -/
theorem chooses_dispatchClientRequest (cfg : Config) (env : Env) (s : Session) (req : Request) :
    s.Chooses req (dispatchClientRequest cfg env s req) := by
  unfold dispatchClientRequest
  split
  · rename_i hargs
    exact hargs
  rename_i hargs
  split
  · rename_i hstate
    exact chooses_handleInMulti (Or.inl hstate) hargs env
  · rename_i hstate
    exact chooses_handleInMulti (Or.inr hstate) hargs env
  · rename_i hstate
    exact chooses_handleInSubscribe hstate hargs
  · rename_i hstate
    split
    · rename_i hverb
      exact chooses_leaving hargs (by simpa using hverb) cfg env
    rename_i hverb
    exact ⟨hargs, Or.inl ⟨hstate, by simpa using hverb⟩⟩
  · rename_i hstate
    exact chooses_handleNormal hargs (Or.inr hstate) cfg env
  rename_i hstate
  exact chooses_handleNormal hargs (Or.inl hstate) cfg env

/-- The plan of a request that reaches the switch of `handleNormal`. -/
theorem dispatch_of_reaches (h : s.ReachesSwitch req) (cfg : Config) (env : Env) :
    dispatchClientRequest cfg env s req = handleVerb cfg env s req := by
  obtain ⟨hargs, hstate, hrefused, hwaits⟩ := h
  have hnormal : handleNormal cfg env s req = handleVerb cfg env s req := by
    rw [handleNormal, hrefused, hwaits]
    rfl
  unfold dispatchClientRequest
  rw [if_neg hargs]
  rcases hstate with hstate | hstate
  · rw [hstate]
    exact hnormal
  rw [hstate]
  exact hnormal

end Session

end Pluster.Engine
