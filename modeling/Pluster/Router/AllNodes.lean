import Pluster.Router.Execute

/-!
# Commands for all masters

DBSIZE, KEYS, FLUSHDB, FLUSHALL, SCRIPT LOAD, SCRIPT FLUSH, CONFIG SET and CONFIG
RESETSTAT go to every master, and one function merges what the masters return. For each
merge: when it reports success although a master has failed.
-/

namespace Pluster.Router

open Proto GoStrings GoRuntime

variable {req : Request} {masters : List Bytes}

/-- The commands for all masters with a single result. -/
inductive AllNodesCmd
  | dbsize
  | keys
  | flushdb
  | flushall
  | scriptLoad
  | scriptFlush
  | configSet
  | configResetstat
  deriving DecidableEq

variable {cmd : AllNodesCmd}

namespace AllNodesCmd

/-- The command of a request. -/
def ofRequest (req : Request) : Option AllNodesCmd :=
  match req.args with
  | [] => none
  | name :: rest =>
    let name := toUpper name
    let sub := rest.head?.map toUpper
    if name = bytes "DBSIZE" then some .dbsize
    else if name = bytes "KEYS" then some .keys
    else if name = bytes "FLUSHDB" then some .flushdb
    else if name = bytes "FLUSHALL" then some .flushall
    else if name = bytes "SCRIPT" ∧ sub = some (bytes "LOAD") then some .scriptLoad
    else if name = bytes "SCRIPT" ∧ sub = some (bytes "FLUSH") then some .scriptFlush
    else if name = bytes "CONFIG" ∧ sub = some (bytes "SET") then some .configSet
    else if name = bytes "CONFIG" ∧ sub = some (bytes "RESETSTAT") then some .configResetstat
    else none

/-- The function that merges the results. -/
def merge : AllNodesCmd → List Result → Result
  | .dbsize => mergeIntegerSum 0
  | .keys => mergeArrayConcat []
  | .scriptLoad | .scriptFlush => mergeFirstNonError
  | .flushdb | .flushall | .configSet | .configResetstat => mergeOK

/-- The name of the command in the table. -/
def name : AllNodesCmd → Bytes
  | .dbsize => bytes "DBSIZE"
  | .keys => bytes "KEYS"
  | .flushdb => bytes "FLUSHDB"
  | .flushall => bytes "FLUSHALL"
  | .scriptLoad | .scriptFlush => bytes "SCRIPT"
  | .configSet | .configResetstat => bytes "CONFIG"

/-- The subcommand, if there is one. -/
def sub : AllNodesCmd → Option Bytes
  | .scriptLoad => some (bytes "LOAD")
  | .scriptFlush => some (bytes "FLUSH")
  | .configSet => some (bytes "SET")
  | .configResetstat => some (bytes "RESETSTAT")
  | _ => none

theorem ofRequest_eq_some (h : ofRequest req = some cmd) :
    ∃ first rest, req.args = first :: rest ∧ toUpper first = cmd.name ∧
      ∀ sub, cmd.sub = some sub → ∃ second tail, rest = second :: tail ∧ toUpper second = sub := by
  unfold ofRequest at h
  split at h
  · cases h
  rename_i first rest hargs
  refine ⟨first, rest, hargs, ?_⟩
  simp only at h
  have hsub : ∀ sub, rest.head?.map toUpper = some sub →
      ∃ second tail, rest = second :: tail ∧ toUpper second = sub := by
    intro sub hhead
    cases rest with
    | nil => cases hhead
    | cons second tail => exact ⟨second, tail, rfl, Option.some.inj hhead⟩
  split_ifs at h with h₁ h₂ h₃ h₄ h₅ h₆ h₇ h₈
  all_goals cases h
  · exact ⟨h₁, nofun⟩
  · exact ⟨h₂, nofun⟩
  · exact ⟨h₃, nofun⟩
  · exact ⟨h₄, nofun⟩
  · exact ⟨h₅.1, fun sub heq => hsub sub (heq ▸ h₅.2)⟩
  · exact ⟨h₆.1, fun sub heq => hsub sub (heq ▸ h₆.2)⟩
  · exact ⟨h₇.1, fun sub heq => hsub sub (heq ▸ h₇.2)⟩
  · exact ⟨h₈.1, fun sub heq => hsub sub (heq ▸ h₈.2)⟩

theorem fanOutToMasters_of_ne_nil (hmasters : masters ≠ []) (req : Request)
    (merge : List Result → Result) :
    fanOutToMasters masters req merge = .masters masters req merge :=
  if_neg hmasters

/-- The router sends the request to all masters and merges with the function of the
command. -/
theorem execute_eq (h : ofRequest req = some cmd) (hmasters : masters ≠ []) (rr : ℕ) :
    execute masters rr req = .masters masters req cmd.merge := by
  obtain ⟨first, rest, hargs, hname, hsub⟩ := ofRequest_eq_some h
  rw [execute, hargs]
  simp only [hname]
  -- The name of the command selects the function, and the name of the subcommand the merge.
  cases cmd with
  | dbsize | keys | flushdb | flushall => exact fanOutToMasters_of_ne_nil hmasters req _
  | scriptLoad | scriptFlush =>
    obtain ⟨second, tail, rfl, hsecond⟩ := hsub _ rfl
    show executeScript masters rr req = _
    simp only [executeScript, hargs, hsecond]
    exact fanOutToMasters_of_ne_nil hmasters req _
  | configSet | configResetstat =>
    obtain ⟨second, tail, rfl, hsecond⟩ := hsub _ rfl
    show executeConfig masters rr req = _
    simp only [executeConfig, hargs, hsecond]
    exact fanOutToMasters_of_ne_nil hmasters req _

end AllNodesCmd

/-! ### Success -/

/-- A reply that is not an error. -/
def Succeeds : Result → Bool
  | .ok v => !v.isError
  | .error _ => false

/-- The call returned a value. -/
def Returned : Result → Bool
  | .ok _ => true
  | .error _ => false

@[simp] theorem succeeds_ok (v : Value) : Succeeds (.ok v) = !v.isError := rfl

@[simp] theorem succeeds_error (err : Bytes) : Succeeds (.error err) = false := rfl

@[simp] theorem returned_ok (v : Value) : Returned (.ok v) = true := rfl

@[simp] theorem returned_error (err : Bytes) : Returned (.error err) = false := rfl

/-- The sum is an error exactly if a call has failed. -/
theorem succeeds_mergeIntegerSum (total : ℤ) (results : List Result) :
    Succeeds (mergeIntegerSum total results) = results.all Returned := by
  fun_induction mergeIntegerSum total results with
  | case1 total => rfl
  | case2 total err results => rfl
  | case3 total n results ih => exact ih
  | case4 total v results hv ih => exact ih

theorem succeeds_mergeArrayConcat (all : List Value) (results : List Result) :
    Succeeds (mergeArrayConcat all results) = results.all Returned := by
  fun_induction mergeArrayConcat all results with
  | case1 all => rfl
  | case2 all err results => rfl
  | case3 all elems results ih => exact ih
  | case4 all v results hv ih => exact ih

theorem succeeds_mergeOK (results : List Result) :
    Succeeds (mergeOK results) = results.all Succeeds := by
  fun_induction mergeOK results with
  | case1 => rfl
  | case2 err results => rfl
  | case3 v results herror => simp [herror]
  | case4 v results herror ih => simp [herror, ih]

/-- The loop finds the first success, or else the first call that has failed. -/
theorem mergeFirstNonErrorLoop_spec (results : List Result) (firstErr : Option Bytes) :
    match mergeFirstNonErrorLoop results firstErr with
    | .inl v => v.isError = false ∧ results.any Succeeds = true
    | .inr err => results.any Succeeds = false ∧
        (err = none ↔ firstErr = none ∧ results.all Returned = true) := by
  fun_induction mergeFirstNonErrorLoop results firstErr with
  | case1 firstErr => simp
  | case2 err results firstErr ih =>
    cases hloop : mergeFirstNonErrorLoop results (firstErr <|> some err) with
    | inl v =>
      rw [hloop] at ih
      simpa using ih
    | inr found =>
      rw [hloop] at ih
      refine ⟨by simpa using ih.1, ?_⟩
      rw [ih.2]
      cases firstErr <;> simp
  | case3 v results firstErr herror ih =>
    cases hloop : mergeFirstNonErrorLoop results firstErr with
    | inl v | inr found =>
      rw [hloop] at ih
      simpa [herror] using ih
  | case4 v results firstErr herror => simp [herror]

/-- One success is enough, and so is the lack of any result. -/
theorem succeeds_mergeFirstNonError (results : List Result) :
    Succeeds (mergeFirstNonError results) = (results.any Succeeds || results.isEmpty) := by
  have hloop := mergeFirstNonErrorLoop_spec results none
  unfold mergeFirstNonError
  cases hresult : mergeFirstNonErrorLoop results none with
  | inl v =>
    rw [hresult] at hloop
    simp [hloop.1, hloop.2]
  | inr firstErr =>
    rw [hresult] at hloop
    obtain ⟨hany, hnone⟩ := hloop
    rw [hany]
    cases firstErr with
    | some err =>
      have hne : results ≠ [] := by
        rintro rfl
        simp at hnone
      simpa using hne
    | none =>
      -- Every call has returned, so the first result is a value.
      have hreturned := (hnone.mp rfl).2
      rcases results with _ | ⟨_ | v, results⟩
      · rfl
      · simp at hreturned
      have hboth : v.isError = true ∧ ∀ r ∈ results, Succeeds r = false := by simpa using hany
      simpa using hboth.1

/-- The merge reports success although a master has failed. -/
def HidesFailure : AllNodesCmd → List Result → Prop
  | .dbsize, results | .keys, results => results.all Returned = true ∧ ∃ r ∈ results, Succeeds r = false
  | .scriptLoad, results | .scriptFlush, results =>
    (∃ r ∈ results, Succeeds r = true) ∧ ∃ r ∈ results, Succeeds r = false
  | _, _ => False

/-- For the commands that go to all masters: the merged result is a success only if every
master has succeeded, exactly if the merge hides no failure. The sums and the concatenations
hide error replies, and the merge of SCRIPT hides every failure beside a success. -/
theorem all_nodes_success_iff {req : Request} {cmd : AllNodesCmd}
    (hcmd : AllNodesCmd.ofRequest req = some cmd) {masters : List Bytes} (hmasters : masters ≠ [])
    (rr : ℕ) : ∃ merge, execute masters rr req = .masters masters req merge ∧
      ∀ results : List Result,
        ((Succeeds (merge results) = true → ∀ r ∈ results, Succeeds r = true) ↔
          ¬ HidesFailure cmd results) := by
  refine ⟨cmd.merge, AllNodesCmd.execute_eq hcmd hmasters rr, fun results => ?_⟩
  have hsome : (∃ r ∈ results, Succeeds r = false) ↔ ¬ ∀ r ∈ results, Succeeds r = true := by
    simp
  have hfirst : (Succeeds (mergeFirstNonError results) = true → ∀ r ∈ results, Succeeds r = true) ↔
      ¬ ((∃ r ∈ results, Succeeds r = true) ∧ ∃ r ∈ results, Succeeds r = false) := by
    rw [succeeds_mergeFirstNonError, hsome, not_and_not_right, Bool.or_eq_true, List.any_eq_true,
      List.isEmpty_iff]
    constructor
    · exact fun h hany => h (Or.inl hany)
    rintro h (hany | rfl)
    · exact h hany
    · exact fun r hr => absurd hr List.not_mem_nil
  cases cmd with
  | dbsize =>
    rw [AllNodesCmd.merge, succeeds_mergeIntegerSum, HidesFailure, hsome, not_and_not_right]
  | keys =>
    rw [AllNodesCmd.merge, succeeds_mergeArrayConcat, HidesFailure, hsome, not_and_not_right]
  | scriptLoad | scriptFlush => exact hfirst
  | _ => simp [AllNodesCmd.merge, succeeds_mergeOK, HidesFailure]

/-- DBSIZE over three masters, one of which returns an error reply: the sum of the others. -/
theorem dbsize_hides_error :
    let dbsize : Request := { args := [bytes "DBSIZE"], cmd := bytes "DBSIZE" }
    let masters := [bytes "a:1", bytes "b:1", bytes "c:1"]
    let results : List Result :=
      [.ok (.integer 5), .ok (.error (bytes "NOAUTH Authentication required.")), .ok (.integer 7)]
    execute masters 0 dbsize = .masters masters dbsize (mergeIntegerSum 0) ∧
      mergeIntegerSum 0 results = .ok (.integer 12) ∧
      ¬ (Succeeds (mergeIntegerSum 0 results) = true → ∀ r ∈ results, Succeeds r = true) := by
  intro dbsize masters results
  have hcmd : AllNodesCmd.ofRequest dbsize = some .dbsize := by decide
  have hmasters : masters ≠ [] := by simp [masters]
  refine ⟨AllNodesCmd.execute_eq hcmd hmasters 0, rfl, ?_⟩
  intro h
  exact absurd (h rfl (.ok (.error (bytes "NOAUTH Authentication required."))) (by simp [results]))
    (by decide)

/-- FLUSHALL over two masters, one of which returns an error reply. -/
theorem all_nodes_success_iff_flushall :
    let flushall : Request := { args := [bytes "FLUSHALL"], cmd := bytes "FLUSHALL" }
    let results : List Result := [.ok okValue, .ok (.error (bytes "READONLY"))]
    AllNodesCmd.ofRequest flushall = some .flushall ∧
      ∃ merge, execute [bytes "a:1", bytes "b:1"] 0 flushall =
          .masters [bytes "a:1", bytes "b:1"] flushall merge ∧
        (Succeeds (merge results) = true → ∀ r ∈ results, Succeeds r = true) := by
  intro flushall results
  have hcmd : AllNodesCmd.ofRequest flushall = some .flushall := by decide
  have hmasters : [bytes "a:1", bytes "b:1"] ≠ [] := by simp
  obtain ⟨merge, hplan, hmerge⟩ := all_nodes_success_iff hcmd hmasters 0
  exact ⟨hcmd, merge, hplan, (hmerge results).mpr id⟩

end Pluster.Router
