import Pluster.Engine.PlanUnits
import Pluster.Router.Execute

/-!
# Declared keys

A blocking command and a script say themselves how many keys they have. The handlers add the
number of keys to the position of the first one in 64 bits, so that a number close to `2 ^ 63`
passes the comparison with the number of arguments. For every other number all declared keys are
there and in the slot to which the command is sent.
-/

namespace Pluster.Engine

open Proto GoStrings GoRuntime

variable {args keys rest : List Bytes} {req : Request} {name script num : Bytes}

/-! ### What a request declares -/

/-- The third argument is the number of keys, and the keys follow it. -/
def CountedKeys (args keys : List Bytes) : Prop :=
  ∃ first second numKeys rest, args = first :: second :: numKeys :: (keys ++ rest) ∧
    atoi numKeys = some (keys.length : ℤ)

/-- The keys of the blocking commands. -/
inductive Declares (req : Request) : List Bytes → Prop
  | popped {name timeout : Bytes} {keys : List Bytes} :
      req.cmd ∈ [bytes "BLPOP", bytes "BRPOP", bytes "BZPOPMIN", bytes "BZPOPMAX"] →
      req.args = name :: (keys ++ [timeout]) → Declares req keys
  | moved {name source destination : Bytes} {rest : List Bytes} : req.cmd = bytes "BLMOVE" →
      req.args = name :: source :: destination :: rest → Declares req [source, destination]
  | counted {keys : List Bytes} : req.cmd = bytes "BLMPOP" ∨ req.cmd = bytes "BZMPOP" →
      CountedKeys req.args keys → Declares req keys
  /-- The keys of the streams and then as many identifiers. -/
  | streams {before keys ids : List Bytes} {word : Bytes} :
      req.cmd = bytes "XREAD" ∨ req.cmd = bytes "XREADGROUP" →
      req.args = before ++ word :: (keys ++ ids) → equalFold word (bytes "STREAMS") = true →
      (∀ arg ∈ before, equalFold arg (bytes "STREAMS") = false) → keys.length = ids.length →
      Declares req keys

/-- A blocking command causes no panic, and the keys of one that is sent to a node are all there
and in a slot of the node. -/
structure BlockingKeysSafe (env : Env) (req : Request) : Prop where
  inRange : dispatchBlockingCommand env req ≠ .panic
  sent : ∀ addr, dispatchBlockingCommand env req = .blocking addr →
    ∃ keys slot, Declares req keys ∧ (∀ key ∈ keys, hashSlot key = slot) ∧
      env.nodeForSlot slot = some addr

/-- A script causes no panic, and the keys of one that is sent to a node are all there and in the
slot to which it is sent; only a script without keys is sent to any node. -/
def ScriptKeysSafe (masters : List Bytes) (rr : ℕ) (req : Request) : Prop :=
  ∃ plan, Router.execScript masters rr req = some plan ∧ ∀ job ∈ plan.jobs,
    ∃ keys, CountedKeys req.args keys ∧
      match job.target with
      | .slot slot => ∀ key ∈ keys, hashSlot key = slot
      | .node _ => keys = []

/-- A script with a number of keys that overflows an index. -/
def ScriptOverflow (req : Request) : Prop :=
  3 ≤ req.args.length ∧ ∃ n, atoi (req.args.getD 2 []) = some n ∧ 2 ^ 63 ≤ 3 + n

/-! ### Blocking commands -/

theorem countedKeys_of_extractCountedKeys {numKeys : ℤ}
    (hnum : atoi (args.getD 2 []) = some numKeys)
    (h : extractCountedKeys args numKeys = some keys) (hkeys : keys ≠ []) :
    CountedKeys args keys := by
  unfold extractCountedKeys at h
  split at h
  · cases h
    exact absurd rfl hkeys
  rename_i hpos
  simp only at h
  split at h
  · cases h
    exact absurd rfl hkeys
  rename_i hlast
  unfold slice at h
  split at h
  · rename_i hbounds
    have hlt := (atoi_bounds hnum).2
    have hwrap : wrap64 (3 + numKeys) = 3 + numKeys := by
      by_cases hover : 2 ^ 63 ≤ 3 + numKeys
      · have := wrap64_neg hover (by omega)
        omega
      · exact wrap64_eq_self (by omega) (by omega)
    rw [hwrap] at h hlast
    cases h
    match args, hnum, hlast with
    | first :: second :: num :: rest, hnum, hlast =>
      refine ⟨first, second, num, rest.drop numKeys.toNat, ?_, ?_⟩
      · simp
      simp at hnum hlast ⊢
      rw [hnum]
      congr 1
      omega
    | [_, _], _, hlast | [_], _, hlast | [], _, hlast =>
      simp at hlast
      omega
  · cases h

theorem streams_of_extractXREADKeys (h : extractXREADKeys args ≠ []) :
    ∃ before word ids, args = before ++ word :: (extractXREADKeys args ++ ids) ∧
      equalFold word (bytes "STREAMS") = true ∧
      (∀ arg ∈ before, equalFold arg (bytes "STREAMS") = false) ∧
      (extractXREADKeys args).length = ids.length := by
  induction args with
  | nil => exact absurd rfl h
  | cons arg rest ih =>
    unfold extractXREADKeys at h ⊢
    by_cases hword : equalFold arg (bytes "STREAMS") = true
    · rw [if_pos hword] at h ⊢
      by_cases heven : rest.length % 2 = 0
      · rw [if_pos heven] at h ⊢
        refine ⟨[], arg, rest.drop (rest.length / 2), by simp, hword, by simp, ?_⟩
        simp
        omega
      · rw [if_neg heven] at h
        exact absurd rfl h
    · rw [if_neg hword] at h ⊢
      obtain ⟨before, word, ids, hargs, hstreams, hbefore, hlen⟩ := ih h
      refine ⟨arg :: before, word, ids, congrArg (List.cons arg) hargs, hstreams, ?_, hlen⟩
      intro other hother
      rcases List.mem_cons.mp hother with rfl | hother
      · exact Bool.eq_false_of_not_eq_true hword
      · exact hbefore other hother

/-- The keys that are found are the declared ones. -/
theorem declares_of_extractBlockingKeys (h : extractBlockingKeys req = some keys)
    (hkeys : keys ≠ []) : Declares req keys := by
  unfold extractBlockingKeys at h
  simp only at h
  split at h
  · rename_i hcmd
    cases h
    split at hkeys
    · exact absurd rfl hkeys
    rename_i hlen
    obtain ⟨name, tail, hargs⟩ := List.exists_cons_of_length_pos (by omega : 0 < req.args.length)
    rw [if_neg hlen, hargs, List.tail_cons]
    have htail : tail ≠ [] := by
      rintro rfl
      simp [hargs] at hlen
    exact .popped hcmd (by rw [hargs, List.dropLast_append_getLast htail])
  · split at h
    · rename_i hcmd
      cases h
      split at hkeys
      · exact absurd rfl hkeys
      rename_i hlen
      rw [if_neg hlen]
      match hargs : req.args, hlen with
      | name :: source :: destination :: rest, _ => exact .moved hcmd hargs
      | [_, _], hlen | [_], hlen | [], hlen => simp at hlen
    · split at h
      · rename_i hcmd
        split at h
        · cases h
          exact absurd rfl hkeys
        split at h
        · cases h
          exact absurd rfl hkeys
        rename_i numKeys hnum
        exact .counted hcmd (countedKeys_of_extractCountedKeys hnum h hkeys)
      · split at h
        · rename_i hcmd
          cases h
          obtain ⟨before, word, ids, hargs, hword, hbefore, hlen⟩ :=
            streams_of_extractXREADKeys hkeys
          exact .streams hcmd hargs hword hbefore hlen
        · cases h
          exact absurd rfl hkeys

theorem blockingKeysSafe_iff (env : Env) (req : Request) :
    BlockingKeysSafe env req ↔ ¬ CountOverflow req := by
  rw [← extractBlockingKeys_eq_none_iff]
  constructor
  · intro h hnone
    apply h.inRange
    rw [dispatchBlockingCommand, hnone]
  intro hsome
  cases hkeys : extractBlockingKeys req with
  | none => exact absurd hkeys hsome
  | some keys =>
    cases keys with
    | nil => constructor <;> simp [dispatchBlockingCommand, hkeys, Plan.error]
    | cons key rest =>
      have hdeclares := declares_of_extractBlockingKeys hkeys (List.cons_ne_nil key rest)
      constructor
      · simp only [dispatchBlockingCommand, hkeys]
        split
        · simp [Plan.error]
        · split <;> simp [Plan.error]
      · intro addr hplan
        simp only [dispatchBlockingCommand, hkeys] at hplan
        split at hplan
        · cases hplan
        rename_i hslots
        split at hplan
        · cases hplan
        rename_i hnode
        cases hplan
        exact ⟨key :: rest, hashSlot key, hdeclares, by simpa using hslots, hnode⟩

/-! ### Scripts -/

/-- With an overflow the script is sent to the slot of the argument behind the number of keys,
and if there is none, its index is out of range. -/
theorem execScript_of_overflow (masters : List Bytes) (rr : ℕ)
    (hargs : req.args = name :: script :: num :: rest) {n : ℤ} (hnum : atoi num = some n)
    (hover : 2 ^ 63 ≤ 3 + n) :
    Router.execScript masters rr req =
      rest.head?.map fun key => .one ⟨req, .slot (hashSlot key)⟩ id := by
  have hlt := (atoi_bounds hnum).2
  have hneg := wrap64_neg hover (by omega)
  have hzero : (wrap64 (3 + n) - 4).toNat = 0 := by omega
  simp only [Router.execScript, hargs, hnum]
  rw [if_neg (by omega), if_neg (by omega), if_neg (by omega), hzero]
  cases rest with
  | nil => rfl
  | cons key more => simp

theorem countedKeys_take {n : ℕ} (hnum : atoi num = some (n : ℤ)) (hle : n ≤ rest.length) :
    CountedKeys (name :: script :: num :: rest) (rest.take n) := by
  refine ⟨name, script, num, rest.drop n, by simp, ?_⟩
  rw [hnum, List.length_take, Nat.min_eq_left hle]

theorem scriptKeysSafe_of_errValue {masters : List Bytes} {rr : ℕ} {msg : Bytes}
    (h : Router.execScript masters rr req = some (.errValue msg)) :
    ScriptKeysSafe masters rr req := by
  refine ⟨_, h, ?_⟩
  intro job hjob
  cases hjob

/-- Without an overflow the keys have been counted and compared. -/
theorem scriptKeysSafe_of_inRange (masters : List Bytes) (rr : ℕ)
    (hargs : req.args = name :: script :: num :: rest)
    (hin : ∀ n, atoi num = some n → 3 + n < 2 ^ 63) : ScriptKeysSafe masters rr req := by
  cases hnum : atoi num with
  | none =>
    apply scriptKeysSafe_of_errValue
    simp only [Router.execScript, hargs, hnum]
    rfl
  | some n =>
    by_cases hneg : n < 0
    · apply scriptKeysSafe_of_errValue
      simp only [Router.execScript, hargs, hnum, if_pos hneg]
      rfl
    obtain ⟨n, rfl⟩ := Int.eq_ofNat_of_zero_le (Int.not_lt.mp hneg)
    have hwrap : wrap64 (3 + (n : ℤ)) = 3 + n := wrap64_eq_self (by omega) (hin _ hnum)
    by_cases hzero : n = 0
    · subst hzero
      refine ⟨Router.executeOnAnyNode masters rr req, by simp [Router.execScript, hargs, hnum], ?_⟩
      intro job hjob
      unfold Router.executeOnAnyNode at hjob
      split at hjob
      · cases hjob
      cases List.mem_singleton.mp hjob
      exact ⟨[], hargs ▸ countedKeys_take hnum (Nat.zero_le _), rfl⟩
    have hpos : ¬ ((n : ℤ) = 0) := by omega
    by_cases hshort : ((name :: script :: num :: rest).length : ℤ) < 3 + n
    · apply scriptKeysSafe_of_errValue
      simp only [Router.execScript, hargs, hnum, if_neg hneg, if_neg hpos, hwrap, if_pos hshort]
      rfl
    have hle : n ≤ rest.length := by
      simp only [List.length_cons] at hshort
      omega
    have hcounted : CountedKeys req.args (rest.take n) := hargs ▸ countedKeys_take hnum hle
    cases rest with
    | nil => exact absurd (Nat.le_zero.mp hle) hzero
    | cons key more =>
      have htake : (key :: more).take n = key :: more.take (3 + (n : ℤ) - 4).toNat := by
        have hcount : n = (3 + (n : ℤ) - 4).toNat + 1 := by omega
        exact (congrArg (List.take · (key :: more)) hcount).trans List.take_succ_cons
      by_cases hcross : (more.take (3 + (n : ℤ) - 4).toNat).any
          fun k => hashSlot k ≠ hashSlot key
      · apply scriptKeysSafe_of_errValue
        simp only [Router.execScript, hargs, hnum, if_neg hneg, if_neg hpos, hwrap, if_neg hshort,
          if_pos hcross]
        rfl
      · have hplan : Router.execScript masters rr req =
            some (.one ⟨req, .slot (hashSlot key)⟩ id) := by
          simp only [Router.execScript, hargs, hnum, if_neg hneg, if_neg hpos, hwrap,
            if_neg hshort, if_neg hcross]
        refine ⟨_, hplan, ?_⟩
        intro job hjob
        cases List.mem_singleton.mp hjob
        refine ⟨_, hcounted, ?_⟩
        rw [htake]
        simpa using hcross

theorem scriptKeysSafe_iff (masters : List Bytes) (rr : ℕ) (hlen : req.args.length < 2 ^ 63) :
    ScriptKeysSafe masters rr req ↔ ¬ ScriptOverflow req := by
  match hargs : req.args with
  | name :: script :: num :: rest =>
    constructor
    · rintro ⟨plan, hplan, hjobs⟩ ⟨-, n, hnum, hover⟩
      replace hnum : atoi num = some n := by simpa [hargs] using hnum
      rw [execScript_of_overflow masters rr hargs hnum hover] at hplan
      obtain ⟨key, -, rfl⟩ := Option.map_eq_some_iff.mp hplan
      obtain ⟨keys, ⟨_, _, num', more, hcounted, hcount⟩, -⟩ := hjobs _ List.mem_cons_self
      rw [hargs] at hcounted
      cases hcounted
      rw [hnum] at hcount
      cases hcount
      simp only [hargs, List.length_cons, List.length_append] at hlen
      omega
    · intro hnot
      apply scriptKeysSafe_of_inRange masters rr hargs
      intro n hnum
      by_contra hover
      exact hnot ⟨by simp [hargs], n, by simpa [hargs] using hnum, by omega⟩
  | [_, _] | [_] | [] =>
    apply iff_of_true
    · apply scriptKeysSafe_of_errValue
      simp only [Router.execScript, hargs]
      rfl
    rintro ⟨hthree, -⟩
    simp [hargs] at hthree

/-- The number of keys that a request declares is handled safely exactly if it does not overflow
when the position of the first key is added. A slice of Go has fewer than `2 ^ 63` elements. -/
theorem declared_keys_safe_iff (env : Env) (masters : List Bytes) (rr : ℕ) (req : Request)
    (hlen : req.args.length < 2 ^ 63) :
    (BlockingKeysSafe env req ↔ ¬ CountOverflow req) ∧
      (ScriptKeysSafe masters rr req ↔ ¬ ScriptOverflow req) :=
  ⟨blockingKeysSafe_iff env req, scriptKeysSafe_iff masters rr hlen⟩

/-- A script with two keys. -/
def evalTwo : Request where
  args := [bytes "EVAL", bytes "s", bytes "2", bytes "\x7bk\x7da", bytes "\x7bk\x7db"]
  cmd := bytes "EVAL"

theorem declared_keys_safe_eval :
    evalTwo.args.length < 2 ^ 63 ∧ ScriptKeysSafe [bytes "h:1"] 0 evalTwo := by
  refine ⟨by decide, ?_⟩
  apply (declared_keys_safe_iff (.oneNode (bytes "h:1")) [bytes "h:1"] 0 evalTwo (by decide)).2.mpr
  rintro ⟨-, n, hnum, hover⟩
  have htwo : atoi (evalTwo.args.getD 2 []) = some 2 := by decide
  rw [htwo] at hnum
  cases hnum
  omega

/-- A script with a number of keys that overflows, and the arguments behind it. -/
def evalMany (rest : List Bytes) : Request where
  args := [bytes "EVAL", bytes "s", bytes "9223372036854775807"] ++ rest
  cmd := bytes "EVAL"

/-- BLMPOP with a number of keys that overflows. -/
def blmpopMany : Request where
  args := [bytes "BLMPOP", bytes "0", bytes "9223372036854775807", bytes "k", bytes "LEFT"]
  cmd := bytes "BLMPOP"

/-- BLMPOP slices the arguments out of range, a script without arguments indexes them out of
range, and a script with one argument is sent to the slot of that argument although most of its
keys are missing. -/
theorem declared_keys_overflow :
    dispatchBlockingCommand (.oneNode (bytes "h:1")) blmpopMany = .panic ∧
      Router.execScript [] 0 (evalMany []) = none ∧
      Router.execScript [] 0 (evalMany [bytes "k"]) =
        some (.one ⟨evalMany [bytes "k"], .slot (hashSlot (bytes "k"))⟩ id) := by
  have hnum : atoi (bytes "9223372036854775807") = some (2 ^ 63 - 1) := by decide +kernel
  have hscript (rest : List Bytes) : Router.execScript [] 0 (evalMany rest) =
      rest.head?.map fun key => .one ⟨evalMany rest, .slot (hashSlot key)⟩ id := by
    have hargs : (evalMany rest).args =
        bytes "EVAL" :: bytes "s" :: bytes "9223372036854775807" :: rest := rfl
    exact execScript_of_overflow [] 0 hargs hnum (by omega)
  exact ⟨by rfl, hscript [], hscript [bytes "k"]⟩

end Pluster.Engine
