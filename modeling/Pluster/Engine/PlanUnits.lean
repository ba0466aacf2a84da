import Pluster.Engine.ReplyLog
import Pluster.Engine.Plans
import Pluster.Engine.FanOutParts

/-!
# The reply units of a plan

All plans but the replies of HELLO, the subscription commands and a panic have
exactly one reply unit. The requests whose plan has another number are characterised:
a HELLO with an AUTH that is accepted is answered twice, an MSET without its last
value and a pop with a number of keys that overflows panic.
-/

namespace Pluster.Engine

open Proto GoStrings GoRuntime

variable {cfg : Config} {α : Type} {nodeForSlot : ℕ → Option Bytes} {tail : List Bytes}
  {groups : List SlotGroup} {req : Request} {name : Bytes} {env : Env}

/-! ### HELLO -/

/-- The client is authenticated after the AUTH option of HELLO. -/
def authAccepted (cfg : Config) (authenticated : Bool) (password : Bytes) : Bool :=
  if cfg.clientPassword = [] then authenticated else password = cfg.clientPassword

/-- The first AUTH among the options of HELLO is complete and leaves the client
authenticated. -/
def helloAuthAccepted (cfg : Config) (authenticated : Bool) : List Bytes → Bool
  | [] => false
  | arg :: rest =>
    if toUpper arg = bytes "AUTH" then
      match rest with
      | _ :: password :: _ => authAccepted cfg authenticated password
      | _ => false
    else if toUpper arg = bytes "SETNAME" then
      match rest with
      | _ :: rest => helloAuthAccepted cfg authenticated rest
      | [] => false
    else helloAuthAccepted cfg authenticated rest

theorem handleAUTH_authenticated (cfg : Config) (loc : Local) (name user password : Bytes) :
    (handleAUTH cfg loc [name, user, password]).1.authenticated =
      authAccepted cfg loc.authenticated password := by
  unfold handleAUTH authAccepted
  split
  · rfl
  · by_cases h : password = cfg.clientPassword <;> simp [h]

private theorem helloAuthAccepted_skip {authenticated : Bool} {arg : Bytes} {rest : List Bytes}
    (hauth : ¬ toUpper arg = bytes "AUTH") (hname : ¬ toUpper arg = bytes "SETNAME") :
    helloAuthAccepted cfg authenticated (arg :: rest) =
      helloAuthAccepted cfg authenticated rest := by
  rw [helloAuthAccepted.eq_def]
  simp only [if_neg hauth, if_neg hname]

/-- The replies of the options and of the end of HELLO: at least one, and more than one
exactly if an AUTH is accepted. -/
theorem helloOptions_replies (cfg : Config) (options : List Bytes) (loc : Local)
    (out : List Bytes) :
    let result := helloOptions cfg options loc out
    let total := result.2.1.length + if result.2.2 then 1 else 0
    out.length + 1 ≤ total ∧
      (total = out.length + 1 ↔ helloAuthAccepted cfg loc.authenticated options = false) := by
  fun_induction helloOptions cfg options loc out with
  | case1 loc out => simp [helloAuthAccepted]
  | case2 arg loc out hauth user password rest loc' data heq haccepted ih =>
    have hresult := handleAUTH_authenticated cfg loc (bytes "AUTH") user password
    rw [heq] at hresult
    simp only [List.length_append, List.length_singleton] at ih
    simp only [helloAuthAccepted, hauth, if_true, ← hresult, haccepted]
    refine ⟨by omega, iff_of_false (by omega) (by simp)⟩
  | case3 arg loc out hauth user password rest loc' data heq hrefused =>
    have hresult := handleAUTH_authenticated cfg loc (bytes "AUTH") user password
    rw [heq] at hresult
    simp [helloAuthAccepted, hauth, ← hresult, hrefused]
  | case4 arg rest loc out hauth hshort =>
    rcases rest with _ | ⟨user, _ | ⟨password, tail⟩⟩
    · simp [helloAuthAccepted, hauth]
    · simp [helloAuthAccepted, hauth]
    · exact absurd rfl (hshort user password tail)
  | case5 arg loc out hauth hname name rest ih =>
    simp only [helloAuthAccepted, if_neg hauth, if_pos hname]
    exact ih
  | case6 arg loc out hauth hname => simp [helloAuthAccepted, hname]
  | case7 arg rest loc out hauth hname ih =>
    rw [helloAuthAccepted_skip hauth hname]
    exact ih

/-- HELLO with an accepted protocol version and an accepted AUTH. -/
def HelloWithAuth (cfg : Config) (loc : Local) (args : List Bytes) : Prop :=
  ∃ name version options, args = name :: version :: options ∧
    (version = bytes "2" ∨ version = []) ∧
    helloAuthAccepted cfg loc.authenticated options = true

private theorem handleHELLO_length (cfg : Config) (loc : Local) (name : Bytes)
    (options : List Bytes) {version : Bytes} (hversion : version = bytes "2" ∨ version = []) :
    (handleHELLO cfg loc (name :: version :: options)).2.length = 1 ↔
      helloAuthAccepted cfg loc.authenticated options = false := by
  have hthree : ¬ version = bytes "3" := by
    rcases hversion with rfl | rfl <;> decide
  have hknown : ¬ (version ≠ bytes "2" ∧ version ≠ []) := by
    rcases hversion with rfl | rfl <;> simp
  have hcount := (helloOptions_replies cfg options loc []).2
  simp only [handleHELLO, if_neg hthree, if_neg hknown]
  revert hcount
  rcases helloOptions cfg options loc [] with ⟨loc', out, _ | _⟩
  · intro hcount
    simpa using hcount
  intro hcount
  simpa using hcount

theorem handleHELLO_single_iff (cfg : Config) (loc : Local) (args : List Bytes) :
    (handleHELLO cfg loc args).2.length = 1 ↔ ¬ HelloWithAuth cfg loc args := by
  by_cases hgood : ∃ name version options, args = name :: version :: options ∧
      (version = bytes "2" ∨ version = [])
  · obtain ⟨name, version, options, rfl, hversion⟩ := hgood
    rw [handleHELLO_length cfg loc name options hversion]
    simp [HelloWithAuth, hversion]
  have hnot : ¬ HelloWithAuth cfg loc args := by
    rintro ⟨name, version, options, hargs, hversion, -⟩
    exact hgood ⟨name, version, options, hargs, hversion⟩
  simp only [hnot, not_false_eq_true, iff_true]
  unfold handleHELLO
  split
  · rename_i name version options
    split
    · rfl
    rw [if_pos]
    · rfl
    by_contra h
    exact hgood ⟨name, version, options, rfl, by tauto⟩
  · rfl

/-! ### Panics -/

private theorem mapM_eq_none_iff {β : Type} {f : α → Option β} {l : List α} :
    l.mapM f = none ↔ ∃ a ∈ l, f a = none := by
  induction l with
  | nil => simp
  | cons a l ih =>
    rw [List.mapM_cons]
    cases hhead : f a with
    | none => simp [hhead]
    | some b =>
      cases htail : l.mapM f with
      | none =>
        obtain ⟨x, hx, hnone⟩ := ih.mp htail
        simp only [Option.bind_eq_bind, Option.bind_some, Option.bind_none, true_iff]
        exact ⟨x, List.mem_cons_of_mem _ hx, hnone⟩
      | some bs =>
        have hall : ¬ ∃ x ∈ l, f x = none := fun h => by simp [ih.mpr h] at htail
        simp only [Option.bind_eq_bind, Option.bind_some, Option.pure_def, reduceCtorEq,
          false_iff]
        rintro ⟨x, hx, hnone⟩
        rcases List.mem_cons.mp hx with rfl | hx
        · simp [hhead] at hnone
        · exact hall ⟨x, hx, hnone⟩

theorem everyOther_length : ∀ l : List α, (everyOther l).length = (l.length + 1) / 2
  | [] => by simp [everyOther]
  | [_] => by simp [everyOther]
  | _ :: _ :: rest => by
    have ih := everyOther_length rest
    simp only [everyOther, List.length_cons]
    omega

/-- The arguments of MSET end with a key without a value, and its keys are in several slots
that all have nodes. -/
def MissingValue (nodeForSlot : ℕ → Option Bytes) (tail : List Bytes) : Prop :=
  tail.length % 2 = 1 ∧ (∀ k ∈ everyOther tail, (nodeForSlot (hashSlot k)).isSome) ∧
    ∃ k ∈ everyOther tail, ∃ k' ∈ everyOther tail, hashSlot k ≠ hashSlot k'

/-- The sub-command with the last key has no value for it. -/
theorem exists_subArgs_eq_none (name : Bytes) (hodd : tail.length % 2 = 1)
    (h : GroupsOk nodeForSlot (everyOther tail).zipIdx groups) :
    ∃ g ∈ groups, subArgs .mset (name :: tail) g = none := by
  have hlength := everyOther_length tail
  let last := (everyOther tail).length - 1
  have hlast : last < (everyOther tail).length := by omega
  have hmem : ((everyOther tail)[last], last) ∈ (everyOther tail).zipIdx := by
    rw [List.mem_zipIdx_iff_getElem?]
    exact List.getElem?_eq_getElem hlast
  obtain ⟨g, hg, hslot⟩ := List.mem_map.mp (h.cover _ hmem)
  refine ⟨g, hg, ?_⟩
  have hpair : ((everyOther tail)[last], last) ∈ g.keys.zip g.indices := by
    rw [h.keys g hg, h.indices g hg, List.zip_map']
    simp only [Prod.mk.eta, List.map_id', List.mem_filter]
    exact ⟨hmem, by simpa using hslot.symm⟩
  have hout : index (name :: tail) (1 + (last : ℤ) * 2 + 1) = none := by
    have hindex : 1 + (last : ℤ) * 2 + 1 = ((1 + last * 2 + 1 : ℕ) : ℤ) := by omega
    rw [hindex, index_natCast, List.getElem?_eq_none_iff, List.length_cons]
    omega
  have hnone : (g.keys.zip g.indices).mapM (fun x => do
      let value ← index (name :: tail) (1 + x.2 * 2 + 1)
      return [x.1, value]) = none :=
    mapM_eq_none_iff.mpr ⟨_, hpair, by simp only [hout]; rfl⟩
  simp only [subArgs, if_true]
  rw [hnone]
  rfl

/-- Several groups have keys in different slots. -/
private theorem exists_slots_ne {keys : List Bytes} (h : GroupsOk nodeForSlot keys.zipIdx groups)
    (hne : keys ≠ []) (hmany : ∀ g, groups ≠ [g]) :
    ∃ k ∈ keys, ∃ k' ∈ keys, hashSlot k ≠ hashSlot k' := by
  match groups, h, hmany with
  | [], h, _ =>
    obtain ⟨k, rest, rfl⟩ := List.exists_cons_of_ne_nil hne
    have := h.cover (k, 0) (by simp [List.zipIdx_cons])
    simp at this
  | [g], _, hmany => exact absurd rfl (hmany g)
  | g :: g' :: rest, h, _ =>
    obtain ⟨x, hx, hslot⟩ := h.occurs g (by simp)
    obtain ⟨x', hx', hslot'⟩ := h.occurs g' (by simp)
    have hnodup := h.nodup
    simp only [List.map_cons, List.nodup_cons, List.mem_cons, not_or] at hnodup
    refine ⟨x.1, fst_mem_of_mem_zipIdx hx, x'.1, fst_mem_of_mem_zipIdx hx', ?_⟩
    rw [hslot, hslot']
    exact hnodup.1.1

/-- The code panics exactly if a value is missing in an MSET over several slots. -/
theorem routeMultiKeyToMux_panic_iff (nodeForSlot : ℕ → Option Bytes) (cmd : MultiKeyCmd)
    (hargs : req.args = name :: tail) :
    routeMultiKeyToMux nodeForSlot cmd req = .panic ↔
      cmd = .mset ∧ MissingValue nodeForSlot tail := by
  have htail : req.args.tail = tail := by rw [hargs, List.tail_cons]
  unfold routeMultiKeyToMux
  simp only [htail]
  constructor
  · intro hpanic
    split at hpanic
    · cases hpanic
    rename_i hkeys
    split at hpanic
    · cases hpanic
    · cases hpanic
    rename_i groups hmany hgroups
    have hok := GroupsOk.of_groupKeys hgroups
    split at hpanic
    · rename_i hnone
      obtain ⟨g, hg, hsub⟩ := mapM_eq_none_iff.mp hnone
      rw [hargs] at hsub
      have hodd : ¬ (cmd = .mset → tail.length % 2 = 0) := by
        intro heven
        obtain ⟨sub, hsome, -⟩ := subArgs_eq_some name heven hok hg
        rw [hsub] at hsome
        cases hsome
      rw [Classical.not_imp] at hodd
      obtain ⟨rfl, hodd⟩ := hodd
      refine ⟨rfl, by omega, fun k hk => ?_, exists_slots_ne hok hkeys hmany⟩
      obtain ⟨g', hg', hslot⟩ := List.mem_map.mp (hok.slot_mem hk)
      rw [← hslot, hok.addr g' hg']
      rfl
    · cases hpanic
  · rintro ⟨rfl, hodd, hnodes, k, hk, k', hk', hne⟩
    have hkeys : everyOther tail ≠ [] := List.ne_nil_of_mem hk
    have hcover : ∀ x ∈ (everyOther tail).zipIdx, (nodeForSlot (hashSlot x.1)).isSome :=
      fun x hx => hnodes _ (fst_mem_of_mem_zipIdx hx)
    obtain ⟨groups, hgroups⟩ := groupKeys_ok _ hcover []
    have hok := GroupsOk.of_groupKeys hgroups
    have hnone := mapM_eq_none_iff.mpr (exists_subArgs_eq_none name hodd hok)
    have hmany : ∀ g, groups ≠ [g] := by
      rintro g rfl
      have hslot : ∀ key ∈ everyOther tail, hashSlot key = g.slot := by
        intro key hkey
        simpa using hok.slot_mem hkey
      exact hne ((hslot k hk).trans (hslot k' hk').symm)
    have hgroups' : groupKeys nodeForSlot (multiKeys .mset tail).zipIdx [] = .ok groups := hgroups
    rw [← hargs] at hnone
    rw [if_neg (show multiKeys .mset tail ≠ [] from hkeys), hgroups']
    split
    · rename_i heq
      cases heq
    · rename_i g heq
      exact absurd (Except.ok.inj heq) (hmany g)
    rename_i heq
    cases heq
    rw [hnone]

/-- BLMPOP or BZMPOP with a number of keys that overflows an index. -/
def CountOverflow (req : Request) : Prop :=
  (req.cmd = bytes "BLMPOP" ∨ req.cmd = bytes "BZMPOP") ∧ 5 ≤ req.args.length ∧
    ∃ n, atoi (req.args.getD 2 []) = some n ∧ 2 ^ 63 ≤ 3 + n

private theorem extractCountedKeys_eq_none_iff (args : List Bytes) {n : ℤ} (hn : n < 2 ^ 63) :
    extractCountedKeys args n = none ↔ 2 ^ 63 ≤ 3 + n := by
  unfold extractCountedKeys
  by_cases hpos : n ≤ 0
  · simp only [if_pos hpos, reduceCtorEq, false_iff]
    omega
  simp only [if_neg hpos]
  by_cases hover : 2 ^ 63 ≤ 3 + n
  · have hneg := wrap64_neg hover (by omega)
    rw [if_neg (by omega), slice_eq_none (Or.inl (by omega))]
    exact iff_of_true rfl hover
  rw [wrap64_eq_self (by omega) (by omega)]
  simp only [hover, iff_false]
  split
  · simp
  have hslice : slice args 3 (3 + n) ≠ none := by
    rw [slice, if_pos (by omega)]
    simp
  exact hslice

theorem extractBlockingKeys_eq_none_iff (req : Request) :
    extractBlockingKeys req = none ↔ CountOverflow req := by
  unfold extractBlockingKeys CountOverflow
  simp only
  split
  · rename_i hcmd
    simp only [reduceCtorEq, false_iff]
    rintro ⟨hcount, -⟩
    rcases hcount with hcount | hcount <;> rw [hcount] at hcmd <;> exact absurd hcmd (by decide)
  · split
    · rename_i hcmd
      rw [hcmd]
      simp only [reduceCtorEq, false_iff]
      rintro ⟨hcount, -⟩
      exact absurd hcount (by decide)
    · split
      · rename_i hcmd
        simp only [hcmd, true_and]
        split
        · simp only [reduceCtorEq, false_iff]
          omega
        rename_i hlen
        split
        · rename_i hnone
          simp only [hnone, reduceCtorEq, false_and, exists_false, and_false]
        rename_i n hsome
        rw [extractCountedKeys_eq_none_iff _ (atoi_bounds hsome).2]
        simp only [Option.some.injEq, exists_eq_left', hsome]
        omega
      · rename_i hcmd
        split <;> simp [hcmd]

theorem dispatchBlockingCommand_units (env : Env) (req : Request) :
    (dispatchBlockingCommand env req).units = 1 ↔ ¬ CountOverflow req := by
  rw [← extractBlockingKeys_eq_none_iff]
  unfold dispatchBlockingCommand
  split
  · rename_i hnone
    simp [hnone, Plan.units]
  · rename_i hsome
    simp [hsome, Plan.units, Plan.error]
  rename_i hsome
  simp only [hsome, reduceCtorEq, not_false_eq_true, iff_true]
  split
  · rfl
  · split <;> rfl

private theorem routeKey_units (env : Env) (hargs : req.args = name :: tail) (key : Bytes)
    (info : CmdInfo) (hnot : ¬ (req.cmd = bytes "MSET" ∧ MissingValue env.nodeForSlot tail)) :
    (routeKey env req key info).units = 1 := by
  unfold routeKey
  split
  · rfl
  split
  · split
    · rename_i cmd hcmd
      have hpanic : routeMultiKeyToMux env.nodeForSlot cmd req ≠ .panic := by
        rw [Ne, routeMultiKeyToMux_panic_iff _ cmd hargs]
        rintro ⟨rfl, hmissing⟩
        have hname := List.find?_some hcmd
        exact hnot ⟨(of_decide_eq_true hname).symm, hmissing⟩
      cases hplan : routeMultiKeyToMux env.nodeForSlot cmd req with
      | panic => exact absurd hplan hpanic
      | _ => rfl
    · rfl
  · split <;> rfl

private theorem getCmdInfo_mset :
    getCmdInfo (bytes "MSET") = some ⟨bytes "MSET", [.write, .multiKey], 1, -1, 2⟩ := rfl

theorem routeToBackend_units (env : Env) (hargs : req.args = name :: tail) :
    (routeToBackend env req).units = 1 ↔
      ¬ (req.cmd = bytes "MSET" ∧ MissingValue env.nodeForSlot tail) := by
  constructor
  · rintro hunits ⟨hcmd, hmissing⟩
    obtain ⟨key, rest, rfl⟩ : ∃ key rest, tail = key :: rest := by
      cases tail with
      | nil => exact absurd hmissing.1 (by simp)
      | cons key rest => exact ⟨key, rest, rfl⟩
    have hpanic := (routeMultiKeyToMux_panic_iff env.nodeForSlot .mset hargs).mpr ⟨rfl, hmissing⟩
    have hkey : getFirstKeyAndInfo req =
        (some key, some ⟨bytes "MSET", [.write, .multiKey], 1, -1, 2⟩) := by
      simp [getFirstKeyAndInfo, hargs, hcmd, getCmdInfo_mset]
    have hcmd' : MultiKeyCmd.ofName req.cmd = some .mset := by
      rw [hcmd]
      decide
    simp only [routeToBackend, hkey] at hunits
    rw [if_neg (by decide), routeKey, if_neg (by decide), if_pos (by decide), hcmd'] at hunits
    simp only [hpanic, MultiKeyPlan.toPlan, Plan.units] at hunits
    cases hunits
  · intro hnot
    unfold routeToBackend
    split
    · rfl
    split
    · rfl
    split
    · rfl
    · exact routeKey_units env hargs _ _ hnot

/-- The request of the default branch that panics. -/
def Panics (env : Env) (req : Request) : Prop :=
  CountOverflow req ∨ (req.cmd = bytes "MSET" ∧ MissingValue env.nodeForSlot req.args.tail)

theorem handleOther_units (env : Env) (hargs : req.args ≠ []) :
    (handleOther env req).units = 1 ↔ ¬ Panics env req := by
  obtain ⟨name, tail, hargs⟩ := List.exists_cons_of_ne_nil hargs
  have htail : req.args.tail = tail := by rw [hargs, List.tail_cons]
  simp only [handleOther, Panics, htail, not_or]
  by_cases hblocking : ((getCmdInfo req.cmd).any CmdInfo.isBlocking || isBlockingXREAD req) = true
  · have hmset : req.cmd ≠ bytes "MSET" := by
      intro hcmd
      rw [isBlockingXREAD, hcmd, if_pos (by decide), getCmdInfo_mset] at hblocking
      exact absurd hblocking (by decide)
    rw [if_pos hblocking, dispatchBlockingCommand_units]
    simp [hmset]
  · have hcount : ¬ CountOverflow req := by
      rintro ⟨hcmd, -⟩
      apply hblocking
      rw [Bool.or_eq_true]
      rcases hcmd with hcmd | hcmd <;> rw [hcmd] <;> exact Or.inl (by decide)
    rw [if_neg hblocking, routeToBackend_units env hargs]
    simp [hcount]

/-! ### The units of a dispatch -/

/-- The request has no reply or more than one: it is a HELLO with an AUTH that is accepted,
or it panics. -/
def Miscounts (cfg : Config) (env : Env) (s : Session) (req : Request) : Prop :=
  s.ReachesSwitch req ∧
    ((Verb.of req = .hello ∧ HelloWithAuth cfg s.loc req.args) ∨ Panics env req)

private theorem cmd_of_panics (h : Panics env req) :
    req.cmd ∈ [bytes "BLMPOP", bytes "BZMPOP", bytes "MSET"] := by
  rcases h with ⟨hcount | hcount, -⟩ | ⟨hmset, -⟩
  · simp [hcount]
  · simp [hcount]
  · simp [hmset]

private theorem verb_of_panics (h : Panics env req) : Verb.of req = .other := by
  have hcmd := cmd_of_panics h
  simp only [List.mem_cons, List.not_mem_nil, or_false] at hcmd
  rcases hcmd with hcmd | hcmd | hcmd <;> rw [Verb.of, hcmd] <;> rfl

/-- Only HELLO and the three commands that can panic miscount. -/
theorem not_miscounts {s : Session} (hhello : Verb.of req ≠ .hello)
    (hcmd : req.cmd ∉ [bytes "BLMPOP", bytes "BZMPOP", bytes "MSET"]) :
    ¬ Miscounts cfg env s req := by
  rintro ⟨-, hverb | hpanics⟩
  · exact hhello hverb.1
  · exact hcmd (cmd_of_panics hpanics)

private theorem handleCLUSTER_units (cfg : Config) (env : Env) (args : List Bytes) :
    (handleCLUSTER cfg env args).units = 1 := by
  unfold handleCLUSTER
  split
  · simp only
    split
    · rfl
    split
    · rfl
    · split <;> rfl
  · rfl

private theorem handleWATCH_units (env : Env) (s : Session) (args : List Bytes) :
    (handleWATCH env s args).units = 1 := by
  unfold handleWATCH
  split
  · split
    · rfl
    split
    · rfl
    · split <;> rfl
  · rfl

theorem handleVerb_units (cfg : Config) (env : Env) (s : Session) (hargs : req.args ≠ [])
    (hsub : isSubscribe req = false) :
    (handleVerb cfg env s req).units = 1 ↔
      ¬ ((Verb.of req = .hello ∧ HelloWithAuth cfg s.loc req.args) ∨ Panics env req) := by
  have hother := handleOther_units env hargs
  by_cases hhello : Verb.of req = .hello
  · have hpanics : ¬ Panics env req := fun h => by
      rw [verb_of_panics h] at hhello
      cases hhello
    simp only [handleVerb, hhello, Plan.units, handleHELLO_single_iff, true_and, hpanics, or_false]
  · simp only [hhello, false_and, false_or]
    have hplain : Verb.of req ≠ .other → ¬ Panics env req := fun h hp => h (verb_of_panics hp)
    simp only [handleVerb]
    cases hverb : Verb.of req with
    | hello => exact absurd hverb hhello
    | subscribe | psubscribe => simp [isSubscribe, hverb] at hsub
    | other | unsubscribe | punsubscribe => exact hother
    | cluster => exact iff_of_true (handleCLUSTER_units cfg env _) (hplain (by simp [hverb]))
    | watch => exact iff_of_true (handleWATCH_units env s _) (hplain (by simp [hverb]))
    | echo | readonly | readwrite =>
      refine iff_of_true ?_ (hplain (by simp [hverb]))
      simp only
      split <;> rfl
    | select =>
      refine iff_of_true ?_ (hplain (by simp [hverb]))
      simp only
      split
      · rfl
      · split <;> rfl
    | _ => exact iff_of_true rfl (hplain (by simp [hverb]))

/-- A request produces exactly one unit unless it is one of those that `Miscounts` names. -/
theorem dispatchClientRequest_units (cfg : Config) (env : Env) (s : Session)
    (hstate : s.state ≠ .subscribe) (hsub : isSubscribe req = false) :
    (dispatchClientRequest cfg env s req).units = 1 ↔ ¬ Miscounts cfg env s req := by
  by_cases hreaches : s.ReachesSwitch req
  · rw [Session.dispatch_of_reaches hreaches, handleVerb_units cfg env s hreaches.1 hsub]
    simp [Miscounts, hreaches]
  -- Away from the switch of `handleNormal` the plan has one unit.
  refine iff_of_true ?_ fun hmiscounts => hreaches hmiscounts.1
  have hchooses := Session.chooses_dispatchClientRequest cfg env s req
  cases hplan : dispatchClientRequest cfg env s req with
  | replies =>
    rw [hplan] at hchooses
    exact absurd hchooses.1 hreaches
  | panic =>
    rw [hplan] at hchooses
    exact absurd hchooses hreaches
  | subscribe =>
    rw [hplan] at hchooses
    simp [Session.Chooses, hstate, hsub] at hchooses
  | unsubscribe | push =>
    rw [hplan] at hchooses
    exact absurd hchooses hstate
  | _ => rfl

end Pluster.Engine
