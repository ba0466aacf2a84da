import Pluster.Cluster.Fingerprints

/-!
# The pools of the server

Any number of goroutines ask `poolRegistry` of `pkg/pool/registry.go` for pools, remove some or
close all of them. What runs under the lock is one step. Pools are numbers, in the order in which
the factory makes them. The hook of `pkg/server/server.go` removes the pools of nodes that leave
the cluster.
-/

namespace Pluster.Server

/-- The keys of `GetPool` and `GetReadonlyPool`. -/
def poolKey (addr : Bytes) (readonly : Bool) : Bytes :=
  if readonly then addr ++ bytes "#ro" else addr

/-- What `getOrCreate` gives to the factory. -/
def factoryArgs (key : Bytes) : Bytes × Bool :=
  if bytes "#ro" <:+ key then (key.take (key.length - 3), true) else (key, false)

/-- Where a call of `getOrCreate` is. -/
inductive Lookup
  | called (key : Bytes)
  /-- There was no pool under the read lock. -/
  | missed (key : Bytes)
  | returned (key : Bytes) (pool : ℕ)

/-- `poolRegistry`, with the keys for which pools were made, the calls of their `Close` and the
calls of `getOrCreate`. -/
structure Registry where
  pools : Bytes → Option ℕ := fun _ => none
  made : List Bytes := []
  closed : List ℕ := []
  lookups : List Lookup := []

inductive RegistryEvent
  | call (key : Bytes)
  /-- The part of `getOrCreate` under the read lock. -/
  | read (i : ℕ)
  /-- The part of `getOrCreate` under the lock. -/
  | create (i : ℕ)
  | remove (key : Bytes)
  | closeAll

namespace Registry

variable {s : Registry} {key : Bytes} {p : ℕ}

/-- A call gets to a phase. -/
def enter (s : Registry) (i : ℕ) (lookup : Lookup) : Registry :=
  { s with lookups := s.lookups.set i lookup }

/-- Execute one event. An event that cannot occur changes nothing. -/
def exec (s : Registry) : RegistryEvent → Registry
  | .call key => { s with lookups := s.lookups ++ [.called key] }
  | .read i =>
    match s.lookups[i]? with
    | some (.called key) =>
      match s.pools key with
      | some p => s.enter i (.returned key p)
      | none => s.enter i (.missed key)
    | _ => s
  | .create i =>
    match s.lookups[i]? with
    | some (.missed key) =>
      match s.pools key with
      | some p => s.enter i (.returned key p)
      | none =>
        { s.enter i (.returned key s.made.length) with
          pools := Function.update s.pools key (some s.made.length), made := s.made ++ [key] }
    | _ => s
  | .remove key =>
    match s.pools key with
    | some p => { s with pools := Function.update s.pools key none, closed := s.closed ++ [p] }
    | none => s
  | .closeAll =>
    { s with
      pools := fun _ => none
      closed := s.closed ++
        (List.range s.made.length).filter fun p => s.made[p]?.bind s.pools = some p }

/-- The pools of the registry are those that are not closed, and no pool is closed twice. -/
structure Ok (s : Registry) : Prop where
  pools : ∀ key p, s.pools key = some p ↔ s.made[p]? = some key ∧ p ∉ s.closed
  closed : s.closed.Nodup
  made : ∀ p ∈ s.closed, p < s.made.length
  returned : ∀ key p, .returned key p ∈ s.lookups → s.made[p]? = some key

theorem Ok.enter (h : s.Ok) (i : ℕ) {lookup : Lookup}
    (hlookup : ∀ key p, lookup = .returned key p → s.made[p]? = some key) :
    (s.enter i lookup).Ok where
  pools := h.pools
  closed := h.closed
  made := h.made
  returned key p hmem := (List.mem_or_eq_of_mem_set hmem).elim (h.returned key p)
    fun heq => hlookup key p heq.symm

theorem Ok.found (h : s.Ok) (i : ℕ) (hpool : s.pools key = some p) :
    (s.enter i (.returned key p)).Ok := by
  refine h.enter i ?_
  rintro key p ⟨⟩
  exact ((h.pools key p).mp hpool).1

theorem Ok.exec (h : s.Ok) (e : RegistryEvent) : (s.exec e).Ok := by
  cases e with
  | call key =>
    refine ⟨h.pools, h.closed, h.made, fun key p hmem => h.returned key p ?_⟩
    simpa [Registry.exec] using hmem
  | read i =>
    simp only [Registry.exec]
    split
    · split
      · rename_i hpool
        exact h.found i hpool
      · exact h.enter i nofun
    · exact h
  | create i =>
    simp only [Registry.exec]
    split
    · split
      · rename_i hpool
        exact h.found i hpool
      rename_i key _ hpool
      have hmade := h.made
      refine ⟨fun key' p => ?_, h.closed, fun p hp => ?_, fun key' p hmem => ?_⟩
      · have := h.pools key' p
        simp only [Function.update_apply]
        grind [Registry.enter]
      · simpa using Nat.lt_succ_of_lt (hmade p hp)
      · rcases List.mem_or_eq_of_mem_set hmem with hold | hnew
        · grind [h.returned key' p hold]
        · cases hnew
          simp
    · exact h
  | remove key =>
    simp only [Registry.exec]
    split
    · rename_i p hpool
      have hp := (h.pools key p).mp hpool
      have hmade := h.made
      have hclosed := h.closed
      refine ⟨fun key' q => ?_, by grind, by grind, h.returned⟩
      have := h.pools key' q
      simp only [Function.update_apply]
      grind
    · exact h
  | closeAll =>
    simp only [Registry.exec]
    have hmade := h.made
    refine ⟨fun key p => ?_, ?_, by grind, h.returned⟩
    · have := h.pools key p
      grind
    · refine h.closed.append (List.nodup_range.filter _) fun p hp hregistered => ?_
      have := fun key => h.pools key p
      grind

theorem ok_run (events : List RegistryEvent) : (Runs.run exec {} events).Ok :=
  Runs.run_invariant (fun _ e h => h.exec e) ⟨by simp, by simp, nofun, nofun⟩ events

theorem factoryArgs_poolKey {addr : Bytes} (haddr : ¬ bytes "#ro" <:+ addr) (readonly : Bool) :
    factoryArgs (poolKey addr readonly) = (addr, readonly) := by
  cases readonly with
  | false => simp [factoryArgs, poolKey, haddr]
  | true => simp [factoryArgs, poolKey, show bytes "#ro" = [35, 114, 111] from rfl]

/-- However the calls interleave, the registry has exactly the pools that were made and not closed,
and no pool is closed twice. A call of `GetPool` or `GetReadonlyPool` returns a pool of its kind
for its address, and calls that return pools that are still open return the same one. -/
theorem registry_serves_one_pool (events : List RegistryEvent) :
    let s := Runs.run exec {} events
    s.closed.Nodup ∧ (∀ key p, s.pools key = some p ↔ s.made[p]? = some key ∧ p ∉ s.closed) ∧
    ∀ addr readonly p, ¬ bytes "#ro" <:+ addr → .returned (poolKey addr readonly) p ∈ s.lookups →
      s.made[p]?.map factoryArgs = some (addr, readonly) ∧
      ∀ q, .returned (poolKey addr readonly) q ∈ s.lookups → p ∉ s.closed → q ∉ s.closed →
        p = q := by
  intro s
  have h : s.Ok := ok_run events
  refine ⟨h.closed, h.pools, fun addr readonly p haddr hp => ?_⟩
  have hmade := h.returned _ p hp
  refine ⟨by rw [hmade, Option.map_some, factoryArgs_poolKey haddr], fun q hq hopen hopen' => ?_⟩
  have hpool := (h.pools _ p).mpr ⟨hmade, hopen⟩
  rw [(h.pools _ q).mpr ⟨h.returned _ q hq, hopen'⟩] at hpool
  exact (Option.some.inj hpool).symm

/-! ### Nodes that leave -/

theorem grows_run (s : Registry) (events : List RegistryEvent) :
    s.made <+: (Runs.run exec s events).made ∧ s.closed <+: (Runs.run exec s events).closed := by
  induction events generalizing s with
  | nil => exact ⟨List.prefix_rfl, List.prefix_rfl⟩
  | cons e events ih =>
    have hstep : s.made <+: (s.exec e).made ∧ s.closed <+: (s.exec e).closed := by
      cases e <;> simp only [Registry.exec] <;> repeat' split
      all_goals simp [enter]
    exact ⟨hstep.1.trans (ih _).1, hstep.2.trans (ih _).2⟩

/-- A pool that was made for a key is closed once the key is removed. -/
theorem closed_of_remove {before events : List RegistryEvent} (hremove : .remove key ∈ events)
    (hmade : (Runs.run exec {} before).made[p]? = some key) :
    p ∈ (Runs.run exec {} (before ++ events)).closed := by
  obtain ⟨first, second, rfl⟩ := List.append_of_mem hremove
  have hpools := (ok_run (before ++ first)).pools key p
  obtain ⟨later, hlater⟩ := (grows_run (Runs.run exec {} before) first).1
  rw [Runs.run_append] at hpools
  rw [Runs.run_append, Runs.run_append, Runs.run_cons]
  apply (grows_run _ second).2.subset
  generalize Runs.run exec (Runs.run exec {} before) first = s at hlater hpools ⊢
  have hkey : s.made[p]? = some key := by grind
  simp only [Registry.exec]
  by_cases hclosed : p ∈ s.closed
  · split <;> simp [hclosed]
  · simp [hpools.mpr ⟨hkey, hclosed⟩]

end Registry

open Cluster Cluster.Manager

/-- The steps of the hook: `RemovePool` for each address that it is called with. -/
def hookSteps (calls : List (List Bytes)) : List RegistryEvent :=
  calls.flatten.flatMap fun addr => [.remove (poolKey addr false), .remove (poolKey addr true)]

/-- When nodes leave the cluster, the pools that were made for them before are closed after the
steps of the hook, whatever else happens to the registry in between. -/
theorem pools_of_removed_nodes_close (entryPoints : List Bytes) (es : List Refresh) (e : Refresh)
    (hmeets : Runs.Meets refresh AnswersNoBars { entryPoints } (es ++ [e]))
    (before events : List RegistryEvent) :
    let m := run { entryPoints } es
    hookSteps ((m.refresh e).removed.drop m.removed.length) ⊆ events →
    ∀ addr ∈ m.gone (m.refresh e), ∀ readonly p,
      (Runs.run Registry.exec {} before).made[p]? = some (poolKey addr readonly) →
      p ∈ (Runs.run Registry.exec {} (before ++ events)).closed := by
  intro m hsteps addr haddr readonly p hmade
  obtain ⟨hfirst, hlast⟩ := hmeets.of_append
  have hreports : m.ReportsGone (m.refresh e) := reportsGone_refresh (hfirst.invariant
    summarised_refresh ⟨List.forall_mem_nil _, ⟨id, List.Perm.refl⟩, rfl⟩) hlast.1
  rw [ReportsGone, if_neg (List.ne_nil_of_mem haddr)] at hreports
  obtain ⟨addrs, hperm, hremoved⟩ := hreports
  rw [hremoved, List.drop_left] at hsteps
  refine Registry.closed_of_remove (hsteps ?_) hmade
  rw [hookSteps, List.mem_flatMap]
  exact ⟨addr, by simpa using hperm.mem_iff.mpr haddr, by cases readonly <;> simp⟩

/-- Of two nodes one leaves, and a caller asks for the pool of the other one. -/
theorem pools_of_removed_nodes_close_two :
    let two := answered (bytes "a h:1 master - 0 0 0 c\nb h:2 master - 0 0 0 c")
    let one := answered (bytes "a h:1 master - 0 0 0 c")
    let m := run { entryPoints := [bytes "h:9"] } [two]
    m.gone (m.refresh one) = [bytes "h:2"] ∧
      0 ∈ (Runs.run Registry.exec {} ([.call (bytes "h:2"), .read 0, .create 0] ++
        .call (bytes "h:1") :: hookSteps [[bytes "h:2"]])).closed := by
  intro two one m
  have hgone : m.gone (m.refresh one) = [bytes "h:2"] := by decide +kernel
  have hcalls : (m.refresh one).removed.drop m.removed.length = [[bytes "h:2"]] := by
    decide +kernel
  refine ⟨hgone, pools_of_removed_nodes_close [bytes "h:9"] [two] one ?_ _ _
    (hcalls.symm ▸ List.subset_cons_self _ _) _ (hgone.symm ▸ List.mem_singleton_self _) false 0
    rfl⟩
  simp only [List.cons_append, List.nil_append, Runs.Meets, AnswersNoBars, NoBars]
  decide +kernel

end Pluster.Server
