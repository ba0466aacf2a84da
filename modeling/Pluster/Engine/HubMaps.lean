import Pluster.Engine.PubsubHub

/-!
# The maps of the hub

`pubsubHub` keeps its subscriptions twice: `subs` has the entries under each name, and
`clientSubs` the names of each client. The state of a client says a third time whether it has a
subscription. Here the maps are maps, with their missing and their empty values, and the three
agree in every run in which no client subscribes to nothing and no client with subscriptions
unsubscribes without naming them. `PubsubHub` has the same entries and names in flat lists.
-/

namespace Pluster.Engine

open Proto

variable {list : List SubEntry} {isGlob : Bool} {other client : ℕ} {p : Bytes}

/-- `hub.subs`. -/
abbrev SubsMap := AList fun _ : Bytes => List SubEntry

/-- The maps of `pubsubHub` and the states of its clients. -/
structure HubMaps where
  subs : SubsMap := ∅
  clientSubs : AList fun _ : ℕ => List Bytes := ∅
  /-- `cctx.state`, and `none` for a client that has closed. -/
  state : ℕ → Option ClientState := fun _ => some .normal

variable {subs : SubsMap} {m m' : HubMaps}

/-- Delete the entry of a client under a name, and the list under the name if it is empty. -/
def SubsMap.dropEntry (client : ℕ) (subs : SubsMap) (pattern : Bytes) : SubsMap :=
  let left := ((subs.lookup pattern).getD []).eraseP fun e => e.client = client
  if left = [] then subs.erase pattern else subs.insert pattern left

namespace HubMaps

/-- `hub.subs[pattern]`. -/
def entries (m : HubMaps) (pattern : Bytes) : List SubEntry := (m.subs.lookup pattern).getD []

/-- `hub.clientSubs[client]`. -/
def names (m : HubMaps) (client : ℕ) : List Bytes := (m.clientSubs.lookup client).getD []

/-- `addSub`. -/
def addSub (client : ℕ) (isGlob : Bool) (m : HubMaps) (pattern : Bytes) : HubMaps :=
  if (m.entries pattern).any fun e => e.client = client then m
  else
    let names := m.names client
    { m with
      subs := m.subs.insert pattern (m.entries pattern ++ [⟨client, pattern, isGlob⟩])
      clientSubs := m.clientSubs.insert client
        (if pattern ∈ names then names else names ++ [pattern]) }

/-- `removeSub`. -/
def removeSub (client : ℕ) (m : HubMaps) (pattern : Bytes) : HubMaps :=
  { m with
    subs := m.subs.dropEntry client pattern
    clientSubs :=
      match m.clientSubs.lookup client with
      | none => m.clientSubs
      | some names => m.clientSubs.insert client (names.filter fun p => p ≠ pattern) }

/-- `removeAllSubs`. -/
def removeAllSubs (m : HubMaps) (client : ℕ) : HubMaps :=
  { m with subs := (m.names client).foldl (SubsMap.dropEntry client) m.subs }

/-- `subscribe`, up to the request to the backend. -/
def subscribe (m : HubMaps) (client : ℕ) (req : Request) : HubMaps :=
  req.args.tail.foldl (addSub client (req.cmd = bytes "PSUBSCRIBE"))
    { m with state := Function.update m.state client (some .subscribe) }

/-- The end of `unsubscribe`, up to the request to the backend. -/
def leaveIfEmpty (m : HubMaps) (client : ℕ) : HubMaps :=
  if m.names client = [] then
    { m with
      clientSubs := m.clientSubs.erase client
      state := Function.update m.state client (some .normal) }
  else m

/-- The beginning of `unsubscribe`. -/
def removeSubs (m : HubMaps) (client : ℕ) (names : List Bytes) : HubMaps :=
  if names = [] then m.removeAllSubs client else names.foldl (removeSub client) m

/-- `unsubscribe`, up to the request to the backend. -/
def unsubscribe (m : HubMaps) (client : ℕ) (req : Request) : HubMaps :=
  (m.removeSubs client req.args.tail).leaveIfEmpty client

/-- `removeClient`, which is called when the client closes. -/
def removeClient (m : HubMaps) (client : ℕ) : HubMaps :=
  let m := m.removeAllSubs client
  { m with
    clientSubs := m.clientSubs.erase client
    state := Function.update m.state client none }

/-- `onSharedBackendClose`. -/
def onSharedBackendClose (m : HubMaps) : HubMaps where
  subs := ∅
  clientSubs := ∅
  state client :=
    if m.subs.entries.any fun list => list.2.any fun e => e.client = client then some .normal
    else m.state client

end HubMaps

/-- What changes the maps. -/
inductive MapsEvent
  | subscribe (client : ℕ) (req : Request)
  | unsubscribe (client : ℕ) (req : Request)
  | removeClient (client : ℕ)
  | onSharedBackendClose

namespace HubMaps

/-- Execute one event. -/
def exec (m : HubMaps) : MapsEvent → HubMaps
  | .subscribe client req => m.subscribe client req
  | .unsubscribe client req => m.unsubscribe client req
  | .removeClient client => m.removeClient client
  | .onSharedBackendClose => m.onSharedBackendClose

/-! ### The maps are inverse -/

/-- The two maps say the same. -/
structure Linked (m : HubMaps) : Prop where
  inverse : ∀ client p, p ∈ m.names client ↔ ∃ e ∈ m.entries p, e.client = client
  single : ∀ p, ((m.entries p).map SubEntry.client).Nodup
  nonempty : ∀ p list, m.subs.lookup p = some list → list ≠ []

/-- The invariant of the hub. -/
structure Inv (m : HubMaps) : Prop extends Linked m where
  state : ∀ client, m.state client = some .subscribe ↔ m.names client ≠ []

/-- The event names what it is about: a client without subscriptions does not subscribe to
nothing, and a client with subscriptions names those it gives up. -/
def Names (m : HubMaps) : MapsEvent → Prop
  | .subscribe client req => req.args.tail ≠ [] ∨ m.names client ≠ []
  | .unsubscribe client req => req.args.tail ≠ [] ∨ m.names client = []
  | .removeClient _ | .onSharedBackendClose => True

instance (m : HubMaps) : (e : MapsEvent) → Decidable (m.Names e)
  | .subscribe _ _ | .unsubscribe _ _ => inferInstanceAs (Decidable (_ ∨ _))
  | .removeClient _ | .onSharedBackendClose => inferInstanceAs (Decidable True)

/-! ### Lookups -/

section Lookup

variable {client : ℕ} {pattern p : Bytes}

theorem getD_lookup_dropEntry (subs : SubsMap) :
    ((subs.dropEntry client pattern).lookup p).getD [] =
      if p = pattern then ((subs.lookup p).getD []).eraseP fun e => e.client = client
      else (subs.lookup p).getD [] := by
  unfold SubsMap.dropEntry
  by_cases hp : p = pattern
  · subst hp
    simp only [if_true]
    split
    · rename_i hleft
      rw [AList.lookup_erase, hleft]
      rfl
    rw [AList.lookup_insert]
    rfl
  · simp only [if_neg hp]
    split
    · rw [AList.lookup_erase_ne hp]
    · rw [AList.lookup_insert_ne hp]

/-- No empty list is kept. -/
theorem nonempty_dropEntry (h : ∀ p list, subs.lookup p = some list → list ≠ [])
    (hlist : (subs.dropEntry client pattern).lookup p = some list) : list ≠ [] := by
  unfold SubsMap.dropEntry at hlist
  by_cases hp : p = pattern
  · subst hp
    simp only at hlist
    split at hlist
    · rw [AList.lookup_erase] at hlist
      cases hlist
    rename_i hleft
    rw [AList.lookup_insert] at hlist
    cases hlist
    exact hleft
  · simp only at hlist
    split at hlist
    · rw [AList.lookup_erase_ne hp] at hlist
      exact h p list hlist
    rw [AList.lookup_insert_ne hp] at hlist
    exact h p list hlist

/-- The only entry of a client under a name is deleted. -/
theorem eraseP_client (h : (list.map SubEntry.client).Nodup) (client : ℕ) :
    list.eraseP (fun e => e.client = client) = list.filter fun e => e.client ≠ client := by
  induction list with
  | nil => rfl
  | cons e list ih =>
    rw [List.map_cons, List.nodup_cons] at h
    by_cases hclient : e.client = client
    · have hrest : list.filter (fun e => e.client ≠ client) = list := by
        apply List.filter_eq_self.mpr
        intro e' he'
        simp only [ne_eq, decide_eq_true_eq]
        intro hsame
        apply h.1
        rw [hclient, ← hsame]
        exact List.mem_map_of_mem he'
      rw [List.eraseP_cons_of_pos (by simpa using hclient),
        List.filter_cons_of_neg (by simpa using hclient), hrest]
    · rw [List.eraseP_cons_of_neg (by simpa using hclient),
        List.filter_cons_of_pos (by simpa using hclient), ih h.2]

/-- The entries that the loop of `removeAllSubs` leaves. -/
theorem getD_lookup_foldl (names : List Bytes)
    (h : ∀ p, (((subs.lookup p).getD []).map SubEntry.client).Nodup) :
    ((names.foldl (SubsMap.dropEntry client) subs).lookup p).getD [] =
      if p ∈ names then ((subs.lookup p).getD []).filter fun e => e.client ≠ client
      else (subs.lookup p).getD [] := by
  induction names generalizing subs with
  | nil => simp
  | cons name names ih =>
    have hdrop : ∀ p, ((subs.dropEntry client name).lookup p).getD [] =
        if p = name then ((subs.lookup p).getD []).filter fun e => e.client ≠ client
        else (subs.lookup p).getD [] := by
      intro p
      rw [getD_lookup_dropEntry, eraseP_client (h p)]
    have hnodup : ∀ p, ((((subs.dropEntry client name).lookup p).getD []).map
        SubEntry.client).Nodup := by
      intro p
      rw [hdrop p]
      split
      · exact (List.filter_sublist.map _).nodup (h p)
      · exact h p
    rw [List.foldl_cons, ih hnodup, hdrop p]
    by_cases hname : p = name
    · subst hname
      by_cases hmem : p ∈ names <;> simp [hmem, List.filter_filter]
    · simp [hname]

/-- A client without an entry under a name gets one. -/
theorem entries_addSub (hnew : ∀ e ∈ m.entries pattern, e.client ≠ client) :
    (m.addSub client isGlob pattern).entries p =
      if p = pattern then m.entries p ++ [⟨client, pattern, isGlob⟩] else m.entries p := by
  have hany : ¬ ((m.entries pattern).any fun e => e.client = client) = true := by
    simpa using hnew
  rw [addSub, if_neg hany]
  by_cases hp : p = pattern
  · subst hp
    rw [if_pos rfl, entries, AList.lookup_insert]
    rfl
  rw [if_neg hp, entries, AList.lookup_insert_ne hp]
  rfl

theorem mem_names_addSub (hnew : ∀ e ∈ m.entries pattern, e.client ≠ client) :
    p ∈ (m.addSub client isGlob pattern).names other ↔
      p ∈ m.names other ∨ other = client ∧ p = pattern := by
  have hany : ¬ ((m.entries pattern).any fun e => e.client = client) = true := by
    simpa using hnew
  rw [addSub, if_neg hany]
  by_cases hother : other = client
  · subst hother
    rw [names, AList.lookup_insert]
    simp only [Option.getD_some, true_and]
    split
    · rename_i hmem
      constructor
      · exact .inl
      rintro (hp | rfl)
      · exact hp
      · exact hmem
    · simp
  · rw [names, AList.lookup_insert_ne hother]
    simp only [hother, false_and, or_false]
    rfl

theorem nonempty_addSub (h : ∀ p list, m.subs.lookup p = some list → list ≠ [])
    (hlist : (m.addSub client isGlob pattern).subs.lookup p = some list) : list ≠ [] := by
  unfold addSub at hlist
  split at hlist
  · exact h p list hlist
  by_cases hp : p = pattern
  · subst hp
    rw [AList.lookup_insert] at hlist
    cases hlist
    simp
  · rw [AList.lookup_insert_ne hp] at hlist
    exact h p list hlist

theorem names_removeSub (m : HubMaps) (other : ℕ) :
    (m.removeSub client pattern).names other =
      if other = client then (m.names other).filter fun p => p ≠ pattern else m.names other := by
  unfold removeSub names
  by_cases hother : other = client
  · subst hother
    cases hlookup : m.clientSubs.lookup other with
    | none => simp [hlookup]
    | some list => simp
  · cases hlookup : m.clientSubs.lookup client with
    | none => simp [hother]
    | some list => simp [hother, AList.lookup_insert_ne hother]

theorem entries_removeSub (h : ∀ p, ((m.entries p).map SubEntry.client).Nodup) :
    (m.removeSub client pattern).entries p =
      if p = pattern then (m.entries p).filter fun e => e.client ≠ client else m.entries p := by
  rw [removeSub, entries, getD_lookup_dropEntry]
  by_cases hp : p = pattern
  · rw [if_pos hp, if_pos hp]
    exact eraseP_client (h p) client
  rw [if_neg hp, if_neg hp]
  rfl

/-- `delete(hub.clientSubs, clientConn)`. -/
theorem getD_lookup_erase (map : AList fun _ : ℕ => List Bytes) (other : ℕ) :
    ((map.erase client).lookup other).getD [] =
      if other = client then [] else (map.lookup other).getD [] := by
  by_cases hother : other = client
  · subst hother
    rw [AList.lookup_erase, if_pos rfl]
    rfl
  · rw [AList.lookup_erase_ne hother, if_neg hother]

end Lookup

/-! ### What the operations keep -/

namespace Linked

variable {m : HubMaps} {client : ℕ}

theorem addSub (h : m.Linked) (client : ℕ) (isGlob : Bool) (pattern : Bytes) :
    (m.addSub client isGlob pattern).Linked := by
  by_cases hnew : ∀ e ∈ m.entries pattern, e.client ≠ client
  · constructor
    · intro other p
      rw [mem_names_addSub hnew, entries_addSub hnew, h.inverse other p]
      by_cases hp : p = pattern
      · subst hp
        rw [if_pos rfl]
        simp only [List.mem_append, List.mem_singleton, or_and_right, exists_or, exists_eq_left,
          and_true]
        rw [eq_comm]
      · rw [if_neg hp]
        simp only [hp, and_false, or_false]
    · intro p
      rw [entries_addSub hnew]
      split
      · rename_i hp
        subst hp
        rw [List.map_append, List.map_singleton]
        refine List.Nodup.append (h.single p) (List.nodup_singleton _) ?_
        simpa using hnew
      · exact h.single p
    · intro p list hlist
      exact nonempty_addSub h.nonempty hlist
  · have hany : ((m.entries pattern).any fun e => e.client = client) = true := by
      simpa using hnew
    rw [HubMaps.addSub, if_pos hany]
    exact h

theorem removeSub (h : m.Linked) (client : ℕ) (pattern : Bytes) :
    (m.removeSub client pattern).Linked := by
  constructor
  · intro other p
    rw [names_removeSub, entries_removeSub h.single]
    by_cases hother : other = client
    · subst hother
      rw [if_pos rfl]
      by_cases hp : p = pattern
      · simp [hp]
      · simp [hp, h.inverse other p]
    · rw [if_neg hother, h.inverse other p]
      by_cases hp : p = pattern
      · rw [if_pos hp]
        constructor
        · rintro ⟨e, he, hclient⟩
          exact ⟨e, List.mem_filter.mpr ⟨he, by simpa [hclient] using hother⟩, hclient⟩
        rintro ⟨e, he, hclient⟩
        exact ⟨e, (List.mem_filter.mp he).1, hclient⟩
      · rw [if_neg hp]
  · intro p
    rw [entries_removeSub h.single]
    split
    · exact (List.filter_sublist.map _).nodup (h.single p)
    · exact h.single p
  · intro p list hlist
    exact nonempty_dropEntry h.nonempty hlist

/-- The entries that are left when a client gives up all its names. -/
theorem entries_removeAllSubs (h : m.Linked) (client : ℕ) (p : Bytes) :
    (m.removeAllSubs client).entries p = (m.entries p).filter fun e => e.client ≠ client := by
  rw [removeAllSubs, entries, getD_lookup_foldl _ h.single]
  by_cases hp : p ∈ m.names client
  · rw [if_pos hp]
    rfl
  rw [if_neg hp, eq_comm]
  apply List.filter_eq_self.mpr
  intro e he
  simp only [ne_eq, decide_eq_true_eq]
  intro hclient
  exact hp ((h.inverse client p).mpr ⟨e, he, hclient⟩)

theorem nonempty_removeAllSubs (h : m.Linked) (client : ℕ) (p : Bytes) (list : List SubEntry)
    (hlist : (m.removeAllSubs client).subs.lookup p = some list) : list ≠ [] := by
  have hfold : ∀ (names : List Bytes) (subs : SubsMap),
      (∀ p list, subs.lookup p = some list → list ≠ []) →
      ∀ p list, (names.foldl (SubsMap.dropEntry client) subs).lookup p = some list →
        list ≠ [] := by
    intro names
    induction names with
    | nil => exact fun subs h => h
    | cons name names ih =>
      intro subs h
      exact ih _ fun p list hlist => nonempty_dropEntry h hlist
  exact hfold _ _ h.nonempty p list hlist

/-- `removeAllSubs` followed by the deletion of the client's own map. -/
theorem removeClient (h : m.Linked) (client : ℕ) : (m.removeClient client).Linked := by
  have hentries : ∀ p, (m.removeClient client).entries p =
      (m.entries p).filter fun e => e.client ≠ client := h.entries_removeAllSubs client
  have hnames : ∀ other, (m.removeClient client).names other =
      if other = client then [] else m.names other :=
    getD_lookup_erase m.clientSubs
  constructor
  · intro other p
    rw [hentries, hnames]
    by_cases hother : other = client
    · simp [hother]
    rw [if_neg hother, h.inverse other p]
    constructor
    · rintro ⟨e, he, hclient⟩
      exact ⟨e, List.mem_filter.mpr ⟨he, by simpa [hclient] using hother⟩, hclient⟩
    rintro ⟨e, he, hclient⟩
    exact ⟨e, (List.mem_filter.mp he).1, hclient⟩
  · intro p
    rw [hentries]
    exact (List.filter_sublist.map _).nodup (h.single p)
  · exact h.nonempty_removeAllSubs client

/-- The loop of `subscribe`. -/
theorem foldl_addSub (h : m.Linked) (client : ℕ) (isGlob : Bool) (names : List Bytes) :
    (names.foldl (HubMaps.addSub client isGlob) m).Linked := by
  induction names generalizing m with
  | nil => exact h
  | cons name names ih => exact ih (h.addSub client isGlob name)

/-- The loop of `unsubscribe`. -/
theorem foldl_removeSub (h : m.Linked) (client : ℕ) (names : List Bytes) :
    (names.foldl (HubMaps.removeSub client) m).Linked := by
  induction names generalizing m with
  | nil => exact h
  | cons name names ih => exact ih (h.removeSub client name)

theorem mem_names_addSub (h : m.Linked) {pattern : Bytes} :
    p ∈ (m.addSub client isGlob pattern).names other ↔
      p ∈ m.names other ∨ other = client ∧ p = pattern := by
  by_cases hnew : ∀ e ∈ m.entries pattern, e.client ≠ client
  · exact HubMaps.mem_names_addSub hnew
  push Not at hnew
  have hany : ((m.entries pattern).any fun e => e.client = client) = true := by
    simpa using hnew
  rw [HubMaps.addSub, if_pos hany]
  constructor
  · exact .inl
  rintro (hp | ⟨rfl, rfl⟩)
  · exact hp
  · exact (h.inverse _ _).mpr hnew

/-- The names of the clients after the loop of `subscribe`. -/
theorem mem_names_foldl_addSub (h : m.Linked) (names : List Bytes) :
    p ∈ (names.foldl (HubMaps.addSub client isGlob) m).names other ↔
      p ∈ m.names other ∨ other = client ∧ p ∈ names := by
  induction names generalizing m with
  | nil => simp
  | cons name names ih =>
    rw [List.foldl_cons, ih (h.addSub client isGlob name), h.mem_names_addSub, List.mem_cons,
      or_assoc, ← and_or_left]

end Linked

theorem state_foldl_addSub (names : List Bytes) (m : HubMaps) (client : ℕ) (isGlob : Bool) :
    (names.foldl (addSub client isGlob) m).state = m.state := by
  induction names generalizing m with
  | nil => rfl
  | cons name names ih =>
    rw [List.foldl_cons, ih]
    unfold addSub
    split <;> rfl

theorem state_foldl_removeSub (names : List Bytes) (m : HubMaps) (client : ℕ) :
    (names.foldl (removeSub client) m).state = m.state := by
  induction names generalizing m with
  | nil => rfl
  | cons name names ih => rw [List.foldl_cons, ih, removeSub]

/-- The names of the clients after the loop of `unsubscribe`. -/
theorem mem_names_foldl_removeSub (names : List Bytes) (m : HubMaps) :
    p ∈ (names.foldl (removeSub client) m).names other ↔
      p ∈ m.names other ∧ (other = client → p ∉ names) := by
  induction names generalizing m with
  | nil => simp
  | cons name names ih =>
    rw [List.foldl_cons, ih, names_removeSub]
    by_cases hother : other = client
    · simp [hother, and_assoc]
    · simp [hother]

theorem names_foldl_removeSub_other (hother : other ≠ client) (names : List Bytes) (m : HubMaps) :
    (names.foldl (removeSub client) m).names other = m.names other := by
  induction names generalizing m with
  | nil => rfl
  | cons name names ih => rw [List.foldl_cons, ih, names_removeSub, if_neg hother]

theorem names_leaveIfEmpty (m : HubMaps) (client other : ℕ) :
    (m.leaveIfEmpty client).names other = m.names other := by
  unfold leaveIfEmpty
  split
  · rename_i hempty
    rw [names, getD_lookup_erase]
    split
    · rename_i hother
      rw [hother, hempty]
    · rfl
  · rfl

theorem subs_leaveIfEmpty (m : HubMaps) (client : ℕ) :
    (m.leaveIfEmpty client).subs = m.subs := by
  unfold leaveIfEmpty
  split <;> rfl

/-- Maps with the same entries and the same names. -/
theorem Linked.congr (h : m.Linked) (hsubs : m'.subs = m.subs)
    (hnames : ∀ client, m'.names client = m.names client) : m'.Linked where
  inverse client p := by
    rw [hnames, entries, hsubs]
    exact h.inverse client p
  single p := by
    rw [entries, hsubs]
    exact h.single p
  nonempty p list hlist := by
    rw [hsubs] at hlist
    exact h.nonempty p list hlist

/-! ### The invariant -/

namespace Inv

variable {m : HubMaps}

/-- A subscription keeps the invariant unless a client without subscriptions names nothing: it
would be in the subscription state without a subscription. -/
theorem subscribe_iff (h : m.Inv) (client : ℕ) (req : Request) :
    (m.subscribe client req).Inv ↔ req.args.tail ≠ [] ∨ m.names client ≠ [] := by
  let start : HubMaps := { m with state := Function.update m.state client (some .subscribe) }
  have hstart : start.Linked := h.toLinked.congr rfl fun _ => rfl
  have hmem : ∀ other p, p ∈ (m.subscribe client req).names other ↔
      p ∈ m.names other ∨ other = client ∧ p ∈ req.args.tail := fun other p =>
    hstart.mem_names_foldl_addSub req.args.tail
  have hstate : (m.subscribe client req).state =
      Function.update m.state client (some .subscribe) :=
    state_foldl_addSub req.args.tail start client _
  have hclient : (m.subscribe client req).names client ≠ [] ↔
      req.args.tail ≠ [] ∨ m.names client ≠ [] := by
    simp only [ne_eq, List.eq_nil_iff_forall_not_mem, hmem, true_and, not_or, forall_and]
    tauto
  constructor
  · intro hinv
    apply hclient.mp
    apply (hinv.state client).mp
    rw [hstate, Function.update_self]
  · intro hnames
    refine ⟨hstart.foldl_addSub client _ req.args.tail, fun other => ?_⟩
    rw [hstate]
    by_cases hother : other = client
    · subst hother
      rw [Function.update_self]
      exact ⟨fun _ => hclient.mpr hnames, fun _ => rfl⟩
    rw [Function.update_of_ne hother, h.state other]
    simp only [ne_eq, List.eq_nil_iff_forall_not_mem, hmem, hother, false_and, or_false]

/-- The end of `unsubscribe` brings the state of a client to its names, if these only became
fewer. -/
theorem leaveIfEmpty {left : HubMaps} (h : m.Inv) (hleft : left.Linked)
    (hstate : left.state = m.state) (hclient : left.names client ≠ [] → m.names client ≠ [])
    (hother : ∀ other, other ≠ client → left.names other = m.names other) :
    (left.leaveIfEmpty client).Inv := by
  refine ⟨hleft.congr (subs_leaveIfEmpty left client) (names_leaveIfEmpty left client), ?_⟩
  intro other
  rw [names_leaveIfEmpty]
  by_cases hsame : other = client
  · subst hsame
    unfold HubMaps.leaveIfEmpty
    split
    · rename_i hempty
      simp [hempty]
    rename_i hnames
    rw [hstate, h.state other]
    exact ⟨fun _ => hnames, hclient⟩
  · have hkept : (left.leaveIfEmpty client).state other = m.state other := by
      unfold HubMaps.leaveIfEmpty
      split
      · exact (Function.update_of_ne hsame _ _).trans (congrFun hstate other)
      · exact congrFun hstate other
    rw [hkept, hother other hsame, h.state other]

/-- Unsubscription from names. -/
theorem unsubscribe_of_names (h : m.Inv) (client : ℕ) {req : Request}
    (hnames : req.args.tail ≠ []) : (m.unsubscribe client req).Inv := by
  rw [unsubscribe, removeSubs, if_neg hnames]
  have hmem : ∀ other p, p ∈ (req.args.tail.foldl (removeSub client) m).names other ↔ _ :=
    fun other p => mem_names_foldl_removeSub req.args.tail m
  apply h.leaveIfEmpty (h.toLinked.foldl_removeSub client req.args.tail)
    (state_foldl_removeSub req.args.tail m client)
  · intro hleft
    obtain ⟨p, hp⟩ := List.exists_mem_of_ne_nil _ hleft
    exact List.ne_nil_of_mem ((hmem client p).mp hp).1
  intro other hother
  exact names_foldl_removeSub_other hother req.args.tail m

/-- Unsubscription without names keeps the names, and deletes the entries under them. -/
theorem unsubscribe_iff (h : m.Inv) (client : ℕ) (req : Request) :
    (m.unsubscribe client req).Inv ↔ req.args.tail ≠ [] ∨ m.names client = [] := by
  by_cases hargs : req.args.tail = []
  · simp only [hargs, ne_eq, not_true, false_or]
    have hnames : (m.unsubscribe client req).names client = m.names client := by
      rw [unsubscribe, removeSubs, if_pos hargs, names_leaveIfEmpty]
      rfl
    constructor
    · intro hinv
      rw [List.eq_nil_iff_forall_not_mem]
      intro p hp
      obtain ⟨e, he, hclient⟩ := (hinv.inverse client p).mp (hnames ▸ hp)
      rw [unsubscribe, removeSubs, if_pos hargs, entries, subs_leaveIfEmpty] at he
      have hfilter := h.toLinked.entries_removeAllSubs client p
      rw [entries] at hfilter
      rw [hfilter, List.mem_filter] at he
      simp [hclient] at he
    · intro hempty
      have hsame : m.removeAllSubs client = m := by
        rw [removeAllSubs, hempty]
        rfl
      rw [unsubscribe, removeSubs, if_pos hargs, hsame]
      exact h.leaveIfEmpty h.toLinked rfl id fun _ _ => rfl
  · simp only [hargs, ne_eq, not_false_eq_true, true_or, iff_true]
    exact h.unsubscribe_of_names client hargs

theorem removeClient (h : m.Inv) (client : ℕ) : (m.removeClient client).Inv := by
  refine ⟨h.toLinked.removeClient client, fun other => ?_⟩
  have hnames : (m.removeClient client).names other =
      if other = client then [] else m.names other :=
    getD_lookup_erase m.clientSubs other
  have hstate : (m.removeClient client).state other =
      Function.update m.state client none other := rfl
  rw [hnames, hstate]
  by_cases hother : other = client
  · subst hother
    simp
  · rw [if_neg hother, Function.update_of_ne hother, h.state other]

theorem onSharedBackendClose (h : m.Inv) : m.onSharedBackendClose.Inv := by
  refine ⟨⟨?_, ?_, ?_⟩, fun client => ?_⟩
  · intro client p
    simp [HubMaps.onSharedBackendClose, names, entries]
  · intro p
    simp [HubMaps.onSharedBackendClose, entries]
  · intro p list hlist
    simp [HubMaps.onSharedBackendClose] at hlist
  have hnames : m.onSharedBackendClose.names client = [] := by
    simp [HubMaps.onSharedBackendClose, names]
  simp only [hnames, ne_eq, not_true, iff_false]
  simp only [HubMaps.onSharedBackendClose]
  split
  · simp
  rename_i hno
  -- A client in the subscription state has an entry, and is found there.
  intro hsubscribe
  apply hno
  obtain ⟨p, hp⟩ := List.exists_mem_of_ne_nil _ ((h.state client).mp hsubscribe)
  obtain ⟨e, he, hclient⟩ := (h.inverse client p).mp hp
  rw [entries] at he
  cases hlookup : m.subs.lookup p with
  | none =>
    rw [hlookup] at he
    cases he
  | some list =>
    rw [hlookup] at he
    rw [List.any_eq_true]
    refine ⟨⟨p, list⟩, AList.mem_lookup_iff.mp hlookup, ?_⟩
    rw [List.any_eq_true]
    exact ⟨e, he, by simpa using hclient⟩

/-- The events that keep the invariant. -/
theorem exec_iff (h : m.Inv) (e : MapsEvent) : (m.exec e).Inv ↔ m.Names e := by
  cases e with
  | subscribe client req => exact h.subscribe_iff client req
  | unsubscribe client req => exact h.unsubscribe_iff client req
  | removeClient client => exact iff_of_true (h.removeClient client) trivial
  | onSharedBackendClose => exact iff_of_true h.onSharedBackendClose trivial

end Inv

theorem inv_empty : Inv {} := by
  refine ⟨⟨?_, ?_, ?_⟩, ?_⟩
  · intro client p
    simp [names, entries]
  · intro p
    simp [entries]
  · intro p list hlist
    simp at hlist
  intro client
  simp [names]

/-- The maps of the hub and the states of its clients agree in all states of a run exactly if
every event of the run names what it is about. -/
theorem hub_maps_inv_iff (events : List MapsEvent) :
    (∀ first second, events = first ++ second → (Runs.run exec {} first).Inv) ↔
      Runs.Meets exec Names {} events :=
  (Runs.meets_iff_invariant (fun _ e h => h.exec_iff e) inv_empty events).symm

/-- A client subscribes and gives up all its subscriptions without naming them. -/
def unsubscribeAll : List MapsEvent :=
  [.subscribe 0 (SubOp.subscribe.on [bytes "news"]).request,
    .unsubscribe 0 (SubOp.unsubscribe.on []).request]

/-- The client stays in the subscription state, with a name that has no entry. -/
theorem unsubscribe_all_stuck :
    (Runs.run exec {} unsubscribeAll).state 0 = some .subscribe ∧
      (Runs.run exec {} unsubscribeAll).names 0 = [bytes "news"] ∧
      (Runs.run exec {} unsubscribeAll).entries (bytes "news") = [] ∧
      ¬ (Runs.run exec {} unsubscribeAll).Inv := by
  have hnames : (Runs.run exec {} unsubscribeAll).names 0 = [bytes "news"] := by decide +kernel
  have hentries : (Runs.run exec {} unsubscribeAll).entries (bytes "news") = [] := by
    decide +kernel
  refine ⟨by decide +kernel, hnames, hentries, fun hinv => ?_⟩
  have hmem : bytes "news" ∈ (Runs.run exec {} unsubscribeAll).names 0 := by
    rw [hnames]
    exact List.mem_singleton_self _
  rw [hinv.inverse, hentries] at hmem
  obtain ⟨e, he, -⟩ := hmem
  cases he

/-- A client that subscribes to nothing is in the subscription state all the same. -/
example : (Runs.run exec {} [.subscribe 0 (SubOp.subscribe.on []).request]).state 0 =
    some .subscribe := by decide +kernel

end HubMaps

end Pluster.Engine
