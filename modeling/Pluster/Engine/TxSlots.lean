import Pluster.Engine.Commands

/-!
# The slot of a transaction

`resolveMultiSlot` chooses the node for the requests of a transaction by the first key of each
request. A request may have more keys, so that keys in different slots are found exactly if
two of the first keys are in different slots.
-/

namespace Pluster.Engine

open Proto

variable {req : Req} {key : Bytes} {queue : List Req}

/-- The first keys of the requests of a transaction. -/
def firstKeys (queue : List Req) : List Bytes :=
  queue.filterMap fun req => getFirstKeyFromRequest req.body

/-- All keys of the requests of a transaction. -/
def allKeys (queue : List Req) : List Bytes := queue.flatMap fun req => getKeys req.body

/-- The keys are in the same slot. -/
def OneSlot (keys : List Bytes) : Prop := ∀ a ∈ keys, ∀ b ∈ keys, hashSlot a = hashSlot b

theorem oneSlot_cons (key : Bytes) (keys : List Bytes) :
    OneSlot (key :: keys) ↔ ∀ k ∈ keys, hashSlot k = hashSlot key := by
  constructor
  · intro h k hk
    exact h k (List.mem_cons_of_mem _ hk) key List.mem_cons_self
  intro h
  have hall : ∀ k ∈ key :: keys, hashSlot k = hashSlot key := by
    intro k hk
    rcases List.mem_cons.mp hk with rfl | hk
    · rfl
    · exact h k hk
  intro a ha b hb
  rw [hall a ha, hall b hb]

/-! ### The loop over the requests -/

theorem firstKeys_cons_of_none (h : getFirstKeyFromRequest req.body = none) (rest : List Req) :
    firstKeys (req :: rest) = firstKeys rest :=
  List.filterMap_cons_none h

theorem firstKeys_cons_of_some (h : getFirstKeyFromRequest req.body = some key) (rest : List Req) :
    firstKeys (req :: rest) = key :: firstKeys rest :=
  List.filterMap_cons_some h

theorem multiSlot_some (queue : List Req) (slot : ℕ) :
    multiSlot queue (some slot) =
      if (firstKeys queue).all fun key => hashSlot key = slot then some (some slot) else none := by
  induction queue with
  | nil => rfl
  | cons req rest ih =>
    cases hkey : getFirstKeyFromRequest req.body with
    | none => simp only [multiSlot, hkey, ih, firstKeys_cons_of_none hkey]
    | some key =>
      simp only [multiSlot, hkey, firstKeys_cons_of_some hkey]
      by_cases hslot : hashSlot key = slot <;> simp [hslot, ih]

theorem multiSlot_none (queue : List Req) :
    multiSlot queue none =
      match firstKeys queue with
      | [] => some none
      | key :: keys =>
        if keys.all fun k => hashSlot k = hashSlot key then some (some (hashSlot key))
        else none := by
  induction queue with
  | nil => rfl
  | cons req rest ih =>
    cases hkey : getFirstKeyFromRequest req.body with
    | none => simp only [multiSlot, hkey, ih, firstKeys_cons_of_none hkey]
    | some key =>
      simp only [multiSlot, hkey, firstKeys_cons_of_some hkey]
      exact multiSlot_some rest (hashSlot key)

/-- The loop fails exactly if two of the first keys are in different slots. -/
theorem multiSlot_eq_none_iff (queue : List Req) :
    multiSlot queue none = none ↔ ¬ OneSlot (firstKeys queue) := by
  rw [multiSlot_none]
  cases firstKeys queue with
  | nil => simp [OneSlot]
  | cons key keys =>
    rw [oneSlot_cons]
    simp

/-- The slot that the loop finds is the slot of every first key. -/
theorem hashSlot_of_multiSlot {slot : ℕ} (h : multiSlot queue none = some (some slot)) :
    ∀ key ∈ firstKeys queue, hashSlot key = slot := by
  rw [multiSlot_none] at h
  cases hkeys : firstKeys queue with
  | nil => simp
  | cons key keys =>
    simp only [hkeys] at h
    split at h
    · rename_i hone
      cases h
      simpa using hone
    · cases h

/-! ### The keys of a request -/

theorem first_mem_keysBetween {args : List Bytes} {first : ℕ} (h : first < args.length)
    (last step : ℕ) : args[first] ∈ keysBetween args first last step := by
  refine List.mem_filterMap.mpr ⟨first, ?_, List.getElem?_eq_getElem h⟩
  rw [List.range'_succ]
  exact List.mem_cons_self

/-- If a request has keys, then its first key is one of them. -/
theorem firstKey_mem_getKeys {req : Request} (h : getKeys req ≠ []) :
    ∃ key ∈ getKeys req, getFirstKeyFromRequest req = some key := by
  unfold getKeys at h ⊢
  split at h
  · exact absurd rfl h
  rename_i hargs
  split at h
  · exact absurd rfl h
  rename_i info hinfo
  simp only [if_neg hargs, getFirstKeyFromRequest, getFirstKeyAndInfo, hinfo]
  by_cases hfirst : info.firstKey = 0
  · simp only [if_pos hfirst, ne_eq, not_true_eq_false] at h
  simp only [if_neg hfirst] at h ⊢
  generalize (if info.step = 0 then 1 else info.step) = step at h ⊢
  generalize (if info.lastKey < 0 then _ else info.lastKey) = last at h ⊢
  split at h
  · exact absurd rfl h
  rename_i hbounds
  have hlt : info.firstKey < req.args.length := by omega
  refine ⟨req.args[info.firstKey], ?_, List.getElem?_eq_getElem hlt⟩
  rw [if_neg hbounds]
  exact first_mem_keysBetween hlt _ _

theorem firstKey_of_mem_allKeys (h : key ∈ allKeys queue) :
    ∃ first ∈ firstKeys queue, first ∈ allKeys queue := by
  obtain ⟨req, hreq, hkey⟩ := List.mem_flatMap.mp h
  obtain ⟨first, hfirst, hget⟩ := firstKey_mem_getKeys (List.ne_nil_of_mem hkey)
  exact ⟨first, List.mem_filterMap.mpr ⟨req, hreq, hget⟩,
    List.mem_flatMap.mpr ⟨req, hreq, hfirst⟩⟩

/-! ### All keys of a transaction -/

/-- The text for keys in several slots. -/
def multiCrossSlot : Bytes :=
  bytes "CROSSSLOT Keys in MULTI transaction don't hash to the same slot"

/-- `resolveMultiSlot` looks at all keys of the requests: a slot that it finds is the slot of all
of them, and two keys in different slots are an error. -/
structure ResolvesAllKeys (env : Env) (queue : List Req) : Prop where
  slot : ∀ slot addr, multiSlot queue none = some (some slot) →
    resolveMultiSlot env queue = .ok addr → ∀ key ∈ allKeys queue, hashSlot key = slot
  cross : ¬ OneSlot (allKeys queue) → resolveMultiSlot env queue = .error multiCrossSlot

theorem resolveMultiSlot_cross_iff (env : Env) (queue : List Req) :
    resolveMultiSlot env queue = .error multiCrossSlot ↔ ¬ OneSlot (firstKeys queue) := by
  rw [← multiSlot_eq_none_iff, resolveMultiSlot]
  have hnode : ∀ slot, noNode slot ≠ multiCrossSlot := by
    intro slot h
    have hhead : some (69 : UInt8) = some 67 := congrArg List.head? h
    exact absurd hhead (by decide)
  cases multiSlot queue none with
  | none => exact iff_of_true rfl rfl
  | some found =>
    simp only [reduceCtorEq, iff_false]
    cases found with
    | none =>
      cases env.masters with
      | nil => exact fun h => absurd (Except.error.inj h) (by decide)
      | cons master rest => nofun
    | some slot =>
      simp only
      cases env.nodeForSlot slot with
      | none => exact fun h => hnode slot (Except.error.inj h)
      | some addr => nofun

/-- `resolveMultiSlot` looks at all keys exactly if two of the first keys are in different slots
whenever two of the keys are. -/
theorem resolves_all_keys_iff (env : Env) (queue : List Req) :
    ResolvesAllKeys env queue ↔ (OneSlot (firstKeys queue) → OneSlot (allKeys queue)) := by
  constructor
  · intro h hfirst
    by_contra hall
    exact (resolveMultiSlot_cross_iff env queue).mp (h.cross hall) hfirst
  intro h
  constructor
  · intro slot addr hslot _ key hkey
    have hfirst : OneSlot (firstKeys queue) := by
      by_contra hnot
      rw [(multiSlot_eq_none_iff queue).mpr hnot] at hslot
      cases hslot
    obtain ⟨first, hmem, hall⟩ := firstKey_of_mem_allKeys hkey
    rw [h hfirst key hkey first hall]
    exact hashSlot_of_multiSlot hslot first hmem
  · intro hall
    exact (resolveMultiSlot_cross_iff env queue).mpr fun hfirst => hall (h hfirst)

/-- A transaction with an MSET of two keys. -/
def multiMSET : List Req :=
  [⟨0, { args := [bytes "MSET", bytes "a", bytes "1", bytes "b", bytes "2"], cmd := bytes "MSET" }⟩]

/-- The two keys are in different slots, and the transaction is sent to the node of the first
one. -/
theorem multiMSET_resolved :
    (allKeys multiMSET).map hashSlot = [15431, 3108] ∧
      multiSlot multiMSET none = some (some 15431) ∧
      resolveMultiSlot (.oneNode (bytes "h:1")) multiMSET = .ok (bytes "h:1") := by
  decide +kernel

end Pluster.Engine
