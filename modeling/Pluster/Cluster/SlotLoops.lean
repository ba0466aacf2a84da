import Pluster.Cluster.Topology
import Pluster.Lib.GoRuntime

/-!
# The loops over slot ranges

The counter of the loop over the slots of a range is a 64-bit integer and the bound is read from
the text. A range that ends at the largest integer never does: the counter wraps around below it.
-/

namespace Pluster.Cluster

open GoStrings GoRuntime

variable {s start : ℤ} {field : Bytes}

/-- The loop over the slots of a range, with its counter; `fuel` bounds its turns. -/
def rangeLoop (addr : Bytes) (stop : ℤ) : ℕ → ℤ → (ℕ → Option Bytes) → Option (ℕ → Option Bytes)
  | 0, _, _ => none
  | fuel + 1, s, slots =>
    if s ≤ stop then
      rangeLoop addr stop fuel (wrap64 (s + 1)) <|
        if 0 ≤ s ∧ s < clusterSlots then Function.update slots s.toNat (some addr) else slots
    else some slots

/-- The ends of a range, if the field is one and `Atoi` accepts them. -/
def slotRange (slotField : Bytes) : Option (ℤ × ℤ) :=
  if hasPrefix slotField (bytes "[") then none
  else
    match indexByte slotField 45 with
    | some idx =>
      match atoi (slotField.take idx), atoi (slotField.drop (idx + 1)) with
      | some start, some stop => some (start, stop)
      | _, _ => none
    | none => none

/-- `parseSlotField` with its loop. -/
def parseSlotFieldLoop (fuel : ℕ) (addr : Bytes) (acc : List (ℤ × ℤ) × (ℕ → Option Bytes))
    (slotField : Bytes) : Option (List (ℤ × ℤ) × (ℕ → Option Bytes)) :=
  match slotRange slotField with
  | some (start, stop) =>
    (rangeLoop addr stop fuel start acc.2).map fun slots => (acc.1 ++ [(start, stop)], slots)
  | none => some (parseSlotField addr acc slotField)

/-- `parseFields` with its loops. -/
def parseFieldsLoop (fuel : ℕ) (p : Parse) (nodeID addrField flagsField masterID : Bytes)
    (slotFields : List Bytes) : Option Parse :=
  let addr := (splitN addrField 64 2).headD []
  let flags := split flagsField 44
  if addr = [] ∨ addr = bytes ":0" ∨ skipsFlags flags then some p
  else
    let found := (getNode p.nodes addr).getD { id := nodeID, addr }
    let n := parseRole flags masterID (if found.id = [] then { found with id := nodeID } else found)
    if bytes "master" ∈ flags then
      (slotFields.foldlM (parseSlotFieldLoop fuel addr) (n.slots, p.slots)).map fun acc =>
        { nodes := putNode p.nodes { n with slots := acc.1 }, slots := acc.2 }
    else some { p with nodes := putNode p.nodes n }

/-- `parseLine` with its loops. -/
def parseLineLoop (fuel : ℕ) (p : Parse) (line : Bytes) : Option Parse :=
  let line := trimSpace line
  if line = [] then some p
  else
    match fields line with
    | nodeID :: addrField :: flagsField :: masterID :: _ :: _ :: _ :: _ :: slotFields =>
      parseFieldsLoop fuel p nodeID addrField flagsField masterID slotFields
    | _ => some p

/-- `parseClusterNodes` with its loops; it returns nothing if one of them takes more turns than
the fuel. -/
def parseClusterNodesLoop (fuel : ℕ) (order : MapOrder) (raw : Bytes) : Option Parse :=
  ((split (trimSpace raw) 10).foldlM (parseLineLoop fuel) {}).map fun p =>
    { p with nodes := linkReplicas order p.nodes }

/-! ### One loop -/

variable {addr : Bytes} {stop : ℤ}

/-- The counter never passes the largest integer. -/
theorem rangeLoop_max (fuel : ℕ) (hs : s < 2 ^ 63) (slots : ℕ → Option Bytes) :
    rangeLoop addr (2 ^ 63 - 1) fuel s slots = none := by
  induction fuel generalizing s slots with
  | zero => rfl
  | succ fuel ih =>
    rw [rangeLoop, if_pos (by omega)]
    exact ih (wrap64_bounds _).2 _

theorem fillSlots_of_lt (h : stop < s) (slots : ℕ → Option Bytes) :
    fillSlots slots s stop addr = slots := by
  funext k
  exact if_neg (by omega)

theorem fillSlots_succ (h : s ≤ stop) (slots : ℕ → Option Bytes) :
    fillSlots (if 0 ≤ s ∧ s < clusterSlots then Function.update slots s.toNat (some addr)
      else slots) (s + 1) stop addr = fillSlots slots s stop addr := by
  funext k
  unfold fillSlots
  by_cases hk : (k : ℤ) = s
  · -- The slot of this turn.
    have hslot : k = s.toNat := by omega
    by_cases hrange : k < clusterSlots
    · rw [if_neg (by omega), if_pos (by omega), if_pos (by omega), hslot, Function.update_self]
    · rw [if_neg (by omega), if_neg (by omega), if_neg (by omega)]
  have hsame : (if 0 ≤ s ∧ s < clusterSlots then Function.update slots s.toNat (some addr)
      else slots) k = slots k := by
    split
    · exact Function.update_of_ne (by omega) _ _
    · rfl
  rw [hsame]
  exact if_congr (by omega) rfl rfl

/-- The loop ends after the turns of the range, with the slots of the range. -/
theorem rangeLoop_eq {fuel : ℕ} (hs : -2 ^ 63 ≤ s) (hstop : stop < 2 ^ 63 - 1)
    (hfuel : (stop + 1 - s).toNat < fuel) (slots : ℕ → Option Bytes) :
    rangeLoop addr stop fuel s slots = some (fillSlots slots s stop addr) := by
  induction fuel generalizing s slots with
  | zero => cases hfuel
  | succ fuel ih =>
    rw [rangeLoop]
    split
    · rw [wrap64_eq_self (by omega) (by omega), ih (by omega) (by omega) _, fillSlots_succ ‹_›]
    · rw [fillSlots_of_lt (by omega)]

/-- The loop of a range ends if and only if the range does not end at the largest integer. -/
theorem rangeLoop_ends_iff (hstart : -2 ^ 63 ≤ start ∧ start < 2 ^ 63) (hstop : stop < 2 ^ 63)
    (slots : ℕ → Option Bytes) :
    (∃ fuel, (rangeLoop addr stop fuel start slots).isSome) ↔ stop ≠ 2 ^ 63 - 1 := by
  constructor
  · rintro ⟨fuel, hsome⟩ rfl
    rw [rangeLoop_max fuel hstart.2] at hsome
    cases hsome
  · intro hne
    refine ⟨2 ^ 64 + 1, ?_⟩
    rw [rangeLoop_eq hstart.1 (by omega) (by omega) slots]
    rfl

/-! ### The text -/

theorem foldlM_eq_some {α β : Type} {f : β → α → Option β} {g : β → α → β} {l : List α}
    (h : ∀ x ∈ l, ∀ acc, f acc x = some (g acc x)) (acc : β) :
    l.foldlM f acc = some (l.foldl g acc) := by
  induction l generalizing acc with
  | nil => rfl
  | cons x l ih =>
    obtain ⟨hx, hl⟩ := List.forall_mem_cons.mp h
    rw [List.foldlM_cons, hx, List.foldl_cons]
    exact ih hl _

theorem slotRange_eq_some {stop : ℤ} (h : slotRange field = some (start, stop)) :
    hasPrefix field (bytes "[") = false ∧ ∃ idx, indexByte field 45 = some idx ∧
      atoi (field.take idx) = some start ∧ atoi (field.drop (idx + 1)) = some stop := by
  unfold slotRange at h
  split at h
  · cases h
  rename_i hbracket
  split at h
  · rename_i idx hidx
    split at h
    · rename_i hstart hstop
      cases h
      exact ⟨by simpa using hbracket, idx, hidx, hstart, hstop⟩
    · cases h
  · cases h

theorem slotRange_bounds {stop : ℤ} (h : slotRange field = some (start, stop)) :
    -2 ^ 63 ≤ start ∧ start < 2 ^ 63 ∧ stop < 2 ^ 63 := by
  obtain ⟨_, idx, _, hstart, hstop⟩ := slotRange_eq_some h
  exact ⟨(atoi_bounds hstart).1, (atoi_bounds hstart).2, (atoi_bounds hstop).2⟩

theorem parseSlotField_of_range {stop : ℤ} (h : slotRange field = some (start, stop))
    (acc : List (ℤ × ℤ) × (ℕ → Option Bytes)) :
    parseSlotField addr acc field =
      (acc.1 ++ [(start, stop)], fillSlots acc.2 start stop addr) := by
  obtain ⟨hbracket, idx, hidx, hstart, hstop⟩ := slotRange_eq_some h
  simp only [parseSlotField, hbracket, Bool.false_eq_true, if_false, hidx, hstart, hstop]

/-- No range in the fields of a line ends at the largest integer. -/
def RangesEnd (raw : Bytes) : Prop :=
  ∀ line ∈ split (trimSpace raw) 10, ∀ field ∈ fields (trimSpace line), ∀ range ∈ slotRange field,
    range.2 ≠ 2 ^ 63 - 1

theorem parseSlotFieldLoop_eq (hends : ∀ range ∈ slotRange field, range.2 ≠ 2 ^ 63 - 1)
    (acc : List (ℤ × ℤ) × (ℕ → Option Bytes)) :
    parseSlotFieldLoop (2 ^ 64 + 1) addr acc field = some (parseSlotField addr acc field) := by
  unfold parseSlotFieldLoop
  split
  · rename_i start stop hrange
    obtain ⟨hlow, hhigh, hstop⟩ := slotRange_bounds hrange
    have hne : stop ≠ 2 ^ 63 - 1 := hends _ hrange
    rw [rangeLoop_eq hlow (by omega) (by omega), parseSlotField_of_range hrange]
    rfl
  · rfl

theorem parseFieldsLoop_eq {slotFields : List Bytes} (hends : ∀ field ∈ slotFields,
    ∀ range ∈ slotRange field, range.2 ≠ 2 ^ 63 - 1) (p : Parse)
    (nodeID addrField flagsField masterID : Bytes) :
    parseFieldsLoop (2 ^ 64 + 1) p nodeID addrField flagsField masterID slotFields =
      some (parseFields p nodeID addrField flagsField masterID slotFields) := by
  unfold parseFieldsLoop parseFields
  dsimp only
  rw [foldlM_eq_some fun field hfield => parseSlotFieldLoop_eq (hends field hfield), Option.map_some]
  split
  · rfl
  · split <;> rfl

theorem parseLineLoop_eq {line : Bytes} (hends : ∀ field ∈ fields (trimSpace line),
    ∀ range ∈ slotRange field, range.2 ≠ 2 ^ 63 - 1) (p : Parse) :
    parseLineLoop (2 ^ 64 + 1) p line = some (parseLine p line) := by
  unfold parseLineLoop parseLine
  dsimp only
  generalize fields (trimSpace line) = words at hends ⊢
  split
  · rfl
  split
  · exact parseFieldsLoop_eq (fun field hfield => hends field (by simp [hfield])) _ _ _ _ _
  · grind

/-- A master with all slots up to the largest integer. -/
def endlessRange : Bytes := bytes "a h:1 master - 0 0 0 c 0-9223372036854775807"

end Pluster.Cluster
