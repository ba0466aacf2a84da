import Pluster.Engine.RespQueue
import Pluster.Lib.Runs

/-!
# Compaction of the response queue

`fillResponseSlotInLoop`, `accumulateResponseSlot` and `accumulateFanInSubResponse` end
with a compaction step. If the capacity is above 256 and less than a quarter of it is
used, the slots are copied to a slice of capacity 64, which panics for more than 64
slots. Whether this can happen depends on the capacity that `append` leaves unused:
slicing off slots at the front takes the same number from the length and the capacity.
-/

namespace Pluster.Engine

/-- An operation on the response queue of a client. -/
inductive SlotOp
  | alloc
  | allocFanIn (fi : FanInState)
  | fill (absIdx : ℤ) (data : Bytes)
  | response (absIdx : ℤ) (data : Bytes)
  | part (absIdx : ℤ) (subIdx : ℕ) (data : Bytes)

variable {op : SlotOp}

namespace RespQueue

/-- The queue after an operation. -/
def apply (q : RespQueue) : SlotOp → RespQueue
  | .alloc => q.allocResponseSlot.1
  | .allocFanIn fi => q.allocResponseSlot.1.attachFanIn q.allocResponseSlot.2 fi
  | .fill absIdx data => (q.fillResponseSlotInLoop absIdx data).1
  | .response absIdx data => (q.accumulateResponseSlot absIdx data).1
  | .part absIdx subIdx data => (q.accumulateFanInSubResponse absIdx subIdx data).1

/-- Execute one operation. A panic ends the process. -/
def exec (q : RespQueue) (op : SlotOp) : RespQueue := if q.panicked then q else q.apply op

/-- The accumulate functions before their compaction step: the slot is stored, and what is
ready at the front leaves the queue if the slot was the first one that was not. -/
def store (q : RespQueue) (rel : ℕ) (data : Bytes) : RespQueue :=
  if rel = readyHead q.slots then (q.setReady rel data).drain.1 else q.setReady rel data

/-- The queue that an operation hands to its compaction step, if it gets there. -/
def compacts (q : RespQueue) : SlotOp → Option RespQueue
  | .alloc | .allocFanIn _ => none
  | .fill absIdx data => do
    let rel ← q.relIdx absIdx
    if readyHead (q.setReady rel data).slots = 0 then none else some (q.setReady rel data).drain.1
  | .response absIdx data => do
    let rel ← q.relIdx absIdx
    if (q.slots[rel]?.bind ResponseSlot.fanIn).isSome then none else some (q.store rel data)
  | .part absIdx subIdx data => do
    let rel ← q.relIdx absIdx
    let fi ← q.slots[rel]?.bind ResponseSlot.fanIn
    if fi.subData.length ≤ subIdx ∨ (fi.record subIdx data).received < fi.total then none
    else
      let cleared := { q with slots := q.slots.modify rel fun slot => { slot with fanIn := none } }
      some (cleared.store rel (fi.mergeFunc (fi.record subIdx data).subData))

/-- At most 198 slots of the capacity are unused. -/
def Tight (q : RespQueue) : Prop := q.cap ≤ q.slots.length + 198

/-- An allocation leaves at most 198 slots of the capacity unused. -/
def GrowsLittle (q : RespQueue) : SlotOp → Prop
  | .alloc | .allocFanIn _ => q.allocResponseSlot.1.Tight
  | _ => True

instance (q : RespQueue) : Decidable q.Tight := inferInstanceAs (Decidable (_ ≤ _))

instance (q : RespQueue) : DecidablePred q.GrowsLittle := fun op => by
  cases op <;> unfold GrowsLittle <;> infer_instance

variable {q r : RespQueue}

theorem store_compact (q : RespQueue) (rel : ℕ) (data : Bytes) :
    (if rel = readyHead q.slots then
        ((q.setReady rel data).drain.1.compact, (q.setReady rel data).drain.2)
      else ((q.setReady rel data).compact, [])).1 = (q.store rel data).compact := by
  unfold store
  split <;> rfl

/-- What an operation does with the queue that it hands to the compaction step. -/
theorem apply_of_compacts (h : q.compacts op = some r) : q.apply op = r.compact := by
  cases op with
  | alloc | allocFanIn fi => cases h
  | fill absIdx data =>
    simp only [apply, fillResponseSlotInLoop]
    simp only [compacts] at h
    cases hrel : q.relIdx absIdx with
    | none => simp [hrel] at h
    | some rel =>
      simp only [hrel, Option.bind_eq_bind, Option.bind_some] at h ⊢
      split at h
      · cases h
      rename_i hhead
      cases h
      rw [if_neg hhead]
  | response absIdx data =>
    simp only [apply, accumulateResponseSlot]
    simp only [compacts] at h
    cases hrel : q.relIdx absIdx with
    | none => simp [hrel] at h
    | some rel =>
      simp only [hrel, Option.bind_eq_bind, Option.bind_some] at h ⊢
      split at h
      · cases h
      rename_i hplain
      cases h
      rw [if_neg hplain]
      exact store_compact q rel data
  | part absIdx subIdx data =>
    simp only [apply, accumulateFanInSubResponse]
    simp only [compacts] at h
    cases hrel : q.relIdx absIdx with
    | none => simp [hrel] at h
    | some rel =>
      cases hfan : q.slots[rel]?.bind ResponseSlot.fanIn with
      | none => simp [hrel, hfan] at h
      | some fi =>
        simp only [hrel, hfan, Option.bind_eq_bind, Option.bind_some] at h ⊢
        split at h
        · cases h
        rename_i hlast
        rw [not_or] at hlast
        cases h
        rw [if_neg hlast.1, FanInState.record_total, if_neg hlast.2]
        exact store_compact
          { q with slots := q.slots.modify rel fun slot => { slot with fanIn := none } } rel _

/-! ### The capacity that is not used -/

theorem Tight.compact (h : q.Tight) : q.compact.Tight := by
  unfold RespQueue.compact
  split
  · split
    · exact Nat.le_add_left_of_le (by decide : 64 ≤ 198)
    · exact h
  · exact h

theorem Tight.setReady (h : q.Tight) (rel : ℕ) (data : Bytes) : (q.setReady rel data).Tight := by
  unfold Tight
  rw [setReady_length]
  exact h

/-- Slots leave at the front together with their capacity. -/
theorem Tight.drain (h : q.Tight) : q.drain.1.Tight := by
  have hle := readyHead_le_length q.slots
  simp only [Tight, RespQueue.drain, List.length_drop] at h ⊢
  omega

theorem Tight.store (h : q.Tight) (rel : ℕ) (data : Bytes) : (q.store rel data).Tight := by
  unfold RespQueue.store
  split
  · exact (h.setReady rel data).drain
  · exact h.setReady rel data

theorem Tight.modify (h : q.Tight) (rel : ℕ) (f : ResponseSlot → ResponseSlot) :
    ({ q with slots := q.slots.modify rel f } : RespQueue).Tight := by
  simpa only [Tight, List.length_modify] using h

theorem Tight.compacts (h : q.Tight) (hr : q.compacts op = some r) : r.Tight := by
  cases op with
  | alloc | allocFanIn fi => cases hr
  | fill absIdx data =>
    simp only [RespQueue.compacts, Option.bind_eq_bind, Option.bind_eq_some_iff] at hr
    obtain ⟨rel, -, hr⟩ := hr
    split at hr
    · cases hr
    cases hr
    exact (h.setReady rel data).drain
  | response absIdx data =>
    simp only [RespQueue.compacts, Option.bind_eq_bind, Option.bind_eq_some_iff] at hr
    obtain ⟨rel, -, hr⟩ := hr
    split at hr
    · cases hr
    cases hr
    exact h.store rel data
  | part absIdx subIdx data =>
    simp only [RespQueue.compacts, Option.bind_eq_bind, Option.bind_eq_some_iff] at hr
    obtain ⟨rel, -, fi, -, hr⟩ := hr
    split at hr
    · cases hr
    cases hr
    exact (h.modify rel _).store rel _

/-- An operation that does not get to the compaction step leaves the length and the capacity,
or allocates. -/
theorem Tight.apply_of_none (h : q.Tight) (hgrows : q.GrowsLittle op)
    (hnone : q.compacts op = none) : (q.apply op).Tight := by
  cases op with
  | alloc => exact hgrows
  | allocFanIn fi => exact Tight.modify hgrows _ _
  | fill absIdx data =>
    simp only [apply, fillResponseSlotInLoop]
    simp only [RespQueue.compacts] at hnone
    cases hrel : q.relIdx absIdx with
    | none => exact h
    | some rel =>
      simp only [hrel, Option.bind_eq_bind, Option.bind_some] at hnone ⊢
      split at hnone
      · rename_i hhead
        rw [if_pos hhead]
        exact h.setReady rel data
      · cases hnone
  | response absIdx data =>
    simp only [apply, accumulateResponseSlot]
    simp only [RespQueue.compacts] at hnone
    cases hrel : q.relIdx absIdx with
    | none => exact h
    | some rel =>
      simp only [hrel, Option.bind_eq_bind, Option.bind_some] at hnone ⊢
      split at hnone
      · rename_i hfan
        rw [if_pos hfan]
        exact h
      · cases hnone
  | part absIdx subIdx data =>
    simp only [apply, accumulateFanInSubResponse]
    simp only [RespQueue.compacts] at hnone
    cases hrel : q.relIdx absIdx with
    | none => exact h
    | some rel =>
      cases hfan : q.slots[rel]?.bind ResponseSlot.fanIn with
      | none => simpa only [hfan] using h
      | some fi =>
        simp only [hrel, hfan, Option.bind_eq_bind, Option.bind_some] at hnone ⊢
        split at hnone
        · rename_i hmore
          split
          · exact h
          rename_i hin
          rw [FanInState.record_total, if_pos (hmore.resolve_left hin)]
          exact h.modify rel _
        · cases hnone

theorem Tight.exec (h : q.Tight) (hgrows : q.GrowsLittle op) : (q.exec op).Tight := by
  unfold RespQueue.exec
  split
  · exact h
  cases hr : q.compacts op with
  | none => exact h.apply_of_none hgrows hr
  | some r =>
    rw [apply_of_compacts hr]
    exact (h.compacts hr).compact

/-- With little unused capacity, few slots are left when less than a quarter is used. -/
theorem Tight.length_le (h : q.Tight) (hquarter : q.slots.length < q.cap / 4) :
    q.slots.length ≤ 64 := by
  unfold Tight at h
  omega

/-- The fills of slots with consecutive indices. -/
def fillsFrom (start count : ℕ) : List SlotOp :=
  (List.range' start count).map fun k => .fill k []

end RespQueue

end Pluster.Engine
