import Pluster.Lib.ReorderBuffer
import Pluster.Proto.Bytes

/-!
# The response queue of a client

`allocResponseSlot`, `fillResponseSlotInLoop`, `accumulateResponseSlot` and
`accumulateFanInSubResponse` of `pkg/engine/handler.go`. Each completion function
returns the queue and the chunks it hands on in order: `fillResponseSlotInLoop`
writes them to the client, the accumulate functions append them to the write
vector of the client, which `flushWriteAccum` writes later.

The capacity of the Go slice is part of the model, because the compaction step
panics when more than 64 slots are left. The three functions are shown to refine
completion in a reorder buffer.
-/

namespace Pluster.Engine

open ReorderBuffer

variable {absIdx : ℤ} {rel subIdx k : ℕ} {data : Bytes}

/-- `subResponse`. -/
structure SubResponse where
  subIdx : ℕ
  data : Bytes
  deriving DecidableEq

/-- `fanInState`: a reply merged from the replies to several sub-commands. -/
structure FanInState where
  total : ℕ
  received : ℕ
  subData : List SubResponse
  mergeFunc : List SubResponse → Bytes

/-- The fan-in state after one more part. -/
def FanInState.record (fi : FanInState) (subIdx : ℕ) (data : Bytes) : FanInState :=
  { fi with subData := fi.subData.set subIdx { subIdx, data }, received := fi.received + 1 }

@[simp] theorem FanInState.record_total (fi : FanInState) (subIdx : ℕ) (data : Bytes) :
    (fi.record subIdx data).total = fi.total := rfl

@[simp] theorem FanInState.record_received (fi : FanInState) (subIdx : ℕ) (data : Bytes) :
    (fi.record subIdx data).received = fi.received + 1 := rfl

@[simp] theorem FanInState.record_mergeFunc (fi : FanInState) (subIdx : ℕ) (data : Bytes) :
    (fi.record subIdx data).mergeFunc = fi.mergeFunc := rfl

/-- `responseSlot`. -/
structure ResponseSlot where
  ready : Bool := false
  data : Bytes := []
  fanIn : Option FanInState := none

variable {slots : List ResponseSlot} {fi : FanInState} {slot slot' : ResponseSlot}

/-- How Go's `append` chooses a new capacity from the old one and the length needed. -/
structure GrowthPolicy where
  newCap : ℕ → ℕ → ℕ
  le_newCap : ∀ old needed, needed ≤ newCap old needed

/-- The policy of doubling the capacity. -/
def GrowthPolicy.doubling : GrowthPolicy where
  newCap old needed := max (2 * old) needed
  le_newCap _ _ := le_max_right _ _

/-- The fields `respQueue` and `respBase` of `clientCtx`. -/
structure RespQueue where
  slots : List ResponseSlot
  base : ℕ
  cap : ℕ
  policy : GrowthPolicy
  /-- A `make` or an index of the queue code was out of range. -/
  panicked : Bool := false

namespace RespQueue

/-- The queue of a new client, `make([]responseSlot, 0, 16)`. -/
def new (policy : GrowthPolicy) : RespQueue := { slots := [], base := 0, cap := 16, policy }

/-- `allocResponseSlot`, with the absolute index it returns. -/
def allocResponseSlot (q : RespQueue) : RespQueue × ℕ :=
  let cap := if q.slots.length < q.cap then q.cap else q.policy.newCap q.cap (q.slots.length + 1)
  ({ q with slots := q.slots ++ [{}], cap }, q.base + q.slots.length)

/-- Put a fan-in state on a slot, as `routeMultiKeyToMux` does after `allocResponseSlot`. -/
def attachFanIn (q : RespQueue) (absIdx : ℕ) (fi : FanInState) : RespQueue :=
  { q with slots := q.slots.modify (absIdx - q.base) fun slot => { slot with fanIn := some fi } }

/-- The number of ready slots at the front. -/
def readyHead : List ResponseSlot → ℕ
  | [] => 0
  | slot :: rest => if slot.ready then readyHead rest + 1 else 0

/-- Slice the ready slots off the front and hand on their data. -/
def drain (q : RespQueue) : RespQueue × List Bytes :=
  let head := readyHead q.slots
  ({ q with slots := q.slots.drop head, base := q.base + head, cap := q.cap - head },
    (q.slots.take head).map ResponseSlot.data)

/-- The compaction step, which copies the slots to a slice of capacity 64. -/
def compact (q : RespQueue) : RespQueue :=
  if 256 < q.cap ∧ q.slots.length < q.cap / 4 then
    if q.slots.length ≤ 64 then { q with cap := 64 } else { q with panicked := true }
  else q

/-- Store the data of a slot and mark it ready. -/
def setReady (q : RespQueue) (relIdx : ℕ) (data : Bytes) : RespQueue :=
  { q with slots := q.slots.modify relIdx fun slot => { slot with ready := true, data } }

/-- The relative index of an absolute one, if the slot is in the queue. -/
def relIdx (q : RespQueue) (absIdx : ℤ) : Option ℕ :=
  if absIdx - q.base < 0 ∨ q.slots.length ≤ absIdx - q.base then none
  else some (absIdx - q.base).toNat

/-- `fillResponseSlotInLoop`. -/
def fillResponseSlotInLoop (q : RespQueue) (absIdx : ℤ) (data : Bytes) : RespQueue × List Bytes :=
  match q.relIdx absIdx with
  | none => (q, [])
  | some rel =>
    let q := q.setReady rel data
    if readyHead q.slots = 0 then (q, [])
    else
      let (q, chunks) := q.drain
      (q.compact, chunks)

/-- `accumulateResponseSlot`. -/
def accumulateResponseSlot (q : RespQueue) (absIdx : ℤ) (data : Bytes) : RespQueue × List Bytes :=
  match q.relIdx absIdx with
  | none => (q, [])
  | some rel =>
    if (q.slots[rel]?.bind ResponseSlot.fanIn).isSome then (q, [])
    else if rel = readyHead q.slots then
      let (q, chunks) := (q.setReady rel data).drain
      (q.compact, chunks)
    else ((q.setReady rel data).compact, [])

/-- `accumulateFanInSubResponse`. -/
def accumulateFanInSubResponse (q : RespQueue) (absIdx : ℤ) (subIdx : ℕ) (data : Bytes) :
    RespQueue × List Bytes :=
  match q.relIdx absIdx with
  | none => (q, [])
  | some rel =>
    match q.slots[rel]?.bind ResponseSlot.fanIn with
    | none => (q, [])
    | some fi =>
      if fi.subData.length ≤ subIdx then ({ q with panicked := true }, [])
      else
        let fi := fi.record subIdx data
        if fi.received < fi.total then
          ({ q with slots := q.slots.modify rel fun slot => { slot with fanIn := some fi } }, [])
        else
          let merged := fi.mergeFunc fi.subData
          let q := { q with slots := q.slots.modify rel fun slot => { slot with fanIn := none } }
          if rel = readyHead q.slots then
            let (q, chunks) := (q.setReady rel merged).drain
            (q.compact, chunks)
          else ((q.setReady rel merged).compact, [])

/-! ### The queue as a reorder buffer -/

/-- The value a slot is ready to hand on. -/
def value (slot : ResponseSlot) : Option Bytes := if slot.ready then some slot.data else none

/-- The queue together with the chunks handed on so far. -/
def toBuffer (q : RespQueue) (sent : List Bytes) : Buffer Bytes := ⟨sent, q.slots.map value⟩

/-- Completion at an absolute index as the source computes it, negative ones ignored. -/
def completeAt (b : Buffer Bytes) (absIdx : ℤ) (data : Bytes) : Buffer Bytes :=
  if absIdx < 0 then b else b.complete absIdx.toNat data

@[simp] theorem compact_slots (q : RespQueue) : q.compact.slots = q.slots := by
  unfold compact
  split
  · split <;> rfl
  · rfl

@[simp] theorem compact_base (q : RespQueue) : q.compact.base = q.base := by
  unfold compact
  split
  · split <;> rfl
  · rfl

@[simp] theorem setReady_base (q : RespQueue) (rel : ℕ) (data : Bytes) :
    (q.setReady rel data).base = q.base := rfl

@[simp] theorem setReady_length (q : RespQueue) (rel : ℕ) (data : Bytes) :
    (q.setReady rel data).slots.length = q.slots.length := by
  simp [setReady]

theorem relIdx_eq_some {q : RespQueue} (h : q.relIdx absIdx = some rel) :
    absIdx = q.base + rel ∧ rel < q.slots.length := by
  unfold relIdx at h
  split at h
  · cases h
  have := Option.some.inj h
  omega

theorem relIdx_eq_none {q : RespQueue} (h : q.relIdx absIdx = none) :
    absIdx < q.base ∨ (q.base + q.slots.length : ℕ) ≤ absIdx := by
  unfold relIdx at h
  split at h
  · omega
  · cases h

theorem map_value_setReady (q : RespQueue) (rel : ℕ) (data : Bytes) :
    (q.setReady rel data).slots.map value = (q.slots.map value).set rel (some data) := by
  simp only [setReady]
  induction q.slots generalizing rel with
  | nil => simp
  | cons slot rest ih =>
    cases rel with
    | zero => simp [value]
    | succ rel => simp [ih]

theorem map_value_modify_fanIn (slots : List ResponseSlot) (rel : ℕ) (fi : Option FanInState) :
    (slots.modify rel fun slot => { slot with fanIn := fi }).map value = slots.map value := by
  induction slots generalizing rel with
  | nil => simp
  | cons slot rest ih =>
    cases rel with
    | zero => simp [value]
    | succ rel => simp [ih]

private theorem release_map_value (slots : List ResponseSlot) :
    release (slots.map value) =
      ((slots.take (readyHead slots)).map ResponseSlot.data,
        (slots.drop (readyHead slots)).map value) := by
  induction slots with
  | nil => rfl
  | cons slot rest ih =>
    cases hready : slot.ready with
    | false => simp [value, readyHead, hready, release]
    | true => simp [value, readyHead, hready, release, ih]

theorem readyHead_le_length (slots : List ResponseSlot) : readyHead slots ≤ slots.length := by
  induction slots with
  | nil => rfl
  | cons slot rest ih =>
    simp only [readyHead, List.length_cons]
    split <;> omega

/-- Draining is release. -/
theorem drain_eq_release (q : RespQueue) :
    q.drain.2 = (release (q.slots.map value)).1 ∧
      q.drain.1.slots.map value = (release (q.slots.map value)).2 ∧
      q.drain.1.base = q.base + q.drain.2.length := by
  have hle := readyHead_le_length q.slots
  refine ⟨?_, ?_, ?_⟩
  · rw [release_map_value]; rfl
  · rw [release_map_value]; rfl
  simp only [drain, List.length_map, List.length_take]
  omega

private theorem readyHead_eq_zero_of_blocked (h : ∀ v, (slots.map value).head? ≠ some (some v)) :
    readyHead slots = 0 := by
  cases slots with
  | nil => rfl
  | cons slot rest =>
    cases hready : slot.ready with
    | false => simp [readyHead, hready]
    | true => exact absurd (by simp [value, hready]) (h slot.data)

private theorem release_of_readyHead_eq_zero (h : readyHead slots = 0) :
    release (slots.map value) = ([], slots.map value) := by
  rw [release_map_value, h]
  rfl

/-! ### The number of slots -/

/-- A completion function hands on one chunk for each slot that leaves the queue, and no
slot is made or lost. -/
structure Advances (q : RespQueue) (result : RespQueue × List Bytes) : Prop where
  base : result.1.base = q.base + result.2.length
  total : result.1.base + result.1.slots.length = q.base + q.slots.length

private theorem advances_modify (q : RespQueue) (rel : ℕ) (f : ResponseSlot → ResponseSlot) :
    Advances q ({ q with slots := q.slots.modify rel f }, []) :=
  ⟨rfl, by simp⟩

private theorem advances_compact (q : RespQueue) (rel : ℕ) (data : Bytes) :
    Advances q ((q.setReady rel data).compact, []) :=
  ⟨by simp, by simp⟩

private theorem advances_drain (q : RespQueue) (rel : ℕ) (data : Bytes) :
    Advances q ((q.setReady rel data).drain.1.compact, (q.setReady rel data).drain.2) := by
  have hbase := (drain_eq_release (q.setReady rel data)).2.2
  have hle := readyHead_le_length (q.setReady rel data).slots
  refine ⟨by simpa using hbase, ?_⟩
  simp only [compact_base, compact_slots, drain, List.length_drop, setReady_base,
    setReady_length] at hle ⊢
  omega

theorem fillResponseSlotInLoop_advances (q : RespQueue) (absIdx : ℤ) (data : Bytes) :
    Advances q (q.fillResponseSlotInLoop absIdx data) := by
  unfold fillResponseSlotInLoop
  split
  · exact ⟨rfl, rfl⟩
  simp only
  split
  · exact advances_modify q _ _
  · exact advances_drain q _ _

theorem accumulateResponseSlot_advances (q : RespQueue) (absIdx : ℤ) (data : Bytes) :
    Advances q (q.accumulateResponseSlot absIdx data) := by
  unfold accumulateResponseSlot
  split
  · exact ⟨rfl, rfl⟩
  split
  · exact ⟨rfl, rfl⟩
  split
  · exact advances_drain q _ _
  · exact advances_compact q _ _

theorem accumulateFanInSubResponse_advances (q : RespQueue) (absIdx : ℤ) (subIdx : ℕ)
    (data : Bytes) : Advances q (q.accumulateFanInSubResponse absIdx subIdx data) := by
  unfold accumulateFanInSubResponse
  split
  · exact ⟨rfl, rfl⟩
  rename_i rel _
  split
  · exact ⟨rfl, rfl⟩
  rename_i fi _
  split
  · exact ⟨rfl, rfl⟩
  simp only
  split
  · exact advances_modify q _ _
  have hcleared := advances_modify q rel fun slot => { slot with fanIn := none }
  split
  · have hdrain := advances_drain
      { q with slots := q.slots.modify rel fun slot => { slot with fanIn := none } } rel
      ((fi.record subIdx data).mergeFunc (fi.record subIdx data).subData)
    exact ⟨hdrain.base, hdrain.total.trans hcleared.total⟩
  · have hcompact := advances_compact
      { q with slots := q.slots.modify rel fun slot => { slot with fanIn := none } } rel
      ((fi.record subIdx data).mergeFunc (fi.record subIdx data).subData)
    exact ⟨hcompact.base, hcompact.total.trans hcleared.total⟩

variable {q : RespQueue} {sent : List Bytes}

/-- Setting a slot and draining is completion of that slot in the buffer. -/
theorem setReady_drain_toBuffer (hbase : sent.length = q.base) (hrel : rel < q.slots.length)
    (data : Bytes) :
    (q.setReady rel data).drain.1.toBuffer (sent ++ (q.setReady rel data).drain.2) =
      (q.toBuffer sent).complete (q.base + rel) data := by
  obtain ⟨hchunks, hslots, -⟩ := drain_eq_release (q.setReady rel data)
  rw [map_value_setReady] at hchunks hslots
  have hin : ¬ (q.base + rel < sent.length ∨ sent.length + (q.slots.map value).length ≤
      q.base + rel) := by
    rw [List.length_map]
    omega
  have hsub : q.base + rel - sent.length = rel := by omega
  simp only [toBuffer, Buffer.complete, if_neg hin, hsub, hslots, hchunks]

/-- Setting a slot behind a blocked front completes it without a release. -/
theorem setReady_toBuffer_of_blocked (hbase : sent.length = q.base)
    (hblocked : (q.toBuffer sent).Blocked) (hrel : rel < q.slots.length) (hne : rel ≠ 0)
    (data : Bytes) :
    (q.setReady rel data).toBuffer sent = (q.toBuffer sent).complete (q.base + rel) data := by
  have hin : ¬ (q.base + rel < sent.length ∨ sent.length + (q.slots.map value).length ≤
      q.base + rel) := by
    rw [List.length_map]
    omega
  have hsub : q.base + rel - sent.length = rel := by omega
  have hstill : ∀ v, ((q.slots.map value).set rel (some data)).head? ≠ some (some v) := by
    intro v
    rw [List.head?_eq_getElem?, List.getElem?_set_ne hne, ← List.head?_eq_getElem?]
    exact hblocked v
  simp only [toBuffer, Buffer.complete, if_neg hin, hsub, map_value_setReady,
    release_of_blocked hstill, List.append_nil]

private theorem toBuffer_complete_of_relIdx_none (hbase : sent.length = q.base)
    (h : q.relIdx absIdx = none) (data : Bytes) :
    completeAt (q.toBuffer sent) absIdx data = q.toBuffer sent := by
  have hout := relIdx_eq_none h
  unfold completeAt
  split
  · rfl
  rw [Buffer.complete, if_pos]
  simp only [toBuffer, List.length_map]
  omega

private theorem completeAt_of_relIdx (h : q.relIdx absIdx = some rel) (b : Buffer Bytes)
    (data : Bytes) : completeAt b absIdx data = b.complete (q.base + rel) data := by
  obtain ⟨habs, -⟩ := relIdx_eq_some h
  have hnat : absIdx.toNat = q.base + rel := by omega
  rw [completeAt, if_neg (by omega), hnat]

/-- A completion function keeps `respBase` equal to the number of chunks handed on. -/
def Refines (q : RespQueue) (sent : List Bytes) (result : RespQueue × List Bytes)
    (b : Buffer Bytes) : Prop :=
  result.1.toBuffer (sent ++ result.2) = b ∧ (sent ++ result.2).length = result.1.base ∧
    q.base ≤ result.1.base

private theorem refines_same (hbase : sent.length = q.base) :
    Refines q sent (q, []) (q.toBuffer sent) := by
  simp [Refines, hbase]

private theorem refines_drain (hbase : sent.length = q.base) (hrel : rel < q.slots.length)
    (data : Bytes) :
    Refines q sent ((q.setReady rel data).drain.1.compact, (q.setReady rel data).drain.2)
      ((q.toBuffer sent).complete (q.base + rel) data) := by
  have hdrained := (drain_eq_release (q.setReady rel data)).2.2
  refine ⟨?_, ?_, ?_⟩
  · rw [← setReady_drain_toBuffer hbase hrel data]
    simp [toBuffer]
  · simp only [List.length_append, compact_base, hdrained, setReady_base, hbase]
  simp only [compact_base, hdrained, setReady_base]
  omega

private theorem refines_behind (hbase : sent.length = q.base)
    (hblocked : (q.toBuffer sent).Blocked) (hrel : rel < q.slots.length) (hne : rel ≠ 0)
    (data : Bytes) :
    Refines q sent ((q.setReady rel data).compact, [])
      ((q.toBuffer sent).complete (q.base + rel) data) := by
  refine ⟨?_, ?_, ?_⟩
  · rw [← setReady_toBuffer_of_blocked hbase hblocked hrel hne data]
    simp [toBuffer]
  · simp [hbase]
  · simp

/-- `fillResponseSlotInLoop` completes a position of the buffer. -/
theorem fillResponseSlotInLoop_refines (hbase : sent.length = q.base) (absIdx : ℤ)
    (data : Bytes) :
    Refines q sent (q.fillResponseSlotInLoop absIdx data)
      (completeAt (q.toBuffer sent) absIdx data) := by
  unfold fillResponseSlotInLoop
  cases h : q.relIdx absIdx with
  | none =>
    rw [toBuffer_complete_of_relIdx_none hbase h]
    exact refines_same hbase
  | some rel =>
    have hrel := (relIdx_eq_some h).2
    rw [completeAt_of_relIdx h]
    simp only
    split
    · rename_i hzero
      have hrelease := release_of_readyHead_eq_zero hzero
      have hdrained := setReady_drain_toBuffer hbase hrel data
      obtain ⟨hchunks, hslots, -⟩ := drain_eq_release (q.setReady rel data)
      rw [hrelease] at hchunks hslots
      refine ⟨?_, by simp [hbase], le_rfl⟩
      rw [← hdrained]
      simp only [toBuffer, hchunks, hslots]
    · exact refines_drain hbase hrel data

/-- `accumulateResponseSlot` completes a slot without a fan-in. -/
theorem accumulateResponseSlot_of_plain (hbase : sent.length = q.base)
    (hblocked : (q.toBuffer sent).Blocked) (hrel : q.relIdx absIdx = some rel)
    (hfan : q.slots[rel]?.bind ResponseSlot.fanIn = none) (data : Bytes) :
    Refines q sent (q.accumulateResponseSlot absIdx data)
      (completeAt (q.toBuffer sent) absIdx data) := by
  have hlt := (relIdx_eq_some hrel).2
  have hhead := readyHead_eq_zero_of_blocked hblocked
  rw [completeAt_of_relIdx hrel]
  simp only [accumulateResponseSlot, hrel, hfan, hhead, Option.isSome_none, Bool.false_eq_true,
    if_false]
  split
  · exact refines_drain hbase hlt data
  rename_i hne
  exact refines_behind hbase hblocked hlt hne data

/-- `accumulateResponseSlot` leaves the queue alone or completes a position. -/
theorem accumulateResponseSlot_refines (hbase : sent.length = q.base)
    (hblocked : (q.toBuffer sent).Blocked) (absIdx : ℤ) (data : Bytes) :
    Refines q sent (q.accumulateResponseSlot absIdx data) (q.toBuffer sent) ∨
      Refines q sent (q.accumulateResponseSlot absIdx data)
        (completeAt (q.toBuffer sent) absIdx data) := by
  cases h : q.relIdx absIdx with
  | none =>
    left
    simpa only [accumulateResponseSlot, h] using refines_same hbase
  | some rel =>
    cases hfan : q.slots[rel]?.bind ResponseSlot.fanIn with
    | none => exact Or.inr (accumulateResponseSlot_of_plain hbase hblocked h hfan data)
    | some fi =>
      left
      simp only [accumulateResponseSlot, h, hfan, Option.isSome_some, if_true]
      exact refines_same hbase

/-- A part that is not the last one is recorded in the fan-in state of its slot. -/
theorem accumulateFanInSubResponse_of_more (hrel : q.relIdx absIdx = some rel)
    (hfan : q.slots[rel]?.bind ResponseSlot.fanIn = some fi) (hsub : subIdx < fi.subData.length)
    (hmore : fi.received + 1 < fi.total) (data : Bytes) :
    q.accumulateFanInSubResponse absIdx subIdx data =
      ({ q with slots := q.slots.modify rel fun slot =>
          { slot with fanIn := some (fi.record subIdx data) } }, []) := by
  have hin : ¬ fi.subData.length ≤ subIdx := by omega
  have hwait : (fi.record subIdx data).received < (fi.record subIdx data).total := hmore
  simp only [accumulateFanInSubResponse, hrel, hfan, if_neg hin, if_pos hwait]

/-- The last part completes the slot with the merged reply. -/
theorem accumulateFanInSubResponse_of_last (hbase : sent.length = q.base)
    (hblocked : (q.toBuffer sent).Blocked) (hrel : q.relIdx absIdx = some rel)
    (hfan : q.slots[rel]?.bind ResponseSlot.fanIn = some fi) (hsub : subIdx < fi.subData.length)
    (hlast : fi.total ≤ fi.received + 1) (data : Bytes) :
    Refines q sent (q.accumulateFanInSubResponse absIdx subIdx data)
      (completeAt (q.toBuffer sent) absIdx (fi.mergeFunc (fi.record subIdx data).subData)) := by
  have hin : ¬ fi.subData.length ≤ subIdx := by omega
  have hdone : ¬ (fi.record subIdx data).received < (fi.record subIdx data).total := by
    rw [FanInState.record_received, FanInState.record_total]
    omega
  let q' := { q with slots := q.slots.modify rel fun slot => { slot with fanIn := none } }
  have hvalues : q'.toBuffer sent = q.toBuffer sent := by
    simp only [q', toBuffer, map_value_modify_fanIn]
  have hrel' : rel < q'.slots.length := by simpa [q'] using (relIdx_eq_some hrel).2
  have hblocked' : (q'.toBuffer sent).Blocked := by rw [hvalues]; exact hblocked
  have hhead : readyHead q'.slots = 0 := readyHead_eq_zero_of_blocked hblocked'
  rw [completeAt_of_relIdx hrel, ← hvalues]
  simp only [accumulateFanInSubResponse, hrel, hfan, if_neg hin, if_neg hdone,
    FanInState.record_mergeFunc]
  rw [hhead]
  split
  · exact refines_drain (q := q') hbase hrel' _
  rename_i hne
  exact refines_behind (q := q') hbase hblocked' hrel' hne _

/-- What `accumulateFanInSubResponse` does to a fan-in that is still in the queue:
it records the part, and the last part completes the slot with the merged reply. -/
theorem accumulateFanInSubResponse_refines (hbase : sent.length = q.base)
    (hblocked : (q.toBuffer sent).Blocked) (absIdx : ℤ) (subIdx : ℕ) (data : Bytes) :
    Refines q sent (q.accumulateFanInSubResponse absIdx subIdx data) (q.toBuffer sent) ∨
      ∃ rel fi, q.relIdx absIdx = some rel ∧
        q.slots[rel]?.bind ResponseSlot.fanIn = some fi ∧ subIdx < fi.subData.length ∧
        fi.total ≤ fi.received + 1 ∧
        Refines q sent (q.accumulateFanInSubResponse absIdx subIdx data)
          (completeAt (q.toBuffer sent) absIdx
            (fi.mergeFunc (fi.record subIdx data).subData)) := by
  cases h : q.relIdx absIdx with
  | none =>
    left
    simpa only [accumulateFanInSubResponse, h] using refines_same hbase
  | some rel =>
    cases hfan : q.slots[rel]?.bind ResponseSlot.fanIn with
    | none =>
      left
      simpa only [accumulateFanInSubResponse, h, hfan] using refines_same hbase
    | some fi =>
      by_cases hsub : subIdx < fi.subData.length
      · by_cases hmore : fi.received + 1 < fi.total
        · left
          rw [accumulateFanInSubResponse_of_more h hfan hsub hmore]
          refine ⟨?_, by simp [hbase], le_rfl⟩
          simp only [toBuffer, List.append_nil, map_value_modify_fanIn]
        · exact Or.inr ⟨rel, fi, rfl, hfan, hsub, by omega,
            accumulateFanInSubResponse_of_last hbase hblocked h hfan hsub (by omega) data⟩
      · left
        have hout : fi.subData.length ≤ subIdx := by omega
        simp only [accumulateFanInSubResponse, h, hfan, if_pos hout]
        simp [Refines, toBuffer, hbase]

/-! ### Slots by absolute index -/

/-- The slot at an absolute index, if it is still in the queue. -/
def slotAt (q : RespQueue) (k : ℕ) : Option ResponseSlot :=
  if k < q.base then none else q.slots[k - q.base]?

@[simp] theorem slotAt_compact (q : RespQueue) (k : ℕ) : q.compact.slotAt k = q.slotAt k := by
  simp [slotAt]

theorem slotAt_bounds (h : q.slotAt k = some slot) : q.base ≤ k ∧ k < q.base + q.slots.length := by
  rw [slotAt] at h
  split at h
  · cases h
  have hlt := (List.getElem?_eq_some_iff.mp h).1
  omega

theorem slotAt_of_drain (h : q.drain.1.slotAt k = some slot) : q.slotAt k = some slot := by
  simp only [slotAt, drain, List.getElem?_drop] at h
  split at h
  · cases h
  have hindex : readyHead q.slots + (k - (q.base + readyHead q.slots)) = k - q.base := by omega
  rw [hindex] at h
  rw [slotAt, if_neg (by omega), h]

theorem slotAt_modify (rel : ℕ) (f : ResponseSlot → ResponseSlot) (k : ℕ) :
    ({ q with slots := q.slots.modify rel f } : RespQueue).slotAt k =
      if k = q.base + rel then (q.slotAt k).map f else q.slotAt k := by
  simp only [slotAt]
  by_cases hk : k < q.base
  · have hne : k ≠ q.base + rel := by omega
    simp [hk, hne]
  rw [if_neg hk, if_neg hk, List.getElem?_modify]
  by_cases heq : k = q.base + rel
  · have hrel : rel = k - q.base := by omega
    simp only [if_pos heq, if_pos hrel]
    rfl
  have hrel : ¬ rel = k - q.base := by omega
  simp [if_neg heq, if_neg hrel]

theorem slotAt_setReady (rel : ℕ) (data : Bytes) (k : ℕ) :
    (q.setReady rel data).slotAt k =
      if k = q.base + rel then (q.slotAt k).map fun slot => { slot with ready := true, data }
      else q.slotAt k :=
  slotAt_modify rel _ k

/-- How a slot left in the queue relates to the slot before a completion at `absIdx`. -/
def Completed (q q' : RespQueue) (absIdx : ℤ) : Prop :=
  ∀ k slot', q'.slotAt k = some slot' → ∃ slot, q.slotAt k = some slot ∧
    slot'.fanIn = slot.fanIn ∧ ((k : ℤ) ≠ absIdx → slot' = slot) ∧
    ((k : ℤ) = absIdx → slot'.ready = true)

private theorem completed_of_setReady (hrel : q.relIdx absIdx = some rel) {q' : RespQueue}
    (h : ∀ k slot', q'.slotAt k = some slot' → (q.setReady rel data).slotAt k = some slot') :
    Completed q q' absIdx := by
  intro k slot' hk
  have hset := h k slot' hk
  have habs := (relIdx_eq_some hrel).1
  rw [slotAt_setReady] at hset
  split at hset
  · rename_i hkrel
    obtain ⟨slot, hslot, rfl⟩ := Option.map_eq_some_iff.mp hset
    exact ⟨slot, hslot, rfl, fun hne => absurd (by omega) hne, fun _ => rfl⟩
  rename_i hkrel
  exact ⟨slot', hset, rfl, fun _ => rfl, fun heq => absurd (by omega) hkrel⟩

theorem fillResponseSlotInLoop_completed (absIdx : ℤ) (data : Bytes) :
    Completed q (q.fillResponseSlotInLoop absIdx data).1 absIdx := by
  unfold fillResponseSlotInLoop
  cases h : q.relIdx absIdx with
  | none =>
    intro k slot hk
    refine ⟨slot, hk, rfl, fun _ => rfl, fun heq => ?_⟩
    have hout := relIdx_eq_none h
    have hin := slotAt_bounds hk
    simp only at hin
    omega
  | some rel =>
    simp only
    split
    · exact completed_of_setReady h (fun _ _ hk => hk)
    · exact completed_of_setReady h (fun k slot hk => slotAt_of_drain (by simpa using hk))

/-- `accumulateResponseSlot` leaves the queue alone or completes the slot. -/
theorem accumulateResponseSlot_completed (absIdx : ℤ) (data : Bytes) :
    (q.accumulateResponseSlot absIdx data).1 = q ∨
      Completed q (q.accumulateResponseSlot absIdx data).1 absIdx := by
  unfold accumulateResponseSlot
  cases h : q.relIdx absIdx with
  | none => exact Or.inl rfl
  | some rel =>
    simp only
    split
    · exact Or.inl rfl
    right
    split
    · exact completed_of_setReady h (fun k slot hk => slotAt_of_drain (by simpa using hk))
    · exact completed_of_setReady h (fun k slot hk => by simpa using hk)

/-- What is left in the queue after a part arrived at `absIdx`: other slots are
as before, and the slot itself keeps waiting for its other parts or is ready. -/
theorem accumulateFanInSubResponse_slotAt
    (h : (q.accumulateFanInSubResponse absIdx subIdx data).1.slotAt k = some slot') :
    ∃ slot, q.slotAt k = some slot ∧ (slot' = slot ∨ ((k : ℤ) = absIdx ∧
      ∃ fi, slot.fanIn = some fi ∧ subIdx < fi.subData.length ∧
        ((fi.received + 1 < fi.total ∧ slot' = { slot with fanIn := some (fi.record subIdx data) }) ∨
          (slot'.fanIn = none ∧ slot'.ready = true)))) := by
  unfold accumulateFanInSubResponse at h
  cases hrel : q.relIdx absIdx with
  | none => exact ⟨slot', by simpa [hrel] using h, Or.inl rfl⟩
  | some rel =>
    obtain ⟨habs, hlt⟩ := relIdx_eq_some hrel
    simp only [hrel] at h
    cases hfan : q.slots[rel]?.bind ResponseSlot.fanIn with
    | none => exact ⟨slot', by simpa [hfan] using h, Or.inl rfl⟩
    | some fi =>
      have hat : q.slotAt (q.base + rel) = q.slots[rel]? := by
        rw [slotAt, if_neg (by omega), Nat.add_sub_cancel_left]
      simp only [hfan] at h
      split at h
      · exact ⟨slot', h, Or.inl rfl⟩
      rename_i hsub
      split at h
      · rename_i hmore
        simp only [slotAt_modify] at h
        split at h
        · rename_i hk
          obtain ⟨slot, hslot, rfl⟩ := Option.map_eq_some_iff.mp h
          rw [hk, hat] at hslot
          rw [hslot, Option.bind_some] at hfan
          exact ⟨slot, by rw [hk, hat, hslot], Or.inr ⟨by omega, fi, hfan, by omega,
            Or.inl ⟨hmore, rfl⟩⟩⟩
        · exact ⟨slot', h, Or.inl rfl⟩
      · have hset : (({ q with slots := q.slots.modify rel fun slot =>
            { slot with fanIn := none } } : RespQueue).setReady rel
              (fi.mergeFunc (fi.record subIdx data).subData)).slotAt k = some slot' := by
          split at h
          · exact slotAt_of_drain (by simpa using h)
          · simpa using h
        rw [slotAt_setReady, slotAt_modify] at hset
        simp only at hset
        split at hset
        · rename_i hk
          obtain ⟨slot1, hslot1, rfl⟩ := Option.map_eq_some_iff.mp hset
          obtain ⟨slot, hslot, rfl⟩ := Option.map_eq_some_iff.mp hslot1
          have hslot0 := hslot
          rw [hk, hat] at hslot
          rw [hslot, Option.bind_some] at hfan
          exact ⟨slot, hslot0, Or.inr ⟨by omega, fi, hfan, by omega, Or.inr ⟨rfl, rfl⟩⟩⟩
        · exact ⟨slot', hset, Or.inl rfl⟩

theorem relIdx_of_slotAt (h : q.slotAt k = some slot) :
    q.relIdx k = some (k - q.base) ∧ q.slots[k - q.base]? = some slot := by
  obtain ⟨hle, hlt⟩ := slotAt_bounds h
  rw [slotAt, if_neg (by omega)] at h
  refine ⟨?_, h⟩
  rw [relIdx, if_neg (by omega)]
  congr 1
  omega

end RespQueue

end Pluster.Engine
