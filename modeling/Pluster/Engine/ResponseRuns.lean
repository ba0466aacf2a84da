import Pluster.Engine.RespQueue
import Pluster.Lib.Runs

/-!
# Runs of the response queue

Any sequence of allocations and completions of one client's response queue.
Completions arrive through direct fills, or through batches of accumulated
replies that `flushWriteAccum` ends, as in `onTraffic`. What reaches the client
is one supplied value for each slot, in the order of allocation.
-/

namespace Pluster.Engine

open ReorderBuffer RespQueue

/-- A reply accumulated by `onTraffic`, for a plain slot or for one part of a fan-in. -/
inductive Accum
  | response (absIdx : ℤ) (data : Bytes)
  | part (absIdx : ℤ) (subIdx : ℕ) (data : Bytes)

/-- An operation on the response queue of a client. -/
inductive QueueOp
  | alloc
  | allocFanIn (total : ℕ) (mergeFunc : List SubResponse → Bytes)
  | fill (absIdx : ℤ) (data : Bytes)
  /-- One run of `onTraffic`: accumulated replies, then `flushWriteAccum`. -/
  | batch (replies : List Accum)

/-- How a slot was allocated: plain, or with the size and the merge of its fan-in. -/
abbrev SlotKind := Option (ℕ × (List SubResponse → Bytes))

/-- The queue of a client, the chunks written to it and its write vector. -/
structure QueueState where
  queue : RespQueue
  /-- The chunks written to the client, in order. -/
  written : List Bytes
  /-- The entry of the client in `writeAccum`. -/
  accum : Option (List Bytes)
  /-- Every slot allocated so far. -/
  allocs : List SlotKind

namespace QueueState

/-- The state of a new client. -/
def new (policy : GrowthPolicy) : QueueState :=
  { queue := RespQueue.new policy, written := [], accum := none, allocs := [] }

/-- The chunks handed on so far, the write vector included. -/
def sent (s : QueueState) : List Bytes := s.written ++ s.accum.getD []

/-- One accumulated reply. A panic ends the process. -/
def accumulate (s : QueueState) (a : Accum) : QueueState :=
  if s.queue.panicked then s
  else
    let (queue, chunks) := match a with
      | .response absIdx data => s.queue.accumulateResponseSlot absIdx data
      | .part absIdx subIdx data => s.queue.accumulateFanInSubResponse absIdx subIdx data
    { s with queue, accum := if chunks = [] then s.accum else some (s.accum.getD [] ++ chunks) }

/-- `flushWriteAccum` for this client. -/
def flushWriteAccum (s : QueueState) : QueueState :=
  if s.queue.panicked then s else { s with written := s.sent, accum := none }

/-- Allocation of a slot, with the fan-in that `routeMultiKeyToMux` puts on it. -/
def allocate (s : QueueState) (kind : SlotKind) : QueueState :=
  let (queue, absIdx) := s.queue.allocResponseSlot
  let queue := match kind with
    | none => queue
    | some (total, mergeFunc) =>
      queue.attachFanIn absIdx
        { total, received := 0, subData := List.replicate total ⟨0, []⟩, mergeFunc }
  { s with queue, allocs := s.allocs ++ [kind] }

/-- Execute one operation. -/
def exec (s : QueueState) (op : QueueOp) : QueueState :=
  if s.queue.panicked then s
  else
    match op with
    | .alloc => s.allocate none
    | .allocFanIn total mergeFunc => s.allocate (some (total, mergeFunc))
    | .fill absIdx data =>
      let (queue, chunks) := s.queue.fillResponseSlotInLoop absIdx data
      { s with queue, written := s.written ++ chunks }
    | .batch replies => (replies.foldl accumulate s).flushWriteAccum

end QueueState

/-- A completion of a slot or of a part of it, direct or accumulated. -/
inductive Completion
  | fill (absIdx : ℤ) (data : Bytes)
  | accum (a : Accum)

/-- The completions of an operation. -/
def QueueOp.completions : QueueOp → List Completion
  | .fill absIdx data => [.fill absIdx data]
  | .batch replies => replies.map .accum
  | _ => []

/-- The slot and the part of a fan-in that a completion is for. -/
def Completion.partKey : Completion → Option (ℤ × ℕ)
  | .accum (.part absIdx subIdx _) => some (absIdx, subIdx)
  | _ => none

/-- The value `v` was supplied for slot `k`: by a fill, by an accumulated reply,
or as the merge of the parts supplied for the fan-in of the slot. -/
def Supplied (allocs : List SlotKind) (completions : List Completion) (k : ℕ) (v : Bytes) : Prop :=
  .fill k v ∈ completions ∨ .accum (.response k v) ∈ completions ∨
    ∃ total mergeFunc subs, allocs[k]? = some (some (total, mergeFunc)) ∧
      subs.length = total ∧ v = mergeFunc subs ∧
      ∀ (i : ℕ) (sub : SubResponse), subs[i]? = some sub →
        .accum (.part k i sub.data) ∈ completions

/-- The state of a fan-in in the queue: the parts received are parts supplied. -/
def FanInOk (allocs : List SlotKind) (completions : List Completion) (k : ℕ) (fi : FanInState) :
    Prop :=
  allocs[k]? = some (some (fi.total, fi.mergeFunc)) ∧ fi.subData.length = fi.total ∧
    ∃ received : Finset ℕ, fi.received = received.card ∧
      ∀ j ∈ received, j < fi.total ∧
        ∃ sub, fi.subData[j]? = some sub ∧ .accum (.part k j sub.data) ∈ completions

/-- The invariant of a run in which the given completions have happened. -/
structure QueueInv (completions : List Completion) (s : QueueState) : Prop where
  /-- `respBase` counts the slots handed on. -/
  sent_length : s.sent.length = s.queue.base
  /-- Every allocated slot is handed on or in the queue. -/
  allocs_length : s.queue.base + s.queue.slots.length = s.allocs.length
  /-- The first slot in the queue is not ready. -/
  blocked : (s.queue.toBuffer s.sent).Blocked
  /-- Every value in the queue or handed on was supplied for its slot. -/
  supplied : (s.queue.toBuffer s.sent).All (Supplied s.allocs completions)
  /-- Every fan-in in the queue holds supplied parts. -/
  fanIn : ∀ k slot fi, s.queue.slotAt k = some slot → slot.fanIn = some fi →
    FanInOk s.allocs completions k fi

theorem Supplied.mono {allocs : List SlotKind} {completions : List Completion} {k : ℕ}
    {v : Bytes} (h : Supplied allocs completions k v) (more : List SlotKind)
    (later : List Completion) : Supplied (allocs ++ more) (completions ++ later) k v := by
  obtain h | h | ⟨total, mergeFunc, subs, hkind, hlength, hv, hparts⟩ := h
  · exact Or.inl (List.mem_append_left _ h)
  · exact Or.inr (Or.inl (List.mem_append_left _ h))
  refine Or.inr (Or.inr ⟨total, mergeFunc, subs, ?_, hlength, hv, fun i sub hi => ?_⟩)
  · rw [List.getElem?_append_left (List.getElem?_eq_some_iff.mp hkind).1, hkind]
  · exact List.mem_append_left _ (hparts i sub hi)

theorem FanInOk.mono {allocs : List SlotKind} {completions : List Completion} {k : ℕ}
    {fi : FanInState} (h : FanInOk allocs completions k fi) (more : List SlotKind)
    (later : List Completion) : FanInOk (allocs ++ more) (completions ++ later) k fi := by
  obtain ⟨hkind, hlength, received, hcard, hparts⟩ := h
  refine ⟨?_, hlength, received, hcard, fun j hj => ?_⟩
  · rw [List.getElem?_append_left (List.getElem?_eq_some_iff.mp hkind).1, hkind]
  obtain ⟨hlt, sub, hsub, hmem⟩ := hparts j hj
  exact ⟨hlt, sub, hsub, List.mem_append_left _ hmem⟩

/-- A fan-in keeps its invariant when a part arrives that was not received before. -/
theorem FanInOk.record {allocs : List SlotKind} {completions : List Completion} {k : ℕ}
    {fi : FanInState} (h : FanInOk allocs completions k fi) {subIdx : ℕ} (data : Bytes)
    (hsub : subIdx < fi.subData.length)
    (hfresh : ((k : ℤ), subIdx) ∉ completions.filterMap Completion.partKey) :
    FanInOk allocs (completions ++ [.accum (.part k subIdx data)]) k (fi.record subIdx data) := by
  obtain ⟨hkind, hlength, received, hcard, hparts⟩ := h
  have hnew : subIdx ∉ received := by
    intro hmem
    obtain ⟨-, sub, -, hpart⟩ := hparts subIdx hmem
    exact hfresh (List.mem_filterMap.mpr ⟨_, hpart, rfl⟩)
  refine ⟨hkind, by simpa [FanInState.record] using hlength, insert subIdx received, ?_, ?_⟩
  · rw [Finset.card_insert_of_notMem hnew, FanInState.record_received, hcard]
  intro j hj
  rcases Finset.mem_insert.mp hj with rfl | hj
  · refine ⟨by rw [FanInState.record_total]; omega, ⟨j, data⟩, ?_, by simp⟩
    simp [FanInState.record, hsub]
  obtain ⟨hlt, sub, hget, hmem⟩ := hparts j hj
  have hne : subIdx ≠ j := fun h => hnew (h ▸ hj)
  refine ⟨hlt, sub, ?_, List.mem_append_left _ hmem⟩
  simp [FanInState.record, List.getElem?_set_ne hne, hget]

/-- When all parts have been received, the merged reply is a supplied value. -/
theorem FanInOk.supplied {allocs : List SlotKind} {completions : List Completion} {k : ℕ}
    {fi : FanInState} (h : FanInOk allocs completions k fi) (hall : fi.total ≤ fi.received) :
    Supplied allocs completions k (fi.mergeFunc fi.subData) := by
  obtain ⟨hkind, hlength, received, hcard, hparts⟩ := h
  have hsubset : received ⊆ Finset.range fi.total := fun j hj =>
    Finset.mem_range.mpr (hparts j hj).1
  have hrange : received = Finset.range fi.total :=
    Finset.eq_of_subset_of_card_le hsubset (by rw [Finset.card_range]; omega)
  refine Or.inr (Or.inr ⟨_, _, fi.subData, hkind, hlength, rfl, fun i sub hi => ?_⟩)
  have hlt := (List.getElem?_eq_some_iff.mp hi).1
  obtain ⟨-, sub', hsub', hmem⟩ := hparts i (by rw [hrange, Finset.mem_range]; omega)
  rw [hi] at hsub'
  rwa [Option.some.inj hsub']

namespace QueueInv

variable {completions : List Completion} {s : QueueState}

theorem new (policy : GrowthPolicy) : QueueInv [] (QueueState.new policy) where
  sent_length := rfl
  allocs_length := rfl
  blocked := fun v => by simp [QueueState.new, RespQueue.new, toBuffer]
  supplied := by simp [QueueState.new, QueueState.sent, RespQueue.new, toBuffer, Buffer.All]
  fanIn := fun k slot fi hk => by simp [QueueState.new, RespQueue.new, slotAt] at hk

/-- A completion function that refines a step of the buffer keeps the invariant. -/
theorem of_refines (h : QueueInv completions s) {later : List Completion} {s' : QueueState}
    {result : RespQueue × List Bytes} {b : Buffer Bytes}
    (hrefines : Refines s.queue s.sent result b) (hqueue : s'.queue = result.1)
    (hsent : s'.sent = s.sent ++ result.2) (hallocs : s'.allocs = s.allocs)
    (hb : b = s.queue.toBuffer s.sent ∨ ∃ absIdx data,
      b = completeAt (s.queue.toBuffer s.sent) absIdx data ∧
        (0 ≤ absIdx → Supplied s.allocs (completions ++ later) absIdx.toNat data))
    (hfanIn : ∀ k slot fi, result.1.slotAt k = some slot → slot.fanIn = some fi →
      FanInOk s.allocs (completions ++ later) k fi) :
    QueueInv (completions ++ later) s' := by
  obtain ⟨hbuffer, hlength, -⟩ := hrefines
  have hsupplied : (s.queue.toBuffer s.sent).All (Supplied s.allocs (completions ++ later)) :=
    h.supplied.mono fun k v hk => by simpa using hk.mono [] later
  have hfacts : b.Blocked ∧ b.All (Supplied s.allocs (completions ++ later)) ∧
      b.done.length + b.waiting.length = s.allocs.length := by
    have hcount : (s.queue.toBuffer s.sent).done.length +
        (s.queue.toBuffer s.sent).waiting.length = s.allocs.length := by
      simp only [toBuffer, List.length_map, h.sent_length, h.allocs_length]
    rcases hb with rfl | ⟨absIdx, data, rfl, hdata⟩
    · exact ⟨h.blocked, hsupplied, hcount⟩
    unfold completeAt
    split
    · exact ⟨h.blocked, hsupplied, hcount⟩
    exact ⟨h.blocked.complete _ _, hsupplied.complete (hdata (by omega)),
      (Buffer.complete_length _ _ _).trans hcount⟩
  rw [← hbuffer, ← hsent, ← hqueue] at hfacts
  obtain ⟨hblocked, hall, hcount⟩ := hfacts
  constructor
  · rw [hsent, hqueue, hlength]
  · rw [hallocs, ← hcount, hqueue, ← hlength, ← hsent]
    simp only [toBuffer, List.length_map]
  · exact hblocked
  · rw [hallocs]
    exact hall
  rw [hallocs, hqueue]
  exact hfanIn

/-- Completing a slot keeps the fan-ins of the slots left in the queue. -/
theorem fanIn_of_completed (h : QueueInv completions s) {queue : RespQueue} {absIdx : ℤ}
    (hcompleted : Completed s.queue queue absIdx) (later : List Completion) (k : ℕ)
    (slot : ResponseSlot) (fi : FanInState) (hk : queue.slotAt k = some slot)
    (hfi : slot.fanIn = some fi) : FanInOk s.allocs (completions ++ later) k fi := by
  obtain ⟨before, hbefore, hsame, -, -⟩ := hcompleted k slot hk
  simpa using (h.fanIn k before fi hbefore (hsame ▸ hfi)).mono [] later

theorem mono (h : QueueInv completions s) (later : List Completion) :
    QueueInv (completions ++ later) s where
  sent_length := h.sent_length
  allocs_length := h.allocs_length
  blocked := h.blocked
  supplied := h.supplied.mono fun k v hk => by simpa using hk.mono [] later
  fanIn := fun k slot fi hk hfi => by simpa using (h.fanIn k slot fi hk hfi).mono [] later

private theorem allocate_slots (s : QueueState) (kind : SlotKind) :
    ∃ fanIn : Option FanInState,
      (s.allocate kind).queue.slots = s.queue.slots ++ [({ fanIn := fanIn } : ResponseSlot)] ∧
      ∀ fi, fanIn = some fi → kind = some (fi.total, fi.mergeFunc) ∧
        fi.subData.length = fi.total ∧ fi.received = 0 := by
  cases kind with
  | none => exact ⟨none, rfl, fun fi hfi => by cases hfi⟩
  | some kind =>
    refine ⟨some ⟨kind.1, 0, List.replicate kind.1 ⟨0, []⟩, kind.2⟩, ?_, ?_⟩
    · simp only [QueueState.allocate, allocResponseSlot, attachFanIn, Nat.add_sub_cancel_left]
      rw [List.modify_eq_set_getElem?]
      simp
    rintro fi hfi
    cases hfi
    exact ⟨rfl, by simp, rfl⟩

private theorem allocate_base (s : QueueState) (kind : SlotKind) :
    (s.allocate kind).queue.base = s.queue.base := by
  cases kind <;> rfl

theorem allocate (h : QueueInv completions s) (kind : SlotKind) :
    QueueInv completions (s.allocate kind) := by
  obtain ⟨fanIn, hslots, hfanIn⟩ := allocate_slots s kind
  have hbase := allocate_base s kind
  have hsent : (s.allocate kind).sent = s.sent := rfl
  have hallocs : (s.allocate kind).allocs = s.allocs ++ [kind] := rfl
  have hbuffer : (s.allocate kind).queue.toBuffer s.sent = (s.queue.toBuffer s.sent).alloc := by
    simp only [toBuffer, Buffer.alloc, hslots, List.map_append, List.map_cons, List.map_nil]
    rfl
  constructor
  · rw [hsent, hbase, h.sent_length]
  · rw [hbase, hslots, hallocs, List.length_append, List.length_append, ← h.allocs_length]
    rfl
  · rw [hsent, hbuffer]
    exact h.blocked.alloc
  · rw [hsent, hbuffer, hallocs]
    exact h.supplied.alloc.mono fun k v hk => by simpa using hk.mono [kind] []
  intro k slot fi hk hfi
  rw [hallocs]
  have hin := slotAt_bounds hk
  rw [slotAt, hbase, hslots] at hk
  split at hk
  · cases hk
  rename_i hge
  rw [List.getElem?_append] at hk
  split at hk
  · have hold : s.queue.slotAt k = some slot := by rw [slotAt, if_neg hge, hk]
    simpa using (h.fanIn k slot fi hold hfi).mono [kind] []
  rename_i hlast
  rw [List.getElem?_singleton] at hk
  split at hk
  · cases hk
    obtain ⟨hkind, hlength, hreceived⟩ := hfanIn fi hfi
    have hnew : k = s.allocs.length := by have := h.allocs_length; omega
    refine ⟨?_, hlength, ∅, by simpa using hreceived, fun j hj => by simp at hj⟩
    rw [hnew, List.getElem?_append_right (le_refl _), Nat.sub_self, hkind]
    rfl
  · cases hk

theorem fill (h : QueueInv completions s) (haccum : s.accum = none) (absIdx : ℤ) (data : Bytes) :
    QueueInv (completions ++ [.fill absIdx data]) (s.exec (.fill absIdx data)) := by
  unfold QueueState.exec
  split
  · exact h.mono _
  refine h.of_refines (fillResponseSlotInLoop_refines h.sent_length absIdx data) rfl ?_ rfl
    (Or.inr ⟨absIdx, data, rfl, fun hnonneg => Or.inl ?_⟩)
    (h.fanIn_of_completed (fillResponseSlotInLoop_completed absIdx data) _)
  · simp [QueueState.sent, haccum]
  rw [Int.toNat_of_nonneg hnonneg]
  simp

private theorem accumulate_response (h : QueueInv completions s) (absIdx : ℤ) (data : Bytes)
    {s' : QueueState} (hqueue : s'.queue = (s.queue.accumulateResponseSlot absIdx data).1)
    (hsent : s'.sent = s.sent ++ (s.queue.accumulateResponseSlot absIdx data).2)
    (hallocs : s'.allocs = s.allocs) :
    QueueInv (completions ++ [.accum (.response absIdx data)]) s' := by
  have hfanIn : ∀ k slot fi, (s.queue.accumulateResponseSlot absIdx data).1.slotAt k = some slot →
      slot.fanIn = some fi →
      FanInOk s.allocs (completions ++ [.accum (.response absIdx data)]) k fi := by
    rcases accumulateResponseSlot_completed (q := s.queue) absIdx data with hsame | hcompleted
    · intro k slot fi hk hfi
      rw [hsame] at hk
      simpa using (h.fanIn k slot fi hk hfi).mono [] _
    · exact h.fanIn_of_completed hcompleted _
  rcases accumulateResponseSlot_refines h.sent_length h.blocked absIdx data with hr | hr
  · exact h.of_refines hr hqueue hsent hallocs (Or.inl rfl) hfanIn
  refine h.of_refines hr hqueue hsent hallocs
    (Or.inr ⟨absIdx, data, rfl, fun hnonneg => Or.inr (Or.inl ?_)⟩) hfanIn
  rw [Int.toNat_of_nonneg hnonneg]
  simp

private theorem accumulate_part (h : QueueInv completions s) (absIdx : ℤ) (subIdx : ℕ)
    (data : Bytes) (hfresh : (absIdx, subIdx) ∉ completions.filterMap Completion.partKey)
    {s' : QueueState}
    (hqueue : s'.queue = (s.queue.accumulateFanInSubResponse absIdx subIdx data).1)
    (hsent : s'.sent = s.sent ++ (s.queue.accumulateFanInSubResponse absIdx subIdx data).2)
    (hallocs : s'.allocs = s.allocs) :
    QueueInv (completions ++ [.accum (.part absIdx subIdx data)]) s' := by
  have hfanIn : ∀ k slot fi,
      (s.queue.accumulateFanInSubResponse absIdx subIdx data).1.slotAt k = some slot →
      slot.fanIn = some fi →
      FanInOk s.allocs (completions ++ [.accum (.part absIdx subIdx data)]) k fi := by
    intro k slot fi hk hfi
    obtain ⟨before, hbefore, rfl | ⟨rfl, old, hold, hsub, ⟨-, rfl⟩ | ⟨hnone, -⟩⟩⟩ :=
      accumulateFanInSubResponse_slotAt hk
    · simpa using (h.fanIn k slot fi hbefore hfi).mono [] _
    · cases hfi
      exact (h.fanIn k before old hbefore hold).record data hsub hfresh
    rw [hnone] at hfi
    cases hfi
  rcases accumulateFanInSubResponse_refines h.sent_length h.blocked absIdx subIdx data with
    hr | ⟨rel, fi, hrel, hfi, hsub, hlast, hr⟩
  · exact h.of_refines hr hqueue hsent hallocs (Or.inl rfl) hfanIn
  refine h.of_refines hr hqueue hsent hallocs (Or.inr ⟨absIdx, _, rfl, fun _ => ?_⟩) hfanIn
  obtain ⟨habs, -⟩ := relIdx_eq_some hrel
  obtain ⟨slot, hslot, hslotFi⟩ := Option.bind_eq_some_iff.mp hfi
  have hk : absIdx.toNat = s.queue.base + rel := by omega
  have hat : s.queue.slotAt (s.queue.base + rel) = some slot := by
    rw [slotAt, if_neg (by omega), Nat.add_sub_cancel_left, hslot]
  have hcast : ((s.queue.base + rel : ℕ) : ℤ) = absIdx := by omega
  have hrecord := (h.fanIn _ slot fi hat hslotFi).record data hsub (hcast ▸ hfresh)
  rw [hcast] at hrecord
  rw [hk]
  exact hrecord.supplied (by rw [FanInState.record_total, FanInState.record_received]; omega)

theorem accumulate (h : QueueInv completions s) (a : Accum)
    (hfresh : ∀ key, (Completion.accum a).partKey = some key →
      key ∉ completions.filterMap Completion.partKey) :
    QueueInv (completions ++ [.accum a]) (s.accumulate a) := by
  have hvector : ∀ chunks : List Bytes,
      s.written ++ (if chunks = [] then s.accum else some (s.accum.getD [] ++ chunks)).getD [] =
        s.sent ++ chunks := by
    intro chunks
    split
    · rename_i hnil
      rw [hnil, List.append_nil, QueueState.sent]
    · simp [QueueState.sent]
  unfold QueueState.accumulate
  split
  · exact h.mono _
  cases a with
  | response absIdx data => exact h.accumulate_response absIdx data rfl (hvector _) rfl
  | part absIdx subIdx data =>
    exact h.accumulate_part absIdx subIdx data (hfresh _ rfl) rfl (hvector _) rfl

theorem flushWriteAccum (h : QueueInv completions s) : QueueInv completions s.flushWriteAccum := by
  unfold QueueState.flushWriteAccum
  split
  · exact h
  have hsent : ({ s with written := s.sent, accum := none } : QueueState).sent = s.sent :=
    List.append_nil _
  constructor
  · rw [hsent, h.sent_length]
  · exact h.allocs_length
  · rw [hsent]
    exact h.blocked
  · rw [hsent]
    exact h.supplied
  · exact h.fanIn

/-- A batch of accumulated replies, by induction on its replies. -/
theorem accumulate_all (replies : List Accum) (h : QueueInv completions s)
    (hfresh : ((completions ++ replies.map Completion.accum).filterMap
      Completion.partKey).Nodup) :
    QueueInv (completions ++ replies.map Completion.accum) (replies.foldl QueueState.accumulate s) := by
  induction replies generalizing completions s with
  | nil => simpa using h
  | cons a replies ih =>
    have hassoc : completions ++ List.map Completion.accum (a :: replies) =
        (completions ++ [.accum a]) ++ replies.map .accum := by simp
    rw [hassoc] at hfresh ⊢
    refine ih (h.accumulate a fun key hkey hmem => ?_) hfresh
    rw [List.filterMap_append, List.filterMap_append] at hfresh
    have hsplit := (List.nodup_append.mp hfresh).1
    rw [List.nodup_append] at hsplit
    refine hsplit.2.2 key hmem key ?_ rfl
    simp [hkey]

/-- One operation keeps the invariant, with its completions added. -/
theorem exec (h : QueueInv completions s) (hidle : s.queue.panicked = false → s.accum = none)
    (op : QueueOp) (hfresh : ((completions ++ op.completions).filterMap Completion.partKey).Nodup) :
    QueueInv (completions ++ op.completions) (s.exec op) := by
  cases hpanicked : s.queue.panicked with
  | true =>
    have hsame : s.exec op = s := by simp [QueueState.exec, hpanicked]
    rw [hsame]
    exact h.mono _
  | false =>
    cases op with
    | alloc => simpa [QueueState.exec, hpanicked, QueueOp.completions] using h.allocate none
    | allocFanIn total mergeFunc =>
      simpa [QueueState.exec, hpanicked, QueueOp.completions] using
        h.allocate (some (total, mergeFunc))
    | fill absIdx data => exact h.fill (hidle hpanicked) absIdx data
    | batch replies =>
      have hbatch := (h.accumulate_all replies hfresh).flushWriteAccum
      simpa [QueueState.exec, hpanicked, QueueOp.completions] using hbatch

end QueueInv

/-- Between operations the write vector is empty, unless the process has panicked. -/
theorem accum_eq_none_exec {s : QueueState} (h : s.queue.panicked = false → s.accum = none)
    (op : QueueOp) (halive : (s.exec op).queue.panicked = false) : (s.exec op).accum = none := by
  unfold QueueState.exec at halive ⊢
  split
  · rename_i hpanicked
    simp [hpanicked] at halive
  rename_i hpanicked
  rw [if_neg hpanicked] at halive
  have hnone := h (by simpa using hpanicked)
  cases op with
  | alloc | allocFanIn total mergeFunc | fill absIdx data => exact hnone
  | batch replies =>
    simp only [QueueState.flushWriteAccum] at halive ⊢
    split
    · rename_i hdead
      rw [if_pos hdead, hdead] at halive
      cases halive
    · rfl

/-- The completions of a run. -/
def allCompletions (ops : List QueueOp) : List Completion := ops.flatMap QueueOp.completions

/-- The invariant of every run in which each part of a fan-in completes at most once. -/
theorem queueInv_run (policy : GrowthPolicy) (ops : List QueueOp)
    (hparts : ((allCompletions ops).filterMap Completion.partKey).Nodup) :
    QueueInv (allCompletions ops) (Runs.run QueueState.exec (QueueState.new policy) ops) ∧
      ((Runs.run QueueState.exec (QueueState.new policy) ops).queue.panicked = false →
        (Runs.run QueueState.exec (QueueState.new policy) ops).accum = none) := by
  induction ops using List.reverseRecOn with
  | nil => exact ⟨QueueInv.new policy, fun _ => rfl⟩
  | append_singleton ops op ih =>
    have hsplit : allCompletions (ops ++ [op]) = allCompletions ops ++ op.completions := by
      simp [allCompletions]
    rw [hsplit] at hparts ⊢
    have hbefore : ((allCompletions ops).filterMap Completion.partKey).Nodup := by
      rw [List.filterMap_append] at hparts
      exact (List.nodup_append.mp hparts).1
    obtain ⟨hinv, hidle⟩ := ih hbefore
    rw [Runs.run_append]
    exact ⟨hinv.exec hidle op hparts, accum_eq_none_exec hidle op⟩

/-- The response queue is a reorder buffer. In every run, with completions in any
order, late, repeated or for indices that do not exist, the `k`-th chunk written
to the client is a value supplied for the `k`-th slot allocated, `respBase` counts
the slots handed on, and the first slot in the queue is not ready. -/
theorem responses_in_allocation_order (policy : GrowthPolicy) (ops : List QueueOp)
    (hparts : ((allCompletions ops).filterMap Completion.partKey).Nodup) :
    let s := Runs.run QueueState.exec (QueueState.new policy) ops
    (∀ k v, s.written[k]? = some v → Supplied s.allocs (allCompletions ops) k v) ∧
      s.written.length ≤ s.allocs.length ∧
      (s.queue.panicked = false → s.accum = none) ∧
      s.queue.base = s.written.length + (s.accum.getD []).length ∧
      s.queue.base + s.queue.slots.length = s.allocs.length ∧
      (∀ slot, s.queue.slots.head? = some slot → slot.ready = false) := by
  intro s
  obtain ⟨hinv, hidle⟩ := queueInv_run policy ops hparts
  have hbase : s.queue.base = s.written.length + (s.accum.getD []).length := by
    rw [← hinv.sent_length, QueueState.sent, List.length_append]
  have hcount : s.queue.base + s.queue.slots.length = s.allocs.length := hinv.allocs_length
  refine ⟨fun k v hk => hinv.supplied.1 k v ?_, by omega, hidle, hbase, hcount, ?_⟩
  · have hlt := (List.getElem?_eq_some_iff.mp hk).1
    exact (List.getElem?_append_left hlt).trans hk
  intro slot hslot
  cases hready : slot.ready with
  | false => rfl
  | true =>
    have hhead : (s.queue.toBuffer s.sent).waiting.head? = some (some slot.data) := by
      simp [toBuffer, List.head?_map, hslot, value, hready]
    exact absurd hhead (hinv.blocked slot.data)

/-- Three slots completed in the order 2, 1, 0, the middle one a fan-in of two
parts, with a stray and a late completion: the run meets the hypothesis. -/
theorem responses_in_allocation_order_reversed :
    let ops : List QueueOp := [.alloc, .allocFanIn 2 fun subs => subs.flatMap SubResponse.data,
      .alloc, .fill 2 [99], .batch [.part 1 1 [121], .response 7 [122]],
      .batch [.part 1 0 [120], .response 0 [97]], .fill 0 [108]]
    let s := Runs.run QueueState.exec (QueueState.new .doubling) ops
    s.written = [[97], [120, 121], [99]] ∧ s.queue.base = 3 ∧
      ∀ k v, s.written[k]? = some v → Supplied s.allocs (allCompletions ops) k v := by
  intro ops s
  exact ⟨by decide +kernel, by decide +kernel,
    (responses_in_allocation_order .doubling ops (by decide +kernel)).1⟩

end Pluster.Engine
