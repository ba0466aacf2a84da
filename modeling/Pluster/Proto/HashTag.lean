import Pluster.Proto.Crc16

/-!
# Hash tags

`HashSlot` hashes a part of the key if the key has a hash tag. The Redis Cluster specification
takes the bytes between the first opening brace and the first closing brace after it, and the
whole key if there are none. The loop of `hashTag` restarts at every opening brace and goes on
after an empty tag, so that it finds another tag in keys with more than one pair of braces.
-/

namespace Pluster.Proto

variable {key rest before tag : Bytes} {s : Option Bytes}

/-- The bytes that `HashSlot` hashes. -/
def hashedBytes (key : Bytes) : Bytes := if 0 < (hashTag key).length then hashTag key else key

theorem hashSlot_eq_hashedBytes (key : Bytes) :
    hashSlot key = (crc16 (hashedBytes key)).toNat % clusterSlots := by
  unfold hashSlot hashedBytes
  simp only
  split <;> rfl

/-- The bytes that the specification hashes. -/
def clusterHashedBytes (key : Bytes) : Bytes :=
  match key.dropWhile (· ≠ 0x7b) with
  | [] => key
  | _ :: rest =>
    let tag := rest.takeWhile (· ≠ 0x7d)
    if tag = [] ∨ tag = rest then key else tag

/-! ### The loop -/

/-- What the loop returns, from the bytes since the brace that is still open. -/
def tagFrom : Option Bytes → Bytes → Bytes
  | _, [] => []
  | s, b :: rest =>
    if b = 0x7b then tagFrom (some []) rest
    else
      match s with
      | none => tagFrom none rest
      | some read =>
        if b = 0x7d then if read ≠ [] then read else tagFrom none rest
        else tagFrom (some (read ++ [b])) rest

/-- The loop reads the key from left to right, so that what it has read since a brace is a part
of the key. -/
theorem hashTagLoop_eq_tagFrom {front : Bytes} (hkey : key = front ++ rest) (s : Option ℕ)
    (hs : ∀ start, s = some start → start < front.length) :
    hashTagLoop key front.length s rest =
      tagFrom (s.map fun start => front.drop (start + 1)) rest := by
  induction rest generalizing front s with
  | nil => rfl
  | cons b rest ih =>
    have hnext : key = (front ++ [b]) ++ rest := by simpa using hkey
    have hlength : (front ++ [b]).length = front.length + 1 := by simp
    have htail : ∀ s : Option ℕ, (∀ start, s = some start → start < (front ++ [b]).length) →
        hashTagLoop key (front.length + 1) s rest =
          tagFrom (s.map fun start => (front ++ [b]).drop (start + 1)) rest := by
      intro s hs
      rw [← hlength]
      exact ih hnext s hs
    rw [hashTagLoop.eq_def, tagFrom.eq_def]
    simp only
    by_cases hopen : b = 0x7b
    · rw [if_pos hopen, if_pos hopen, htail (some front.length) (by simp)]
      simp
    rw [if_neg hopen, if_neg hopen]
    cases s with
    | none => exact htail none nofun
    | some start =>
      have hstart := hs start rfl
      have hgrow : (front ++ [b]).drop (start + 1) = front.drop (start + 1) ++ [b] := by
        rw [List.drop_append_of_le_length hstart]
      simp only [Option.map_some]
      by_cases hclose : b = 0x7d
      · rw [if_pos hclose, if_pos hclose]
        have htake : key.take front.length = front := by rw [hkey, List.take_left]
        by_cases hread : start + 1 < front.length
        · have hne : front.drop (start + 1) ≠ [] := by
            rw [Ne, List.drop_eq_nil_iff]
            omega
          rw [if_pos hread, if_pos hne, htake]
        · have hnil : front.drop (start + 1) = [] := List.drop_eq_nil_iff.mpr (by omega)
          rw [if_neg hread, if_neg (not_not.mpr hnil)]
          exact htail none nofun
      · rw [if_neg hclose, if_neg hclose, htail (some start) ?_]
        · rw [Option.map_some, hgrow]
        intro start' heq
        cases heq
        rw [hlength]
        omega

theorem hashTag_eq_tagFrom (key : Bytes) : hashTag key = tagFrom none key := by
  have hstart : key = [] ++ key := rfl
  exact hashTagLoop_eq_tagFrom hstart none nofun

@[simp] theorem tagFrom_open (s : Option Bytes) (rest : Bytes) :
    tagFrom s (0x7b :: rest) = tagFrom (some []) rest := by
  rw [tagFrom.eq_def]
  simp

@[simp] theorem tagFrom_close (read rest : Bytes) :
    tagFrom (some read) (0x7d :: rest) = if read ≠ [] then read else tagFrom none rest := by
  rw [tagFrom.eq_def]
  simp

/-- Outside of a tag the loop looks for an opening brace. -/
theorem tagFrom_skip {skipped : Bytes} (hskipped : 0x7b ∉ skipped) (rest : Bytes) :
    tagFrom none (skipped ++ rest) = tagFrom none rest := by
  induction skipped with
  | nil => rfl
  | cons b skipped ih =>
    rw [List.mem_cons, not_or] at hskipped
    rw [List.cons_append, tagFrom.eq_def]
    simp only [if_neg (Ne.symm hskipped.1)]
    exact ih hskipped.2

/-- In a tag the loop reads the bytes up to a brace. -/
theorem tagFrom_read {part : Bytes} (hpart : NoBraces part) (read rest : Bytes) :
    tagFrom (some read) (part ++ rest) = tagFrom (some (read ++ part)) rest := by
  induction part generalizing read with
  | nil => rw [List.nil_append, List.append_nil]
  | cons b part ih =>
    obtain ⟨hopen, hclose⟩ := hpart
    rw [List.mem_cons, not_or] at hopen hclose
    rw [List.cons_append, tagFrom.eq_def]
    simp only [if_neg (Ne.symm hopen.1), if_neg (Ne.symm hclose.1)]
    rw [ih ⟨hopen.2, hclose.2⟩, List.append_assoc]
    rfl

/-- Without a closing brace there is no tag. -/
theorem tagFrom_of_no_close (hrest : 0x7d ∉ rest) (s : Option Bytes) : tagFrom s rest = [] := by
  induction rest generalizing s with
  | nil => rfl
  | cons b rest ih =>
    rw [List.mem_cons, not_or] at hrest
    rw [tagFrom.eq_def]
    simp only [if_neg (Ne.symm hrest.1)]
    split
    · exact ih hrest.2 _
    cases s with
    | none | some read => exact ih hrest.2 _

/-- The loop never returns a brace. -/
theorem noBraces_tagFrom (hs : ∀ read, s = some read → NoBraces read) (rest : Bytes) :
    NoBraces (tagFrom s rest) := by
  have hnil : NoBraces [] := ⟨List.not_mem_nil, List.not_mem_nil⟩
  induction rest generalizing s with
  | nil => exact hnil
  | cons b rest ih =>
    rw [tagFrom.eq_def]
    simp only
    split
    · exact ih fun read hread => Option.some.inj hread ▸ hnil
    rename_i hopen
    cases s with
    | none => exact ih nofun
    | some read =>
      have hread := hs read rfl
      simp only
      split
      · split
        · exact hread
        · exact ih nofun
      rename_i hclose
      refine ih fun read' hread' => Option.some.inj hread' ▸ ⟨?_, ?_⟩
      · simpa [Ne.symm hopen] using hread.1
      · simpa [Ne.symm hclose] using hread.2

/-- The bytes have a pair of braces with a tag between them. -/
def HasTag (rest : Bytes) : Prop :=
  ∃ before tag after, rest = before ++ 0x7b :: (tag ++ 0x7d :: after) ∧ tag ≠ [] ∧ NoBraces tag

theorem HasTag.cons (h : HasTag rest) (b : UInt8) : HasTag (b :: rest) := by
  obtain ⟨before, tag, after, rfl, htag⟩ := h
  exact ⟨b :: before, tag, after, rfl, htag⟩

/-- The first tag ends at the first closing brace, or a later one is found. -/
theorem hasTag_of_tagFrom (h : tagFrom s rest ≠ []) :
    HasTag rest ∨ ∃ read part after, s = some read ∧ rest = part ++ 0x7d :: after ∧
      NoBraces part ∧ read ++ part ≠ [] := by
  induction rest generalizing s with
  | nil => exact absurd rfl h
  | cons b rest ih =>
    rw [tagFrom.eq_def] at h
    simp only at h
    split at h
    · rename_i hopen
      subst hopen
      rcases ih h with htag | ⟨read, part, after, hread, rfl, hpart, hne⟩
      · exact Or.inl (htag.cons _)
      cases hread
      exact Or.inl ⟨[], part, after, rfl, hne, hpart⟩
    · rename_i hopen
      cases s with
      | none =>
        rcases ih h with htag | ⟨read, _, _, hread, _⟩
        · exact Or.inl (htag.cons _)
        · cases hread
      | some read =>
        simp only at h
        split at h
        · rename_i hclose
          subst hclose
          split at h
          · rename_i hread
            refine Or.inr ⟨read, [], rest, rfl, rfl, ⟨List.not_mem_nil, List.not_mem_nil⟩, ?_⟩
            rwa [List.append_nil]
          rcases ih h with htag | ⟨_, _, _, hread, _⟩
          · exact Or.inl (htag.cons _)
          · cases hread
        · rename_i hclose
          rcases ih h with htag | ⟨read', part, after, hread, rfl, hpart, hne⟩
          · exact Or.inl (htag.cons _)
          cases hread
          refine Or.inr ⟨read, b :: part, after, rfl, rfl, ⟨?_, ?_⟩, by simp⟩
          · simpa [Ne.symm hopen] using hpart.1
          · simpa [Ne.symm hclose] using hpart.2

theorem tagFrom_ne_nil (h : HasTag rest) (s : Option Bytes) : tagFrom s rest ≠ [] := by
  obtain ⟨before, tag, after, rfl, hne, htag⟩ := h
  induction before generalizing s with
  | nil =>
    rw [List.nil_append, tagFrom_open, tagFrom_read htag, List.nil_append, tagFrom_close, if_pos hne]
    exact hne
  | cons b before ih =>
    rw [List.cons_append, tagFrom.eq_def]
    simp only
    split
    · exact ih _
    cases s with
    | none => exact ih _
    | some read =>
      simp only
      split
      · split
        · rename_i hread
          exact hread
        · exact ih _
      · exact ih _

theorem tagFrom_ne_nil_iff (key : Bytes) : tagFrom none key ≠ [] ↔ HasTag key := by
  constructor
  · intro h
    rcases hasTag_of_tagFrom h with htag | ⟨_, _, _, hread, _⟩
    · exact htag
    · cases hread
  · exact fun h => tagFrom_ne_nil h none

/-! ### Keys split at their braces -/

/-- The first opening brace of a key has no closing brace after it, or the bytes between the
first one and the first closing brace after it are given. -/
theorem split_braces (key : Bytes) :
    0x7b ∉ key ∨ (∃ before rest, key = before ++ 0x7b :: rest ∧ 0x7b ∉ before ∧ 0x7d ∉ rest) ∨
      ∃ before tag after, key = before ++ 0x7b :: (tag ++ 0x7d :: after) ∧ 0x7b ∉ before ∧
        0x7d ∉ tag := by
  by_cases hopen : 0x7b ∈ key
  · obtain ⟨before, rest, rfl, hbefore⟩ := List.eq_append_cons_of_mem hopen
    by_cases hclose : 0x7d ∈ rest
    · obtain ⟨tag, after, rfl, htag⟩ := List.eq_append_cons_of_mem hclose
      exact Or.inr (Or.inr ⟨before, tag, after, rfl, hbefore, htag⟩)
    · exact Or.inr (Or.inl ⟨before, rest, rfl, hbefore, hclose⟩)
  · exact Or.inl hopen

/-- A list is split at the first occurrence of an element in one way. -/
theorem split_unique {b : UInt8} {x x' z z' : Bytes} (hx : b ∉ x) (hx' : b ∉ x')
    (h : x ++ b :: z = x' ++ b :: z') : x = x' ∧ z = z' := by
  induction x generalizing x' with
  | nil =>
    cases x' with
    | nil => exact ⟨rfl, (List.cons.inj h).2⟩
    | cons c x' => exact absurd (List.cons.inj h).1 fun heq => hx' (heq ▸ List.mem_cons_self)
  | cons a x ih =>
    cases x' with
    | nil => exact absurd (List.cons.inj h).1 fun heq => hx (heq ▸ List.mem_cons_self)
    | cons c x' =>
      obtain ⟨rfl, htail⟩ := List.cons.inj h
      rw [List.mem_cons, not_or] at hx hx'
      obtain ⟨rfl, rfl⟩ := ih hx.2 hx'.2 htail
      exact ⟨rfl, rfl⟩

theorem dropWhile_open (hbefore : 0x7b ∉ before) (rest : Bytes) :
    (before ++ 0x7b :: rest).dropWhile (· ≠ 0x7b) = 0x7b :: rest := by
  rw [List.dropWhile_append_of_pos, List.dropWhile_cons_of_neg (by simp)]
  intro b hb
  exact decide_eq_true fun heq => hbefore (heq ▸ hb)

theorem clusterHashedBytes_of_no_open (hkey : 0x7b ∉ key) : clusterHashedBytes key = key := by
  have hnil : key.dropWhile (· ≠ 0x7b) = [] := by
    rw [List.dropWhile_eq_nil_iff]
    intro b hb
    exact decide_eq_true fun heq => hkey (heq ▸ hb)
  rw [clusterHashedBytes, hnil]

theorem clusterHashedBytes_of_no_close (hbefore : 0x7b ∉ before) (hrest : 0x7d ∉ rest) :
    clusterHashedBytes (before ++ 0x7b :: rest) = before ++ 0x7b :: rest := by
  have hall : rest.takeWhile (· ≠ 0x7d) = rest := by
    rw [List.takeWhile_eq_self_iff]
    intro b hb
    exact decide_eq_true fun heq => hrest (heq ▸ hb)
  simp only [clusterHashedBytes, dropWhile_open hbefore, hall]
  rw [if_pos (Or.inr trivial)]

/-- The specification hashes what is between the first pair of braces, unless this is empty. -/
theorem clusterHashedBytes_of_tag (hbefore : 0x7b ∉ before) (htag : 0x7d ∉ tag) (after : Bytes) :
    clusterHashedBytes (before ++ 0x7b :: (tag ++ 0x7d :: after)) =
      if tag = [] then before ++ 0x7b :: (tag ++ 0x7d :: after) else tag := by
  have htake : (tag ++ 0x7d :: after).takeWhile (· ≠ 0x7d) = tag := by
    rw [List.takeWhile_append_of_pos, List.takeWhile_cons_of_neg (by simp), List.append_nil]
    intro b hb
    exact decide_eq_true fun heq => htag (heq ▸ hb)
  have hne : tag ≠ tag ++ 0x7d :: after := by
    intro heq
    have := congrArg List.length heq
    simp at this
  simp only [clusterHashedBytes, dropWhile_open hbefore, htake]
  simp only [hne, or_false]

/-! ### The two rules -/

/-- The first opening brace is the last one before the closing brace that follows it, and there
is no tag behind an empty first pair of braces. -/
def PlainTag (key : Bytes) : Prop :=
  ∀ before tag after, key = before ++ 0x7b :: (tag ++ 0x7d :: after) → 0x7b ∉ before →
    0x7d ∉ tag → 0x7b ∉ tag ∧ (tag = [] → ¬ HasTag after)

theorem plainTag_iff {after : Bytes} (hbefore : 0x7b ∉ before) (htag : 0x7d ∉ tag) :
    PlainTag (before ++ 0x7b :: (tag ++ 0x7d :: after)) ↔
      0x7b ∉ tag ∧ (tag = [] → ¬ HasTag after) := by
  constructor
  · exact fun h => h before tag after rfl hbefore htag
  intro h before' tag' after' heq hbefore' htag'
  obtain ⟨-, heq⟩ := split_unique hbefore hbefore' heq
  obtain ⟨rfl, rfl⟩ := split_unique htag htag' heq
  exact h

/-- What is hashed of a key with braces has no braces, or it is the whole key. -/
theorem hashedBytes_eq (key : Bytes) :
    hashedBytes key = if tagFrom none key = [] then key else tagFrom none key := by
  unfold hashedBytes
  rw [hashTag_eq_tagFrom]
  by_cases hnil : tagFrom none key = []
  · rw [hnil]
    rfl
  · rw [if_neg hnil, if_pos (List.length_pos_of_ne_nil hnil)]

theorem tagFrom_braces (hbefore : 0x7b ∉ before) (rest : Bytes) :
    tagFrom none (before ++ 0x7b :: rest) = tagFrom (some []) rest := by
  rw [tagFrom_skip hbefore, tagFrom_open]

theorem hashedBytes_of_noBraces_tag (hbefore : 0x7b ∉ before) (htag : NoBraces tag)
    (hne : tag ≠ []) (after : Bytes) :
    hashedBytes (before ++ 0x7b :: (tag ++ 0x7d :: after)) = tag := by
  have hscan : tagFrom none (before ++ 0x7b :: (tag ++ 0x7d :: after)) = tag := by
    rw [tagFrom_braces hbefore, tagFrom_read htag, List.nil_append, tagFrom_close, if_pos hne]
  rw [hashedBytes_eq, hscan, if_neg hne]

end Pluster.Proto
