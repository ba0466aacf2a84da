import Pluster.Engine.DeclaredKeys

/-!
# XREAD and XREADGROUP

The keys are looked for behind the first argument that reads STREAMS, and BLOCK anywhere in the
arguments. A group, a consumer or a stream may have one of these names.
-/

namespace Pluster.Engine

open Proto GoStrings

/-- The options in front of the streams. -/
inductive XReadKeyword
  | group
  | count
  | block
  | noack
  deriving DecidableEq

namespace XReadKeyword

def name : XReadKeyword → Bytes
  | group => bytes "GROUP"
  | count => bytes "COUNT"
  | block => bytes "BLOCK"
  | noack => bytes "NOACK"

/-- The number of arguments: the group and the consumer, or a number. -/
def arity : XReadKeyword → ℕ
  | group => 2
  | count | block => 1
  | noack => 0

end XReadKeyword

/-- An option, with its keyword in any letter case. -/
structure XReadOption where
  keyword : XReadKeyword
  word : Bytes
  data : List Bytes
  word_eq : equalFold word keyword.name = true
  data_length : data.length = keyword.arity

def XReadOption.args (o : XReadOption) : List Bytes := o.word :: o.data

/-- A request in the grammar of the commands: options in any order, then as many IDs as
streams. -/
structure XReadRequest where
  req : Request
  name : Bytes
  options : List XReadOption
  streams : Bytes
  keys : List Bytes
  ids : List Bytes
  cmd_eq : req.cmd = bytes "XREAD" ∨ req.cmd = bytes "XREADGROUP"
  name_eq : equalFold name req.cmd = true
  streams_eq : equalFold streams (bytes "STREAMS") = true
  keys_ne : keys ≠ []
  ids_length : keys.length = ids.length
  args_eq : req.args =
    name :: options.flatMap XReadOption.args ++ streams :: (keys ++ ids)

theorem equalFold_of_equalFold {s t u : Bytes} (h : equalFold s t = true) :
    equalFold s u = equalFold t u := by
  rw [equalFold, of_decide_eq_true h, equalFold]

theorem extractXREADKeys_append {before : List Bytes} (rest : List Bytes)
    (h : ∀ arg ∈ before, equalFold arg (bytes "STREAMS") = false) :
    extractXREADKeys (before ++ rest) = extractXREADKeys rest := by
  induction before with
  | nil => rfl
  | cons arg before ih =>
    obtain ⟨harg, hbefore⟩ := List.forall_mem_cons.mp h
    rw [List.cons_append, extractXREADKeys, harg, if_neg Bool.false_ne_true, ih hbefore]

namespace XReadOption

theorem word_ne_streams (o : XReadOption) : equalFold o.word (bytes "STREAMS") = false := by
  rw [equalFold_of_equalFold o.word_eq]
  cases o.keyword <;> decide

theorem word_eq_block (o : XReadOption) :
    equalFold o.word (bytes "BLOCK") = true ↔ o.keyword = .block := by
  rw [equalFold_of_equalFold o.word_eq]
  cases o.keyword <;> decide

end XReadOption

namespace XReadRequest

/-- The arguments that are not keywords. -/
def data (x : XReadRequest) : List Bytes :=
  x.options.flatMap XReadOption.data ++ (x.keys ++ x.ids)

/-- BLOCK is one of the options. -/
def Blocks (x : XReadRequest) : Prop := ∃ o ∈ x.options, o.keyword = .block

variable (x : XReadRequest)

theorem extractXREADKeys_eq_iff : extractXREADKeys x.req.args = x.keys ↔
    ∀ o ∈ x.options, ∀ arg ∈ o.data, equalFold arg (bytes "STREAMS") = false := by
  rw [x.args_eq]
  constructor
  · intro hkeys o ho arg harg
    have hne := hkeys ▸ x.keys_ne
    obtain ⟨before, word, ids, hargs, -, hbefore, hlength⟩ := streams_of_extractXREADKeys hne
    rw [hkeys] at hargs hlength
    -- The keys and as many IDs are at the end, so the words in front of them are the same.
    have hsame : x.name :: x.options.flatMap XReadOption.args = before := by
      refine (List.append_inj' hargs ?_).1
      simp only [List.length_cons, List.length_append, ← x.ids_length, hlength]
    refine hbefore arg (hsame ▸ List.mem_cons_of_mem _ ?_)
    exact List.mem_flatMap.mpr ⟨o, ho, List.mem_cons_of_mem _ harg⟩
  · intro hdata
    have hname : equalFold x.name (bytes "STREAMS") = false := by
      rw [equalFold_of_equalFold x.name_eq]
      rcases x.cmd_eq with hcmd | hcmd <;> rw [hcmd] <;> decide
    have hbefore : ∀ arg ∈ x.name :: x.options.flatMap XReadOption.args,
        equalFold arg (bytes "STREAMS") = false := by
      refine List.forall_mem_cons.mpr ⟨hname, fun arg harg => ?_⟩
      obtain ⟨o, ho, harg⟩ := List.mem_flatMap.mp harg
      rcases List.mem_cons.mp harg with rfl | harg
      · exact o.word_ne_streams
      · exact hdata o ho arg harg
    have hlength : (x.keys ++ x.ids).length = x.keys.length * 2 := by
      rw [List.length_append, ← x.ids_length, Nat.mul_two]
    rw [extractXREADKeys_append _ hbefore, extractXREADKeys, if_pos x.streams_eq, hlength,
      if_pos (Nat.mul_mod_left _ _), Nat.mul_div_left _ (by decide), List.take_left]

theorem isBlockingXREAD_iff : isBlockingXREAD x.req = true ↔
    x.Blocks ∨ ∃ arg ∈ x.data.dropLast, equalFold arg (bytes "BLOCK") = true := by
  have hids : x.keys ++ x.ids ≠ [] := by simp [x.keys_ne]
  have hstreams : equalFold x.streams (bytes "BLOCK") = false := by
    rw [equalFold_of_equalFold x.streams_eq]
    decide
  rw [isBlockingXREAD, if_neg fun hne => x.cmd_eq.elim hne.1 hne.2, x.args_eq, data,
    List.dropLast_append_of_ne_nil hids, List.cons_append, List.tail_cons,
    List.dropLast_append_of_ne_nil (List.cons_ne_nil _ _), List.dropLast_cons_of_ne_nil hids]
  simp only [List.any_append, List.any_cons, hstreams, Bool.false_or, Bool.or_eq_true,
    List.any_eq_true, List.mem_flatMap, List.mem_append, XReadOption.args, List.mem_cons, Blocks]
  constructor
  · rintro (⟨arg, ⟨o, ho, rfl | harg⟩, hblock⟩ | ⟨arg, harg, hblock⟩)
    · exact Or.inl ⟨o, ho, o.word_eq_block.mp hblock⟩
    · exact Or.inr ⟨arg, Or.inl ⟨o, ho, harg⟩, hblock⟩
    · exact Or.inr ⟨arg, Or.inr harg, hblock⟩
  · rintro (⟨o, ho, hblock⟩ | ⟨arg, ⟨o, ho, harg⟩ | harg, hblock⟩)
    · exact Or.inl ⟨o.word, ⟨o, ho, Or.inl rfl⟩, o.word_eq_block.mpr hblock⟩
    · exact Or.inl ⟨arg, ⟨o, ho, Or.inr harg⟩, hblock⟩
    · exact Or.inr ⟨arg, harg, hblock⟩

/-- The keys are the streams if and only if no argument of an option reads STREAMS. The request
is taken for a blocking one rightly if and only if it has the option, or no argument but the
last one reads BLOCK. -/
theorem xread_parsed_iff :
    (extractXREADKeys x.req.args = x.keys ↔
      ∀ o ∈ x.options, ∀ arg ∈ o.data, equalFold arg (bytes "STREAMS") = false) ∧
    ((isBlockingXREAD x.req = true ↔ x.Blocks) ↔
      x.Blocks ∨ ∀ arg ∈ x.data.dropLast, equalFold arg (bytes "BLOCK") = false) := by
  refine ⟨x.extractXREADKeys_eq_iff, ?_⟩
  rw [isBlockingXREAD_iff]
  by_cases hblocks : x.Blocks
  · simp [hblocks]
  · simp [hblocks]

end XReadRequest

/-- A group with the name of the keyword. -/
def groupNamedStreams : XReadRequest where
  req :=
    { args := ["XREADGROUP", "GROUP", "streams", "c", "STREAMS", "k", ">"].map bytes
      cmd := bytes "XREADGROUP" }
  name := bytes "XREADGROUP"
  options := [⟨.group, bytes "GROUP", [bytes "streams", bytes "c"], by decide, rfl⟩]
  streams := bytes "STREAMS"
  keys := [bytes "k"]
  ids := [bytes ">"]
  cmd_eq := Or.inr rfl
  name_eq := by decide
  streams_eq := by decide
  keys_ne := List.cons_ne_nil _ _
  ids_length := rfl
  args_eq := rfl

/-- A stream with the name of the option. -/
def streamNamedBlock : XReadRequest where
  req := { args := ["XREAD", "STREAMS", "block", "0"].map bytes, cmd := bytes "XREAD" }
  name := bytes "XREAD"
  options := []
  streams := bytes "STREAMS"
  keys := [bytes "block"]
  ids := [bytes "0"]
  cmd_eq := Or.inl rfl
  name_eq := by decide
  streams_eq := by decide
  keys_ne := List.cons_ne_nil _ _
  ids_length := rfl
  args_eq := rfl

/-- The consumer and the keyword are taken for streams, and a read of the stream `block` for a
blocking one. -/
theorem xread_misparsed :
    extractXREADKeys groupNamedStreams.req.args = [bytes "c", bytes "STREAMS"] ∧
      isBlockingXREAD streamNamedBlock.req = true ∧ ¬ streamNamedBlock.Blocks := by
  refine ⟨by decide, by decide, ?_⟩
  rintro ⟨o, ho, -⟩
  cases ho

end Pluster.Engine
