import Pluster.Engine.Publish
import Pluster.Lib.Glob

/-!
# Patterns of subscriptions

Redis matches patterns byte by byte. `globMatch` is `filepath.Match`, which is made for paths:
`?` and `*` do not match `/`, and `?` matches a whole character.
-/

namespace Pluster.Engine

open Proto GoStrings

/-- What is assumed of `filepath.Match` on Unix, for patterns of literal bytes, `?` and `*`. -/
def IsFilepathMatch (globMatch : Bytes → Bytes → Bool) : Prop :=
  ∀ p, Glob.Plain p → ∀ name, globMatch p name = Glob.pathwise.accepts p name

namespace PubsubHub

/-- The patterns of the hub are made of literal bytes, `?` and `*`. -/
def PlainPatterns (hub : PubsubHub) : Prop := ∀ e ∈ hub.subs, e.isGlob = true → Glob.Plain e.pattern

theorem patternPushes_congr {hub : PubsubHub} {f g : Bytes → Bytes → Bool} {channel : Bytes}
    (h : ∀ e ∈ hub.subs, e.isGlob = true → f e.pattern channel = g e.pattern channel)
    (payload : Bytes) : hub.patternPushes f channel payload = hub.patternPushes g channel payload := by
  unfold patternPushes
  congr 1
  refine List.filter_congr fun e he => ?_
  cases hglob : e.isGlob with
  | false => rfl
  | true => exact h e he hglob

theorem pushes_message (hub : PubsubHub) (globMatch : Bytes → Bytes → Bool)
    (channel payload : Bytes) :
    hub.pushes globMatch (messageFrame channel payload) =
      hub.channelPushes channel (messageFrame channel payload) ++
        hub.patternPushes globMatch channel payload := rfl

/-- The hub matches a channel with all patterns as Redis does, and hands a message on it to the
same subscribers, if and only if the channel has no `/` and no character that is wider than one
byte. -/
theorem globMatch_agrees_iff {globMatch : Bytes → Bytes → Bool} (hglob : IsFilepathMatch globMatch)
    (channel : Bytes) :
    ((∀ p, Glob.Plain p → globMatch p channel = Glob.bytewise.accepts p channel) ↔
      47 ∉ channel ∧ Glob.SingleBytes channel) ∧
    ((∀ (hub : PubsubHub) (payload : Bytes), hub.PlainPatterns →
        hub.dispatchMessage globMatch (messageFrame channel payload) =
          hub.dispatchMessage Glob.bytewise.accepts (messageFrame channel payload)) ↔
      47 ∉ channel ∧ Glob.SingleBytes channel) := by
  have hagree : (∀ p, Glob.Plain p → globMatch p channel = Glob.bytewise.accepts p channel) ↔
      47 ∉ channel ∧ Glob.SingleBytes channel := by
    rw [← Glob.pathwise_eq_bytewise_iff]
    refine forall₂_congr fun p hp => ?_
    rw [hglob p hp]
  refine ⟨hagree, ?_⟩
  rw [← hagree]
  constructor
  · intro hhub p hp
    -- A hub with this pattern alone.
    have hpushes := congrArg pushed (hhub { subs := [⟨0, p, true⟩] } [] (by simp [PlainPatterns, hp]))
    simp only [dispatchMessage, List.nil_append, pushes_message, List.append_cancel_left_eq,
      patternPushes] at hpushes
    cases hg : globMatch p channel <;> cases hr : Glob.bytewise.accepts p channel <;>
      simp [hg, hr] at hpushes ⊢
  · intro hall hub payload hplain
    rw [dispatchMessage, dispatchMessage, pushes_message, pushes_message,
      patternPushes_congr fun e he hpattern => hall e.pattern (hplain e he hpattern)]

theorem globMatch_agrees_news :
    Glob.pathwise.accepts (bytes "news.*") (bytes "news.sport") =
      Glob.bytewise.accepts (bytes "news.*") (bytes "news.sport") :=
  (globMatch_agrees_iff (fun _ _ _ => rfl) (bytes "news.sport")).1.mpr (by decide) _ (by decide)

/-- A message on `news.a/b` does not come to a subscriber of `news.*`, and one on a channel of two
bytes comes to a subscriber of `?`. -/
theorem globMatch_disagrees :
    let hub : PubsubHub := { subs := [⟨0, bytes "news.*", true⟩, ⟨1, bytes "?", true⟩] }
    (hub.pushes Glob.pathwise.accepts (messageFrame (bytes "news.a/b") []) = [] ∧
      hub.pushes Glob.bytewise.accepts (messageFrame (bytes "news.a/b") []) =
        [(0, .pmessage (bytes "news.*") (bytes "news.a/b") [])]) ∧
    (hub.pushes Glob.pathwise.accepts (messageFrame [0xC3, 0xA6] []) =
        [(1, .pmessage (bytes "?") [0xC3, 0xA6] [])] ∧
      hub.pushes Glob.bytewise.accepts (messageFrame [0xC3, 0xA6] []) = []) := by
  refine ⟨⟨rfl, rfl⟩, rfl, rfl⟩

end PubsubHub

end Pluster.Engine
