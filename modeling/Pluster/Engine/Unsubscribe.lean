import Pluster.Engine.Publish

/-!
# Unsubscriptions

The hub forwards UNSUBSCRIBE and PUNSUBSCRIBE of a client to the connection that all clients
share. The other clients keep what they hear exactly if none of them needs a subscription of
the connection that the request ends.
-/

namespace Pluster.Engine

open Proto GoStrings GoRuntime

variable {channel payload : Bytes} {other : ℕ}

section Hears

variable (redisMatch globMatch : Bytes → Bytes → Bool)

/-- The other clients hear after a step what they heard before: the messages on the channels
and those for the patterns that they subscribed to. -/
def Undisturbed (client : ℕ) (hub next : PubsubHub) : Prop :=
  ∀ other ≠ client, ∀ channel payload,
    (0 < copies (next.published redisMatch globMatch channel payload) other
        (HubMsg.isMessage channel payload) ↔
      0 < copies (hub.published redisMatch globMatch channel payload) other
        (HubMsg.isMessage channel payload)) ∧
    ∀ pattern,
      (0 < copies (next.published redisMatch globMatch channel payload) other
          (HubMsg.isPMessage pattern channel payload) ↔
        0 < copies (hub.published redisMatch globMatch channel payload) other
          (HubMsg.isPMessage pattern channel payload))

/-- No other client needs what a command ends: its channel, or the last message that the
connection receives for a channel that one of its patterns matches. -/
structure Spares (client : ℕ) (hub : PubsubHub) (command : List Bytes) : Prop where
  channels : ∀ other ≠ client, ∀ channel, ⟨other, channel, false⟩ ∈ hub.subs →
    channel ∈ hub.subscribed.channels → channel ∈ (hub.subscribed.command command).channels
  patterns : ∀ other ≠ client, ∀ pattern channel, ⟨other, pattern, true⟩ ∈ hub.subs →
    globMatch pattern channel = true → 0 < hub.subscribed.frameCount redisMatch channel →
      0 < (hub.subscribed.command command).frameCount redisMatch channel

theorem removeNames_sublist (l names : List Bytes) : (removeNames l names).Sublist l := by
  unfold removeNames
  split
  · exact List.nil_sublist l
  · exact List.filter_sublist

/-- An unsubscription only ends subscriptions of the connection. -/
theorem Subscribed.command_sublist (r : Subscribed) {req : SubRequest}
    (hadds : req.op.adds = false) :
    (r.command req.request.args).channels.Sublist r.channels ∧
      (r.command req.request.args).patterns.Sublist r.patterns := by
  have hcommand : r.command req.request.args =
      if req.op.isGlob then { r with patterns := removeNames r.patterns req.names }
      else { r with channels := removeNames r.channels req.names } := by
    simp only [Subscribed.command, SubRequest.request, req.upper]
    cases hop : req.op with
    | subscribe | psubscribe =>
      rw [hop] at hadds
      cases hadds
    | unsubscribe | punsubscribe => rfl
  rw [hcommand]
  split
  · exact ⟨.refl _, removeNames_sublist _ _⟩
  · exact ⟨removeNames_sublist _ _, .refl _⟩

variable {redisMatch globMatch}

theorem Subscribed.frameCount_le {r r' : Subscribed} (hchannels : r'.channels.Sublist r.channels)
    (hpatterns : r'.patterns.Sublist r.patterns) (channel : Bytes) :
    r'.frameCount redisMatch channel ≤ r.frameCount redisMatch channel := by
  apply Nat.add_le_add
  · by_cases hmem : channel ∈ r'.channels
    · rw [if_pos hmem, if_pos (hchannels.subset hmem)]
    rw [if_neg hmem]
    exact Nat.zero_le _
  · exact (hpatterns.filter _).length_le

variable {hub : PubsubHub} {client : ℕ} {req : SubRequest}

theorem subscribed_unsubscribe (hconnected : hub.connected = true) :
    (hub.unsubscribe client req.request).subscribed =
      hub.subscribed.command req.request.args := by
  rw [PubsubHub.subscribed, PubsubHub.wire_unsubscribe hconnected, List.foldl_concat]
  rfl

theorem hears_channel_iff (h : hub.Consistent) :
    0 < copies (hub.published redisMatch globMatch channel payload) other
        (HubMsg.isMessage channel payload) ↔
      ⟨other, channel, false⟩ ∈ hub.subs ∧ channel ∈ hub.subscribed.channels := by
  rw [copies_message redisMatch globMatch h]
  split <;> simp_all

theorem hears_pattern_iff (h : hub.Consistent) {pattern : Bytes} :
    0 < copies (hub.published redisMatch globMatch channel payload) other
        (HubMsg.isPMessage pattern channel payload) ↔
      ⟨other, pattern, true⟩ ∈ hub.subs ∧ globMatch pattern channel = true ∧
        0 < hub.subscribed.frameCount redisMatch channel := by
  rw [copies_pmessage redisMatch globMatch h, ← and_assoc]
  split <;> simp_all

theorem undisturbed_iff (h : hub.Consistent) (hconnected : hub.connected = true)
    (hadds : req.op.adds = false) :
    Undisturbed redisMatch globMatch client hub (hub.unsubscribe client req.request) ↔
      Spares redisMatch globMatch client hub req.request.args := by
  have hnext := h.unsubscribe client req.request
  have hentry : ∀ (e : SubEntry), e.client ≠ client →
      (e ∈ (hub.unsubscribe client req.request).subs ↔ e ∈ hub.subs) := by
    intro e he
    rw [PubsubHub.mem_unsubscribe h]
    exact and_iff_left fun hclient => absurd hclient he
  obtain ⟨hchannels, hpatterns⟩ := hub.subscribed.command_sublist hadds
  unfold Undisturbed
  simp only [hears_channel_iff h, hears_channel_iff hnext, hears_pattern_iff h,
    hears_pattern_iff hnext, subscribed_unsubscribe hconnected]
  constructor
  · intro hundisturbed
    constructor
    · intro other hother channel hmem hchannel
      exact ((hundisturbed other hother channel []).1.mpr ⟨hmem, hchannel⟩).2
    intro other hother pattern channel hmem hmatch hframes
    exact (((hundisturbed other hother channel []).2 pattern).mpr ⟨hmem, hmatch, hframes⟩).2.2
  · intro hspares other hother channel payload
    rw [hentry ⟨other, channel, false⟩ hother]
    constructor
    · constructor
      · rintro ⟨hmem, hchannel⟩
        exact ⟨hmem, hchannels.subset hchannel⟩
      rintro ⟨hmem, hchannel⟩
      exact ⟨hmem, hspares.channels other hother channel hmem hchannel⟩
    · intro pattern
      rw [hentry ⟨other, pattern, true⟩ hother]
      constructor
      · rintro ⟨hmem, hmatch, hframes⟩
        exact ⟨hmem, hmatch,
          hframes.trans_le (Subscribed.frameCount_le hchannels hpatterns channel)⟩
      rintro ⟨hmem, hmatch, hframes⟩
      exact ⟨hmem, hmatch, hspares.patterns other hother pattern channel hmem hmatch hframes⟩

end Hears

/-- After every history of a hub that is connected: an unsubscription of one client leaves
what the other clients hear exactly if none of them needs what it ends at the connection. -/
theorem unsubscribe_undisturbed_iff (redisMatch globMatch : Bytes → Bytes → Bool) (cfg : Config)
    (events : List HubEvent) (client : ℕ) (req : SubRequest) (hadds : req.op.adds = false)
    (hconnected : (Runs.run (PubsubHub.exec cfg globMatch) {} events).connected = true) :
    let hub := Runs.run (PubsubHub.exec cfg globMatch) {} events
    Undisturbed redisMatch globMatch client hub (hub.unsubscribe client req.request) ↔
      Spares redisMatch globMatch client hub req.request.args := by
  intro hub
  have hconsistent : hub.Consistent :=
    Runs.run_invariant (fun _ e h => h.exec cfg globMatch e)
      ⟨List.nodup_nil, fun e he => nomatch he⟩ events
  exact undisturbed_iff hconsistent hconnected hadds

/-- Two clients subscribe to one channel. -/
def sharedHistory : List HubEvent :=
  [.request (.oneNode (bytes "n:1")) 1 (SubOp.subscribe.on [bytes "a"]), .opened,
    .request (.oneNode (bytes "n:1")) 2 (SubOp.subscribe.on [bytes "a"])]

/-- The unsubscription of one of them ends the messages for the other one. -/
theorem unsubscribe_disturbs :
    let hub := Runs.run (PubsubHub.exec {} starMatch) {} sharedHistory
    let next := hub.unsubscribe 1 (SubOp.unsubscribe.on [bytes "a"]).request
    hub.connected = true ∧ ⟨2, bytes "a", false⟩ ∈ next.subs ∧
      copies (hub.published starMatch starMatch (bytes "a") (bytes "x")) 2
        (HubMsg.isMessage (bytes "a") (bytes "x")) = 1 ∧
      copies (next.published starMatch starMatch (bytes "a") (bytes "x")) 2
        (HubMsg.isMessage (bytes "a") (bytes "x")) = 0 := by
  decide +kernel

theorem unsubscribe_undisturbed_iff_other_name :
    let hub := Runs.run (PubsubHub.exec {} starMatch) {} sharedHistory
    Undisturbed starMatch starMatch 1 hub
      (hub.unsubscribe 1 (SubOp.unsubscribe.on [bytes "b"]).request) := by
  apply (unsubscribe_undisturbed_iff starMatch starMatch {} sharedHistory 1
    (SubOp.unsubscribe.on [bytes "b"]) rfl (by decide +kernel)).mpr
  have hsubs : (Runs.run (PubsubHub.exec {} starMatch) {} sharedHistory).subs =
      [⟨1, bytes "a", false⟩, ⟨2, bytes "a", false⟩] := by
    decide +kernel
  have hchannels : (Runs.run (PubsubHub.exec {} starMatch) {} sharedHistory).subscribed.channels =
      [bytes "a"] := by
    decide +kernel
  constructor
  · intro other _ channel _ hchannel
    rw [hchannels, List.mem_singleton] at hchannel
    rw [hchannel]
    decide +kernel
  · intro other _ pattern channel hentry
    rw [hsubs] at hentry
    simp at hentry

end Pluster.Engine
