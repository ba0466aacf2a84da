import Pluster.Engine.Moves

/-!
# How often a command is sent

A WATCH or a blocking command is somewhere on its way to a dedicated connection, or was written
to one. Every step moves it, and only a redirection that its callback follows brings it back. So
it is sent once more at most than it was redirected.
-/

namespace Pluster.Engine

open Proto GoStrings GoRuntime

variable {cfg : Config} {g : Grant} {o : Option Req}

/-- The command is the request, as a WATCH or as a blocking command. -/
def WireCmd.sends (r : Req) : WireCmd → Bool
  | .watch req | .blocking req => req = r
  | _ => false

/-- The callback sends the request later. -/
def Callback.holds (r : Req) : Callback → Bool
  | .authThenBlocking req => req = r
  | _ => false

/-- The connection is dialled for the request. -/
def Dial.holds (r : Req) : Dial → Bool
  | .blocking _ req => req = r
  | _ => false

/-- One for the request itself. -/
def unit (r req : Req) : ℕ := if req = r then 1 else 0

namespace Backend

variable {r : Req}

/-- How often the request was written to a connection. -/
def sends (r : Req) (b : Backend) : ℕ := b.wire.countP (WireCmd.sends r)

/-- How often the request was written to a connection or waits for the reply to AUTH there. -/
def load (r : Req) (b : Backend) : ℕ := b.sends r + b.pending.countP (Callback.holds r)

theorem load_push (r : Req) (b : Backend) (cmd : WireCmd) (cb : Callback) :
    (b.push cmd cb).load r ≤
      b.load r + ((cmd.sends r).toNat + (cb.holds r).toNat) := by
  have hwire : (b.push cmd cb).sends r ≤ b.sends r + (cmd.sends r).toNat := by
    simp only [sends, push]
    split
    · omega
    rw [List.countP_append, List.countP_singleton]
    cases cmd.sends r <;> simp
  have hpending : (b.push cmd cb).pending.countP (Callback.holds r) =
      b.pending.countP (Callback.holds r) + (cb.holds r).toNat := by
    rw [push, List.countP_append, List.countP_singleton]
    cases cb.holds r <;> simp
  rw [load, load, hpending]
  omega

/-- A command that does not send the request. -/
theorem load_push_other (b : Backend) {cmd : WireCmd} {cb : Callback}
    (hcmd : cmd.sends r = false) (hcb : cb.holds r = false) :
    (b.push cmd cb).load r ≤ b.load r := by
  have hpush := load_push r b cmd cb
  simpa [hcmd, hcb] using hpush

theorem load_auth (b : Backend) (cfg : Config) : (b.auth cfg).load r ≤ b.load r := by
  unfold auth
  split
  · exact le_rfl
  · exact load_push_other b rfl rfl

theorem load_pushQueue (b : Backend) (queue : List Req) (slotIdx : ℕ) :
    (b.pushQueue queue slotIdx).load r ≤ b.load r := by
  unfold pushQueue
  refine (load_push_other _ rfl rfl).trans ?_
  induction queue generalizing b with
  | nil => exact le_rfl
  | cons req queue ih => exact (ih _).trans (load_push_other b rfl rfl)

theorem load_reuse (b : Backend) (req : Req) : (b.reuse req).load r ≤ b.load r + unit r req := by
  have hpush := load_push r { b with own := true, pending := [] } (.blocking req) (.blocking req)
  have hclear : ({ b with own := true, pending := [] } : Backend).load r ≤ b.load r := by
    simp [load, sends]
  have hunit : ((WireCmd.blocking req).sends r).toNat + ((Callback.blocking req).holds r).toNat =
      unit r req := by
    simp only [WireCmd.sends, Callback.holds, unit]
    by_cases hreq : req = r <;> simp [hreq]
  rw [reuse]
  omega

end Backend

namespace Session

variable {r : Req} {k k' : ℕ} {s t u next : Session} {c : ℕ} {b b' : Backend}

/-- How often the request was written to the connections. -/
def sends (s : Session) (r : Req) : ℕ :=
  ∑ c ∈ Finset.range s.nextConn, (s.conns c).elim 0 (Backend.sends r)

/-- The request on the first connections. -/
def load (r : Req) (n : ℕ) (s : Session) : ℕ :=
  ∑ c ∈ Finset.range n, (s.conns c).elim 0 (Backend.load r)

/-- The request where it waits for a connection. -/
def underway (r : Req) (s : Session) : ℕ :=
  s.dials.countP (Dial.holds r) + (if s.pendingWatchReq = some r then 1 else 0) + s.waiting.count r

/-- Between two states the request comes up at most `k` times more. -/
structure Flows (r : Req) (k : ℕ) (s next : Session) : Prop where
  arrived : next.arrived = s.arrived
  load : ∀ n, next.load r n + next.underway r ≤ s.load r n + s.underway r + k

/-- The fields that matter, but for the requests that wait. -/
def flowPart (s : Session) : (ℕ → Option Backend) × List Dial × Option Req × ℕ :=
  (s.conns, s.dials, s.pendingWatchReq, s.arrived)

namespace Flows

theorem trans (h : Flows r k s t) (h' : Flows r k' t u) : Flows r (k + k') s u where
  arrived := h'.arrived.trans h.arrived
  load n := by
    have hfirst := h.load n
    have hsecond := h'.load n
    omega

theorem mono (h : Flows r k s next) (hle : k ≤ k') : Flows r k' s next :=
  ⟨h.arrived, fun n => (h.load n).trans (Nat.add_le_add_left hle _)⟩

theorem same (hsame : next.flowPart = s.flowPart)
    (hwaiting : next.waiting.count r ≤ s.waiting.count r + k) : Flows r k s next := by
  simp only [flowPart, Prod.mk.injEq] at hsame
  obtain ⟨hconns, hdials, hwatch, harrived⟩ := hsame
  refine ⟨harrived, fun n => ?_⟩
  rw [Session.load, Session.load, underway, underway, hconns, hdials, hwatch]
  omega

end Flows

/-- The first connections after one of them changed. -/
theorem load_setConn (n : ℕ) (hload : b'.load r ≤ (s.conns c).elim 0 (Backend.load r) + k) :
    (s.setConn c b').load r n ≤ s.load r n + k := by
  have hother : ∀ d, d ≠ c → (s.setConn c b').conns d = s.conns d := fun d hd =>
    setConn_of_ne s b' hd
  by_cases hc : c ∈ Finset.range n
  · rw [load, load, ← Finset.add_sum_erase _ _ hc, ← Finset.add_sum_erase _ _ hc, setConn_self]
    have hrest : ∑ d ∈ (Finset.range n).erase c,
          ((s.setConn c b').conns d).elim 0 (Backend.load r) =
        ∑ d ∈ (Finset.range n).erase c, (s.conns d).elim 0 (Backend.load r) := by
      refine Finset.sum_congr rfl fun d hd => ?_
      rw [hother d (Finset.ne_of_mem_erase hd)]
    rw [hrest]
    simp only [Option.elim_some]
    omega
  · have hrest : (s.setConn c b').load r n = s.load r n := by
      refine Finset.sum_congr rfl fun d hd => ?_
      rw [hother d fun heq => hc (heq ▸ hd)]
    omega

theorem unit_sends (r req : Req) :
    ((WireCmd.watch req).sends r).toNat = unit r req ∧
      ((WireCmd.blocking req).sends r).toNat = unit r req := by
  simp only [WireCmd.sends, unit]
  by_cases hreq : req = r <;> simp [hreq]

theorem unit_holds (r req : Req) (addr : Bytes) :
    ((Callback.authThenBlocking req).holds r).toNat = unit r req ∧
      ((Dial.blocking addr req).holds r).toNat = unit r req := by
  simp only [Callback.holds, Dial.holds, unit]
  by_cases hreq : req = r <;> simp [hreq]

theorem load_watchConn (s : Session) (cfg : Config) :
    (s.watchConn cfg).load r ≤ if s.pendingWatchReq = some r then 1 else 0 := by
  have hauth : (({ kind := .watch, addr := s.watchAddr } : Backend).auth cfg).load r ≤ 0 :=
    Backend.load_auth _ cfg
  unfold watchConn
  cases hreq : s.pendingWatchReq with
  | none => exact hauth.trans (Nat.zero_le _)
  | some req =>
    have hpush := Backend.load_push r (({ kind := .watch, addr := s.watchAddr } : Backend).auth cfg)
      (.watch req) (.watchFirst req s.pendingWatchSlot)
    rw [(unit_sends r req).1, unit] at hpush
    simp only [Callback.holds, Option.some.injEq, Bool.toNat_false] at hpush ⊢
    omega

theorem load_blockingConn (cfg : Config) (addr : Bytes) (req : Req) :
    (blockingConn cfg addr req).load r ≤ unit r req := by
  have hnew : ({ kind := .blocking, addr } : Backend).load r = 0 := rfl
  unfold blockingConn
  simp only
  split
  · have hpush := Backend.load_push r { kind := .blocking, addr } (.blocking req) (.blocking req)
    simpa [(unit_sends r req).2, Callback.holds, hnew] using hpush
  have hpush := Backend.load_push r { kind := .blocking, addr } .auth (.authThenBlocking req)
  simpa [(unit_holds r req addr).1, WireCmd.sends, hnew] using hpush

/-- What one connection and the requests on the way to one have of the request. -/
theorem flows_of_load (held : ℕ) (harrived : next.arrived = s.arrived)
    (hconns : next.conns = Function.update s.conns c (some b'))
    (hload : b'.load r ≤ (s.conns c).elim 0 (Backend.load r) + held)
    (hunderway : next.underway r + held ≤ s.underway r + k) : Flows r k s next := by
  refine ⟨harrived, fun n => ?_⟩
  have hn : (s.setConn c b').load r n ≤ s.load r n + held := load_setConn n hload
  have hsame : next.load r n = (s.setConn c b').load r n := by
    simp only [Session.load, hconns, Session.setConn]
  omega

/-- The load of a connection after a move. -/
theorem flows_setConn (hc : s.conns c = some b) (harrived : next.arrived = s.arrived)
    (hconns : next.conns = Function.update s.conns c (some b'))
    (hunderway : next.underway r = s.underway r) (hload : b'.load r ≤ b.load r + k) :
    Flows r k s next :=
  flows_of_load k harrived hconns (by rwa [hc]) (by omega)

theorem flows_move (hmove : Move cfg g s o next) : Flows r (o.elim 0 (unit r)) s next := by
  cases hmove with
  | same hlink hwaiting harrived =>
    simp only [linkPart, connPart, Prod.mk.injEq] at hlink
    obtain ⟨⟨hconns, -⟩, hdials, hwatch⟩ := hlink
    exact .same (by simp only [flowPart, hconns, hdials, hwatch, harrived]) (by simp [hwaiting])
  | buffer req =>
    refine .same rfl ?_
    simp only [waiting, List.count_append, List.count_singleton, Option.elim_some, unit, beq_iff_eq]
    omega
  | unbuffer => exact .same rfl (by simp [waiting])
  | forget _ _ _ | shrink addr => exact .same rfl le_rfl
  | @close c b b' hc _ hlast =>
    refine flows_setConn hc rfl rfl rfl ?_
    cases hlast with
    | same => exact le_rfl
    | unwatch _ => exact Backend.load_push_other b rfl rfl
    | pop hpending =>
      simp only [Backend.load, Backend.sends, hpending, List.countP_cons]
      omega
  | watch _ hc req slotIdx =>
    refine flows_setConn hc rfl rfl rfl ((Backend.load_push r _ _ _).trans ?_)
    rw [(unit_sends r req).1]
    exact le_rfl
  | execWatched _ hc _ _ | execReuse _ hc _ _ _ =>
    exact flows_setConn hc rfl rfl rfl (Backend.load_push_other _ rfl rfl)
  | pop hc _ hpending _ =>
    refine flows_setConn hc rfl rfl rfl ?_
    simp only [Backend.load, Backend.sends, hpending, List.countP_cons]
    omega
  | sendQueue hc _ hpending =>
    refine flows_setConn hc rfl rfl rfl ((Backend.load_pushQueue _ _ _).trans ?_)
    simp only [Backend.load, Backend.sends, hpending, List.countP_cons]
    omega
  | @sendBlocking c b req rest hc _ hpending =>
    -- The request moves from the callback to the wire.
    refine flows_setConn hc rfl rfl rfl ((Backend.load_push r _ _ _).trans ?_)
    have hheld := (unit_holds r req []).1
    rw [(unit_sends r req).2, ← hheld]
    simp only [Backend.load, Backend.sends, hpending, List.countP_cons, Callback.holds]
    by_cases hreq : req = r <;> simp [hreq, Nat.add_assoc]
  | release hc _ hpending =>
    refine flows_setConn hc rfl rfl rfl ?_
    simp [Backend.load, Backend.sends]
  | noteWatch req =>
    refine ⟨rfl, fun n => ?_⟩
    have hload : ({ s with pendingWatchReq := some req } : Session).load r n = s.load r n := rfl
    rw [hload]
    simp only [underway, waiting, Option.some.injEq, Option.elim_some, unit]
    omega
  | dialWatch addr => exact ⟨rfl, fun n => by simp [underway, waiting, Dial.holds, Session.load]⟩
  | dialMulti addr _ slotIdx =>
    exact ⟨rfl, fun n => by simp [underway, waiting, Dial.holds, Session.load]⟩
  | dialBlocking addr req =>
    refine ⟨rfl, fun n => ?_⟩
    have hload : ({ s with dials := s.dials ++ [.blocking addr req] } : Session).load r n =
        s.load r n := rfl
    rw [hload]
    simp only [underway, waiting, List.countP_append, List.countP_singleton, Dial.holds, unit,
      Option.elim_some, decide_eq_true_eq]
    omega
  | dialFailed i =>
    have hcount : (s.dials.eraseIdx i).countP (Dial.holds r) ≤ s.dials.countP (Dial.holds r) :=
      (List.eraseIdx_sublist s.dials i).countP_le
    refine ⟨rfl, fun n => ?_⟩
    have hload : ({ s with dials := s.dials.eraseIdx i } : Session).load r n = s.load r n := rfl
    rw [hload]
    simp only [underway, waiting]
    omega
  | @reuse c b addr _ hc req => exact flows_setConn hc rfl rfl rfl (b.load_reuse req)
  | lose _ _ hc => exact flows_setConn hc rfl rfl rfl le_rfl
  | adopt addr _ =>
    exact flows_of_load 0 rfl rfl (by simp [Backend.load, Backend.sends]) le_rfl
  | @openWatch i addr hd =>
    refine flows_of_load _ rfl rfl ((load_watchConn s cfg).trans (Nat.le_add_left _ _)) ?_
    have hcount := countP_eraseIdx (p := Dial.holds r) hd
    simp only [underway, waiting, setConn, hcount, reduceCtorEq, if_false]
    omega
  | @openMulti i addr queue slotIdx hd =>
    refine flows_of_load 0 rfl rfl (by simp [Backend.load, Backend.sends]) ?_
    have hcount := countP_eraseIdx (p := Dial.holds r) hd
    change (s.dials.eraseIdx i).countP (Dial.holds r) +
      (if s.pendingWatchReq = some r then 1 else 0) + s.waiting.count r + 0 ≤ s.underway r + 0
    rw [underway, hcount]
    omega
  | @openBlocking i addr req hd =>
    refine flows_of_load _ rfl rfl ((load_blockingConn cfg addr req).trans (Nat.le_add_left _ _)) ?_
    have hcount := countP_eraseIdx (p := Dial.holds r) hd
    rw [(unit_holds r req addr).2] at hcount
    change (s.dials.eraseIdx i).countP (Dial.holds r) +
      (if s.pendingWatchReq = some r then 1 else 0) + s.waiting.count r + unit r req ≤
        s.underway r + 0
    rw [underway, hcount]
    omega
  | startMulti _ hc =>
    exact flows_setConn hc rfl rfl rfl
      ((Backend.load_push_other _ rfl rfl).trans (Backend.load_auth _ cfg))

theorem flows_moves (hmoves : Moves cfg g o s next) : Flows r (o.elim 0 (unit r)) s next := by
  induction hmoves with
  | refl s => exact .same rfl le_rfl
  | tail _ hmove ih => exact ih.trans (flows_move hmove)
  | take _ hmove ih => exact (ih.trans (flows_move hmove)).mono (by simp)
  | weaken _ ih => exact ih.mono (Nat.zero_le _)

/-- A request was sent, or is on its way, once more than it was redirected at most. -/
def SentOnce (moved : Req → ℕ) (s : Session) : Prop :=
  ∀ r n, s.load r n + s.underway r ≤ (if r.id < s.arrived then 1 else 0) + moved r

namespace SentOnce

variable {moved moved' : Req → ℕ} {cfg : Config} {env : Env} {req : Req}

theorem flows {k : Req → ℕ} (h : SentOnce moved s) (hflows : ∀ r, Flows r (k r) s next)
    (hmoved : ∀ r, moved r + k r ≤ moved' r) : SentOnce moved' next := by
  intro r n
  have hbefore := h r n
  have hstep := (hflows r).load n
  have hsum := hmoved r
  rw [(hflows r).arrived]
  omega

theorem mono (h : SentOnce moved s) (hmoved : ∀ r, moved r ≤ moved' r) : SentOnce moved' s :=
  fun r n => (h r n).trans (Nat.add_le_add_left (hmoved r) _)

/-- The dispatch of a request that has just arrived, or that was buffered. -/
theorem dispatch {e : SessionEvent} (h : SentOnce moved s) (hconn : t.ConnInv)
    (hsome : s.dispatched e = some (t, env, req)) : SentOnce moved (t.dispatch cfg env req) := by
  -- The session that serves the request has room for it.
  have hroom : ∀ r n, t.load r n + t.underway r + unit r req ≤
      (if r.id < t.arrived then 1 else 0) + moved r := by
    intro r n
    have hbefore := h r n
    unfold dispatched at hsome
    split at hsome
    · cases hsome
    split at hsome
    · rename_i body hdraining
      cases hsome
      change s.load r n + s.underway r + unit r ⟨s.arrived, body⟩ ≤
        (if r.id < s.arrived + 1 then 1 else 0) + moved r
      by_cases hr : (⟨s.arrived, body⟩ : Req) = r
      · subst hr
        rw [if_neg (Nat.lt_irrefl _)] at hbefore
        rw [unit, if_pos rfl, if_pos (Nat.lt_succ_self _)]
        omega
      · rw [unit, if_neg hr]
        split at hbefore <;> split <;> omega
    · rename_i rest hdraining
      cases hsome
      have hheld : s.underway r =
          ({ s with serving := req.id, draining := rest } : Session).underway r + unit r req := by
        simp only [underway, waiting, hdraining, List.count_append, List.count_cons, unit,
          beq_iff_eq]
        omega
      change s.load r n + _ + _ ≤ (if r.id < s.arrived then 1 else 0) + moved r
      omega
    · cases hsome
  intro r n
  have hflows : Flows r (unit r req) t (t.dispatch cfg env req) :=
    flows_moves (moves_dispatch hconn hsome)
  have hstep := hflows.load n
  have hserved := hroom r n
  rw [hflows.arrived]
  omega

theorem exec (h : SentOnce moved s) (hconn : s.ConnInv) (cfg : Config) (e : SessionEvent)
    (hmoved : ∀ r, moved r + (s.resent e).elim 0 (unit r) ≤ moved' r) :
    SentOnce moved' (s.exec cfg e) := by
  have hmono : ∀ r, moved r ≤ moved' r := fun r => le_trans (Nat.le_add_right _ _) (hmoved r)
  have hdispatch : ∀ {t env req}, s.dispatched e = some (t, env, req) →
      (t.dispatch cfg env req).ConnInv ∧ SentOnce moved (t.dispatch cfg env req) := by
    intro t env req hsome
    have ht : t.ConnInv := by
      obtain ⟨serving, arrived, draining, rfl⟩ := dispatched_served hsome
      exact hconn.congr rfl
    exact ⟨ht.moves (moves_dispatch ht hsome), h.dispatch ht hsome⟩
  have hclose : ∀ {t : Session}, t.ConnInv → SentOnce moved t →
      SentOnce moved' t.onClientClose := by
    intro t ht hsent
    have hmoves : Moves cfg (s.grant cfg e) none t t.onClientClose := moves_onClientClose ht
    exact hsent.flows (fun r => flows_moves hmoves) hmono
  by_cases hdead : s.dead = true
  · rw [exec_of_dead hdead]
    exact h.mono hmono
  have heffect := effect_exec cfg s e
  generalize s.exec cfg e = next at heffect
  cases heffect with
  | none hnone => exact h.mono hmono
  | dispatch hsome hquits => exact (hdispatch hsome).2.mono hmono
  | quit hsome hquits =>
    obtain ⟨ht, hsent⟩ := hdispatch hsome
    exact hclose ht hsent
  | stop hsome hquits =>
    refine (hdispatch hsome).2.flows (k := fun _ => 0) (fun r => .same rfl ?_) hmono
    simp [waiting]
  | @protocolError err hnone he hdraining =>
    refine hclose (hconn.congr rfl) fun r n => ?_
    have hbefore := h r n
    change s.load r n + s.underway r ≤ (if r.id < s.arrived + 1 then 1 else 0) + moved r
    split at hbefore <;> split <;> omega
  | other hnone he hdraining =>
    have hmoves : Moves cfg (s.grant cfg e) (s.resent e) s (s.onEvent cfg e) :=
      moves_onEvent hconn he (by simpa using hdead) hdraining
    exact h.flows (fun r => flows_moves hmoves) hmoved

theorem new (cfg : Config) (policy : GrowthPolicy) :
    SentOnce (fun _ => 0) (Session.new cfg policy) := by
  intro r n
  have hload : (Session.new cfg policy).load r n = 0 := by
    simp [load, Session.new]
  have hheld : (Session.new cfg policy).underway r = 0 := by
    simp [underway, waiting, Session.new]
  omega

/-- A request was sent again as often as it was redirected at most. -/
theorem sends_le (h : SentOnce moved s) (r : Req) : s.sends r ≤ moved r + 1 := by
  have hload : s.sends r ≤ s.load r s.nextConn := by
    refine Finset.sum_le_sum fun c _ => ?_
    cases s.conns c with
    | none => exact le_rfl
    | some b => exact Nat.le_add_right _ _
  have hbound := h r s.nextConn
  split at hbound <;> omega

end SentOnce

end Session

end Pluster.Engine
