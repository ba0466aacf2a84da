import Pluster.Engine.TxWire
import Pluster.Engine.Moves

/-!
# Transactions of a session

What holds of transactions on the connections of a session, and that every step keeps it,
as long as EXEC does not use a connection before the EXEC of the transaction before it was
written.
-/

namespace Pluster.Engine

open Proto GoStrings GoRuntime

variable {execs execs' : List Req → Prop} {b : Backend} {next : Session} {queue : List Req}
  {rest : List Callback} {slotIdx i : ℕ}

namespace Session

/-- A connection of a session, for the queues of the transactions executed. -/
structure WireOk (execs : List Req → Prop) (b : Backend) : Prop where
  wire : TxWire execs b.wire
  staged : b.isClosed = false → b.Staged execs

/-- What holds of transactions on the way to a node, for the queues of the transactions
executed. -/
structure WireInv (execs : List Req → Prop) (s : Session) : Prop where
  conns : ∀ c b, s.conns c = some b → b.kind ≠ .blocking → WireOk execs b
  watch : ∀ c b, s.watchBackend = some c → s.conns c = some b → b.Plain
  multi : ∀ c b, s.multiBackend = some c → s.conns c = some b →
    c ∈ s.starts.map Prod.fst ∨ b.Once execs
  starts : ∀ start ∈ s.starts, execs start.2.1 ∧
    ∀ b, s.conns start.1 = some b → b.isClosed = false → b.Fresh
  nodup : (s.starts.map Prod.fst).Nodup
  dials : ∀ addr queue slotIdx, Dial.multi addr queue slotIdx ∈ s.dials → execs queue

theorem WireOk.mono (h : WireOk execs b) (hsub : ∀ queue, execs queue → execs' queue) :
    WireOk execs' b :=
  ⟨h.wire.mono hsub, fun hopen => (h.staged hopen).mono hsub⟩

theorem wireOk_of_staged (h : b.Staged execs) : WireOk execs b :=
  ⟨h.txWire, fun _ => h⟩

theorem wireOk_of_plain (h : b.Plain) : WireOk execs b :=
  wireOk_of_staged (.plain h)

/-- The fields that transactions are about. -/
def wirePart (s : Session) : (ℕ → Option Backend) × Option ℕ × Option ℕ ×
    List (ℕ × List Req × ℕ) × List Dial :=
  (s.conns, s.watchBackend, s.multiBackend, s.starts, s.dials)

namespace WireInv

variable {execs : List Req → Prop} {s : Session} {c : ℕ} {b b' : Backend}

theorem mono (h : s.WireInv execs) (hsub : ∀ queue, execs queue → execs' queue) :
    s.WireInv execs' :=
  ⟨fun c b hc hkind => (h.conns c b hc hkind).mono hsub, h.watch,
    fun c b hmulti hc => (h.multi c b hmulti hc).imp_right fun honce => honce.mono hsub,
    fun start hstart => ⟨hsub _ (h.starts start hstart).1, (h.starts start hstart).2⟩, h.nodup,
    fun addr queue slotIdx hdial => hsub _ (h.dials addr queue slotIdx hdial)⟩

/-- A change of other fields. -/
theorem congr (h : s.WireInv execs) (hsame : next.wirePart = s.wirePart) : next.WireInv execs := by
  simp only [wirePart, Prod.mk.injEq] at hsame
  obtain ⟨hconns, hwatch, hmulti, hstarts, hdials⟩ := hsame
  refine ⟨?_, ?_, ?_, ?_, ?_, ?_⟩
  · rw [hconns]
    exact h.conns
  · rw [hwatch, hconns]
    exact h.watch
  · rw [hmulti, hconns, hstarts]
    exact h.multi
  · rw [hstarts, hconns]
    exact h.starts
  · rw [hstarts]
    exact h.nodup
  rw [hdials]
  exact h.dials

theorem link (h : s.WireInv execs) (hlink : next.linkPart = s.linkPart) : next.WireInv execs := by
  simp only [linkPart, connPart, Prod.mk.injEq] at hlink
  obtain ⟨⟨hconns, -, hwatch, hmulti, -, -, hstarts⟩, hdials, -⟩ := hlink
  exact h.congr (by simp only [wirePart, hconns, hwatch, hmulti, hstarts, hdials])

/-- One connection changes. -/
theorem setConn (h : s.WireInv execs) (hok : b'.kind ≠ .blocking → WireOk execs b')
    (hwatch : s.watchBackend = some c → b'.Plain)
    (hmulti : s.multiBackend = some c → c ∈ s.starts.map Prod.fst ∨ b'.Once execs)
    (hstarts : c ∈ s.starts.map Prod.fst → b'.isClosed = false → b'.Fresh) :
    (s.setConn c b').WireInv execs := by
  have hself : ∀ {b}, (s.setConn c b').conns c = some b → b' = b := fun hb =>
    Option.some.inj ((setConn_self s c b').symm.trans hb)
  have hother : ∀ {d b}, d ≠ c → (s.setConn c b').conns d = some b → s.conns d = some b :=
    fun hne hb => (setConn_of_ne s b' hne).symm.trans hb
  refine ⟨fun d b hd hkind => ?_, fun d b hd hb => ?_, fun d b hd hb => ?_,
    fun start hstart => ⟨(h.starts start hstart).1, fun b hb hopen => ?_⟩, h.nodup, h.dials⟩
  · by_cases hdc : d = c
    · subst hdc
      rw [← hself hd] at hkind ⊢
      exact hok hkind
    · exact h.conns d b (hother hdc hd) hkind
  · by_cases hdc : d = c
    · subst hdc
      rw [← hself hb]
      exact hwatch hd
    · exact h.watch d b hd (hother hdc hb)
  · by_cases hdc : d = c
    · subst hdc
      rw [← hself hb]
      exact hmulti hd
    · exact h.multi d b hd (hother hdc hb)
  · by_cases hdc : start.1 = c
    · rw [hdc] at hb
      rw [← hself hb] at hopen ⊢
      exact hstarts (hdc ▸ List.mem_map_of_mem hstart) hopen
    · exact (h.starts start hstart).2 b (hother hdc hb) hopen

/-- A connection of blocking commands changes. -/
theorem setBlocking (h : s.WireInv execs) (hconn : s.ConnInv) (hc : s.conns c = some b)
    (hkind : b.kind = .blocking) (b' : Backend) (hkind' : b'.kind = .blocking) :
    (s.setConn c b').WireInv execs := by
  obtain ⟨hwatch, hmulti, hstarts⟩ := hconn.ne_of_blocking hc hkind
  exact h.setConn (fun hne => absurd hkind' hne) (fun heq => absurd heq hwatch)
    (fun heq => absurd heq hmulti) fun hmem => absurd hmem hstarts

theorem forget (h : s.WireInv execs) {watch multi blocking : Option ℕ}
    (hwatch : watch = s.watchBackend ∨ watch = none)
    (hmulti : multi = s.multiBackend ∨ multi = none) :
    ({ s with watchBackend := watch, multiBackend := multi,
              blockingBackend := blocking } : Session).WireInv execs := by
  refine ⟨h.conns, fun c b hc hb => ?_, fun c b hc hb => ?_, h.starts, h.nodup, h.dials⟩
  · rcases hwatch with rfl | rfl
    · exact h.watch c b hc hb
    · cases hc
  rcases hmulti with rfl | rfl
  · exact h.multi c b hc hb
  · cases hc

/-- A connection is replaced by a closed one, which the client forgets. -/
theorem setClosed (h : s.WireInv execs) (hclosed : b'.isClosed = true)
    (hwire : b'.kind ≠ .blocking → TxWire execs b'.wire) :
    ((s.setConn c b').forgetConn c).WireInv execs := by
  have hforget : (s.forgetConn c).WireInv execs := by
    refine h.forget ?_ ?_
    · split
      · exact Or.inr rfl
      · exact Or.inl rfl
    split
    · exact Or.inr rfl
    · exact Or.inl rfl
  have hnot : ∀ {p : Prop}, b'.isClosed = false → p := fun hopen => by
    rw [hclosed] at hopen
    cases hopen
  refine hforget.setConn (fun hkind => ⟨hwire hkind, fun hopen => hnot hopen⟩) (fun heq => ?_)
    (fun heq => ?_) fun _ hopen => hnot hopen
  · simp only [Session.forgetConn] at heq
    split at heq
    · cases heq
    rename_i hne
    exact absurd heq hne
  · simp only [Session.forgetConn] at heq
    split at heq
    · cases heq
    rename_i hne
    exact absurd heq hne

/-- A dial that is not for a transaction, or for one of those executed. -/
theorem addDial (h : s.WireInv execs) {d : Dial}
    (hd : ∀ addr queue slotIdx, d = .multi addr queue slotIdx → execs queue) :
    ({ s with dials := s.dials ++ [d] } : Session).WireInv execs := by
  refine ⟨h.conns, h.watch, h.multi, h.starts, h.nodup, fun addr queue slotIdx hmem => ?_⟩
  rcases List.mem_append.mp hmem with hmem | hmem
  · exact h.dials addr queue slotIdx hmem
  · exact hd addr queue slotIdx (List.mem_singleton.mp hmem).symm

/-- A transaction starts on the connection that watches, which the client forgets. -/
theorem execWatched (h : s.WireInv execs) (hconn : s.ConnInv) (hwatch : s.watchBackend = some c)
    (hc : s.conns c = some b) (hqueue : execs queue) (slotIdx : ℕ) :
    ({ s.setConn c (b.push .multi (.multiStart queue slotIdx)) with watchBackend := none } :
      Session).WireInv execs := by
  have hlive := hconn.watch c hwatch
  obtain ⟨hmulti, hstarts⟩ := hconn.ne_of_watch hc (hlive.kind_eq hc)
  have hforget : ({ s with watchBackend := none } : Session).WireInv execs :=
    h.forget (Or.inr rfl) (Or.inl rfl)
  have hstart := (h.watch c b hwatch hc).start (hlive.isClosed_eq hc) hqueue slotIdx
  exact hforget.setConn (fun _ => wireOk_of_staged (.once hstart)) nofun
    (fun heq => absurd heq hmulti) fun hmem => absurd hmem hstarts

/-- A transaction starts on the connection of an earlier one, whose EXEC was written. -/
theorem execReuse (h : s.WireInv execs) (hconn : s.ConnInv) (hmulti : s.multiBackend = some c)
    (hc : s.conns c = some b) (hexec : .exec ∈ b.wire) (queue : List Req) (slotIdx : ℕ) :
    ({ s.setConn c (b.push .multi (.multiStart queue slotIdx)) with multiBackend := none } :
      Session).WireInv execs := by
  have hlive := hconn.multi c hmulti
  have hopen := hlive.isClosed_eq hc
  have hforget : ({ s with multiBackend := none } : Session).WireInv execs :=
    h.forget (Or.inl rfl) (Or.inr rfl)
  have hstarts : c ∉ s.starts.map Prod.fst := by
    intro hmem
    obtain ⟨start, hstart, rfl⟩ := List.mem_map.mp hmem
    rw [((h.starts start hstart).2 b hc hopen).1] at hexec
    cases hexec
  have honce : b.Once execs := (h.multi c b hmulti hc).resolve_left hstarts
  exact hforget.setConn (fun _ => wireOk_of_staged (honce.restart hopen hexec queue slotIdx))
    (fun heq => absurd heq (hconn.ne_of_multi hc (hlive.kind_eq hc))) nofun
    fun hmem => absurd hmem hstarts

/-- The reply to a command of no transaction. -/
theorem pop (h : s.WireInv execs) (hc : s.conns c = some b) {cb : Callback}
    (hpending : b.pending = cb :: rest) (hcb : cb.isTx = false) :
    (s.setConn c { b with pending := rest }).WireInv execs := by
  refine h.setConn (fun hkind => ?_) (fun heq => (h.watch c b heq hc).pop hpending) (fun heq => ?_)
    fun hmem hopen => ?_
  · have hok := h.conns c b hc hkind
    exact ⟨hok.wire, fun hopen => (hok.staged hopen).pop hpending hcb⟩
  · exact (h.multi c b heq hc).imp_right fun honce => honce.pop hpending hcb
  obtain ⟨start, hstart, rfl⟩ := List.mem_map.mp hmem
  have hnil := ((h.starts start hstart).2 b hc hopen).2
  rw [hpending] at hnil
  cases hnil

/-- A connection with a transaction is neither the watch connection nor one for which a
transaction waits. -/
theorem ne_of_tx (h : s.WireInv execs) (hc : s.conns c = some b) (hopen : b.isClosed = false)
    (hbusy : b.Busy) : s.watchBackend ≠ some c ∧ c ∉ s.starts.map Prod.fst := by
  refine ⟨fun heq => (h.watch c b heq hc).not_busy hbusy, fun hmem => ?_⟩
  obtain ⟨start, hstart, rfl⟩ := List.mem_map.mp hmem
  exact ((h.starts start hstart).2 b hc hopen).plain.not_busy hbusy

/-- The reply to MULTI: the commands of the transaction are sent. -/
theorem sendQueue (h : s.WireInv execs) (hconn : s.ConnInv) (hc : s.conns c = some b)
    (hopen : b.isClosed = false) (hpending : b.pending = .multiStart queue slotIdx :: rest) :
    (s.setConn c (({ b with pending := rest } : Backend).pushQueue queue slotIdx)).WireInv
      execs := by
  have hmem : .multiStart queue slotIdx ∈ b.pending := by simp [hpending]
  have hkind := kind_of_isTx ((hconn.ok c b hc).allows _ hmem) rfl
  have hsend := ((h.conns c b hc hkind).staged hopen).send hopen hpending
  obtain ⟨hwatch, hstarts⟩ := h.ne_of_tx hc hopen ⟨_, hmem, rfl⟩
  exact h.setConn (fun _ => wireOk_of_staged (.once hsend)) (fun heq => absurd heq hwatch)
    (fun _ => .inr hsend) fun hmem => absurd hmem hstarts

/-! ### Dials, tasks and other clients -/

/-- A new connection. -/
theorem openConn (h : s.WireInv execs) (hconn : s.ConnInv) (hplain : b.kind ≠ .blocking → b.Plain) :
    ({ s with nextConn := s.nextConn + 1 }.setConn s.nextConn b).WireInv execs := by
  obtain ⟨hwatch, hmulti, hstarts⟩ := hconn.ne_nextConn
  have hnext : ({ s with nextConn := s.nextConn + 1 } : Session).WireInv execs :=
    ⟨h.conns, h.watch, h.multi, h.starts, h.nodup, h.dials⟩
  exact hnext.setConn (fun hkind => wireOk_of_plain (hplain hkind)) (fun heq => absurd heq hwatch)
    (fun heq => absurd heq hmulti) fun hmem => absurd hmem hstarts

theorem openWatch (h : s.WireInv execs) (hconn : s.ConnInv) (cfg : Config) :
    ({ s.setConn s.nextConn (s.watchConn cfg) with
      nextConn := s.nextConn + 1, watchBackend := some s.nextConn } : Session).WireInv execs := by
  have hplain : (s.watchConn cfg).Plain := by
    have hauth := (Backend.fresh_new .watch s.watchAddr true).auth cfg
    simp only [watchConn]
    split
    · exact hauth
    · exact hauth.pushWatch _ rfl
  have hopen := h.openConn hconn fun _ => hplain
  refine ⟨hopen.conns, fun d b hd hb => ?_, hopen.multi, hopen.starts, hopen.nodup, hopen.dials⟩
  cases hd
  rwa [← Option.some.inj ((setConn_self s s.nextConn _).symm.trans hb)]

theorem openMulti (h : s.WireInv execs) (hconn : s.ConnInv) (addr : Bytes) (slotIdx : ℕ)
    (hqueue : execs queue) :
    ({ s.setConn s.nextConn { kind := .multi, addr } with
      nextConn := s.nextConn + 1, multiBackend := some s.nextConn,
      tasks := s.tasks ++ [.startMulti s.nextConn queue slotIdx] } : Session).WireInv execs := by
  let b : Backend := { kind := .multi, addr }
  have hfresh : b.Fresh := Backend.fresh_new _ _ _
  have hopen := h.openConn hconn (fun _ => hfresh.plain) (b := b)
  have hstarts : ({ s.setConn s.nextConn { kind := .multi, addr } with
      nextConn := s.nextConn + 1, multiBackend := some s.nextConn,
      tasks := s.tasks ++ [.startMulti s.nextConn queue slotIdx] } : Session).starts =
        s.starts ++ [(s.nextConn, queue, slotIdx)] := by
    simp [Session.starts]
  refine ⟨hopen.conns, hopen.watch, fun d b' hd hb' => ?_, fun start hstart => ?_, ?_, h.dials⟩
  · left
    cases hd
    rw [hstarts]
    simp
  · rw [hstarts] at hstart
    rcases List.mem_append.mp hstart with hstart | hstart
    · exact hopen.starts start hstart
    rw [List.mem_singleton.mp hstart]
    refine ⟨hqueue, fun b' hb' _ => ?_⟩
    rwa [← Option.some.inj ((setConn_self s s.nextConn b).symm.trans hb')]
  · rw [hstarts, List.map_append, List.map_singleton, List.nodup_append]
    refine ⟨h.nodup, List.nodup_singleton _, ?_⟩
    rintro d hd e he rfl
    have hdc : d = s.nextConn := List.mem_singleton.mp he
    exact hconn.ne_nextConn.2.2 (hdc ▸ hd)

/-- A dial ends. -/
theorem eraseDial (h : s.WireInv execs) (i : ℕ) :
    ({ s with dials := s.dials.eraseIdx i } : Session).WireInv execs :=
  { h with
    dials := fun addr queue slotIdx hmem =>
      h.dials addr queue slotIdx ((List.eraseIdx_sublist _ _).subset hmem) }

end WireInv

/-- The start of a transaction leaves the list of tasks, and was the only one of its
connection. -/
theorem starts_erase_start {s : Session} {c : ℕ}
    (ht : s.tasks[i]? = some (.startMulti c queue slotIdx))
    (hnodup : (s.starts.map Prod.fst).Nodup) :
    c ∉ ({ s with tasks := s.tasks.eraseIdx i } : Session).starts.map Prod.fst ∧
      ∀ d, d ≠ c → d ∈ s.starts.map Prod.fst →
        d ∈ ({ s with tasks := s.tasks.eraseIdx i } : Session).starts.map Prod.fst := by
  obtain ⟨hlt, hget⟩ := List.getElem?_eq_some_iff.mp ht
  have hsplit : s.tasks = s.tasks.take i ++ .startMulti c queue slotIdx :: s.tasks.drop (i + 1) := by
    rw [← hget, List.getElem_cons_drop, List.take_append_drop]
  have hstarts : s.starts.map Prod.fst =
      ({ s with tasks := s.tasks.take i } : Session).starts.map Prod.fst ++
        c :: ({ s with tasks := s.tasks.drop (i + 1) } : Session).starts.map Prod.fst := by
    conv_lhs => rw [Session.starts, hsplit, List.filterMap_append, List.map_append]
    rfl
  have herase : ({ s with tasks := s.tasks.eraseIdx i } : Session).starts.map Prod.fst =
      ({ s with tasks := s.tasks.take i } : Session).starts.map Prod.fst ++
        ({ s with tasks := s.tasks.drop (i + 1) } : Session).starts.map Prod.fst := by
    rw [Session.starts, List.eraseIdx_eq_take_drop_succ, List.filterMap_append, List.map_append]
    rfl
  rw [hstarts, List.nodup_middle, List.nodup_cons] at hnodup
  rw [herase]
  refine ⟨hnodup.1, fun d hne hd => ?_⟩
  rw [hstarts] at hd
  rcases List.mem_append.mp hd with hd | hd
  · exact List.mem_append_left _ hd
  · exact List.mem_append_right _ ((List.mem_cons.mp hd).resolve_left hne)

namespace WireInv

variable {execs : List Req → Prop} {s : Session} {c : ℕ} {b b' : Backend}

/-- The task that starts a transaction on its connection. -/
theorem startMulti (h : s.WireInv execs) (hconn : s.ConnInv)
    (ht : s.tasks[i]? = some (.startMulti c queue slotIdx)) (hc : s.conns c = some b)
    (cfg : Config) :
    ({ s.setConn c ((b.auth cfg).push .multi (.multiStart queue slotIdx)) with
      tasks := s.tasks.eraseIdx i } : Session).WireInv execs := by
  have hmem : (c, queue, slotIdx) ∈ s.starts := mem_starts.mpr (List.mem_of_getElem? ht)
  have hkind : b.kind = .multi := by
    obtain ⟨b', hb', hkind⟩ := hconn.starts _ hmem
    rwa [Option.some.inj (hc.symm.trans hb')]
  obtain ⟨hqueue, hfresh⟩ := h.starts _ hmem
  obtain ⟨hgone, hkept⟩ := starts_erase_start ht h.nodup
  have hsub : ({ s with tasks := s.tasks.eraseIdx i } : Session).starts.Sublist s.starts :=
    (List.eraseIdx_sublist s.tasks i).filterMap _
  have herase : ({ s with multiBackend := none, tasks := s.tasks.eraseIdx i } : Session).WireInv
      execs :=
    ⟨h.conns, h.watch, by simp, fun start hstart => h.starts start (hsub.subset hstart),
      h.nodup.sublist (hsub.map _), h.dials⟩
  have hstart : b.isClosed = false →
      ((b.auth cfg).push .multi (.multiStart queue slotIdx)).Once execs := fun hopen =>
    Backend.Plain.start ((hfresh b hc hopen).auth cfg) (by simpa using hopen) hqueue _
  have hok : WireOk execs ((b.auth cfg).push .multi (.multiStart queue slotIdx)) := by
    cases hclosed : b.isClosed with
    | false => exact wireOk_of_staged (.once (hstart hclosed))
    | true =>
      -- The writes are lost.
      have hwire : ((b.auth cfg).push .multi (.multiStart queue slotIdx)).wire = b.wire := by
        unfold Backend.auth
        split <;> simp [Backend.push, hclosed]
      refine ⟨by rw [hwire]; exact (h.conns c b hc (by simp [hkind])).wire, fun hopen => ?_⟩
      simp [hclosed] at hopen
  have hset := herase.setConn (fun _ => hok)
    (fun heq => absurd heq (hconn.ne_of_multi hc hkind)) (by simp) fun hmem => absurd hmem hgone
  refine ⟨hset.conns, hset.watch, fun d b₀ hd hb₀ => ?_, hset.starts, hset.nodup, hset.dials⟩
  by_cases hdc : d = c
  · -- The client refers to open connections only.
    subst hdc
    right
    rw [← Option.some.inj ((setConn_self s d _).symm.trans hb₀)]
    exact hstart ((hconn.multi d hd).isClosed_eq hc)
  · exact (h.multi d b₀ hd ((setConn_of_ne _ _ hdc).symm.trans hb₀)).imp_left (hkept d hdc)

/-- A move. A transaction that starts on the connection of an earlier one needs that the EXEC
of that one was written. -/
theorem move {cfg : Config} {g : Grant} {o : Option Req} (h : s.WireInv execs) (hconn : s.ConnInv)
    (hqueue : ∀ queue, g.queue queue → execs queue)
    (hreuse : ∀ c b, g.reuse s c → s.conns c = some b → .exec ∈ b.wire)
    (hmove : Move cfg g s o next) : next.WireInv execs := by
  cases hmove with
  | same hlink _ _ => exact h.link hlink
  | buffer req | unbuffer | noteWatch req | shrink addr => exact h.congr rfl
  | forget hwatch hmulti _ => exact h.forget hwatch hmulti
  | @close c b b' hc hopen hlast =>
    refine h.setClosed rfl fun hkind => ?_
    cases hlast with
    | same | pop hpending => exact (h.conns c b hc hkind).wire
    | unwatch hwatch =>
      exact .unwatched b.wire (h.watch c b hwatch hc).1 (by simp [Backend.push, hopen])
  | @watch c b hwatch hc req slotIdx =>
    have hplain : (b.push (.watch req) (.watchReuse slotIdx)).Plain :=
      (h.watch c b hwatch hc).pushWatch req rfl
    obtain ⟨hmulti, hstarts⟩ := hconn.ne_of_watch hc ((hconn.watch c hwatch).kind_eq hc)
    exact h.setConn (fun _ => wireOk_of_plain hplain) (fun _ => hplain)
      (fun heq => absurd heq hmulti) fun hmem => absurd hmem hstarts
  | execWatched hwatch hc hsent slotIdx =>
    exact h.execWatched hconn hwatch hc (hqueue _ hsent) slotIdx
  | execReuse hmulti hc _ hused slotIdx =>
    exact h.execReuse hconn hmulti hc (hreuse _ _ hused hc) _ slotIdx
  | pop hc _ hpending hcb => exact h.pop hc hpending hcb
  | sendQueue hc hlive hpending => exact h.sendQueue hconn hc hlive.1 hpending
  | sendBlocking hc _ hpending =>
    have hkind := (hconn.rest_nil hc hpending rfl).1
    exact h.setBlocking hconn hc hkind _ hkind
  | @release c b req hc _ hpending =>
    have hkind := (hconn.rest_nil hc hpending rfl).1
    exact (h.setBlocking hconn hc hkind { b with pending := [] } hkind).congr rfl
  | dialWatch addr | dialBlocking addr req => exact h.addDial (by simp)
  | dialMulti addr hsent slotIdx =>
    refine h.addDial fun addr' queue' slotIdx' heq => ?_
    cases heq
    exact hqueue _ hsent
  | dialFailed i => exact h.eraseDial i
  | @reuse c b addr hsome hc req =>
    have hkind := hconn.kind_of_taken hsome hc
    exact (h.setBlocking hconn hc hkind (b.reuse req) hkind).congr rfl
  | @lose c b addr _ hsome hc =>
    have hkind := hconn.kind_of_taken hsome hc
    exact (h.setBlocking hconn hc hkind { b with own := false } hkind).congr rfl
  | adopt addr _ => exact (h.openConn hconn fun hne => absurd rfl hne).congr rfl
  | openWatch hd => exact ((h.openWatch hconn cfg).eraseDial _).congr rfl
  | openMulti hd =>
    exact (h.openMulti hconn _ _ (h.dials _ _ _ (List.mem_of_getElem? hd))).eraseDial _
  | @openBlocking i addr req hd =>
    have hkind : (blockingConn cfg addr req).kind = .blocking := by
      simp only [blockingConn]
      split <;> rfl
    exact ((h.openConn hconn fun hne => absurd hkind hne).eraseDial i).congr rfl
  | startMulti ht hc => exact h.startMulti hconn ht hc cfg

end WireInv

theorem wireInv_new (execs : List Req → Prop) (cfg : Config) (policy : GrowthPolicy) :
    (new cfg policy).WireInv execs :=
  ⟨nofun, nofun, nofun, nofun, List.nodup_nil, nofun⟩

end Session

end Pluster.Engine
