import Pluster.Engine.PlanUnits
import Pluster.Engine.SessionRuns
import Pluster.Router.Replies
import Pluster.Router.Retry

/-!
# The replies that the proxy makes

A reply of the proxy is made by the handler of a request, by the function that merges the
replies to its sub-commands, by the router, or by a failure of a backend. Each is meant to be
one RESP value. Error lines that show a command name or a subcommand of the client are not,
if the client put a line feed there: its pipeline then reads the rest of the text as the
next reply.
-/

namespace Pluster.Engine

open Proto GoStrings GoRuntime KeyedOps

variable {data msg before text behind arg addr name sub opt action : Bytes}
  {results : List (Option Bytes)} {subs : List SubResponse} {args rest : List Bytes}

/-- The replies that `perform` makes for a plan, with those of a dial that fails at once. -/
def Plan.ownReplies (env : Env) (s : Session) (req : Request) : Plan → List Bytes
  | .reply data | .write data | .push data | .queueError data | .execError data => [data]
  | .replies _ data => data
  | .quit | .enterMulti _ | .unwatch | .discard => [okReply]
  | .reset => [encodeSimpleString (bytes "RESET")]
  | .queue => [encodeSimpleString (bytes "QUEUED")]
  | .execAbort =>
    [encodeError (bytes "EXECABORT Transaction discarded because of previous errors.")]
  | .execEmpty => [encodeValue (.array [])]
  | .unsubscribe =>
    Session.unsubscribeReplies req (s.hub.clientSubs.filter fun p => p ∉ req.args.tail).length
  | .watch addr | .blocking addr | .execDial addr =>
    (Session.dialError addr (env.dial addr)).toList.map encodeError
  | .buffer | .subscribe | .router | .mux _ | .fanOut _ _ | .execWatched _ | .execReuse _
  | .panic => []

/-- The error texts for backends that fail later; the argument is the address of the node or
the text of the failure. -/
def lateErrors (text : Bytes) : List Bytes :=
  [bytes "ERR backend connection failed: " ++ text,
    bytes "ERR blocking backend connection failed: " ++ text,
    bytes "ERR backend auth failed: " ++ text,
    bytes "ERR failed to start MULTI on backend",
    Session.blockingInterrupted,
    bytes "ERR cluster node disconnected: " ++ text,
    bytes "ERR pubsub backend connection lost; please re-subscribe", text]

/-- The function of the router that serves a request. -/
def routerPlan (masters : List Bytes) (rr : ℕ) (req : Request) : Option Router.Plan :=
  match Verb.of req with
  | .eval => Router.execScript masters rr req
  | .broadcast => some (Router.executeBroadcast masters req)
  | _ => some (Router.execute masters rr req)

/-- The replies that the proxy itself makes for a request. Sub-replies are well formed, and
the texts that come from the network have no line feed. -/
inductive OwnReply (cfg : Config) (env : Env) (s : Session) (req : Request) : Bytes → Prop
  | direct {data : Bytes} :
      data ∈ (dispatchClientRequest cfg env s req).ownReplies env s req →
      OwnReply cfg env s req data
  | merged {sends : List (Bytes × Request)} {mergeFunc : List SubResponse → Bytes}
      {subs : List SubResponse} :
      dispatchClientRequest cfg env s req = .fanOut sends mergeFunc →
      (∀ sub ∈ subs, SingleFrame sub.data ∧ Fits sub.data) →
      OwnReply cfg env s req (mergeFunc subs)
  | routed (masters : List Bytes) (rr : ℕ) (renv : Router.RouterEnv) {plan : Router.Plan} :
      dispatchClientRequest cfg env s req = .router → (∀ addr ∈ masters, 10 ∉ addr) →
      (∀ i, Router.SafeEnv (renv.job i)) → routerPlan masters rr req = some plan →
      OwnReply cfg env s req (Router.replyBytes (plan.result renv))
  | late {text msg : Bytes} : 10 ∉ text → msg ∈ lateErrors text →
      OwnReply cfg env s req (encodeError msg)

/-! ### Values with safe lines -/

/-- The bytes encode a value whose lines have no line feed. -/
def Sound (data : Bytes) : Prop := ∃ v : Value, v.LineSafe ∧ data = encodeValue v

namespace Sound

theorem singleFrame (h : Sound data) (hfits : Fits data) : SingleFrame data := by
  obtain ⟨v, hv, rfl⟩ := h
  exact hv.singleFrame hfits

theorem error (h : 10 ∉ msg) : Sound (encodeError msg) :=
  ⟨.error msg, by simpa only [Value.LineSafe] using h, by rw [encodeValue]⟩

theorem simpleString {str : Bytes} (h : 10 ∉ str) : Sound (encodeSimpleString str) :=
  ⟨.simpleString str, by simpa only [Value.LineSafe] using h, by rw [encodeValue]⟩

theorem bulkString (str : Bytes) : Sound (encodeBulkString str) :=
  ⟨.bulkString str, by simp only [Value.LineSafe], by rw [encodeValue]⟩

theorem integer {n : ℤ} (h : -2 ^ 63 ≤ n ∧ n < 2 ^ 63) : Sound (encodeInteger n) :=
  ⟨.integer n, by simpa only [Value.LineSafe] using h, by rw [encodeValue]⟩

theorem okReply : Sound okReply := simpleString (by decide)

end Sound

/-- A text between two fixed ones has a line feed exactly if the text has. -/
theorem lf_mem_between (hbefore : 10 ∉ before) (hbehind : 10 ∉ behind) :
    10 ∈ before ++ text ++ behind ↔ 10 ∈ text := by
  simp [hbefore, hbehind]

/-! ### Merged replies -/

/-- The slots of the reply to MGET hold values with safe lines. -/
theorem sound_mget_elems (h : ∀ r ∈ results, ∀ data, r = some data → Sound data) :
    ∃ vals : List Value, (∀ v ∈ vals, v.LineSafe) ∧ vals.length = results.length ∧
      encodeValues vals = results.flatMap fun r => r.getD nilBulkBytes := by
  induction results with
  | nil => exact ⟨[], by simp, rfl, by simp [encodeValues]⟩
  | cons r results ih =>
    obtain ⟨vals, hvals, hlength, hencode⟩ := ih fun r' hr' => h r' (List.mem_cons_of_mem _ hr')
    obtain ⟨v, hv, hr⟩ : ∃ v : Value, v.LineSafe ∧ r.getD nilBulkBytes = encodeValue v := by
      cases r with
      | none => exact ⟨.nilBulkString, by simp only [Value.LineSafe], by simp [encodeValue]⟩
      | some data => exact h _ (List.mem_cons_self ..) data rfl
    refine ⟨v :: vals, ?_, by simp [hlength], ?_⟩
    · intro v' hv'
      rcases List.mem_cons.mp hv' with rfl | hv'
      · exact hv
      · exact hvals v' hv'
    · rw [encodeValues, hencode, List.flatMap_cons, hr]

/-- The loop of the merge function of MGET keeps its slots, or ends with a sub-reply. -/
theorem mergeMGETLoop_spec {parts : List (SlotGroup × SubResponse)}
    (hparts : ∀ part ∈ parts, SingleFrame part.2.data ∧ Fits part.2.data)
    (h : ∀ r ∈ results, ∀ data, r = some data → Sound data) :
    (∀ data, mergeMGETLoop parts results = .error data → SingleFrame data) ∧
      ∀ out, mergeMGETLoop parts results = .ok out →
        out.length = results.length ∧ ∀ r ∈ out, ∀ data, r = some data → Sound data := by
  induction parts generalizing results with
  | nil =>
    constructor
    · exact fun data hdata => nomatch hdata
    rintro out ⟨⟩
    exact ⟨rfl, h⟩
  | cons part parts ih =>
    obtain ⟨sg, sub⟩ := part
    obtain ⟨hframe, hfits⟩ := hparts _ (List.mem_cons_self ..)
    have htail : ∀ part ∈ parts, SingleFrame part.2.data ∧ Fits part.2.data :=
      fun part hpart => hparts part (List.mem_cons_of_mem _ hpart)
    obtain ⟨v, hparse⟩ := hframe.2
    have hv := lineSafe_of_parseValue hfits.length_le hparse
    cases v with
    | error str =>
      simp only [mergeMGETLoop, hparse]
      constructor
      · rintro _ ⟨⟩
        exact hframe
      · exact fun out hout => nomatch hout
    | array elems =>
      simp only [mergeMGETLoop, hparse]
      rw [Value.LineSafe, allLineSafe_iff] at hv
      have hscattered : ∀ r ∈ scatter results
          (sg.indices.zip (elems.map fun v => some (encodeValue v))),
          ∀ data, r = some data → Sound data := by
        rintro r hr data rfl
        rcases mem_scatter hr with hold | ⟨pair, hpair, hdata⟩
        · exact h _ hold data rfl
        obtain ⟨v, hmem, hsome⟩ := List.mem_map.mp (List.of_mem_zip hpair).2
        rw [← hdata] at hsome
        cases hsome
        exact ⟨v, hv v hmem, rfl⟩
      obtain ⟨herror, hok⟩ := ih htail hscattered
      refine ⟨herror, fun out hout => ?_⟩
      obtain ⟨hlength, hsound⟩ := hok out hout
      rw [length_scatter] at hlength
      exact ⟨hlength, hsound⟩
    | _ =>
      simp only [mergeMGETLoop, hparse]
      exact ih htail h

theorem singleFrame_mergeMGET {groups : List SlotGroup} {totalKeys : ℕ}
    (hsubs : ∀ sub ∈ subs, SingleFrame sub.data ∧ Fits sub.data)
    (hfits : Fits (mergeMGET groups totalKeys subs)) :
    SingleFrame (mergeMGET groups totalKeys subs) := by
  have hparts : ∀ part ∈ groups.zip subs, SingleFrame part.2.data ∧ Fits part.2.data :=
    fun part hpart => hsubs part.2 (List.of_mem_zip hpart).2
  have hempty : ∀ r ∈ List.replicate totalKeys (none : Option Bytes), ∀ data, r = some data →
      Sound data := by
    rintro r hr data rfl
    cases List.eq_of_mem_replicate hr
  obtain ⟨herror, hok⟩ := mergeMGETLoop_spec hparts hempty
  revert hfits
  unfold mergeMGET
  cases hloop : mergeMGETLoop (groups.zip subs) (List.replicate totalKeys none) with
  | error data => exact fun _ => herror data hloop
  | ok results =>
    intro hfits
    obtain ⟨hlength, hsound⟩ := hok results hloop
    obtain ⟨vals, hvals, hcount, hencode⟩ := sound_mget_elems hsound
    apply Sound.singleFrame _ hfits
    refine ⟨.array vals, by rwa [Value.LineSafe, allLineSafe_iff], ?_⟩
    rw [List.length_replicate] at hlength
    rw [encodeValue, hencode, hcount, hlength]

theorem singleFrame_mergeMSET (hsubs : ∀ sub ∈ subs, SingleFrame sub.data ∧ Fits sub.data)
    (hfits : Fits (mergeMSET subs)) : SingleFrame (mergeMSET subs) := by
  induction subs with
  | nil => exact Sound.singleFrame (.simpleString (by decide)) hfits
  | cons sub subs ih =>
    obtain ⟨hframe, -⟩ := hsubs sub (List.mem_cons_self ..)
    obtain ⟨v, hparse⟩ := hframe.2
    have ih := ih fun sub' hsub' => hsubs sub' (List.mem_cons_of_mem _ hsub')
    cases v with
    | error str => simpa only [mergeMSET, hparse] using hframe
    | _ =>
      simp only [mergeMSET, hparse] at hfits ⊢
      exact ih hfits

theorem singleFrame_mergeCount {total : ℤ} (htotal : -2 ^ 63 ≤ total ∧ total < 2 ^ 63)
    (hsubs : ∀ sub ∈ subs, SingleFrame sub.data ∧ Fits sub.data)
    (hfits : Fits (mergeCount total subs)) : SingleFrame (mergeCount total subs) := by
  induction subs generalizing total with
  | nil => exact Sound.singleFrame (.integer htotal) hfits
  | cons sub subs ih =>
    obtain ⟨hframe, -⟩ := hsubs sub (List.mem_cons_self ..)
    obtain ⟨v, hparse⟩ := hframe.2
    have htail : ∀ sub ∈ subs, SingleFrame sub.data ∧ Fits sub.data :=
      fun sub' hsub' => hsubs sub' (List.mem_cons_of_mem _ hsub')
    cases v with
    | error str => simpa only [mergeCount, hparse] using hframe
    | integer n =>
      simp only [mergeCount, hparse] at hfits ⊢
      exact ih (wrap64_bounds _) htail hfits
    | _ =>
      simp only [mergeCount, hparse] at hfits ⊢
      exact ih htotal htail hfits

/-- A merge function makes a single frame of single frames. -/
theorem singleFrame_mergeFunc (cmd : MultiKeyCmd) (groups : List SlotGroup) (totalKeys : ℕ)
    (hsubs : ∀ sub ∈ subs, SingleFrame sub.data ∧ Fits sub.data)
    (hfits : Fits (mergeFunc cmd groups totalKeys subs)) :
    SingleFrame (mergeFunc cmd groups totalKeys subs) := by
  cases cmd with
  | mget => exact singleFrame_mergeMGET hsubs hfits
  | mset => exact singleFrame_mergeMSET hsubs hfits
  | _ => exact singleFrame_mergeCount (by decide) hsubs hfits

/-! ### The texts that a handler shows -/

/-- The option that PROXY CONFIG shows, for an action in upper case. -/
def configEchoed (action : Bytes) : List Bytes → List Bytes
  | [] => []
  | [opt] => if action = bytes "GET" then [opt] else []
  | opt :: _ :: _ => if action = bytes "GET" ∨ action = bytes "SET" then [opt] else []

/-- The arguments that PROXY shows after its subcommand, which is in upper case. -/
def proxyEchoed (sub : Bytes) : List Bytes → List Bytes
  | [] => []
  | action :: opts =>
    if sub = bytes "CONFIG" then action :: configEchoed (toUpper action) opts
    else if sub = bytes "MULTIPLEXING" then [action]
    else []

/-- The arguments after the name that the switch of `handleNormal` can put into an error
line. -/
def echoedArgs (req : Request) : List Bytes :=
  match Verb.of req, req.args.tail with
  | .cluster, sub :: _ | .client, sub :: _ => [sub]
  | .proxy, sub :: rest => sub :: proxyEchoed (toUpper sub) rest
  | _, _ => []

/-- The command name has no line feed where it is shown, in a transaction and in the normal
state, and neither do the arguments that the normal state shows. -/
def EchoesNoLF (s : Session) (req : Request) : Prop :=
  (s.InMulti ∨ s.ReachesSwitch req → 10 ∉ req.args.headD []) ∧
    (s.ReachesSwitch req → ∀ arg ∈ echoedArgs req, 10 ∉ arg)

/-- The names and texts of the environment have no line feed. -/
structure SafeTexts (env : Env) : Prop where
  nodeForSlot : ∀ slot addr, env.nodeForSlot slot = some addr → 10 ∉ addr
  masters : ∀ master ∈ env.masters, 10 ∉ master.1
  resolve : ∀ addr err, env.dial addr = .resolveError err → 10 ∉ err
  register : ∀ addr err, env.dial addr = .registerError err → 10 ∉ err

/-- The texts and addresses of the plan have safe lines, and its merge function is one of
those above. -/
def Plan.Sound : Plan → Prop
  | .reply data | .write data | .push data | .queueError data | .execError data =>
    Engine.Sound data
  | .replies _ data => ∀ reply ∈ data, Engine.Sound reply
  | .watch addr | .blocking addr | .execDial addr => 10 ∉ addr
  | .fanOut _ merge => ∃ cmd groups totalKeys, merge = mergeFunc cmd groups totalKeys
  | _ => True

theorem mem_args_of_echoed {req : Request} (h : arg ∈ echoedArgs req) : arg ∈ req.args := by
  have hconfig : ∀ action opts, configEchoed action opts ⊆ opts := by
    intro action opts
    unfold configEchoed
    split
    · simp
    · split <;> simp
    · split <;> simp
  have hproxy : ∀ sub rest, proxyEchoed sub rest ⊆ rest := by
    intro sub rest
    unfold proxyEchoed
    split
    · simp
    split
    · exact List.cons_subset_cons _ (hconfig _ _)
    · split <;> simp
  apply List.mem_of_mem_tail
  unfold echoedArgs at h
  split at h
  · rename_i htail
    rw [htail]
    simpa using .inl (List.mem_singleton.mp h)
  · rename_i htail
    rw [htail]
    simpa using .inl (List.mem_singleton.mp h)
  · rename_i htail
    rw [htail]
    exact List.cons_subset_cons _ (hproxy _ _) h
  · cases h

section Direct

variable {cfg : Config} {env : Env} {s : Session} {req : Request}

theorem Plan.sound_reply (h : Engine.Sound data) : (Plan.reply data).Sound := h

theorem Plan.sound_error (h : 10 ∉ msg) : (Plan.error msg).Sound :=
  Plan.sound_reply (.error h)

theorem dialError_no_lf (henv : SafeTexts env) (haddr : 10 ∉ addr)
    (h : Session.dialError addr (env.dial addr) = some msg) : 10 ∉ msg := by
  have hcolon : 10 ∉ bytes ": " := by decide
  cases hdial : env.dial addr with
  | registered =>
    rw [hdial] at h
    cases h
  | resolveError err =>
    rw [hdial] at h
    cases h
    have hresolve : 10 ∉ bytes "ERR failed to resolve " := by decide
    simp [hresolve, hcolon, haddr, henv.resolve addr err hdial]
  | registerError err =>
    rw [hdial] at h
    cases h
    have hregister : 10 ∉ bytes "ERR failed to register backend " := by decide
    simp [hregister, hcolon, haddr, henv.register addr err hdial]

/-- The replies of a dial that fails at once. -/
theorem sound_dialError (henv : SafeTexts env) (haddr : 10 ∉ addr) :
    ∀ data ∈ (Session.dialError addr (env.dial addr)).toList.map encodeError, Sound data := by
  intro data hdata
  obtain ⟨msg, hmsg, rfl⟩ := List.mem_map.mp hdata
  exact .error (dialError_no_lf henv haddr (Option.mem_toList.mp hmsg))

theorem sound_singleton (h : Sound data) : ∀ data' ∈ [data], Sound data' := by
  intro data' hdata'
  cases List.mem_singleton.mp hdata'
  exact h

/-- What `perform` writes for a sound plan. -/
theorem Plan.Sound.replies {plan : Plan} (h : plan.Sound) (henv : SafeTexts env)
    (hsubs : s.hub.clientSubs.length < 2 ^ 63) :
    ∀ data ∈ plan.ownReplies env s req, Engine.Sound data := by
  cases plan with
  | reply | write | push | queueError | execError => exact sound_singleton h
  | replies => exact h
  | quit | enterMulti | unwatch | discard => exact sound_singleton .okReply
  | reset | queue => exact sound_singleton (.simpleString (by decide))
  | execAbort => exact sound_singleton (.error (by decide))
  | execEmpty =>
    refine sound_singleton ⟨.array [], ?_, rfl⟩
    simp only [Value.LineSafe, AllLineSafe]
  | unsubscribe =>
    intro data hdata
    obtain ⟨ch, -, rfl⟩ := List.mem_map.mp hdata
    refine ⟨_, ?_, rfl⟩
    have hcount := List.length_filter_le (fun p => p ∉ req.args.tail) s.hub.clientSubs
    simp only [Value.LineSafe, AllLineSafe, true_and, and_true]
    omega
  | watch | blocking | execDial => exact sound_dialError henv h
  | _ => exact nofun

theorem noNode_no_lf (slot : ℕ) : 10 ∉ noNode slot := by
  have h : 10 ∉ bytes "ERR no node for slot " := by decide
  simp [noNode, h, formatNat_no_lf]

theorem sound_handleAUTH (cfg : Config) (loc : Local) (args : List Bytes) : Sound (handleAUTH cfg loc args).2 := by
  unfold handleAUTH
  split
  · exact .error (by decide)
  split
  · split
    · exact .error (by decide)
    · exact .okReply
  · split
    · exact .error (by decide)
    · exact .okReply
  · exact .error (by decide)

theorem sound_helloOptions (cfg : Config) (options : List Bytes) (loc : Local) {out : List Bytes}
    (hout : ∀ data ∈ out, Sound data) : ∀ data ∈ (helloOptions cfg options loc out).2.1, Sound data := by
  have happend : ∀ {out : List Bytes} {last : Bytes}, (∀ data ∈ out, Sound data) → Sound last →
      ∀ data ∈ out ++ [last], Sound data := by
    intro out last hout hlast data hdata
    rcases List.mem_append.mp hdata with hdata | hdata
    · exact hout data hdata
    cases List.mem_singleton.mp hdata
    exact hlast
  have hauth : ∀ loc user password loc' data,
      handleAUTH cfg loc [bytes "AUTH", user, password] = (loc', data) → Sound data := by
    intro loc user password loc' data h
    have hsound := sound_handleAUTH cfg loc [bytes "AUTH", user, password]
    rwa [h] at hsound
  fun_induction helloOptions cfg options loc out with
  | case1 => exact hout
  | case2 arg loc out _ user password rest loc' data heq _ ih =>
    exact ih (happend hout (hauth _ _ _ _ _ heq))
  | case3 arg loc out _ user password rest loc' data heq _ =>
    exact happend hout (hauth _ _ _ _ _ heq)
  | case4 => exact happend hout (.error (by decide))
  | case5 arg loc out _ _ name rest ih => exact ih hout
  | case6 => exact happend hout (.error (by decide))
  | case7 arg rest loc out _ _ ih => exact ih hout

theorem lineSafe_helloInfo (hid : cfg.clientId < 2 ^ 63) : (helloInfo cfg).LineSafe := by
  simp only [helloInfo, Value.LineSafe, AllLineSafe, true_and, and_true]
  refine ⟨by decide, by omega⟩

theorem sound_handleHELLO (hid : cfg.clientId < 2 ^ 63) (loc : Local) (args : List Bytes) :
    ∀ data ∈ (handleHELLO cfg loc args).2, Sound data := by
  have hreply : ∀ loc, Sound (helloReply cfg loc) := by
    intro loc
    unfold helloReply
    split
    · exact ⟨helloInfo cfg, lineSafe_helloInfo hid, rfl⟩
    · exact .error (by decide)
  unfold handleHELLO
  split
  · rename_i version options
    split
    · exact sound_singleton (.error (by decide))
    split
    · exact sound_singleton (.error (by decide))
    have hoptions := sound_helloOptions cfg options loc fun data (hdata : data ∈ []) =>
      nomatch hdata
    revert hoptions
    rcases helloOptions cfg options loc [] with ⟨loc', out, _ | _⟩
    · exact id
    intro hoptions data hdata
    rcases List.mem_append.mp hdata with hdata | hdata
    · exact hoptions data hdata
    · exact sound_singleton (hreply loc') data hdata
  · exact sound_singleton (hreply loc)

/-! ### Subcommands -/

/-- A text with a line feed is not one of the names that a handler knows. -/
theorem toUpper_ne_of_lf (htext : 10 ∈ text) (hname : 10 ∉ name) : toUpper text ≠ name := by
  rintro rfl
  rw [lf_mem_toUpper] at hname
  exact hname htext

theorem toUpper_notMem_of_lf (htext : 10 ∈ text) (names : List Bytes)
    (hnames : ∀ name ∈ names, 10 ∉ name) : toUpper text ∉ names :=
  fun hmem => toUpper_ne_of_lf htext (hnames _ hmem) rfl

/-- The reply is an error line that shows a text with a line feed, and little else. -/
def ShowsLF (text data : Bytes) : Prop :=
  ∃ msg, data = encodeError msg ∧ 10 ∈ msg ∧ msg.length ≤ text.length + 100

theorem showsLF_between {shown : Bytes} (hshown : 10 ∈ shown)
    (hlength : shown.length ≤ text.length) (hrest : before.length + behind.length ≤ 100) :
    ShowsLF text (encodeError (before ++ shown ++ behind)) := by
  refine ⟨_, rfl, by simp [hshown], ?_⟩
  simp only [List.length_append]
  omega

/-- Such a reply is not a single frame, even if it fits into memory. -/
theorem ShowsLF.not_singleFrame (h : ShowsLF text data)
    (hfits : sizeofPointer * (text.length + 128) ≤ maxAlloc) : Fits data ∧ ¬ SingleFrame data := by
  obtain ⟨msg, rfl, hlf, hlength⟩ := h
  have hdata : Fits (encodeError msg) := by
    simp only [Fits, sizeofPointer, encodeError, crlf, List.length_append, List.length_cons,
      List.length_nil] at hfits ⊢
    omega
  exact ⟨hdata, fun hframe => (singleFrame_encodeError_iff hdata).mp hframe hlf⟩

theorem sound_handleCLUSTER (name : Bytes) (h : ∀ sub ∈ args.head?, 10 ∉ sub) :
    (handleCLUSTER cfg env (name :: args)).Sound := by
  unfold handleCLUSTER
  split
  · rename_i sub rest heq
    cases heq
    dsimp only
    split
    · exact Plan.sound_reply (.bulkString _)
    split
    · trivial
    split
    · exact Plan.sound_reply (.bulkString _)
    apply Plan.sound_error
    rw [lf_mem_between (by decide) (by decide), lf_mem_toLower, lf_mem_toUpper]
    exact h sub rfl
  · exact Plan.sound_error (by decide)

theorem handleCLUSTER_of_lf (cfg : Config) (env : Env) (name : Bytes) (rest : List Bytes)
    (hsub : 10 ∈ sub) :
    ∃ data, handleCLUSTER cfg env (name :: sub :: rest) = .reply data ∧ ShowsLF sub data := by
  simp only [handleCLUSTER]
  rw [if_neg (toUpper_ne_of_lf hsub (by decide)),
    if_neg (toUpper_notMem_of_lf hsub routedClusterSubs (by decide)),
    if_neg (toUpper_ne_of_lf hsub (by decide))]
  refine ⟨_, rfl, showsLF_between ?_ ?_ (by decide)⟩
  · rwa [lf_mem_toLower, lf_mem_toUpper]
  · exact (length_toLower_le _).trans (length_toUpper_le _)

theorem sound_handleClientCmd (hid : cfg.clientId < 2 ^ 63) (loc : Local) (name : Bytes)
    (h : ∀ sub ∈ args.head?, 10 ∉ sub) : Sound (handleClientCmd cfg loc (name :: args)).2 := by
  unfold handleClientCmd
  split
  · rename_i sub rest heq
    cases heq
    dsimp only
    split
    · unfold clientSetName
      split
      · split
        · have htext : 10 ∉ bytes "ERR Client setname command name too long, maximum is " := by
            decide
          apply Sound.error
          simp [htext, formatNat_no_lf]
        · exact .okReply
      · exact .error (by decide)
    · split
      · exact .bulkString _
      split
      · exact .integer ⟨by omega, by omega⟩
      split
      · exact .bulkString _
      split
      · exact .okReply
      apply Sound.error
      rw [lf_mem_between (by decide) (by decide), lf_mem_toUpper]
      exact h sub rfl
  · exact .error (by decide)

theorem handleClientCmd_of_lf (cfg : Config) (loc : Local) (name : Bytes) (rest : List Bytes)
    (hsub : 10 ∈ sub) : ShowsLF sub (handleClientCmd cfg loc (name :: sub :: rest)).2 := by
  simp only [handleClientCmd]
  rw [if_neg (toUpper_ne_of_lf hsub (by decide)), if_neg (toUpper_ne_of_lf hsub (by decide)),
    if_neg (toUpper_ne_of_lf hsub (by decide)),
    if_neg (not_or.mpr ⟨toUpper_ne_of_lf hsub (by decide), toUpper_ne_of_lf hsub (by decide)⟩),
    if_neg (toUpper_notMem_of_lf hsub acceptedClientSubs (by decide))]
  exact showsLF_between (by rwa [lf_mem_toUpper]) (length_toUpper_le _) (by decide)

theorem sound_unknownOption (h : 10 ∉ opt) : Sound (unknownOption (toLower opt)) := by
  apply Sound.error
  rw [lf_mem_between (by decide) (by decide), lf_mem_toLower]
  exact h

theorem sound_proxyConfig (loc : Local) (haction : 10 ∉ action)
    (hrest : ∀ opt ∈ configEchoed action rest, 10 ∉ opt) :
    Sound (proxyConfig loc action rest).2 := by
  unfold proxyConfig
  split
  · rename_i hget
    split
    · rename_i opt tail
      split
      · refine ⟨_, ?_, rfl⟩
        simp only [Value.LineSafe, AllLineSafe, and_self]
      apply sound_unknownOption
      apply hrest
      cases tail <;> simp [configEchoed, hget]
    · exact .error (by decide)
  · split
    · rename_i hset
      split
      · split
        · split
          · split
            · exact .error (by decide)
            · exact .okReply
          · exact .error (by decide)
        · apply sound_unknownOption
          apply hrest
          simp [configEchoed, hset]
      · exact .error (by decide)
    · apply Sound.error
      rw [lf_mem_between (by decide) (by decide)]
      exact haction

theorem sound_proxyMultiplexing (h : 10 ∉ action) : Sound (proxyMultiplexing action) := by
  unfold proxyMultiplexing
  split
  · exact .bulkString _
  split
  · exact .okReply
  apply Sound.error
  rw [lf_mem_between (by decide) (by decide), lf_mem_toLower]
  exact h

theorem sound_handleProxyCmd (loc : Local) (name : Bytes) (hsub : ∀ sub ∈ args.head?, 10 ∉ sub)
    (hrest : ∀ sub ∈ args.head?, ∀ arg ∈ proxyEchoed (toUpper sub) args.tail, 10 ∉ arg) :
    Sound (handleProxyCmd cfg env loc (name :: args)).2 := by
  unfold handleProxyCmd
  split
  · rename_i sub rest heq
    cases heq
    have hrest := hrest sub rfl
    dsimp only [List.tail_cons] at hrest ⊢
    split
    · rename_i hconfig
      split
      · rw [hconfig, proxyEchoed, if_pos rfl] at hrest
        apply sound_proxyConfig
        · rw [lf_mem_toUpper]
          exact hrest _ (List.mem_cons_self ..)
        · exact fun opt hopt => hrest opt (List.mem_cons_of_mem _ hopt)
      · exact .error (by decide)
    · split
      · exact .bulkString _
      split
      · exact .bulkString _
      split
      · exact .bulkString _
      split
      · rename_i hmultiplexing
        split
        · rw [hmultiplexing, proxyEchoed, if_neg (by decide), if_pos rfl] at hrest
          apply sound_proxyMultiplexing
          rw [lf_mem_toUpper]
          exact hrest _ (List.mem_cons_self ..)
        · exact .error (by decide)
      · apply Sound.error
        rw [lf_mem_between (by decide) (by decide), lf_mem_toUpper]
        exact hsub sub rfl
  · exact .error (by decide)

theorem showsLF_unknownOption (h : 10 ∈ opt) : ShowsLF opt (unknownOption (toLower opt)) :=
  showsLF_between (by rwa [lf_mem_toLower]) (length_toLower_le _) (by decide)

theorem toLower_ne_of_lf (htext : 10 ∈ text) (hname : 10 ∉ name) : toLower text ≠ name := by
  rintro rfl
  rw [lf_mem_toLower] at hname
  exact hname htext

theorem proxyConfig_of_lf (loc : Local) {opts : List Bytes}
    (htext : text ∈ action :: configEchoed (toUpper action) opts) (hlf : 10 ∈ text) :
    ShowsLF text (proxyConfig loc (toUpper action) opts).2 := by
  unfold proxyConfig
  rcases List.mem_cons.mp htext with rfl | htext
  · rw [if_neg (toUpper_ne_of_lf hlf (by decide)), if_neg (toUpper_ne_of_lf hlf (by decide))]
    exact showsLF_between (by rwa [lf_mem_toUpper]) (length_toUpper_le _) (by decide)
  unfold configEchoed at htext
  split at htext
  · cases htext
  · split at htext
    · rename_i opt hget
      cases List.mem_singleton.mp htext
      rw [if_pos hget]
      simp only [if_neg (toLower_ne_of_lf hlf (by decide : 10 ∉ bytes "max-clients"))]
      exact showsLF_unknownOption hlf
    · cases htext
  · split at htext
    · rename_i opt val rest haction
      cases List.mem_singleton.mp htext
      rcases haction with hget | hset
      · rw [if_pos hget]
        simp only [if_neg (toLower_ne_of_lf hlf (by decide : 10 ∉ bytes "max-clients"))]
        exact showsLF_unknownOption hlf
      rw [if_neg (by rw [hset]; decide), if_pos hset]
      simp only [if_neg (toLower_ne_of_lf hlf (by decide : 10 ∉ bytes "max-clients"))]
      exact showsLF_unknownOption hlf
    · cases htext

theorem handleProxyCmd_of_lf (cfg : Config) (env : Env) (loc : Local) (name : Bytes)
    (htext : text ∈ sub :: proxyEchoed (toUpper sub) rest) (hlf : 10 ∈ text) :
    ShowsLF text (handleProxyCmd cfg env loc (name :: sub :: rest)).2 := by
  simp only [handleProxyCmd]
  rcases List.mem_cons.mp htext with rfl | htext
  · rw [if_neg (toUpper_ne_of_lf hlf (by decide)), if_neg (toUpper_ne_of_lf hlf (by decide)),
      if_neg (toUpper_ne_of_lf hlf (by decide)), if_neg (toUpper_ne_of_lf hlf (by decide)),
      if_neg (toUpper_ne_of_lf hlf (by decide))]
    exact showsLF_between (by rwa [lf_mem_toUpper]) (length_toUpper_le _) (by decide)
  · unfold proxyEchoed at htext
    split at htext
    · cases htext
    split at htext
    · rename_i hconfig
      rw [if_pos hconfig]
      exact proxyConfig_of_lf loc htext hlf
    split at htext
    · rename_i hmultiplexing
      cases List.mem_singleton.mp htext
      rw [hmultiplexing, if_neg (by decide), if_neg (by decide), if_neg (by decide),
        if_neg (by decide), if_pos rfl]
      simp only [proxyMultiplexing]
      rw [if_neg (toUpper_ne_of_lf hlf (by decide)), if_neg (toUpper_ne_of_lf hlf (by decide))]
      refine showsLF_between ?_ ?_ (by decide)
      · rwa [lf_mem_toLower, lf_mem_toUpper]
      · exact (length_toLower_le _).trans (length_toUpper_le _)
    · cases htext

/-! ### Requests for the backends -/

theorem sound_dispatchBlockingCommand (henv : SafeTexts env) (hcmd : 10 ∉ req.cmd) :
    (dispatchBlockingCommand env req).Sound := by
  unfold dispatchBlockingCommand
  split
  · trivial
  · apply Plan.sound_error
    rw [lf_mem_between (by decide) (by decide), lf_mem_toLower]
    exact hcmd
  split
  · exact Plan.sound_error (by decide)
  split
  · exact Plan.sound_error (noNode_no_lf _)
  rename_i addr haddr
  exact henv.nodeForSlot _ addr haddr

theorem wrongArgsError_no_lf (cmd : MultiKeyCmd) : 10 ∉ wrongArgsError cmd := by
  cases cmd <;> decide

theorem sound_routeMultiKeyToMux (cmd : MultiKeyCmd) :
    (routeMultiKeyToMux env.nodeForSlot cmd req).toPlan.Sound := by
  unfold routeMultiKeyToMux
  dsimp only
  split
  · exact Plan.sound_reply (.error (wrongArgsError_no_lf cmd))
  split
  · exact Plan.sound_reply (.error (noNode_no_lf _))
  · trivial
  split
  · trivial
  exact ⟨cmd, _, _, rfl⟩

theorem notSupported_no_lf (h : 10 ∉ name) : 10 ∉ notSupported name := by
  rw [notSupported, lf_mem_between (by decide) (by decide), lf_mem_toLower]
  exact h

theorem sound_routeToBackend (hcmd : 10 ∉ req.cmd) : (routeToBackend env req).Sound := by
  unfold routeToBackend
  split
  · trivial
  split
  · exact Plan.sound_error (notSupported_no_lf hcmd)
  split
  · trivial
  unfold routeKey
  split
  · trivial
  split
  · split
    · exact sound_routeMultiKeyToMux _
    · trivial
  split
  · exact Plan.sound_error (noNode_no_lf _)
  · trivial

theorem sound_handleOther (henv : SafeTexts env) (hcmd : 10 ∉ req.cmd) :
    (handleOther env req).Sound := by
  unfold handleOther
  split
  · exact sound_dispatchBlockingCommand henv hcmd
  · exact sound_routeToBackend hcmd

theorem sound_handleWATCH (henv : SafeTexts env) (args : List Bytes) :
    (handleWATCH env s args).Sound := by
  unfold handleWATCH
  split
  · split
    · exact Plan.sound_error (by decide)
    split
    · exact Plan.sound_error (by decide)
    split
    · exact Plan.sound_error (noNode_no_lf _)
    rename_i addr haddr
    exact henv.nodeForSlot _ addr haddr
  · exact Plan.sound_error (by decide)

/-! ### The handlers by state -/

/-- The switch of `handleNormal`, by cases on the verb. -/
theorem sound_handleVerb (hid : cfg.clientId < 2 ^ 63) (henv : SafeTexts env)
    (hargs : req.args ≠ []) (hcmd : 10 ∉ req.cmd) (hechoed : ∀ arg ∈ echoedArgs req, 10 ∉ arg) :
    (handleVerb cfg env s req).Sound := by
  obtain ⟨name, tail, hargs⟩ := List.exists_cons_of_ne_nil hargs
  simp only [handleVerb, hargs]
  simp only [echoedArgs, hargs, List.tail_cons] at hechoed
  cases hverb : Verb.of req with
  | ping =>
    apply Plan.sound_reply
    split
    · exact .simpleString (by decide)
    · exact .bulkString _
  | echo =>
    dsimp only
    split
    · exact Plan.sound_error (by decide)
    · exact Plan.sound_reply (.bulkString _)
  | select =>
    dsimp only
    split
    · exact Plan.sound_error (by decide)
    split
    · exact Plan.sound_error (by decide)
    · exact Plan.sound_reply .okReply
  | readonly | readwrite =>
    dsimp only
    split
    · exact Plan.sound_error (by decide)
    · exact Plan.sound_reply .okReply
  | hello => exact sound_handleHELLO hid s.loc _
  | auth => exact sound_singleton (sound_handleAUTH cfg s.loc _)
  | client =>
    apply sound_singleton
    apply sound_handleClientCmd hid
    intro sub hsub
    cases tail with
    | nil => cases hsub
    | cons first rest =>
      cases hsub
      simp only [hverb] at hechoed
      exact hechoed sub (List.mem_singleton_self _)
  | cluster =>
    apply sound_handleCLUSTER
    intro sub hsub
    cases tail with
    | nil => cases hsub
    | cons first rest =>
      cases hsub
      simp only [hverb] at hechoed
      exact hechoed sub (List.mem_singleton_self _)
  | watch => exact sound_handleWATCH henv _
  | discard | exec => exact Plan.sound_error (by decide)
  | proxy =>
    apply sound_singleton
    cases tail with
    | nil => exact sound_handleProxyCmd s.loc name (by simp) (by simp)
    | cons first rest =>
      simp only [hverb] at hechoed
      apply sound_handleProxyCmd
      · rintro _ ⟨⟩
        exact hechoed first (List.mem_cons_self ..)
      · rintro _ ⟨⟩ arg harg
        exact hechoed arg (List.mem_cons_of_mem _ harg)
  | unsubscribe | punsubscribe | other => exact sound_handleOther henv hcmd
  | _ => trivial

theorem resolveMultiSlot_no_lf (henv : SafeTexts env) (queue : List Req) :
    match resolveMultiSlot env queue with
    | .ok addr => 10 ∉ addr
    | .error msg => 10 ∉ msg := by
  unfold resolveMultiSlot
  rcases multiSlot queue none with _ | _ | slot
  · dsimp only
    decide
  · cases hmasters : env.masters with
    | nil =>
      dsimp only
      decide
    | cons master _ => exact henv.masters master (by simp [hmasters])
  · dsimp only
    cases hnode : env.nodeForSlot slot with
    | none => exact noNode_no_lf slot
    | some addr => exact henv.nodeForSlot slot addr hnode

theorem sound_handleInMulti (henv : SafeTexts env) (hcmd : 10 ∉ req.cmd) :
    (handleInMulti env s req).Sound := by
  have hunwatched : (execUnwatched env s).Sound := by
    have hresolve := resolveMultiSlot_no_lf henv s.txQueue
    unfold execUnwatched
    split
    · trivial
    revert hresolve
    cases resolveMultiSlot env s.txQueue with
    | error msg => exact .error
    | ok addr =>
      intro haddr
      dsimp only
      split
      · exact haddr
      split
      · trivial
      · exact haddr
  unfold handleInMulti
  cases Verb.of req with
  | exec =>
    dsimp only
    unfold execMulti
    split
    · trivial
    split
    · split
      · trivial
      · exact hunwatched
    · exact hunwatched
  | multi | watch | unwatch => exact Plan.sound_error (by decide)
  | discard | quit | reset => trivial
  | _ =>
    dsimp only
    unfold queueRequest
    split
    · apply Sound.error
      rw [lf_mem_between (by decide) (by decide), lf_mem_toLower]
      exact hcmd
    split
    · exact Sound.error (notSupported_no_lf hcmd)
    · trivial

theorem sound_handleInSubscribe (req : Request) : (handleInSubscribe req).Sound := by
  unfold handleInSubscribe
  cases Verb.of req with
  | ping =>
    refine ⟨_, ?_, rfl⟩
    simp only [Value.LineSafe, AllLineSafe, and_self]
  | reset | quit | subscribe | psubscribe | unsubscribe | punsubscribe => trivial
  | _ => exact Plan.sound_error (by decide)

/-- A request that is not in a transaction and does not reach the switch is answered with a
fixed text or not at all. -/
theorem sound_handleNormal (hid : cfg.clientId < 2 ^ 63) (henv : SafeTexts env)
    (hargs : req.args ≠ [])
    (hswitch : refused s req = false → waitsForWatch s req = false →
      10 ∉ req.cmd ∧ ∀ arg ∈ echoedArgs req, 10 ∉ arg) :
    (handleNormal cfg env s req).Sound := by
  unfold handleNormal
  split
  · exact Plan.sound_error (by decide)
  split
  · trivial
  rename_i hrefused hwaits
  obtain ⟨hcmd, hechoed⟩ := hswitch (by simpa using hrefused) (by simpa using hwaits)
  exact sound_handleVerb hid henv hargs hcmd hechoed

theorem verb_of_lf (hcmd : 10 ∈ req.cmd) : Verb.of req = .other := by
  unfold Verb.of
  cases hlookup : verbNames.lookup req.cmd with
  | none => rfl
  | some verb =>
    have hnames : ∀ entry ∈ verbNames, 10 ∉ entry.1 := by decide
    obtain ⟨before, behind, hsplit, -⟩ := List.lookup_eq_some_iff.mp hlookup
    exact absurd hcmd (hnames (req.cmd, verb) (by rw [hsplit]; simp))

/-- The replies of the handler of a request, if what it shows has no line feed. -/
theorem sound_dispatchClientRequest (hid : cfg.clientId < 2 ^ 63) (henv : SafeTexts env)
    (hcmd : req.cmd = req.args.headD []) (hechoes : EchoesNoLF s req) :
    (dispatchClientRequest cfg env s req).Sound := by
  obtain ⟨hname, hechoed⟩ := hechoes
  rw [← hcmd] at hname
  unfold dispatchClientRequest
  split
  · exact Sound.error (by decide)
  rename_i hargs
  have hnormal : s.state = .normal ∨ s.state = .watch →
      (handleNormal cfg env s req).Sound := by
    intro hstate
    apply sound_handleNormal hid henv hargs
    intro hrefused hwaits
    have hreaches : s.ReachesSwitch req := ⟨hargs, hstate, hrefused, hwaits⟩
    exact ⟨hname (.inr hreaches), hechoed hreaches⟩
  split
  · rename_i hstate
    exact sound_handleInMulti henv (hname (.inl (.inl hstate)))
  · rename_i hstate
    exact sound_handleInMulti henv (hname (.inl (.inr hstate)))
  · exact sound_handleInSubscribe req
  · split
    · -- QUIT and RESET get through while a blocking command is under way.
      rename_i hverb
      have hleaves : Verb.of req = .quit ∨ Verb.of req = .reset := by simpa using hverb
      apply sound_handleNormal hid henv hargs
      intro _ _
      constructor
      · intro hlf
        rw [verb_of_lf hlf] at hleaves
        simp at hleaves
      · rcases hleaves with hleaves | hleaves <;> simp [echoedArgs, hleaves]
    · trivial
  · rename_i hstate
    exact hnormal (.inr hstate)
  rename_i hstate
  exact hnormal (.inl hstate)

/-! ### The other replies -/

theorem lateErrors_no_lf (htext : 10 ∉ text) (h : msg ∈ lateErrors text) : 10 ∉ msg := by
  have happend : ∀ {before : Bytes}, 10 ∉ before → 10 ∉ before ++ text := by
    intro before hbefore
    simp [hbefore, htext]
  simp only [lateErrors, List.mem_cons, List.not_mem_nil, or_false] at h
  rcases h with rfl | rfl | rfl | rfl | rfl | rfl | rfl | rfl
  · exact happend (by decide)
  · exact happend (by decide)
  · exact happend (by decide)
  · decide
  · decide
  · exact happend (by decide)
  · decide
  · exact htext

theorem safe_routerPlan {masters : List Bytes} (hmasters : ∀ addr ∈ masters, 10 ∉ addr) (rr : ℕ)
    (hname : 10 ∉ req.args.headD []) : ∀ plan ∈ routerPlan masters rr req, plan.Safe := by
  intro plan hplan
  unfold routerPlan at hplan
  split at hplan
  · exact (Router.Plan.Routed.execScript masters rr req plan hplan).safe hmasters List.not_mem_nil
  · cases hplan
    exact (Router.Plan.Routed.executeBroadcast masters [] req).safe hmasters List.not_mem_nil
  cases hplan
  exact (Router.Plan.Routed.execute masters rr req).safe hmasters hname

/-! ### Line feeds that come through -/

/-- In a transaction the name of an unknown command is shown. -/
theorem shown_in_multi (hmulti : s.InMulti) (hargs : req.args ≠ []) (hlf : 10 ∈ req.cmd) :
    ∃ data, OwnReply cfg env s req data ∧ ShowsLF req.cmd data := by
  have hunknown := getCmdInfo_of_lf hlf
  have hplan : dispatchClientRequest cfg env s req = .queueError (encodeError
      (bytes "ERR unknown command '" ++ toLower req.cmd ++ bytes "'")) := by
    have hqueue : handleInMulti env s req = .queueError (encodeError
        (bytes "ERR unknown command '" ++ toLower req.cmd ++ bytes "'")) := by
      simp only [handleInMulti, verb_of_lf hlf, queueRequest, hunknown]
    rw [dispatchClientRequest, if_neg hargs]
    rcases hmulti with hstate | hstate <;> rw [hstate] <;> exact hqueue
  refine ⟨_, .direct (by rw [hplan]; exact List.mem_singleton_self _), ?_⟩
  exact showsLF_between (by rwa [lf_mem_toLower]) (length_toLower_le _) (by decide)

/-- The environment of a router whose nodes answer 1. -/
theorem safeEnv_ones (i : ℕ) :
    Router.SafeEnv ((Router.RouterEnv.oneNode fun _ => .always (.ok (.integer 1))).job i) := by
  have hreads : Router.SafeReads fun _ => .ok (.integer 1) := by
    intro _
    rw [Router.Safe, Value.LineSafe]
    decide
  have hnone : ∀ err : Bytes, none = some err → 10 ∉ err := by simp
  refine ⟨fun _ => ⟨hnone, hreads, hnone, hnone, hnone, hreads⟩, fun _ => hnone, ?_⟩
  rintro _ _ _ _ ⟨⟩
  decide

/-- In the normal state the router shows it. -/
theorem shown_by_router (hreaches : s.ReachesSwitch req) (hcmd : req.cmd = req.args.headD [])
    (hlf : 10 ∈ req.cmd) : ∃ data, OwnReply cfg env s req data ∧ ShowsLF req.cmd data := by
  obtain ⟨name, tail, hargs⟩ := List.exists_cons_of_ne_nil hreaches.1
  rw [hargs, List.headD_cons] at hcmd
  have hverb := verb_of_lf hlf
  have hunknown := getCmdInfo_of_lf hlf
  have hxread : isBlockingXREAD req = false := by
    have hne : ∀ {known : Bytes}, 10 ∉ known → req.cmd ≠ known := by
      rintro _ hknown rfl
      exact hknown hlf
    rw [isBlockingXREAD, if_pos ⟨hne (by decide), hne (by decide)⟩]
  have hplan : dispatchClientRequest cfg env s req = .router := by
    rw [Session.dispatch_of_reaches hreaches]
    simp [handleVerb, hverb, handleOther, hunknown, hxread, routeToBackend, getFirstKeyAndInfo,
      hreaches.1]
  have hroute : routerPlan [] 0 req = some (Router.execute [] 0 req) := by
    simp [routerPlan, hverb]
  refine ⟨_, .routed [] 0 (.oneNode fun _ => .always (.ok (.integer 1))) hplan (by simp)
    safeEnv_ones hroute, ?_⟩
  rw [Router.execute_unknown hargs (by rwa [← hcmd]), Router.unknownCommand]
  refine showsLF_between ?_ ?_ (by decide)
  · rwa [lf_mem_toLower, lf_mem_toUpper, ← hcmd]
  rw [hcmd]
  exact (length_toLower_le _).trans (length_toUpper_le _)

/-- The handlers of CLUSTER, CLIENT and PROXY show their arguments. -/
theorem shown_by_handler (hreaches : s.ReachesSwitch req) (harg : arg ∈ echoedArgs req)
    (hlf : 10 ∈ arg) : ∃ data, OwnReply cfg env s req data ∧ ShowsLF arg data := by
  obtain ⟨name, tail, hargs⟩ := List.exists_cons_of_ne_nil hreaches.1
  have hplan : dispatchClientRequest cfg env s req = handleVerb cfg env s req :=
    Session.dispatch_of_reaches hreaches cfg env
  have hlocal : ∀ result : Local × Bytes, handleVerb cfg env s req = .ofLocal result →
      OwnReply cfg env s req result.2 := by
    intro result hresult
    apply OwnReply.direct
    rw [hplan, hresult]
    exact List.mem_singleton_self _
  simp only [echoedArgs, hargs, List.tail_cons] at harg
  split at harg
  · rename_i sub rest hverb
    cases List.mem_singleton.mp harg
    obtain ⟨data, hdata, hshows⟩ := handleCLUSTER_of_lf cfg env name rest hlf
    refine ⟨data, .direct ?_, hshows⟩
    rw [hplan, handleVerb, hverb, hargs, hdata]
    exact List.mem_singleton_self _
  · rename_i sub rest hverb
    cases List.mem_singleton.mp harg
    exact ⟨_, hlocal _ (by simp only [handleVerb, hverb, hargs]),
      handleClientCmd_of_lf cfg s.loc name rest hlf⟩
  · rename_i sub rest hverb
    exact ⟨_, hlocal _ (by simp only [handleVerb, hverb, hargs]),
      handleProxyCmd_of_lf cfg env s.loc name harg hlf⟩
  · cases harg

end Direct

/-- Every reply that the proxy makes for a request is a single frame, if and only if the
command name has no line feed where it is shown, in a transaction or in the normal state,
and neither do the arguments of CLUSTER, CLIENT and PROXY that the normal state shows. -/
theorem own_replies_single_frames_iff {cfg : Config} {env : Env} {s : Session} {req : Request}
    (hcmd : req.cmd = req.args.headD [])
    (hsize : ∀ arg ∈ req.args, sizeofPointer * (arg.length + 128) ≤ maxAlloc)
    (hid : cfg.clientId < 2 ^ 63) (hsubs : s.hub.clientSubs.length < 2 ^ 63)
    (henv : SafeTexts env) :
    (∀ data, OwnReply cfg env s req data → Fits data → SingleFrame data) ↔ EchoesNoLF s req := by
  constructor
  · intro hframes
    have hnone : ∀ {text : Bytes}, text ∈ req.args →
        ¬ ∃ data, OwnReply cfg env s req data ∧ ShowsLF text data := by
      rintro text htext ⟨data, hown, hshows⟩
      obtain ⟨hfits, hsplit⟩ := hshows.not_singleFrame (hsize text htext)
      exact hsplit (hframes data hown hfits)
    have hhead : 10 ∈ req.args.headD [] → req.args ≠ [] ∧ req.cmd ∈ req.args := by
      intro hlf
      cases hargs : req.args with
      | nil =>
        rw [hargs] at hlf
        cases hlf
      | cons name tail => simp [hcmd, hargs]
    constructor
    · intro hstate hlf
      obtain ⟨hargs, hmem⟩ := hhead hlf
      rw [← hcmd] at hlf
      rcases hstate with hmulti | hreaches
      · exact hnone hmem (shown_in_multi hmulti hargs hlf)
      · exact hnone hmem (shown_by_router hreaches hcmd hlf)
    · intro hreaches arg harg hlf
      exact hnone (mem_args_of_echoed harg) (shown_by_handler hreaches harg hlf)
  · intro hechoes data hown hfits
    have hsound : (dispatchClientRequest cfg env s req).Sound :=
      sound_dispatchClientRequest hid henv hcmd hechoes
    cases hown with
    | direct hdata => exact (hsound.replies henv hsubs data hdata).singleFrame hfits
    | merged hplan hframes =>
      rw [hplan] at hsound
      obtain ⟨cmd, groups, totalKeys, rfl⟩ := hsound
      exact singleFrame_mergeFunc cmd groups totalKeys hframes hfits
    | routed masters rr renv hplan hmasters hrenv hroute =>
      have hchooses := Session.chooses_dispatchClientRequest cfg env s req
      rw [hplan] at hchooses
      have hsafe := safe_routerPlan hmasters rr (hechoes.1 (.inr hchooses)) _ hroute
      exact (hsafe.result hrenv).singleFrame hfits
    | late htext hmsg => exact Sound.singleFrame (.error (lateErrors_no_lf htext hmsg)) hfits

theorem safeTexts_oneNode (haddr : 10 ∉ addr) : SafeTexts (.oneNode addr) where
  nodeForSlot := by
    rintro _ _ ⟨⟩
    exact haddr
  masters := by
    intro master hmaster
    cases List.mem_singleton.mp hmaster
    exact haddr
  resolve := nofun
  register := nofun

/-- A subcommand with spaces, dots and a carriage return, in a single frame. -/
theorem own_replies_single_frames_cluster :
    let req : Request := { args := [bytes "CLUSTER", bytes "a.b \r"], cmd := bytes "CLUSTER" }
    EchoesNoLF (.new {} .doubling) req ∧
      ∀ data, OwnReply {} (.oneNode (bytes "a:1")) (.new {} .doubling) req data → Fits data →
        SingleFrame data := by
  intro req
  have hechoes : EchoesNoLF (.new {} .doubling) req :=
    ⟨fun _ => by decide, fun _ => by decide⟩
  exact ⟨hechoes, (own_replies_single_frames_iff (by decide) (by decide) (by decide) (by decide)
    (safeTexts_oneNode (by decide))).mpr hechoes⟩

/-- A line feed in a subcommand splits the error line: the scanner takes the text up to it
for the reply, and the rest for the next one. -/
theorem own_reply_splits :
    let req : Request := { args := [bytes "CLUSTER", bytes "x\r\n+ok"], cmd := bytes "CLUSTER" }
    let data := bytes "-ERR unknown subcommand 'x\r\n+ok'. Try CLUSTER HELP.\r\n"
    OwnReply {} (.oneNode (bytes "a:1")) (.new {} .doubling) req data ∧
      data.length = 53 ∧ scanValue data = .ok (28, .other, bytes "ERR unknown subcommand 'x") := by
  intro req data
  refine ⟨.direct ?_, by decide, by decide +kernel⟩
  have hplan : dispatchClientRequest {} (.oneNode (bytes "a:1")) (.new {} .doubling) req =
      .reply data := by
    rfl
  rw [hplan]
  exact List.mem_singleton_self _

end Pluster.Engine
