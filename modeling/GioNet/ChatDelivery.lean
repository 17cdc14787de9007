import GioNet.ChatOrder

/-!
# Who reads what

A line is relayed to all clients but the one it came from. Each of them reads the
lines of one thread of the server in the order in which the server broadcasts
them, and the lines of one client are broadcast in the order in which they were
typed. Nothing that is read fails to decode.
-/

namespace GioNet

open Server (Proceeds)
open SerialCalls (gathered)

namespace Chat

variable {build : Build} {w : Winsock} {involved : Set NetAddress} {serverAddress : NetAddress}
  {typed : NetAddress → List UInt8} {labels : List Label} {C C' : Chat} {a : NetAddress}
  {messages : NetAddress → List Message}

/-! ## The invariant -/

def messagesTo (labels : List Label) (a : NetAddress) : List Message :=
  (labels.filterMap Label.system?).filterMap (System.Label.messageTo a)

def messagesFrom (labels : List Label) (a : NetAddress) : List Message :=
  (labels.filterMap Label.system?).filterMap (System.Label.messageFrom a)

theorem messagesTo_snoc (labels : List Label) (l : Label) (a : NetAddress) :
    messagesTo (labels ++ [l]) a =
      messagesTo labels a ++ (l.system?.bind (System.Label.messageTo a)).toList := by
  rw [messagesTo, List.filterMap_filterMap, LabelledRun.filterMap_snoc, messagesTo,
    List.filterMap_filterMap]

theorem messagesTo_of_none {l : Label}
    (h : ∀ a, l.system?.bind (System.Label.messageTo a) = none) :
    messagesTo (labels ++ [l]) = messagesTo labels := by
  funext a
  rw [messagesTo_snoc, h]
  exact List.append_nil _

theorem messagesFrom_snoc (labels : List Label) (l : Label) (a : NetAddress) :
    messagesFrom (labels ++ [l]) a =
      messagesFrom labels a ++ (l.system?.bind (System.Label.messageFrom a)).toList := by
  rw [messagesFrom, List.filterMap_filterMap, LabelledRun.filterMap_snoc, messagesFrom,
    List.filterMap_filterMap]

/-- The line that `ListenThread` is about to broadcast. -/
def owed (C : Chat) : List Line :=
  match C.phase .listen with
  | .owes line => [line]
  | _ => []

def Line.textFrom (peer : NetAddress) (line : Line) : Option StdString :=
  if line.origin = .client peer then some line.text else none

/-- The server has relayed, or is about to relay, all that it has been handed. -/
structure Sound (build : Build) (involved : Set NetAddress) (serverAddress : NetAddress)
    (typed : NetAddress → List UInt8) (labels : List Label) (C : Chat) : Prop where
  system : C.system.Sound build involved serverAddress (labels.filterMap Label.system?)
  entered : ∀ a, messagesFrom labels a = (labels.filterMap (Label.enteredBy a)).map fun input ↦
    messageOf (ChatClient.format (typed a) input)
  short : ∀ a, ∀ input ∈ labels.filterMap (Label.enteredBy a),
    (ChatClient.username (typed a)).length + input.length ≤ 491 ∧ ChatHost.Plain input
  owes : ∀ t line, C.phase t = .owes line → line.thread = t ∧ line.Fits involved
  relayed : ∀ peer, C.system.server.dataFor peer =
    ((C.calls ++ C.owed).filterMap (Line.textFrom peer)).map fun text ↦ (messageOf text).data
  ordered : C.Ordered involved (messagesTo labels)

theorem sound_fresh : Sound build involved serverAddress typed [] {} where
  system := System.sound_fresh
  entered _ := rfl
  short := by simp
  owes t line h := by cases h
  relayed _ := rfl
  ordered := ordered_fresh

theorem Sound.fits (h : C.Sound build involved serverAddress typed labels) :
    ∀ line ∈ C.calls ++ C.owed, line.Fits involved := by
  intro line hline
  rcases List.mem_append.mp hline with hline | hline
  · exact h.ordered.fits line hline
  · unfold owed at hline
    split at hline
    · rename_i line' hphase
      rw [List.mem_singleton.mp hline]
      exact (h.owes .listen line' hphase).2
    · cases hline

theorem Sound.not_serverFails (h : C.Sound build involved serverAddress typed labels) :
    ¬ ServerFails build C.system := by
  rintro ⟨callback, hcallback, hfails⟩
  cases callback with
  | peerConnected peer => exact hfails _ rfl
  | dataReceived peer data =>
      have hdata : data ∈ C.system.server.dataFor peer :=
        List.mem_filterMap.mpr ⟨_, hcallback, by simp⟩
      rw [h.relayed peer] at hdata
      obtain ⟨text, htext, rfl⟩ := List.mem_map.mp hdata
      obtain ⟨line, hline, hfrom⟩ := List.mem_filterMap.mp htext
      have hfits := (h.fits line hline).text
      obtain ⟨-, rfl⟩ : line.origin = .client peer ∧ line.text = text := by
        simpa [Line.textFrom] using hfrom
      exact hfails _ (delegate_messageOf build peer (by omega))

theorem Ordered.exists_line (h : C.Ordered involved messages) {m : Message}
    (hm : m ∈ messages a) : ∃ line ∈ C.calls, m = messageOf line.text := by
  obtain ⟨order, hmessages, horder⟩ := h.heard a
  rw [hmessages] at hm
  obtain ⟨line, hline, rfl⟩ := List.mem_map.mp hm
  have hmem : line ∈ order.filter fun line' ↦ line'.thread = line.thread :=
    List.mem_filter.mpr ⟨hline, by simp⟩
  rw [horder line.thread] at hmem
  obtain ⟨e, he, hscheduled⟩ := List.mem_filterMap.mp hmem
  obtain rfl : e.1 = line := by
    rw [scheduledFor] at hscheduled
    split at hscheduled
    · exact Option.some.inj hscheduled
    · cases hscheduled
  exact ⟨e.1, (List.of_mem_zip (List.mem_of_mem_filter he)).1, rfl⟩

/-! ## The steps -/


theorem Sound.after (h : C.Sound build involved serverAddress typed labels) {l : Label}
    (hsystem : C'.system.Sound build involved serverAddress
      ((labels ++ [l]).filterMap Label.system?))
    (hfrom : ∀ a, (l.system?.bind (System.Label.messageFrom a)).toList =
      (l.enteredBy a).toList.map fun input ↦ messageOf (ChatClient.format (typed a) input))
    (hshort : ∀ a, ∀ input, l.enteredBy a = some input →
      (ChatClient.username (typed a)).length + input.length ≤ 491 ∧ ChatHost.Plain input)
    (howes : ∀ t line, C'.phase t = .owes line → line.thread = t ∧ line.Fits involved)
    (hrelayed : ∀ peer, C'.system.server.dataFor peer =
      ((C'.calls ++ C'.owed).filterMap (Line.textFrom peer)).map fun text ↦ (messageOf text).data)
    (hordered : C'.Ordered involved (messagesTo (labels ++ [l]))) :
    C'.Sound build involved serverAddress typed (labels ++ [l]) := by
  refine ⟨hsystem, fun a ↦ ?_, fun a input hinput ↦ ?_, howes, hrelayed, hordered⟩
  · rw [messagesFrom_snoc, h.entered, hfrom, LabelledRun.filterMap_snoc, List.map_append]
  · rw [LabelledRun.filterMap_snoc, List.mem_append] at hinput
    rcases hinput with hinput | hinput
    · exact h.short a input hinput
    · exact hshort a input (Option.mem_toList.mp hinput)

/-- The text of a line that a client has sent fits. -/
theorem Sound.exists_text (h : C.Sound build involved serverAddress typed labels)
    {m : Message} (hm : m ∈ messagesFrom labels a) :
    ∃ text, m = messageOf text ∧ text.length ≤ 495 ∧ ChatHost.Plain text := by
  rw [h.entered a] at hm
  obtain ⟨input, hinput, rfl⟩ := List.mem_map.mp hm
  obtain ⟨hshort, hplain⟩ := h.short a input hinput
  refine ⟨_, rfl, ?_, (ChatClient.plain_username _).format hplain⟩
  rw [format_length]
  omega

/-- A delegate is called with something that it can read. -/
theorem Sound.delegate (h : C.Sound build involved serverAddress typed labels)
    {S : System} {sent : List System.Label}
    (hS : S.Sound build involved serverAddress sent)
    (hsent : ∀ a, sent.filterMap (System.Label.messageFrom a) = messagesFrom labels a)
    {callback : Callback} (hcallback : callback ∈ S.server.callbacks) :
    ∃ line, ChatServer.delegate build callback = .ok line ∧
      (∀ l ∈ line, l.thread = .listen ∧ l.Fits involved) ∧
      ∀ peer, (callback.data peer).toList =
        (line.toList.filterMap (Line.textFrom peer)).map fun text ↦ (messageOf text).data := by
  cases callback with
  | peerConnected peer =>
      refine ⟨_, rfl, fun line hline ↦ ?_, fun peer' ↦ ?_⟩
      · have hfits := fits_of_send involved hline (by decide) (by simp)
        obtain ⟨-, rfl⟩ := send_eq_some_iff.mp hline
        exact ⟨rfl, hfits⟩
      · rfl
  | dataReceived peer data =>
      have hdata : data ∈ S.server.dataFor peer := List.mem_filterMap.mpr ⟨_, hcallback, by simp⟩
      have hclient : ∃ κ, S.client peer = some κ := by
        cases hclient : S.client peer with
        | none =>
            rw [(hS.unused peer hclient).dataFor] at hdata
            cases hdata
        | some κ => exact ⟨κ, rfl⟩
      obtain ⟨κ, hκ⟩ := hclient
      obtain ⟨l, hl⟩ := hS.linked peer κ hκ
      obtain ⟨m, hm, rfl⟩ := hl.provenance (s := .b) hdata
      change m ∈ sent.filterMap (System.Label.messageFrom peer) at hm
      rw [hsent] at hm
      obtain ⟨text, rfl, htext, hplain⟩ := h.exists_text hm
      refine ⟨_, delegate_messageOf build peer (by omega), ?_, fun peer' ↦ ?_⟩
      · rintro line ⟨⟩
        refine ⟨rfl, htext, hplain, ?_, ?_⟩
        · simpa using hS.involved peer κ hκ
        · simp
      · by_cases hpeer : peer = peer' <;> simp [Line.textFrom, hpeer]

theorem owed_eq_nil {phase : Phase} (h : C.phase .listen = phase)
    (howes : ∀ line, phase ≠ .owes line) : C.owed = [] := by
  unfold owed
  split
  · rename_i line hphase
    exact absurd (h.symm.trans hphase) (howes line)
  · rfl

theorem owed_ofLine {line : Option Line} (h : C.phase .listen = .ofLine line) :
    C.owed = line.toList := by
  cases line with
  | none => exact owed_eq_nil h (by rintro line ⟨⟩)
  | some line =>
      have howes : C.phase .listen = .owes line := h
      simp [owed, howes]

/-- A step of the system is one of the server, or none of its. -/
theorem Sound.server_cases (h : C.Sound build involved serverAddress typed labels)
    (hw : w.Sends) (hdistinct : Server.Distinct involved) {label : System.Label} {S : System}
    (hallowed : label.Allowed involved)
    (hstep : System.Step build w serverAddress C.system label S) :
    (S.server = C.system.server ∧ ∀ a, label.messageTo a = none) ∨
      ∃ e, label = .server e ∧ Proceeds build w involved C.system.server e S.server := by
  cases hstep with
  | server e σ hstep hnetwork =>
      exact .inr ⟨e, rfl, h.system.server_proceeds hw hdistinct hallowed hstep hnetwork⟩
  | start | client | loseToServer | loseToClient => exact .inl ⟨rfl, fun _ ↦ rfl⟩

theorem messageFrom_of_not_call {label : System.Label} (h : isCall label = false) (a : NetAddress) :
    label.messageFrom a = none := by
  cases label with
  | client b e =>
      cases e with
      | send message => cases h
      | _ => simp [System.Label.messageFrom, Client.Event.message]
  | _ => rfl

/-- The calls of `Broadcast` in a step of the library's threads or of the network. -/
theorem Sound.run_ordered (h : C.Sound build involved serverAddress typed labels)
    (hw : w.Sends) (hdistinct : Server.Distinct involved) {label : System.Label} {S : System}
    (hallowed : label.Allowed involved) (hcall : isCall label = false)
    (hstep : System.Step build w serverAddress C.system label S) (hsystem : C'.system = S)
    (hcalls : C'.calls = C.calls)
    (hphase : ∀ t i, C.phase t = .calls i → C'.phase t = .calls i) :
    C'.Ordered involved (messagesTo (labels ++ [.run label])) := by
  have hmessages : messagesTo (labels ++ [.run label]) =
      fun a ↦ messagesTo labels a ++ (label.messageTo a).toList := by
    funext a
    rw [messagesTo_snoc]
    rfl
  rw [hmessages]
  have hquiet : S.server.broadcasts = C.system.server.broadcasts →
      (∀ a, label.messageTo a = none) →
        C'.Ordered involved fun a ↦ messagesTo labels a ++ (label.messageTo a).toList := by
    intro hbroadcasts hnone
    have hsame : (fun a ↦ messagesTo labels a ++ (label.messageTo a).toList) =
        messagesTo labels := by
      funext a
      rw [hnone]
      exact List.append_nil _
    rw [hsame]
    exact h.ordered.frame hcalls (by rw [hsystem, hbroadcasts]) fun t i _ ht _ _ ↦ hphase t i ht
  rcases h.server_cases hw hdistinct hallowed hstep with ⟨hserver, hnone⟩ | ⟨e, rfl, hproceeds⟩
  · exact hquiet (by rw [hserver]) hnone
  · have hsend : ∀ peer message, e ≠ .send peer message := by
      rintro peer message rfl
      cases hcall
    rcases hproceeds.copies hsend with ⟨hbroadcasts, hnone⟩ | ⟨message, except, rfl⟩ |
      ⟨i, b, peer, rest, hget, hrest, hset, hto⟩
    · exact hquiet hbroadcasts hnone
    · cases hcall
    · have hnext := h.ordered.next hget hrest hcalls (by rw [hsystem, hset]) hphase
      have hsame : (fun a ↦ messagesTo labels a ++
          ((System.Label.server e).messageTo a).toList) = fun a ↦ messagesTo labels a ++
            if peer = a ∧ peer ∉ b.except then [b.message] else [] := by
        funext a
        rw [System.Label.messageTo, hto]
        split <;> rfl
      rwa [hsame]

/-- The delegates in a step of the library's threads or of the network. -/
theorem Sound.run_callbacks (h : C.Sound build involved serverAddress typed labels)
    (hw : w.Sends) (hdistinct : Server.Distinct involved) {label : System.Label} {S : System}
    (hallowed : label.Allowed involved)
    (hstep : System.Step build w serverAddress C.system label S)
    (hwaits : C.phase .listen = .free ∨ Waits C.system S label) :
    S.server.callbacks = C.system.server.callbacks ∨ C.phase .listen = .free ∧
      ∃ callback, S.server.callbacks = C.system.server.callbacks ++ [callback] := by
  rcases h.server_cases hw hdistinct hallowed hstep with ⟨hserver, -⟩ | ⟨e, rfl, hproceeds⟩
  · exact .inl (by rw [hserver])
  · rcases hproceeds.callbacks h.system.server with hsame | ⟨hlistens, callback, hnew, -⟩
    · exact .inl hsame
    · rcases hwaits with hfree | ⟨-, hwaits⟩
      · exact .inr ⟨hfree, callback, hnew⟩
      · rw [hwaits e rfl] at hlistens
        cases hlistens

theorem Sound.run_step (h : C.Sound build involved serverAddress typed labels)
    (hw : w.Sends)
    (hdistinct : Server.Distinct involved) {label : System.Label} {S : System}
    (hallowed : label.Allowed involved) (hcall : isCall label = false)
    (hstep : System.Step build w serverAddress C.system label S)
    (hwaits : C.phase .listen = .free ∨ Waits C.system S label) :
    Sound build involved serverAddress typed (labels ++ [.run label]) { C with
      system := S
      phase := Function.update C.phase .listen (afterCallbacks build (C.phase .listen)
        (S.server.callbacks.drop C.system.server.callbacks.length)) } := by
  have hsnoc := LabelledRun.filterMap_snoc Label.system? labels (.run label)
  have hsystem : S.Sound build involved serverAddress
      ((labels ++ [Label.run label]).filterMap Label.system?) :=
    hsnoc ▸ h.system.step hw hdistinct hallowed hstep
  have hfrom : ∀ a, ((Label.run label).system?.bind (System.Label.messageFrom a)) = none :=
    fun a ↦ messageFrom_of_not_call hcall a
  rcases h.run_callbacks hw hdistinct hallowed hstep hwaits with hsame | ⟨hfree, callback, hnew⟩
  · have hphase : Function.update C.phase .listen (afterCallbacks build (C.phase .listen)
        (S.server.callbacks.drop C.system.server.callbacks.length)) = C.phase := by
      rw [hsame, List.drop_length]
      exact Function.update_eq_self _ _
    rw [hphase]
    refine h.after hsystem (fun a ↦ by rw [hfrom]; rfl) (by rintro a input ⟨⟩) h.owes ?_ ?_
    · intro peer
      change S.server.callbacks.filterMap (Callback.data peer) = _
      rw [hsame]
      exact h.relayed peer
    · exact h.run_ordered hw hdistinct hallowed hcall hstep rfl rfl fun _ _ ht ↦ ht
  · have hsent : ∀ a, ((labels ++ [Label.run label]).filterMap Label.system?).filterMap
        (System.Label.messageFrom a) = messagesFrom labels a := by
      intro a
      refine (messagesFrom_snoc labels (.run label) a).trans ?_
      rw [hfrom]
      exact List.append_nil _
    have hcallback : callback ∈ S.server.callbacks := by simp [hnew]
    obtain ⟨line, hdelegate, hline, hdata⟩ := h.delegate hsystem hsent hcallback
    have hphase : afterCallbacks build (C.phase .listen)
        (S.server.callbacks.drop C.system.server.callbacks.length) = .ofLine line := by
      rw [hnew, List.drop_left, afterCallbacks, hdelegate]
    rw [hphase]
    refine h.after hsystem (fun a ↦ by rw [hfrom]; rfl) (by rintro a input ⟨⟩) ?_ ?_ ?_
    · intro t l ht
      rcases eq_or_ne t .listen with rfl | hne
      · cases line with
        | none => simp [Phase.ofLine] at ht
        | some line =>
            obtain rfl : line = l := by simpa [Phase.ofLine] using ht
            exact hline line rfl
      · exact h.owes t l (by simpa [hne] using ht)
    · intro peer
      change S.server.callbacks.filterMap (Callback.data peer) = _
      have hbefore := h.relayed peer
      rw [Server.dataFor, owed_eq_nil hfree (by rintro line ⟨⟩), List.append_nil] at hbefore
      have howed : owed { C with
          system := S
          phase := Function.update C.phase .listen (.ofLine line) } = line.toList :=
        owed_ofLine (Function.update_self Thread.listen (Phase.ofLine line) C.phase)
      rw [hnew, LabelledRun.filterMap_snoc, hbefore, hdata, howed, List.filterMap_append,
        List.map_append]
    · refine h.run_ordered hw hdistinct hallowed hcall hstep rfl rfl fun t i ht ↦ ?_
      have hne : t ≠ .listen := by
        rintro rfl
        cases hfree.symm.trans ht
      simpa [hne] using ht

theorem textFrom_eq_none {line : Line} (h : line.thread = .main) (peer : NetAddress) :
    line.textFrom peer = none := by
  refine if_neg fun horigin ↦ ?_
  rw [Line.thread, horigin] at h
  cases h

theorem owed_of_main {phase : Phase} (h : C'.phase = Function.update C.phase .main phase) :
    C'.owed = C.owed := by
  have hlisten : C'.phase .listen = C.phase .listen := by simp [h]
  simp only [owed, hlisten]

theorem owed_of_listen {phase : Phase} (h : C'.phase = Function.update C.phase .listen phase)
    (howes : ∀ line, phase ≠ .owes line) : C'.owed = [] :=
  owed_eq_nil (by simp [h]) howes

theorem Sound.broadcast_step (h : C.Sound build involved serverAddress typed labels)
    (hw : w.Sends) (hdistinct : Server.Distinct involved) {t : Thread} {line : Line}
    {data : Buffer} {S : System} (hphase : C.phase t = .owes line)
    (hdata : Buffer.ofView line.text = .ok data)
    (hstep : System.Step build w serverAddress C.system
      (.server (.broadcast { data := data } line.except)) S) :
    Sound build involved serverAddress typed (labels ++ [.broadcast line { data := data }])
      { C with
        system := S
        phase := Function.update C.phase t (.calls C.system.server.broadcasts.length)
        calls := C.calls ++ [line] } := by
  obtain ⟨rfl, hfits⟩ := h.owes t line hphase
  have htext := hfits.text
  obtain rfl : ⟨Buffer.counted line.text⟩ = data :=
    Except.ok.inj ((Buffer.ofView_eq (by omega)).symm.trans hdata)
  have hallowed : (System.Label.server (.broadcast (messageOf line.text) line.except)).Allowed
      involved := ⟨by rw [messageOf_length]; omega, hfits.except⟩
  have hsystem := h.system.step hw hdistinct hallowed hstep
  obtain ⟨hsame, -⟩ | ⟨e, he, hproceeds⟩ := h.server_cases hw hdistinct hallowed hstep
  · -- a call of `Broadcast` makes the copy of the peers
    cases hstep with
    | server _ σ hstep =>
        cases hstep
        simpa using congrArg (fun σ : Server ↦ σ.broadcasts.length) hsame
  obtain rfl := System.Label.server.inj he
  obtain ⟨order, horder, hS⟩ : ∃ order, order.Perm C.system.server.peers ∧ S.server =
      { C.system.server with broadcasts := C.system.server.broadcasts ++
          [⟨messageOf line.text, line.except, order, order⟩] } := by
    generalize S.server = σ at hproceeds
    cases hproceeds with
    | broadcast message except order hexcept horder => exact ⟨order, horder, rfl⟩
  have hlisten : ∀ u, u ≠ line.thread → Function.update C.phase line.thread
      (.calls C.system.server.broadcasts.length) u = C.phase u :=
    fun u hu ↦ Function.update_of_ne hu _ _
  refine h.after ?_ (fun _ ↦ rfl) (by rintro a input ⟨⟩) ?_ ?_ ?_
  · exact (LabelledRun.filterMap_snoc Label.system? labels _).symm ▸ hsystem
  · intro u l hu
    rcases eq_or_ne u line.thread with rfl | hne
    · simp at hu
    · exact h.owes u l (by simpa [hne] using hu)
  · intro peer
    have hdataFor : S.server.dataFor peer = C.system.server.dataFor peer := by rw [hS]; rfl
    refine hdataFor.trans ((h.relayed peer).trans (congrArg (List.map _) ?_))
    cases hthread : line.thread with
    | listen =>
        rw [hthread] at hphase
        have howed : C.owed = [line] := by simp [owed, hphase]
        rw [howed, owed_of_listen rfl (by rintro l ⟨⟩), List.append_nil]
    | main =>
        have howed : owed { C with
            system := S
            phase := Function.update C.phase .main (.calls C.system.server.broadcasts.length)
            calls := C.calls ++ [line] } = C.owed := owed_of_main rfl
        rw [howed]
        simp [List.filterMap_append, textFrom_eq_none hthread]
  · rw [messagesTo_of_none fun _ ↦ rfl]
    refine h.ordered.begin hfits (horder.nodup_iff.mpr h.system.server.nodup) hphase rfl ?_ rfl
    simp [hS]

theorem Sound.returned_step (h : C.Sound build involved serverAddress typed labels)
    {t : Thread} {i : ℕ} {b : Broadcasting} (hphase : C.phase t = .calls i)
    (hcall : C.system.server.broadcasts[i]? = some b) (hrest : b.rest = []) :
    Sound build involved serverAddress typed (labels ++ [.returned t])
      { C with phase := Function.update C.phase t .free } := by
  refine h.after ?_ (fun _ ↦ rfl) (by rintro a input ⟨⟩) ?_ ?_ ?_
  · rw [LabelledRun.filterMap_snoc]
    simpa [Label.system?] using h.system
  · intro u l hu
    rcases eq_or_ne u t with rfl | hne
    · simp at hu
    · exact h.owes u l (by simpa [hne] using hu)
  · intro peer
    refine (h.relayed peer).trans ?_
    have howed : owed { C with phase := Function.update C.phase t .free } = C.owed := by
      cases t with
      | listen =>
          rw [owed_eq_nil hphase (by rintro line ⟨⟩)]
          exact owed_of_listen rfl (by rintro line ⟨⟩)
      | main => exact owed_of_main rfl
    rw [howed]
  · rw [messagesTo_of_none fun _ ↦ rfl]
    refine h.ordered.frame rfl rfl fun u j b' hu hb' hrest' ↦ ?_
    have hne : u ≠ t := by
      rintro rfl
      obtain rfl : i = j := by simpa using hphase.symm.trans hu
      obtain rfl := Option.some.inj (hcall.symm.trans hb')
      exact hrest' hrest
    simpa [hne] using hu

theorem Sound.say_step (h : C.Sound build involved serverAddress typed labels)
    {input : StdString} (hplain : ChatHost.Plain input) (hphase : C.phase .main = .free) :
    Sound build involved serverAddress typed (labels ++ [.say input]) { C with
      phase := Function.update C.phase .main (.ofLine (ChatServer.send .console input)) } := by
  refine h.after ?_ (fun _ ↦ rfl) (by rintro a input ⟨⟩) ?_ ?_ ?_
  · rw [LabelledRun.filterMap_snoc]
    simpa [Label.system?] using h.system
  · intro t line ht
    rcases eq_or_ne t .main with rfl | hne
    · cases hsend : ChatServer.send .console input with
      | none => simp [hsend, Phase.ofLine] at ht
      | some line' =>
          obtain rfl : line' = line := by simpa [hsend, Phase.ofLine] using ht
          have hfits := fits_of_send involved hsend hplain (by simp)
          obtain ⟨-, rfl⟩ := send_eq_some_iff.mp hsend
          exact ⟨rfl, hfits⟩
    · exact h.owes t line (by simpa [hne] using ht)
  · intro peer
    have howed : owed { C with
        phase := Function.update C.phase .main (.ofLine (ChatServer.send .console input)) } =
          C.owed := owed_of_main rfl
    rw [howed]
    exact h.relayed peer
  · rw [messagesTo_of_none fun _ ↦ rfl]
    refine h.ordered.frame rfl rfl fun t i b ht hb hrest ↦ ?_
    have hne : t ≠ .main := by
      rintro rfl
      cases hphase.symm.trans ht
    simpa [hne] using ht

theorem Sound.enter_step (h : C.Sound build involved serverAddress typed labels)
    (hw : w.Sends) (hdistinct : Server.Distinct involved) {input : StdString} {data : Buffer}
    {S : System} (hshort : (ChatClient.username (typed a)).length + input.length ≤ 491)
    (hplain : ChatHost.Plain input)
    (hdata : Buffer.ofView (ChatClient.format (typed a) input) = .ok data)
    (hstep : System.Step build w serverAddress C.system (.client a (.send { data := data })) S) :
    Sound build involved serverAddress typed (labels ++ [.enter a input { data := data }])
      { C with system := S } := by
  have hlength : (ChatClient.format (typed a) input).length =
      (ChatClient.username (typed a)).length + input.length + 4 := format_length _ input
  obtain rfl : ⟨Buffer.counted (ChatClient.format (typed a) input)⟩ = data :=
    Except.ok.inj ((Buffer.ofView_eq (by omega)).symm.trans hdata)
  have hallowed : (System.Label.client a (.send (messageOf (ChatClient.format (typed a)
      input)))).Allowed involved := by
    change (messageOf _).data.payload.length ≤ 499
    rw [messageOf_length]
    omega
  have hserver := hstep.server_eq (by rintro e ⟨⟩)
  refine h.after ?_ (fun b ↦ ?_) (fun b l hl ↦ ?_) h.owes ?_ ?_
  · exact (LabelledRun.filterMap_snoc Label.system? labels _).symm ▸
      h.system.step hw hdistinct hallowed hstep
  · by_cases hb : a = b
    · subst hb
      simp [Label.system?, System.Label.messageFrom, Client.Event.message, Label.enteredBy,
        messageOf]
    · simp [Label.system?, System.Label.messageFrom, Label.enteredBy, hb]
  · obtain ⟨rfl, rfl⟩ : a = b ∧ input = l := by simpa [Label.enteredBy] using hl
    exact ⟨hshort, hplain⟩
  · intro peer
    rw [hserver]
    exact h.relayed peer
  · rw [messagesTo_of_none fun _ ↦ rfl]
    exact h.ordered.frame rfl (by rw [hserver]) fun _ _ _ ht _ _ ↦ ht

theorem Sound.step (h : C.Sound build involved serverAddress typed labels)
    (hw : w.Sends)
    (hdistinct : Server.Distinct involved) {l : Label}
    (hallowed : l.Allowed typed involved)
    (hstep : Step build w serverAddress typed C l C') :
    C'.Sound build involved serverAddress typed (labels ++ [l]) := by
  cases hstep with
  | run label S hcall hlives hname hstep hwaits =>
      exact h.run_step hw hdistinct hallowed hcall hstep hwaits
  | broadcast t line data S hlives hphase hdata hstep =>
      exact h.broadcast_step hw hdistinct hphase hdata hstep
  | returned t i b hlives hphase hcall hrest => exact h.returned_step hphase hcall hrest
  | say keys input hlives hphase hinput =>
      exact h.say_step (ChatHost.plain_of_readInput hinput (by simp [ChatHost.Plain])) hphase
  | enter a keys input data S hlives hinput hdata hstep =>
      exact h.enter_step hw hdistinct hallowed
        (ChatHost.plain_of_readInput hinput (by simp [ChatHost.Plain])) hdata hstep

theorem sound_of_run (hw : w.Sends) (hdistinct : Server.Distinct involved)
    (hlabels : ∀ l ∈ labels, l.Allowed typed involved)
    (hrun : LabelledRun.Run (Step build w serverAddress typed) {} labels C) :
    C.Sound build involved serverAddress typed labels :=
  hrun.history_invariant (Label.Allowed typed involved) (fun labels C ↦
    C.Sound build involved serverAddress typed labels) hlabels sound_fresh
    fun _ _ _ _ h hallowed hstep ↦ h.step hw hdistinct hallowed hstep

/-! ## What is read -/

theorem Sound.exists_message (h : C.Sound build involved serverAddress typed labels) {κ : Client}
    (hclient : C.system.client a = some κ) {data : Buffer} (hdata : data ∈ κ.dataReceived) :
    ∃ message, ChatClient.dataReceived build data = .ok message ∧ message.length ≤ 495 ∧
      ChatHost.Plain message := by
  obtain ⟨l, hl⟩ := h.system.linked a κ hclient
  obtain ⟨m, hm, rfl⟩ := hl.provenance (s := .a) hdata
  obtain ⟨line, hline, rfl⟩ := h.ordered.exists_line hm
  have hfits := h.ordered.fits line hline
  have htext := hfits.text
  exact ⟨line.text, dataReceived_messageOf build (by omega), htext, hfits.plain⟩

theorem Sound.not_clientFails (h : C.Sound build involved serverAddress typed labels)
    (a : NetAddress) : ¬ ClientFails build C.system a := by
  rintro ⟨κ, hκ, data, hdata, hfails⟩
  obtain ⟨message, hmessage, -⟩ := h.exists_message hκ hdata
  exact hfails message hmessage

theorem Sound.lives (h : C.Sound build involved serverAddress typed labels)
    (label : System.Label) : Lives build C.system label := by
  cases label with
  | server e => exact h.not_serverFails
  | client a e => exact h.not_clientFails a
  | _ => trivial

/-- However many lines there are, nothing fails, every delegate can read what it is
called with, and what a client prints is one line. -/
theorem readable_of_run (hw : w.Sends) (hdistinct : Server.Distinct involved)
    (hlabels : ∀ l ∈ labels, l.Allowed typed involved)
    (hrun : LabelledRun.Run (Step build w serverAddress typed) {} labels C) :
    C.system.Healthy ∧ ¬ ServerFails build C.system ∧
      ∀ a κ, C.system.client a = some κ → ∀ data ∈ κ.dataReceived, ∃ message,
        ChatClient.dataReceived build data = .ok message ∧ message.length ≤ 495 ∧
          ChatHost.Plain message := by
  have h := sound_of_run hw hdistinct hlabels hrun
  exact ⟨h.system.healthy, h.not_serverFails, fun a κ hκ data hdata ↦ h.exists_message hκ hdata⟩

theorem Ordered.prefix_broadcastsTo (h : C.Ordered involved messages) (t : Thread)
    (a : NetAddress) :
    gathered (·.1.thread) (scheduledFor a) t C.entries <+: C.broadcastsTo t a := by
  refine h.serial.gathered_prefix (fun e hdone ↦ ?_) (fun e ↦ ?_) t
  · simp only [scheduledFor, forPeer, hdone, List.not_mem_nil, not_false_eq_true, and_true]
  · by_cases hscheduled : a ∈ e.2.peersCopy ∧ a ∉ e.2.except ∧ a ∉ e.2.rest
    · simp [scheduledFor, forPeer, hscheduled]
    · exact .inl (if_neg hscheduled)

theorem Ordered.origin_ne (h : C.Ordered involved messages) {t : Thread} {line : Line}
    (hline : line ∈ C.broadcastsTo t a) : line.origin ≠ .client a := by
  intro horigin
  obtain ⟨e, he, hfor⟩ := List.mem_filterMap.mp hline
  have hentry := List.mem_of_mem_filter he
  obtain ⟨⟨-, hexcept⟩, rfl⟩ : (a ∈ e.2.peersCopy ∧ a ∉ e.2.except) ∧ e.1 = line := by
    simpa [forPeer] using hfor
  have hfits := h.fits e.1 (List.of_mem_zip hentry).1
  rw [(h.entry e hentry).2.1, hfits.client a horigin] at hexcept
  exact hexcept (List.mem_singleton_self a)

/-- What a client prints are lines of other clients and of the server, and those
of one thread of the server are the first of its lines that are for this client,
in order. -/
theorem Sound.exists_shown (h : C.Sound build involved serverAddress typed labels) {κ : Client}
    (hclient : C.system.client a = some κ) (hcalls : C.calls.length ≤ 65534) :
    ∃ shown : List Line,
      κ.dataReceived.map (ChatClient.dataReceived build) = shown.map (fun line ↦ .ok line.text) ∧
        (∀ line ∈ shown, line.origin ≠ .client a) ∧
          ∀ t, shown.filter (fun line ↦ line.thread = t) <+: C.broadcastsTo t a := by
  obtain ⟨order, hmessages, horder⟩ := h.ordered.heard a
  have hreliable : ∀ m ∈ messagesTo labels a, m.reliable = true := by
    intro m hm
    obtain ⟨line, -, rfl⟩ := h.ordered.exists_line hm
    rfl
  have hbound : order.length ≤ C.calls.length := by
    refine (SerialCalls.length_le_of_gathered horder).trans ?_
    simp [entries]
  obtain ⟨l, hl⟩ := h.system.linked a κ hclient
  have hdelivered : Traffic.Delivered (messagesTo labels a) κ.dataReceived := by
    refine hl.delivered (s := .a) ?_
    refine (List.length_filter_le _ _).trans ?_
    change (messagesTo labels a).length ≤ 65534
    rw [hmessages, List.length_map]
    omega
  have hbegin := hdelivered.prefix_of_reliable hreliable
  rw [hmessages, List.map_map] at hbegin
  obtain ⟨k, hk⟩ : ∃ k, κ.dataReceived =
      (order.take k).map fun line ↦ (messageOf line.text).data := by
    refine ⟨κ.dataReceived.length, ?_⟩
    rw [List.map_take]
    exact List.prefix_iff_eq_take.mp hbegin
  have hshown : ∀ t, (order.take k).filter (fun line ↦ line.thread = t) <+:
      C.broadcastsTo t a := by
    intro t
    refine ((List.take_prefix k order).filter _).trans ?_
    rw [horder t]
    exact h.ordered.prefix_broadcastsTo t a
  have hcalled : ∀ line ∈ order.take k, line ∈ C.broadcastsTo line.thread a := fun line hline ↦
    (hshown line.thread).subset (List.mem_filter.mpr ⟨hline, by simp⟩)
  refine ⟨order.take k, ?_, fun line hline ↦ h.ordered.origin_ne (hcalled line hline), hshown⟩
  rw [hk, List.map_map]
  refine List.map_congr_left fun line hline ↦ ?_
  obtain ⟨e, he, hfor⟩ := List.mem_filterMap.mp (hcalled line hline)
  obtain ⟨-, rfl⟩ : (a ∈ e.2.peersCopy ∧ a ∉ e.2.except) ∧ e.1 = line := by
    simpa [forPeer] using hfor
  have htext := (h.ordered.fits e.1 (List.of_mem_zip (List.mem_of_mem_filter he)).1).text
  exact dataReceived_messageOf build (by omega)

/-- The server relays the first lines of each client, in the order in which they
were typed. -/
theorem Sound.relayed_prefix (h : C.Sound build involved serverAddress typed labels)
    (hentered : (labels.filterMap (Label.enteredBy a)).length ≤ 65534) :
    C.calls.filterMap (Line.textFrom a) <+:
      (labels.filterMap (Label.enteredBy a)).map (ChatClient.format (typed a)) := by
  have hrelayed := h.relayed a
  cases hclient : C.system.client a with
  | none =>
      rw [(h.system.unused a hclient).dataFor, List.filterMap_append] at hrelayed
      have hnone := (List.append_eq_nil_iff.mp (List.map_eq_nil_iff.mp hrelayed.symm)).1
      rw [hnone]
      exact List.nil_prefix
  | some κ =>
      obtain ⟨l, hl⟩ := h.system.linked a κ hclient
      have hfrom := h.entered a
      have hreliable : ∀ m ∈ messagesFrom labels a, m.reliable = true := by
        intro m hm
        rw [hfrom] at hm
        obtain ⟨input, -, rfl⟩ := List.mem_map.mp hm
        rfl
      have hdelivered : Traffic.Delivered (messagesFrom labels a)
          (C.system.server.dataFor a) := by
        refine hl.delivered (s := .b) ?_
        refine (List.length_filter_le _ _).trans ?_
        change (messagesFrom labels a).length ≤ 65534
        rwa [hfrom, List.length_map]
      have hbegin := hdelivered.prefix_of_reliable hreliable
      rw [hrelayed, hfrom, List.map_map] at hbegin
      have htexts : (C.calls ++ C.owed).filterMap (Line.textFrom a) <+:
          (labels.filterMap (Label.enteredBy a)).map (ChatClient.format (typed a)) := by
        have htext := hbegin.map fun data ↦ data.payload.drop 4
        simpa only [List.map_map, Function.comp_def, drop_messageOf, List.map_id'] using htext
      rw [List.filterMap_append] at htexts
      exact (List.prefix_append _ _).trans htexts

/-- What a client prints are lines of other clients and of the server. Those of one
thread of the server are the first of its lines that are for this client, in
order, and the server relays the lines of each client in the order in which they
were typed. -/
theorem order_of_run (hw : w.Sends) (hdistinct : Server.Distinct involved)
    (hlabels : ∀ l ∈ labels, l.Allowed typed involved)
    (hrun : LabelledRun.Run (Step build w serverAddress typed) {} labels C)
    (hcalls : C.calls.length ≤ 65534)
    (hentered : ∀ b, (labels.filterMap (Label.enteredBy b)).length ≤ 65534) {κ : Client}
    (hclient : C.system.client a = some κ) :
    (∃ shown : List Line,
      κ.dataReceived.map (ChatClient.dataReceived build) = shown.map (fun line ↦ .ok line.text) ∧
        (∀ line ∈ shown, line.origin ≠ .client a) ∧
          ∀ t, shown.filter (fun line ↦ line.thread = t) <+: C.broadcastsTo t a) ∧
      ∀ b, C.calls.filterMap (Line.textFrom b) <+:
        (labels.filterMap (Label.enteredBy b)).map (ChatClient.format (typed b)) := by
  have h := sound_of_run hw hdistinct hlabels hrun
  exact ⟨h.exists_shown hclient hcalls, fun b ↦ h.relayed_prefix (hentered b)⟩

/-! ### A greeting -/

open Server (firstPeer secondPeer)

/-- The line that tells the clients of a new one. -/
def welcome : Line :=
  ⟨.connected firstPeer,
    ChatHost.format ChatServer.username (literal "New peer connected..."), []⟩

/-- The packet of that line when it is popped. -/
def welcomePacket : Packet Buffer := { (messageOf welcome.text).packet with id := 1 }

def greeting : List Label :=
  [.run (.start firstPeer), .run (.server (.arrive firstPeer Client.pingPacket.wire)),
    .run (.server .peerConnected), .broadcast welcome (messageOf welcome.text),
    .run (.server (.broadcastSend 0 firstPeer (messageOf welcome.text))), .run (.server .next),
    .run (.server (.drain firstPeer)),
    .run (.client firstPeer (.arrive secondPeer welcomePacket.wire)),
    .run (.client firstPeer (.received welcomePacket)), .run (.client firstPeer .deliver)]

theorem allowed_greeting (typed : NetAddress → List UInt8) :
    ∀ l ∈ greeting, l.Allowed typed {firstPeer} := by
  simp [greeting, Label.Allowed, System.Label.Allowed]

/-- `Ann`, and the return key. -/
def nameKeys : List UInt8 := [65, 110, 110, 13]

abbrev GreetingStep := Step .debug .datagrams secondPeer fun _ ↦ nameKeys

theorem sound_of_greeting (hrun : LabelledRun.Run GreetingStep {} labels C)
    (hbegin : labels <+: greeting) :
    C.Sound .debug {firstPeer} secondPeer (fun _ ↦ nameKeys) labels :=
  sound_of_run Winsock.datagrams_sends System.distinct_firstPeer
    (fun l hl ↦ allowed_greeting _ l (hbegin.subset hl)) hrun

theorem greeting_snoc (hrun : LabelledRun.Run GreetingStep {} labels C)
    (hbegin : labels <+: greeting) {label : System.Label} {S : System}
    (hstep : System.Step .debug .datagrams secondPeer C.system label S)
    (hcall : isCall label = false) (hwaits : C.phase .listen = .free ∨ Waits C.system S label)
    (hsame : S.server.callbacks = C.system.server.callbacks) :
    LabelledRun.Run GreetingStep {} (labels ++ [.run label]) { C with system := S } := by
  have hrun' := hrun.snoc (.run label S hcall ((sound_of_greeting hrun hbegin).lives label)
    (fun _ _ ↦ by decide) hstep hwaits)
  rwa [hsame, List.drop_length, afterCallbacks, Function.update_eq_self] at hrun'

theorem exists_greeting : ∃ C κ, LabelledRun.Run GreetingStep {} greeting C ∧
    C.calls = [welcome] ∧ C.system.client firstPeer = some κ ∧
      κ.dataReceived.map (ChatClient.dataReceived .debug) = [.ok welcome.text] := by
  have hw := Winsock.datagrams_sends
  have hshort : welcomePacket.payload.payload.length ≤ 499 := by decide
  obtain ⟨hreceivePing, hreadPing⟩ :=
    Socket.receiveFrom_wire hw.toDocumented .debug {} (p := Client.pingPacket) (by decide)
  obtain ⟨hreceive, hread⟩ := Socket.receiveFrom_wire hw.toDocumented .debug {} hshort
  obtain ⟨c, c', hreceived, hpop⟩ : ∃ c c',
      (Connection.fresh secondPeer).received .debug welcomePacket = .ok c ∧
        c.popReadyIncomingPacket = some (welcomePacket, c') := ⟨_, _, rfl, rfl⟩
  have hrun₁ := greeting_snoc .nil ⟨_, rfl⟩
    (.start firstPeer _ rfl (Client.start_eq hw secondPeer)) rfl (.inl rfl) rfl
  have hrun₂ := greeting_snoc hrun₁ ⟨_, rfl⟩
    (.server (.arrive firstPeer Client.pingPacket.wire) _
      (.arrive firstPeer Client.pingPacket.wire _ _ rfl rfl rfl hreceivePing) (by
        intro a datagram hfrom
        obtain ⟨rfl, rfl⟩ : firstPeer = a ∧ Client.pingPacket.wire = datagram := by
          simpa [Event.fromPeer] using hfrom
        simp)) rfl (.inl rfl) rfl
  have hrun₃ := hrun₂.snoc (.run _ _ rfl ((sound_of_greeting hrun₂ ⟨_, rfl⟩).lives _)
    (fun _ _ ↦ by decide)
    (.server _ _ (.peerConnected firstPeer _ rfl rfl) (by simp [Event.fromPeer])) (.inl rfl))
  have hrun₄ : LabelledRun.Run GreetingStep {} (_ ++ [.broadcast welcome _]) _ :=
    hrun₃.snoc (.broadcast .listen welcome _ _
      (sound_of_greeting hrun₃ ⟨_, rfl⟩).not_serverFails rfl (Buffer.ofView_eq (by decide))
      (.server _ _ (.broadcast _ _ [firstPeer] rfl (List.Perm.refl _)) (by simp [Event.fromPeer])))
  have hrun₅ := greeting_snoc hrun₄ ⟨_, rfl⟩
    (.server _ _ (.broadcastSend 0 _ firstPeer [] rfl rfl rfl rfl) (by simp [Event.fromPeer]))
    rfl (.inr ⟨rfl, by rintro e ⟨⟩; rfl⟩) rfl
  have hrun₆ := greeting_snoc hrun₅ ⟨_, rfl⟩
    (.server _ _ (.getPeers [firstPeer] rfl rfl rfl (List.Perm.refl _)) (by simp [Event.fromPeer]))
    rfl (.inr ⟨rfl, by rintro e ⟨⟩; rfl⟩) rfl
  have hrun₇ := greeting_snoc hrun₆ ⟨_, rfl⟩
    (.server _ _ (.drain firstPeer [] welcomePacket _ _ _ rfl rfl (by rintro ⟨⟩) rfl
      (sendPacket_small hw hshort)) (by simp [Event.fromPeer]))
    rfl (.inr ⟨rfl, by rintro e ⟨⟩; rfl⟩) rfl
  have hrun₈ := greeting_snoc hrun₇ ⟨_, rfl⟩
    (.client firstPeer _ (System.startedClient secondPeer) _ rfl
      (.arrive secondPeer welcomePacket.wire _ _ rfl rfl ⟨rfl, rfl⟩ hreceive)
      (by rintro addr datagram ⟨⟩; exact ⟨rfl, List.mem_singleton_self _⟩))
    rfl (.inr ⟨rfl, by rintro e ⟨⟩⟩) rfl
  have hrun₉ := greeting_snoc hrun₈ ⟨_, rfl⟩
    (.client firstPeer _ { System.startedClient secondPeer with
        listening := .found ⟨welcomePacket.wire⟩ } _ rfl
      (.received _ welcomePacket _ c rfl rfl hread hreceived) (by simp))
    rfl (.inr ⟨rfl, by rintro e ⟨⟩⟩) rfl
  have hrun₁₀ := greeting_snoc hrun₉ ⟨_, rfl⟩
    (.client firstPeer _ { System.startedClient secondPeer with
        connectionToServer := c
        listening := .processing } _ rfl (.deliver welcomePacket c' rfl rfl hpop) (by simp))
    rfl (.inr ⟨rfl, by rintro e ⟨⟩⟩) rfl
  refine ⟨_, { System.startedClient secondPeer with
    connectionToServer := c'
    listening := .processing
    dataReceived := [welcomePacket.payload] }, hrun₁₀, rfl, rfl, ?_⟩
  exact congrArg (fun message ↦ [message]) (dataReceived_messageOf .debug (by decide))

theorem readable_after_greeting : ∃ C κ, LabelledRun.Run GreetingStep {} greeting C ∧
    C.system.client firstPeer = some κ ∧
      κ.dataReceived.map (ChatClient.dataReceived .debug) = [.ok welcome.text] ∧
        C.system.Healthy ∧ ¬ ServerFails .debug C.system := by
  obtain ⟨C, κ, hrun, -, hclient, hread⟩ := exists_greeting
  have h := readable_of_run Winsock.datagrams_sends System.distinct_firstPeer
    (allowed_greeting _) hrun
  exact ⟨C, κ, hrun, hclient, hread, h.1, h.2.1⟩

theorem order_after_greeting : ∃ C κ, LabelledRun.Run GreetingStep {} greeting C ∧
    C.system.client firstPeer = some κ ∧
      κ.dataReceived.map (ChatClient.dataReceived .debug) = [.ok welcome.text] ∧
        ∃ shown : List Line,
          κ.dataReceived.map (ChatClient.dataReceived .debug) =
            shown.map (fun line ↦ .ok line.text) ∧
          ∀ t, shown.filter (fun line ↦ line.thread = t) <+: C.broadcastsTo t firstPeer := by
  obtain ⟨C, κ, hrun, hcalls, hclient, hread⟩ := exists_greeting
  obtain ⟨⟨shown, hshown, -, horder⟩, -⟩ := order_of_run Winsock.datagrams_sends
    System.distinct_firstPeer (allowed_greeting _) hrun
    (by simp [hcalls]) (fun _ ↦ Nat.zero_le _) hclient
  exact ⟨C, κ, hrun, hclient, hread, shown, hshown, horder⟩

end Chat

end GioNet
