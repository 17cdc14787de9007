import GioNet.Chat
import GioNet.EndToEnd
import GioNet.Library.SerialCalls
import GioNet.RoundTrip

/-!
# The lines of a chat and their order

Each thread of the server makes one call of `Broadcast` after the other. So what
has been scheduled for a client is, as far as one thread goes, what the calls of
that thread have come to, in the order of the calls.
-/

namespace GioNet

open Server (Proceeds)
open SerialCalls (Serial gathered)

/-! ## Texts in buffers -/

theorem Buffer.ofView_eq {view : StdString} (h : view.length < 2 ^ 31) :
    Buffer.ofView view = .ok ⟨Buffer.counted view⟩ := by
  have hwrite := (Buffer.extends_writeCharacters h).appends {} (by
    simp [Buffer.counted, vectorMax]
    omega)
  rw [ofView, writeStringView, hwrite]
  rfl

theorem Buffer.readString_counted (build : Build) {text : StdString} (h : text.length < 2 ^ 31) :
    (Buffer.readString build).run ⟨Buffer.counted text⟩ = .ok (text, {}) := by
  have hread := reads_readString build h []
  have hlength : (Buffer.counted text).length = 4 + text.length := by simp [Buffer.counted]
  rw [List.append_nil, if_pos] at hread
  · exact hread
  · refine fun _ ↦ clears_of_lt ?_ ?_
    · simp only [hlength, List.length_nil]
      omega
    · simp [hlength]

namespace Chat

/-- The message that carries the text. -/
def messageOf (text : StdString) : Message := { data := ⟨Buffer.counted text⟩ }

@[simp] theorem messageOf_reliable (text : StdString) : (messageOf text).reliable = true := rfl

/-- The text stands behind its length. -/
theorem drop_messageOf (text : StdString) : (messageOf text).data.payload.drop 4 = text := by
  rw [messageOf, Buffer.counted]
  exact List.drop_left' (LittleEndian.encode_length 4 text.length)

theorem messageOf_length (text : StdString) :
    (messageOf text).data.payload.length = 4 + text.length := by
  simp [messageOf, Buffer.counted]

theorem dataReceived_messageOf (build : Build) {text : StdString} (h : text.length < 2 ^ 31) :
    ChatClient.dataReceived build (messageOf text).data = .ok text := by
  rw [ChatClient.dataReceived, messageOf, Buffer.readString_counted build h]
  rfl

theorem delegate_messageOf (build : Build) (peer : NetAddress) {text : StdString}
    (h : text.length < 2 ^ 31) :
    ChatServer.delegate build (.dataReceived peer (messageOf text).data) =
      .ok (some ⟨.client peer, text, [peer]⟩) := by
  rw [ChatServer.delegate, ChatServer.dataReceived, messageOf, Buffer.readString_counted build h]
  rfl

theorem format_length (username message : StdString) :
    (ChatHost.format username message).length = username.length + message.length + 4 := by
  simp only [ChatHost.format, List.length_append]
  change 1 + username.length + 3 + message.length = _
  omega

/-! ## The lines of the server -/

/-- The text fits into a message and on a line, the clients that are left out are
told apart from the others, and a client's line does not come back to it. -/
structure Line.Fits (involved : Set NetAddress) (line : Line) : Prop where
  text : line.text.length ≤ 495
  plain : ChatHost.Plain line.text
  except : ∀ e ∈ line.except, e ∈ involved
  client : ∀ peer, line.origin = .client peer → line.except = [peer]

theorem send_eq_some_iff {origin : Origin} {message : StdString} {line : Line} :
    ChatServer.send origin message = some line ↔
      message.length ≤ 100 ∧ line = ⟨origin, ChatHost.format ChatServer.username message, []⟩ := by
  unfold ChatServer.send
  split
  · rename_i hlong
    rw [maxMessageLength] at hlong
    simp only [reduceCtorEq, false_iff]
    exact fun h ↦ Nat.not_lt.mpr h.1 hlong
  · rename_i hshort
    rw [maxMessageLength] at hshort
    rw [Option.some.injEq]
    exact ⟨fun h ↦ ⟨Nat.not_lt.mp hshort, h.symm⟩, fun h ↦ h.2.symm⟩

theorem fits_of_send (involved : Set NetAddress) {origin : Origin} {message : StdString}
    {line : Line} (h : ChatServer.send origin message = some line)
    (hplain : ChatHost.Plain message) (horigin : ∀ peer, origin ≠ .client peer) :
    line.Fits involved := by
  obtain ⟨hlength, rfl⟩ := send_eq_some_iff.mp h
  have hname : ChatHost.Plain ChatServer.username := by decide
  refine ⟨?_, hname.format hplain, by simp, fun peer hpeer ↦ absurd hpeer (horigin peer)⟩
  rw [format_length]
  change 6 + message.length + 4 ≤ 495
  omega

/-! ## The calls of `Broadcast` -/

/-- The calls that have begun, each with its line. -/
def entries (C : Chat) : List (Line × Broadcasting) := C.calls.zip C.system.server.broadcasts

/-- The line of a call that is for the address. -/
def forPeer (a : NetAddress) (e : Line × Broadcasting) : Option Line :=
  if a ∈ e.2.peersCopy ∧ a ∉ e.2.except then some e.1 else none

/-- The line of a call that has already been scheduled for the address. -/
def scheduledFor (a : NetAddress) (e : Line × Broadcasting) : Option Line :=
  if a ∈ e.2.peersCopy ∧ a ∉ e.2.except ∧ a ∉ e.2.rest then some e.1 else none

/-- The lines of the thread's calls that are for the address, in order. -/
def broadcastsTo (C : Chat) (t : Thread) (a : NetAddress) : List Line :=
  gathered (·.1.thread) (forPeer a) t C.entries

end Chat

/-- A step of the server that is no call of `Send` leaves the calls of `Broadcast`
alone, begins one, or takes one to its next peer. -/
theorem Server.Proceeds.copies {build : Build} {w : Winsock} {involved : Set NetAddress}
    {σ σ' : Server} {e : Event} (hstep : Proceeds build w involved σ e σ')
    (hsend : ∀ peer message, e ≠ .send peer message) :
    (σ'.broadcasts = σ.broadcasts ∧ ∀ a, e.messageTo a = none) ∨
    (∃ message except, e = .broadcast message except) ∨
    ∃ i b peer rest, σ.broadcasts[i]? = some b ∧ b.rest = peer :: rest ∧
      σ'.broadcasts = σ.broadcasts.set i { b with rest := rest } ∧
        ∀ a, e.messageTo a = if peer = a ∧ peer ∉ b.except then some b.message else none := by
  cases hstep with
  | send peer message => exact absurd rfl (hsend peer message)
  | broadcast message except => exact .inr (.inl ⟨message, except, rfl⟩)
  | broadcastSkip i b peer rest hcall hrest hexcept =>
      refine .inr (.inr ⟨i, b, peer, rest, hcall, hrest, rfl, fun a ↦ ?_⟩)
      simp [Event.messageTo, hexcept]
  | broadcastSend i b peer rest hcall hrest hexcept =>
      refine .inr (.inr ⟨i, b, peer, rest, hcall, hrest, rfl, fun a ↦ ?_⟩)
      simp [Event.messageTo, hexcept]
  | arriveKnown | arriveNew | peerConnected | received | deliver | nextReceived | endReceived
    | getPeers | drain | nextPeer => exact .inl ⟨rfl, fun _ ↦ rfl⟩

/-- A step of the server calls at most one delegate, which is then a step of
`ListenThread`. -/
theorem Server.Proceeds.callbacks {build : Build} {w : Winsock} {involved : Set NetAddress}
    {σ σ' : Server} {e : Event} (hstep : Proceeds build w involved σ e σ')
    (hsound : σ.Sound build involved) :
    σ'.callbacks = σ.callbacks ∨ Chat.listens e = true ∧
      ∃ callback, σ'.callbacks = σ.callbacks ++ [callback] ∧ callback.peer ∈ σ.peers := by
  cases hstep with
  | peerConnected peer received hlistening =>
      have hpeer : peer ∈ σ.peers := hsound.listening (by simp [hlistening, Listening.peers])
      exact .inr ⟨rfl, .peerConnected peer, rfl, hpeer⟩
  | deliver peer rest packet c hlistening hpop =>
      have hpeer : peer ∈ σ.peers := hsound.listening (by simp [hlistening, Listening.peers])
      by_cases hdata : packet.getType = .data
      · exact .inr ⟨rfl, .dataReceived peer packet.payload, by simp [callbacksFor, hdata], hpeer⟩
      · exact .inl (by simp [callbacksFor, hdata])
  | arriveKnown | arriveNew | received | nextReceived | endReceived | send | broadcast
    | broadcastSkip | broadcastSend | getPeers | drain | nextPeer => exact .inl rfl

theorem System.Step.server_eq {build : Build} {w : Winsock} {serverAddress : NetAddress}
    {S S' : System} {label : Label} (h : Step build w serverAddress S label S')
    (hlabel : ∀ e, label ≠ .server e) : S'.server = S.server := by
  cases h with
  | server e => exact absurd rfl (hlabel e)
  | start | client | loseToServer | loseToClient => rfl

namespace Chat

variable {build : Build} {w : Winsock} {involved : Set NetAddress} {serverAddress : NetAddress}
  {typed : NetAddress → List UInt8} {labels : List Label} {C C' : Chat} {a : NetAddress}
  {messages : NetAddress → List Message}

/-- Each thread makes its calls one after the other, and what has been scheduled
for an address is what the calls of the threads have come to. -/
structure Ordered (involved : Set NetAddress) (messages : NetAddress → List Message) (C : Chat) :
    Prop where
  length : C.calls.length = C.system.server.broadcasts.length
  fits : ∀ line ∈ C.calls, line.Fits involved
  entry : ∀ e ∈ C.entries, e.2.message = messageOf e.1.text ∧ e.2.except = e.1.except ∧
    e.2.peersCopy.Nodup ∧ e.2.rest <:+ e.2.peersCopy
  serial : Serial (fun e : Line × Broadcasting ↦ e.1.thread) (·.2.rest = []) C.entries
  running : ∀ i line b, C.calls[i]? = some line → C.system.server.broadcasts[i]? = some b →
    b.rest ≠ [] → C.phase line.thread = .calls i
  heard : ∀ a, ∃ order : List Line, messages a = order.map (fun line ↦ messageOf line.text) ∧
    ∀ t, order.filter (fun line ↦ line.thread = t) =
      gathered (·.1.thread) (scheduledFor a) t C.entries

theorem ordered_fresh : Ordered involved (fun _ ↦ []) {} where
  length := rfl
  fits := by simp
  entry := by simp [entries]
  serial := SerialCalls.serial_nil
  running := by simp
  heard _ := ⟨[], rfl, fun _ ↦ rfl⟩

/-- No call begins or goes on. A thread may have come back from its call. -/
theorem Ordered.frame (h : C.Ordered involved messages) (hcalls : C'.calls = C.calls)
    (hbroadcasts : C'.system.server.broadcasts = C.system.server.broadcasts)
    (hphase : ∀ t i b, C.phase t = .calls i → C.system.server.broadcasts[i]? = some b →
      b.rest ≠ [] → C'.phase t = .calls i) : C'.Ordered involved messages := by
  have hentries : C'.entries = C.entries := by rw [entries, hcalls, hbroadcasts, entries]
  refine ⟨?_, hcalls ▸ h.fits, hentries ▸ h.entry, hentries ▸ h.serial, ?_, ?_⟩
  · rw [hcalls, hbroadcasts, h.length]
  · intro i line b hline hb hrest
    rw [hcalls] at hline
    rw [hbroadcasts] at hb
    exact hphase _ i b (h.running i line b hline hb hrest) hb hrest
  · simpa only [hentries] using h.heard

theorem scheduledFor_next (a : NetAddress) (line : Line) {b : Broadcasting} {peer : NetAddress}
    {rest : List NetAddress} (hnodup : b.peersCopy.Nodup) (hsuffix : b.rest <:+ b.peersCopy)
    (hrest : b.rest = peer :: rest) :
    (peer = a ∧ peer ∉ b.except → scheduledFor a (line, b) = none ∧
      scheduledFor a (line, { b with rest := rest }) = some line) ∧
    (¬ (peer = a ∧ peer ∉ b.except) →
      scheduledFor a (line, { b with rest := rest }) = scheduledFor a (line, b)) := by
  have hnodup' : (peer :: rest).Nodup := hrest ▸ hsuffix.sublist.nodup hnodup
  have hcopy : peer ∈ b.peersCopy := hsuffix.subset (hrest ▸ List.mem_cons_self)
  refine ⟨?_, fun hother ↦ ?_⟩
  · rintro ⟨rfl, hexcept⟩
    simp [scheduledFor, hrest, hcopy, hexcept, (List.nodup_cons.mp hnodup').1]
  · by_cases hpeer : peer = a
    · subst hpeer
      have hexcept : peer ∈ b.except := not_not.mp fun hmem ↦ hother ⟨rfl, hmem⟩
      simp [scheduledFor, hexcept]
    · simp [scheduledFor, hrest, Ne.symm hpeer]

/-- A call goes on to its next peer. -/
theorem Ordered.next (h : C.Ordered involved messages) {i : ℕ} {b : Broadcasting}
    {peer : NetAddress} {rest : List NetAddress}
    (hcall : C.system.server.broadcasts[i]? = some b) (hrest : b.rest = peer :: rest)
    (hcalls : C'.calls = C.calls) (hset : C'.system.server.broadcasts =
      C.system.server.broadcasts.set i { b with rest := rest })
    (hphase : ∀ t i, C.phase t = .calls i → C'.phase t = .calls i) :
    C'.Ordered involved fun a ↦
      messages a ++ if peer = a ∧ peer ∉ b.except then [b.message] else [] := by
  obtain ⟨before, line, after, hline, hzip, hzip'⟩ :=
    SerialCalls.exists_zip_set h.length hcall { b with rest := rest }
  have hentries : C.entries = before ++ (line, b) :: after := hzip
  have hentries' : C'.entries = before ++ (line, { b with rest := rest }) :: after := by
    rw [entries, hcalls, hset, hzip']
  have hunfinished : b.rest ≠ [] := by simp [hrest]
  obtain ⟨hmessage, hexcept, hnodup, hsuffix⟩ : b.message = messageOf line.text ∧
      b.except = line.except ∧ b.peersCopy.Nodup ∧ b.rest <:+ b.peersCopy :=
    h.entry (line, b) (by simp [hentries])
  have hserial := h.serial
  rw [hentries] at hserial
  refine ⟨?_, hcalls ▸ h.fits, ?_, ?_, ?_, fun a ↦ ?_⟩
  · rw [hcalls, hset, List.length_set, h.length]
  · intro e he
    rw [hentries', List.mem_append, List.mem_cons] at he
    rcases he with he | rfl | he
    · exact h.entry e (by simp [hentries, he])
    · rw [hrest] at hsuffix
      exact ⟨hmessage, hexcept, hnodup, (List.suffix_cons peer rest).trans hsuffix⟩
    · exact h.entry e (by simp [hentries, he])
  · rw [hentries']
    exact hserial.replace hunfinished (line, { b with rest := rest }) rfl
  · intro j line' b' hline' hb' hrest'
    rw [hcalls] at hline'
    rw [hset] at hb'
    by_cases hij : i = j
    · subst hij
      exact hphase _ i (h.running i line' b hline' hcall hunfinished)
    · rw [List.getElem?_set_ne hij] at hb'
      exact hphase _ j (h.running j line' b' hline' hb' hrest')
  · obtain ⟨order, hmessages, horder⟩ := h.heard a
    obtain ⟨hnow, hsame⟩ := scheduledFor_next a line hnodup hsuffix hrest
    by_cases hpeer : peer = a ∧ peer ∉ b.except
    · obtain ⟨hnone, hsome⟩ := hnow hpeer
      refine ⟨order ++ [line], ?_, fun t ↦ ?_⟩
      · rw [if_pos hpeer, hmessages, hmessage, List.map_append, List.map_singleton]
      · rw [hentries', hserial.gathered_replace hunfinished (line, { b with rest := rest }) rfl
          hnone t, hsome, List.filter_append, horder t, hentries]
        by_cases ht : line.thread = t <;> simp [ht]
    · refine ⟨order, ?_, fun t ↦ ?_⟩
      · rw [if_neg hpeer, List.append_nil, hmessages]
      · rw [hentries', horder t, hentries]
        symm
        exact SerialCalls.gathered_replace_of_eq _ rfl (hsame hpeer)

/-- A thread begins a call. -/
theorem Ordered.begin (h : C.Ordered involved messages) {line : Line} {order : List NetAddress}
    (hfits : line.Fits involved) (hnodup : order.Nodup)
    (howes : C.phase line.thread = .owes line) (hcalls : C'.calls = C.calls ++ [line])
    (hbroadcasts : C'.system.server.broadcasts = C.system.server.broadcasts ++
      [⟨messageOf line.text, line.except, order, order⟩])
    (hphase : C'.phase = Function.update C.phase line.thread
      (.calls C.system.server.broadcasts.length)) : C'.Ordered involved messages := by
  have hentries : C'.entries =
      C.entries ++ [(line, ⟨messageOf line.text, line.except, order, order⟩)] := by
    rw [entries, hcalls, hbroadcasts, List.zip_append h.length]
    rfl
  have hidle : ∀ (i : ℕ) (line' : Line) (b : Broadcasting), C.calls[i]? = some line' →
      C.system.server.broadcasts[i]? = some b → line'.thread = line.thread → b.rest = [] := by
    intro i line' b hline' hb hthread
    by_contra hrest
    have hcalls := h.running i line' b hline' hb hrest
    rw [hthread, howes] at hcalls
    cases hcalls
  refine ⟨?_, ?_, ?_, ?_, ?_, fun a ↦ ?_⟩
  · simp [hcalls, hbroadcasts, h.length]
  · intro line' hline'
    rw [hcalls, List.mem_append, List.mem_singleton] at hline'
    rcases hline' with hline' | rfl
    · exact h.fits line' hline'
    · exact hfits
  · intro e he
    rw [hentries, List.mem_append, List.mem_singleton] at he
    rcases he with he | rfl
    · exact h.entry e he
    · exact ⟨rfl, rfl, hnodup, List.suffix_rfl⟩
  · rw [hentries]
    refine h.serial.snoc fun e he hthread ↦ ?_
    obtain ⟨i, hi⟩ := List.getElem?_of_mem he
    obtain ⟨hline', hb⟩ := List.getElem?_zip_eq_some.mp hi
    exact hidle i e.1 e.2 hline' hb hthread
  · intro i line' b hline' hb hrest
    rw [hcalls] at hline'
    rw [hbroadcasts] at hb
    rw [hphase]
    by_cases hi : i < C.calls.length
    · rw [List.getElem?_append_left hi] at hline'
      rw [List.getElem?_append_left (h.length ▸ hi)] at hb
      rw [Function.update_of_ne fun hthread ↦ hrest (hidle i line' b hline' hb hthread)]
      exact h.running i line' b hline' hb hrest
    · have hlt := (List.getElem?_eq_some_iff.mp hline').1
      rw [List.length_append, List.length_singleton] at hlt
      obtain rfl : i = C.calls.length := by omega
      rw [List.getElem?_concat_length, Option.some.injEq] at hline'
      rw [← hline', h.length, Function.update_self]
  · obtain ⟨lines, hmessages, hlines⟩ := h.heard a
    have hnone :
        scheduledFor a (line, ⟨messageOf line.text, line.except, order, order⟩) = none := by
      unfold scheduledFor
      exact if_neg fun hmem ↦ hmem.2.2 hmem.1
    refine ⟨lines, hmessages, fun t ↦ ?_⟩
    rw [hlines t, hentries, SerialCalls.gathered_append, SerialCalls.gathered_cons, hnone]
    simp

end Chat

end GioNet
