import GioNet.System
import GioNet.Traffic

/-!
# From end to end

As long as messages are small and the network only loses, repeats and reorders,
nothing in the whole system fails, and what the application hands to one end
comes out at the other: each reliable message at most once and in order.
-/

namespace GioNet

/-! ## Small packets are sent -/

theorem writePacket_small {packet : Packet Buffer} (h : packet.payload.payload.length ≤ 499) :
    (Buffer.writePacket packet).run {} = .ok ((), ⟨packet.wire⟩) := by
  have hlength := packet.wire_length
  exact Buffer.appends_writePacket (by omega) {} (by simp [vectorMax]; omega)

theorem sendto_small {w : Winsock} (hw : w.Sends) {packet : Packet Buffer}
    (h : packet.payload.payload.length ≤ 499) :
    w.sendto packet.wire (Buffer.length ⟨packet.wire⟩) = some packet.wire := by
  have hlength := packet.wire_length
  have hint : Buffer.length ⟨packet.wire⟩ = packet.wire.length := int32_of_lt (by dsimp only; omega)
  rw [hint]
  exact hw.sendto_small _ (by rw [bufferMax]; omega)

theorem sendPacket_small {w : Winsock} (hw : w.Sends) {packet : Packet Buffer}
    (h : packet.payload.payload.length ≤ 499) :
    sendPacket w {} packet = .ok (some packet.wire, {}) := by
  simp only [sendPacket, writePacket_small h, Fault.ok_bind, Socket.sendTo, sendto_small hw h]
  rfl

/-- The client sends the popped packet. -/
theorem Client.sent_of_drain {build : Build} {w : Winsock} {serverAddress : NetAddress}
    {κ κ' : Client} (hw : w.Sends) (h : κ.Sound serverAddress)
    (hstep : Client.Step build w κ .drain κ') {packet : Packet Buffer} {c : Connection Buffer}
    (hpop : κ.connectionToServer.popReadyOutgoingPacket = some (packet, c))
    (hsmall : packet.payload.payload.length ≤ 499) : κ'.sent = κ.sent ++ [packet.wire] := by
  have hsend := sendPacket_small hw hsmall
  rw [← h.socket] at hsend
  cases hstep with
  | drain packet' c' datagram socket hrun hsending hlock hvalid hpop' hsend' =>
      obtain ⟨rfl, -⟩ := Prod.mk.inj (Option.some.inj (hpop.symm.trans hpop'))
      obtain ⟨rfl, -⟩ := Prod.mk.inj (Except.ok.inj (hsend.symm.trans hsend'))
      rfl
  | drainFault packet' c' f hrun hsending hlock hpop' hsend' =>
      obtain ⟨rfl, -⟩ := Prod.mk.inj (Option.some.inj (hpop.symm.trans hpop'))
      cases hsend.symm.trans hsend'
  | drainClosed packet' c' hrun hsending hlock hvalid hpop' =>
      rw [h.socket] at hvalid
      cases hvalid

namespace System

/-! ## The invariant -/

def addresses (a serverAddress : NetAddress) : Side → NetAddress
  | .a => a
  | .b => serverAddress

/-- One client's share of the system after these steps. -/
def traffic (build : Build) (labels : List Label) (S : System) (a : NetAddress) (κ : Client) :
    Traffic where
  connection
    | .a => S.server.connection a
    | .b => κ.connectionToServer
  inFlight
    | .a => S.toClient a ++ κ.listening.inHand.map Packet.wire
    | .b => S.toServer a ++ (S.server.inHand build a).map Packet.wire
  messages
    | .a => labels.filterMap (Label.messageTo a)
    | .b => labels.filterMap (Label.messageFrom a)
  handed
    | .a => S.server.dataFor a
    | .b => κ.dataReceived

/-- Nobody has used the address. -/
structure Unused (labels : List Label) (S : System) (a : NetAddress) : Prop where
  toServer : S.toServer a = []
  toClient : S.toClient a = []
  not_peer : a ∉ S.server.peers
  dataFor : S.server.dataFor a = []
  messagesTo : labels.filterMap (Label.messageTo a) = []
  messagesFrom : labels.filterMap (Label.messageFrom a) = []

structure Sound (build : Build) (involved : Set NetAddress) (serverAddress : NetAddress)
    (labels : List Label) (S : System) : Prop where
  server : S.server.Sound build involved
  small : ∀ b ∈ S.server.broadcasts, b.message.data.payload.length ≤ 499
  involved : ∀ a κ, S.client a = some κ → a ∈ involved
  client : ∀ a κ, S.client a = some κ → κ.Sound serverAddress
  linked : ∀ a κ, S.client a = some κ →
    ∃ l, (S.traffic build labels a κ).Linked build (addresses a serverAddress) l
  unused : ∀ a, S.client a = none → S.Unused labels a

variable {build : Build} {w : Winsock} {involved : Set NetAddress} {serverAddress : NetAddress}
  {labels : List Label} {S : System} {a : NetAddress}

theorem sound_fresh : Sound build involved serverAddress [] {} where
  server := Server.sound_fresh
  small := by simp
  involved := by simp
  client := by simp
  linked := by simp
  unused _ _ := ⟨rfl, rfl, List.not_mem_nil, rfl, rfl, rfl⟩

theorem Sound.exists_client (h : S.Sound build involved serverAddress labels)
    (ha : a ∈ S.server.peers) : ∃ κ, S.client a = some κ := by
  cases hclient : S.client a with
  | none => exact absurd ha (h.unused a hclient).not_peer
  | some κ => exact ⟨κ, rfl⟩

theorem Sound.exists_client_of_mem (h : S.Sound build involved serverAddress labels)
    {datagram : List UInt8} (hmem : datagram ∈ S.toServer a) : ∃ κ, S.client a = some κ := by
  cases hclient : S.client a with
  | none =>
      rw [(h.unused a hclient).toServer] at hmem
      cases hmem
  | some κ => exact ⟨κ, rfl⟩

/-! ## The server's steps -/

theorem Sound.assumed (h : S.Sound build involved serverAddress labels) (hw : w.Sends)
    {e : Event} (hnetwork : ∀ a datagram, e.fromPeer a = some datagram → datagram ∈ S.toServer a)
    (hallowed : (Label.server e).Allowed involved) : e.Assumed build w involved := by
  have harrive : ∀ source datagram, e.fromPeer source = some datagram →
      source ∈ involved ∧ ∃ packet, decode build w datagram = some packet := by
    intro source datagram hfrom
    have hmem := hnetwork source datagram hfrom
    obtain ⟨κ, hκ⟩ := h.exists_client_of_mem hmem
    obtain ⟨l, hl⟩ := h.linked source κ hκ
    obtain ⟨hfits, hformed⟩ := hl.formed (s := .b) (List.mem_append_left _ hmem)
    exact ⟨h.involved source κ hκ, _, decode_of_wellFormed hw.toDocumented build hfits hformed⟩
  cases e with
  | arrive source datagram => exact harrive source datagram (by simp [Event.fromPeer])
  | ignored source datagram => exact harrive source datagram (by simp [Event.fromPeer])
  | broadcast message except => exact hallowed.2
  | _ => trivial

theorem Sound.careful (h : S.Sound build involved serverAddress labels) (hw : w.Sends)
    {e : Event} {σ : Server} (hstep : Server.Step build w S.server e σ)
    (hallowed : (Label.server e).Allowed involved) : S.server.Careful build w e := by
  cases e with
  | recvFailed => exact hallowed
  | received peer packet =>
      obtain ⟨received, rest, hlistening, hread⟩ : ∃ received rest,
          S.server.listening = .found peer received ∧
            (Buffer.readPacket build).run received = .ok (packet, rest) := by
        cases hstep with
        | received peer received packet rest c order hrun hlistening hread =>
            exact ⟨received, rest, hlistening, hread⟩
        | receivedFault peer received packet rest f hrun hlistening hread =>
            exact ⟨received, rest, hlistening, hread⟩
      have hpeer : peer ∈ S.server.peers :=
        h.server.listening (by simp [hlistening, Listening.peers])
      obtain ⟨κ, hκ⟩ := h.exists_client hpeer
      obtain ⟨l, hl⟩ := h.linked peer κ hκ
      have hinHand : S.server.inHand build peer = [packet] := by
        rw [Server.inHand_of_inHand (by rw [hlistening]; rfl) hread, if_pos rfl]
      have hmem : packet.wire ∈ (S.traffic build labels peer κ).inFlight .b := by
        simp [traffic, hinHand]
      exact fun hrel hid ↦ absurd hid (hl.id_ne hmem hrel)
  | drain peer =>
      intro packet c hpop
      have hpeer : peer ∈ S.server.peers := by
        cases hstep with
        | drain peer rest packet c datagram socket hrun hpeers =>
            exact h.server.connectedPeers (hpeers ▸ List.mem_cons_self)
        | drainFault peer rest packet c f hrun hpeers =>
            exact h.server.connectedPeers (hpeers ▸ List.mem_cons_self)
      obtain ⟨κ, hκ⟩ := h.exists_client hpeer
      obtain ⟨l, hl⟩ := h.linked peer κ hκ
      have hsmall := hl.small_queued (s := .a) hpop
      exact ⟨_, writePacket_small hsmall, by rw [sendto_small hw hsmall]; rfl⟩
  | _ => trivial

theorem Sound.server_proceeds (h : S.Sound build involved serverAddress labels)
    (hw : w.Sends) (hdistinct : Server.Distinct involved) {e : Event} {σ : Server}
    (hallowed : (Label.server e).Allowed involved) (hstep : Server.Step build w S.server e σ)
    (hnetwork : ∀ a datagram, e.fromPeer a = some datagram → datagram ∈ S.toServer a) :
    Server.Proceeds build w involved S.server e σ :=
  h.server.proceeds hdistinct
    ⟨⟨hstep, h.assumed hw hnetwork hallowed⟩, h.careful hw hstep hallowed⟩

/-- What the server has in hand was on its way. -/
theorem Sound.inHand_subset (h : S.Sound build involved serverAddress labels) (hw : w.Sends)
    {κ : Client} (hclient : S.client a = some κ) {e : Event} {σ : Server}
    (hproceeds : Server.Proceeds build w involved S.server e σ)
    (hnetwork : ∀ a datagram, e.fromPeer a = some datagram → datagram ∈ S.toServer a) :
    (σ.inHand build a).map Packet.wire ⊆
      S.toServer a ++ (S.server.inHand build a).map Packet.wire := by
  intro datagram hmem
  obtain ⟨p, hp, rfl⟩ := List.mem_map.mp hmem
  have hbefore : p ∈ S.server.inHand build a ++ (e.datagram build w a).toList := by
    rw [hproceeds.inHand a]
    exact List.mem_append_right _ hp
  rcases List.mem_append.mp hbefore with hold | hnew
  · exact List.mem_append_right _ (List.mem_map_of_mem hold)
  · obtain ⟨datagram, hfrom, hdecode⟩ : ∃ datagram, e.fromPeer a = some datagram ∧
        decode build w datagram = some p := by
      have hdatagram := Option.mem_toList.mp hnew
      cases e with
      | arrive source datagram | ignored source datagram =>
          by_cases hsource : source = a
          · exact ⟨datagram, by simp [Event.fromPeer, hsource],
              by simpa [Event.datagram, hsource] using hdatagram⟩
          · simp [Event.datagram, hsource] at hdatagram
      | _ => cases hdatagram
    have hdatagram := hnetwork a datagram hfrom
    obtain ⟨l, hl⟩ := h.linked a κ hclient
    have hmem' : datagram ∈ (S.traffic build labels a κ).inFlight .b :=
      List.mem_append_left _ hdatagram
    obtain ⟨hfits, hformed⟩ := hl.formed hmem'
    rw [decode_of_wellFormed hw.toDocumented build hfits hformed] at hdecode
    rw [← Option.some.inj hdecode, ← (hl.packetOf_mem hmem').2.1]
    exact List.mem_append_left _ hdatagram

theorem Sound.small_messageTo (h : S.Sound build involved serverAddress labels) {e : Event}
    {σ : Server} (hproceeds : Server.Proceeds build w involved S.server e σ)
    (hallowed : (Label.server e).Allowed involved) {m : Message} (hm : e.messageTo a = some m) :
    m.data.payload.length ≤ 499 := by
  cases hproceeds with
  | send peer message hmem =>
      simp only [Event.messageTo, Option.ite_none_right_eq_some, Option.some.injEq] at hm
      exact hm.2 ▸ hallowed
  | broadcastSend i b peer rest hcall hrest hexcept =>
      simp only [Event.messageTo, Option.ite_none_right_eq_some, Option.some.injEq] at hm
      exact hm.2 ▸ h.small b (List.mem_of_getElem? hcall)
  | _ => cases hm

/-- The system after a step of the server. -/
def afterServer (S : System) (σ : Server) : System :=
  { S with
    server := σ
    toClient := fun a ↦ S.toClient a ++ (σ.sentTo a).drop (S.server.sentTo a).length }

@[simp] theorem afterServer_server (S : System) (σ : Server) : (S.afterServer σ).server = σ := rfl

@[simp] theorem afterServer_toClient (S : System) (σ : Server) (a : NetAddress) :
    (S.afterServer σ).toClient a =
      S.toClient a ++ (σ.sentTo a).drop (S.server.sentTo a).length := rfl

/-- The client's end of the traffic stays as it is. -/
theorem linked_afterServer {κ : Client} {e : Event} {σ : Server} {v : Traffic} {l : Link Buffer}
    {scheduled : Option Message} (hscheduled : e.messageTo a = scheduled)
    (hl : v.Linked build (addresses a serverAddress) l)
    (hclient : v.connection .b = κ.connectionToServer ∧ v.handed .b = κ.dataReceived ∧
      v.messages .b = labels.filterMap (Label.messageFrom a))
    (hconnection : σ.connection a = v.connection .a) (hdata : σ.dataFor a = v.handed .a)
    (hmessages : labels.filterMap (Label.messageTo a) ++ scheduled.toList = v.messages .a)
    (hsent : (S.afterServer σ).toClient a ++ κ.listening.inHand.map Packet.wire ⊆ v.inFlight .a)
    (hinHand : S.toServer a ++ (σ.inHand build a).map Packet.wire ⊆ v.inFlight .b) :
    ((S.afterServer σ).traffic build (labels ++ [.server e]) a κ).Linked build
      (addresses a serverAddress) l := by
  obtain ⟨hconnection', hdata', hmessages'⟩ := hclient
  refine hl.congr ?_ ?_ ?_ ?_ <;> rintro (_ | _)
  · exact hconnection
  · exact hconnection'.symm
  · exact hsent
  · exact hinHand
  · rw [← hmessages, ← hscheduled]
    exact LabelledRun.filterMap_snoc (Label.messageTo a) labels (.server e)
  · rw [hmessages']
    exact (LabelledRun.filterMap_snoc (Label.messageFrom a) labels (.server e)).trans
      (List.append_nil _)
  · exact hdata
  · exact hdata'.symm

theorem Sound.linked_server (h : S.Sound build involved serverAddress labels) (hw : w.Sends)
    {κ : Client} (hclient : S.client a = some κ) {e : Event} {σ : Server}
    (hproceeds : Server.Proceeds build w involved S.server e σ)
    (hallowed : (Label.server e).Allowed involved)
    (hnetwork : ∀ a datagram, e.fromPeer a = some datagram → datagram ∈ S.toServer a) :
    ∃ l, Traffic.Linked build (addresses a serverAddress)
      ((S.afterServer σ).traffic build (labels ++ [.server e]) a κ) l := by
  obtain ⟨l, hl⟩ := h.linked a κ hclient
  have hinHand : S.toServer a ++ (σ.inHand build a).map Packet.wire ⊆
      S.toServer a ++ (S.server.inHand build a).map Packet.wire :=
    List.append_subset.mpr
      ⟨List.subset_append_left _ _, h.inHand_subset hw hclient hproceeds hnetwork⟩
  have hquiet : σ.sentTo a = S.server.sentTo a →
      (S.afterServer σ).toClient a ++ κ.listening.inHand.map Packet.wire ⊆
        S.toClient a ++ κ.listening.inHand.map Packet.wire := by
    intro hsent
    simp [afterServer, hsent]
  have heffect := hproceeds.effect h.server a
  have hsmall := fun m ↦ h.small_messageTo (a := a) (m := m) hproceeds hallowed
  obtain ⟨scheduled, hscheduled⟩ : ∃ scheduled, e.messageTo a = scheduled := ⟨_, rfl⟩
  rw [hscheduled] at heffect hsmall
  cases heffect with
  | frame hconnection hsent hdata =>
      exact ⟨l, linked_afterServer hscheduled hl ⟨rfl, rfl, rfl⟩ hconnection hdata
        (List.append_nil _) (hquiet hsent) hinHand⟩
  | schedule message hmem hconnection hsent hdata =>
      obtain ⟨l', hl'⟩ := hl.schedule .a (hsmall message rfl)
      exact ⟨l', linked_afterServer hscheduled hl' ⟨rfl, rfl, rfl⟩ hconnection hdata rfl
        (hquiet hsent) hinHand⟩
  | receive packet c hmem hhand hreceived hconnection hsent hdata =>
      have hwire : packet.wire ∈ (S.traffic build labels a κ).inFlight .b := by
        simp [traffic, hhand]
      obtain ⟨l', hl'⟩ := hl.receive (s := .a) hwire hreceived
      exact ⟨l', linked_afterServer hscheduled hl' ⟨rfl, rfl, rfl⟩ hconnection hdata
        (List.append_nil _) (hquiet hsent) hinHand⟩
  | deliver packet c hmem hpop hconnection hsent hdata =>
      obtain ⟨l', hl'⟩ := hl.consume (s := .a) hpop
      exact ⟨l', linked_afterServer hscheduled hl' ⟨rfl, rfl, rfl⟩ hconnection hdata
        (List.append_nil _) (hquiet hsent) hinHand⟩
  | drain packet c datagram hmem hpop hsend hconnection hsent hdata =>
      rw [sendPacket_small hw (hl.small_queued (s := .a) hpop)] at hsend
      obtain ⟨hdatagram, -⟩ := Prod.mk.inj (Except.ok.inj hsend)
      obtain rfl := Option.some.inj hdatagram
      obtain ⟨l', hl'⟩ := hl.pop (s := .a) hpop
      refine ⟨l', linked_afterServer hscheduled hl' ⟨rfl, rfl, rfl⟩ hconnection hdata
        (List.append_nil _) ?_ hinHand⟩
      intro datagram hmem
      simp only [traffic, afterServer, hsent, List.drop_left, List.mem_append,
        Function.update_self] at hmem ⊢
      tauto

theorem Sound.unused_server (h : S.Sound build involved serverAddress labels)
    (hclient : S.client a = none) {e : Event} {σ : Server}
    (hproceeds : Server.Proceeds build w involved S.server e σ)
    (hnetwork : ∀ a datagram, e.fromPeer a = some datagram → datagram ∈ S.toServer a) :
    (S.afterServer σ).Unused (labels ++ [.server e]) a := by
  have hunused := h.unused a hclient
  have heffect := hproceeds.effect h.server a
  have hpeer := hunused.not_peer
  have hlater : a ∉ σ.peers := by
    rw [hproceeds.mem_peers]
    rintro (hmem | ⟨datagram, rfl⟩)
    · exact hpeer hmem
    · have hdatagram := hnetwork a datagram (by simp [Event.fromPeer])
      rw [hunused.toServer] at hdatagram
      cases hdatagram
  have hto := LabelledRun.filterMap_snoc (Label.messageTo a) labels (.server e)
  have hfrom := LabelledRun.filterMap_snoc (Label.messageFrom a) labels (.server e)
  rw [hunused.messagesFrom] at hfrom
  rw [hunused.messagesTo, List.nil_append] at hto
  obtain ⟨scheduled, hscheduled⟩ : ∃ scheduled, e.messageTo a = scheduled := ⟨_, rfl⟩
  rw [Label.messageTo, hscheduled] at hto
  rw [hscheduled] at heffect
  cases heffect with
  | frame hconnection hsent hdata =>
      refine ⟨hunused.toServer, ?_, hlater, ?_, ?_, hfrom⟩
      · simp [afterServer, hunused.toClient, hsent]
      · exact hdata.trans hunused.dataFor
      · exact hto
  | schedule message hmem | receive packet c hmem | deliver packet c hmem
    | drain packet c datagram hmem => exact absurd hmem hpeer

theorem Sound.small_broadcast (h : S.Sound build involved serverAddress labels) {e : Event}
    {σ : Server} (hproceeds : Server.Proceeds build w involved S.server e σ)
    (hallowed : (Label.server e).Allowed involved) :
    ∀ b ∈ σ.broadcasts, b.message.data.payload.length ≤ 499 := by
  intro b hb
  rcases hproceeds.broadcasts {} with ⟨hsame, -⟩ | ⟨message, except, order, rfl, -, hnew⟩ |
      ⟨i, b', peer, rest, hcall, -, hset, -⟩
  · exact h.small b (hsame ▸ hb)
  · rw [hnew, List.mem_append, List.mem_singleton] at hb
    rcases hb with hb | rfl
    · exact h.small b hb
    · exact hallowed.1
  · rw [hset] at hb
    rcases List.mem_or_eq_of_mem_set hb with hb | rfl
    · exact h.small b hb
    · exact h.small b' (List.mem_of_getElem? hcall)

theorem Sound.server_step (h : S.Sound build involved serverAddress labels) (hw : w.Sends)
    (hdistinct : Server.Distinct involved) {e : Event} {σ : Server}
    (hallowed : (Label.server e).Allowed involved)
    (hstep : Server.Step build w S.server e σ)
    (hnetwork : ∀ a datagram, e.fromPeer a = some datagram → datagram ∈ S.toServer a) :
    (S.afterServer σ).Sound build involved serverAddress (labels ++ [.server e]) := by
  have hproceeds := h.server_proceeds hw hdistinct hallowed hstep hnetwork
  exact {
    server := h.server.step hproceeds
    small := h.small_broadcast hproceeds hallowed
    involved := h.involved
    client := h.client
    linked := fun a κ hclient ↦ h.linked_server hw hclient hproceeds hallowed hnetwork
    unused := fun a hclient ↦ h.unused_server hclient hproceeds hnetwork }

/-! ## The steps of the clients and of the network -/

/-- What a step that is not for this client may do: datagrams are lost. -/
structure Elsewhere (S S' : System) (label : Label) (a : NetAddress) : Prop where
  server : S'.server = S.server
  client : S'.client a = S.client a
  toServer : S'.toServer a ⊆ S.toServer a
  toClient : S'.toClient a ⊆ S.toClient a
  messageTo : label.messageTo a = none
  messageFrom : label.messageFrom a = none

theorem Elsewhere.messagesTo {S' : System} {label : Label} (h : Elsewhere S S' label a)
    (labels : List Label) : (labels ++ [label]).filterMap (Label.messageTo a) =
      labels.filterMap (Label.messageTo a) := by
  rw [LabelledRun.filterMap_snoc, h.messageTo]
  exact List.append_nil _

theorem Elsewhere.messagesFrom {S' : System} {label : Label} (h : Elsewhere S S' label a)
    (labels : List Label) : (labels ++ [label]).filterMap (Label.messageFrom a) =
      labels.filterMap (Label.messageFrom a) := by
  rw [LabelledRun.filterMap_snoc, h.messageFrom]
  exact List.append_nil _

theorem Elsewhere.linked {S' : System} {label : Label} (h : Elsewhere S S' label a) {κ : Client}
    (hlinked : ∃ l, (S.traffic build labels a κ).Linked build (addresses a serverAddress) l) :
    ∃ l, (S'.traffic build (labels ++ [label]) a κ).Linked build (addresses a serverAddress) l := by
  obtain ⟨l, hl⟩ := hlinked
  refine ⟨l, hl.congr ?_ ?_ ?_ ?_⟩ <;> rintro (_ | _)
  · exact congrArg (fun σ : Server ↦ σ.connection a) h.server
  · rfl
  · exact List.append_subset.mpr
      ⟨List.Subset.trans h.toClient (List.subset_append_left _ _), List.subset_append_right _ _⟩
  · simp only [traffic, h.server]
    exact List.append_subset.mpr
      ⟨List.Subset.trans h.toServer (List.subset_append_left _ _), List.subset_append_right _ _⟩
  · exact h.messagesTo labels
  · exact h.messagesFrom labels
  · exact congrArg (fun σ : Server ↦ σ.dataFor a) h.server
  · rfl

theorem Elsewhere.unused {S' : System} {label : Label} (h : Elsewhere S S' label a)
    (hunused : S.Unused labels a) : S'.Unused (labels ++ [label]) a where
  toServer := List.subset_nil.mp (hunused.toServer ▸ h.toServer)
  toClient := List.subset_nil.mp (hunused.toClient ▸ h.toClient)
  not_peer := h.server ▸ hunused.not_peer
  dataFor := h.server ▸ hunused.dataFor
  messagesTo := (h.messagesTo labels).trans hunused.messagesTo
  messagesFrom := (h.messagesFrom labels).trans hunused.messagesFrom

/-- A step that is for one client, or for none. -/
theorem Sound.of_elsewhere {S' : System} {label : Label}
    (h : S.Sound build involved serverAddress labels) (hserver : S'.server = S.server)
    (helsewhere : ∀ b ≠ a, Elsewhere S S' label b) {κ : Client} (hclient : S'.client a = some κ)
    (hinvolved : a ∈ involved) (hsound : κ.Sound serverAddress)
    (hlinked : ∃ l, (S'.traffic build (labels ++ [label]) a κ).Linked build
      (addresses a serverAddress) l) :
    S'.Sound build involved serverAddress (labels ++ [label]) where
  server := hserver ▸ h.server
  small := hserver ▸ h.small
  involved b κ' hb := by
    by_cases hba : b = a
    · exact hba ▸ hinvolved
    · exact h.involved b κ' ((helsewhere b hba).client ▸ hb)
  client b κ' hb := by
    by_cases hba : b = a
    · subst hba
      obtain rfl := Option.some.inj (hclient.symm.trans hb)
      exact hsound
    · exact h.client b κ' ((helsewhere b hba).client ▸ hb)
  linked b κ' hb := by
    by_cases hba : b = a
    · subst hba
      obtain rfl := Option.some.inj (hclient.symm.trans hb)
      exact hlinked
    · exact (helsewhere b hba).linked (h.linked b κ' ((helsewhere b hba).client ▸ hb))
  unused b hb := by
    by_cases hba : b = a
    · cases (hba ▸ hb).symm.trans hclient
    · exact (helsewhere b hba).unused (h.unused b ((helsewhere b hba).client ▸ hb))

/-- The system after a step of a client. -/
def afterClient (S : System) (a : NetAddress) (κ κ' : Client) : System :=
  { S with
    client := Function.update S.client a (some κ')
    toServer := Function.update S.toServer a (S.toServer a ++ κ'.sent.drop κ.sent.length) }

theorem elsewhere_afterClient (S : System) (κ κ' : Client) (e : Client.Event) {b : NetAddress}
    (hba : b ≠ a) : Elsewhere S (S.afterClient a κ κ') (.client a e) b where
  server := rfl
  client := Function.update_of_ne hba _ _
  toServer := by simp [afterClient, hba]
  toClient := List.Subset.refl _
  messageTo := rfl
  messageFrom := if_neg (Ne.symm hba)

/-- The server's end of the traffic stays as it is. -/
theorem linked_afterClient {κ κ' : Client} {e : Client.Event} {v : Traffic} {l : Link Buffer}
    (hl : v.Linked build (addresses a serverAddress) l)
    (hserver : v.connection .a = S.server.connection a ∧ v.handed .a = S.server.dataFor a ∧
      v.messages .a = labels.filterMap (Label.messageTo a))
    (hconnection : κ'.connectionToServer = v.connection .b) (hdata : κ'.dataReceived = v.handed .b)
    (hmessages : labels.filterMap (Label.messageFrom a) ++ e.message.toList = v.messages .b)
    (hsent : (S.toServer a ++ κ'.sent.drop κ.sent.length) ++
      (S.server.inHand build a).map Packet.wire ⊆ v.inFlight .b)
    (hinHand : S.toClient a ++ κ'.listening.inHand.map Packet.wire ⊆ v.inFlight .a) :
    ((S.afterClient a κ κ').traffic build (labels ++ [.client a e]) a κ').Linked build
      (addresses a serverAddress) l := by
  obtain ⟨hconnection', hdata', hmessages'⟩ := hserver
  refine hl.congr ?_ ?_ ?_ ?_ <;> rintro (_ | _)
  · exact hconnection'.symm
  · exact hconnection
  · exact hinHand
  · simpa [traffic, afterClient] using hsent
  · rw [hmessages']
    exact (LabelledRun.filterMap_snoc (Label.messageTo a) labels (.client a e)).trans
      (List.append_nil _)
  · have hlast := LabelledRun.filterMap_snoc (Label.messageFrom a) labels (.client a e)
    rw [Label.messageFrom, if_pos rfl] at hlast
    exact hlast.trans hmessages
  · exact hdata'.symm
  · exact hdata

theorem Sound.linked_client (h : S.Sound build involved serverAddress labels) (hw : w.Sends)
    {κ κ' : Client} (hclient : S.client a = some κ) {e : Client.Event}
    (hstep : Client.Step build w κ e κ') (hproceeds : Client.Proceeds build κ e κ')
    (hallowed : (Label.client a e).Allowed involved)
    (hnetwork : ∀ addr datagram, e = .arrive addr datagram →
      addr = serverAddress ∧ datagram ∈ S.toClient a) :
    ∃ l, Traffic.Linked build (addresses a serverAddress)
      ((S.afterClient a κ κ').traffic build (labels ++ [.client a e]) a κ') l := by
  obtain ⟨l, hl⟩ := h.linked a κ hclient
  have hquiet : κ'.sent = κ.sent → (S.toServer a ++ κ'.sent.drop κ.sent.length) ++
      (S.server.inHand build a).map Packet.wire ⊆
        S.toServer a ++ (S.server.inHand build a).map Packet.wire := by
    intro hsent
    simp [hsent]
  cases hproceeds with
  | arrive addr datagram hlistening hfits haddr =>
      have hmem := (hnetwork addr datagram rfl).2
      have hflight : datagram ∈ (S.traffic build labels a κ).inFlight .a :=
        List.mem_append_left _ hmem
      refine ⟨l, linked_afterClient hl ⟨rfl, rfl, rfl⟩ rfl rfl (List.append_nil _) (hquiet rfl) ?_⟩
      refine List.append_subset.mpr ⟨List.subset_append_left _ _, ?_⟩
      simp [Client.Listening.inHand, ← (hl.packetOf_mem hflight).2.1, traffic, hmem]
  | ignore addr datagram haddr =>
      exact ⟨l, linked_afterClient hl ⟨rfl, rfl, rfl⟩ rfl rfl (List.append_nil _) (hquiet rfl)
        (List.Subset.refl _)⟩
  | received received c hlistening hreceived =>
      have hwire : (packetOf received.payload).wire ∈ (S.traffic build labels a κ).inFlight .a := by
        simp [traffic, hlistening, Client.Listening.inHand]
      obtain ⟨l', hl'⟩ := hl.receive (s := .b) hwire hreceived
      refine ⟨l', linked_afterClient hl' ⟨rfl, rfl, rfl⟩ rfl rfl (List.append_nil _)
        (hquiet rfl) ?_⟩
      exact List.append_subset.mpr ⟨List.subset_append_left _ _, List.nil_subset _⟩
  | deliver packet c hlistening hpop =>
      have hdata : dataOf [packet] = [packet.payload] := by
        simp [dataOf, hl.typed_ready hpop]
      obtain ⟨l', hl'⟩ := hl.consume (s := .b) hpop
      refine ⟨l', linked_afterClient hl' ⟨rfl, rfl, rfl⟩ rfl ?_ (List.append_nil _) (hquiet rfl)
        (List.Subset.refl _)⟩
      simp [hdata, traffic]
  | endReceived hlistening hpop =>
      refine ⟨l, linked_afterClient hl ⟨rfl, rfl, rfl⟩ rfl rfl (List.append_nil _) (hquiet rfl) ?_⟩
      exact List.append_subset.mpr ⟨List.subset_append_left _ _, List.nil_subset _⟩
  | send message =>
      obtain ⟨l', hl'⟩ := hl.schedule .b (m := message) hallowed
      exact ⟨l', linked_afterClient hl' ⟨rfl, rfl, rfl⟩ rfl rfl rfl (hquiet rfl)
        (List.Subset.refl _)⟩
  | drain packet c datagram hpop =>
      have hsent := Client.sent_of_drain hw (h.client a κ hclient) hstep hpop
        (hl.small_queued (s := .b) hpop)
      obtain rfl := List.singleton_inj.mp (List.append_cancel_left hsent)
      obtain ⟨l', hl'⟩ := hl.pop (s := .b) hpop
      refine ⟨l', linked_afterClient hl' ⟨rfl, rfl, rfl⟩ rfl rfl (List.append_nil _) ?_
        (List.Subset.refl _)⟩
      intro d hd
      simp only [List.drop_left, List.mem_append, traffic, Function.update_self] at hd ⊢
      tauto
  | next sending =>
      exact ⟨l, linked_afterClient hl ⟨rfl, rfl, rfl⟩ rfl rfl (List.append_nil _) (hquiet rfl)
        (List.Subset.refl _)⟩

theorem Sound.client_step (h : S.Sound build involved serverAddress labels) (hw : w.Sends)
    {κ κ' : Client} (hclient : S.client a = some κ) {e : Client.Event}
    (hallowed : (Label.client a e).Allowed involved) (hstep : Client.Step build w κ e κ')
    (hnetwork : ∀ addr datagram, e = .arrive addr datagram →
      addr = serverAddress ∧ datagram ∈ S.toClient a) :
    (S.afterClient a κ κ').Sound build involved serverAddress (labels ++ [.client a e]) := by
  obtain ⟨l, hl⟩ := h.linked a κ hclient
  have hformed : ∀ addr datagram, e = .arrive addr datagram →
      datagram.length ≤ bufferMax ∧ WellFormed datagram := by
    intro addr datagram he
    exact hl.formed (s := .a) (List.mem_append_left _ (hnetwork addr datagram he).2)
  have hcareful : κ.Careful w e := by
    cases e with
    | arrive addr datagram => exact (hformed addr datagram rfl).1
    | recvFailed | stop => exact hallowed
    | drain =>
        intro packet c hpop
        have hsmall := hl.small_queued (s := .b) hpop
        exact ⟨_, writePacket_small hsmall, by rw [sendto_small hw hsmall]; rfl⟩
    | _ => trivial
  have hwell : e.Formed serverAddress := by
    intro datagram hfrom
    cases e with
    | arrive addr datagram' =>
        simp only [Client.Event.fromServer, Option.ite_none_right_eq_some,
          Option.some.injEq] at hfrom
        exact hfrom.2 ▸ (hformed addr datagram' rfl).2
    | _ => cases hfrom
  have hsound := h.client a κ hclient
  have hproceeds := hsound.proceeds hw.toDocumented ⟨hstep, hcareful⟩
  refine h.of_elsewhere rfl (fun b ↦ elsewhere_afterClient S κ κ' e) (a := a) ?_
    (h.involved a κ hclient) (hsound.step hwell hproceeds)
    (h.linked_client hw hclient hstep hproceeds hallowed hnetwork)
  simp [afterClient]

theorem Unused.inHand (h : S.Unused labels a) (hserver : S.server.Sound build involved) :
    S.server.inHand build a = [] := by
  have hlistening := hserver.listening
  unfold Server.inHand
  cases hhand : S.server.listening with
  | added peer received | found peer received =>
      have hpeer : peer ≠ a := by
        rintro rfl
        exact h.not_peer (hlistening (by simp [hhand, Listening.peers]))
      simp [Listening.inHand, hpeer]
  | receiving | processing | stuck => rfl

/-- The client that `Start` leaves. -/
def startedClient (serverAddress : NetAddress) : Client :=
  { Client.make serverAddress with sent := [Client.pingPacket.wire] }

/-- The system after the start of a client. -/
def afterStart (S : System) (a serverAddress : NetAddress) : System :=
  { S with
    client := Function.update S.client a (some (startedClient serverAddress))
    toServer := Function.update S.toServer a (S.toServer a ++ [Client.pingPacket.wire]) }

theorem Sound.linked_start (h : S.Sound build involved serverAddress labels)
    (hnew : S.client a = none) :
    ∃ l, Traffic.Linked build (addresses a serverAddress)
      ((S.afterStart a serverAddress).traffic build (labels ++ [.start a]) a
        (startedClient serverAddress)) l := by
  have hunused := h.unused a hnew
  have hto := LabelledRun.filterMap_snoc (Label.messageTo a) labels (.start a)
  have hfrom := LabelledRun.filterMap_snoc (Label.messageFrom a) labels (.start a)
  rw [hunused.messagesTo] at hto
  rw [hunused.messagesFrom] at hfrom
  refine ⟨_, (Traffic.linked_started build (addresses a serverAddress)).congr ?_ ?_ ?_ ?_⟩ <;>
    rintro (_ | _)
  · exact h.server.outside a hunused.not_peer
  · rfl
  · simp [traffic, afterStart, hunused.toClient, startedClient, Client.make,
      Client.Listening.inHand]
  · simp [traffic, afterStart, hunused.toServer, hunused.inHand h.server, Traffic.started]
  · exact hto
  · exact hfrom
  · exact hunused.dataFor
  · rfl

theorem Sound.start_step (h : S.Sound build involved serverAddress labels)
    (hallowed : (Label.start a).Allowed involved) (hnew : S.client a = none) :
    (S.afterStart a serverAddress).Sound build involved serverAddress (labels ++ [.start a]) := by
  have helsewhere : ∀ b ≠ a, Elsewhere S (S.afterStart a serverAddress) (.start a) b := by
    intro b hba
    exact ⟨rfl, Function.update_of_ne hba _ _, by simp [afterStart, hba], List.Subset.refl _, rfl,
      rfl⟩
  have hsound : (startedClient serverAddress).Sound serverAddress :=
    ⟨rfl, rfl, rfl, rfl, by simp [startedClient, Client.make],
      by simp [startedClient, Client.make], fun _ ↦ rfl⟩
  refine h.of_elsewhere rfl helsewhere ?_ hallowed hsound (h.linked_start hnew)
  simp [afterStart]

/-- A step that is for nobody. -/
theorem Sound.of_elsewhere_all {S' : System} {label : Label}
    (h : S.Sound build involved serverAddress labels) (hserver : S'.server = S.server)
    (helsewhere : ∀ b, Elsewhere S S' label b) :
    S'.Sound build involved serverAddress (labels ++ [label]) where
  server := hserver ▸ h.server
  small := hserver ▸ h.small
  involved b κ hb := h.involved b κ ((helsewhere b).client ▸ hb)
  client b κ hb := h.client b κ ((helsewhere b).client ▸ hb)
  linked b κ hb := (helsewhere b).linked (h.linked b κ ((helsewhere b).client ▸ hb))
  unused b hb := (helsewhere b).unused (h.unused b ((helsewhere b).client ▸ hb))

theorem lost_subset {network : NetAddress → List (List UInt8)} (a : NetAddress) (i : ℕ)
    (b : NetAddress) :
    Function.update network a ((network a).eraseIdx i) b ⊆ network b := by
  rw [Function.update_apply]
  split
  · rename_i hba
    exact hba ▸ (List.eraseIdx_sublist _ i).subset
  · exact List.Subset.refl _

theorem Sound.step {S' : System} {label : Label}
    (h : S.Sound build involved serverAddress labels) (hw : w.Sends)
    (hdistinct : Server.Distinct involved) (hallowed : label.Allowed involved)
    (hstep : Step build w serverAddress S label S') :
    S'.Sound build involved serverAddress (labels ++ [label]) := by
  cases hstep with
  | start a κ hnew hstart =>
      obtain rfl := Except.ok.inj ((Client.start_eq hw serverAddress).symm.trans hstart)
      exact h.start_step hallowed hnew
  | server e σ hstep hnetwork => exact h.server_step hw hdistinct hallowed hstep hnetwork
  | client a e κ κ' hclient hstep hnetwork =>
      exact h.client_step hw hclient hallowed hstep hnetwork
  | loseToServer a i =>
      exact h.of_elsewhere_all rfl fun b ↦
        ⟨rfl, rfl, lost_subset a i b, List.Subset.refl _, rfl, rfl⟩
  | loseToClient a i =>
      exact h.of_elsewhere_all rfl fun b ↦
        ⟨rfl, rfl, List.Subset.refl _, lost_subset a i b, rfl, rfl⟩

theorem sound_of_run (hw : w.Sends) (hdistinct : Server.Distinct involved)
    (hlabels : ∀ label ∈ labels, label.Allowed involved)
    (hrun : LabelledRun.Run (Step build w serverAddress) {} labels S) :
    S.Sound build involved serverAddress labels :=
  hrun.history_invariant (Label.Allowed involved) (fun labels S ↦
    S.Sound build involved serverAddress labels) hlabels sound_fresh
    fun _ _ _ _ h hallowed hstep ↦ h.step hw hdistinct hallowed hstep

/-! ## Nothing fails and nothing is made up -/

/-- No process is terminated, no socket is closed, no thread is stuck, the server
knows nobody but clients, and all that is on its way can be received. -/
structure Healthy (S : System) : Prop where
  server : S.server.aborted = false ∧ S.server.socket.isValid = true ∧
    ∀ peer, S.server.listening ≠ .stuck peer
  client : ∀ a κ, S.client a = some κ →
    κ.aborted = false ∧ κ.isConnected = true ∧ κ.listening ≠ .stuck
  peers : ∀ a ∈ S.server.peers, ∃ κ, S.client a = some κ
  network : ∀ a datagram, datagram ∈ S.toServer a ++ S.toClient a →
    datagram.length ≤ bufferMax ∧ WellFormed datagram

theorem Sound.mem_toClient (h : S.Sound build involved serverAddress labels)
    {datagram : List UInt8} (hmem : datagram ∈ S.toClient a) : ∃ κ, S.client a = some κ := by
  cases hclient : S.client a with
  | none =>
      rw [(h.unused a hclient).toClient] at hmem
      cases hmem
  | some κ => exact ⟨κ, rfl⟩

theorem Sound.network (h : S.Sound build involved serverAddress labels) {datagram : List UInt8}
    (hmem : datagram ∈ S.toServer a ++ S.toClient a) :
    datagram.length ≤ bufferMax ∧ WellFormed datagram := by
  rcases List.mem_append.mp hmem with hserver | hclient
  · obtain ⟨κ, hκ⟩ := h.exists_client_of_mem hserver
    obtain ⟨l, hl⟩ := h.linked a κ hκ
    exact hl.formed (s := .b) (List.mem_append_left _ hserver)
  · obtain ⟨κ, hκ⟩ := h.mem_toClient hclient
    obtain ⟨l, hl⟩ := h.linked a κ hκ
    exact hl.formed (s := .a) (List.mem_append_left _ hclient)

theorem Sound.healthy (h : S.Sound build involved serverAddress labels) : S.Healthy := by
  refine ⟨⟨h.server.running, ?_, h.server.free⟩, fun a κ hκ ↦ ?_, fun a ha ↦ h.exists_client ha,
    fun a datagram hmem ↦ h.network hmem⟩
  · rw [h.server.socket]
  · have hclient := h.client a κ hκ
    refine ⟨hclient.running, ?_, hclient.free⟩
    rw [Client.isConnected, hclient.socket]

/-- However many messages there are, nothing fails. -/
theorem healthy_of_run (hw : w.Sends) (hdistinct : Server.Distinct involved)
    (hlabels : ∀ label ∈ labels, label.Allowed involved)
    (hrun : LabelledRun.Run (Step build w serverAddress) {} labels S) : S.Healthy :=
  (sound_of_run hw hdistinct hlabels hrun).healthy

/-- As long as a client and the server have exchanged at most `65534` reliable
messages each way, each hands over what the other has sent. -/
theorem delivered_of_run (hw : w.Sends) (hdistinct : Server.Distinct involved)
    (hlabels : ∀ label ∈ labels, label.Allowed involved)
    (hrun : LabelledRun.Run (Step build w serverAddress) {} labels S) {κ : Client}
    (hclient : S.client a = some κ)
    (hto : ((labels.filterMap (Label.messageTo a)).filter (·.reliable)).length ≤ 65534)
    (hfrom : ((labels.filterMap (Label.messageFrom a)).filter (·.reliable)).length ≤ 65534) :
    Traffic.Delivered (labels.filterMap (Label.messageTo a)) κ.dataReceived ∧
      Traffic.Delivered (labels.filterMap (Label.messageFrom a)) (S.server.dataFor a) := by
  obtain ⟨l, hl⟩ := (sound_of_run hw hdistinct hlabels hrun).linked a κ hclient
  exact ⟨hl.delivered (s := .a) hto, hl.delivered (s := .b) hfrom⟩

/-! ### One question -/

def question : Message := { reliable := true, data := ⟨[7]⟩ }

/-- The packet of the question when it is popped. -/
def questionPacket : Packet Buffer := { question.packet with id := 1 }

open Server (firstPeer secondPeer)

def asking : List Label :=
  [.start firstPeer, .client firstPeer (.send question), .client firstPeer .next,
    .client firstPeer .drain, .server (.arrive firstPeer questionPacket.wire),
    .server .peerConnected, .server (.received firstPeer questionPacket), .server .deliver]

theorem allowed_asking : ∀ label ∈ asking, label.Allowed {firstPeer} := by
  simp [asking, Label.Allowed, question]

theorem distinct_firstPeer : Server.Distinct {firstPeer} := by
  rintro a rfl b rfl -
  rfl

theorem afterStart_client (S : System) (a serverAddress : NetAddress) :
    (S.afterStart a serverAddress).client a = some (startedClient serverAddress) :=
  Function.update_self ..

theorem afterClient_client (S : System) (a : NetAddress) (κ κ' : Client) :
    (S.afterClient a κ κ').client a = some κ' :=
  Function.update_self ..

theorem mem_toServer_afterClient {κ κ' : Client} {datagram : List UInt8}
    (h : κ'.sent = κ.sent ++ [datagram]) :
    datagram ∈ (S.afterClient a κ κ').toServer a := by
  simp [afterClient, h]

/-- The client's question arrives and is delivered. The ping is still on its way. -/
theorem exists_asking : ∃ S, LabelledRun.Run (Step .debug .datagrams secondPeer) {} asking S ∧
    (S.client firstPeer).isSome = true ∧ S.server.dataFor firstPeer = [⟨[7]⟩] := by
  have hw := Winsock.datagrams_sends
  have hstart : Step .debug .datagrams secondPeer {} (.start firstPeer)
      (afterStart {} firstPeer secondPeer) :=
    .start firstPeer _ rfl (Client.start_eq hw secondPeer)
  obtain ⟨hreceive, hread⟩ :=
    Socket.receiveFrom_wire hw.toDocumented .debug {} (p := questionPacket) (by decide)
  have hrun₁ := LabelledRun.Run.single hstart
  have hrun₂ := hrun₁.snoc (.client firstPeer _ _ _ (afterStart_client ..)
    (.send question rfl) (by simp))
  have hrun₃ := hrun₂.snoc (.client firstPeer _ _ _ (afterClient_client ..)
    (.beginSending rfl rfl ⟨rfl, rfl⟩) (by simp))
  have hrun₄ := hrun₃.snoc (.client firstPeer _ _ _ (afterClient_client ..)
    (.drain questionPacket _ _ _ rfl rfl (by rintro ⟨⟩) rfl rfl (sendPacket_small hw (by decide)))
    (by simp))
  have hrun₅ := hrun₄.snoc (.server (.arrive firstPeer questionPacket.wire) _
    (.arrive firstPeer questionPacket.wire _ _ rfl rfl rfl hreceive) (by
      intro a datagram hfrom
      obtain ⟨rfl, rfl⟩ : firstPeer = a ∧ questionPacket.wire = datagram := by
        simpa [Event.fromPeer] using hfrom
      exact mem_toServer_afterClient rfl))
  have hrun₆ := hrun₅.snoc (.server _ _ (.peerConnected firstPeer _ rfl rfl)
    (by simp [Event.fromPeer]))
  have hrun₇ := hrun₆.snoc (.server _ _ (.received firstPeer _ questionPacket _ _ [firstPeer] rfl
    rfl hread rfl (List.Perm.refl _)) (by simp [Event.fromPeer]))
  have hrun₈ := hrun₇.snoc (.server _ _ (.deliver firstPeer [] questionPacket _ rfl rfl rfl)
    (by simp [Event.fromPeer]))
  exact ⟨_, hrun₈, rfl, rfl⟩

theorem healthy_after_asking : ∃ S,
    LabelledRun.Run (Step .debug .datagrams secondPeer) {} asking S ∧
      S.server.dataFor firstPeer = [⟨[7]⟩] ∧ S.Healthy := by
  obtain ⟨S, hrun, -, hdata⟩ := exists_asking
  exact ⟨S, hrun, hdata, healthy_of_run Winsock.datagrams_sends distinct_firstPeer
    allowed_asking hrun⟩

theorem delivered_after_asking : ∃ S κ,
    LabelledRun.Run (Step .debug .datagrams secondPeer) {} asking S ∧
      S.client firstPeer = some κ ∧ S.server.dataFor firstPeer = [⟨[7]⟩] ∧
        Traffic.Delivered [] κ.dataReceived ∧
          Traffic.Delivered [question] (S.server.dataFor firstPeer) := by
  obtain ⟨S, hrun, hstarted, hdata⟩ := exists_asking
  obtain ⟨κ, hκ⟩ := Option.isSome_iff_exists.mp hstarted
  exact ⟨S, κ, hrun, hκ, hdata, delivered_of_run Winsock.datagrams_sends distinct_firstPeer
    allowed_asking hrun hκ (by decide) (by decide)⟩

end System

end GioNet
