import GioNet.EndToEnd

/-!
# A message can always get through

Whatever has been lost and wherever the threads are, what an application sends
without reliability can still come out at the other end: no state that a run
reaches is a deadlock.
-/

namespace GioNet

theorem Connection.popReadyOutgoingPacket_eq_none_iff {β : Type} {c : Connection β} :
    c.popReadyOutgoingPacket = none ↔ c.outgoing.readyPackets = [] := by
  unfold popReadyOutgoingPacket PacketStream.popNextReadyPacket
  cases c.outgoing.readyPackets <;> simp

theorem Message.mem_readyPackets_schedule {m : Message} (h : m.reliable = false)
    (c : Connection Buffer) : m.packet ∈ (c.schedule m.packet).outgoing.readyPackets := by
  rw [Connection.schedule_of_unreliable (by rw [Message.packet_isReliable, h])]
  simp

namespace System

/-! ## Quiet steps -/

/-- The threads go on, and nothing is sent anew or lost. -/
def Label.Quiet : Label → Prop
  | .server (.arrive _ _) => True
  | .server .peerConnected => True
  | .server (.received _ _) => True
  | .server .deliver => True
  | .server (.drain _) => True
  | .server .next => True
  | .client _ (.arrive _ _) => True
  | .client _ (.received _) => True
  | .client _ .deliver => True
  | .client _ .drain => True
  | .client _ .next => True
  | _ => False

theorem Label.Quiet.allowed {label : Label} (h : label.Quiet) (involved : Set NetAddress) :
    label.Allowed involved := by
  cases label with
  | start a | loseToServer a i | loseToClient a i => exact h.elim
  | server e => cases e <;> trivial
  | client a e => cases e <;> trivial

def Continues (build : Build) (w : Winsock) (serverAddress : NetAddress) (S S' : System) : Prop :=
  ∃ labels, LabelledRun.Run (Step build w serverAddress) S labels S' ∧ ∀ label ∈ labels, label.Quiet

def Steady (build : Build) (involved : Set NetAddress) (serverAddress : NetAddress)
    (S : System) : Prop :=
  ∃ labels, S.Sound build involved serverAddress labels

variable {build : Build} {w : Winsock} {involved : Set NetAddress} {serverAddress : NetAddress}
  {S S' S'' : System} {a : NetAddress}

theorem Continues.refl (S : System) : Continues build w serverAddress S S :=
  ⟨[], .nil, by simp⟩

theorem Continues.trans (h : Continues build w serverAddress S S')
    (h' : Continues build w serverAddress S' S'') : Continues build w serverAddress S S'' := by
  obtain ⟨labels, hrun, hquiet⟩ := h
  obtain ⟨labels', hrun', hquiet'⟩ := h'
  refine ⟨labels ++ labels', hrun.append hrun', fun label hmem ↦ ?_⟩
  rcases List.mem_append.mp hmem with hmem | hmem
  · exact hquiet label hmem
  · exact hquiet' label hmem

theorem Continues.single {label : Label} (hstep : Step build w serverAddress S label S')
    (hquiet : label.Quiet) : Continues build w serverAddress S S' :=
  ⟨[label], .single hstep, by simpa using hquiet⟩

theorem Steady.step {label : Label} (h : S.Steady build involved serverAddress)
    (hw : w.Sends) (hdistinct : Server.Distinct involved)
    (hstep : Step build w serverAddress S label S') (hquiet : label.Quiet) :
    S'.Steady build involved serverAddress := by
  obtain ⟨labels, hsound⟩ := h
  exact ⟨_, hsound.step hw hdistinct (hquiet.allowed involved) hstep⟩

theorem Steady.continues (h : S.Steady build involved serverAddress) (hw : w.Sends)
    (hdistinct : Server.Distinct involved) (hcontinues : Continues build w serverAddress S S') :
    S'.Steady build involved serverAddress := by
  obtain ⟨labels, hrun, hquiet⟩ := hcontinues
  exact hrun.invariant_of_allowed Label.Quiet (Steady build involved serverAddress) hquiet h
    fun _ _ _ h hquiet hstep ↦ h.step hw hdistinct hstep hquiet

/-! ## What has been sent and handed over stays -/

structure Later (S S' : System) : Prop where
  toServer : ∀ a, S.toServer a ⊆ S'.toServer a
  toClient : ∀ a, S.toClient a ⊆ S'.toClient a
  dataFor : ∀ a, S.server.dataFor a <+: S'.server.dataFor a
  dataReceived : ∀ a κ, S.client a = some κ →
    ∃ κ', S'.client a = some κ' ∧ κ.dataReceived <+: κ'.dataReceived
  peers : S.server.peers ⊆ S'.server.peers

theorem Later.refl (S : System) : Later S S where
  toServer _ := List.Subset.refl _
  toClient _ := List.Subset.refl _
  dataFor _ := List.prefix_rfl
  dataReceived _ κ hκ := ⟨κ, hκ, List.prefix_rfl⟩
  peers := List.Subset.refl _

theorem Later.trans (h : Later S S') (h' : Later S' S'') : Later S S'' where
  toServer a := List.Subset.trans (h.toServer a) (h'.toServer a)
  toClient a := List.Subset.trans (h.toClient a) (h'.toClient a)
  dataFor a := (h.dataFor a).trans (h'.dataFor a)
  dataReceived a κ hκ := by
    obtain ⟨κ', hκ', hdata⟩ := h.dataReceived a κ hκ
    obtain ⟨κ'', hκ'', hdata'⟩ := h'.dataReceived a κ' hκ'
    exact ⟨κ'', hκ'', hdata.trans hdata'⟩
  peers := List.Subset.trans h.peers h'.peers

theorem later_afterServer {labels : List Label} (h : S.Sound build involved serverAddress labels)
    {e : Event} {σ : Server} (hproceeds : Server.Proceeds build w involved S.server e σ) :
    Later S (S.afterServer σ) where
  toServer _ := List.Subset.refl _
  toClient _ := List.subset_append_left _ _
  dataFor a := by
    have heffect := hproceeds.effect h.server a
    generalize e.messageTo a = scheduled at heffect
    cases heffect with
    | frame hconnection hsent hdata | schedule message hmem hconnection hsent hdata
      | receive packet c hmem hhand hreceived hconnection hsent hdata
      | drain packet c datagram hmem hpop hsend hconnection hsent hdata =>
        exact hdata ▸ List.prefix_rfl
    | deliver packet c hmem hpop hconnection hsent hdata =>
        exact hdata ▸ List.prefix_append _ _
  dataReceived _ κ hκ := ⟨κ, hκ, List.prefix_rfl⟩
  peers b hb := (hproceeds.mem_peers b).mpr (.inl hb)

theorem dataReceived_prefix {κ κ' : Client} {e : Client.Event}
    (hstep : Client.Step build w κ e κ') : κ.dataReceived <+: κ'.dataReceived := by
  cases hstep with
  | deliver => exact List.prefix_append _ _
  | arrive addr datagram received socket =>
      simp only [Client.take]
      split <;> exact List.prefix_rfl
  | arriveFailed | recvFailed =>
      simp only [Client.receiveFailed]
      split <;> exact List.prefix_rfl
  | receivedFault =>
      simp only [Client.fault]
      split <;> exact List.prefix_rfl
  | send =>
      simp only [Client.send]
      split <;> exact List.prefix_rfl
  | _ => exact List.prefix_rfl

theorem later_afterClient {κ κ' : Client} {e : Client.Event} (hclient : S.client a = some κ)
    (hstep : Client.Step build w κ e κ') : Later S (S.afterClient a κ κ') where
  toServer b := by
    by_cases hba : b = a
    · subst hba
      simp [afterClient]
    · simp [afterClient, hba]
  toClient _ := List.Subset.refl _
  dataFor _ := List.prefix_rfl
  dataReceived b κ₁ hκ₁ := by
    by_cases hba : b = a
    · subst hba
      obtain rfl := Option.some.inj (hclient.symm.trans hκ₁)
      exact ⟨κ', afterClient_client .., dataReceived_prefix hstep⟩
    · exact ⟨κ₁, by simpa [afterClient, hba] using hκ₁, List.prefix_rfl⟩
  peers := List.Subset.refl _

theorem Steady.later_step {label : Label} (h : S.Steady build involved serverAddress)
    (hw : w.Sends) (hdistinct : Server.Distinct involved)
    (hstep : Step build w serverAddress S label S') (hquiet : label.Quiet) : Later S S' := by
  obtain ⟨labels, hsound⟩ := h
  cases hstep with
  | start | loseToServer | loseToClient => exact hquiet.elim
  | server e σ hstep hnetwork =>
      exact later_afterServer hsound
        (hsound.server_proceeds hw hdistinct (hquiet.allowed involved) hstep hnetwork)
  | client a e κ κ' hclient hstep hnetwork => exact later_afterClient hclient hstep

theorem Steady.later (h : S.Steady build involved serverAddress) (hw : w.Sends)
    (hdistinct : Server.Distinct involved) (hcontinues : Continues build w serverAddress S S') :
    Later S S' := by
  obtain ⟨labels, hrun, hquiet⟩ := hcontinues
  have hboth := hrun.invariant_of_allowed Label.Quiet
    (fun T ↦ T.Steady build involved serverAddress ∧ Later S T) hquiet ⟨h, .refl S⟩
    fun T label T' hT hquiet hstep ↦ ⟨hT.1.step hw hdistinct hstep hquiet,
      hT.2.trans (hT.1.later_step hw hdistinct hstep hquiet)⟩
  exact hboth.2

/-! ## `SendThread` of a client -/

/-- The packet is on its way, with some acks. -/
def Sent (network : List (List UInt8)) (q : Packet Buffer) : Prop :=
  ∃ p : Packet Buffer, p.header = q.header ∧ p.payload = q.payload ∧ p.wire ∈ network

theorem Sent.mono {network network' : List (List UInt8)} {q : Packet Buffer} (h : Sent network q)
    (hsub : network ⊆ network') : Sent network' q := by
  obtain ⟨p, hheader, hpayload, hmem⟩ := h
  exact ⟨p, hheader, hpayload, hsub hmem⟩

theorem Sent.exists_packet {network : List (List UInt8)} {m : Message}
    (h : Sent network m.packet) (hrel : m.reliable = false) :
    ∃ p : Packet Buffer, p.isReliable = false ∧ p.getType = .data ∧ p.payload = m.data ∧
      p.wire ∈ network := by
  obtain ⟨p, hheader, hpayload, hmem⟩ := h
  refine ⟨p, ?_, ?_, hpayload.trans (Message.packet_payload m), hmem⟩
  · rw [Packet.isReliable, Packet.hasFlags, hheader]
    exact m.packet_isReliable.trans hrel
  · rw [Packet.getType, hheader]
    exact m.packet_getType

theorem exists_drain {labels : List Label} (h : S.Sound build involved serverAddress labels)
    (hw : w.Sends) {κ : Client} (hclient : S.client a = some κ) (hsending : κ.sending = true)
    {q : Packet Buffer} {rest : List (Packet Buffer)}
    (hready : κ.connectionToServer.outgoing.readyPackets = q :: rest) :
    ∃ κ', Step build w serverAddress S (.client a .drain) (S.afterClient a κ κ') ∧
      κ'.sending = true ∧ κ'.connectionToServer.outgoing.readyPackets = rest ∧
      Sent ((S.afterClient a κ κ').toServer a) q := by
  obtain ⟨p, c, hpop, hheader, hpayload, hrest⟩ : ∃ p c,
      κ.connectionToServer.popReadyOutgoingPacket = some (p, c) ∧ p.header = q.header ∧
        p.payload = q.payload ∧ c.outgoing.readyPackets = rest :=
    ⟨_, _, Connection.popReadyOutgoingPacket_eq_some_iff.mpr ⟨q, rest, hready, rfl, rfl⟩, rfl, rfl,
      rfl⟩
  obtain ⟨l, hl⟩ := h.linked a κ hclient
  have hκ := h.client a κ hclient
  have hsend : sendPacket w κ.socket p = .ok (some p.wire, {}) := by
    rw [hκ.socket]
    exact sendPacket_small hw (hl.small_queued (s := .b) hpop)
  have hdrain : Client.Step build w κ .drain
      { κ with connectionToServer := c, socket := {}, sent := κ.sent ++ [p.wire] } :=
    .drain p c _ _ hκ.running hsending hκ.free (hκ.socket ▸ rfl) hpop hsend
  exact ⟨_, .client a .drain κ _ hclient hdrain (by simp), hsending, hrest, p, hheader, hpayload,
    mem_toServer_afterClient rfl⟩

theorem exists_sentToServer (h : S.Steady build involved serverAddress) (hw : w.Sends)
    (hdistinct : Server.Distinct involved) {κ : Client} (hclient : S.client a = some κ)
    (hsending : κ.sending = true) :
    ∃ S', Continues build w serverAddress S S' ∧
      ∀ q ∈ κ.connectionToServer.outgoing.readyPackets, Sent (S'.toServer a) q := by
  induction hready : κ.connectionToServer.outgoing.readyPackets generalizing S κ with
  | nil => exact ⟨S, .refl S, by simp⟩
  | cons q rest ih =>
      obtain ⟨labels, hsound⟩ := id h
      obtain ⟨κ', hstep, hsending', hrest, hq⟩ := exists_drain hsound hw hclient hsending hready
      have hafter := h.step hw hdistinct hstep trivial
      obtain ⟨S', hcontinues, hsent⟩ := ih hafter (afterClient_client ..) hsending' hrest
      refine ⟨S', (Continues.single hstep trivial).trans hcontinues, ?_⟩
      intro q' hq'
      rcases List.mem_cons.mp hq' with rfl | hq'
      · exact hq.mono ((hafter.later hw hdistinct hcontinues).toServer a)
      · exact hsent q' hq'

/-! ## `ListenThread` of the server -/

/-- One peer's turn in `ProcessReceivedPackets`. -/
theorem exists_popped {peer : NetAddress} {rest : List NetAddress}
    (h : S.Steady build involved serverAddress) (hw : w.Sends)
    (hdistinct : Server.Distinct involved)
    (hlistening : S.server.listening = .processing (peer :: rest)) :
    ∃ S', Continues build w serverAddress S S' ∧
      S'.server.listening = .processing rest := by
  induction hready : (S.server.connection peer).incoming.readyPackets generalizing S with
  | nil =>
      obtain ⟨labels, hsound⟩ := id h
      have hpop := Connection.popReadyIncomingPacket_eq_none_iff.mpr hready
      have hstep : Step build w serverAddress S (.server .next) (S.afterServer _) :=
        .server .next _
        (.nextReceived peer rest hsound.server.running hlistening hpop)
        (by simp [Event.fromPeer])
      exact ⟨_, .single hstep trivial, rfl⟩
  | cons packet packets ih =>
      obtain ⟨labels, hsound⟩ := id h
      obtain ⟨c, hpop, hrest⟩ : ∃ c, (S.server.connection peer).popReadyIncomingPacket =
          some (packet, c) ∧ c.incoming.readyPackets = packets :=
        ⟨_, Connection.popReadyIncomingPacket_eq_some_iff.mpr ⟨packets, hready, rfl⟩, rfl⟩
      have hstep : Step build w serverAddress S (.server .deliver) (S.afterServer _) :=
        .server .deliver _
        (.deliver peer rest packet c hsound.server.running hlistening
          hpop) (by simp [Event.fromPeer])
      have hafter := h.step hw hdistinct hstep trivial
      obtain ⟨S', hcontinues, hend⟩ := ih hafter hlistening (by simpa using hrest)
      exact ⟨S', (Continues.single hstep trivial).trans hcontinues, hend⟩

theorem exists_processed {rest : List NetAddress} (h : S.Steady build involved serverAddress)
    (hw : w.Sends) (hdistinct : Server.Distinct involved)
    (hlistening : S.server.listening = .processing rest) :
    ∃ S', Continues build w serverAddress S S' ∧
      S'.server.listening = .receiving := by
  induction rest generalizing S with
  | nil =>
      obtain ⟨labels, hsound⟩ := id h
      have hstep : Step build w serverAddress S (.server .next) (S.afterServer _) :=
        .server .next _
        (.endReceived hsound.server.running hlistening)
        (by simp [Event.fromPeer])
      exact ⟨_, .single hstep trivial, rfl⟩
  | cons peer rest ih =>
      obtain ⟨S₁, hpopped, hlistening₁⟩ := exists_popped h hw hdistinct hlistening
      obtain ⟨S', hprocessed, hend⟩ := ih (h.continues hw hdistinct hpopped) hlistening₁
      exact ⟨S', hpopped.trans hprocessed, hend⟩

/-- `Received` comes back from what is in hand. -/
theorem exists_processing {peer : NetAddress} {received : Buffer}
    (h : S.Steady build involved serverAddress)
    (hlistening : S.server.listening = .found peer received) {order : List NetAddress}
    (horder : order.Perm S.server.peers) :
    ∃ S' packet rest c, Continues build w serverAddress S S' ∧
      (Buffer.readPacket build).run received = .ok (packet, rest) ∧
      (S.server.connection peer).received build packet = .ok c ∧
      S'.server.listening = .processing order ∧ S'.server.connection peer = c ∧
      S'.server.dataFor a = S.server.dataFor a := by
  obtain ⟨labels, hsound⟩ := h
  obtain ⟨⟨packet, rest⟩, hread⟩ := hsound.server.decodes peer received
    (by rw [hlistening, Listening.inHand])
  have hpeer : peer ∈ S.server.peers :=
    hsound.server.listening (by simp [hlistening, Listening.peers])
  obtain ⟨κ, hκ⟩ := hsound.exists_client hpeer
  obtain ⟨l, hl⟩ := hsound.linked peer κ hκ
  have hinHand : S.server.inHand build peer = [packet] := by
    rw [Server.inHand_of_inHand (by rw [hlistening]; rfl) hread, if_pos rfl]
  have hmem : packet.wire ∈ (S.traffic build labels peer κ).inFlight .b := by
    simp [traffic, hinHand]
  obtain ⟨c, hc⟩ := (Connection.exists_received_iff build (S.server.connection peer) packet).mpr
    fun hrel hid ↦ absurd hid (hl.id_ne hmem hrel)
  have hstep : Step build w serverAddress S (.server (.received peer packet)) (S.afterServer _) :=
    .server (.received peer packet) _
    (.received peer received packet rest c order hsound.server.running hlistening hread hc
      horder) (by simp [Event.fromPeer])
  exact ⟨_, packet, rest, c, .single hstep trivial, hread, hc, rfl, by simp, rfl⟩

theorem exists_announced {peer : NetAddress} {received : Buffer}
    (h : S.Steady build involved serverAddress)
    (hlistening : S.server.listening = .added peer received) :
    ∃ S', Continues build w serverAddress S S' ∧ S'.server.listening = .found peer received ∧
      S'.server.dataFor a = S.server.dataFor a := by
  obtain ⟨labels, hsound⟩ := h
  have hstep : Step build w serverAddress S (.server .peerConnected) (S.afterServer _) :=
    .server .peerConnected _
    (.peerConnected peer received hsound.server.running hlistening)
    (by simp [Event.fromPeer])
  exact ⟨_, .single hstep trivial, rfl, by simp [Server.dataFor]⟩

theorem exists_receiving (h : S.Steady build involved serverAddress) (hw : w.Sends)
    (hdistinct : Server.Distinct involved) :
    ∃ S', Continues build w serverAddress S S' ∧ S'.server.listening = .receiving := by
  have hfound : ∀ {T : System}, T.Steady build involved serverAddress → ∀ peer received,
      T.server.listening = .found peer received →
        ∃ S', Continues build w serverAddress T S' ∧ S'.server.listening = .receiving := by
    intro T hT peer received hlistening
    obtain ⟨T', packet, rest, c, hcontinues, -, -, hprocessing, -⟩ :=
      exists_processing (a := peer) hT hlistening (List.Perm.refl _)
    obtain ⟨S', hcontinues', hend⟩ :=
      exists_processed (hT.continues hw hdistinct hcontinues) hw hdistinct hprocessing
    exact ⟨S', hcontinues.trans hcontinues', hend⟩
  cases hlistening : S.server.listening with
  | receiving => exact ⟨S, .refl S, hlistening⟩
  | added peer received =>
      obtain ⟨S₁, hcontinues, hlistening₁, -⟩ := exists_announced (a := peer) h hlistening
      obtain ⟨S', hcontinues', hend⟩ :=
        hfound (h.continues hw hdistinct hcontinues) peer received hlistening₁
      exact ⟨S', hcontinues.trans hcontinues', hend⟩
  | found peer received => exact hfound h peer received hlistening
  | processing rest => exact exists_processed h hw hdistinct hlistening
  | stuck peer =>
      obtain ⟨labels, hsound⟩ := h
      exact absurd hlistening (hsound.server.free peer)

/-- The datagram is taken, and the peer is found or added. -/
theorem exists_found (h : S.Steady build involved serverAddress) (hw : w.Sends)
    (hdistinct : Server.Distinct involved) (hlistening : S.server.listening = .receiving)
    {datagram : List UInt8} (hmem : datagram ∈ S.toServer a) :
    ∃ S', Continues build w serverAddress S S' ∧ S'.server.listening = .found a ⟨datagram⟩ ∧
      S'.server.dataFor a = S.server.dataFor a := by
  obtain ⟨labels, hsound⟩ := id h
  have ha : a ∈ involved := by
    obtain ⟨κ, hκ⟩ := hsound.exists_client_of_mem hmem
    exact hsound.involved a κ hκ
  have hfits := (hsound.network (List.mem_append_left _ hmem)).1
  have harrive : Server.Step build w S.server (.arrive a datagram)
      (S.server.lookUp a ⟨datagram⟩) :=
    .arrive a datagram _ _ hsound.server.running hlistening (hsound.server.socket ▸ rfl)
      (Socket.receiveFrom_of_le hw.toDocumented build S.server.socket hfits)
  have hstep : Step build w serverAddress S (.server (.arrive a datagram)) (S.afterServer _) :=
    .server _ _ harrive (by
    intro b datagram' hfrom
    obtain ⟨rfl, rfl⟩ : a = b ∧ datagram = datagram' := by simpa [Event.fromPeer] using hfrom
    exact hmem)
  rw [hsound.server.lookUp_eq hdistinct ha] at hstep
  by_cases hknown : a ∈ S.server.peers
  · rw [if_pos hknown] at hstep
    exact ⟨_, .single hstep trivial, rfl, rfl⟩
  · rw [if_neg hknown] at hstep
    have hcontinues := Continues.single hstep trivial
    obtain ⟨S', hcontinues', hfound, hdata⟩ :=
      exists_announced (a := a) (h.continues hw hdistinct hcontinues) rfl
    exact ⟨S', hcontinues.trans hcontinues', hfound, hdata⟩

theorem exists_handedByServer (h : S.Steady build involved serverAddress) (hw : w.Sends)
    (hdistinct : Server.Distinct involved) (hlistening : S.server.listening = .receiving)
    {p : Packet Buffer} (hmem : p.wire ∈ S.toServer a) (hrel : p.isReliable = false)
    (hdata : p.getType = .data) :
    ∃ S', Continues build w serverAddress S S' ∧
      S'.server.dataFor a = S.server.dataFor a ++ [p.payload] := by
  obtain ⟨S₁, hfound, hlistening₁, hdata₁⟩ := exists_found h hw hdistinct hlistening hmem
  have h₁ := h.continues hw hdistinct hfound
  obtain ⟨labels, hsound⟩ := id h₁
  have hpeer : a ∈ S₁.server.peers :=
    hsound.server.listening (by simp [hlistening₁, Listening.peers])
  obtain ⟨S₂, packet, rest, c, hreceived, hread, hc, hlistening₂, hconnection, hdata₂⟩ :=
    exists_processing (a := a) h₁ hlistening₁ (List.perm_cons_erase hpeer).symm
  obtain rfl : packet = p := by
    have hmem₁ := (h.later hw hdistinct hfound).toServer a hmem
    obtain ⟨κ, hκ⟩ := hsound.exists_client_of_mem hmem₁
    obtain ⟨l, hl⟩ := hsound.linked a κ hκ
    have hflight : p.wire ∈ (S₁.traffic build labels a κ).inFlight .b :=
      List.mem_append_left _ hmem₁
    have hsmall := (hl.packetOf_mem hflight).2.2
    rw [hl.packetOf_wire hflight] at hsmall
    have hread' := (Socket.receiveFrom_wire hw.toDocumented build {} hsmall).2
    exact (Prod.mk.inj (Except.ok.inj (hread.symm.trans hread'))).1
  have hready : (S₂.server.connection a).incoming.readyPackets = [packet] := by
    rw [Connection.received_of_unreliable build _ hrel] at hc
    rw [hconnection, ← Except.ok.inj hc]
    simp [hsound.server.ready a (by simp [hlistening₁, Listening.rest])]
  have h₂ := h₁.continues hw hdistinct hreceived
  obtain ⟨labels₂, hsound₂⟩ := id h₂
  have hpop := Connection.popReadyIncomingPacket_eq_some_iff.mpr ⟨[], hready, rfl⟩
  have hstep : Step build w serverAddress S₂ (.server .deliver) (S₂.afterServer _) :=
    .server .deliver _
    (.deliver a _ packet _ hsound₂.server.running hlistening₂ hpop)
    (by simp [Event.fromPeer])
  refine ⟨_, (hfound.trans hreceived).trans (.single hstep trivial), ?_⟩
  rw [← hdata₁, ← hdata₂]
  simp [Server.dataFor, Server.callbacksFor, hdata]

/-! ## `SendThread` of the server -/

/-- One peer's turn in `SendThread`. -/
theorem exists_emptied {peer : NetAddress} {rest : List NetAddress} {q : Packet Buffer}
    (h : S.Steady build involved serverAddress) (hw : w.Sends)
    (hdistinct : Server.Distinct involved) (hpeers : S.server.connectedPeers = peer :: rest)
    (hq : Sent (S.toClient a) q ∨ q ∈ (S.server.connection a).outgoing.readyPackets) :
    ∃ S', Continues build w serverAddress S S' ∧ S'.server.connectedPeers = rest ∧
      (Sent (S'.toClient a) q ∨
        a ≠ peer ∧ q ∈ (S'.server.connection a).outgoing.readyPackets) := by
  induction hready : (S.server.connection peer).outgoing.readyPackets generalizing S with
  | nil =>
      obtain ⟨labels, hsound⟩ := id h
      have hpop := Connection.popReadyOutgoingPacket_eq_none_iff.mpr hready
      have hstep : Step build w serverAddress S (.server .next) (S.afterServer _) :=
        .server .next _
        (.nextPeer peer rest hsound.server.running hpeers hpop)
        (by simp [Event.fromPeer])
      refine ⟨_, .single hstep trivial, rfl, ?_⟩
      rcases hq with hsent | hqueued
      · exact .inl (hsent.mono (List.subset_append_left _ _))
      · refine .inr ⟨?_, hqueued⟩
        rintro rfl
        rw [hready] at hqueued
        cases hqueued
  | cons q₀ packets ih =>
      obtain ⟨labels, hsound⟩ := id h
      obtain ⟨p, c, hpop, hheader, hpayload, hrest⟩ : ∃ p c,
          (S.server.connection peer).popReadyOutgoingPacket = some (p, c) ∧
            p.header = q₀.header ∧ p.payload = q₀.payload ∧ c.outgoing.readyPackets = packets :=
        ⟨_, _, Connection.popReadyOutgoingPacket_eq_some_iff.mpr ⟨q₀, packets, hready, rfl, rfl⟩,
          rfl, rfl, rfl⟩
      have hpeer : peer ∈ S.server.peers :=
        hsound.server.connectedPeers (hpeers ▸ List.mem_cons_self)
      obtain ⟨κ, hκ⟩ := hsound.exists_client hpeer
      obtain ⟨l, hl⟩ := hsound.linked peer κ hκ
      have hsend : sendPacket w S.server.socket p = .ok (some p.wire, {}) := by
        rw [hsound.server.socket]
        exact sendPacket_small hw (hl.small_queued (s := .a) hpop)
      have hstep : Step build w serverAddress S (.server (.drain peer)) (S.afterServer _) :=
        .server (.drain peer) _
        (.drain peer rest p c _ _ hsound.server.running hpeers
          (hsound.server.free peer) hpop hsend) (by simp [Event.fromPeer])
      have hafter := h.step hw hdistinct hstep trivial
      obtain ⟨S', hcontinues, hend, hwaiting⟩ := ih hafter hpeers (by
        rcases hq with hsent | hqueued
        · exact .inl (hsent.mono (List.subset_append_left _ _))
        · by_cases hap : a = peer
          · subst hap
            rw [hready] at hqueued
            rcases List.mem_cons.mp hqueued with rfl | hqueued
            · exact .inl ⟨p, hheader, hpayload, by simp [Server.sentTo]⟩
            · exact .inr (by simpa [hrest] using hqueued)
          · exact .inr (by simpa [hap] using hqueued)) (by simpa using hrest)
      exact ⟨S', (Continues.single hstep trivial).trans hcontinues, hend, hwaiting⟩

theorem exists_emptiedAll {connectedPeers : List NetAddress} {q : Packet Buffer}
    (h : S.Steady build involved serverAddress) (hw : w.Sends)
    (hdistinct : Server.Distinct involved) (hpeers : S.server.connectedPeers = connectedPeers)
    (hq : Sent (S.toClient a) q ∨ q ∈ (S.server.connection a).outgoing.readyPackets) :
    ∃ S', Continues build w serverAddress S S' ∧ S'.server.connectedPeers = [] ∧
      (Sent (S'.toClient a) q ∨ q ∈ (S'.server.connection a).outgoing.readyPackets) := by
  induction connectedPeers generalizing S with
  | nil => exact ⟨S, .refl S, hpeers, hq⟩
  | cons peer rest ih =>
      obtain ⟨S₁, hemptied, hpeers₁, hq₁⟩ := exists_emptied h hw hdistinct hpeers hq
      obtain ⟨S', hcontinues, hend, hwaiting⟩ :=
        ih (h.continues hw hdistinct hemptied) hpeers₁ (hq₁.imp_right And.right)
      exact ⟨S', hemptied.trans hcontinues, hend, hwaiting⟩

theorem exists_sentToClient {q : Packet Buffer} (h : S.Steady build involved serverAddress)
    (hw : w.Sends) (hdistinct : Server.Distinct involved) (hpeer : a ∈ S.server.peers)
    (hq : q ∈ (S.server.connection a).outgoing.readyPackets) :
    ∃ S', Continues build w serverAddress S S' ∧ Sent (S'.toClient a) q := by
  obtain ⟨S₁, hemptied, hnone, hq₁⟩ := exists_emptiedAll h hw hdistinct rfl (.inr hq)
  have h₁ := h.continues hw hdistinct hemptied
  obtain ⟨labels, hsound⟩ := id h₁
  have hpeer₁ := (h.later hw hdistinct hemptied).peers hpeer
  have hstep : Step build w serverAddress S₁ (.server .next) (S₁.afterServer _) :=
    .server .next _
    (.getPeers (a :: S₁.server.peers.erase a) hsound.server.running
      (hsound.server.socket ▸ rfl) hnone (List.perm_cons_erase hpeer₁).symm)
    (by simp [Event.fromPeer])
  have hlater := h₁.later_step hw hdistinct hstep trivial
  obtain ⟨S', hcontinues, -, hsent⟩ :=
    exists_emptied (a := a) (q := q) (h₁.step hw hdistinct hstep trivial) hw hdistinct rfl
      (hq₁.imp_left fun hsent ↦ hsent.mono (hlater.toClient a))
  exact ⟨S', (hemptied.trans (.single hstep trivial)).trans hcontinues,
    hsent.resolve_right fun hboth ↦ hboth.1 rfl⟩

/-! ## `ListenThread` of a client -/

theorem exists_processedByClient {κ : Client} (h : S.Steady build involved serverAddress)
    (hw : w.Sends) (hdistinct : Server.Distinct involved) (hclient : S.client a = some κ)
    (hlistening : κ.listening = .processing) :
    ∃ S' κ', Continues build w serverAddress S S' ∧ S'.client a = some κ' ∧
      κ'.listening = .receiving := by
  obtain ⟨labels, hsound⟩ := id h
  have hκ := hsound.client a κ hclient
  induction hready : κ.connectionToServer.incoming.readyPackets generalizing S κ labels with
  | nil =>
      have hpop := Connection.popReadyIncomingPacket_eq_none_iff.mpr hready
      have hstep : Step build w serverAddress S (.client a .next) (afterClient _ a κ _) :=
        .client a .next κ _ hclient
        (.endReceived hκ.running hlistening hpop) (by simp)
      exact ⟨_, _, .single hstep trivial, afterClient_client .., rfl⟩
  | cons packet packets ih =>
      obtain ⟨c, hpop, hrest⟩ : ∃ c, κ.connectionToServer.popReadyIncomingPacket =
          some (packet, c) ∧ c.incoming.readyPackets = packets :=
        ⟨_, Connection.popReadyIncomingPacket_eq_some_iff.mpr ⟨packets, hready, rfl⟩, rfl⟩
      have hstep : Step build w serverAddress S (.client a .deliver) (afterClient _ a κ _) :=
        .client a .deliver κ _ hclient
        (.deliver packet c hκ.running hlistening hpop) (by simp)
      have hafter := h.step hw hdistinct hstep trivial
      obtain ⟨labels', hsound'⟩ := id hafter
      have hnew := afterClient_client S a κ { κ with
        connectionToServer := c
        dataReceived := κ.dataReceived ++ [packet.payload] }
      obtain ⟨S', κ', hcontinues, hend⟩ :=
        ih hafter hnew hlistening labels' hsound' (hsound'.client a _ hnew) hrest
      exact ⟨S', κ', (Continues.single hstep trivial).trans hcontinues, hend⟩

/-- `Received` comes back from what is in hand. -/
theorem exists_processingByClient {κ : Client} {received : Buffer}
    (h : S.Steady build involved serverAddress) (hclient : S.client a = some κ)
    (hlistening : κ.listening = .found received) :
    ∃ S' κ' c, Continues build w serverAddress S S' ∧ S'.client a = some κ' ∧
      κ'.listening = .processing ∧
      κ.connectionToServer.received build (packetOf received.payload) = .ok c ∧
      κ'.connectionToServer = c ∧ κ'.dataReceived = κ.dataReceived := by
  obtain ⟨labels, hsound⟩ := h
  have hκ := hsound.client a κ hclient
  obtain ⟨rest, c, hread, hc⟩ := hκ.exists_received hlistening build
  have hstep : Step build w serverAddress S (.client a (.received _)) (afterClient _ a κ _) :=
    .client a (.received _) κ _ hclient
    (.received received _ rest c hκ.running hlistening hread hc) (by simp)
  exact ⟨_, _, c, .single hstep trivial, afterClient_client .., rfl, hc, rfl, rfl⟩

theorem exists_clientReceiving {κ : Client} (h : S.Steady build involved serverAddress)
    (hw : w.Sends) (hdistinct : Server.Distinct involved) (hclient : S.client a = some κ) :
    ∃ S' κ', Continues build w serverAddress S S' ∧ S'.client a = some κ' ∧
      κ'.listening = .receiving := by
  cases hlistening : κ.listening with
  | receiving => exact ⟨S, κ, .refl S, hclient, hlistening⟩
  | found received =>
      obtain ⟨S₁, κ₁, c, hcontinues, hclient₁, hprocessing, -⟩ :=
        exists_processingByClient h hclient hlistening
      obtain ⟨S', κ', hcontinues', hend⟩ := exists_processedByClient
        (h.continues hw hdistinct hcontinues) hw hdistinct hclient₁ hprocessing
      exact ⟨S', κ', hcontinues.trans hcontinues', hend⟩
  | processing => exact exists_processedByClient h hw hdistinct hclient hlistening
  | stuck =>
      obtain ⟨labels, hsound⟩ := h
      exact absurd hlistening (hsound.client a κ hclient).free

theorem exists_handedByClient {κ : Client} (h : S.Steady build involved serverAddress)
    (hw : w.Sends) (hdistinct : Server.Distinct involved) (hclient : S.client a = some κ)
    (hlistening : κ.listening = .receiving) {p : Packet Buffer} (hmem : p.wire ∈ S.toClient a)
    (hrel : p.isReliable = false) :
    ∃ S' κ', Continues build w serverAddress S S' ∧ S'.client a = some κ' ∧
      κ'.dataReceived = κ.dataReceived ++ [p.payload] := by
  obtain ⟨labels, hsound⟩ := id h
  have hκ := hsound.client a κ hclient
  obtain ⟨l, hl⟩ := hsound.linked a κ hclient
  have hpacket : packetOf p.wire = p :=
    hl.packetOf_wire (s := .a) (List.mem_append_left _ hmem)
  have hfits := (hsound.network (List.mem_append_right _ hmem)).1
  have harrive : Client.Step build w κ (.arrive serverAddress p.wire)
      (κ.take serverAddress ⟨p.wire⟩) :=
    .arrive serverAddress p.wire _ _ hκ.running hlistening ⟨hκ.socket ▸ rfl, hκ.stopRequested⟩
      (Socket.receiveFrom_of_le hw.toDocumented build κ.socket hfits)
  have htake : κ.take serverAddress ⟨p.wire⟩ = { κ with listening := .found ⟨p.wire⟩ } := by
    rw [Client.take, hκ.server, if_pos (NetAddress.eq_self serverAddress)]
  rw [htake] at harrive
  have hstep := Step.client a _ κ _ hclient harrive (by
    intro addr datagram he
    obtain ⟨rfl, rfl⟩ : serverAddress = addr ∧ p.wire = datagram := by simpa using he
    exact ⟨rfl, hmem⟩)
  have h₁ := h.step hw hdistinct hstep trivial
  obtain ⟨S₂, κ₂, c, hreceived, hclient₂, hlistening₂, hc, hconnection, hdata⟩ :=
    exists_processingByClient h₁ (afterClient_client ..) rfl
  have hready : κ₂.connectionToServer.incoming.readyPackets = [p] := by
    rw [hpacket, Connection.received_of_unreliable build _ hrel] at hc
    rw [hconnection, ← Except.ok.inj hc]
    simp [hκ.ready (by simp [hlistening])]
  have h₂ := h₁.continues hw hdistinct hreceived
  obtain ⟨labels₂, hsound₂⟩ := id h₂
  have hpop := Connection.popReadyIncomingPacket_eq_some_iff.mpr ⟨[], hready, rfl⟩
  have hdeliver : Step build w serverAddress S₂ (.client a .deliver) (afterClient _ a κ₂ _) :=
    .client a .deliver κ₂ _ hclient₂
    (.deliver p _ (hsound₂.client a κ₂ hclient₂).running hlistening₂
      hpop) (by simp)
  refine ⟨_, _, ((Continues.single hstep trivial).trans hreceived).trans
    (.single hdeliver trivial), afterClient_client .., ?_⟩
  exact congrArg (· ++ [p.payload]) hdata

/-! ## Both ways -/

/-- An unreliable message that is sent now can be handed over later, with no other
message sent and nothing lost in between. -/
structure Responsive (build : Build) (w : Winsock) (serverAddress : NetAddress) (S : System)
    (m : Message) : Prop where
  server : ∀ a κ, S.client a = some κ → ∃ S₁ S', Step build w serverAddress S
    (.client a (.send m)) S₁ ∧ Continues build w serverAddress S₁ S' ∧
      ∃ between, S'.server.dataFor a = S.server.dataFor a ++ between ++ [m.data]
  client : ∀ a ∈ S.server.peers, ∃ κ κ' S₁ S', S.client a = some κ ∧
    Step build w serverAddress S (.server (.send a m)) S₁ ∧
      Continues build w serverAddress S₁ S' ∧ S'.client a = some κ' ∧
        ∃ between, κ'.dataReceived = κ.dataReceived ++ between ++ [m.data]

/-- `SendThread` of the client is in its inner loop. -/
theorem exists_sending {κ : Client} (h : S.Steady build involved serverAddress)
    (hclient : S.client a = some κ) :
    ∃ S' κ', Continues build w serverAddress S S' ∧ S'.client a = some κ' ∧ κ'.sending = true ∧
      κ'.connectionToServer = κ.connectionToServer := by
  obtain ⟨labels, hsound⟩ := h
  have hκ := hsound.client a κ hclient
  cases hsending : κ.sending with
  | true => exact ⟨S, κ, .refl S, hclient, hsending, rfl⟩
  | false =>
      have hstep : Step build w serverAddress S (.client a .next) (afterClient _ a κ _) :=
        .client a .next κ _ hclient
        (.beginSending hκ.running hsending
          ⟨hκ.socket ▸ rfl, hκ.stopRequested⟩) (by simp)
      exact ⟨_, _, .single hstep trivial, afterClient_client .., rfl, rfl⟩

theorem Sound.responsive_server {labels : List Label}
    (h : S.Sound build involved serverAddress labels) (hw : w.Sends)
    (hdistinct : Server.Distinct involved) {m : Message} (hrel : m.reliable = false)
    (hsmall : m.data.payload.length ≤ 499) {κ : Client} (hclient : S.client a = some κ) :
    ∃ S₁ S', Step build w serverAddress S (.client a (.send m)) S₁ ∧
      Continues build w serverAddress S₁ S' ∧
      ∃ between, S'.server.dataFor a = S.server.dataFor a ++ between ++ [m.data] := by
  have hκ := h.client a κ hclient
  have hsend : Step build w serverAddress S (.client a (.send m)) (afterClient _ a κ _) :=
    .client a (.send m) κ _ hclient
    (.send m hκ.running) (by simp)
  have hallowed : (Label.client a (.send m)).Allowed involved := hsmall
  have h₁ : Steady build involved serverAddress _ := ⟨_, h.step hw hdistinct hallowed hsend⟩
  have hqueued : m.packet ∈ (κ.send m).connectionToServer.outgoing.readyPackets := by
    rw [Client.send, Client.isConnected, hκ.socket, if_neg (by decide)]
    exact m.mem_readyPackets_schedule hrel _
  obtain ⟨S₂, κ₂, hbegin, hclient₂, hsending, hconnection⟩ :=
    exists_sending h₁ (afterClient_client ..)
  have h₂ := h₁.continues hw hdistinct hbegin
  obtain ⟨S₃, hdrain, hsent⟩ := exists_sentToServer h₂ hw hdistinct hclient₂ hsending
  have h₃ := h₂.continues hw hdistinct hdrain
  obtain ⟨S₄, hidle, hlistening⟩ := exists_receiving h₃ hw hdistinct
  have hsent' := (hsent m.packet (hconnection ▸ hqueued)).mono
    ((h₃.later hw hdistinct hidle).toServer a)
  obtain ⟨p, hrel', htype, hpayload, hmem⟩ := hsent'.exists_packet hrel
  obtain ⟨S', hover, hdata⟩ := exists_handedByServer (h₃.continues hw hdistinct hidle) hw hdistinct
    hlistening hmem hrel' htype
  have hbefore := (hbegin.trans hdrain).trans hidle
  obtain ⟨between, hbetween⟩ := (h₁.later hw hdistinct hbefore).dataFor a
  refine ⟨_, S', hsend, hbefore.trans hover, between, ?_⟩
  rw [hdata, ← hbetween, hpayload]
  rfl

theorem Sound.responsive_client {labels : List Label}
    (h : S.Sound build involved serverAddress labels) (hw : w.Sends)
    (hdistinct : Server.Distinct involved) {m : Message} (hrel : m.reliable = false)
    (hsmall : m.data.payload.length ≤ 499) (hpeer : a ∈ S.server.peers) :
    ∃ κ κ' S₁ S', S.client a = some κ ∧
      Step build w serverAddress S (.server (.send a m)) S₁ ∧
      Continues build w serverAddress S₁ S' ∧ S'.client a = some κ' ∧
      ∃ between, κ'.dataReceived = κ.dataReceived ++ between ++ [m.data] := by
  obtain ⟨κ, hclient⟩ := h.exists_client hpeer
  have hsend : Step build w serverAddress S (.server (.send a m)) (S.afterServer _) :=
    .server (.send a m) _
    (.send a m h.server.running hpeer) (by simp [Event.fromPeer])
  have hallowed : (Label.server (.send a m)).Allowed involved := hsmall
  have h₁ : Steady build involved serverAddress _ := ⟨_, h.step hw hdistinct hallowed hsend⟩
  have hqueued : m.packet ∈
      ((S.server.schedule a m).connection a).outgoing.readyPackets := by
    rw [Server.schedule_connection, if_pos rfl]
    exact m.mem_readyPackets_schedule hrel _
  obtain ⟨S₂, hdrain, hsent⟩ := exists_sentToClient h₁ hw hdistinct hpeer hqueued
  have h₂ := h₁.continues hw hdistinct hdrain
  obtain ⟨κ₂, hclient₂, hdata₂⟩ := (h₁.later hw hdistinct hdrain).dataReceived a κ hclient
  obtain ⟨S₃, κ₃, hidle, hclient₃, hlistening⟩ := exists_clientReceiving h₂ hw hdistinct hclient₂
  have hlater := h₂.later hw hdistinct hidle
  obtain ⟨p, hrel', -, hpayload, hmem⟩ := (hsent.mono (hlater.toClient a)).exists_packet hrel
  obtain ⟨S', κ', hover, hclient', hdata⟩ := exists_handedByClient
    (h₂.continues hw hdistinct hidle) hw hdistinct hclient₃ hlistening hmem hrel'
  obtain ⟨κ₃', hclient₃', hdata₃⟩ := hlater.dataReceived a κ₂ hclient₂
  obtain rfl := Option.some.inj (hclient₃.symm.trans hclient₃')
  obtain ⟨between, hbetween⟩ := hdata₂.trans hdata₃
  refine ⟨κ, κ', _, S', hclient, hsend, (hdrain.trans hidle).trans hover, hclient', between, ?_⟩
  rw [hdata, ← hbetween, hpayload]

/-- Whatever has been lost, no state that a run reaches is a deadlock. -/
theorem responsive_of_run {labels : List Label} (hw : w.Sends)
    (hdistinct : Server.Distinct involved) (hlabels : ∀ label ∈ labels, label.Allowed involved)
    (hrun : LabelledRun.Run (Step build w serverAddress) {} labels S) {m : Message}
    (hrel : m.reliable = false) (hsmall : m.data.payload.length ≤ 499) :
    S.Responsive build w serverAddress m := by
  have h := sound_of_run hw hdistinct hlabels hrun
  exact ⟨fun _ _ hclient ↦ h.responsive_server hw hdistinct hrel hsmall hclient,
    fun _ hpeer ↦ h.responsive_client hw hdistinct hrel hsmall hpeer⟩

theorem responsive_after_asking : ∃ S,
    LabelledRun.Run (Step .debug .datagrams Server.secondPeer) {} asking S ∧
      S.Responsive .debug .datagrams Server.secondPeer ⟨false, ⟨[9]⟩⟩ := by
  obtain ⟨S, hrun, -⟩ := exists_asking
  exact ⟨S, hrun, responsive_of_run Winsock.datagrams_sends distinct_firstPeer
    allowed_asking hrun rfl (by decide)⟩

end System

end GioNet
