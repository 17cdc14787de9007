import GioNet.Shutdown

/-!
# The threads of the client, step by step

`Stop` frees the list of addresses, closes the handle and asks for the stop one
after the other and without a lock, and `SendThread` pops a packet first and passes it
to `SendTo` later. Here each of these is a step of its own, and a thread that has left
its loop is told from one in a call of `recvfrom`. Packets can be serialised, and calls
of Winsock fail only on a handle that has been closed.

Before `Stop` the runs are those of the client in which a packet is popped and sent in
one step.
-/

namespace GioNet

open LabelledRun (Run)

/-! ## What a connection may still send -/

namespace Connection

variable {c c' : Connection Buffer}

/-- The outgoing side, as one direction of a link with nothing else in it. -/
def outgoingOnly (c : Connection Buffer) : Stream Buffer where
  outgoing := c.outgoing
  scheduled := []
  inFlight := []
  incoming := {}
  ackId := Packet.invalidId
  received := []
  consumed := []
  headers := []

/-- What is queued or stored fits into a datagram. -/
def SendsSmall (c : Connection Buffer) : Prop :=
  c.outgoingOnly.Holds fun p ↦ p.payload.payload.length ≤ 499

theorem steady_small : Packet.Steady fun p : Packet Buffer ↦ p.payload.payload.length ≤ 499 :=
  fun _ _ _ _ h ↦ h

theorem sendsSmall_fresh (address : NetAddress) : (fresh address).SendsSmall :=
  ⟨nofun, nofun, nofun, nofun, nofun, nofun⟩

namespace SendsSmall

theorem congr (h : c.SendsSmall) (hout : c'.outgoing = c.outgoing) : c'.SendsSmall := by
  unfold SendsSmall outgoingOnly
  rw [hout]
  exact h

theorem schedule (h : c.SendsSmall) {p : Packet Buffer} (hp : p.payload.payload.length ≤ 499) :
    (c.schedule p).SendsSmall :=
  Stream.Holds.schedule h steady_small hp rfl []

theorem received (h : c.SendsSmall) {build : Build} {p : Packet Buffer}
    (hreceived : c.received build p = .ok c') : c'.SendsSmall :=
  congr (c := c.processAcks p) (Stream.Holds.acks h p rfl) (received_outgoing hreceived)

theorem pop (h : c.SendsSmall) {p : Packet Buffer}
    (hpop : c.popReadyOutgoingPacket = some (p, c')) :
    p.payload.payload.length ≤ 499 ∧ c'.SendsSmall := by
  obtain ⟨q, rest, hready, rfl, rfl⟩ := popReadyOutgoingPacket_eq_some_iff.mp hpop
  have hsend := Stream.Holds.send h steady_small c.currentAckId c.ackBits hready
  exact ⟨hsend.inFlight _ (by simp), hsend.queued, hsend.stored, nofun, nofun, nofun, nofun⟩

end SendsSmall

end Connection

namespace Client

/-- How far the call of `Stop` has come. -/
inductive Stopping where
  | notCalled
  /-- `freeaddrinfo` has been called, and `winAddrInfo` still points there. -/
  | freed
  /-- `winAddrInfo` is the null pointer. -/
  | cleared
  /-- `closesocket` has been called, and `winSocket` is still the handle. -/
  | closed
  /-- `winSocket` is `INVALID_SOCKET`. -/
  | invalidated
  | returned
  deriving DecidableEq

/-- The client with the places of its threads. -/
structure Threads where
  client : Client
  stopping : Stopping := .notCalled
  place : Place := .loop
  /-- What `SendThread` has popped and has not passed to `sendto` yet. -/
  popped : Option (Packet Buffer) := none
  /-- `SendThread` has left its loop. -/
  sendThreadLeft : Bool := false

/-- The steps of `ListenThread` between two calls of `ReceiveFrom`, calls of `Send`, and
the tests of the loops of `SendThread`. -/
def Event.IsLocal : Event → Prop
  | .received _ => True
  | .undecodable => True
  | .deliver => True
  | .send _ => True
  | .next => True
  | _ => False

namespace Threads

inductive Event where
  | client (e : Client.Event)
  /-- `ListenThread` calls `recvfrom`. -/
  | receiveFrom
  | arrive (addr : NetAddress) (datagram : List UInt8)
  /-- `recvfrom` comes back from a handle that has been closed. -/
  | wake
  | pop
  | sendTo
  /-- `Stop` goes on. -/
  | stop
  /-- A thread leaves its loop. -/
  | leave

def handleOpen (θ : Threads) : Bool :=
  match θ.stopping with
  | .notCalled => true
  | .freed => true
  | .cleared => true
  | _ => false

inductive Step (build : Build) (w : Winsock) (θ : Threads) : Event → Threads → Prop
  | client (e : Client.Event) (κ : Client) (hlocal : e.IsLocal)
      (hsending : κ.sending ≠ θ.client.sending → θ.popped = none ∧ θ.sendThreadLeft = false)
      (hstep : Client.Step build w θ.client e κ) :
      Step build w θ (.client e) { θ with client := κ }
  -- `ListenThread`
  | receiveFrom (hrun : θ.client.aborted = false) (hlistening : θ.client.listening = .receiving)
      (hplace : θ.place = .loop) (hloop : θ.client.Listens) :
      Step build w θ .receiveFrom { θ with place := .receiveFrom }
  | arrive (addr : NetAddress) (datagram : List UInt8) (κ : Client)
      (hplace : θ.place = .receiveFrom) (hopen : θ.handleOpen = true)
      (hfits : datagram.length ≤ bufferMax)
      (hstep : Client.Step build w θ.client (.arrive addr datagram) κ) :
      Step build w θ (.arrive addr datagram) { θ with client := κ, place := .loop }
  -- `Close` is called once more, and there is nothing left to free
  | wake (hrun : θ.client.aborted = false) (hplace : θ.place = .receiveFrom)
      (hclosed : θ.handleOpen = false) :
      Step build w θ .wake { θ with
        client := { θ.client with socket := θ.client.socket.close }.receiveFailed
        place := .loop }
  | leaveListen (hrun : θ.client.aborted = false) (hlistening : θ.client.listening = .receiving)
      (hplace : θ.place = .loop) (hloop : ¬ θ.client.Listens) :
      Step build w θ .leave { θ with place := .left }
  -- `SendThread`
  | pop (packet : Packet Buffer) (c : Connection Buffer) (hrun : θ.client.aborted = false)
      (hsending : θ.client.sending = true) (hpopped : θ.popped = none)
      (hlock : θ.client.listening ≠ .stuck)
      (hpop : θ.client.connectionToServer.popReadyOutgoingPacket = some (packet, c)) :
      Step build w θ .pop { θ with
        client := { θ.client with connectionToServer := c }
        popped := some packet }
  | sendTo (packet : Packet Buffer) (datagram : List UInt8) (hrun : θ.client.aborted = false)
      (hpopped : θ.popped = some packet) (haddress : θ.stopping = .notCalled)
      (hsend : sendPacket w θ.client.socket packet = .ok (some datagram, θ.client.socket)) :
      Step build w θ .sendTo { θ with
        client := { θ.client with sent := θ.client.sent ++ [datagram] }
        popped := none }
  -- the assertion fails, or the null pointer or what has been freed is read
  | sendToFreed (packet : Packet Buffer) (hrun : θ.client.aborted = false)
      (hpopped : θ.popped = some packet) (haddress : θ.stopping ≠ .notCalled) :
      Step build w θ .sendTo { θ with client := { θ.client with aborted := true } }
  | leaveSend (hrun : θ.client.aborted = false) (hsending : θ.client.sending = false)
      (hleft : θ.sendThreadLeft = false) (hloop : ¬ θ.client.Listens) :
      Step build w θ .leave { θ with sendThreadLeft := true }
  -- `Stop`
  | stopClosed (hrun : θ.client.aborted = false) (hstop : θ.stopping = .notCalled)
      (hvalid : θ.client.socket.isValid = false) :
      Step build w θ .stop { θ with
        client := { θ.client with stopRequested := true }
        stopping := .returned }
  | free (hrun : θ.client.aborted = false) (hstop : θ.stopping = .notCalled)
      (hvalid : θ.client.socket.isValid = true) :
      Step build w θ .stop { θ with stopping := .freed }
  | clear (hrun : θ.client.aborted = false) (hstop : θ.stopping = .freed) :
      Step build w θ .stop { θ with stopping := .cleared }
  | close (hrun : θ.client.aborted = false) (hstop : θ.stopping = .cleared) :
      Step build w θ .stop { θ with stopping := .closed }
  | invalidate (hrun : θ.client.aborted = false) (hstop : θ.stopping = .closed) :
      Step build w θ .stop { θ with
        client := { θ.client with socket := θ.client.socket.close }
        stopping := .invalidated }
  | requestStop (hrun : θ.client.aborted = false) (hstop : θ.stopping = .invalidated) :
      Step build w θ .stop { θ with
        client := { θ.client with stopRequested := true }
        stopping := .returned }

end Threads

variable {build : Build} {w : Winsock} {serverAddress : NetAddress} {κ κ' κ₀ : Client} {e : Event}

/-! ## What has been sent is not looked at -/

def withSent (κ : Client) (sent : List (List UInt8)) : Client := { κ with sent := sent }

theorem take_withSent (κ : Client) (sent : List (List UInt8)) (addr : NetAddress)
    (received : Buffer) :
    (κ.withSent sent).take addr received = (κ.take addr received).withSent sent ∧
      (κ.take addr received).sent = κ.sent := by
  cases haddr : addr.eq κ.serverAddress <;> simp [take, withSent, haddr]

theorem receiveFailed_withSent (κ : Client) (sent : List (List UInt8)) :
    (κ.withSent sent).receiveFailed = κ.receiveFailed.withSent sent ∧
      κ.receiveFailed.sent = κ.sent := by
  cases haddr : NetAddress.eq {} κ.serverAddress <;>
    simp [receiveFailed, withSent, haddr, Client.stop]

theorem fault_withSent (κ : Client) (sent : List (List UInt8)) (f : Fault) :
    (κ.withSent sent).fault f = (κ.fault f).withSent sent ∧ (κ.fault f).sent = κ.sent := by
  by_cases hf : f = .endlessLoop <;> simp [fault, withSent, hf]

theorem send_withSent (κ : Client) (sent : List (List UInt8)) (message : Message) :
    (κ.withSent sent).send message = (κ.send message).withSent sent ∧
      (κ.send message).sent = κ.sent := by
  cases hvalid : κ.socket.isValid <;> simp [Client.send, withSent, isConnected, hvalid]

theorem Step.withSent (h : Step build w κ e κ') (hdrain : e ≠ .drain) (sent : List (List UInt8)) :
    Step build w (κ.withSent sent) e (κ'.withSent sent) ∧ κ'.sent = κ.sent := by
  cases h with
  | arrive addr datagram received socket hrun hlistening hloop hreceive =>
      obtain ⟨htake, hsent⟩ := take_withSent { κ with socket := socket } sent addr received
      exact ⟨htake ▸ .arrive addr datagram received socket hrun hlistening hloop hreceive, hsent⟩
  | arriveFailed addr datagram socket hrun hlistening hloop hreceive =>
      obtain ⟨hfailed, hsent⟩ := receiveFailed_withSent { κ with socket := socket } sent
      exact ⟨hfailed ▸ .arriveFailed addr datagram socket hrun hlistening hloop hreceive, hsent⟩
  | arriveFault addr datagram f hrun hlistening hloop hreceive =>
      exact ⟨.arriveFault addr datagram f hrun hlistening hloop hreceive, rfl⟩
  | recvFailed hrun hlistening hloop =>
      obtain ⟨hfailed, hsent⟩ := receiveFailed_withSent { κ with socket := κ.socket.close } sent
      exact ⟨hfailed ▸ .recvFailed hrun hlistening hloop, hsent⟩
  | received received packet rest c hrun hlistening hread hreceived =>
      exact ⟨.received received packet rest c hrun hlistening hread hreceived, rfl⟩
  | receivedFault received packet rest f hrun hlistening hread hreceived =>
      obtain ⟨hfault, hsent⟩ := fault_withSent κ sent f
      exact ⟨hfault ▸ .receivedFault received packet rest f hrun hlistening hread hreceived, hsent⟩
  | undecodable received f hrun hlistening hread =>
      exact ⟨.undecodable received f hrun hlistening hread, rfl⟩
  | deliver packet c hrun hlistening hpop => exact ⟨.deliver packet c hrun hlistening hpop, rfl⟩
  | endReceived hrun hlistening hpop => exact ⟨.endReceived hrun hlistening hpop, rfl⟩
  | send message hrun =>
      obtain ⟨hsend, hsent⟩ := send_withSent κ sent message
      exact ⟨hsend ▸ .send message hrun, hsent⟩
  | stop hrun => exact ⟨.stop hrun, rfl⟩
  | beginSending hrun hsending hloop => exact ⟨.beginSending hrun hsending hloop, rfl⟩
  | drain | drainFault | drainClosed => exact absurd rfl hdrain
  | endSending hrun hsending hpop => exact ⟨.endSending hrun hsending hpop, rfl⟩

/-! ## What the steps keep -/

/-- A message that fits, or a datagram of the server that is well formed. -/
structure Event.Allowed (serverAddress : NetAddress) (e : Event) : Prop where
  formed : e.Formed serverAddress
  small : ∀ message, e = .send message → message.data.payload.length ≤ 499

/-- Nothing goes wrong in `ListenThread`, and what may still be sent is small. -/
structure Orderly (serverAddress : NetAddress) (κ : Client) : Prop where
  running : κ.aborted = false
  server : κ.serverAddress = serverAddress
  free : κ.listening ≠ .stuck
  formed : ∀ received, κ.listening = .found received →
    WellFormed received.payload ∧ received.payload.length ≤ bufferMax
  ready : κ.listening ≠ .processing → κ.connectionToServer.incoming.readyPackets = []
  small : κ.connectionToServer.SendsSmall

theorem Orderly.exists_received (h : κ.Orderly serverAddress) {received : Buffer}
    (hlistening : κ.listening = .found received) (build : Build) :
    ∃ rest c, (Buffer.readPacket build).run received = .ok (packetOf received.payload, rest) ∧
      κ.connectionToServer.received build (packetOf received.payload) = .ok c := by
  obtain ⟨hformed, hfits⟩ := h.formed received hlistening
  exact hformed.exists_decoded hfits build κ.connectionToServer

/-- The local steps, with what they leave alone. -/
theorem Orderly.local (h : κ.Orderly serverAddress) (hallowed : e.Allowed serverAddress)
    (hlocal : e.IsLocal) (hstep : Step build w κ e κ') :
    κ'.Orderly serverAddress ∧ κ'.socket = κ.socket ∧ κ'.stopRequested = κ.stopRequested ∧
      (κ.listening = .receiving → κ'.listening = .receiving) := by
  cases hstep with
  | arrive | arriveFailed | arriveFault | recvFailed | stop | drain | drainFault | drainClosed =>
      exact hlocal.elim
  | received received packet rest c hrun hlistening hread hreceived =>
      refine ⟨{ h with free := by simp, formed := by simp, ready := by simp, small := ?_ }, rfl,
        rfl, fun hreceiving ↦ ?_⟩
      · exact h.small.received hreceived
      · cases hlistening.symm.trans hreceiving
  | receivedFault received packet rest f hrun hlistening hread hreceived =>
      obtain ⟨rest', c', hread', hc'⟩ := h.exists_received hlistening build
      obtain ⟨rfl, -⟩ := Prod.mk.inj (Except.ok.inj (hread.symm.trans hread'))
      cases hc'.symm.trans hreceived
  | undecodable received f hrun hlistening hread =>
      obtain ⟨rest', c', hread', -⟩ := h.exists_received hlistening build
      cases hread'.symm.trans hread
  | deliver packet c hrun hlistening hpop =>
      obtain ⟨packets, hready, rfl⟩ := Connection.popReadyIncomingPacket_eq_some_iff.mp hpop
      exact ⟨{ h with ready := fun hne ↦ absurd hlistening hne, small := h.small.congr rfl }, rfl,
        rfl, id⟩
  | endReceived hrun hlistening hpop =>
      refine ⟨{ h with free := by simp, formed := by simp, ready := fun _ ↦ ?_ }, rfl, rfl,
        fun _ ↦ rfl⟩
      exact Connection.popReadyIncomingPacket_eq_none_iff.mp hpop
  | send message hrun =>
      unfold Client.send
      split
      · exact ⟨h, rfl, rfl, id⟩
      · refine ⟨{ h with ready := fun hne ↦ ?_, small := ?_ }, rfl, rfl, id⟩
        · rw [Connection.schedule_incoming]
          exact h.ready hne
        · exact h.small.schedule ((message.packet_payload).symm ▸ hallowed.small message rfl)
  | beginSending | endSending => exact ⟨{ h with }, rfl, rfl, id⟩

/-- A datagram is taken in hand if it comes from the server. -/
theorem Orderly.arrive (h : κ.Orderly serverAddress) (hw : w.Documented) {addr : NetAddress}
    {datagram : List UInt8} (hallowed : (Event.arrive addr datagram).Allowed serverAddress)
    (hfits : datagram.length ≤ bufferMax) (hstep : Step build w κ (.arrive addr datagram) κ') :
    κ'.Orderly serverAddress ∧
      (κ' = κ ∨ κ' = { κ with listening := .found ⟨datagram⟩ }) := by
  have hreceive := Socket.receiveFrom_of_le hw build κ.socket hfits
  cases hstep with
  | arrive _ _ received socket hrun hlistening hloop hreceive' =>
      obtain ⟨rfl, rfl⟩ : Buffer.mk datagram = received ∧ κ.socket = socket := by
        simpa using Except.ok.inj (hreceive.symm.trans hreceive')
      change (κ.take addr ⟨datagram⟩).Orderly serverAddress ∧
        (κ.take addr ⟨datagram⟩ = κ ∨ κ.take addr ⟨datagram⟩ = _)
      unfold take
      split
      · rename_i haddr
        refine ⟨{ h with free := by simp, formed := ?_, ready := fun _ ↦ ?_ }, .inr rfl⟩
        · intro received hreceived
          obtain rfl := Listening.found.inj hreceived
          refine ⟨hallowed.formed datagram ?_, hfits⟩
          rw [Event.fromServer, if_pos (h.server ▸ haddr)]
        · exact h.ready (by simp [hlistening])
      · exact ⟨h, .inl rfl⟩
  | arriveFailed _ _ socket hrun hlistening hloop hreceive' =>
      cases hreceive.symm.trans hreceive'
  | arriveFault _ _ f hrun hlistening hloop hreceive' => cases hreceive.symm.trans hreceive'

theorem listens_congr (hsocket : κ'.socket = κ.socket)
    (hrequested : κ'.stopRequested = κ.stopRequested) : κ'.Listens ↔ κ.Listens := by
  rw [Listens, Listens, hsocket, hrequested]

namespace Threads

variable {θ θ' : Threads} {e : Event} {labels : List Event}

/-- The step of the client that a step of its threads is, if a packet leaves when it is
popped. -/
def Event.fused : Event → Option Client.Event
  | .client e => some e
  | .arrive addr datagram => some (.arrive addr datagram)
  | .pop => some .drain
  | _ => none

def Event.Allowed (serverAddress : NetAddress) (e : Event) : Prop :=
  ∀ e', e.fused = some e' → e'.Allowed serverAddress

structure Intact (serverAddress : NetAddress) (θ : Threads) : Prop where
  orderly : θ.client.Orderly serverAddress
  listens : θ.handleOpen = true → θ.client.Listens
  invalid : θ.stopping = .invalidated ∨ θ.stopping = .returned →
    θ.client.socket.isValid = false
  popped : ∀ p, θ.popped = some p →
    p.payload.payload.length ≤ 499 ∧ θ.client.sending = true
  receiving : θ.place ≠ .loop → θ.client.listening = .receiving
  listenLeft : θ.place = .left → ¬ θ.client.Listens
  sendLeft : θ.sendThreadLeft = true → θ.client.sending = false ∧ ¬ θ.client.Listens

theorem Intact.client (h : θ.Intact serverAddress) (horderly : κ.Orderly serverAddress)
    (hsocket : κ.socket = θ.client.socket)
    (hrequested : κ.stopRequested = θ.client.stopRequested)
    (hreceiving : θ.client.listening = .receiving → κ.listening = .receiving)
    (hsending : κ.sending ≠ θ.client.sending → θ.popped = none ∧ θ.sendThreadLeft = false) :
    Intact serverAddress { θ with client := κ } := by
  have hlistens := listens_congr hsocket hrequested
  refine ⟨horderly, fun hopen ↦ hlistens.mpr (h.listens hopen), ?_, ?_,
    fun hplace ↦ hreceiving (h.receiving hplace), fun hleft ↦ ?_, fun hleft ↦ ⟨?_, ?_⟩⟩
  · intro hstop
    rw [← h.invalid hstop]
    exact congrArg Socket.isValid hsocket
  · intro p hp
    obtain ⟨hsmall, hsend⟩ := h.popped p hp
    refine ⟨hsmall, ?_⟩
    by_contra hne
    have hnone := (hsending fun heq ↦ hne (heq.trans hsend)).1
    cases hp.symm.trans hnone
  · exact fun hloop ↦ h.listenLeft hleft (hlistens.mp hloop)
  · by_contra hne
    have hstay := (hsending fun heq ↦ hne (heq.trans (h.sendLeft hleft).1)).2
    cases hleft.symm.trans hstay
  · exact fun hloop ↦ (h.sendLeft hleft).2 (hlistens.mp hloop)

/-- The socket is closed, or the stop is requested besides. -/
theorem Intact.shut (h : θ.Intact serverAddress) {stopping : Stopping} (requested : Bool)
    (hclosed : { θ with stopping := stopping }.handleOpen = false) :
    Intact serverAddress { θ with
      client := { θ.client with socket := θ.client.socket.close, stopRequested := requested }
      stopping := stopping } := by
  have hdeaf : ¬ Listens { θ.client with
      socket := θ.client.socket.close, stopRequested := requested } := by
    rintro ⟨hvalid, -⟩
    cases hvalid
  refine ⟨{ h.orderly with }, fun hopen ↦ ?_, fun _ ↦ rfl, h.popped, h.receiving,
    fun _ ↦ hdeaf, fun hleft ↦ ⟨(h.sendLeft hleft).1, hdeaf⟩⟩
  cases hclosed.symm.trans hopen

theorem Intact.goOn (h : θ.Intact serverAddress) {stopping : Stopping}
    (hopen : { θ with stopping := stopping }.handleOpen = true → θ.handleOpen = true)
    (hvalid : stopping ≠ .invalidated ∧ stopping ≠ .returned) :
    Intact serverAddress { θ with stopping := stopping } := by
  refine { h with listens := fun hopen' ↦ h.listens (hopen hopen'), invalid := fun hstop ↦ ?_ }
  rcases hstop with hstop | hstop
  · exact absurd hstop hvalid.1
  · exact absurd hstop hvalid.2

theorem exists_receiveFailed (κ : Client) : ∃ requested,
    { κ with socket := κ.socket.close }.receiveFailed =
      { κ with socket := κ.socket.close, stopRequested := requested } := by
  unfold receiveFailed
  split
  · exact ⟨true, rfl⟩
  · exact ⟨κ.stopRequested, rfl⟩

theorem close_of_invalid {s : Socket} (h : s.isValid = false) : s.close = s :=
  congrArg Socket.mk h.symm

theorem Intact.step (h : θ.Intact serverAddress) (hw : w.Documented)
    (hallowed : e.Allowed serverAddress) (hstep : Step build w θ e θ') :
    (θ.popped ≠ none ∧ θ'.stopping ≠ .notCalled ∧ θ'.client.aborted = true) ∨
      θ'.Intact serverAddress := by
  cases hstep with
  | client e κ hlocal hsending hstep =>
      obtain ⟨horderly, hsocket, hrequested, hreceiving⟩ :=
        h.orderly.local (hallowed e rfl) hlocal hstep
      exact .inr (h.client horderly hsocket hrequested hreceiving hsending)
  | receiveFrom hrun hlistening hplace hloop =>
      exact .inr { h with receiving := fun _ ↦ hlistening, listenLeft := nofun }
  | arrive addr datagram κ hplace hopen hfits hstep =>
      obtain ⟨horderly, hκ⟩ := h.orderly.arrive hw (hallowed _ rfl) hfits hstep
      have hlistens : κ.Listens ↔ θ.client.Listens := by
        rcases hκ with rfl | rfl <;> exact Iff.rfl
      refine .inr ⟨horderly, fun _ ↦ hlistens.mpr (h.listens hopen), ?_, ?_, nofun, nofun, ?_⟩
      · rcases hκ with rfl | rfl <;> exact h.invalid
      · rcases hκ with rfl | rfl <;> exact h.popped
      · rcases hκ with rfl | rfl <;> exact h.sendLeft
  | wake hrun hplace hclosed =>
      obtain ⟨requested, hfailed⟩ := exists_receiveFailed θ.client
      have hshut := h.shut requested hclosed
      rw [hfailed]
      exact .inr { hshut with receiving := nofun, listenLeft := nofun }
  | leaveListen hrun hlistening hplace hloop =>
      exact .inr { h with receiving := fun _ ↦ hlistening, listenLeft := fun _ ↦ hloop }
  | pop packet c hrun hsending hpopped hlock hpop =>
      obtain ⟨hsmall, hrest⟩ := h.orderly.small.pop hpop
      obtain ⟨_, _, _, rfl, -⟩ := Connection.popReadyOutgoingPacket_eq_some_iff.mp hpop
      refine .inr { h with orderly := { h.orderly with small := hrest }, popped := fun p hp ↦ ?_ }
      obtain rfl := Option.some.inj hp
      exact ⟨hsmall, hsending⟩
  | sendTo packet datagram hrun hpopped haddress hsend =>
      exact .inr { h with orderly := { h.orderly with }, popped := nofun }
  | sendToFreed packet hrun hpopped haddress =>
      exact .inl ⟨by simp [hpopped], haddress, rfl⟩
  | leaveSend hrun hsending hleft hloop =>
      exact .inr { h with sendLeft := fun _ ↦ ⟨hsending, hloop⟩ }
  | stopClosed hrun hstop hvalid =>
      have hshut : Intact serverAddress { θ with
          client := { θ.client with socket := θ.client.socket.close, stopRequested := true }
          stopping := .returned } := h.shut true rfl
      rw [close_of_invalid hvalid] at hshut
      exact .inr hshut
  | free hrun hstop hvalid => exact .inr (h.goOn (fun _ ↦ by rw [handleOpen, hstop]) (by decide))
  | clear hrun hstop => exact .inr (h.goOn (fun _ ↦ by rw [handleOpen, hstop]) (by decide))
  | close hrun hstop => exact .inr (h.goOn nofun (by decide))
  | invalidate hrun hstop => exact .inr (h.shut θ.client.stopRequested rfl)
  | requestStop hrun hstop =>
      have hshut : Intact serverAddress { θ with
          client := { θ.client with socket := θ.client.socket.close, stopRequested := true }
          stopping := .returned } := h.shut true rfl
      rw [close_of_invalid (h.invalid (.inl hstop))] at hshut
      exact .inr hshut

theorem intact_of_start (hw : w.Sends) (hstart : (make serverAddress).start w = .ok κ₀) :
    Intact serverAddress { client := κ₀ } := by
  obtain rfl := Except.ok.inj ((start_eq hw serverAddress).symm.trans hstart)
  refine ⟨⟨rfl, rfl, nofun, nofun, fun _ ↦ rfl, ?_⟩, fun _ ↦ ⟨rfl, rfl⟩, ?_, nofun, ?_, nofun,
    nofun⟩
  · exact Connection.sendsSmall_fresh serverAddress
  · rintro (hstop | hstop) <;> cases hstop
  · exact fun hplace ↦ absurd rfl hplace

theorem Step.running (h : Step build w θ e θ') : θ.client.aborted = false := by
  cases h with
  | client e κ hlocal hsending hstep => cases hstep <;> assumption
  | arrive addr datagram κ hplace hopen hfits hstep => cases hstep <;> assumption
  | _ => assumption

theorem intact_of_run (hw : w.Sends) (hstart : (make serverAddress).start w = .ok κ₀)
    (hallowed : ∀ e ∈ labels, e.Allowed serverAddress)
    (hrun : Run (Step build w) { client := κ₀ } labels θ) :
    (θ.stopping ≠ .notCalled ∧ θ.client.aborted = true) ∨ θ.Intact serverAddress := by
  refine hrun.invariant_of_allowed (Event.Allowed serverAddress)
    (fun τ ↦ (τ.stopping ≠ .notCalled ∧ τ.client.aborted = true) ∨ τ.Intact serverAddress)
    hallowed (.inr (intact_of_start hw hstart)) fun τ e τ' h hallowed hstep ↦ ?_
  rcases h with ⟨-, haborted⟩ | hintact
  · cases haborted.symm.trans hstep.running
  · exact (hintact.step hw.toDocumented hallowed hstep).imp_left And.right

/-! ## Popping and sending as one step -/

/-- The client in which what is popped has been sent. -/
def fused (θ : Threads) : Client :=
  θ.client.withSent (θ.client.sent ++ θ.popped.toList.map Packet.wire)

theorem socket_of_listens (h : κ.Listens) : κ.socket = {} := congrArg Socket.mk h.1

theorem careful_of_local (hlocal : Client.Event.IsLocal e') : κ.Careful w e' := by
  cases e' <;> trivial

/-- A step before `Stop` is the step of the client, or none. -/
theorem Intact.fused_step (h : θ.Intact serverAddress) (hw : w.Sends)
    (hstop : θ'.stopping = .notCalled) (hstep : Step build w θ e θ') :
    Run (CarefulStep build w) θ.fused e.fused.toList θ'.fused := by
  cases hstep with
  | client e κ hlocal hsending hstep =>
      have hdrain : e ≠ .drain := by
        rintro rfl
        exact hlocal
      obtain ⟨hcoarse, hsent⟩ := hstep.withSent hdrain θ.fused.sent
      have hend : fused { θ with client := κ } = κ.withSent θ.fused.sent :=
        congrArg (fun sent ↦ κ.withSent (sent ++ _)) hsent
      rw [hend]
      exact .single ⟨hcoarse, careful_of_local hlocal⟩
  | arrive addr datagram κ hplace hopen hfits hstep =>
      obtain ⟨hcoarse, hsent⟩ := hstep.withSent nofun θ.fused.sent
      have hend : fused { θ with client := κ, place := .loop } = κ.withSent θ.fused.sent :=
        congrArg (fun sent ↦ κ.withSent (sent ++ _)) hsent
      rw [hend]
      exact .single ⟨hcoarse, hfits⟩
  | wake hrun hplace hclosed =>
      change θ.stopping = .notCalled at hstop
      rw [handleOpen, hstop] at hclosed
      cases hclosed
  | pop packet c hrun hsending hpopped hlock hpop =>
      have hopen : θ.handleOpen = true := by
        change θ.stopping = .notCalled at hstop
        rw [handleOpen, hstop]
      have hlistens := h.listens hopen
      obtain ⟨hsmall, -⟩ := h.orderly.small.pop hpop
      have hsend := sendPacket_small hw hsmall
      rw [← socket_of_listens hlistens] at hsend
      have hbefore : θ.fused = θ.client := by
        rw [fused, hpopped]
        exact congrArg θ.client.withSent (List.append_nil _)
      rw [hbefore]
      refine .single ⟨.drain packet c _ _ hrun hsending hlock hlistens.1 hpop hsend, ?_⟩
      intro packet' c' hpop'
      obtain ⟨rfl, -⟩ := Prod.mk.inj (Option.some.inj (hpop.symm.trans hpop'))
      exact ⟨_, writePacket_small hsmall, by rw [sendto_small hw hsmall]; rfl⟩
  | sendTo packet datagram hrun hpopped haddress hsend =>
      obtain ⟨hsmall, -⟩ := h.popped packet hpopped
      have hlistens := h.listens (by rw [handleOpen, haddress])
      rw [socket_of_listens hlistens, sendPacket_small hw hsmall] at hsend
      obtain ⟨hdatagram, -⟩ := Prod.mk.inj (Except.ok.inj hsend)
      obtain rfl := Option.some.inj hdatagram
      have hsame : fused { θ with
          client := { θ.client with sent := θ.client.sent ++ [packet.wire] }
          popped := none } = θ.fused := by
        rw [fused, fused, hpopped]
        exact congrArg θ.client.withSent (List.append_nil _)
      rw [hsame]
      exact .nil
  | sendToFreed packet hrun hpopped haddress => exact absurd hstop haddress
  | receiveFrom | leaveListen | leaveSend => exact .nil
  | stopClosed | free | clear | close | invalidate | requestStop => cases hstop

/-- `Stop` is never taken back. -/
theorem Step.notCalled (h : Step build w θ e θ') (hstop : θ'.stopping = .notCalled) :
    θ.stopping = .notCalled := by
  cases h with
  | stopClosed | free | clear | close | invalidate | requestStop => cases hstop
  | _ => exact hstop

theorem fused_run (hw : w.Sends) (hstart : (make serverAddress).start w = .ok κ₀)
    (hallowed : ∀ e ∈ labels, e.Allowed serverAddress)
    (hrun : Run (Step build w) { client := κ₀ } labels θ) (hstop : θ.stopping = .notCalled) :
    Run (CarefulStep build w) κ₀ (labels.filterMap Event.fused) θ.fused := by
  induction hrun with
  | nil =>
      have hstart : fused { client := κ₀ } = κ₀ := congrArg κ₀.withSent (List.append_nil _)
      rw [hstart]
      exact .nil
  | @snoc labels t u e hrun hlast ih =>
      have hbefore : ∀ e ∈ labels, e.Allowed serverAddress := fun e he ↦
        hallowed e (List.mem_append_left _ he)
      rw [LabelledRun.filterMap_snoc]
      refine (ih hbefore (hlast.notCalled hstop)).append ?_
      rcases intact_of_run hw hstart hbefore hrun with ⟨-, haborted⟩ | hintact
      · cases haborted.symm.trans hlast.running
      · exact hintact.fused_step hw hstop hlast

/-- A step of the client is made in one or two steps of its threads. -/
theorem exists_run_of_step {e : Client.Event} (h : κ.Sound serverAddress)
    (hstep : CarefulStep build w κ e κ') :
    ∃ labels, labels.filterMap Event.fused = [e] ∧
      Run (Step build w) { client := κ } labels { client := κ' } := by
  obtain ⟨hstep, hcareful⟩ := hstep
  have hlocal (hlocal : e.IsLocal) : ∃ labels, labels.filterMap Event.fused = [e] ∧
      Run (Step build w) { client := κ } labels { client := κ' } :=
    ⟨[.client e], rfl, .single (.client e κ' hlocal (fun _ ↦ ⟨rfl, rfl⟩) hstep)⟩
  have harrive {addr : NetAddress} {datagram : List UInt8} (hrun : κ.aborted = false)
      (hlistening : κ.listening = .receiving) (hloop : κ.Listens)
      (hfits : datagram.length ≤ bufferMax)
      (hstep : Client.Step build w κ (.arrive addr datagram) κ') :
      Run (Step build w) { client := κ } [.receiveFrom, .arrive addr datagram] { client := κ' } :=
    (Run.single (.receiveFrom hrun hlistening rfl hloop)).snoc
      (.arrive addr datagram κ' rfl rfl hfits hstep)
  cases hstep with
  | arrive addr datagram received socket hrun hlistening hloop hreceive =>
      exact ⟨_, rfl, harrive hrun hlistening hloop hcareful
        (.arrive addr datagram received socket hrun hlistening hloop hreceive)⟩
  | arriveFailed addr datagram socket hrun hlistening hloop hreceive =>
      exact ⟨_, rfl, harrive hrun hlistening hloop hcareful
        (.arriveFailed addr datagram socket hrun hlistening hloop hreceive)⟩
  | arriveFault addr datagram f hrun hlistening hloop hreceive =>
      exact ⟨_, rfl, harrive hrun hlistening hloop hcareful
        (.arriveFault addr datagram f hrun hlistening hloop hreceive)⟩
  | recvFailed | stop => exact hcareful.elim
  | received | receivedFault | undecodable | deliver | endReceived | send | beginSending
    | endSending => exact hlocal trivial
  | drain packet c datagram socket hrun hsending hlock hvalid hpop hsend =>
      obtain ⟨bytes, hsend'⟩ := h.exists_sendPacket hcareful hpop
      obtain ⟨rfl, rfl⟩ := Prod.mk.inj (Except.ok.inj (hsend.symm.trans hsend'))
      rw [← h.socket] at hsend ⊢
      exact ⟨[.pop, .sendTo], rfl,
        (Run.single (.pop packet c hrun hsending rfl hlock hpop)).snoc
          (.sendTo packet bytes hrun rfl rfl hsend)⟩
  | drainFault packet c f hrun hsending hlock hpop hsend =>
      obtain ⟨bytes, hsend'⟩ := h.exists_sendPacket hcareful hpop
      cases hsend.symm.trans hsend'
  | drainClosed packet c hrun hsending hlock hvalid hpop =>
      rw [h.socket] at hvalid
      cases hvalid

theorem exists_run_of_run {labels : List Client.Event} (hw : w.Sends)
    (hstart : (make serverAddress).start w = .ok κ₀)
    (hformed : ∀ e ∈ labels, e.Formed serverAddress)
    (hrun : Run (CarefulStep build w) κ₀ labels κ) :
    ∃ labels', labels'.filterMap Event.fused = labels ∧
      Run (Step build w) { client := κ₀ } labels' { client := κ } := by
  induction hrun with
  | nil => exact ⟨[], rfl, .nil⟩
  | @snoc labels t u e hrun hlast ih =>
      have hbefore : ∀ e ∈ labels, e.Formed serverAddress := fun e he ↦
        hformed e (List.mem_append_left _ he)
      obtain ⟨labels', hfused, hrun'⟩ := ih hbefore
      have hsound := (follows_of_run hw hstart hrun hbefore serverAddress).1
      obtain ⟨last, hfused', hlast'⟩ := exists_run_of_step hsound hlast
      refine ⟨labels' ++ last, ?_, hrun'.append hlast'⟩
      rw [List.filterMap_append, hfused, hfused']

/-- Before `Stop`, the runs of the threads are those of the client in which a packet is
sent when it is popped. -/
theorem fused_of_run (build : Build) (hw : w.Sends)
    (hstart : (make serverAddress).start w = .ok κ₀) :
    (∀ labels θ, (∀ e ∈ labels, e.Allowed serverAddress) →
      Run (Step build w) { client := κ₀ } labels θ → θ.stopping = .notCalled →
      Run (CarefulStep build w) κ₀ (labels.filterMap Event.fused) θ.fused) ∧
    ∀ labels κ, (∀ e ∈ labels, e.Formed serverAddress) →
      Run (CarefulStep build w) κ₀ labels κ →
      ∃ labels', labels'.filterMap Event.fused = labels ∧
        Run (Step build w) { client := κ₀ } labels' { client := κ } := by
  refine ⟨?_, ?_⟩
  · exact fun labels θ hallowed hrun hstop ↦ fused_run hw hstart hallowed hrun hstop
  · exact fun labels κ hformed hrun ↦ exists_run_of_run hw hstart hformed hrun

/-- A question is scheduled and popped. -/
def asking : List Event :=
  [.client (.send System.question), .client .next, .pop]

theorem asking_allowed (serverAddress : NetAddress) :
    ∀ e ∈ asking, e.Allowed serverAddress := by
  intro e he e' hfused
  simp only [asking, List.mem_cons, List.not_mem_nil, or_false] at he
  rcases he with rfl | rfl | rfl <;> obtain rfl := Option.some.inj hfused
  · refine ⟨nofun, fun message hmessage ↦ ?_⟩
    obtain rfl := Client.Event.send.inj hmessage
    decide
  · exact ⟨nofun, nofun⟩
  · exact ⟨nofun, nofun⟩

theorem exists_asking (serverAddress : NetAddress) : ∃ θ,
    Run (Step .debug .datagrams)
      { client := { make serverAddress with sent := [pingPacket.wire] } } asking θ ∧
    θ.stopping = .notCalled ∧ θ.popped = some System.questionPacket ∧
      θ.client.sent = [pingPacket.wire] := by
  have hrun₁ : Run (Step .debug .datagrams)
      { client := { make serverAddress with sent := [pingPacket.wire] } } _ _ :=
    .single (.client (.send System.question) _ trivial (fun _ ↦ ⟨rfl, rfl⟩) (.send _ rfl))
  have hrun₂ := hrun₁.snoc
    (.client .next _ trivial (fun _ ↦ ⟨rfl, rfl⟩) (.beginSending rfl rfl ⟨rfl, rfl⟩))
  have hrun₃ := hrun₂.snoc (.pop System.questionPacket _ rfl rfl rfl nofun rfl)
  exact ⟨_, hrun₃, rfl, rfl, rfl⟩

/-- The client has sent the question when it has popped it, and its thread has not yet. -/
theorem fused_after_asking : ∃ θ : Threads,
    θ.client.sent = [pingPacket.wire] ∧
    θ.fused.sent = [pingPacket.wire, System.questionPacket.wire] ∧
      Run (CarefulStep .debug .datagrams)
        { make Server.secondPeer with sent := [pingPacket.wire] }
        [.send System.question, .next, .drain] θ.fused := by
  have hw := Winsock.datagrams_sends
  obtain ⟨θ, hrun, hstop, hpopped, hsent⟩ := exists_asking Server.secondPeer
  refine ⟨θ, hsent, ?_, ?_⟩
  · rw [fused, hpopped, hsent]
    rfl
  · exact (fused_of_run .debug hw (start_eq hw Server.secondPeer)).1 asking θ
      (asking_allowed Server.secondPeer) hrun hstop

end Threads

end Client

end GioNet
