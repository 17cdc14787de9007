import GioNet.Readiness
import GioNet.Server

/-!
# The client

`ListenThread`, `SendThread` and the callers of `Send` and `Stop` share the socket
and the connection to the server. A step is one call of `Stop`, of a member function
of the socket or of the connection, or both when `SendThread` pops a packet and sends
it, and the steps of a run may interleave in any way.
-/

namespace GioNet

open Packet (invalidId)

namespace Client

inductive Listening where
  /-- At the test of the loop or in the call of `ReceiveFrom`. -/
  | receiving
  /-- At the decoding of what the server has sent. -/
  | found (received : Buffer)
  /-- In `ProcessIncomingPacket`. -/
  | processing
  /-- In a call of `Received` that never ends and holds the connection's lock. -/
  | stuck

end Client

/-- `dataReceived` has what the delegate of that name has been called with; it and
`sent` are history and are not read by any step. -/
structure Client where
  serverAddress : NetAddress := {}
  socket : Socket := {}
  connectionToServer : Connection Buffer := {}
  listening : Client.Listening := .receiving
  /-- `SendThread` is in its inner loop. -/
  sending : Bool := false
  /-- `Stop` has been called. -/
  stopRequested : Bool := false
  /-- The process has been terminated. -/
  aborted : Bool := false
  dataReceived : List Buffer := []
  sent : List (List UInt8) := []

namespace Client

/-- The constructor. -/
def make (serverAddress : NetAddress) : Client where
  serverAddress := serverAddress
  connectionToServer := .fresh serverAddress

def stop (κ : Client) : Client := { κ with socket := κ.socket.close, stopRequested := true }

/-- `Start` up to the start of the threads. -/
def start (w : Winsock) (κ : Client) : Except Fault Client :=
  if κ.socket.isValid then do
    let (_, b) ← (Buffer.writePacket (Packet.make .ping .none {})).run {}
    let (datagram, socket) := κ.socket.sendTo w b
    return { κ with socket := socket, sent := κ.sent ++ datagram.toList }
  else return κ.stop

def isConnected (κ : Client) : Bool := κ.socket.isValid

def send (κ : Client) (message : Message) : Client :=
  if ¬ κ.isConnected then κ
  else { κ with connectionToServer := κ.connectionToServer.schedule message.packet }

/-- `ListenThread` after a `ReceiveFrom` that has returned a buffer. -/
def take (κ : Client) (addr : NetAddress) (received : Buffer) : Client :=
  if addr.eq κ.serverAddress then { κ with listening := .found received } else κ

/-- `ListenThread` after a `ReceiveFrom` that has failed and left `addr` as it was. -/
def receiveFailed (κ : Client) : Client :=
  if NetAddress.eq {} κ.serverAddress then κ.stop else κ

/-- A call of `Received` does not come back. -/
def fault (κ : Client) (f : Fault) : Client :=
  if f = .endlessLoop then { κ with listening := .stuck } else { κ with aborted := true }

inductive Event where
  | arrive (addr : NetAddress) (datagram : List UInt8)
  | recvFailed
  | received (packet : Packet Buffer)
  | undecodable
  | deliver
  | send (message : Message)
  | stop
  | drain
  /-- A loop begins or ends. -/
  | next

/-- The condition of the loops of both threads. -/
def Listens (κ : Client) : Prop := κ.socket.isValid = true ∧ κ.stopRequested = false

inductive Step (build : Build) (w : Winsock) (κ : Client) : Event → Client → Prop
  -- the network and `ListenThread`
  | arrive (addr : NetAddress) (datagram : List UInt8) (received : Buffer) (socket : Socket)
      (hrun : κ.aborted = false) (hlistening : κ.listening = .receiving) (hloop : κ.Listens)
      (hreceive : κ.socket.receiveFrom build w datagram = .ok (some received, socket)) :
      Step build w κ (.arrive addr datagram) ({ κ with socket := socket }.take addr received)
  | arriveFailed (addr : NetAddress) (datagram : List UInt8) (socket : Socket)
      (hrun : κ.aborted = false) (hlistening : κ.listening = .receiving) (hloop : κ.Listens)
      (hreceive : κ.socket.receiveFrom build w datagram = .ok (none, socket)) :
      Step build w κ (.arrive addr datagram) ({ κ with socket := socket }.receiveFailed)
  | arriveFault (addr : NetAddress) (datagram : List UInt8) (f : Fault)
      (hrun : κ.aborted = false) (hlistening : κ.listening = .receiving) (hloop : κ.Listens)
      (hreceive : κ.socket.receiveFrom build w datagram = .error f) :
      Step build w κ (.arrive addr datagram) { κ with aborted := true }
  | recvFailed (hrun : κ.aborted = false) (hlistening : κ.listening = .receiving)
      (hloop : κ.Listens) :
      Step build w κ .recvFailed ({ κ with socket := κ.socket.close }.receiveFailed)
  | received (received : Buffer) (packet : Packet Buffer) (rest : Buffer) (c : Connection Buffer)
      (hrun : κ.aborted = false) (hlistening : κ.listening = .found received)
      (hread : (Buffer.readPacket build).run received = .ok (packet, rest))
      (hreceived : κ.connectionToServer.received build packet = .ok c) :
      Step build w κ (.received packet)
        { κ with connectionToServer := c, listening := .processing }
  | receivedFault (received : Buffer) (packet : Packet Buffer) (rest : Buffer) (f : Fault)
      (hrun : κ.aborted = false) (hlistening : κ.listening = .found received)
      (hread : (Buffer.readPacket build).run received = .ok (packet, rest))
      (hreceived : κ.connectionToServer.received build packet = .error f) :
      Step build w κ (.received packet) (κ.fault f)
  | undecodable (received : Buffer) (f : Fault) (hrun : κ.aborted = false)
      (hlistening : κ.listening = .found received)
      (hread : (Buffer.readPacket build).run received = .error f) :
      Step build w κ .undecodable { κ with aborted := true }
  -- every ready packet is handed over, of whatever type it is
  | deliver (packet : Packet Buffer) (c : Connection Buffer) (hrun : κ.aborted = false)
      (hlistening : κ.listening = .processing)
      (hpop : κ.connectionToServer.popReadyIncomingPacket = some (packet, c)) :
      Step build w κ .deliver { κ with
        connectionToServer := c
        dataReceived := κ.dataReceived ++ [packet.payload] }
  | endReceived (hrun : κ.aborted = false) (hlistening : κ.listening = .processing)
      (hpop : κ.connectionToServer.popReadyIncomingPacket = none) :
      Step build w κ .next { κ with listening := .receiving }
  -- `Send` and `Stop`
  | send (message : Message) (hrun : κ.aborted = false) :
      Step build w κ (.send message) (κ.send message)
  | stop (hrun : κ.aborted = false) : Step build w κ .stop κ.stop
  -- `SendThread`
  | beginSending (hrun : κ.aborted = false) (hsending : κ.sending = false) (hloop : κ.Listens) :
      Step build w κ .next { κ with sending := true }
  | drain (packet : Packet Buffer) (c : Connection Buffer) (datagram : Option (List UInt8))
      (socket : Socket) (hrun : κ.aborted = false) (hsending : κ.sending = true)
      (hlock : κ.listening ≠ .stuck) (hvalid : κ.socket.isValid = true)
      (hpop : κ.connectionToServer.popReadyOutgoingPacket = some (packet, c))
      (hsend : sendPacket w κ.socket packet = .ok (datagram, socket)) :
      Step build w κ .drain { κ with
        connectionToServer := c
        socket := socket
        sent := κ.sent ++ datagram.toList }
  | drainFault (packet : Packet Buffer) (c : Connection Buffer) (f : Fault)
      (hrun : κ.aborted = false) (hsending : κ.sending = true) (hlock : κ.listening ≠ .stuck)
      (hpop : κ.connectionToServer.popReadyOutgoingPacket = some (packet, c))
      (hsend : sendPacket w κ.socket packet = .error f) :
      Step build w κ .drain { κ with connectionToServer := c, aborted := true }
  -- `Close` has freed the address that `SendTo` asserts to be there and reads
  | drainClosed (packet : Packet Buffer) (c : Connection Buffer) (hrun : κ.aborted = false)
      (hsending : κ.sending = true) (hlock : κ.listening ≠ .stuck)
      (hvalid : κ.socket.isValid = false)
      (hpop : κ.connectionToServer.popReadyOutgoingPacket = some (packet, c)) :
      Step build w κ .drain { κ with connectionToServer := c, aborted := true }
  | endSending (hrun : κ.aborted = false) (hsending : κ.sending = true)
      (hpop : κ.connectionToServer.popReadyOutgoingPacket = none) :
      Step build w κ .next { κ with sending := false }

/-- No call of `recvfrom` or `sendto` fails, packets can be serialised, and `Stop`
is not called. -/
def Careful (w : Winsock) (κ : Client) : Event → Prop
  | .arrive _ datagram => datagram.length ≤ bufferMax
  | .drain => ∀ packet c, κ.connectionToServer.popReadyOutgoingPacket = some (packet, c) →
      ∃ b, (Buffer.writePacket packet).run {} = .ok ((), b) ∧
        (w.sendto b.payload b.length).isSome = true
  | .recvFailed => False
  | .stop => False
  | _ => True

structure CarefulStep (build : Build) (w : Winsock) (κ : Client) (e : Event) (κ' : Client) :
    Prop where
  step : Step build w κ e κ'
  careful : κ.Careful w e

/-! ## The invariant of the client -/

/-- The datagram of the server that an event is the arrival of. -/
def Event.fromServer (serverAddress : NetAddress) : Event → Option (List UInt8)
  | .arrive addr datagram => if addr.eq serverAddress then some datagram else none
  | _ => none

/-- What the server sends is well formed. -/
def Event.Formed (serverAddress : NetAddress) (e : Event) : Prop :=
  ∀ datagram, e.fromServer serverAddress = some datagram → WellFormed datagram

/-- The packet that `ListenThread` has in hand. -/
def Listening.inHand : Listening → List (Packet Buffer)
  | .found received => [packetOf received.payload]
  | _ => []

variable {build : Build} {w : Winsock} {serverAddress : NetAddress} {κ κ' : Client} {e : Event}
  {labels : List Event} {datagrams : List (List UInt8)}

/-- Nothing has failed, and only `ProcessIncomingPacket` leaves packets ready. -/
structure Sound (serverAddress : NetAddress) (κ : Client) : Prop where
  running : κ.aborted = false
  socket : κ.socket = {}
  stopRequested : κ.stopRequested = false
  server : κ.serverAddress = serverAddress
  free : κ.listening ≠ .stuck
  formed : ∀ received, κ.listening = .found received →
    WellFormed received.payload ∧ received.payload.length ≤ bufferMax
  ready : κ.listening ≠ .processing → κ.connectionToServer.incoming.readyPackets = []

/-- The steps that are left when nothing fails, with what they do. -/
inductive Proceeds (build : Build) (κ : Client) : Event → Client → Prop
  | arrive (addr : NetAddress) (datagram : List UInt8) (hlistening : κ.listening = .receiving)
      (hfits : datagram.length ≤ bufferMax) (haddr : addr.eq κ.serverAddress = true) :
      Proceeds build κ (.arrive addr datagram) { κ with listening := .found ⟨datagram⟩ }
  | ignore (addr : NetAddress) (datagram : List UInt8) (haddr : addr.eq κ.serverAddress = false) :
      Proceeds build κ (.arrive addr datagram) κ
  | received (received : Buffer) (c : Connection Buffer)
      (hlistening : κ.listening = .found received)
      (hreceived : κ.connectionToServer.received build (packetOf received.payload) = .ok c) :
      Proceeds build κ (.received (packetOf received.payload))
        { κ with connectionToServer := c, listening := .processing }
  | deliver (packet : Packet Buffer) (c : Connection Buffer)
      (hlistening : κ.listening = .processing)
      (hpop : κ.connectionToServer.popReadyIncomingPacket = some (packet, c)) :
      Proceeds build κ .deliver { κ with
        connectionToServer := c
        dataReceived := κ.dataReceived ++ [packet.payload] }
  | endReceived (hlistening : κ.listening = .processing)
      (hpop : κ.connectionToServer.popReadyIncomingPacket = none) :
      Proceeds build κ .next { κ with listening := .receiving }
  | send (message : Message) : Proceeds build κ (.send message)
      { κ with connectionToServer := κ.connectionToServer.schedule message.packet }
  | drain (packet : Packet Buffer) (c : Connection Buffer) (datagram : List UInt8)
      (hpop : κ.connectionToServer.popReadyOutgoingPacket = some (packet, c)) :
      Proceeds build κ .drain
        { κ with connectionToServer := c, sent := κ.sent ++ [datagram] }
  | next (sending : Bool) : Proceeds build κ .next { κ with sending := sending }

theorem Sound.exists_received (h : κ.Sound serverAddress) {received : Buffer}
    (hlistening : κ.listening = .found received) (build : Build) :
    ∃ rest c, (Buffer.readPacket build).run received = .ok (packetOf received.payload, rest) ∧
      κ.connectionToServer.received build (packetOf received.payload) = .ok c := by
  obtain ⟨hformed, hfits⟩ := h.formed received hlistening
  exact hformed.exists_decoded hfits build κ.connectionToServer

theorem Sound.exists_sendPacket (h : κ.Sound serverAddress) (hcareful : κ.Careful w .drain)
    {packet : Packet Buffer} {c : Connection Buffer}
    (hpop : κ.connectionToServer.popReadyOutgoingPacket = some (packet, c)) :
    ∃ datagram, sendPacket w κ.socket packet = .ok (some datagram, {}) := by
  obtain ⟨b, hwrite, hsendto⟩ := hcareful packet c hpop
  rw [h.socket]
  exact GioNet.exists_sendPacket hwrite hsendto

/-- Nothing fails in a careful step. -/
theorem Sound.proceeds (h : κ.Sound serverAddress) (hw : w.Documented)
    (hstep : CarefulStep build w κ e κ') : Proceeds build κ e κ' := by
  obtain ⟨hstep, hcareful⟩ := hstep
  cases hstep with
  | arrive addr datagram received socket hrun hlistening hloop hreceive =>
      rw [Socket.receiveFrom_of_le hw build κ.socket hcareful] at hreceive
      obtain ⟨rfl, rfl⟩ : Buffer.mk datagram = received ∧ κ.socket = socket := by
        simpa using Except.ok.inj hreceive
      change Proceeds build κ _ (κ.take addr ⟨datagram⟩)
      unfold take
      split
      · exact .arrive addr datagram hlistening hcareful ‹_›
      · rename_i hother
        exact .ignore addr datagram (Bool.of_not_eq_true hother)
  | arriveFailed addr datagram socket hrun hlistening hloop hreceive =>
      rw [Socket.receiveFrom_of_le hw build κ.socket hcareful] at hreceive
      cases hreceive
  | arriveFault addr datagram f hrun hlistening hloop hreceive =>
      rw [Socket.receiveFrom_of_le hw build κ.socket hcareful] at hreceive
      cases hreceive
  | recvFailed => exact hcareful.elim
  | received received packet rest c hrun hlistening hread hreceived =>
      obtain ⟨rest', c', hread', -⟩ := h.exists_received hlistening build
      obtain ⟨rfl, -⟩ := Prod.mk.inj (Except.ok.inj (hread.symm.trans hread'))
      exact .received received c hlistening hreceived
  | receivedFault received packet rest f hrun hlistening hread hreceived =>
      obtain ⟨rest', c', hread', hc'⟩ := h.exists_received hlistening build
      obtain ⟨rfl, -⟩ := Prod.mk.inj (Except.ok.inj (hread.symm.trans hread'))
      cases hc'.symm.trans hreceived
  | undecodable received f hrun hlistening hread =>
      obtain ⟨rest', c', hread', -⟩ := h.exists_received hlistening build
      cases hread'.symm.trans hread
  | deliver packet c hrun hlistening hpop => exact .deliver packet c hlistening hpop
  | endReceived hrun hlistening hpop => exact .endReceived hlistening hpop
  | send message hrun =>
      have hsend : κ.send message =
          { κ with connectionToServer := κ.connectionToServer.schedule message.packet } := by
        simp [Client.send, isConnected, h.socket]
      rw [hsend]
      exact .send message
  | stop => exact hcareful.elim
  | beginSending => exact .next true
  | drain packet c datagram socket hrun hsending hlock hvalid hpop hsend =>
      obtain ⟨datagram', hsend'⟩ := h.exists_sendPacket hcareful hpop
      obtain ⟨rfl, hsocket⟩ := Prod.mk.inj (Except.ok.inj (hsend.symm.trans hsend'))
      obtain rfl : socket = κ.socket := hsocket.trans h.socket.symm
      exact .drain packet c datagram' hpop
  | drainFault packet c f hrun hsending hlock hpop hsend =>
      obtain ⟨datagram, hsend'⟩ := h.exists_sendPacket hcareful hpop
      cases hsend'.symm.trans hsend
  | drainClosed packet c hrun hsending hlock hvalid hpop =>
      rw [h.socket] at hvalid
      cases hvalid
  | endSending => exact .next false

theorem Sound.step (h : κ.Sound serverAddress) (hformed : e.Formed serverAddress)
    (hstep : Proceeds build κ e κ') : κ'.Sound serverAddress := by
  cases hstep with
  | arrive addr datagram hlistening hfits haddr =>
      refine { h with free := by simp, formed := ?_, ready := ?_ }
      · intro received hreceived
        obtain rfl := Listening.found.inj hreceived
        exact ⟨hformed datagram (by simp [Event.fromServer, ← h.server, haddr]), hfits⟩
      · intro _
        exact h.ready (by simp [hlistening])
  | ignore => exact h
  | received => exact { h with free := by simp, formed := by simp, ready := by simp }
  | deliver packet c hlistening hpop =>
      refine { h with ready := fun hne ↦ absurd hlistening hne }
  | endReceived hlistening hpop =>
      refine { h with free := by simp, formed := by simp, ready := fun _ ↦ ?_ }
      exact Connection.popReadyIncomingPacket_eq_none_iff.mp hpop
  | send message =>
      refine { h with ready := fun hne ↦ ?_ }
      rw [Connection.schedule_incoming]
      exact h.ready hne
  | drain packet c datagram hpop =>
      obtain ⟨_, _, _, hc, _⟩ := Connection.popReadyOutgoingPacket_eq_some_iff.mp hpop
      refine { h with ready := fun hne ↦ ?_ }
      rw [hc]
      exact h.ready hne
  | next sending => exact { h with }

/-! ## What the client hands over -/

/-- The connection has received the packets of the datagrams so far, but for the
one in hand, and the payloads of all popped packets have been handed over. -/
structure Follows (build : Build) (address : NetAddress) (datagrams : List (List UInt8))
    (κ : Client) (packets popped : List (Packet Buffer)) (d : Connection Buffer) : Prop where
  received : (Connection.fresh address).receiveAll build packets = .ok d
  trails : κ.connectionToServer.Trails d popped
  dataReceived : κ.dataReceived = popped.map (·.payload)
  arrived : datagrams.map packetOf = packets ++ κ.listening.inHand

/-- Steps that receive and pop nothing may take a datagram in hand. -/
theorem Follows.frame {address : NetAddress} {packets popped : List (Packet Buffer)}
    {d : Connection Buffer} {new : List (List UInt8)}
    (h : κ.Follows build address datagrams packets popped d)
    (hincoming : κ'.connectionToServer.incoming = κ.connectionToServer.incoming)
    (hack : κ'.connectionToServer.currentAckId = κ.connectionToServer.currentAckId)
    (hdata : κ'.dataReceived = κ.dataReceived)
    (hinHand : κ'.listening.inHand = κ.listening.inHand ++ new.map packetOf) :
    κ'.Follows build address (datagrams ++ new) packets popped d := by
  refine ⟨h.received, h.trails.of_incoming hincoming hack, hdata.trans h.dataReceived, ?_⟩
  rw [List.map_append, h.arrived, hinHand, List.append_assoc]

theorem Follows.step {address : NetAddress} {packets popped : List (Packet Buffer)}
    {d : Connection Buffer} (h : κ.Follows build address datagrams packets popped d)
    (hserver : κ.serverAddress = serverAddress) (hstep : Proceeds build κ e κ') :
    ∃ packets popped d, κ'.Follows build address
      (datagrams ++ (e.fromServer serverAddress).toList) packets popped d := by
  cases hstep with
  | arrive addr datagram hlistening hfits haddr =>
      rw [hserver] at haddr
      refine ⟨packets, popped, d, h.frame rfl rfl rfl ?_⟩
      simp [hlistening, Listening.inHand, Event.fromServer, haddr]
  | ignore addr datagram haddr =>
      rw [hserver] at haddr
      refine ⟨packets, popped, d, h.frame rfl rfl rfl ?_⟩
      simp [Event.fromServer, haddr]
  | received received c hlistening hreceived =>
      obtain ⟨d', hd', htrails⟩ := h.trails.received hreceived
      refine ⟨packets ++ [packetOf received.payload], popped, d', ?_, htrails, h.dataReceived, ?_⟩
      · rw [Connection.receiveAll_snoc h.received, hd']
      · have harrived := h.arrived
        rw [hlistening] at harrived
        simpa [Event.fromServer, Listening.inHand] using harrived
  | deliver packet c hlistening hpop =>
      refine ⟨packets, popped ++ [packet], d, h.received, h.trails.pop hpop, ?_, ?_⟩
      · simp [h.dataReceived]
      · simpa [Event.fromServer] using h.arrived
  | endReceived hlistening hpop =>
      refine ⟨packets, popped, d, h.frame rfl rfl rfl ?_⟩
      simp [hlistening, Listening.inHand, Event.fromServer]
  | send message =>
      have hincoming := Connection.schedule_incoming κ.connectionToServer message.packet
      have hack := Connection.schedule_currentAckId κ.connectionToServer message.packet
      exact ⟨packets, popped, d, h.frame hincoming hack rfl (List.append_nil _).symm⟩
  | drain packet c datagram hpop =>
      obtain ⟨_, _, _, rfl, _⟩ := Connection.popReadyOutgoingPacket_eq_some_iff.mp hpop
      exact ⟨packets, popped, d, h.frame rfl rfl rfl (List.append_nil _).symm⟩
  | next sending => exact ⟨packets, popped, d, h.frame rfl rfl rfl (List.append_nil _).symm⟩

/-- The packet that `Start` sends. -/
def pingPacket : Packet Buffer := Packet.make .ping .none {}

theorem start_eq (hw : w.Sends) (serverAddress : NetAddress) :
    (make serverAddress).start w = .ok { make serverAddress with sent := [pingPacket.wire] } := by
  have hlen : pingPacket.wire.length = 13 := pingPacket.wire_length
  have hwrite : (Buffer.writePacket pingPacket).run {} = .ok ((), ⟨pingPacket.wire⟩) :=
    Buffer.appends_writePacket (by decide) {} (by simp [vectorMax, hlen])
  have hlength : Buffer.length ⟨pingPacket.wire⟩ = pingPacket.wire.length :=
    int32_of_lt (by dsimp only; omega)
  have hsend := hw.sendto_small pingPacket.wire (by rw [hlen, bufferMax]; omega)
  rw [← hlength] at hsend
  rw [pingPacket] at hwrite
  simp only [start, make, hwrite, Fault.ok_bind, if_true, Socket.sendTo]
  rw [← pingPacket, hsend]
  rfl

open LabelledRun (Run)

/-- The connection of a started client has received all packets of the server but
for the one in hand. -/
theorem follows_of_run (hw : w.Sends) {κ₀ : Client}
    (hstart : (make serverAddress).start w = .ok κ₀)
    (hrun : Run (CarefulStep build w) κ₀ labels κ)
    (hformed : ∀ e ∈ labels, e.Formed serverAddress) (address : NetAddress) :
    κ.Sound serverAddress ∧ ∃ packets popped d,
      κ.Follows build address (labels.filterMap (Event.fromServer serverAddress)) packets popped
        d := by
  induction hrun with
  | nil =>
      obtain rfl := Except.ok.inj ((start_eq hw serverAddress).symm.trans hstart)
      refine ⟨⟨rfl, rfl, rfl, rfl, by simp [make], by simp [make], fun _ ↦ rfl⟩, [], [],
        .fresh address, rfl, Connection.trails_fresh serverAddress address, rfl, rfl⟩
  | @snoc labels t u e hrun hlast ih =>
      obtain ⟨hsound, packets, popped, d, hfollows⟩ := ih fun e he ↦
        hformed e (List.mem_append_left _ he)
      have hproceeds := hsound.proceeds hw.toDocumented hlast
      refine ⟨hsound.step (hformed e (by simp)) hproceeds, ?_⟩
      rw [LabelledRun.filterMap_snoc]
      exact hfollows.step hsound.server hproceeds

/-- The started client has received these datagrams from its server, with anything
else going on, and has processed them. -/
def HasReceived (build : Build) (w : Winsock) (serverAddress : NetAddress)
    (datagrams : List (List UInt8)) (κ : Client) : Prop :=
  ∃ κ₀ labels, (make serverAddress).start w = .ok κ₀ ∧ Run (CarefulStep build w) κ₀ labels κ ∧
    labels.filterMap (Event.fromServer serverAddress) = datagrams ∧ κ.listening = .receiving

theorem formed_of_filterMap
    (hlabels : labels.filterMap (Event.fromServer serverAddress) = datagrams)
    (hformed : ∀ datagram ∈ datagrams, WellFormed datagram) :
    ∀ e ∈ labels, e.Formed serverAddress := by
  intro e he datagram hfrom
  apply hformed
  rw [← hlabels]
  exact List.mem_filterMap.mpr ⟨e, he, hfrom⟩

/-- The client hands over the payloads of all ready packets. -/
theorem HasReceived.dataReceived_eq (h : HasReceived build w serverAddress datagrams κ)
    (hw : w.Sends) (hformed : ∀ datagram ∈ datagrams, WellFormed datagram)
    (address : NetAddress) :
    ∃ d, (Connection.fresh address).receiveAll build (datagrams.map packetOf) = .ok d ∧
      κ.dataReceived = d.incoming.readyPackets.map (·.payload) := by
  obtain ⟨κ₀, labels, hstart, hrun, hlabels, hlistening⟩ := h
  obtain ⟨hsound, packets, popped, d, hfollows⟩ := follows_of_run hw hstart hrun
    (formed_of_filterMap hlabels hformed) address
  have hready := hsound.ready (by simp [hlistening])
  have harrived := hfollows.arrived
  have hpopped := hfollows.trails.readyPackets
  have hnone : κ.listening.inHand = [] := by
    rw [hlistening]
    rfl
  rw [hlabels, hnone, List.append_nil] at harrived
  rw [hready, List.append_nil] at hpopped
  refine ⟨d, harrived ▸ hfollows.received, ?_⟩
  rw [hfollows.dataReceived, hpopped]

/-! ## Every sequence of well-formed datagrams can be received -/

theorem exists_processed (build : Build) (w : Winsock) (serverAddress : NetAddress)
    (hrun : κ.aborted = false) (hlistening : κ.listening = .processing) :
    ∃ labels κ', Run (CarefulStep build w) κ labels κ' ∧
      labels.filterMap (Event.fromServer serverAddress) = [] ∧ κ'.listening = .receiving := by
  induction hready : κ.connectionToServer.incoming.readyPackets generalizing κ with
  | nil =>
      have hpop := Connection.popReadyIncomingPacket_eq_none_iff.mpr hready
      exact ⟨_, _, .single ⟨.endReceived hrun hlistening hpop, trivial⟩, rfl, rfl⟩
  | cons packet rest ih =>
      obtain ⟨c, hpop, hrest⟩ : ∃ c, κ.connectionToServer.popReadyIncomingPacket =
          some (packet, c) ∧ c.incoming.readyPackets = rest :=
        ⟨_, Connection.popReadyIncomingPacket_eq_some_iff.mpr ⟨rest, hready, rfl⟩, rfl⟩
      have hdeliver : Step build w κ Event.deliver _ := .deliver packet c hrun hlistening hpop
      obtain ⟨labels, κ', hrun', hlabels, hend⟩ := ih (κ := { κ with
        connectionToServer := c
        dataReceived := κ.dataReceived ++ [packet.payload] }) hrun hlistening hrest
      exact ⟨[.deliver] ++ labels, κ', (Run.single ⟨hdeliver, trivial⟩).append hrun',
        by simpa [Event.fromServer] using hlabels, hend⟩

theorem exists_received {addr : NetAddress} {datagram : List UInt8} (h : κ.Sound serverAddress)
    (hlistening : κ.listening = .receiving) (hw : w.Documented)
    (hfits : datagram.length ≤ bufferMax) (hformed : WellFormed datagram)
    (haddr : addr.eq serverAddress = true) (build : Build) :
    ∃ labels κ', Run (CarefulStep build w) κ labels κ' ∧
      labels.filterMap (Event.fromServer serverAddress) = [datagram] ∧
        κ'.listening = .receiving := by
  have hreceive := Socket.receiveFrom_of_le hw build κ.socket hfits
  have hloop : κ.Listens := ⟨h.socket ▸ rfl, h.stopRequested⟩
  have htake : take { κ with socket := κ.socket } addr ⟨datagram⟩ =
      { κ with listening := .found ⟨datagram⟩ } := by
    rw [take, if_pos (by rw [h.server, haddr])]
  have harrive := Step.arrive addr datagram _ _ h.running hlistening hloop hreceive
  rw [htake] at harrive
  obtain ⟨rest, c, hread, hc⟩ := hformed.exists_decoded hfits build κ.connectionToServer
  have hreceived : Step build w { κ with listening := .found ⟨datagram⟩ } _ _ :=
    .received ⟨datagram⟩ (packetOf datagram) rest c h.running rfl hread hc
  obtain ⟨labels, κ', hrun, hlabels, hend⟩ := exists_processed build w serverAddress
    (κ := { κ with connectionToServer := c, listening := .processing }) h.running rfl
  refine ⟨[.arrive addr datagram, .received (packetOf datagram)] ++ labels, κ',
    ((Run.single ⟨harrive, hfits⟩).snoc ⟨hreceived, trivial⟩).append hrun, ?_, hend⟩
  rw [List.filterMap_append, hlabels]
  simp [Event.fromServer, haddr]

theorem exists_hasReceived (hw : w.Sends) {addr : NetAddress}
    (haddr : addr.eq serverAddress = true)
    (h : ∀ datagram ∈ datagrams, datagram.length ≤ bufferMax ∧ WellFormed datagram)
    (build : Build) : ∃ κ, HasReceived build w serverAddress datagrams κ := by
  induction datagrams using List.reverseRecOn with
  | nil => exact ⟨_, _, [], start_eq hw serverAddress, .nil, rfl, rfl⟩
  | append_singleton datagrams datagram ih =>
      obtain ⟨κ, κ₀, labels, hstart, hrun, hlabels, hlistening⟩ := ih fun d hd ↦
        h d (List.mem_append_left _ hd)
      have hformed := formed_of_filterMap hlabels fun d hd ↦ (h d (List.mem_append_left _ hd)).2
      have hsound := (follows_of_run hw hstart hrun hformed serverAddress).1
      obtain ⟨hfits, hlast⟩ := h datagram (by simp)
      obtain ⟨labels', κ', hrun', hlabels', hend⟩ :=
        exists_received hsound hlistening hw.toDocumented hfits hlast haddr build
      refine ⟨κ', κ₀, labels ++ labels', hstart, hrun.append hrun', ?_, hend⟩
      rw [List.filterMap_append, hlabels, hlabels']

end Client

end GioNet
