import GioNet.Server

/-!
# The server as a product of connections

For each address the server behaves as one connection that only that address and
the messages for it can reach, as long as no call on behalf of another peer
fails. The proof is a simulation: every step of the server feeds the lone
connection of an address with at most one thing.
-/

namespace GioNet

/-! ## The lone connection -/

def dataOf (packets : List (Packet Buffer)) : List Buffer :=
  packets.filterMap fun packet ↦ if packet.getType = .data then some packet.payload else none

/-- The connection after its ready packets have been popped. -/
def Connection.drained {β : Type} (c : Connection β) : Connection β :=
  { c with incoming := { c.incoming with readyPackets := [] } }

namespace Connection

variable {β : Type} {c c' : Connection β} {p : Packet β}

theorem drained_of_ready (h : c.incoming.readyPackets = []) : c.drained = c := by
  unfold drained
  rw [← h]

@[simp] theorem drained_schedule (c : Connection β) (p : Packet β) :
    (c.schedule p).drained = c.drained.schedule p := by
  cases hrel : p.isReliable with
  | false => simp [schedule_of_unreliable hrel, drained]
  | true => simp [schedule_of_reliable hrel, drained, scheduledPacket, hrel]

theorem drained_popReadyOutgoingPacket (h : c.popReadyOutgoingPacket = some (p, c')) :
    c.drained.popReadyOutgoingPacket = some (p, c'.drained) := by
  obtain ⟨q, rest, hready, rfl, rfl⟩ := popReadyOutgoingPacket_eq_some_iff.mp h
  exact popReadyOutgoingPacket_eq_some_iff.mpr ⟨q, rest, hready, rfl, rfl⟩

end Connection

/-- A connection with what it has delivered and what has been sent for it. -/
structure Lone where
  connection : Connection Buffer
  delivered : List Buffer := []
  sent : List (List UInt8) := []

inductive Feed where
  | datagram (packet : Packet Buffer)
  | schedule (message : Message)
  | drain

namespace Lone

def receive (build : Build) (s : Lone) (packet : Packet Buffer) : Option Lone :=
  match s.connection.received build packet with
  | .ok c => some { s with
      connection := c.drained
      delivered := s.delivered ++ dataOf c.incoming.readyPackets }
  | .error _ => none

def afterSend (s : Lone) (c : Connection Buffer) :
    Except Fault (Option (List UInt8) × Socket) → Option Lone
  | .ok (datagram, _) => some { s with connection := c, sent := s.sent ++ datagram.toList }
  | .error _ => none

def drain (w : Winsock) (s : Lone) : Option Lone :=
  match s.connection.popReadyOutgoingPacket with
  | none => some s
  | some (packet, c) => s.afterSend c (sendPacket w {} packet)

def feed (build : Build) (w : Winsock) (s : Lone) : Feed → Option Lone
  | .datagram packet => s.receive build packet
  | .schedule message => some { s with connection := s.connection.schedule message.packet }
  | .drain => s.drain w

theorem drain_eq {w : Winsock} {s : Lone} {packet : Packet Buffer} {c : Connection Buffer}
    {datagram : Option (List UInt8)} {socket : Socket}
    (hpop : s.connection.popReadyOutgoingPacket = some (packet, c))
    (hsend : sendPacket w {} packet = .ok (datagram, socket)) :
    s.drain w = some { s with connection := c, sent := s.sent ++ datagram.toList } := by
  unfold drain
  split
  · rename_i hnone
    rw [hnone] at hpop
    cases hpop
  · rename_i packet' c' hpop'
    obtain ⟨rfl, rfl⟩ := Prod.mk.inj (Option.some.inj (hpop.symm.trans hpop'))
    rw [hsend]
    rfl

def run (build : Build) (w : Winsock) (a : NetAddress) (feeds : List Feed) : Option Lone :=
  feeds.foldlM (feed build w) { connection := .fresh a }

theorem delivered_of_unreliable (build : Build) (w : Winsock) (a : NetAddress)
    {p : Packet Buffer} (h : p.isReliable = false) :
    (run build w a [.datagram p]).map delivered = some (dataOf [p]) := by
  simp only [run, List.foldlM_cons, List.foldlM_nil, feed, receive,
    Connection.received_of_unreliable build (.fresh a) h]
  rfl

end Lone

/-! ## What the server shows to one address -/

def Callback.peer : Callback → NetAddress
  | .peerConnected peer => peer
  | .dataReceived peer _ => peer

def Callback.data (a : NetAddress) : Callback → Option Buffer
  | .dataReceived peer data => if peer = a then some data else none
  | .peerConnected _ => none

@[simp] theorem Callback.peer_peerConnected (peer : NetAddress) :
    (Callback.peerConnected peer).peer = peer := rfl

@[simp] theorem Callback.peer_dataReceived (peer : NetAddress) (data : Buffer) :
    (Callback.dataReceived peer data).peer = peer := rfl

@[simp] theorem Callback.data_peerConnected (a peer : NetAddress) :
    (Callback.peerConnected peer).data a = none := rfl

@[simp] theorem Callback.data_dataReceived (a peer : NetAddress) (data : Buffer) :
    (Callback.dataReceived peer data).data a = if peer = a then some data else none := rfl

/-- What an event is for the connection of the address. -/
def Event.feed (build : Build) (w : Winsock) (a : NetAddress) : Event → List Feed
  | .received peer packet => if peer = a then [.datagram packet] else []
  | .ignored source datagram =>
      if source = a then (decode build w datagram).toList.map .datagram else []
  | .send peer message => if peer = a then [.schedule message] else []
  | .broadcastSend _ peer message => if peer = a then [.schedule message] else []
  | .drain peer => if peer = a then [.drain] else []
  | _ => []

def Event.datagram (build : Build) (w : Winsock) (a : NetAddress) : Event → Option (Packet Buffer)
  | .arrive source datagram => if source = a then decode build w datagram else none
  | .ignored source datagram => if source = a then decode build w datagram else none
  | _ => none

def Feed.datagram? : Feed → Option (Packet Buffer)
  | .datagram packet => some packet
  | _ => none

def Event.broadcastTo (i : ℕ) (a : NetAddress) : Event → Option Message
  | .broadcastSend j peer message => if j = i ∧ peer = a then some message else none
  | _ => none

/-- The received buffer that `ListenThread` has in hand, with the peer. -/
def Listening.inHand : Listening → Option (NetAddress × Buffer)
  | .added peer received => some (peer, received)
  | .found peer received => some (peer, received)
  | _ => none

namespace Server

def callbacksOf (σ : Server) (a : NetAddress) : List Callback :=
  σ.callbacks.filter fun callback ↦ callback.peer = a

def dataFor (σ : Server) (a : NetAddress) : List Buffer :=
  σ.callbacks.filterMap (Callback.data a)

def sentTo (σ : Server) (a : NetAddress) : List (List UInt8) :=
  σ.sent.filterMap fun (peer, bytes) ↦ if peer = a then some bytes else none

def pending (σ : Server) (a : NetAddress) : List Buffer :=
  dataOf (σ.connection a).incoming.readyPackets

def Connected (σ : Server) (a : NetAddress) : Prop :=
  a ∈ σ.peers ∧ ∀ received, σ.listening ≠ .added a received

def inHand (build : Build) (σ : Server) (a : NetAddress) : List (Packet Buffer) :=
  match σ.listening.inHand with
  | some (peer, received) =>
      if peer = a then
        match (Buffer.readPacket build).run received with
        | .ok (packet, _) => [packet]
        | .error _ => []
      else []
  | none => []

end Server

open Server

/-- Every datagram decodes, and the addresses of the sources and of the except
sets are among those that are told apart. -/
def Event.Assumed (build : Build) (w : Winsock) (involved : Set NetAddress) : Event → Prop
  | .arrive source datagram => source ∈ involved ∧ ∃ packet, decode build w datagram = some packet
  | .ignored source datagram => source ∈ involved ∧ ∃ packet, decode build w datagram = some packet
  | .broadcast _ except => ∀ e ∈ except, e ∈ involved
  | _ => True

/-- `Received` comes back, packets can be serialised, and no call of `sendto` or
`recvfrom` fails. -/
def Server.Careful (build : Build) (w : Winsock) (σ : Server) : Event → Prop
  | .received peer packet => (σ.connection peer).Harmless build packet
  | .drain peer => ∀ packet c, (σ.connection peer).popReadyOutgoingPacket = some (packet, c) →
      ∃ b, (Buffer.writePacket packet).run {} = .ok ((), b) ∧
        (w.sendto b.payload b.length).isSome = true
  | .recvFailed => False
  | _ => True

structure Server.AssumedStep (build : Build) (w : Winsock) (involved : Set NetAddress) (σ : Server)
    (e : Event) (σ' : Server) : Prop where
  step : Server.Step build w σ e σ'
  assumed : e.Assumed build w involved

structure Server.CarefulStep (build : Build) (w : Winsock) (involved : Set NetAddress) (σ : Server)
    (e : Event) (σ' : Server) : Prop extends Server.AssumedStep build w involved σ e σ' where
  careful : σ.Careful build w e

/-! ## The invariant of the server -/

/-- The peers that `ListenThread` still has to deal with. -/
def Listening.peers : Listening → List NetAddress
  | .receiving => []
  | .added peer _ => [peer]
  | .found peer _ => [peer]
  | .processing rest => rest
  | .stuck peer => [peer]

def Listening.rest : Listening → List NetAddress
  | .processing rest => rest
  | _ => []

namespace Server

variable {build : Build} {w : Winsock} {involved : Set NetAddress} {σ σ' : Server} {e : Event}
  {a peer : NetAddress}

/-- Nothing has failed; all lists of peers are lists of keys; who is no peer has
a fresh connection; and only `ProcessReceivedPackets` leaves packets ready. -/
structure Sound (build : Build) (involved : Set NetAddress) (σ : Server) : Prop where
  running : σ.aborted = false
  socket : σ.socket = {}
  free : ∀ peer, σ.listening ≠ .stuck peer
  listening : σ.listening.peers ⊆ σ.peers
  decodes : ∀ peer received, σ.listening.inHand = some (peer, received) →
    ∃ r, (Buffer.readPacket build).run received = .ok r
  nodup : σ.peers.Nodup
  known : ∀ peer ∈ σ.peers, peer ∈ involved
  connectedPeers : σ.connectedPeers ⊆ σ.peers
  broadcasts : ∀ b ∈ σ.broadcasts, b.rest ⊆ σ.peers ∧ ∀ e ∈ b.except, e ∈ involved
  outside : ∀ peer ∉ σ.peers, σ.connection peer = .fresh peer
  ready : ∀ peer ∉ σ.listening.rest, (σ.connection peer).incoming.readyPackets = []

theorem Sound.not_deaf (h : σ.Sound build involved) : ¬ (σ.aborted = true ∨
    σ.socket.isValid = false ∨ ∃ peer, σ.listening = .stuck peer) := by
  rintro (hrun | hvalid | ⟨peer, hstuck⟩)
  · rw [h.running] at hrun
    cases hrun
  · rw [h.socket] at hvalid
    cases hvalid
  · exact h.free peer hstuck

/-- Different addresses are told apart. -/
def Distinct (involved : Set NetAddress) : Prop :=
  ∀ a ∈ involved, ∀ b ∈ involved, a.eq b = true → a = b

theorem decode_eq_some_iff {datagram : List UInt8} {packet : Packet Buffer} :
    decode build w datagram = some packet ↔ ∃ received socket rest,
      Socket.receiveFrom build w {} datagram = .ok (some received, socket) ∧
        (Buffer.readPacket build).run received = .ok (packet, rest) := by
  unfold decode
  constructor
  · intro h
    split at h
    · rename_i received socket hreceive
      split at h
      · rename_i p rest hread
        obtain rfl := Option.some.inj h
        exact ⟨received, socket, rest, hreceive, hread⟩
      · cases h
    · cases h
  · rintro ⟨received, socket, rest, hreceive, hread⟩
    simp only [hreceive, hread]

theorem receiveFrom_socket {s socket : Socket} {datagram : List UInt8} {received : Buffer}
    (h : s.receiveFrom build w datagram = .ok (some received, socket)) : socket = s := by
  unfold Socket.receiveFrom at h
  split at h
  · cases h
  · rename_i bytes _
    cases hdata : Buffer.ofData build bytes with
    | error f =>
        rw [hdata] at h
        cases h
    | ok b =>
        rw [hdata] at h
        exact (congrArg Prod.snd (Except.ok.inj h)).symm

theorem Sound.receiveFrom (h : σ.Sound build involved) {source : NetAddress}
    {datagram : List UInt8} (hassumed : (Event.arrive source datagram).Assumed build w involved) :
    ∃ received packet rest, σ.socket.receiveFrom build w datagram = .ok (some received, {}) ∧
      (Buffer.readPacket build).run received = .ok (packet, rest) ∧
        decode build w datagram = some packet := by
  obtain ⟨-, packet, hdecode⟩ := hassumed
  obtain ⟨received, socket, rest, hreceive, hread⟩ := decode_eq_some_iff.mp hdecode
  obtain rfl := receiveFrom_socket hreceive
  rw [h.socket]
  exact ⟨received, packet, rest, hreceive, hread, hdecode⟩

theorem Careful.exists_received {packet : Packet Buffer}
    (h : σ.Careful build w (.received peer packet)) :
    ∃ c, (σ.connection peer).received build packet = .ok c :=
  (Connection.exists_received_iff ..).mpr h

theorem Sound.exists_sendPacket (h : σ.Sound build involved)
    (hcareful : σ.Careful build w (.drain peer)) {packet : Packet Buffer} {c : Connection Buffer}
    (hpop : (σ.connection peer).popReadyOutgoingPacket = some (packet, c)) :
    ∃ datagram, sendPacket w σ.socket packet = .ok (some datagram, {}) := by
  obtain ⟨b, hwrite, hsendto⟩ := hcareful packet c hpop
  rw [h.socket]
  exact GioNet.exists_sendPacket hwrite hsendto

/-- Looking up a source finds the peer with that address or makes it one. -/
theorem Sound.lookUp_eq (h : σ.Sound build involved) (hdistinct : Distinct involved)
    (ha : a ∈ involved) (received : Buffer) :
    σ.lookUp a received = if a ∈ σ.peers then { σ with listening := .found a received }
      else { σ with peers := σ.peers ++ [a], listening := .added a received } := by
  unfold lookUp tryGetPeer addPeer
  by_cases hmem : a ∈ σ.peers
  · obtain ⟨b, hb⟩ : ∃ b, σ.peers.find? (fun peer ↦ peer.eq a) = some b := by
      apply Option.isSome_iff_exists.mp
      exact List.find?_isSome.mpr ⟨a, hmem, NetAddress.eq_self a⟩
    have hba : b.eq a = true := by simpa using List.find?_some hb
    have heq : b = a := hdistinct b (h.known b (List.mem_of_find?_eq_some hb)) a ha hba
    simp only [hb, heq, hmem, if_true]
  · have hnone : ∀ b ∈ σ.peers, b.eq a ≠ true := by
      intro b hb hba
      exact hmem (hdistinct b (h.known b hb) a ha hba ▸ hb)
    have hfind : σ.peers.find? (fun peer ↦ peer.eq a) = none :=
      List.find?_eq_none.mpr hnone
    have hany : (σ.peers.any fun peer ↦ peer.eq a) = false :=
      List.any_eq_false.mpr hnone
    have hfresh : Function.update σ.connection a (.fresh a) = σ.connection := by
      rw [← h.outside a hmem, Function.update_eq_self]
    simp [hfind, hany, hmem, hfresh]

@[simp] theorem setConnection_connection (σ : Server) (peer : NetAddress) (c : Connection Buffer)
    (b : NetAddress) :
    (σ.setConnection peer c).connection b = if b = peer then c else σ.connection b :=
  Function.update_apply σ.connection peer c b

@[simp] theorem schedule_connection (σ : Server) (peer : NetAddress) (message : Message)
    (b : NetAddress) : (σ.schedule peer message).connection b =
      if b = peer then (σ.connection peer).schedule message.packet else σ.connection b := by
  simp [schedule]

@[simp] theorem setConnection_peers (σ : Server) (peer : NetAddress) (c : Connection Buffer) :
    (σ.setConnection peer c).peers = σ.peers := rfl

@[simp] theorem schedule_peers (σ : Server) (peer : NetAddress) (message : Message) :
    (σ.schedule peer message).peers = σ.peers := rfl

theorem Sound.any_except (h : σ.Sound build involved) (hdistinct : Distinct involved)
    {b : Broadcasting} (hb : b ∈ σ.broadcasts) (hpeer : peer ∈ b.rest) :
    b.except.any (fun e ↦ e.eq peer) = true ↔ peer ∈ b.except := by
  obtain ⟨hrest, hexcept⟩ := h.broadcasts b hb
  rw [List.any_eq_true]
  constructor
  · rintro ⟨e, he, heq⟩
    exact hdistinct e (hexcept e he) peer (h.known peer (hrest hpeer)) heq ▸ he
  · intro hmem
    exact ⟨peer, hmem, NetAddress.eq_self peer⟩

/-- The steps that are left when nothing fails, with what they do. -/
inductive Proceeds (build : Build) (w : Winsock) (involved : Set NetAddress) (σ : Server) :
    Event → Server → Prop
  | arriveKnown (source : NetAddress) (datagram : List UInt8) (received rest : Buffer)
      (packet : Packet Buffer) (hlistening : σ.listening = .receiving) (hsource : source ∈ σ.peers)
      (hread : (Buffer.readPacket build).run received = .ok (packet, rest))
      (hdecode : decode build w datagram = some packet) :
      Proceeds build w involved σ (.arrive source datagram)
        { σ with listening := .found source received }
  | arriveNew (source : NetAddress) (datagram : List UInt8) (received rest : Buffer)
      (packet : Packet Buffer) (hlistening : σ.listening = .receiving) (hsource : source ∉ σ.peers)
      (hinvolved : source ∈ involved)
      (hread : (Buffer.readPacket build).run received = .ok (packet, rest))
      (hdecode : decode build w datagram = some packet) :
      Proceeds build w involved σ (.arrive source datagram)
        { σ with peers := σ.peers ++ [source], listening := .added source received }
  | peerConnected (peer : NetAddress) (received : Buffer)
      (hlistening : σ.listening = .added peer received) :
      Proceeds build w involved σ .peerConnected { σ with
        listening := .found peer received
        callbacks := σ.callbacks ++ [.peerConnected peer] }
  | received (peer : NetAddress) (received rest : Buffer) (packet : Packet Buffer)
      (c : Connection Buffer) (order : List NetAddress)
      (hlistening : σ.listening = .found peer received)
      (hread : (Buffer.readPacket build).run received = .ok (packet, rest))
      (hreceived : (σ.connection peer).received build packet = .ok c)
      (horder : order.Perm σ.peers) :
      Proceeds build w involved σ (.received peer packet)
        { σ.setConnection peer c with listening := .processing order }
  | deliver (peer : NetAddress) (rest : List NetAddress) (packet : Packet Buffer)
      (c : Connection Buffer) (hlistening : σ.listening = .processing (peer :: rest))
      (hpop : (σ.connection peer).popReadyIncomingPacket = some (packet, c)) :
      Proceeds build w involved σ .deliver
        { σ.setConnection peer c with callbacks := σ.callbacks ++ callbacksFor peer packet }
  | nextReceived (peer : NetAddress) (rest : List NetAddress)
      (hlistening : σ.listening = .processing (peer :: rest))
      (hpop : (σ.connection peer).popReadyIncomingPacket = none) :
      Proceeds build w involved σ .next { σ with listening := .processing rest }
  | endReceived (hlistening : σ.listening = .processing []) :
      Proceeds build w involved σ .next { σ with listening := .receiving }
  | send (peer : NetAddress) (message : Message) (hmem : peer ∈ σ.peers) :
      Proceeds build w involved σ (.send peer message) (σ.schedule peer message)
  | broadcast (message : Message) (except order : List NetAddress)
      (hexcept : ∀ e ∈ except, e ∈ involved) (horder : order.Perm σ.peers) :
      Proceeds build w involved σ (.broadcast message except)
        { σ with broadcasts := σ.broadcasts ++ [⟨message, except, order, order⟩] }
  | broadcastSkip (i : ℕ) (b : Broadcasting) (peer : NetAddress) (rest : List NetAddress)
      (hcall : σ.broadcasts[i]? = some b) (hrest : b.rest = peer :: rest)
      (hexcept : peer ∈ b.except) :
      Proceeds build w involved σ .next
        { σ with broadcasts := σ.broadcasts.set i { b with rest := rest } }
  | broadcastSend (i : ℕ) (b : Broadcasting) (peer : NetAddress) (rest : List NetAddress)
      (hcall : σ.broadcasts[i]? = some b) (hrest : b.rest = peer :: rest)
      (hexcept : peer ∉ b.except) :
      Proceeds build w involved σ (.broadcastSend i peer b.message)
        { σ.schedule peer b.message with
          broadcasts := σ.broadcasts.set i { b with rest := rest } }
  | getPeers (order : List NetAddress) (horder : order.Perm σ.peers) :
      Proceeds build w involved σ .next { σ with connectedPeers := order }
  | drain (peer : NetAddress) (rest : List NetAddress) (packet : Packet Buffer)
      (c : Connection Buffer) (datagram : List UInt8) (hpeers : σ.connectedPeers = peer :: rest)
      (hpop : (σ.connection peer).popReadyOutgoingPacket = some (packet, c))
      (hsend : sendPacket w {} packet = .ok (some datagram, {})) :
      Proceeds build w involved σ (.drain peer)
        { σ.setConnection peer c with sent := σ.sent ++ [(peer, datagram)] }
  | nextPeer (peer : NetAddress) (rest : List NetAddress)
      (hpeers : σ.connectedPeers = peer :: rest) :
      Proceeds build w involved σ .next { σ with connectedPeers := rest }

/-- Nothing fails in a careful step. -/
theorem Sound.proceeds (h : σ.Sound build involved) (hdistinct : Distinct involved)
    (hstep : CarefulStep build w involved σ e σ') : Proceeds build w involved σ e σ' := by
  obtain ⟨⟨hstep, hassumed⟩, hcareful⟩ := hstep
  cases hstep with
  | arrive source datagram received socket hrun hlistening hvalid hreceive =>
      obtain ⟨received', packet, rest, hreceive', hread, hdecode⟩ := h.receiveFrom hassumed
      obtain rfl := receiveFrom_socket hreceive
      obtain ⟨rfl, -⟩ : received = received' ∧ _ := by
        simpa using hreceive.symm.trans hreceive'
      change Proceeds build w involved σ _ (σ.lookUp source received)
      rw [h.lookUp_eq hdistinct hassumed.1]
      split
      · exact .arriveKnown source datagram received rest packet hlistening ‹_› hread hdecode
      · have hnew : source ∉ σ.peers := ‹_›
        exact .arriveNew source datagram received rest packet hlistening hnew hassumed.1 hread
          hdecode
  | arriveFailed source datagram socket hrun hlistening hvalid hreceive =>
      obtain ⟨received, packet, rest, hreceive', -, -⟩ := h.receiveFrom hassumed
      simpa using hreceive.symm.trans hreceive'
  | arriveFault source datagram f hrun hlistening hvalid hreceive =>
      obtain ⟨received, packet, rest, hreceive', -, -⟩ := h.receiveFrom hassumed
      cases hreceive.symm.trans hreceive'
  | ignored source datagram hdeaf => exact absurd hdeaf h.not_deaf
  | recvFailed => exact hcareful.elim
  | peerConnected peer received hrun hlistening => exact .peerConnected peer received hlistening
  | received peer received packet rest c order hrun hlistening hread hreceived horder =>
      exact .received peer received rest packet c order hlistening hread hreceived horder
  | receivedFault peer received packet rest f hrun hlistening hread hreceived =>
      obtain ⟨c, hc⟩ := hcareful.exists_received
      cases hc.symm.trans hreceived
  | undecodable peer received f hrun hlistening hread =>
      obtain ⟨r, hr⟩ := h.decodes peer received (by rw [hlistening, Listening.inHand])
      cases hr.symm.trans hread
  | deliver peer rest packet c hrun hlistening hpop =>
      exact .deliver peer rest packet c hlistening hpop
  | nextReceived peer rest hrun hlistening hpop => exact .nextReceived peer rest hlistening hpop
  | endReceived hrun hlistening => exact .endReceived hlistening
  | send peer message hrun hmem => exact .send peer message hmem
  | broadcast message except order hrun horder =>
      exact .broadcast message except order hassumed horder
  | broadcastSkip i b peer rest hrun hcall hrest hexcept =>
      have hiff := h.any_except hdistinct (List.mem_of_getElem? hcall) (hrest ▸ List.mem_cons_self)
      exact .broadcastSkip i b peer rest hcall hrest (hiff.mp hexcept)
  | broadcastSend i b peer rest hrun hcall hrest hexcept =>
      have hiff := h.any_except hdistinct (List.mem_of_getElem? hcall) (hrest ▸ List.mem_cons_self)
      refine .broadcastSend i b peer rest hcall hrest fun hmem ↦ ?_
      rw [hiff.mpr hmem] at hexcept
      cases hexcept
  | getPeers order hrun hvalid hempty horder => exact .getPeers order horder
  | drain peer rest packet c datagram socket hrun hpeers hlock hpop hsend =>
      obtain ⟨datagram', hsend'⟩ := h.exists_sendPacket hcareful hpop
      obtain ⟨rfl, hsocket⟩ := Prod.mk.inj (Except.ok.inj (hsend.symm.trans hsend'))
      obtain rfl : socket = σ.socket := hsocket.trans h.socket.symm
      rw [h.socket] at hsend'
      exact .drain peer rest packet c datagram' hpeers hpop hsend'
  | drainFault peer rest packet c f hrun hpeers hlock hpop hsend =>
      obtain ⟨datagram, hsend'⟩ := h.exists_sendPacket hcareful hpop
      cases hsend'.symm.trans hsend
  | nextPeer peer rest hrun hpeers hpop => exact .nextPeer peer rest hpeers

/-! ## The invariant is kept -/

/-- A connection of a peer may change as long as no packets become ready for delivery. -/
theorem Sound.setConnection (h : σ.Sound build involved) (hpeer : peer ∈ σ.peers)
    {c : Connection Buffer}
    (hready : c.incoming.readyPackets = (σ.connection peer).incoming.readyPackets) :
    (σ.setConnection peer c).Sound build involved := by
  refine { h with outside := ?_, ready := ?_ }
  · intro b hb
    have hne : b ≠ peer := fun heq ↦ hb (heq ▸ hpeer)
    rw [setConnection_connection, if_neg hne]
    exact h.outside b hb
  · intro b hb
    rw [setConnection_connection]
    split
    · rename_i heq
      rw [hready, ← heq]
      exact h.ready b hb
    · exact h.ready b hb

theorem Sound.deliver (h : σ.Sound build involved) {rest : List NetAddress}
    (hlistening : σ.listening = .processing (peer :: rest)) (c : Connection Buffer)
    (callbacks : List Callback) :
    Sound build involved { σ.setConnection peer c with callbacks := callbacks } := by
  have hsub : peer :: rest ⊆ σ.peers := by simpa [hlistening, Listening.peers] using h.listening
  refine { h with outside := ?_, ready := ?_ }
  · intro b hb
    have hne : b ≠ peer := by
      rintro rfl
      exact hb (hsub List.mem_cons_self)
    exact (setConnection_connection ..).trans ((if_neg hne).trans (h.outside b hb))
  · intro b hb
    change b ∉ σ.listening.rest at hb
    have hne : b ≠ peer := by
      rintro rfl
      simp [hlistening, Listening.rest] at hb
    have hsame : (σ.setConnection peer c).connection b = σ.connection b :=
      (setConnection_connection ..).trans (if_neg hne)
    exact (congrArg (fun c ↦ c.incoming.readyPackets) hsame).trans (h.ready b hb)

theorem Sound.setBroadcast (h : σ.Sound build involved) {i : ℕ} {b : Broadcasting}
    {rest : List NetAddress} (hcall : σ.broadcasts[i]? = some b) (hrest : b.rest = peer :: rest) :
    Sound build involved { σ with broadcasts := σ.broadcasts.set i { b with rest := rest } } := by
  have hb := h.broadcasts b (List.mem_of_getElem? hcall)
  refine { h with broadcasts := ?_ }
  intro b' hb'
  rcases List.mem_or_eq_of_mem_set hb' with hb' | rfl
  · exact h.broadcasts b' hb'
  · rw [hrest] at hb
    exact ⟨(List.cons_subset.mp hb.1).2, hb.2⟩

theorem Sound.addPeer (h : σ.Sound build involved) (hlistening : σ.listening = .receiving)
    (hpeer : peer ∉ σ.peers) (hinvolved : peer ∈ involved) {received : Buffer}
    (hread : ∃ r, (Buffer.readPacket build).run received = .ok r) :
    Sound build involved
      { σ with peers := σ.peers ++ [peer], listening := .added peer received } := by
  have hsub : σ.peers ⊆ σ.peers ++ [peer] := List.subset_append_left _ _
  refine {
    running := h.running
    socket := h.socket
    free := by simp
    listening := by simp [Listening.peers]
    decodes := ?_
    nodup := h.nodup.append (List.nodup_singleton peer) (by simpa using hpeer)
    known := ?_
    connectedPeers := List.Subset.trans h.connectedPeers hsub
    broadcasts := fun b hb ↦
      ⟨List.Subset.trans (h.broadcasts b hb).1 hsub, (h.broadcasts b hb).2⟩
    outside := fun b hb ↦ h.outside b fun hold ↦ hb (hsub hold)
    ready := ?_ }
  · intro b received' hb
    obtain ⟨rfl, rfl⟩ := Prod.mk.inj (Option.some.inj hb)
    exact hread
  · intro b hb
    rcases List.mem_append.mp hb with hb | hb
    · exact h.known b hb
    · exact List.mem_singleton.mp hb ▸ hinvolved
  · simpa [hlistening, Listening.rest] using h.ready

/-- `ProcessReceivedPackets` goes through all peers. -/
theorem Sound.received (h : σ.Sound build involved) {received : Buffer}
    (hlistening : σ.listening = .found peer received) (c : Connection Buffer)
    {order : List NetAddress} (horder : order.Perm σ.peers) :
    Sound build involved { σ.setConnection peer c with listening := .processing order } := by
  have hpeer : peer ∈ σ.peers := by simpa [hlistening, Listening.peers] using h.listening
  refine { h with free := by simp, listening := ?_, decodes := ?_, outside := ?_, ready := ?_ }
  · exact horder.subset
  · simp [Listening.inHand]
  · intro b hb
    have hne : b ≠ peer := fun heq ↦ hb (heq ▸ hpeer)
    exact (setConnection_connection ..).trans ((if_neg hne).trans (h.outside b hb))
  · intro b hb
    change b ∉ order at hb
    rw [horder.mem_iff] at hb
    have hne : b ≠ peer := fun heq ↦ hb (heq ▸ hpeer)
    have hfresh : (σ.setConnection peer c).connection b = .fresh b :=
      (setConnection_connection ..).trans ((if_neg hne).trans (h.outside b hb))
    exact congrArg (fun c ↦ c.incoming.readyPackets) hfresh

theorem Sound.step (h : σ.Sound build involved) (hstep : Proceeds build w involved σ e σ') :
    σ'.Sound build involved := by
  cases hstep with
  | arriveKnown source datagram received rest packet hlistening hsource hread hdecode =>
      refine { h with free := by simp, listening := ?_, decodes := ?_, ready := ?_ }
      · simpa [Listening.peers] using hsource
      · intro peer b hb
        obtain ⟨rfl, rfl⟩ := Prod.mk.inj (Option.some.inj hb)
        exact ⟨_, hread⟩
      · simpa [hlistening, Listening.rest] using h.ready
  | arriveNew source datagram received rest packet hlistening hsource hinvolved hread hdecode =>
      exact h.addPeer hlistening hsource hinvolved ⟨_, hread⟩
  | peerConnected peer received hlistening =>
      refine { h with free := by simp, listening := ?_, decodes := ?_, ready := ?_ }
      · simpa [hlistening, Listening.peers] using h.listening
      · simpa [hlistening, Listening.inHand] using h.decodes
      · simpa [hlistening, Listening.rest] using h.ready
  | received peer received rest packet c order hlistening hread hreceived horder =>
      exact h.received hlistening c horder
  | deliver peer rest packet c hlistening hpop => exact h.deliver hlistening c _
  | nextReceived peer rest hlistening hpop =>
      have hsub : peer :: rest ⊆ σ.peers := by simpa [hlistening, Listening.peers] using h.listening
      refine { h with free := by simp, listening := ?_, decodes := ?_, ready := ?_ }
      · exact (List.cons_subset.mp hsub).2
      · simp [Listening.inHand]
      · intro b hb
        by_cases hbp : b = peer
        · exact hbp ▸ Connection.popReadyIncomingPacket_eq_none_iff.mp hpop
        · apply h.ready
          simpa [hlistening, Listening.rest, hbp] using hb
  | endReceived hlistening =>
      refine { h with free := by simp, listening := ?_, decodes := ?_, ready := ?_ }
      · exact List.nil_subset _
      · simp [Listening.inHand]
      · simpa [hlistening, Listening.rest] using h.ready
  | send peer message hmem => exact h.setConnection hmem (by simp)
  | broadcast message except order hexcept horder =>
      refine { h with broadcasts := ?_ }
      intro b hb
      rcases List.mem_append.mp hb with hb | hb
      · exact h.broadcasts b hb
      · obtain rfl := List.mem_singleton.mp hb
        exact ⟨horder.subset, hexcept⟩
  | broadcastSkip i b peer rest hcall hrest hexcept => exact h.setBroadcast hcall hrest
  | broadcastSend i b peer rest hcall hrest hexcept =>
      have hsub := (h.broadcasts b (List.mem_of_getElem? hcall)).1
      have hpeer : peer ∈ σ.peers := hsub (hrest ▸ List.mem_cons_self)
      exact (h.setConnection hpeer (by simp)).setBroadcast hcall hrest
  | getPeers order horder => exact { h with connectedPeers := horder.subset }
  | drain peer rest packet c datagram hpeers hpop hsend =>
      have hpeer : peer ∈ σ.peers := h.connectedPeers (hpeers ▸ List.mem_cons_self)
      obtain ⟨_, _, _, hc, _⟩ := Connection.popReadyOutgoingPacket_eq_some_iff.mp hpop
      have hset := h.setConnection hpeer (c := c) (by rw [hc])
      exact { hset with }
  | nextPeer peer rest hpeers =>
      refine { h with connectedPeers := ?_ }
      exact (List.cons_subset.mp (hpeers ▸ h.connectedPeers)).2

/-! ## The simulation -/

structure Follows (σ : Server) (a : NetAddress) (s : Lone) : Prop where
  connection : s.connection = (σ.connection a).drained
  sent : σ.sentTo a = s.sent
  delivered : σ.dataFor a ++ σ.pending a = s.delivered

theorem Follows.frame {s : Lone} (h : σ.Follows a s)
    (hconnection : σ'.connection a = σ.connection a) (hsent : σ'.sentTo a = σ.sentTo a)
    (hdata : σ'.dataFor a = σ.dataFor a) : σ'.Follows a s := by
  refine ⟨?_, ?_, ?_⟩
  · rw [hconnection, h.connection]
  · rw [hsent, h.sent]
  · rw [pending, hconnection, hdata]
    exact h.delivered

theorem Follows.schedule (build : Build) (w : Winsock) {s : Lone} (h : σ.Follows a s)
    (peer : NetAddress) (message : Message) :
    ∃ s', (if peer = a then [Feed.schedule message] else []).foldlM (Lone.feed build w) s =
      some s' ∧ (σ.schedule peer message).Follows a s' := by
  by_cases hpeer : peer = a
  · subst hpeer
    refine ⟨{ s with connection := s.connection.schedule message.packet }, by simp [Lone.feed],
      ?_, h.sent, ?_⟩
    · simp [h.connection]
    · rw [pending, schedule_connection, if_pos rfl, Connection.schedule_incoming]
      exact h.delivered
  · refine ⟨s, by simp [hpeer], h.frame ?_ rfl rfl⟩
    rw [schedule_connection, if_neg (Ne.symm hpeer)]

theorem Follows.received {s : Lone} (h : σ.Follows a s)
    (hready : (σ.connection peer).incoming.readyPackets = []) {packet : Packet Buffer}
    {c : Connection Buffer} (hreceived : (σ.connection peer).received build packet = .ok c) :
    ∃ s', (if peer = a then [Feed.datagram packet] else []).foldlM (Lone.feed build w) s =
      some s' ∧ (σ.setConnection peer c).Follows a s' := by
  by_cases hpeer : peer = a
  · subst hpeer
    have hconnection : s.connection = σ.connection peer := by
      rw [h.connection, Connection.drained_of_ready hready]
    refine ⟨{ s with
      connection := c.drained
      delivered := s.delivered ++ dataOf c.incoming.readyPackets }, ?_, ?_, h.sent, ?_⟩
    · simp [Lone.feed, Lone.receive, hconnection, hreceived]
    · simp
    · have hdelivered := h.delivered
      rw [pending, hready] at hdelivered
      rw [← hdelivered, pending, setConnection_connection, if_pos rfl]
      simp [dataFor, setConnection, dataOf]
  · refine ⟨s, by simp [hpeer], h.frame ?_ rfl rfl⟩
    rw [setConnection_connection, if_neg (Ne.symm hpeer)]

theorem filterMap_callbacksFor (peer : NetAddress) (packet : Packet Buffer) (a : NetAddress) :
    (callbacksFor peer packet).filterMap (Callback.data a) =
      if peer = a then dataOf [packet] else [] := by
  unfold callbacksFor dataOf
  by_cases hdata : packet.getType = .data <;> by_cases hpeer : peer = a <;>
    simp [hdata, hpeer]

theorem Follows.deliver {s : Lone} (h : σ.Follows a s) {packet : Packet Buffer}
    {c : Connection Buffer} (hpop : (σ.connection peer).popReadyIncomingPacket = some (packet, c)) :
    Follows { σ.setConnection peer c with
      callbacks := σ.callbacks ++ callbacksFor peer packet } a s := by
  obtain ⟨rest, hready, hc⟩ := Connection.popReadyIncomingPacket_eq_some_iff.mp hpop
  have hconnection := setConnection_connection σ peer c a
  by_cases hpeer : peer = a
  · subst hpeer
    rw [if_pos rfl] at hconnection
    refine ⟨?_, h.sent, ?_⟩
    · rw [h.connection]
      exact (congrArg Connection.drained (hconnection.trans hc)).symm
    · rw [← h.delivered]
      change (σ.callbacks ++ callbacksFor peer packet).filterMap _ ++
        dataOf ((σ.setConnection peer c).connection peer).incoming.readyPackets = _
      rw [hconnection, hc, List.filterMap_append, filterMap_callbacksFor, if_pos rfl,
        List.append_assoc, pending, hready]
      simp [dataOf, dataFor, ← List.filterMap_append]
  · rw [if_neg (Ne.symm hpeer)] at hconnection
    refine Follows.frame h ?_ rfl ?_
    · exact hconnection
    · change (σ.callbacks ++ callbacksFor peer packet).filterMap _ = _
      rw [List.filterMap_append, filterMap_callbacksFor, if_neg hpeer, List.append_nil]
      rfl

theorem Follows.drain {s : Lone} (h : σ.Follows a s) {packet : Packet Buffer}
    {c : Connection Buffer} {datagram : List UInt8}
    (hpop : (σ.connection peer).popReadyOutgoingPacket = some (packet, c))
    (hsend : sendPacket w {} packet = .ok (some datagram, {})) :
    ∃ s', (if peer = a then [Feed.drain] else []).foldlM (Lone.feed build w) s = some s' ∧
      Follows { σ.setConnection peer c with sent := σ.sent ++ [(peer, datagram)] } a s' := by
  have hconnection := setConnection_connection σ peer c a
  by_cases hpeer : peer = a
  · subst hpeer
    rw [if_pos rfl] at hconnection
    have hpop' := Connection.drained_popReadyOutgoingPacket hpop
    rw [← h.connection] at hpop'
    refine ⟨{ s with connection := c.drained, sent := s.sent ++ [datagram] }, ?_, ?_, ?_, ?_⟩
    · simp [Lone.feed, Lone.drain_eq hpop' hsend]
    · exact (congrArg Connection.drained hconnection).symm
    · rw [← h.sent]
      simp [sentTo]
    · obtain ⟨_, _, _, hc, _⟩ := Connection.popReadyOutgoingPacket_eq_some_iff.mp hpop
      rw [← h.delivered]
      change _ ++ dataOf ((σ.setConnection peer c).connection peer).incoming.readyPackets = _
      rw [hconnection, hc]
      rfl
  · rw [if_neg (Ne.symm hpeer)] at hconnection
    refine ⟨s, by simp [hpeer], Follows.frame h ?_ ?_ rfl⟩
    · exact hconnection
    · simp [sentTo, hpeer]

/-- Every step feeds the lone connection with at most one thing. -/
theorem Follows.step {s : Lone} (h : σ.Follows a s) (hsound : σ.Sound build involved)
    (hstep : Proceeds build w involved σ e σ') :
    ∃ s', (e.feed build w a).foldlM (Lone.feed build w) s = some s' ∧ σ'.Follows a s' := by
  cases hstep with
  | peerConnected peer received hlistening =>
      refine ⟨s, rfl, h.frame rfl rfl ?_⟩
      simp [dataFor]
  | received peer received rest packet c order hlistening hread hreceived horder =>
      have hready := hsound.ready peer (by simp [hlistening, Listening.rest])
      obtain ⟨s', hfeed, hs'⟩ := h.received (w := w) hready hreceived
      exact ⟨s', hfeed, hs'.frame rfl rfl rfl⟩
  | deliver peer rest packet c hlistening hpop => exact ⟨s, rfl, h.deliver hpop⟩
  | send peer message hmem => exact h.schedule build w peer message
  | broadcastSend i b peer rest hcall hrest hexcept =>
      obtain ⟨s', hfeed, hs'⟩ := h.schedule build w peer b.message
      exact ⟨s', hfeed, hs'.frame rfl rfl rfl⟩
  | drain peer rest packet c datagram hpeers hpop hsend => exact h.drain hpop hsend
  | arriveKnown | arriveNew | nextReceived | endReceived | broadcast | broadcastSkip | getPeers
    | nextPeer => exact ⟨s, rfl, h.frame rfl rfl rfl⟩

end Server

end GioNet
