import GioNet.Transmission
import GioNet.Library.Run

/-!
# The server

`ListenThread`, `SendThread` and the callers of `Send` and `Broadcast` share the
map of peers and the connections. Each step below is one access to the map or one
call of a member function of a connection, with the `SendTo` of a packet that
`SendThread` pops, and the steps of a run may interleave in any way. A peer is named
by its key in the map; nothing removes a peer before `Stop`.
-/

namespace GioNet

inductive Callback where
  | peerConnected (peer : NetAddress)
  | dataReceived (peer : NetAddress) (data : Buffer)
  deriving DecidableEq

inductive Listening where
  /-- At the test of the loop or in the call of `ReceiveFrom`. -/
  | receiving
  /-- In `AddPeer`, with the new peer in the map and its callback to come. -/
  | added (peer : NetAddress) (received : Buffer)
  /-- At the decoding of what the peer has sent. -/
  | found (peer : NetAddress) (received : Buffer)
  /-- In `ProcessReceivedPackets`, with these peers still to come. -/
  | processing (rest : List NetAddress)
  /-- In a call of `Received` that never ends and holds the peer's lock. -/
  | stuck (peer : NetAddress)

/-- A call of `Broadcast`, with the peers of its copy that are still to come. -/
structure Broadcasting where
  message : Message
  except : List NetAddress
  peersCopy : List NetAddress
  rest : List NetAddress

/-- `callbacks` and `sent` are history and are not read by any step. -/
structure Server where
  socket : Socket := {}
  peers : List NetAddress := []
  connection : NetAddress → Connection Buffer := .fresh
  listening : Listening := .receiving
  connectedPeers : List NetAddress := []
  broadcasts : List Broadcasting := []
  /-- The process has been terminated. -/
  aborted : Bool := false
  callbacks : List Callback := []
  sent : List (NetAddress × List UInt8) := []

/-- `Buffer b{}; b.Write(packet); SendTo(b, address)`, with the datagram that leaves.
`sendto` fails on the handle of a closed socket. -/
def sendPacket (w : Winsock) (s : Socket) (packet : Packet Buffer) :
    Except Fault (Option (List UInt8) × Socket) := do
  let (_, b) ← (Buffer.writePacket packet).run {}
  return if s.isValid then s.sendTo w b else (none, s)

theorem exists_sendPacket {w : Winsock} {packet : Packet Buffer} {b : Buffer}
    (hwrite : (Buffer.writePacket packet).run {} = .ok ((), b))
    (hsendto : (w.sendto b.payload b.length).isSome = true) :
    ∃ datagram, sendPacket w {} packet = .ok (some datagram, {}) := by
  obtain ⟨datagram, hdatagram⟩ := Option.isSome_iff_exists.mp hsendto
  refine ⟨datagram, ?_⟩
  simp only [sendPacket, hwrite, Fault.ok_bind, Socket.sendTo, hdatagram]
  rfl

/-- What `ListenThread` makes of a datagram on an open socket. -/
def decode (build : Build) (w : Winsock) (datagram : List UInt8) : Option (Packet Buffer) :=
  match Socket.receiveFrom build w {} datagram with
  | .ok (some received, _) =>
      match (Buffer.readPacket build).run received with
      | .ok (packet, _) => some packet
      | .error _ => none
  | _ => none

namespace Server

def tryGetPeer (σ : Server) (address : NetAddress) : Option NetAddress :=
  σ.peers.find? fun peer ↦ peer.eq address

/-- `AddPeer` up to the callback. -/
def addPeer (σ : Server) (address : NetAddress) : Option Server :=
  if σ.peers.any fun peer ↦ peer.eq address then none
  else some { σ with
    peers := σ.peers ++ [address]
    connection := Function.update σ.connection address (.fresh address) }

def setConnection (σ : Server) (peer : NetAddress) (c : Connection Buffer) : Server :=
  { σ with connection := Function.update σ.connection peer c }

/-- `ListenThread` after `ReceiveFrom`, up to the connected callback or the decoding. -/
def lookUp (σ : Server) (source : NetAddress) (received : Buffer) : Server :=
  match σ.tryGetPeer source with
  | some peer => { σ with listening := .found peer received }
  | none =>
      match σ.addPeer source with
      | some σ => { σ with listening := .added source received }
      | none => σ

def schedule (σ : Server) (peer : NetAddress) (message : Message) : Server :=
  σ.setConnection peer ((σ.connection peer).schedule message.packet)

def callbacksFor (peer : NetAddress) (packet : Packet Buffer) : List Callback :=
  if packet.getType = .data then [.dataReceived peer packet.payload] else []

/-- A call of `Received` does not come back: the process is terminated, or the
calling thread is stuck. -/
def fault (σ : Server) (peer : NetAddress) (f : Fault) : Server :=
  if f = .endlessLoop then { σ with listening := .stuck peer } else { σ with aborted := true }

end Server

inductive Event where
  | arrive (source : NetAddress) (datagram : List UInt8)
  /-- A datagram that comes when `ListenThread` will not receive any more. -/
  | ignored (source : NetAddress) (datagram : List UInt8)
  | recvFailed
  | peerConnected
  | received (peer : NetAddress) (packet : Packet Buffer)
  | undecodable
  | deliver
  | send (peer : NetAddress) (message : Message)
  | broadcast (message : Message) (except : List NetAddress)
  | broadcastSend (i : ℕ) (peer : NetAddress) (message : Message)
  | drain (peer : NetAddress)
  /-- A loop goes on to its next peer, or begins or ends. -/
  | next

namespace Server

/-- Nothing but the network moves once the process is terminated. -/
inductive Step (build : Build) (w : Winsock) (σ : Server) : Event → Server → Prop
  -- the network and `ListenThread`
  | arrive (source : NetAddress) (datagram : List UInt8) (received : Buffer) (socket : Socket)
      (hrun : σ.aborted = false) (hlistening : σ.listening = .receiving)
      (hvalid : σ.socket.isValid = true)
      (hreceive : σ.socket.receiveFrom build w datagram = .ok (some received, socket)) :
      Step build w σ (.arrive source datagram) ({ σ with socket := socket }.lookUp source received)
  | arriveFailed (source : NetAddress) (datagram : List UInt8) (socket : Socket)
      (hrun : σ.aborted = false) (hlistening : σ.listening = .receiving)
      (hvalid : σ.socket.isValid = true)
      (hreceive : σ.socket.receiveFrom build w datagram = .ok (none, socket)) :
      Step build w σ (.arrive source datagram) { σ with socket := socket }
  | arriveFault (source : NetAddress) (datagram : List UInt8) (f : Fault)
      (hrun : σ.aborted = false) (hlistening : σ.listening = .receiving)
      (hvalid : σ.socket.isValid = true)
      (hreceive : σ.socket.receiveFrom build w datagram = .error f) :
      Step build w σ (.arrive source datagram) { σ with aborted := true }
  | ignored (source : NetAddress) (datagram : List UInt8)
      (hdeaf : σ.aborted = true ∨ σ.socket.isValid = false ∨
        ∃ peer, σ.listening = .stuck peer) :
      Step build w σ (.ignored source datagram) σ
  | recvFailed (hrun : σ.aborted = false) (hlistening : σ.listening = .receiving)
      (hvalid : σ.socket.isValid = true) :
      Step build w σ .recvFailed { σ with socket := σ.socket.close }
  | peerConnected (peer : NetAddress) (received : Buffer) (hrun : σ.aborted = false)
      (hlistening : σ.listening = .added peer received) :
      Step build w σ .peerConnected { σ with
        listening := .found peer received
        callbacks := σ.callbacks ++ [.peerConnected peer] }
  | received (peer : NetAddress) (received : Buffer) (packet : Packet Buffer) (rest : Buffer)
      (c : Connection Buffer) (order : List NetAddress) (hrun : σ.aborted = false)
      (hlistening : σ.listening = .found peer received)
      (hread : (Buffer.readPacket build).run received = .ok (packet, rest))
      (hreceived : (σ.connection peer).received build packet = .ok c)
      (horder : order.Perm σ.peers) :
      Step build w σ (.received peer packet)
        { σ.setConnection peer c with listening := .processing order }
  | receivedFault (peer : NetAddress) (received : Buffer) (packet : Packet Buffer) (rest : Buffer)
      (f : Fault) (hrun : σ.aborted = false) (hlistening : σ.listening = .found peer received)
      (hread : (Buffer.readPacket build).run received = .ok (packet, rest))
      (hreceived : (σ.connection peer).received build packet = .error f) :
      Step build w σ (.received peer packet) (σ.fault peer f)
  | undecodable (peer : NetAddress) (received : Buffer) (f : Fault) (hrun : σ.aborted = false)
      (hlistening : σ.listening = .found peer received)
      (hread : (Buffer.readPacket build).run received = .error f) :
      Step build w σ .undecodable { σ with aborted := true }
  | deliver (peer : NetAddress) (rest : List NetAddress) (packet : Packet Buffer)
      (c : Connection Buffer) (hrun : σ.aborted = false)
      (hlistening : σ.listening = .processing (peer :: rest))
      (hpop : (σ.connection peer).popReadyIncomingPacket = some (packet, c)) :
      Step build w σ .deliver
        { σ.setConnection peer c with callbacks := σ.callbacks ++ callbacksFor peer packet }
  | nextReceived (peer : NetAddress) (rest : List NetAddress) (hrun : σ.aborted = false)
      (hlistening : σ.listening = .processing (peer :: rest))
      (hpop : (σ.connection peer).popReadyIncomingPacket = none) :
      Step build w σ .next { σ with listening := .processing rest }
  | endReceived (hrun : σ.aborted = false) (hlistening : σ.listening = .processing []) :
      Step build w σ .next { σ with listening := .receiving }
  -- `Send` and `Broadcast`
  | send (peer : NetAddress) (message : Message) (hrun : σ.aborted = false)
      (hmem : peer ∈ σ.peers) :
      Step build w σ (.send peer message) (σ.schedule peer message)
  | broadcast (message : Message) (except order : List NetAddress) (hrun : σ.aborted = false)
      (horder : order.Perm σ.peers) :
      Step build w σ (.broadcast message except)
        { σ with broadcasts := σ.broadcasts ++ [⟨message, except, order, order⟩] }
  | broadcastSkip (i : ℕ) (b : Broadcasting) (peer : NetAddress) (rest : List NetAddress)
      (hrun : σ.aborted = false) (hcall : σ.broadcasts[i]? = some b) (hrest : b.rest = peer :: rest)
      (hexcept : b.except.any (fun e ↦ e.eq peer) = true) :
      Step build w σ .next { σ with broadcasts := σ.broadcasts.set i { b with rest := rest } }
  | broadcastSend (i : ℕ) (b : Broadcasting) (peer : NetAddress) (rest : List NetAddress)
      (hrun : σ.aborted = false) (hcall : σ.broadcasts[i]? = some b) (hrest : b.rest = peer :: rest)
      (hexcept : b.except.any (fun e ↦ e.eq peer) = false) :
      Step build w σ (.broadcastSend i peer b.message)
        { σ.schedule peer b.message with
          broadcasts := σ.broadcasts.set i { b with rest := rest } }
  -- `SendThread`
  | getPeers (order : List NetAddress) (hrun : σ.aborted = false)
      (hvalid : σ.socket.isValid = true) (hempty : σ.connectedPeers = [])
      (horder : order.Perm σ.peers) :
      Step build w σ .next { σ with connectedPeers := order }
  | drain (peer : NetAddress) (rest : List NetAddress) (packet : Packet Buffer)
      (c : Connection Buffer) (datagram : Option (List UInt8)) (socket : Socket)
      (hrun : σ.aborted = false) (hpeers : σ.connectedPeers = peer :: rest)
      (hlock : σ.listening ≠ .stuck peer)
      (hpop : (σ.connection peer).popReadyOutgoingPacket = some (packet, c))
      (hsend : sendPacket w σ.socket packet = .ok (datagram, socket)) :
      Step build w σ (.drain peer) { σ.setConnection peer c with
        socket := socket
        sent := σ.sent ++ datagram.toList.map fun bytes ↦ (peer, bytes) }
  | drainFault (peer : NetAddress) (rest : List NetAddress) (packet : Packet Buffer)
      (c : Connection Buffer) (f : Fault) (hrun : σ.aborted = false)
      (hpeers : σ.connectedPeers = peer :: rest) (hlock : σ.listening ≠ .stuck peer)
      (hpop : (σ.connection peer).popReadyOutgoingPacket = some (packet, c))
      (hsend : sendPacket w σ.socket packet = .error f) :
      Step build w σ (.drain peer) { σ.setConnection peer c with aborted := true }
  | nextPeer (peer : NetAddress) (rest : List NetAddress) (hrun : σ.aborted = false)
      (hpeers : σ.connectedPeers = peer :: rest)
      (hpop : (σ.connection peer).popReadyOutgoingPacket = none) :
      Step build w σ .next { σ with connectedPeers := rest }

end Server

end GioNet
