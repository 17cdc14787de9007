import GioNet.Library.Simulation
import GioNet.SocketResources

/-!
# How the client and the server use their sockets

The client and the server of the model have a socket of which they know only
whether it is valid. What they do with it comes to the same as with a socket
object.
-/

namespace GioNet

open Simulation

inductive Role where
  | client
  | server
  deriving DecidableEq

inductive SocketEvent where
  /-- A packet is serialised and passed to `SendTo`. -/
  | send (packet : Packet Buffer) (destination : Option NetAddress)
  | arrive (datagram : List UInt8) (source : SockaddrIn)
  | recvFailed
  | close

/-- The client sends to the address that it has been made with, the server to that of
a peer. -/
def SocketEvent.By : Role → SocketEvent → Prop
  | .client, .send _ destination => destination = none
  | .server, .send _ destination => destination.isSome = true
  | _, _ => True

/-- Where a datagram goes; the address that the socket has been made with is `none`. -/
abbrev Target := Option SockaddrIn

inductive Outcome where
  | sent (call : Option (Target × Option (List UInt8)))
  | received (b : Option Buffer) (outFrom : NetAddress)
  | closed

def Destination.target : Destination → Target
  | .given addr => some addr
  | .resolved _ => none

/-- The target of a call of `sendto`, and the datagram that leaves. -/
def WinsockCall.sendto? : WinsockCall → Option (Target × Option (List UInt8))
  | .sendto _ _ _ destination sent => some (destination.target, sent)
  | _ => none

namespace SocketObject

/-- Winsock fails on an invalid handle. -/
def react (build : Build) (inet : Inet) (w : Winsock) (o : SocketObject) :
    SocketEvent → Option (Outcome × SocketObject)
  | .send packet destination => do
      let (_, b) ← ((Buffer.writePacket packet).run {}).toOption
      let sent := if o.isValid then w.sendto b.payload b.length else none
      let r ← (o.sendTo build inet b destination sent).toOption
      return (.sent (r.calls.findSome? WinsockCall.sendto?), r.object)
  | .arrive datagram source => do
      let received :=
        if o.isValid then (w.recvfrom datagram bufferMax).map fun bytes ↦ (bytes, source) else none
      let (r, outFrom) ← (o.receiveFrom build inet {} received).toOption
      return (.received r.value outFrom, r.object)
  | .recvFailed => do
      let (r, outFrom) ← (o.receiveFrom build inet {} none).toOption
      return (.received r.value outFrom, r.object)
  | .close => some (.closed, o.close.1)

end SocketObject

/-- What the steps of the client and of the server do with the socket. -/
def Socket.react (build : Build) (inet : Inet) (w : Winsock) (role : Role)
    (s : Socket) : SocketEvent → Option (Outcome × Socket)
  | .send packet destination =>
      if role = .client ∧ s.isValid = false then none
      else do
        let (datagram, s) ← (sendPacket w s packet).toOption
        return (.sent (some (destination.map (NetAddress.sockaddr inet), datagram)), s)
  | .arrive datagram source =>
      if s.isValid then do
        let (b, s) ← (s.receiveFrom build w datagram).toOption
        return (.received b (if b.isSome then source.netAddress inet else {}), s)
      else some (.received none {}, s)
  | .recvFailed => some (.received none {}, s.close)
  | .close => some (.closed, s.close)

/-- The constructor of the server. -/
def Server.makeSocket (build : Build) (port : UInt16) (resolved : Option AddrInfo)
    (opened : Option Handle) (bound : Bool) : Except Crash SocketObject :=
  let (o, _) := SocketObject.make ⟨[], port⟩ .udp resolved opened
  if build = .debug ∧ o.isValid = false then .error (.fault .assertionFailed)
  else do
    let r ← o.bind bound
    return r.object

/-- The object is what the model's socket stands for. -/
structure Represents (role : Role) (o : SocketObject) (s : Socket) : Prop where
  protocol : o.communicationProtocol = .udp
  valid : s.isValid = o.isValid
  kept : o.isValid = false → o.winAddrInfo = none
  address : role = .client → o.isValid = true → o.winAddrInfo.isSome = true

variable {build : Build} {inet : Inet} {w : Winsock} {role : Role}
  {o : SocketObject} {s : Socket} {e : SocketEvent}

/-- Of the calls after a `sendto`, none is another one. -/
theorem SocketObject.finishSend_sendto? {call : WinsockCall}
    {sending : Target × Option (List UInt8)} (hcall : call.sendto? = some sending)
    (sent : Option (List UInt8)) :
    (o.finishSend call sent).calls.findSome? WinsockCall.sendto? = some sending := by
  cases sent <;> rw [finishSend]
  · rw [failed_eq, List.findSome?_cons, hcall]
  · rw [List.findSome?_cons, hcall]

theorem SocketObject.receiveFrom_none (h : o.communicationProtocol = .udp) (outFrom : NetAddress) :
    o.receiveFrom build inet outFrom none =
      .ok (o.failed (.recvfrom o.winSocket none), outFrom) := by
  rw [receiveFrom, expect_self h]
  rfl

theorem SocketObject.receiveFrom_some (h : o.communicationProtocol = .udp) (outFrom : NetAddress)
    (bytes : List UInt8) (source : SockaddrIn) :
    o.receiveFrom build inet outFrom (some (bytes, source)) =
      match Buffer.ofData build bytes with
      | .error f => .error (.fault f)
      | .ok b => .ok (⟨some b, o, [.recvfrom o.winSocket (some (bytes, source))]⟩,
          source.netAddress inet) := by
  rw [receiveFrom, expect_self h, buffered]
  cases Buffer.ofData build bytes <;> rfl

theorem SocketObject.sendTo_eq (h : o.communicationProtocol = .udp) (b : Buffer)
    (destination : Option NetAddress) (sent : Option (List UInt8)) :
    o.sendTo build inet b destination sent =
      match destination, o.winAddrInfo with
      | some destination, _ => .ok (o.finishSend (.sendto o.winSocket b.payload b.length
          (.given (destination.sockaddr inet)) sent) sent)
      | none, some info => .ok (o.finishSend
          (.sendto o.winSocket b.payload b.length (.resolved info) sent) sent)
      | none, none =>
          if build = .debug then .error (.fault .assertionFailed) else .error .nullPointer := by
  unfold sendTo
  rw [expect_self h]
  cases destination with
  | some destination => rfl
  | none => cases o.winAddrInfo <;> rfl

namespace Represents

theorem close (h : Represents role o s) : Represents role o.close.1 s.close := by
  rw [SocketObject.close_object]
  exact ⟨h.protocol, rfl, fun _ ↦ rfl, nofun⟩

/-- Closing a closed socket does nothing. -/
theorem close_of_invalid (h : Represents role o s) (hvalid : o.isValid = false) :
    Represents role o.close.1 s := by
  rw [SocketObject.close_object]
  exact ⟨h.protocol, h.valid.trans hvalid, fun _ ↦ rfl, nofun⟩

/-- The call of `sendto` in `SendTo`, if it is not stopped by an assertion or a null pointer. -/
theorem exists_sendTo (h : Represents role o s) (build : Build)
    (inet : Inet) {destination : Option NetAddress} {b : Buffer}
    (hdestination : destination.isSome = true ∨ o.winAddrInfo.isSome = true)
    (sent : Option (List UInt8)) :
    ∃ call : WinsockCall,
      call.sendto? = some (destination.map (NetAddress.sockaddr inet), sent) ∧
        o.sendTo build inet b destination sent = .ok (o.finishSend call sent) := by
  rw [SocketObject.sendTo_eq h.protocol]
  cases destination with
  | some destination => exact ⟨_, rfl, rfl⟩
  | none =>
      cases hinfo : o.winAddrInfo with
      | some info => exact ⟨_, rfl, rfl⟩
      | none => simp [hinfo] at hdestination

theorem sendTo (h : Represents role o s) (build : Build) (inet : Inet)
    {destination : Option NetAddress}
    (hdestination : destination.isSome = true ∨ o.winAddrInfo.isSome = true) (w : Winsock)
    (b : Buffer) : ∃ r, o.sendTo build inet b destination
        (if o.isValid then w.sendto b.payload b.length else none) = .ok r ∧
      r.calls.findSome? WinsockCall.sendto? =
        some (destination.map (NetAddress.sockaddr inet),
          (if o.isValid then s.sendTo w b else (none, s)).1) ∧
      Represents role r.object (if o.isValid then s.sendTo w b else (none, s)).2 := by
  obtain ⟨call, hcall, hsendTo⟩ := h.exists_sendTo build inet hdestination
    (if o.isValid then w.sendto b.payload b.length else none)
  refine ⟨_, hsendTo, ?_⟩
  rw [SocketObject.finishSend_sendto? hcall]
  cases hvalid : o.isValid with
  | false => exact ⟨rfl, h.close_of_invalid hvalid⟩
  | true =>
      rw [if_pos rfl, if_pos rfl, Socket.sendTo]
      cases w.sendto b.payload b.length with
      | none => exact ⟨rfl, h.close⟩
      | some bytes => exact ⟨rfl, h⟩

theorem send (h : Represents role o s) (packet : Packet Buffer) (destination : Option NetAddress)
    (hby : (SocketEvent.send packet destination).By role) :
    Matches (Represents role) (o.react build inet w (.send packet destination))
      (s.react build inet w role (.send packet destination)) := by
  rw [SocketObject.react, Socket.react, sendPacket, h.valid]
  generalize (Buffer.writePacket packet).run {} = written
  cases written with
  | error f =>
      by_cases hclosed : role = .client ∧ o.isValid = false
      · exact if_pos hclosed ▸ .none
      · exact if_neg hclosed ▸ .none
  | ok x =>
      obtain ⟨-, b⟩ := x
      by_cases hclosed : role = .client ∧ o.isValid = false
      · -- `Close` has freed the address
        obtain ⟨rfl, hvalid⟩ := hclosed
        obtain rfl : destination = none := hby
        have hstops : (o.sendTo build inet b none none).toOption = none := by
          rw [SocketObject.sendTo_eq h.protocol, h.kept hvalid]
          dsimp only
          split <;> rfl
        rw [if_pos ⟨rfl, hvalid⟩, hvalid]
        change Matches _ ((o.sendTo build inet b none none).toOption.bind _) none
        rw [hstops]
        exact .none
      · have hdestination : destination.isSome = true ∨ o.winAddrInfo.isSome = true := by
          cases role with
          | server => exact .inl hby
          | client => exact .inr (h.address rfl (by simpa using hclosed))
        obtain ⟨r, hr, hsending, hrepresents⟩ := h.sendTo build inet hdestination w b
        rw [if_neg hclosed]
        change Matches _ ((o.sendTo build inet b destination
          (if o.isValid then w.sendto b.payload b.length else none)).toOption.bind _) _
        rw [hr]
        exact .some ⟨congrArg Outcome.sent hsending, hrepresents⟩

theorem arrive (h : Represents role o s) (datagram : List UInt8) (source : SockaddrIn) :
    Matches (Represents role) (o.react build inet w (.arrive datagram source))
      (s.react build inet w role (.arrive datagram source)) := by
  unfold SocketObject.react Socket.react
  dsimp only
  rw [h.valid]
  cases hvalid : o.isValid with
  | false =>
      rw [if_neg (by decide), if_neg (by decide), SocketObject.receiveFrom_none h.protocol]
      exact .some ⟨rfl, h.close_of_invalid hvalid⟩
  | true =>
      rw [if_pos rfl, if_pos rfl, Socket.receiveFrom]
      cases hrecvfrom : w.recvfrom datagram bufferMax with
      | none =>
          rw [Option.map_none, SocketObject.receiveFrom_none h.protocol]
          exact .some ⟨rfl, h.close⟩
      | some bytes =>
          rw [Option.map_some, SocketObject.receiveFrom_some h.protocol]
          cases hdata : Buffer.ofData build bytes with
          | error f =>
              dsimp only
              rw [hdata]
              exact .none
          | ok b =>
              dsimp only
              rw [hdata]
              exact .some ⟨rfl, h⟩

theorem recvFailed (h : Represents role o s) :
    Matches (Represents role) (o.react build inet w .recvFailed)
      (s.react build inet w role .recvFailed) := by
  have hreact : o.react build inet w .recvFailed = some (.received none {}, o.close.1) := by
    unfold SocketObject.react
    rw [SocketObject.receiveFrom_none h.protocol]
    rfl
  rw [hreact]
  exact .some ⟨rfl, h.close⟩

theorem react (h : Represents role o s) (e : SocketEvent) (hby : e.By role) :
    Matches (Represents role) (o.react build inet w e) (s.react build inet w role e) := by
  cases e with
  | send packet destination => exact h.send packet destination hby
  | arrive datagram source => exact h.arrive datagram source
  | recvFailed => exact h.recvFailed
  | close => exact .some ⟨rfl, h.close⟩

/-- The constructor of the client. -/
theorem make (address : NetAddress) (resolved : Option AddrInfo) (opened : Option Handle) :
    Represents .client (SocketObject.make address .udp resolved opened).1
      { isValid := resolved.isSome && opened.isSome } := by
  cases resolved with
  | none => exact ⟨rfl, rfl, fun _ ↦ rfl, nofun⟩
  | some info =>
      cases opened with
      | none => exact ⟨rfl, rfl, fun _ ↦ rfl, nofun⟩
      | some handle => exact ⟨rfl, rfl, nofun, fun _ _ ↦ rfl⟩

theorem bind (h : Represents .client o s) (hvalid : o.isValid = true) (bound : Bool) :
    ∃ r, o.bind bound = .ok r ∧ Represents .server r.object { isValid := bound } := by
  obtain ⟨info, hinfo⟩ := Option.isSome_iff_exists.mp (h.address rfl hvalid)
  rw [SocketObject.bind, hinfo]
  cases bound with
  | true =>
      refine ⟨_, rfl, ?_⟩
      change Represents .server o.freeAddressInfo.1 {}
      rw [SocketObject.freeAddressInfo_object]
      exact ⟨h.protocol, hvalid.symm, fun _ ↦ rfl, nofun⟩
  | false =>
      have hclose := h.close
      exact ⟨_, rfl, hclose.protocol, hclose.valid, hclose.kept, nofun⟩

end Represents

/-- The server has a socket if there was an address and a handle, and it is valid if it
could be bound. -/
theorem Server.makeSocket_eq (build : Build) (port : UInt16) (resolved : Option AddrInfo)
    (opened : Option Handle) (bound : Bool) :
    match Server.makeSocket build port resolved opened bound with
    | .ok o => (resolved.isSome && opened.isSome) = true ∧
        Represents .server o { isValid := bound }
    | .error _ => (resolved.isSome && opened.isSome) = false := by
  have hmake := Represents.make ⟨[], port⟩ resolved opened
  have hvalid : (SocketObject.make ⟨[], port⟩ .udp resolved opened).1.isValid =
      (resolved.isSome && opened.isSome) := hmake.valid.symm
  rw [Server.makeSocket]
  dsimp only
  cases hsome : resolved.isSome && opened.isSome with
  | true =>
      obtain ⟨r, hr, hrepresents⟩ := hmake.bind (hvalid.trans hsome) bound
      rw [if_neg (by simp [hvalid, hsome]), hr]
      exact ⟨rfl, hrepresents⟩
  | false =>
      have hnull : (SocketObject.make ⟨[], port⟩ .udp resolved opened).1.bind bound =
          .error .nullPointer := by
        rw [SocketObject.bind, hmake.kept (hvalid.trans hsome)]
      rw [hnull]
      by_cases hdebug : build = .debug ∧
          (SocketObject.make ⟨[], port⟩ .udp resolved opened).1.isValid = false
      · rw [if_pos hdebug]
      · rw [if_neg hdebug]
        rfl

/-- The object and the socket of the model give the same outcomes up to the end of the
events or to a crash, to which they come together. -/
structure SameUse (build : Build) (inet : Inet) (w : Winsock) (role : Role)
    (o : SocketObject) (s : Socket) (events : List SocketEvent) : Prop where
  outcomes : (outputs (SocketObject.react build inet w) o events).1 =
    (outputs (Socket.react build inet w role) s events).1
  valid : (outputs (SocketObject.react build inet w) o events).2.map SocketObject.isValid =
    (outputs (Socket.react build inet w role) s events).2.map Socket.isValid

theorem Represents.sameUse (h : Represents role o s) {events : List SocketEvent}
    (hby : ∀ e ∈ events, e.By role) : SameUse build inet w role o s events := by
  obtain ⟨houtcomes, hend⟩ : _ ∧ Option.Rel (Represents role)
      (outputs (SocketObject.react build inet w) o events).2
      (outputs (Socket.react build inet w role) s events).2 :=
    outputs_eq h hby fun o s e h hby ↦ h.react e hby
  exact ⟨houtcomes, map_eq_of_rel hend fun _ _ h ↦ h.valid.symm⟩

/-- In the client and in the server, the object of the class `Socket` and the socket of
the model go through every sequence of events alike. -/
theorem sockets_follow (build : Build) (inet : Inet) (w : Winsock)
    (resolved : Option AddrInfo) (opened : Option Handle) (events : List SocketEvent) :
    (∀ serverAddress, (∀ e ∈ events, e.By .client) →
      SameUse build inet w .client
        (SocketObject.make serverAddress .udp resolved opened).1
        { isValid := resolved.isSome && opened.isSome } events) ∧
    ∀ port bound, (∀ e ∈ events, e.By .server) →
      match Server.makeSocket build port resolved opened bound with
      | .ok o => (resolved.isSome && opened.isSome) = true ∧
          SameUse build inet w .server o { isValid := bound } events
      | .error _ => (resolved.isSome && opened.isSome) = false := by
  refine ⟨?_, ?_⟩
  · intro serverAddress hby
    exact (Represents.make serverAddress resolved opened).sameUse hby
  · intro port bound hby
    have hsocket := Server.makeSocket_eq build port resolved opened bound
    split at hsocket
    · exact ⟨hsocket.1, hsocket.2.sameUse hby⟩
    · exact hsocket

/-- A client that sends when it has been stopped, and a server that does. -/
theorem sockets_follow_stop :
    SameUse .debug .littleEndian .datagrams .client
      (SocketObject.make ⟨literal "10.0.0.7", 50000⟩ .udp (some Sockets.serverAddrInfo) (some 5)).1
      {} [.send Client.pingPacket none, .close, .send Client.pingPacket none] ∧
    match Server.makeSocket .debug 27015 (some Sockets.serverAddrInfo) (some 5) true with
    | .ok o => SameUse .debug .littleEndian .datagrams .server o {}
        [.send Client.pingPacket (some {}), .close, .send Client.pingPacket (some {})]
    | .error _ => False := by
  have hclient := sockets_follow .debug .littleEndian .datagrams (some Sockets.serverAddrInfo)
    (some 5) [.send Client.pingPacket none, .close, .send Client.pingPacket none]
  have hserver := sockets_follow .debug .littleEndian .datagrams (some Sockets.serverAddrInfo)
    (some 5) [.send Client.pingPacket (some {}), .close, .send Client.pingPacket (some {})]
  refine ⟨hclient.1 _ (by simp [SocketEvent.By]), ?_⟩
  exact (hserver.2 27015 true (by simp [SocketEvent.By])).2

end GioNet
