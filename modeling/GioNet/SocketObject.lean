import GioNet.Endpoint
import GioNet.Library.Ownership

/-!
# The class `Socket`

A socket object keeps a handle and a list of addresses that Winsock has given to
it. A member function is a function of the object and of what the calls of
Winsock in it come to, and gives the calls that it makes.
-/

namespace GioNet

open DecimalText Ownership

def NetAddress.isServer (a : NetAddress) : Bool := a.ip.isEmpty && a.port != 0

inductive CommunicationProtocols where
  | tcp
  | udp
  deriving DecidableEq

/-- A value of `SOCKET` other than `INVALID_SOCKET`. -/
abbrev Handle := ℕ

def afInet : ℕ := 2

def sockStream : ℕ := 1

def sockDgram : ℕ := 2

def ipprotoTcp : ℕ := 6

def ipprotoUdp : ℕ := 17

def aiPassive : ℕ := 1

/-- The `addrinfo` that says what is asked for. -/
structure Hints where
  aiFlags : ℕ := 0
  aiFamily : ℕ := 0
  aiSocktype : ℕ := 0
  aiProtocol : ℕ := 0

/-- The `addrinfo` that `getaddrinfo` gives, with its place in memory. -/
structure AddrInfo where
  place : ℕ
  aiFamily : ℕ
  aiSocktype : ℕ
  aiProtocol : ℕ
  aiAddr : SockaddrIn

inductive Destination where
  | given (addr : SockaddrIn)
  /-- The address at the front of the list. -/
  | resolved (info : AddrInfo)

/-- The calls of Winsock with what they come to. The handle `none` is
`INVALID_SOCKET`; the results `none` and `false` are errors. -/
inductive WinsockCall where
  | getaddrinfo (node : Option StdString) (service : StdString) (hints : Hints)
      (result : Option AddrInfo)
  | freeaddrinfo (info : AddrInfo)
  | socket (info : AddrInfo) (result : Option Handle)
  | closesocket (s : Handle)
  | bind (s : Option Handle) (info : AddrInfo) (result : Bool)
  | connect (s : Option Handle) (info : AddrInfo) (result : Bool)
  | listen (s : Option Handle) (result : Bool)
  | accept (s : Option Handle) (result : Option (Handle × SockaddrIn))
  | send (s : Option Handle) (data : List UInt8) (length : ℤ) (result : Option (List UInt8))
  | sendto (s : Option Handle) (data : List UInt8) (length : ℤ) (destination : Destination)
      (result : Option (List UInt8))
  | recv (s : Option Handle) (result : Option (List UInt8))
  | recvfrom (s : Option Handle) (result : Option (List UInt8 × SockaddrIn))

structure SocketObject where
  address : NetAddress := {}
  communicationProtocol : CommunicationProtocols := .tcp
  winSocket : Option Handle := none
  winAddrInfo : Option AddrInfo := none

/-- The ways in which a member function does not come back. -/
inductive Crash where
  | fault (f : Fault)
  | nullPointer

/-- A member function has come back. -/
structure Returned (α : Type) where
  value : α
  object : SocketObject
  calls : List WinsockCall

namespace SocketObject

variable (build : Build) (inet : Inet) (s : SocketObject)

def freeAddressInfo : SocketObject × List WinsockCall :=
  match s.winAddrInfo with
  | some info => ({ s with winAddrInfo := none }, [.freeaddrinfo info])
  | none => (s, [])

def close : SocketObject × List WinsockCall :=
  let (s, freed) := s.freeAddressInfo
  match s.winSocket with
  | some handle => ({ s with winSocket := none }, freed ++ [.closesocket handle])
  | none => (s, freed)

/-- The hints of the constructor. -/
def hints (address : NetAddress) (protocol : CommunicationProtocols) : Hints where
  aiFlags := if address.isServer then aiPassive else 0
  aiFamily := afInet
  aiSocktype := if protocol = .udp then sockDgram else sockStream
  aiProtocol := if protocol = .udp then ipprotoUdp else ipprotoTcp

/-- The constructor with an address. For a server, `(PCSTR)INADDR_ANY` is the null
pointer. -/
def make (address : NetAddress) (protocol : CommunicationProtocols) (resolved : Option AddrInfo)
    (opened : Option Handle) : SocketObject × List WinsockCall :=
  let s : SocketObject := { address := address, communicationProtocol := protocol }
  let node := if address.isServer then none else some address.ip
  let asked : WinsockCall :=
    .getaddrinfo node (decimal address.port.toNat) (hints address protocol) resolved
  match resolved, opened with
  | none, _ => (s, [asked])
  | some info, some handle =>
      ({ s with winAddrInfo := some info, winSocket := some handle },
        [asked, .socket info (some handle)])
  | some info, none =>
      let (s, closed) := { s with winAddrInfo := some info }.close
      (s, asked :: .socket info none :: closed)

/-- The destructor. -/
def destroy : List WinsockCall :=
  match s.winSocket with
  | some _ => s.close.2
  | none => []

def isValid : Bool := s.winSocket.isSome

/-- The assertion about the protocol. -/
def expect (protocol : CommunicationProtocols) : Except Crash Unit :=
  if build = .debug ∧ s.communicationProtocol ≠ protocol then .error (.fault .assertionFailed)
  else .ok ()

/-- A call has failed, and the socket is closed. -/
def failed {α : Type} (call : WinsockCall) : Returned (Option α) :=
  let (s, closed) := s.close
  ⟨none, s, call :: closed⟩

/-- The number of bytes that are on their way. -/
def finishSend (call : WinsockCall) (sent : Option (List UInt8)) : Returned (Option ℤ) :=
  match sent with
  | none => s.failed call
  | some bytes => ⟨some bytes.length, s, [call]⟩

def send (buffer : Buffer) (sent : Option (List UInt8)) : Except Crash (Returned (Option ℤ)) := do
  s.expect build .tcp
  return s.finishSend (.send s.winSocket buffer.payload buffer.length sent) sent

def sendTo (buffer : Buffer) (destination : Option NetAddress) (sent : Option (List UInt8)) :
    Except Crash (Returned (Option ℤ)) := do
  s.expect build .udp
  match destination, s.winAddrInfo with
  | some destination, _ =>
      return s.finishSend (.sendto s.winSocket buffer.payload buffer.length
        (.given (destination.sockaddr inet)) sent) sent
  | none, some info =>
      return s.finishSend
        (.sendto s.winSocket buffer.payload buffer.length (.resolved info) sent) sent
  | none, none =>
      if build = .debug then .error (.fault .assertionFailed) else .error .nullPointer

/-- The buffer that is made of the bytes. -/
def buffered (received : List UInt8) : Except Crash Buffer :=
  match Buffer.ofData build received with
  | .ok b => .ok b
  | .error f => .error (.fault f)

def receive (received : Option (List UInt8)) : Except Crash (Returned (Option Buffer)) := do
  s.expect build .tcp
  match received with
  | none => return s.failed (.recv s.winSocket none)
  | some bytes => return ⟨some (← buffered build bytes), s, [.recv s.winSocket (some bytes)]⟩

/-- `ReceiveFrom`, with the address that is left in `outFrom`. -/
def receiveFrom (outFrom : NetAddress) (received : Option (List UInt8 × SockaddrIn)) :
    Except Crash (Returned (Option Buffer) × NetAddress) := do
  s.expect build .udp
  match received with
  | none => return (s.failed (.recvfrom s.winSocket none), outFrom)
  | some (bytes, source) =>
      return (⟨some (← buffered build bytes), s, [.recvfrom s.winSocket (some (bytes, source))]⟩,
        source.netAddress inet)

def bind (result : Bool) : Except Crash (Returned Bool) :=
  match s.winAddrInfo with
  | none => .error .nullPointer
  | some info =>
      if result then
        let (s', freed) := s.freeAddressInfo
        .ok ⟨true, s', .bind s.winSocket info true :: freed⟩
      else
        let (s', closed) := s.close
        .ok ⟨false, s', .bind s.winSocket info false :: closed⟩

def listen (result : Bool) : Except Crash (Returned Bool) := do
  s.expect build .tcp
  if result then return ⟨true, s, [.listen s.winSocket true]⟩
  else
    let (s', closed) := s.close
    return ⟨false, s', .listen s.winSocket false :: closed⟩

/-- The new socket keeps the protocol that a socket has by default. -/
def acceptConnection (result : Option (Handle × SockaddrIn)) :
    Except Crash (Returned (Option SocketObject)) := do
  s.expect build .tcp
  match result with
  | none => return ⟨none, s, [.accept s.winSocket none]⟩
  | some (handle, addr) =>
      return ⟨some { address := addr.acceptedAddress inet, winSocket := some handle }, s,
        [.accept s.winSocket (some (handle, addr))]⟩

/-- A connection that fails leaves the socket open. -/
def connect (result : Bool) : Except Crash (Returned Bool) := do
  s.expect build .tcp
  match s.winAddrInfo with
  | none => .error .nullPointer
  | some info =>
      if result then
        let (s', freed) := s.freeAddressInfo
        return ⟨s'.isValid, s', .connect s.winSocket info true :: freed⟩
      else return ⟨false, s, [.connect s.winSocket info false]⟩

/-- What a move leaves behind: the text of the address has gone, the handle and the
pointer have been copied. -/
def movedFrom : SocketObject := { s with address := { s.address with ip := [] } }

variable {build : Build} {s : SocketObject} {protocol : CommunicationProtocols}

theorem freeAddressInfo_object (s : SocketObject) :
    s.freeAddressInfo.1 = { s with winAddrInfo := none } := by
  unfold freeAddressInfo
  rcases s with ⟨address, protocol, handle, _ | info⟩ <;> rfl

theorem close_object (s : SocketObject) :
    s.close.1 = { s with winSocket := none, winAddrInfo := none } := by
  unfold close freeAddressInfo
  rcases s with ⟨address, protocol, _ | handle, _ | info⟩ <;> rfl

theorem failed_eq {α : Type} (s : SocketObject) (call : WinsockCall) :
    s.failed call = (⟨none, s.close.1, call :: s.close.2⟩ : Returned (Option α)) := rfl

theorem expect_self {α : Type} (h : s.communicationProtocol = protocol) (x : Except Crash α) :
    (s.expect build protocol >>= fun _ ↦ x) = x := by
  rw [expect, if_neg (by simp [h])]
  rfl

theorem expect_bind {α : Type} {x : Except Crash α} {r : α}
    (h : (s.expect build protocol >>= fun _ ↦ x) = .ok r) : x = .ok r := by
  unfold expect at h
  split at h
  · cases h
  · exact h

end SocketObject

end GioNet
