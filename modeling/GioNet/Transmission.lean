import GioNet.ReceivePath

/-!
# From `Send` to the other end

A message is scheduled as a data packet, serialised by the send loop, and passed
to a socket. The buffer that the other end receives into has `512` bytes, and
nothing on the sending side knows about that bound.
-/

namespace GioNet

structure Message where
  reliable : Bool := true
  data : Buffer := {}

/-- The packet that `Client::Send` and `Server::Send` make of a message. -/
def Message.packet (m : Message) : Packet Buffer :=
  Packet.make .data (if m.reliable then .reliable else .none) m.data

/-- What the datagram calls of Winsock do with the bytes; `none` stands for
`SOCKET_ERROR`. `sendto` returns the datagram that leaves, `recvfrom` what it
puts into a buffer of the given size. -/
structure Winsock where
  sendto : List UInt8 → ℤ → Option (List UInt8)
  recvfrom : List UInt8 → ℕ → Option (List UInt8)

/-- A datagram is received whole if the buffer has room for it, and is an error if
not. -/
structure Winsock.Documented (w : Winsock) : Prop where
  recvfrom_fits : ∀ datagram size, datagram.length ≤ size →
    w.recvfrom datagram size = some datagram
  recvfrom_long : ∀ datagram size, size < datagram.length → w.recvfrom datagram size = none

/-- Besides, no call of `sendto` with a small datagram fails. Winsock does not promise
that: it is a condition of the results that assume it. -/
structure Winsock.Sends (w : Winsock) : Prop extends w.Documented where
  sendto_small : ∀ bytes, bytes.length ≤ bufferMax → w.sendto bytes bytes.length = some bytes

structure Socket where
  isValid : Bool := true

namespace Socket

def close (s : Socket) : Socket := { s with isValid := false }

/-- `SendTo`, with the datagram that leaves. -/
def sendTo (w : Winsock) (s : Socket) (buffer : Buffer) : Option (List UInt8) × Socket :=
  match w.sendto buffer.payload buffer.length with
  | none => (none, s.close)
  | some datagram => (some datagram, s)

def receiveFrom (build : Build) (w : Winsock) (s : Socket) (datagram : List UInt8) :
    Except Fault (Option Buffer × Socket) :=
  match w.recvfrom datagram bufferMax with
  | none => .ok (none, s.close)
  | some received => do return (some (← Buffer.ofData build received), s)

end Socket

/-- The packet is serialised and sent, the datagram fits into the buffer of the
other end, which keeps its socket and reads the same packet and nothing more. -/
def Transfers (build : Build) (w : Winsock) (p : Packet Buffer) : Prop :=
  ∀ s s' : Socket, ∃ buffer datagram received,
    (Buffer.writePacket p).run {} = .ok ((), buffer) ∧
      s.sendTo w buffer = (some datagram, s) ∧ datagram.length ≤ bufferMax ∧
        s'.receiveFrom build w datagram = .ok (some received, s') ∧
          (Buffer.readPacket build).run received = .ok (p, {})

/-- What is read as a packet, with nothing left over, has the size of that
packet on the wire. -/
theorem Buffer.length_of_readPacket {build : Build} {b : Buffer} {p : Packet Buffer}
    (hb : b.payload.length < 2 ^ 31) (h : (readPacket build).run b = .ok (p, {})) :
    b.payload.length = 13 + p.payload.payload.length := by
  rw [readPacket_run build hb] at h
  split at h
  · rename_i hframe
    obtain ⟨hheader, hrest⟩ := Prod.mk.inj (Except.ok.inj h)
    have hpayload : (b.payload.drop 13).take (lengthPrefix b.payload).toNat =
        p.payload.payload := congrArg (fun q : Packet Buffer ↦ q.payload.payload) hheader
    have hend : b.payload.drop (13 + (lengthPrefix b.payload).toNat) = [] :=
      congrArg Buffer.payload hrest
    have hlen := congrArg List.length hpayload
    rw [List.length_take, List.length_drop] at hlen
    rw [List.drop_eq_nil_iff] at hend
    omega
  · cases h

theorem Socket.receiveFrom_of_le {w : Winsock} (hw : w.Documented) (build : Build) (s : Socket)
    {datagram : List UInt8} (h : datagram.length ≤ bufferMax) :
    s.receiveFrom build w datagram = .ok (some ⟨datagram⟩, s) := by
  rw [receiveFrom, hw.recvfrom_fits _ _ h]
  simp only [Buffer.ofData_of_le build h, Fault.ok_bind]
  rfl

theorem Socket.receiveFrom_wire {w : Winsock} (hw : w.Documented) (build : Build) (s : Socket)
    {p : Packet Buffer} (h : p.payload.payload.length ≤ 499) :
    s.receiveFrom build w p.wire = .ok (some ⟨p.wire⟩, s) ∧
      (Buffer.readPacket build).run ⟨p.wire⟩ = .ok (p, {}) := by
  have hlen := p.wire_length
  have hmax : p.wire.length ≤ bufferMax := by
    rw [bufferMax]
    omega
  constructor
  · exact receiveFrom_of_le hw build s hmax
  · have hread := Buffer.readPacket_wire build (p := p) (show (p.wire ++ []).length < _ by
      rw [List.append_nil]
      omega)
    rwa [List.append_nil] at hread

theorem transfers_iff_length {build : Build} {w : Winsock} (hw : w.Sends)
    (p : Packet Buffer) : Transfers build w p ↔ p.payload.payload.length ≤ 499 := by
  constructor
  · intro h
    obtain ⟨buffer, datagram, received, -, -, hfits, hreceive, hread⟩ := h {} {}
    rw [Socket.receiveFrom, hw.recvfrom_fits _ _ hfits] at hreceive
    simp only [Buffer.ofData_of_le build hfits, Fault.ok_bind] at hreceive
    obtain rfl : Buffer.mk datagram = received := by
      simpa using congrArg Prod.fst (Except.ok.inj hreceive)
    rw [bufferMax] at hfits
    have hlen := Buffer.length_of_readPacket (by dsimp only; omega) hread
    dsimp only at hlen
    omega
  · intro h s s'
    have hlen := p.wire_length
    have hmax : p.wire.length ≤ bufferMax := by
      rw [bufferMax]
      omega
    obtain ⟨hreceive, hread⟩ := Socket.receiveFrom_wire hw.toDocumented build s' h
    refine ⟨⟨p.wire⟩, p.wire, ⟨p.wire⟩, ?_, ?_, hmax, hreceive, hread⟩
    · exact Buffer.appends_writePacket (by omega) {} (by simp [vectorMax]; omega)
    · have hlength : Buffer.length ⟨p.wire⟩ = p.wire.length := int32_of_lt (by dsimp only; omega)
      rw [Socket.sendTo, hlength, hw.sendto_small _ hmax]

theorem receiveFrom_of_long {w : Winsock} (hw : w.Documented) (build : Build) (s : Socket)
    {p : Packet Buffer} (h : 499 < p.payload.payload.length) :
    s.receiveFrom build w p.wire = .ok (none, s.close) := by
  have hlong : bufferMax < p.wire.length := by
    rw [p.wire_length, bufferMax]
    omega
  rw [Socket.receiveFrom, hw.recvfrom_long _ _ hlong]

@[simp] theorem Message.packet_payload (m : Message) : m.packet.payload = m.data := by
  simp [Message.packet, Packet.make, Packet.setFlags]

/-- Whatever the state of the connection when a message is scheduled and when
its packet is popped, the packet arrives at the other end exactly if the message
has at most `499` bytes. -/
theorem sent_message_transfers_iff (build : Build) (w : Winsock) (hw : w.Sends) (m : Message)
    (c c' : Connection Buffer) (rest : List (Packet Buffer))
    (hready : c'.outgoing.readyPackets = c.scheduledPacket m.packet :: rest) :
    ∃ p c'', c'.popReadyOutgoingPacket = some (p, c'') ∧
      (Transfers build w p ↔ m.data.payload.length ≤ 499) := by
  refine ⟨_, _, Connection.popReadyOutgoingPacket_eq_some_iff.mpr ⟨_, rest, hready, rfl, rfl⟩, ?_⟩
  rw [transfers_iff_length hw]
  simp

def Winsock.datagrams : Winsock where
  sendto bytes length :=
    if 0 ≤ length ∧ length ≤ 65507 then some (bytes.take length.toNat) else none
  recvfrom datagram size := if datagram.length ≤ size then some datagram else none

theorem Winsock.datagrams_sends : datagrams.Sends := by
  refine ⟨⟨?_, ?_⟩, ?_⟩
  · intro datagram size h
    exact if_pos h
  · intro datagram size h
    exact if_neg (Nat.not_le.mpr h)
  · intro bytes h
    rw [bufferMax] at h
    have hrange : (0 : ℤ) ≤ bytes.length ∧ (bytes.length : ℤ) ≤ 65507 := by omega
    simp [datagrams, hrange]

theorem sent_message_transfers_short :
    ∃ p c', ((Connection.fresh {}).schedule
        (Message.packet { data := ⟨[1, 2, 3]⟩ })).popReadyOutgoingPacket = some (p, c') ∧
      Transfers .release .datagrams p := by
  obtain ⟨p, c', hpop, hiff⟩ := sent_message_transfers_iff .release .datagrams
    Winsock.datagrams_sends { data := ⟨[1, 2, 3]⟩ } (.fresh {})
    ((Connection.fresh {}).schedule (Message.packet { data := ⟨[1, 2, 3]⟩ })) [] rfl
  exact ⟨p, c', hpop, hiff.mpr (by decide)⟩

theorem sendTo_datagrams (s : Socket) {bytes : List UInt8} (h : bytes.length ≤ 65507) :
    s.sendTo .datagrams ⟨bytes⟩ = (some bytes, s) := by
  have hlength : Buffer.length ⟨bytes⟩ = bytes.length := int32_of_lt (by dsimp only; omega)
  have hsendto : Winsock.datagrams.sendto bytes bytes.length = some bytes := by
    have hrange : (0 : ℤ) ≤ bytes.length ∧ (bytes.length : ℤ) ≤ 65507 := by omega
    simp [Winsock.datagrams, hrange]
  rw [Socket.sendTo, hlength, hsendto]

theorem long_message_closes_socket (build : Build) (c : Connection Buffer) (m : Message)
    (hready : c.outgoing.readyPackets = []) (hlong : 499 < m.data.payload.length)
    (hmax : m.data.payload.length ≤ 65494) :
    ∃ p c', (c.schedule m.packet).popReadyOutgoingPacket = some (p, c') ∧
      ¬ Transfers build .datagrams p ∧
      (Buffer.writePacket p).run {} = .ok ((), ⟨p.wire⟩) ∧
      Socket.sendTo .datagrams {} ⟨p.wire⟩ = (some p.wire, {}) ∧
      Socket.receiveFrom build .datagrams {} p.wire = .ok (none, { isValid := false }) := by
  obtain ⟨p, c', hpop, hlen⟩ : ∃ p c', (c.schedule m.packet).popReadyOutgoingPacket =
      some (p, c') ∧ p.payload.payload.length = m.data.payload.length :=
    ⟨_, _, Connection.popReadyOutgoingPacket_eq_some_iff.mpr
      ⟨c.scheduledPacket m.packet, [], by simp [hready], rfl, rfl⟩, by simp⟩
  have hwire := p.wire_length
  refine ⟨p, c', hpop, ?_, ?_, ?_, ?_⟩
  · rw [transfers_iff_length Winsock.datagrams_sends]
    omega
  · exact Buffer.appends_writePacket (by omega) {} (by simp [vectorMax]; omega)
  · apply sendTo_datagrams
    omega
  · exact receiveFrom_of_long Winsock.datagrams_sends.toDocumented build {} (by omega)

theorem message_of_500_closes_socket :
    ∃ p c', ((Connection.fresh {}).schedule
        (Message.packet { data := ⟨List.replicate 500 0⟩ })).popReadyOutgoingPacket =
          some (p, c') ∧
      ¬ Transfers .release .datagrams p ∧
      Socket.receiveFrom .release .datagrams {} p.wire = .ok (none, { isValid := false }) := by
  have hlen : (List.replicate 500 (0 : UInt8)).length = 500 := List.length_replicate
  obtain ⟨p, c', hpop, htransfers, -, -, hclosed⟩ := long_message_closes_socket .release
    (.fresh {}) { data := ⟨List.replicate 500 0⟩ } rfl (by rw [hlen]; decide)
    (by rw [hlen]; decide)
  exact ⟨p, c', hpop, htransfers, hclosed⟩

end GioNet
