import GioNet.Core
import GioNet.Packet
import GioNet.Library.BoundedLoop
import GioNet.Library.PartialMap

/-!
# Connections

One endpoint of the reliability layer, function by function as in
`Connection.cpp`. That a call of a member function is one step is a choice of this
model: the streams' locks cover less (`PopReadyOutgoingPacket` has released
`outgoing.lock` when `AddAckHeader` reads what has been received). A member function
that may fault returns `Except`.
-/

namespace GioNet

open Packet (invalidId maxPossibleId)

/-- Information common to both directions. `reliablePackets` is the ordered map
from ids to packets, `readyPackets` the queue, oldest packet first. -/
structure PacketStream (β : Type) where
  reliablePackets : PartialMap IdType (Packet β) := .empty
  readyPackets : List (Packet β) := []
  sequenceNumber : IdType := invalidId

namespace PacketStream

variable {β : Type}

def popNextReadyPacket (s : PacketStream β) : Option (Packet β × PacketStream β) :=
  match s.readyPackets with
  | [] => none
  | packet :: rest => some (packet, { s with readyPackets := rest })

def push (s : PacketStream β) (packet : Packet β) : PacketStream β :=
  { s with readyPackets := s.readyPackets ++ [packet] }

end PacketStream

structure Connection (β : Type) where
  address : NetAddress := {}
  outgoing : PacketStream β := {}
  incoming : PacketStream β := {}
  currentAckId : IdType := invalidId

namespace Connection

variable {β : Type}

def fresh (address : NetAddress) : Connection β := { address := address }

/-! ## Outgoing packets -/

def getIndexForNextPacket (c : Connection β) : IdType × Connection β :=
  let skipped :=
    if c.outgoing.sequenceNumber = maxPossibleId then c.outgoing.sequenceNumber + 1
    else c.outgoing.sequenceNumber
  let index := skipped + 1
  (index, { c with outgoing := { c.outgoing with sequenceNumber := index } })

def schedule (c : Connection β) (packet : Packet β) : Connection β :=
  if packet.hasFlags .reliable then
    let (index, c) := c.getIndexForNextPacket
    let packet := { packet with id := index }
    let stored := { c.outgoing with
      reliablePackets := c.outgoing.reliablePackets.insert index packet }
    { c with outgoing := stored.push packet }
  else
    { c with outgoing := c.outgoing.push packet }

def getCurrentAckId (c : Connection β) : IdType := c.currentAckId

def hasReceivedPacket (c : Connection β) (id : IdType) : Bool :=
  c.incoming.reliablePackets.contains id

def addAckHeader (c : Connection β) (packet : Packet β) : Packet β :=
  let ackCount := sizeofAckBitset
  (List.range ackCount).foldl
    (fun packet i ↦
      let offset := UInt16.ofNat i + 1
      let id := packet.ackId - offset
      if c.hasReceivedPacket id then
        { packet with ackBitset := packet.ackBitset ||| (1 <<< UInt32.ofNat i) }
      else packet)
    { packet with ackId := c.getCurrentAckId, ackBitset := 0 }

def popReadyOutgoingPacket (c : Connection β) : Option (Packet β × Connection β) :=
  match c.outgoing.popNextReadyPacket with
  | none => none
  | some (packet, outgoing) =>
      let c := { c with outgoing := outgoing }
      some (c.addAckHeader packet, c)

def setOutgoingSequenceNumber (c : Connection β) (sequenceNumber : IdType) : Connection β :=
  { c with outgoing := { c.outgoing with sequenceNumber := sequenceNumber } }

/-! ## Incoming packets -/

/-- `MaxPossibleId / 2`. -/
def halfId : IdType := maxPossibleId / 2

def updateAckId (c : Connection β) (newId : IdType) : Connection β :=
  let currentId := c.currentAckId
  if currentId = invalidId then { c with currentAckId := newId }
  else
    let newIdIsGreater : Bool := ¬currentId > newId
    let distance := if currentId > newId then currentId - newId else newId - currentId
    if (distance < halfId ∧ newIdIsGreater) ∨ (distance > halfId ∧ ¬newIdIsGreater) then
      { c with currentAckId := newId }
    else c

/-- The local variable and the stream that the delivery loop works on. -/
structure DeliveryLoop (β : Type) where
  nextExpectedPacketId : IdType
  incoming : PacketStream β

/-- One iteration of the loop of `EnqueueProcessablePackets`; `none` is the end
of the loop, by its condition or by `break`. -/
def DeliveryLoop.body (latestReceivedPacketId : IdType) (s : DeliveryLoop β) :
    Option (DeliveryLoop β) :=
  if s.nextExpectedPacketId ≠ latestReceivedPacketId then
    let next := s.nextExpectedPacketId + 1
    let next := if next = invalidId then next + 1 else next
    match s.incoming.reliablePackets.find next with
    | none => none
    | some nextPacket =>
        some ⟨next, { s.incoming with sequenceNumber := next }.push nextPacket⟩
  else none

/-- The number of tests of its condition after which the delivery loop is known
never to end: the ids walked through repeat. -/
def deliveryBound : ℕ := 65536

def enqueueProcessablePackets (c : Connection β) : Except Fault (Connection β) :=
  match BoundedLoop.exec (DeliveryLoop.body c.getCurrentAckId) deliveryBound
      ⟨c.incoming.sequenceNumber, c.incoming⟩ with
  | some s => .ok { c with incoming := s.incoming }
  | none => .error .endlessLoop

def packetAcked (c : Connection β) (id : IdType) : Connection β :=
  { c with outgoing := { c.outgoing with
      reliablePackets := c.outgoing.reliablePackets.erase id } }

def reschedulePacket (c : Connection β) (id : IdType) : Connection β :=
  match c.outgoing.reliablePackets.find id with
  | some packet => { c with outgoing := c.outgoing.push packet }
  | none => c

def processAcks (c : Connection β) (packet : Packet β) : Connection β :=
  let iterations := sizeofAckBitset
  let loop := (List.range iterations).foldl
    (fun (id, c) i ↦
      let id := id - 1
      let isPacketAcked : Bool := (packet.ackBitset &&& (1 <<< UInt32.ofNat i)) ≠ 0
      if isPacketAcked then (id, c.packetAcked id) else (id, c.reschedulePacket id))
    (packet.ackId, c.packetAcked packet.ackId)
  loop.2

/-- `incoming.reliablePackets[id] = packet`. -/
def storeIncoming (c : Connection β) (id : IdType) (packet : Packet β) : Connection β :=
  { c with incoming := { c.incoming with
      reliablePackets := c.incoming.reliablePackets.insert id packet } }

def received (build : Build) (c : Connection β) (packet : Packet β) :
    Except Fault (Connection β) := do
  let c := c.processAcks packet
  if packet.hasFlags .reliable then
    build.assert (packet.id ≠ invalidId)
    let packetId := packet.id
    let c := (c.updateAckId packetId).storeIncoming packetId packet
    c.enqueueProcessablePackets
  else
    return { c with incoming := c.incoming.push packet }

def popReadyIncomingPacket (c : Connection β) : Option (Packet β × Connection β) :=
  match c.incoming.popNextReadyPacket with
  | none => none
  | some (packet, incoming) => some (packet, { c with incoming := incoming })

def setIncomingSequenceNumber (c : Connection β) (sequenceNumber : IdType) : Connection β :=
  { c with incoming := { c.incoming with sequenceNumber := sequenceNumber } }

end Connection

end GioNet
