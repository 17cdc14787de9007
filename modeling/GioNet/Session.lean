import GioNet.Delivery
import GioNet.Library.Run

/-!
# One connection under any sequence of calls

Nothing is assumed about the other side: the packets passed to `Received` are
arbitrary. The lists beside the connection are history and are read by no step.
A pop from an empty queue changes nothing and is no step.
-/

namespace GioNet

open Packet (invalidId)

/-- The calls of a connection's member functions. -/
inductive Call (β : Type) where
  | schedule (p : Packet β)
  | popOutgoing
  | receive (p : Packet β)
  | popIncoming
  | setOutgoing (sequenceNumber : IdType)
  | setIncoming (sequenceNumber : IdType)

namespace Call

variable {β : Type}

def isSetter : Call β → Bool
  | .setOutgoing _ => true
  | .setIncoming _ => true
  | _ => false

/-- A reliable packet that is received has a valid id. -/
def ValidId : Call β → Prop
  | .receive p => p.isReliable = true → p.id ≠ invalidId
  | _ => True

end Call

/-- A packet put on `outgoing.readyPackets`: an original, put there by
`Schedule`, or a retransmission. -/
structure Queued (β : Type) where
  original : Bool
  packet : Packet β

structure Session (β : Type) where
  connection : Connection β
  /-- The packets passed to `Schedule`. -/
  scheduled : List (Packet β) := []
  /-- The packets passed to `Received`. -/
  received : List (Packet β) := []
  /-- The packets put on `outgoing.readyPackets`. -/
  queued : List (Queued β) := []
  /-- The packets that `PopReadyOutgoingPacket` has returned. -/
  popped : List (Packet β) := []
  /-- The packets that `PopReadyIncomingPacket` has returned. -/
  consumed : List (Packet β) := []

namespace Session

variable {β : Type}

def fresh (address : NetAddress) : Session β := { connection := .fresh address }

/-- The packets that `c'` has at the end of `outgoing.readyPackets` in addition to
those of `c`. -/
def appended (c c' : Connection β) : List (Packet β) :=
  c'.outgoing.readyPackets.drop c.outgoing.readyPackets.length

/-- The history of the queue when a call leaves the connection `c`. -/
def queue (s : Session β) (original : Bool) (c : Connection β) : List (Queued β) :=
  s.queued ++ (appended s.connection c).map fun p ↦ ⟨original, p⟩

inductive Step (build : Build) (s : Session β) : Call β → Session β → Prop
  | schedule (p : Packet β) :
      Step build s (.schedule p) { s with
        connection := s.connection.schedule p
        scheduled := s.scheduled ++ [p]
        queued := s.queue true (s.connection.schedule p) }
  | popOutgoing (p : Packet β) (c : Connection β)
      (hpop : s.connection.popReadyOutgoingPacket = some (p, c)) :
      Step build s .popOutgoing { s with connection := c, popped := s.popped ++ [p] }
  | receive (p : Packet β) (c : Connection β)
      (hreceived : s.connection.received build p = .ok c) :
      Step build s (.receive p) { s with
        connection := c
        received := s.received ++ [p]
        queued := s.queue false c }
  | popIncoming (p : Packet β) (c : Connection β)
      (hpop : s.connection.popReadyIncomingPacket = some (p, c)) :
      Step build s .popIncoming { s with connection := c, consumed := s.consumed ++ [p] }
  | setOutgoing (sequenceNumber : IdType) :
      Step build s (.setOutgoing sequenceNumber)
        { s with connection := s.connection.setOutgoingSequenceNumber sequenceNumber }
  | setIncoming (sequenceNumber : IdType) :
      Step build s (.setIncoming sequenceNumber)
        { s with connection := s.connection.setIncomingSequenceNumber sequenceNumber }

/-- The calls lead from a fresh connection to the session. -/
abbrev Run (build : Build) (address : NetAddress) (calls : List (Call β)) (s : Session β) :
    Prop :=
  LabelledRun.Run (Step build) (fresh address) calls s

theorem queue_schedule (s : Session β) (p : Packet β) :
    s.queue true (s.connection.schedule p) =
      s.queued ++ [⟨true, s.connection.scheduledPacket p⟩] := by
  simp [queue, appended]

theorem queue_received {build : Build} {s : Session β} {p : Packet β} {c : Connection β}
    (h : s.connection.received build p = .ok c) :
    s.queue false c = s.queued ++ (s.connection.rescheduled p sizeofAckBitset).map
      fun q ↦ ⟨false, q⟩ := by
  simp [queue, appended, Connection.received_outgoing h, Connection.processAcks_readyPackets]

end Session

end GioNet
