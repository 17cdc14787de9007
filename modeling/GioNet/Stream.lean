import GioNet.Link

/-!
# One direction of a link

What matters for the messages that travel from one side to the other: the
sender's outgoing stream, the copies in flight, the receiver's incoming stream
and ack id, and the packets flowing back, whose headers carry the acks. Every
step of the link is one of the steps below for each of the two directions.
-/

namespace GioNet

open Packet (invalidId maxPossibleId)

structure Stream (β : Type) where
  outgoing : PacketStream β
  scheduled : List (Packet β)
  inFlight : List (Packet β)
  incoming : PacketStream β
  ackId : IdType
  received : List (Packet β)
  consumed : List (Packet β)
  headers : List (Packet β)

namespace Stream

variable {β : Type}

def deliveredReliable (v : Stream β) : List (Packet β) :=
  (v.consumed ++ v.incoming.readyPackets).filter Packet.isReliable

inductive Event (β : Type) where
  | idle
  | schedule (p : Packet β)
  | send
  | acks (q : Packet β)
  | arrive (p : Packet β)
  | header
  | consume
  | drop

inductive Step (build : Build) (v : Stream β) : Event β → Stream β → Prop
  | idle : Step build v .idle v
  | schedule (p : Packet β) (c : Connection β) (hc : c.outgoing = v.outgoing) :
      Step build v (.schedule p) { v with
        outgoing := (c.schedule p).outgoing
        scheduled := if p.isReliable then v.scheduled ++ [p] else v.scheduled }
  | send (p : Packet β) (rest : List (Packet β)) (ackId : IdType) (bits : AckBitsetType)
      (hready : v.outgoing.readyPackets = p :: rest) :
      Step build v .send { v with
        outgoing := { v.outgoing with readyPackets := rest }
        inFlight := v.inFlight ++ [{ p with ackId := ackId, ackBitset := bits }] }
  | acks (q : Packet β) (c : Connection β) (hc : c.outgoing = v.outgoing) (hq : q ∈ v.headers) :
      Step build v (.acks q) { v with outgoing := (c.processAcks q).outgoing }
  | arrive (p : Packet β) (c c' : Connection β) (hin : c.incoming = v.incoming)
      (hack : c.currentAckId = v.ackId) (hp : p ∈ v.inFlight)
      (hreceived : c.received build p = .ok c') :
      Step build v (.arrive p) { v with
        incoming := c'.incoming
        ackId := c'.currentAckId
        received := v.received ++ [p] }
  | header (q : Packet β) :
      Step build v .header { v with headers := v.headers ++ [{ q with
        ackId := v.ackId
        ackBitset := Connection.ackBitsOf v.incoming.reliablePackets v.ackId }] }
  | consume (p : Packet β) (rest : List (Packet β))
      (hready : v.incoming.readyPackets = p :: rest) :
      Step build v .consume { v with
        incoming := { v.incoming with readyPackets := rest }
        consumed := v.consumed ++ [p] }
  | drop (inFlight headers : List (Packet β)) (hsub : inFlight ⊆ v.inFlight)
      (hsub' : headers ⊆ v.headers) :
      Step build v .drop { v with inFlight := inFlight, headers := headers }

end Stream

namespace Link

variable {β : Type}

def stream (l : Link β) (s : Side) : Stream β where
  outgoing := (l.endpoint s).connection.outgoing
  scheduled := (l.endpoint s).scheduled
  inFlight := l.network s
  incoming := (l.endpoint s.other).connection.incoming
  ackId := (l.endpoint s.other).connection.currentAckId
  received := (l.endpoint s.other).received
  consumed := (l.endpoint s.other).consumed
  headers := l.network s.other

end Link

/-- What an action on a link is for the direction in which `s` is the sender. -/
def Action.event {β : Type} (s : Side) : Action β → Stream.Event β
  | .schedule t p => if t = s then .schedule p else .idle
  | .pop t => if t = s then .send else .header
  | .receive t p => if t = s then .acks p else .arrive p
  | .consume t => if t = s then .idle else .consume
  | .drop _ _ => .drop

theorem Action.event_eq_schedule {β : Type} {s : Side} {a : Action β} {p : Packet β}
    (h : a.event s = .schedule p) : a = .schedule s p := by
  cases a with
  | schedule t q =>
      by_cases ht : t = s
      · simp only [event, if_pos ht, Stream.Event.schedule.injEq] at h
        rw [ht, h]
      · simp [event, if_neg ht] at h
  | drop t i => cases h
  | pop t | receive t q | consume t => by_cases ht : t = s <;> simp [event, ht] at h

namespace Link

variable {β : Type}

theorem Step.stream {build : Build} {l l' : Link β} {a : Action β} (h : Step build l a l')
    (s : Side) : Stream.Step build (l.stream s) (a.event s) (l'.stream s) := by
  cases h with
  | schedule t p =>
      rcases Side.eq_or_eq_other t s with rfl | rfl
      · have hstep : Stream.Step build (l.stream t) (.schedule p) _ :=
          .schedule p (l.endpoint t).connection rfl
        simpa [Action.event, Link.stream, Endpoint.schedule] using hstep
      · have hstep : Stream.Step build (l.stream s) .idle _ := .idle
        simpa [Action.event, Link.stream, Endpoint.schedule] using hstep
  | pop t p c hpop =>
      obtain ⟨q, rest, hready, rfl, rfl⟩ := Connection.popReadyOutgoingPacket_eq_some_iff.mp hpop
      rcases Side.eq_or_eq_other t s with rfl | rfl
      · have hstep : Stream.Step build (l.stream t) .send _ :=
          .send q rest (l.endpoint t).connection.currentAckId
            (l.endpoint t).connection.ackBits hready
        simpa [Action.event, Link.stream] using hstep
      · have hstep : Stream.Step build (l.stream s) .header _ := .header q
        simpa [Action.event, Link.stream] using hstep
  | receive t p c hmem hreceived =>
      rcases Side.eq_or_eq_other t s with rfl | rfl
      · have hstep : Stream.Step build (l.stream t) (.acks p) _ :=
          .acks p (l.endpoint t).connection rfl hmem
        simpa [Action.event, Link.stream, Connection.received_outgoing hreceived] using hstep
      · have hstep : Stream.Step build (l.stream s) (.arrive p) _ :=
          .arrive p (l.endpoint s.other).connection c rfl rfl
            (by simpa [Link.stream] using hmem) hreceived
        simpa [Action.event, Link.stream] using hstep
  | consume t p c hpop =>
      obtain ⟨rest, hready, rfl⟩ := Connection.popReadyIncomingPacket_eq_some_iff.mp hpop
      rcases Side.eq_or_eq_other t s with rfl | rfl
      · have hstep : Stream.Step build (l.stream t) .idle _ := .idle
        simpa [Action.event, Link.stream] using hstep
      · have hstep : Stream.Step build (l.stream s) .consume _ := .consume p rest hready
        simpa [Action.event, Link.stream] using hstep
  | drop t i =>
      have hsub := (List.eraseIdx_sublist (l.network t) i).subset
      rcases Side.eq_or_eq_other t s with rfl | rfl
      · have hstep : Stream.Step build (l.stream t) .drop _ :=
          .drop _ _ hsub (List.Subset.refl _)
        simpa [Action.event, Link.stream] using hstep
      · have hstep : Stream.Step build (l.stream s) .drop _ :=
          .drop _ _ (List.Subset.refl _) hsub
        simpa [Action.event, Link.stream] using hstep

end Link

end GioNet
