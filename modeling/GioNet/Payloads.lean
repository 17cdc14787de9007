import GioNet.Link
import Mathlib.Tactic.Simps.Basic

/-!
# Payloads are only moved

The connection code never looks into a payload: every operation commutes with a
change of the payloads. So a run may be read with each scheduled payload stamped
with the number of its message in the stream, which tells apart messages that
travel under the same id.
-/

namespace GioNet

variable {β γ : Type}

@[simps] def Packet.map (f : β → γ) (p : Packet β) : Packet γ where
  header := p.header
  id := p.id
  ackId := p.ackId
  ackBitset := p.ackBitset
  payload := f p.payload

@[simp] theorem Packet.isReliable_map (f : β → γ) (p : Packet β) :
    (p.map f).isReliable = p.isReliable := rfl

@[simps] def PacketStream.map (f : β → γ) (s : PacketStream β) : PacketStream γ where
  reliablePackets := s.reliablePackets.map (Packet.map f)
  readyPackets := s.readyPackets.map (Packet.map f)
  sequenceNumber := s.sequenceNumber

namespace Connection

@[simps] def map (f : β → γ) (c : Connection β) : Connection γ where
  address := c.address
  outgoing := c.outgoing.map f
  incoming := c.incoming.map f
  currentAckId := c.currentAckId

variable (f : β → γ) (c : Connection β) (p : Packet β)

@[simp] theorem scheduledPacket_map :
    (c.map f).scheduledPacket (p.map f) = (c.scheduledPacket p).map f := by
  unfold scheduledPacket
  rw [Packet.isReliable_map]
  split <;> rfl

theorem map_schedule : (c.schedule p).map f = (c.map f).schedule (p.map f) := by
  cases hrel : p.isReliable with
  | false =>
      have hrel' : (p.map f).isReliable = false := hrel
      rw [schedule_of_unreliable hrel, schedule_of_unreliable hrel']
      simp [map, PacketStream.map]
  | true =>
      have hrel' : (p.map f).isReliable = true := hrel
      rw [schedule_of_reliable hrel, schedule_of_reliable hrel', scheduledPacket_map]
      simp [map, PacketStream.map]

@[simp] theorem ackBits_map : (c.map f).ackBits = c.ackBits := by
  simp [ackBits, ackBitsOf]

theorem map_popReadyOutgoingPacket :
    (c.map f).popReadyOutgoingPacket =
      c.popReadyOutgoingPacket.map (Prod.map (Packet.map f) (map f)) := by
  unfold popReadyOutgoingPacket PacketStream.popNextReadyPacket
  cases hready : c.outgoing.readyPackets with
  | nil => simp [hready]
  | cons q rest =>
      simp only [map_outgoing, PacketStream.map_readyPackets, hready, List.map_cons,
        Option.map_some, addAckHeader_eq, Option.some.injEq]
      simp [map, PacketStream.map, Packet.map, ackBits, ackBitsOf]

theorem map_popReadyIncomingPacket :
    (c.map f).popReadyIncomingPacket =
      c.popReadyIncomingPacket.map (Prod.map (Packet.map f) (map f)) := by
  unfold popReadyIncomingPacket PacketStream.popNextReadyPacket
  cases hready : c.incoming.readyPackets with
  | nil => simp [hready]
  | cons q rest => simp [hready, map, PacketStream.map]

theorem map_packetAcked (id : IdType) :
    (c.packetAcked id).map f = (c.map f).packetAcked id := by
  simp [packetAcked, map, PacketStream.map]

theorem map_reschedulePacket (id : IdType) :
    (c.reschedulePacket id).map f = (c.map f).reschedulePacket id := by
  rw [reschedulePacket_eq, reschedulePacket_eq]
  cases h : c.outgoing.reliablePackets.find id <;> simp [map, PacketStream.map, h]

theorem map_processAcks : (c.processAcks p).map f = (c.map f).processAcks (p.map f) := by
  have hloop : ∀ count, (c.ackLoop p count).2.map f = ((c.map f).ackLoop (p.map f) count).2 := by
    intro count
    induction count with
    | zero => apply map_packetAcked
    | succ count ih =>
        rw [ackLoop_succ, ackLoop_succ, ← ih]
        change _ = if p.ackBit count then _ else _
        split
        · apply map_packetAcked
        · apply map_reschedulePacket
  apply hloop

theorem map_enqueueProcessablePackets :
    (c.map f).enqueueProcessablePackets = c.enqueueProcessablePackets.map (map f) := by
  have hbody : ∀ s : DeliveryLoop β,
      DeliveryLoop.body c.currentAckId ⟨s.nextExpectedPacketId, s.incoming.map f⟩ =
        (DeliveryLoop.body c.currentAckId s).map fun s ↦
          ⟨s.nextExpectedPacketId, s.incoming.map f⟩ := by
    intro s
    rw [body_eq, body_eq]
    dsimp only
    split
    · rfl
    · simp only [PacketStream.map_reliablePackets, PartialMap.find_map, Option.map_map]
      congr 1
      funext q
      simp [PacketStream.map]
  have hexec := BoundedLoop.exec_map (fun s : DeliveryLoop β ↦
    (⟨s.nextExpectedPacketId, s.incoming.map f⟩ : DeliveryLoop γ)) hbody deliveryBound
    ⟨c.incoming.sequenceNumber, c.incoming⟩
  simp only [enqueueProcessablePackets, getCurrentAckId, map_currentAckId, map_incoming,
    PacketStream.map_sequenceNumber, hexec]
  cases BoundedLoop.exec (DeliveryLoop.body c.currentAckId) deliveryBound
    ⟨c.incoming.sequenceNumber, c.incoming⟩ <;> rfl

theorem map_received (build : Build) :
    (c.map f).received build (p.map f) = (c.received build p).map (map f) := by
  cases hrel : p.isReliable with
  | false =>
      have hrel' : (p.map f).isReliable = false := hrel
      rw [received_of_unreliable build _ hrel, received_of_unreliable build _ hrel',
        ← map_processAcks]
      simp [Except.map, map, PacketStream.map]
  | true =>
      have hstore : (((c.map f).processAcks (p.map f)).updateAckId p.id).storeIncoming p.id
          (p.map f) = (((c.processAcks p).updateAckId p.id).storeIncoming p.id p).map f := by
        rw [← map_processAcks, updateAckId_eq, updateAckId_eq]
        simp [storeIncoming, map, PacketStream.map]
      simp only [received, Packet.isReliable_map, hrel, if_true, Packet.map_id, hstore]
      cases build.assert (p.id ≠ Packet.invalidId) with
      | error e => rfl
      | ok u => apply map_enqueueProcessablePackets

end Connection

@[simps] def Endpoint.map (f : β → γ) (e : Endpoint β) : Endpoint γ where
  connection := e.connection.map f
  scheduled := e.scheduled.map (Packet.map f)
  received := e.received.map (Packet.map f)
  consumed := e.consumed.map (Packet.map f)

theorem Endpoint.map_schedule (f : β → γ) (e : Endpoint β) (p : Packet β) :
    (e.schedule p).map f = (e.map f).schedule (p.map f) := by
  simp only [map, schedule, Connection.map_schedule, Packet.isReliable_map]
  rw [apply_ite (List.map (Packet.map f)), List.map_append, List.map_singleton]
  rfl

def Action.map (f : β → γ) : Action β → Action γ
  | .schedule s p => .schedule s (p.map f)
  | .pop s => .pop s
  | .receive s p => .receive s (p.map f)
  | .consume s => .consume s
  | .drop s i => .drop s i

/-- A payload with the number of its message in the stream. -/
structure Stamped (γ : Type) where
  number : ℕ
  body : γ
  deriving DecidableEq, Repr

namespace Link

@[simps] def map (f : β → γ) (l : Link β) : Link γ where
  endpoint s := (l.endpoint s).map f
  network s := (l.network s).map (Packet.map f)

@[simp] theorem map_setEndpoint (f : β → γ) (l : Link β) (s : Side) (e : Endpoint β) :
    (l.setEndpoint s e).map f = (l.map f).setEndpoint s (e.map f) := by
  simp only [map, setEndpoint, Link.mk.injEq, and_true]
  funext t
  rw [Function.update_apply, Function.update_apply, apply_ite (Endpoint.map f)]

@[simp] theorem map_setNetwork (f : β → γ) (l : Link β) (s : Side) (ps : List (Packet β)) :
    (l.setNetwork s ps).map f = (l.map f).setNetwork s (ps.map (Packet.map f)) := by
  simp only [map, setNetwork, Link.mk.injEq, true_and]
  funext t
  rw [Function.update_apply, Function.update_apply, apply_ite (List.map (Packet.map f))]

/-- A step that stamps the reliable packets it schedules with their numbers. -/
structure NumberedStep (build : Build) (l : Link (Stamped γ)) (a : Action (Stamped γ))
    (l' : Link (Stamped γ)) : Prop where
  step : Step build l a l'
  number : ∀ t p, a = .schedule t p → p.isReliable = true →
    p.payload.number = (l.endpoint t).scheduled.length + 1

theorem exists_numberedStep {build : Build} {l : Link (Stamped γ)} {a : Action γ} {m : Link γ}
    (h : Step build (l.map Stamped.body) a m) :
    ∃ a' l', NumberedStep build l a' l' ∧ a'.map Stamped.body = a ∧ l'.map Stamped.body = m := by
  cases h with
  | schedule s p =>
      let stamped : Packet (Stamped γ) :=
        p.map fun body ↦ ⟨(l.endpoint s).scheduled.length + 1, body⟩
      refine ⟨.schedule s stamped, _, ⟨.schedule s stamped, ?_⟩, rfl, ?_⟩
      · rintro t q hq -
        obtain ⟨rfl, rfl⟩ := (Action.schedule.injEq ..).mp hq
        rfl
      · rw [map_setEndpoint, Endpoint.map_schedule]
        rfl
  | pop s p c hpop =>
      rw [map_endpoint, Endpoint.map_connection, Connection.map_popReadyOutgoingPacket,
        Option.map_eq_some_iff] at hpop
      obtain ⟨⟨q, d⟩, hpop, heq⟩ := hpop
      obtain ⟨rfl, rfl⟩ := Prod.mk.inj heq
      refine ⟨.pop s, _, ⟨.pop s q d hpop, by simp⟩, rfl, ?_⟩
      simp [Endpoint.map]
  | receive s p c hmem hreceived =>
      obtain ⟨q, hq, rfl⟩ := List.mem_map.mp hmem
      rw [map_endpoint, Endpoint.map_connection, Connection.map_received] at hreceived
      cases hres : (l.endpoint s).connection.received build q with
      | error e =>
          rw [hres] at hreceived
          cases hreceived
      | ok d =>
          rw [hres] at hreceived
          obtain rfl := Except.ok.inj hreceived
          refine ⟨.receive s q, _, ⟨.receive s q d hq hres, by simp⟩, rfl, ?_⟩
          simp [Endpoint.map]
  | consume s p c hpop =>
      rw [map_endpoint, Endpoint.map_connection, Connection.map_popReadyIncomingPacket,
        Option.map_eq_some_iff] at hpop
      obtain ⟨⟨q, d⟩, hpop, heq⟩ := hpop
      obtain ⟨rfl, rfl⟩ := Prod.mk.inj heq
      refine ⟨.consume s, _, ⟨.consume s q d hpop, by simp⟩, rfl, ?_⟩
      simp [Endpoint.map]
  | drop s i =>
      refine ⟨.drop s i, _, ⟨.drop s i, by simp⟩, rfl, ?_⟩
      simp [List.eraseIdx_map]

/-- Every run is a numbered run without its stamps. -/
theorem exists_numbered_run {build : Build} {address : Side → NetAddress}
    {labels : List (Action γ)} {l : Link γ}
    (h : LabelledRun.Run (Step build) (fresh address) labels l) :
    ∃ labels' l', LabelledRun.Run (NumberedStep build) (fresh address) labels' l' ∧
      labels'.map (Action.map Stamped.body) = labels ∧ l'.map Stamped.body = l := by
  induction h with
  | nil => exact ⟨[], fresh address, .nil, rfl, rfl⟩
  | snoc run last ih =>
      obtain ⟨labels', l', hrun, rfl, rfl⟩ := ih
      obtain ⟨a', m', hlast, rfl, rfl⟩ := exists_numberedStep last
      exact ⟨labels' ++ [a'], m', hrun.snoc hlast, by simp, rfl⟩

end Link

end GioNet
