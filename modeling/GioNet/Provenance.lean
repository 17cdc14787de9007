import GioNet.Stream

/-!
# What holds of everything that is scheduled

The connection code looks at ids, flags and acks only and never makes a packet of
its own. So a property that does not depend on the id and the acks holds of all
packets of a direction, wherever they are, if it holds of those that are scheduled.
-/

namespace GioNet

variable {β : Type}

/-- The property does not depend on what the connection code writes. -/
def Packet.Steady (P : Packet β → Prop) : Prop :=
  ∀ p id ackId bits, P p → P { p with id := id, ackId := ackId, ackBitset := bits }

namespace Stream

structure Holds (P : Packet β → Prop) (v : Stream β) : Prop where
  queued : ∀ p ∈ v.outgoing.readyPackets, P p
  stored : ∀ id p, v.outgoing.reliablePackets.find id = some p → P p
  inFlight : ∀ p ∈ v.inFlight, P p
  buffered : ∀ id p, v.incoming.reliablePackets.find id = some p → P p
  ready : ∀ p ∈ v.incoming.readyPackets, P p
  consumed : ∀ p ∈ v.consumed, P p

namespace Holds

variable {P Q : Packet β → Prop} {v v' : Stream β} {build : Build} {e : Event β}

theorem mono (h : v.Holds P) (himp : ∀ p, P p → Q p) : v.Holds Q :=
  ⟨fun p hp ↦ himp p (h.queued p hp), fun id p hp ↦ himp p (h.stored id p hp),
    fun p hp ↦ himp p (h.inFlight p hp), fun id p hp ↦ himp p (h.buffered id p hp),
    fun p hp ↦ himp p (h.ready p hp), fun p hp ↦ himp p (h.consumed p hp)⟩

theorem schedule (h : v.Holds P) (hsteady : Packet.Steady P) {p : Packet β} (hp : P p)
    {c : Connection β} (hc : c.outgoing = v.outgoing) (scheduled : List (Packet β)) :
    Holds P { v with outgoing := (c.schedule p).outgoing, scheduled := scheduled } := by
  have hnew : P (c.scheduledPacket p) := by
    unfold Connection.scheduledPacket
    split
    · exact hsteady p _ p.ackId p.ackBitset hp
    · exact hp
  refine ⟨?_, ?_, h.inFlight, h.buffered, h.ready, h.consumed⟩
  · intro q hq
    rw [Connection.schedule_readyPackets, hc, List.mem_append, List.mem_singleton] at hq
    rcases hq with hq | heq
    · exact h.queued q hq
    · exact heq ▸ hnew
  · intro id q hq
    cases hrel : p.isReliable with
    | false =>
        rw [Connection.schedule_of_unreliable hrel, hc] at hq
        exact h.stored id q hq
    | true =>
        rw [Connection.schedule_of_reliable hrel, PartialMap.find_insert, hc] at hq
        split at hq
        · exact Option.some.inj hq ▸ hnew
        · exact h.stored id q hq

theorem send (h : v.Holds P) (hsteady : Packet.Steady P) {p : Packet β} {rest : List (Packet β)}
    (ackId : IdType) (bits : AckBitsetType) (hready : v.outgoing.readyPackets = p :: rest) :
    Holds P { v with
      outgoing := { v.outgoing with readyPackets := rest }
      inFlight := v.inFlight ++ [{ p with ackId := ackId, ackBitset := bits }] } := by
  refine ⟨?_, h.stored, ?_, h.buffered, h.ready, h.consumed⟩
  · intro q hq
    exact h.queued q (hready ▸ List.mem_cons_of_mem p hq)
  · intro q hq
    rcases List.mem_append.mp hq with hq | hq
    · exact h.inFlight q hq
    · rw [List.mem_singleton.mp hq]
      exact hsteady p p.id ackId bits (h.queued p (hready ▸ List.mem_cons_self))

theorem acks (h : v.Holds P) (q : Packet β) {c : Connection β} (hc : c.outgoing = v.outgoing) :
    Holds P { v with outgoing := (c.processAcks q).outgoing } := by
  refine ⟨?_, ?_, h.inFlight, h.buffered, h.ready, h.consumed⟩
  · intro p hp
    rw [Connection.processAcks_readyPackets, hc, List.mem_append] at hp
    rcases hp with hp | hp
    · exact h.queued p hp
    · obtain ⟨i, -, -, hfind⟩ := Connection.mem_rescheduled.mp hp
      exact h.stored _ p (hc ▸ hfind)
  · intro id p hp
    exact h.stored id p (hc ▸ (Connection.processAcks_find_some hp).2)

theorem arrive (h : v.Holds P) {p : Packet β} {c c' : Connection β}
    (hin : c.incoming = v.incoming) (hp : p ∈ v.inFlight)
    (hreceived : c.received build p = .ok c') :
    Holds P { v with
      incoming := c'.incoming
      ackId := c'.currentAckId
      received := v.received ++ [p] } := by
  have hnew := h.inFlight p hp
  cases hrel : p.isReliable with
  | false =>
      rw [Connection.received_of_unreliable build c hrel] at hreceived
      obtain rfl := Except.ok.inj hreceived
      refine ⟨h.queued, h.stored, h.inFlight, hin ▸ h.buffered, ?_, h.consumed⟩
      intro q hq
      rcases List.mem_append.mp hq with hq | hq
      · exact h.ready q (hin ▸ hq)
      · exact List.mem_singleton.mp hq ▸ hnew
  | true =>
      obtain ⟨-, ps, -, hps, rfl⟩ :=
        (Connection.received_eq_ok_iff_of_reliable hrel).mp hreceived
      have hmap : ∀ id q, (c.incoming.reliablePackets.insert p.id p).find id = some q → P q := by
        intro id q hq
        rw [PartialMap.find_insert] at hq
        split at hq
        · exact Option.some.inj hq ▸ hnew
        · exact h.buffered id q (hin ▸ hq)
      refine ⟨h.queued, h.stored, h.inFlight, hmap, ?_, h.consumed⟩
      intro q hq
      rcases List.mem_append.mp hq with hq | hq
      · exact h.ready q (hin ▸ hq)
      · exact hps.forall_mem hmap q hq

theorem consume (h : v.Holds P) {p : Packet β} {rest : List (Packet β)}
    (hready : v.incoming.readyPackets = p :: rest) :
    Holds P { v with
      incoming := { v.incoming with readyPackets := rest }
      consumed := v.consumed ++ [p] } := by
  refine ⟨h.queued, h.stored, h.inFlight, h.buffered, ?_, ?_⟩
  · intro q hq
    exact h.ready q (hready ▸ List.mem_cons_of_mem p hq)
  · intro q hq
    rcases List.mem_append.mp hq with hq | hq
    · exact h.consumed q hq
    · rw [List.mem_singleton.mp hq]
      exact h.ready p (hready ▸ List.mem_cons_self)

theorem step (h : v.Holds P) (hsteady : Packet.Steady P) (hstep : Step build v e v')
    (hnew : ∀ p, e = .schedule p → P p) : v'.Holds P := by
  cases hstep with
  | idle => exact h
  | schedule p c hc => exact h.schedule hsteady (hnew p rfl) hc _
  | send p rest ackId bits hready => exact h.send hsteady ackId bits hready
  | acks q c hc hq => exact h.acks q hc
  | arrive p c c' hin hack hp hreceived => exact h.arrive hin hp hreceived
  | header q => exact ⟨h.queued, h.stored, h.inFlight, h.buffered, h.ready, h.consumed⟩
  | consume p rest hready => exact h.consume hready
  | drop inFlight headers hsub hsub' =>
      exact ⟨h.queued, h.stored, fun p hp ↦ h.inFlight p (hsub hp), h.buffered, h.ready,
        h.consumed⟩

end Holds

/-! ## What the reliable packets carry -/

/-- If reliable, the packet carries the payload of one of the scheduled packets. -/
def Stems (scheduled : List (Packet β)) (p : Packet β) : Prop :=
  p.isReliable = true → ∃ q ∈ scheduled, q.payload = p.payload

theorem stems_steady (scheduled : List (Packet β)) : Packet.Steady (Stems scheduled) :=
  fun _ _ _ _ h ↦ h

theorem Step.scheduled_subset {v v' : Stream β} {build : Build} {e : Event β}
    (h : Step build v e v') : v.scheduled ⊆ v'.scheduled := by
  cases h with
  | schedule p c hc =>
      dsimp only
      split
      · exact List.subset_append_left _ _
      · exact List.Subset.refl _
  | idle | send | acks | arrive | header | consume | drop => exact List.Subset.refl _

theorem Step.mem_scheduled {v v' : Stream β} {build : Build} {p : Packet β}
    (h : Step build v (.schedule p) v') (hrel : p.isReliable = true) : p ∈ v'.scheduled := by
  cases h with
  | schedule p c hc => simp [hrel]

theorem Holds.stems_step {v v' : Stream β} {build : Build} {e : Event β}
    (h : v.Holds (Stems v.scheduled)) (hstep : Step build v e v') :
    v'.Holds (Stems v'.scheduled) := by
  have hmore : v.Holds (Stems v'.scheduled) := by
    refine h.mono fun p hp hrel ↦ ?_
    obtain ⟨q, hq, hpayload⟩ := hp hrel
    exact ⟨q, hstep.scheduled_subset hq, hpayload⟩
  refine hmore.step (stems_steady _) hstep ?_
  rintro p rfl hrel
  exact ⟨p, hstep.mem_scheduled hrel, rfl⟩

end Stream

theorem Link.holds_fresh (P : Packet β → Prop) (address : Side → NetAddress) (s : Side) :
    ((fresh address : Link β).stream s).Holds P := by
  refine ⟨?_, ?_, ?_, ?_, ?_, ?_⟩ <;> simp [stream, fresh, Connection.fresh]

theorem Link.Reachable.stems {build : Build} {address : Side → NetAddress} {l : Link β}
    (h : Reachable build address l) (s : Side) :
    (l.stream s).Holds (Stream.Stems (l.stream s).scheduled) :=
  LabelledRun.Reaches.invariant (fun l ↦ (l.stream s).Holds (Stream.Stems (l.stream s).scheduled)) h
    (holds_fresh _ address s) fun _ _ _ hl hstep ↦ hl.stems_step (hstep.stream s)

end GioNet
