import GioNet.Copies

/-!
# Every copy is accounted for

What a header on its way reports has arrived, and a reliable packet that is
queued or in flight is still stored by its sender or has arrived. Both hold
for streams of any length: ids are reused, but a receiver never forgets one.
-/

namespace GioNet

open Packet (invalidId maxPossibleId)

variable {β : Type}

namespace Connection

variable {c c' : Connection β} {p : Packet β} {build : Build}

theorem received_hasReceivedPacket (h : c.received build p = .ok c') (id : IdType) :
    c'.hasReceivedPacket id = (p.isReliable && decide (id = p.id) || c.hasReceivedPacket id) := by
  cases hrel : p.isReliable with
  | false =>
      rw [received_of_unreliable build c hrel] at h
      obtain rfl := Except.ok.inj h
      simp [hasReceivedPacket]
  | true =>
      obtain ⟨-, ps, -, -, rfl⟩ := (received_eq_ok_iff_of_reliable hrel).mp h
      simp [hasReceivedPacket, afterReliable, deliver, PartialMap.contains_insert]

end Connection

namespace Stream

/-- The packet is unreliable, stored by the sender, or has reached the receiver. -/
def Backed (v : Stream β) (p : Packet β) : Prop :=
  p.isReliable = true → v.outgoing.reliablePackets.contains p.id = true ∨
    v.incoming.reliablePackets.contains p.id = true

def Reported (v : Stream β) (q : Packet β) : Prop :=
  ∀ id, q.Acks id → id ≠ invalidId → v.incoming.reliablePackets.contains id = true

structure Accounted (v : Stream β) : Prop where
  ackId : v.ackId ≠ invalidId → v.incoming.reliablePackets.contains v.ackId = true
  headers : ∀ q ∈ v.headers, v.Reported q
  queued : ∀ p ∈ v.outgoing.readyPackets, v.Backed p
  inFlight : ∀ p ∈ v.inFlight, v.Backed p

theorem Backed.mono {v v' : Stream β} {p : Packet β} (h : v.Backed p)
    (hstored : v.outgoing.reliablePackets.contains p.id = true →
      v'.outgoing.reliablePackets.contains p.id = true)
    (harrived : v.incoming.reliablePackets.contains p.id = true →
      v'.incoming.reliablePackets.contains p.id = true) : v'.Backed p :=
  fun hrel ↦ (h hrel).imp hstored harrived

namespace Accounted

variable {v : Stream β}

theorem schedule (h : v.Accounted) (p : Packet β) {c : Connection β}
    (hc : c.outgoing = v.outgoing) (scheduled : List (Packet β)) :
    Accounted { v with outgoing := (c.schedule p).outgoing, scheduled := scheduled } := by
  have hstored : ∀ id, v.outgoing.reliablePackets.contains id = true →
      (c.schedule p).outgoing.reliablePackets.contains id = true := by
    intro id hid
    cases hrel : p.isReliable with
    | false => simpa [Connection.schedule_of_unreliable hrel, hc] using hid
    | true => simp [Connection.schedule_of_reliable hrel, PartialMap.contains_insert, hc, hid]
  refine ⟨h.ackId, h.headers, ?_, ?_⟩
  · intro q hq
    rw [Connection.schedule_readyPackets, hc, List.mem_append, List.mem_singleton] at hq
    rcases hq with hq | rfl
    · exact (h.queued q hq).mono (hstored _) id
    · intro hrel
      rw [Connection.scheduledPacket_isReliable] at hrel
      left
      rw [Connection.scheduledPacket_id c hrel]
      simp [Connection.schedule_of_reliable hrel, PartialMap.contains_insert]
  · intro q hq
    exact (h.inFlight q hq).mono (hstored _) id

theorem send (h : v.Accounted) {p : Packet β} {rest : List (Packet β)} {ackId : IdType}
    {bits : AckBitsetType} (hready : v.outgoing.readyPackets = p :: rest) :
    Accounted { v with
      outgoing := { v.outgoing with readyPackets := rest }
      inFlight := v.inFlight ++ [{ p with ackId := ackId, ackBitset := bits }] } := by
  refine ⟨h.ackId, h.headers, ?_, ?_⟩
  · intro q hq
    exact h.queued q (hready ▸ List.mem_cons_of_mem p hq)
  · intro q hq
    rcases List.mem_append.mp hq with hq | hq
    · exact h.inFlight q hq
    · obtain rfl := List.mem_singleton.mp hq
      exact h.queued p (hready ▸ List.mem_cons_self)

/-- What a reported header makes the sender forget has arrived. -/
theorem backed_of_acks (h : v.Accounted) {q : Packet β} {c : Connection β}
    (hc : c.outgoing = v.outgoing) (hq : q ∈ v.headers) {p : Packet β}
    (hgenuine : Genuine v.scheduled p) (hp : v.Backed p) :
    Backed { v with outgoing := (c.processAcks q).outgoing } p := by
  classical
  intro hrel
  by_cases hacks : q.Acks p.id
  · exact .inr (h.headers q hq _ hacks (hgenuine.id_ne hrel))
  · refine (hp hrel).imp_left fun hstored ↦ ?_
    simpa only [PartialMap.contains, Connection.processAcks_find, if_neg hacks, hc] using hstored

theorem acks (h : v.Accounted) (hcopies : v.Copies) {q : Packet β} {c : Connection β}
    (hc : c.outgoing = v.outgoing) (hq : q ∈ v.headers) :
    Accounted { v with outgoing := (c.processAcks q).outgoing } := by
  refine ⟨h.ackId, h.headers, ?_, ?_⟩
  · intro p hp
    rw [Connection.processAcks_readyPackets, hc, List.mem_append] at hp
    rcases hp with hp | hp
    · exact h.backed_of_acks hc hq (hcopies.queued p hp) (h.queued p hp)
    · obtain ⟨i, -, -, hfind⟩ := Connection.mem_rescheduled.mp hp
      rw [hc] at hfind
      obtain ⟨hid, -, hgenuine⟩ := hcopies.stored _ p hfind
      refine h.backed_of_acks hc hq hgenuine fun _ ↦ .inl ?_
      rw [hid]
      exact PartialMap.contains_iff.mpr ⟨p, hfind⟩
  · intro p hp
    exact h.backed_of_acks hc hq (hcopies.inFlight p hp) (h.inFlight p hp)

theorem arrive {build : Build} (h : v.Accounted) (hcopies : v.Copies) {p : Packet β}
    {c c' : Connection β} (hin : c.incoming = v.incoming) (hack : c.currentAckId = v.ackId)
    (hp : p ∈ v.inFlight) (hreceived : c.received build p = .ok c') :
    Accounted { v with
      incoming := c'.incoming
      ackId := c'.currentAckId
      received := v.received ++ [p] } := by
  have hknown : ∀ id, c'.incoming.reliablePackets.contains id =
      (p.isReliable && decide (id = p.id) || v.incoming.reliablePackets.contains id) :=
    fun id ↦ hin ▸ Connection.received_hasReceivedPacket hreceived id
  have hmono : ∀ id, v.incoming.reliablePackets.contains id = true →
      c'.incoming.reliablePackets.contains id = true := by
    intro id hid
    rw [hknown, hid, Bool.or_true]
  refine ⟨?_, fun q hq id hacks hne ↦ hmono id (h.headers q hq id hacks hne),
    fun q hq ↦ (h.queued q hq).mono id (hmono _), fun q hq ↦ (h.inFlight q hq).mono id (hmono _)⟩
  intro hne
  dsimp only at hne ⊢
  cases hrel : p.isReliable with
  | false =>
      rw [Connection.received_of_unreliable build c hrel] at hreceived
      obtain rfl := Except.ok.inj hreceived
      simp only [Connection.processAcks_currentAckId, hack] at hne ⊢
      exact hmono _ (h.ackId hne)
  | true =>
      obtain ⟨ps, -, rfl⟩ := hcopies.received hin hp hrel hreceived
      change (c.afterReliable p ps).incoming.reliablePackets.contains
        (Connection.latestId c.currentAckId p.id) = true
      rcases Connection.latestId_eq_or c.currentAckId p.id with hnew | ⟨hold, hne'⟩
      · rw [hknown, hnew, hrel, decide_eq_true rfl]
        simp
      · rw [hold, hack] at *
        exact hmono _ (h.ackId hne')

theorem header (h : v.Accounted) (q : Packet β) :
    Accounted { v with headers := v.headers ++ [{ q with
      ackId := v.ackId
      ackBitset := Connection.ackBitsOf v.incoming.reliablePackets v.ackId }] } := by
  refine ⟨h.ackId, ?_, h.queued, h.inFlight⟩
  intro q' hq'
  rcases List.mem_append.mp hq' with hq' | hq'
  · exact h.headers q' hq'
  · obtain rfl := List.mem_singleton.mp hq'
    rintro id (rfl | ⟨i, hi, rfl, hbit⟩) hne
    · exact h.ackId hne
    · rwa [Packet.ackBit_of_ackBitsOf rfl hi] at hbit

theorem step {build : Build} {v' : Stream β} {e : Event β} (h : v.Accounted)
    (hcopies : v.Copies) (hstep : Step build v e v') : v'.Accounted := by
  cases hstep with
  | idle => exact h
  | schedule p c hc => exact h.schedule p hc _
  | send p rest ackId bits hready => exact h.send hready
  | acks q c hc hq => exact h.acks hcopies hc hq
  | arrive p c c' hin hack hp hreceived => exact h.arrive hcopies hin hack hp hreceived
  | header q => exact h.header q
  | consume p rest hready => exact ⟨h.ackId, h.headers, h.queued, h.inFlight⟩
  | drop inFlight headers hsub hsub' =>
      exact ⟨h.ackId, fun q hq ↦ h.headers q (hsub' hq), h.queued,
        fun p hp ↦ h.inFlight p (hsub hp)⟩

end Accounted

end Stream

namespace Link

theorem accounted_fresh (address : Side → NetAddress) (s : Side) :
    ((fresh address : Link β).stream s).Accounted := by
  refine ⟨fun h ↦ absurd rfl h, ?_, ?_, ?_⟩
  · intro q hq
    simp [stream, fresh] at hq
  · intro p hp
    simp [stream, fresh, Connection.fresh] at hp
  · intro p hp
    simp [stream, fresh] at hp

theorem Reachable.accounted {build : Build} {address : Side → NetAddress} {l : Link β}
    (h : Reachable build address l) (s : Side) : (l.stream s).Accounted :=
  (LabelledRun.Reaches.invariant
    (fun l ↦ (l.stream s).Copies ∧ (l.stream s).Accounted) h
    ⟨copies_fresh address s, accounted_fresh address s⟩
    fun _ _ _ ⟨hcopies, haccounted⟩ hstep ↦
      ⟨hcopies.step (hstep.stream s), haccounted.step hcopies (hstep.stream s)⟩).2

end Link

end GioNet
