import GioNet.Session

/-!
# What a connection sends

The packets that leave a connection, and those that wait to, are the scheduled
packets in their order, with retransmissions in between. A retransmission is a
copy of the reliable packet scheduled last under its id. Nothing that is
received removes, alters or reorders an original.
-/

namespace GioNet

open Packet (invalidId)

variable {β : Type}

/-- The packet without its ack fields, which `AddAckHeader` writes when it is popped. -/
def Packet.withoutAcks (p : Packet β) : Packet β := { p with ackId := invalidId, ackBitset := 0 }

@[simp] theorem Packet.withoutAcks_setAcks (p : Packet β) (ackId : IdType)
    (bits : AckBitsetType) :
    ({ p with ackId := ackId, ackBitset := bits } : Packet β).withoutAcks = p.withoutAcks := rfl

namespace Queued

/-- An original that `id` was given to. -/
def IsUnder (e : Queued β) (id : IdType) : Bool :=
  e.original && e.packet.isReliable && e.packet.id == id

/-- The reliable packet scheduled last under the id. -/
def latestUnder (queued : List (Queued β)) (id : IdType) : Option (Packet β) :=
  ((queued.filter (·.IsUnder id)).map (·.packet)).getLast?

theorem latestUnder_snoc_of_isUnder (queued : List (Queued β)) {e : Queued β} {id : IdType}
    (h : e.IsUnder id = true) : latestUnder (queued ++ [e]) id = some e.packet := by
  simp [latestUnder, h]

theorem latestUnder_snoc_of_not (queued : List (Queued β)) {e : Queued β} {id : IdType}
    (h : e.IsUnder id = false) : latestUnder (queued ++ [e]) id = latestUnder queued id := by
  simp [latestUnder, h]

theorem latestUnder_append_copies (queued : List (Queued β)) (ps : List (Packet β))
    (id : IdType) :
    latestUnder (queued ++ ps.map fun p ↦ ⟨false, p⟩) id = latestUnder queued id := by
  have hnone : (ps.map fun p ↦ (⟨false, p⟩ : Queued β)).filter (·.IsUnder id) = [] := by
    apply List.filter_eq_nil_iff.mpr
    intro e he
    obtain ⟨p, -, rfl⟩ := List.mem_map.mp he
    simp [IsUnder]
  simp only [latestUnder, List.filter_append, hnone, List.append_nil]

theorem isUnder_of_latestUnder {queued : List (Queued β)} {id : IdType} {p : Packet β}
    (h : latestUnder queued id = some p) : ∃ e ∈ queued, e.IsUnder id = true ∧ e.packet = p := by
  obtain ⟨e, he, hp⟩ := List.mem_map.mp (List.mem_of_getLast? h)
  obtain ⟨hmem, hunder⟩ := List.mem_filter.mp he
  exact ⟨e, hmem, hunder, hp⟩

/-- Each retransmission is a copy of the packet scheduled last under its id when
it was queued. -/
def Retransmits (queued : List (Queued β)) : Prop :=
  ∀ before p after, queued = before ++ ⟨false, p⟩ :: after →
    latestUnder before p.id = some p

theorem retransmits_nil : Retransmits ([] : List (Queued β)) := by
  intro before p after h
  simp at h

theorem Retransmits.snoc {queued : List (Queued β)} (h : Retransmits queued) {e : Queued β}
    (he : e.original = false → latestUnder queued e.packet.id = some e.packet) :
    Retransmits (queued ++ [e]) := by
  intro before p after heq
  rcases LabelledRun.snoc_eq_append_cons heq with ⟨rfl, rfl⟩ | ⟨after', rfl⟩
  · exact he rfl
  · exact h before p after' rfl

theorem Retransmits.append_copies {queued : List (Queued β)} (h : Retransmits queued)
    {ps : List (Packet β)} (hps : ∀ p ∈ ps, latestUnder queued p.id = some p) :
    Retransmits (queued ++ ps.map fun p ↦ ⟨false, p⟩) := by
  induction ps using List.reverseRecOn with
  | nil => simpa using h
  | append_singleton ps p ih =>
      have hprev := ih fun q hq ↦ hps q (List.mem_append_left _ hq)
      rw [List.map_append, List.map_singleton, ← List.append_assoc]
      apply hprev.snoc
      intro _
      rw [latestUnder_append_copies]
      exact hps p (by simp)

end Queued

namespace Session

def originals (s : Session β) : List (Packet β) :=
  (s.queued.filter (·.original)).map (·.packet)

/-- The packets popped so far and those in the queue. -/
def outgoing (s : Session β) : List (Packet β) :=
  s.popped ++ s.connection.outgoing.readyPackets

/-- What a scheduled packet is queued as: with an id of its own if it is
reliable, and otherwise as it is. -/
structure Assigned (scheduled original : Packet β) : Prop where
  eq_setId : original = { scheduled with id := original.id }
  id_eq : scheduled.isReliable = false → original.id = scheduled.id

theorem assigned_scheduledPacket (c : Connection β) (p : Packet β) :
    Assigned p (c.scheduledPacket p) := by
  unfold Connection.scheduledPacket
  cases hrel : p.isReliable with
  | true =>
      refine ⟨rfl, fun h ↦ ?_⟩
      cases hrel.symm.trans h
  | false => exact ⟨rfl, fun _ ↦ rfl⟩

/-- The outgoing packets split into originals and retransmissions. -/
structure Integrity (s : Session β) : Prop where
  /-- The packets leave in the order in which they were queued, and unaltered. -/
  fifo : s.outgoing.map Packet.withoutAcks = s.queued.map (·.packet.withoutAcks)
  originals : List.Forall₂ Assigned s.scheduled s.originals
  retransmits : Queued.Retransmits s.queued
  stored : ∀ id p, s.connection.outgoing.reliablePackets.find id = some p →
    Queued.latestUnder s.queued id = some p

theorem integrity_fresh (address : NetAddress) : (fresh address : Session β).Integrity := by
  refine ⟨rfl, .nil, Queued.retransmits_nil, ?_⟩
  intro id p hp
  simp [fresh, Connection.fresh] at hp

namespace Integrity

variable {s : Session β}

theorem schedule (h : s.Integrity) (p : Packet β) :
    Integrity { s with
      connection := s.connection.schedule p
      scheduled := s.scheduled ++ [p]
      queued := s.queue true (s.connection.schedule p) } := by
  rw [queue_schedule]
  have horiginals : List.Forall₂ Assigned (s.scheduled ++ [p])
      (s.originals ++ [s.connection.scheduledPacket p]) :=
    List.rel_append h.originals (.cons (assigned_scheduledPacket _ p) .nil)
  have hretransmits : Queued.Retransmits
      (s.queued ++ [⟨true, s.connection.scheduledPacket p⟩]) := by
    apply h.retransmits.snoc
    intro horiginal
    cases horiginal
  refine ⟨?_, ?_, hretransmits, ?_⟩
  · have hfifo := h.fifo
    simp only [outgoing, List.map_append] at hfifo
    simp only [outgoing, Connection.schedule_readyPackets, List.map_append, List.map_singleton,
      ← List.append_assoc, hfifo]
  · simpa [Session.originals] using horiginals
  · intro id q hq
    cases hrel : p.isReliable with
    | false =>
        have hunder : (⟨true, s.connection.scheduledPacket p⟩ : Queued β).IsUnder id = false := by
          simp [Queued.IsUnder, hrel]
        rw [Queued.latestUnder_snoc_of_not _ hunder]
        rw [Connection.schedule_of_unreliable hrel] at hq
        exact h.stored id q hq
    | true =>
        rw [Connection.schedule_of_reliable hrel] at hq
        simp only [PartialMap.find_insert] at hq
        have hid := s.connection.scheduledPacket_id hrel
        split at hq
        · obtain rfl := Option.some.inj hq
          apply Queued.latestUnder_snoc_of_isUnder
          simp_all [Queued.IsUnder]
        · rw [Queued.latestUnder_snoc_of_not]
          · exact h.stored id q hq
          · have hne : succId s.connection.outgoing.sequenceNumber ≠ id := Ne.symm (by assumption)
            simp [Queued.IsUnder, hid, hne]

theorem received {build : Build} {p : Packet β} {c : Connection β} (h : s.Integrity)
    (hreceived : s.connection.received build p = .ok c) :
    Integrity { s with
      connection := c
      received := s.received ++ [p]
      queued := s.queue false c } := by
  have hout := Connection.received_outgoing hreceived
  rw [queue_received hreceived]
  refine ⟨?_, ?_, h.retransmits.append_copies ?_, ?_⟩
  · have hfifo := h.fifo
    simp only [outgoing, List.map_append] at hfifo
    simp only [outgoing, hout, Connection.processAcks_readyPackets, List.map_append,
      ← List.append_assoc, hfifo, List.map_map]
    rfl
  · have hcopies : ∀ ps : List (Packet β),
        (ps.map fun q ↦ (⟨false, q⟩ : Queued β)).filter (·.original) = [] := by
      intro ps
      simp
    simpa only [Session.originals, List.filter_append, hcopies, List.append_nil] using
      h.originals
  · intro q hq
    obtain ⟨i, -, -, hfind⟩ := Connection.mem_rescheduled.mp hq
    have hlatest := h.stored _ q hfind
    -- a stored packet has the id it is stored under
    obtain ⟨e, -, hunder, rfl⟩ := Queued.isUnder_of_latestUnder hlatest
    simp only [Queued.IsUnder, Bool.and_eq_true, beq_iff_eq] at hunder
    rwa [hunder.2]
  · intro id q hq
    rw [Queued.latestUnder_append_copies]
    rw [hout] at hq
    exact h.stored id q (Connection.processAcks_find_some hq).2

theorem popOutgoing {p : Packet β} {c : Connection β} (h : s.Integrity)
    (hpop : s.connection.popReadyOutgoingPacket = some (p, c)) :
    Integrity { s with connection := c, popped := s.popped ++ [p] } := by
  obtain ⟨q, rest, hready, rfl, rfl⟩ := Connection.popReadyOutgoingPacket_eq_some_iff.mp hpop
  refine ⟨?_, h.originals, h.retransmits, h.stored⟩
  have hfifo := h.fifo
  simp only [outgoing, hready, List.map_append, List.map_cons] at hfifo
  simpa [outgoing] using hfifo

theorem step {build : Build} {call : Call β} {s' : Session β} (h : s.Integrity)
    (hstep : Step build s call s') : s'.Integrity := by
  cases hstep with
  | schedule p => exact h.schedule p
  | popOutgoing p c hpop => exact h.popOutgoing hpop
  | receive p c hreceived => exact h.received hreceived
  | popIncoming p c hpop =>
      obtain ⟨rest, -, rfl⟩ := Connection.popReadyIncomingPacket_eq_some_iff.mp hpop
      exact ⟨h.fifo, h.originals, h.retransmits, h.stored⟩
  | setOutgoing sequenceNumber => exact ⟨h.fifo, h.originals, h.retransmits, h.stored⟩
  | setIncoming sequenceNumber => exact ⟨h.fifo, h.originals, h.retransmits, h.stored⟩

end Integrity

theorem integrity_of_run {build : Build} {address : NetAddress} {calls : List (Call β)}
    {s : Session β} (h : Run build address calls s) : s.Integrity :=
  h.invariant Integrity (integrity_fresh address) fun _ _ _ hs hstep ↦ hs.step hstep

/-- Receiving a packet adds retransmissions at the end and changes nothing else. -/
theorem outgoing_of_receive {build : Build} {s s' : Session β} {p : Packet β}
    (h : Step build s (.receive p) s') :
    s.outgoing <+: s'.outgoing ∧ s'.originals = s.originals ∧ s'.scheduled = s.scheduled := by
  cases h with
  | receive _ c hreceived =>
      refine ⟨?_, ?_, rfl⟩
      · simp only [outgoing, Connection.received_outgoing hreceived,
          Connection.processAcks_readyPackets, ← List.append_assoc]
        exact List.prefix_append _ _
      · simp [originals, queue_received hreceived]

/-- In every run, what is popped and what is queued are the scheduled packets in
order with retransmissions in between, each of them after its original. -/
theorem outgoing_splits {build : Build} {address : NetAddress} {calls : List (Call β)}
    {s : Session β} (h : Run build address calls s) :
    s.outgoing.map Packet.withoutAcks = s.queued.map (·.packet.withoutAcks) ∧
      List.Forall₂ Assigned s.scheduled s.originals ∧
        (∀ before p after, s.queued = before ++ ⟨false, p⟩ :: after → p.isReliable = true ∧
          Queued.latestUnder before p.id = some p ∧ ⟨true, p⟩ ∈ before) ∧
          ∀ p s', Step build s (.receive p) s' →
            s.outgoing <+: s'.outgoing ∧ s'.originals = s.originals ∧
              s'.scheduled = s.scheduled := by
  have hs := integrity_of_run h
  refine ⟨hs.fifo, hs.originals, ?_, fun _ _ hstep ↦ outgoing_of_receive hstep⟩
  intro before p after heq
  have hlatest := hs.retransmits before p after heq
  obtain ⟨⟨original, q⟩, hmem, hunder, rfl⟩ := Queued.isUnder_of_latestUnder hlatest
  simp only [Queued.IsUnder, Bool.and_eq_true] at hunder
  obtain ⟨⟨rfl, hrel⟩, -⟩ := hunder
  exact ⟨hrel, hlatest, hmem⟩

/-- A reliable packet is sent, and a header that does not ack it has it sent again. -/
theorem outgoing_splits_retransmitted :
    ∃ s : Session Unit, Run .debug {}
        [.schedule (.emptyReliable 0), .popOutgoing,
          .receive { Packet.make .data .none () with ackId := 2 }] s ∧
      s.queued = [⟨true, .emptyReliable 1⟩, ⟨false, .emptyReliable 1⟩] ∧
        List.Forall₂ Assigned s.scheduled s.originals := by
  have hrun : ∃ s : Session Unit, Run .debug {}
      [.schedule (.emptyReliable 0), .popOutgoing,
        .receive { Packet.make .data .none () with ackId := 2 }] s ∧
      s.queued = [⟨true, .emptyReliable 1⟩, ⟨false, .emptyReliable 1⟩] :=
    ⟨_, ((LabelledRun.Run.nil.snoc (.schedule _)).snoc (.popOutgoing _ _ rfl)).snoc
      (.receive _ _ rfl), rfl⟩
  obtain ⟨s, hs, hqueued⟩ := hrun
  exact ⟨s, hs, hqueued, (outgoing_splits hs).2.1⟩

end Session

end GioNet
