import GioNet.Sequencing

/-!
# The representation invariant of a connection

The maps, the queues, the ack id and the sequence numbers of a connection are
written by different member functions, and within `Received` one after the
other. What ties them together holds again when each of the functions returns.
-/

namespace GioNet

open Packet (invalidId)

variable {β : Type}

namespace Delivers

variable {m : PartialMap IdType (Packet β)} {latest s : IdType} {ps : List (Packet β)}

/-- The id that the delivery loop ends at is the one it started from or that of
the last packet it found. -/
theorem last (h : Delivers m latest s ps) :
    succId^[ps.length] s = s ∨ m.contains (succId^[ps.length] s) = true := by
  cases hlength : ps.length with
  | zero => exact Or.inl rfl
  | succ n => exact Or.inr (PartialMap.contains_iff.mpr ⟨_, h.found n (by omega)⟩)

theorem drained (h : Delivers m latest s ps) :
    succId^[ps.length] s = latest ∨ m.contains (succId (succId^[ps.length] s)) = false := by
  rw [PartialMap.contains_eq_false_iff, ← Function.iterate_succ_apply' succId]
  exact h.stops

end Delivers

namespace Connection

/-- What is kept for retransmission and what waits to be sent. -/
structure OutgoingConsistent (c : Connection β) : Prop where
  stored : OwnIds c.outgoing.reliablePackets
  queued : ∀ p ∈ c.outgoing.readyPackets, p.isReliable = true → p.id ≠ invalidId

/-- The ack id and the sequence number beside the packets that have been received. -/
structure IncomingConsistent (c : Connection β) : Prop where
  stored : OwnIds c.incoming.reliablePackets
  empty : c.currentAckId = invalidId ↔ c.incoming.reliablePackets = .empty
  ackId : c.currentAckId ≠ invalidId → c.hasReceivedPacket c.currentAckId = true
  sequenceNumber : c.incoming.sequenceNumber = invalidId ∨
    c.hasReceivedPacket c.incoming.sequenceNumber = true
  /-- Nothing more can be delivered. -/
  drained : c.incoming.sequenceNumber = c.currentAckId ∨
    c.hasReceivedPacket (succId c.incoming.sequenceNumber) = false

structure Consistent (c : Connection β) : Prop where
  outgoing : c.OutgoingConsistent
  incoming : c.IncomingConsistent

/-! ## The sending side -/

theorem outgoingConsistent_fresh (address : NetAddress) :
    (fresh address : Connection β).OutgoingConsistent := by
  refine ⟨?_, ?_⟩
  · intro id p hp
    simp [fresh] at hp
  · intro p hp
    simp [fresh] at hp

namespace OutgoingConsistent

variable {c c' : Connection β} {p : Packet β}

theorem schedule (h : c.OutgoingConsistent) (p : Packet β) :
    (c.schedule p).OutgoingConsistent := by
  have hid : p.isReliable = true → (c.scheduledPacket p).id ≠ invalidId := by
    intro hrel
    rw [c.scheduledPacket_id hrel]
    exact succId_ne_invalidId _
  refine ⟨?_, ?_⟩
  · cases hrel : p.isReliable with
    | false => simpa [schedule_of_unreliable hrel] using h.stored
    | true =>
        have hstored := h.stored.insert (by simpa using hrel) (hid hrel)
        simpa [schedule_of_reliable hrel, c.scheduledPacket_id hrel] using hstored
  · intro q hq hrel
    rw [schedule_readyPackets] at hq
    rcases List.mem_append.mp hq with hold | hnew
    · exact h.queued q hold hrel
    · obtain rfl := List.mem_singleton.mp hnew
      exact hid (by simpa using hrel)

theorem popReadyOutgoingPacket (h : c.OutgoingConsistent)
    (hpop : c.popReadyOutgoingPacket = some (p, c')) : c'.OutgoingConsistent := by
  obtain ⟨q, rest, hready, rfl, -⟩ := popReadyOutgoingPacket_eq_some_iff.mp hpop
  refine ⟨h.stored, ?_⟩
  intro r hr
  exact h.queued r (hready ▸ List.mem_cons_of_mem q hr)

/-- `ProcessAcks` erases stored packets and queues copies of others. -/
theorem received {build : Build} (h : c.OutgoingConsistent)
    (hreceived : c.received build p = .ok c') : c'.OutgoingConsistent := by
  have houtgoing := received_outgoing hreceived
  refine ⟨?_, ?_⟩
  · intro id q hq
    rw [houtgoing] at hq
    exact h.stored id q (processAcks_find_some hq).2
  · intro q hq hrel
    rw [houtgoing, processAcks_readyPackets] at hq
    rcases List.mem_append.mp hq with hold | hcopy
    · exact h.queued q hold hrel
    · obtain ⟨i, -, -, hfind⟩ := mem_rescheduled.mp hcopy
      obtain ⟨hid, -, hvalid⟩ := h.stored _ q hfind
      exact hid ▸ hvalid

end OutgoingConsistent

/-! ## The receiving side -/

theorem incomingConsistent_fresh (address : NetAddress) :
    (fresh address : Connection β).IncomingConsistent := by
  refine ⟨?_, ⟨fun _ ↦ rfl, fun _ ↦ rfl⟩, ?_, .inl rfl, .inl rfl⟩
  · intro id p hp
    simp [fresh] at hp
  · intro hne
    exact absurd rfl hne

namespace IncomingConsistent

variable {c c' : Connection β} {p : Packet β}

/-- The queue of the stream and the outgoing side do not matter. -/
theorem congr (h : c.IncomingConsistent)
    (hmap : c'.incoming.reliablePackets = c.incoming.reliablePackets)
    (hsequenceNumber : c'.incoming.sequenceNumber = c.incoming.sequenceNumber)
    (hackId : c'.currentAckId = c.currentAckId) : c'.IncomingConsistent := by
  have hhas : ∀ id, c'.hasReceivedPacket id = c.hasReceivedPacket id := by
    intro id
    rw [hasReceivedPacket, hasReceivedPacket, hmap]
  refine ⟨?_, ?_, ?_, ?_, ?_⟩
  · rw [hmap]
    exact h.stored
  · rw [hmap, hackId]
    exact h.empty
  · rw [hackId, hhas]
    exact h.ackId
  · rw [hsequenceNumber, hhas]
    exact h.sequenceNumber
  · rw [hsequenceNumber, hackId, hhas]
    exact h.drained

theorem schedule (h : c.IncomingConsistent) (p : Packet β) :
    (c.schedule p).IncomingConsistent :=
  h.congr (by simp) (by simp) (by simp)

theorem popReadyOutgoingPacket (h : c.IncomingConsistent)
    (hpop : c.popReadyOutgoingPacket = some (p, c')) : c'.IncomingConsistent := by
  obtain ⟨q, rest, -, rfl, -⟩ := popReadyOutgoingPacket_eq_some_iff.mp hpop
  exact h.congr rfl rfl rfl

theorem popReadyIncomingPacket (h : c.IncomingConsistent)
    (hpop : c.popReadyIncomingPacket = some (p, c')) : c'.IncomingConsistent := by
  obtain ⟨rest, -, rfl⟩ := popReadyIncomingPacket_eq_some_iff.mp hpop
  exact h.congr rfl rfl rfl

/-- The ack id moves first, then the packet is stored, then the stream is drained. -/
theorem afterReliable (h : c.IncomingConsistent) (hrel : p.isReliable = true)
    (hid : p.id ≠ invalidId) {ps : List (Packet β)}
    (hps : Delivers (c.incoming.reliablePackets.insert p.id p) (latestId c.currentAckId p.id)
      c.incoming.sequenceNumber ps) : (c.afterReliable p ps).IncomingConsistent := by
  have hackId : latestId c.currentAckId p.id ≠ invalidId := latestId_ne_invalidId hid
  have hhas : ∀ id, (c.afterReliable p ps).hasReceivedPacket id =
      (decide (id = p.id) || c.hasReceivedPacket id) :=
    fun id ↦ PartialMap.contains_insert p.id id p
  refine ⟨h.stored.insert hrel hid, ?_, ?_, ?_, ?_⟩
  · constructor
    · intro hzero
      exact absurd hzero hackId
    · intro hempty
      exact absurd hempty (PartialMap.insert_ne_empty p.id p)
  · intro _
    rw [hhas]
    change (decide (latestId c.currentAckId p.id = p.id) ||
      c.hasReceivedPacket (latestId c.currentAckId p.id)) = true
    rcases latestId_eq_or c.currentAckId p.id with hnew | ⟨hsame, hne⟩
    · rw [hnew, decide_eq_true rfl, Bool.true_or]
    · rw [hsame, h.ackId hne, Bool.or_true]
  · rcases hps.last with hsame | hlast
    · change succId^[ps.length] c.incoming.sequenceNumber = invalidId ∨
        (c.afterReliable p ps).hasReceivedPacket
          (succId^[ps.length] c.incoming.sequenceNumber) = true
      rw [hsame, hhas]
      refine h.sequenceNumber.imp_right fun hreceived ↦ ?_
      rw [hreceived, Bool.or_true]
    · exact Or.inr hlast
  · exact hps.drained

theorem received {build : Build} (h : c.IncomingConsistent)
    (hvalid : p.isReliable = true → p.id ≠ invalidId)
    (hreceived : c.received build p = .ok c') : c'.IncomingConsistent := by
  cases hrel : p.isReliable with
  | false =>
      rw [received_of_unreliable build c hrel] at hreceived
      obtain rfl := Except.ok.inj hreceived
      exact h.congr rfl rfl (by simp)
  | true =>
      obtain ⟨ps, hps, hok⟩ := received_of_reliable build c hrel (hvalid hrel)
      obtain rfl := Except.ok.inj (hok.symm.trans hreceived)
      exact h.afterReliable hrel (hvalid hrel) hps

end IncomingConsistent

end Connection

namespace Session

/-! ## Runs -/

/-- Also when the sequence numbers are set. -/
theorem outgoingConsistent_step {build : Build} {s s' : Session β} {call : Call β}
    (h : s.connection.OutgoingConsistent) (hstep : Step build s call s') :
    s'.connection.OutgoingConsistent := by
  cases hstep with
  | schedule p => exact h.schedule p
  | popOutgoing p c hpop => exact h.popReadyOutgoingPacket hpop
  | receive p c hreceived => exact h.received hreceived
  | popIncoming p c hpop =>
      obtain ⟨rest, -, rfl⟩ := Connection.popReadyIncomingPacket_eq_some_iff.mp hpop
      exact ⟨h.stored, h.queued⟩
  | setOutgoing sequenceNumber => exact ⟨h.stored, h.queued⟩
  | setIncoming sequenceNumber => exact ⟨h.stored, h.queued⟩

theorem incomingConsistent_step {build : Build} {s s' : Session β} {call : Call β}
    (h : s.connection.IncomingConsistent) (hcall : call.isSetter = false ∧ call.ValidId)
    (hstep : Step build s call s') : s'.connection.IncomingConsistent := by
  cases hstep with
  | schedule p => exact h.schedule p
  | popOutgoing p c hpop => exact h.popReadyOutgoingPacket hpop
  | receive p c hreceived => exact h.received hcall.2 hreceived
  | popIncoming p c hpop => exact h.popReadyIncomingPacket hpop
  | setOutgoing sequenceNumber => cases hcall.1
  | setIncoming sequenceNumber => cases hcall.1

theorem outgoingConsistent_of_run {build : Build} {address : NetAddress}
    {calls : List (Call β)} {s : Session β} (h : Run build address calls s) :
    s.connection.OutgoingConsistent :=
  h.invariant (·.connection.OutgoingConsistent) (Connection.outgoingConsistent_fresh address)
    fun _ _ _ hs hstep ↦ outgoingConsistent_step hs hstep

theorem incomingConsistent_of_run {build : Build} {address : NetAddress}
    {calls : List (Call β)} {s : Session β} (h : Run build address calls s)
    (hcalls : ∀ call ∈ calls, call.isSetter = false)
    (hvalid : ∀ call ∈ calls, call.ValidId) : s.connection.IncomingConsistent :=
  h.invariant_of_allowed _ (·.connection.IncomingConsistent)
    (fun call hcall ↦ ⟨hcalls call hcall, hvalid call hcall⟩)
    (Connection.incomingConsistent_fresh address)
    fun _ _ _ hs hcall hstep ↦ incomingConsistent_step hs hcall hstep

/-- The maps, the queue, the ack id and the sequence number fit together after
every run, whatever arrives and in whichever order. -/
theorem consistent_of_run {build : Build} {address : NetAddress} {calls : List (Call β)}
    {s : Session β} (h : Run build address calls s)
    (hcalls : ∀ call ∈ calls, call.isSetter = false)
    (hvalid : ∀ call ∈ calls, call.ValidId) : s.connection.Consistent :=
  ⟨outgoingConsistent_of_run h, incomingConsistent_of_run h hcalls hvalid⟩

/-- The second packet arrives and waits, with the ack id already on it. -/
theorem consistent_of_run_waiting :
    ∃ s : Session Unit, Run .debug {}
        [.schedule (.emptyReliable 7), .receive (.emptyReliable 2), .popOutgoing] s ∧
      s.connection.currentAckId = 2 ∧ s.connection.incoming.sequenceNumber = 0 ∧
        s.connection.Consistent := by
  have hrun : ∃ s : Session Unit, Run .debug {}
      [.schedule (.emptyReliable 7), .receive (.emptyReliable 2), .popOutgoing] s ∧
        s.connection.currentAckId = 2 ∧ s.connection.incoming.sequenceNumber = 0 :=
    ⟨_, ((LabelledRun.Run.nil.snoc (.schedule _)).snoc (.receive _ _ rfl)).snoc
      (.popOutgoing _ _ rfl), rfl, rfl⟩
  obtain ⟨s, hs, hackId, hsequenceNumber⟩ := hrun
  refine ⟨s, hs, hackId, hsequenceNumber, consistent_of_run hs ?_ ?_⟩
  · simp [Call.isSetter]
  · simp [Call.ValidId, Packet.emptyReliable, invalidId]

end Session

end GioNet
