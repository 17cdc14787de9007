import GioNet.Representation
import Mathlib.Data.List.Flatten

/-!
# Ack headers between two arbitrary connections

`AddAckHeader` writes what one connection has received, `ProcessAcks` erases and
reschedules at the other. Both are in arbitrary reachable states.
-/

namespace GioNet

open Packet (invalidId)

variable {β : Type}

namespace Session

/-- A reliable packet with the id has been passed to `Received`. -/
def HasReceived (s : Session β) (id : IdType) : Prop :=
  ∃ p ∈ s.received, p.isReliable = true ∧ p.id = id

/-! ## What the two states tell -/

/-- The map holds the received reliable ids, and the ack id is one of them. -/
structure Records (s : Session β) : Prop where
  contains_iff : ∀ id, s.connection.hasReceivedPacket id = true ↔ s.HasReceived id
  ackId : s.connection.currentAckId = invalidId ∨ s.HasReceived s.connection.currentAckId

theorem hasReceived_snoc_iff {s s' : Session β} {p : Packet β}
    (hs' : s'.received = s.received ++ [p]) (id : IdType) :
    s'.HasReceived id ↔ s.HasReceived id ∨ (p.isReliable = true ∧ p.id = id) := by
  simp only [HasReceived, hs', List.mem_append, List.mem_singleton, or_and_right, exists_or,
    exists_eq_left]

/-- What `Received` leaves in the map and as the ack id, also for the id `0`. -/
theorem received_of_reliable_any {build : Build} {c c' : Connection β} {p : Packet β}
    (hrel : p.isReliable = true) (h : c.received build p = .ok c') :
    c'.incoming.reliablePackets = c.incoming.reliablePackets.insert p.id p ∧
      c'.currentAckId = Connection.latestId c.currentAckId p.id := by
  obtain ⟨-, ps, -, -, rfl⟩ := (Connection.received_eq_ok_iff_of_reliable hrel).mp h
  exact ⟨rfl, rfl⟩

theorem Records.received {build : Build} {s s' : Session β} {p : Packet β} (h : s.Records)
    (hs' : s'.received = s.received ++ [p])
    (hreceived : s.connection.received build p = .ok s'.connection) : s'.Records := by
  cases hrel : p.isReliable with
  | false =>
      rw [Connection.received_of_unreliable build _ hrel] at hreceived
      have hconnection := Except.ok.inj hreceived
      have hsame : ∀ id, s'.HasReceived id ↔ s.HasReceived id := by
        intro id
        simp [hasReceived_snoc_iff hs', hrel]
      refine ⟨?_, ?_⟩
      · intro id
        rw [hsame, ← h.contains_iff, ← hconnection]
        rfl
      · rw [hsame, ← hconnection]
        simpa using h.ackId
  | true =>
      obtain ⟨hmap, hack⟩ := received_of_reliable_any hrel hreceived
      refine ⟨?_, ?_⟩
      · intro id
        rw [hasReceived_snoc_iff hs', ← h.contains_iff, Connection.hasReceivedPacket, hmap,
          PartialMap.contains_insert]
        simp only [hrel, true_and, Bool.or_eq_true, decide_eq_true_eq]
        rw [or_comm, eq_comm (a := id)]
        rfl
      · rw [hack]
        simp only [hasReceived_snoc_iff hs', hrel, true_and]
        rcases Connection.latestId_eq_or s.connection.currentAckId p.id with hnew | ⟨hsame, -⟩
        · exact Or.inr (Or.inr hnew.symm)
        · rw [hsame]
          exact h.ackId.imp_right Or.inl

theorem Records.step {build : Build} {s s' : Session β} {call : Call β} (h : s.Records)
    (hstep : Step build s call s') : s'.Records := by
  cases hstep with
  | schedule p =>
      have hincoming := Connection.schedule_incoming s.connection p
      have hackId := Connection.schedule_currentAckId s.connection p
      refine ⟨fun id ↦ ?_, ?_⟩
      · rw [Connection.hasReceivedPacket, hincoming]
        exact h.contains_iff id
      · rw [hackId]
        exact h.ackId
  | popOutgoing p c hpop =>
      obtain ⟨q, rest, -, rfl, -⟩ := Connection.popReadyOutgoingPacket_eq_some_iff.mp hpop
      exact ⟨h.contains_iff, h.ackId⟩
  | receive p c hreceived => exact h.received rfl hreceived
  | popIncoming p c hpop =>
      obtain ⟨rest, -, rfl⟩ := Connection.popReadyIncomingPacket_eq_some_iff.mp hpop
      exact ⟨h.contains_iff, h.ackId⟩
  | setOutgoing sequenceNumber => exact ⟨h.contains_iff, h.ackId⟩
  | setIncoming sequenceNumber => exact ⟨h.contains_iff, h.ackId⟩

theorem records_of_run {build : Build} {address : NetAddress} {calls : List (Call β)}
    {s : Session β} (h : Run build address calls s) : s.Records := by
  apply h.invariant Records _ fun _ _ _ hs hstep ↦ hs.step hstep
  refine ⟨?_, Or.inl rfl⟩
  intro id
  simp [Connection.hasReceivedPacket, HasReceived, fresh, Connection.fresh]

/-! ## What the header does -/

/-- The ids that the loops of `AddAckHeader` and `ProcessAcks` run over. -/
def InWindow (ackId id : IdType) : Prop :=
  ∃ i < sizeofAckBitset, id = ackId - (UInt16.ofNat i + 1)

/-- `ProcessAcks` erases the id on the way from `c` to `c'`. -/
def Erases (c c' : Connection β) (id : IdType) : Prop :=
  c.outgoing.reliablePackets.contains id = true ∧
    c'.outgoing.reliablePackets.contains id = false

/-- The effect on a connection `c` of a header with the ack id `ackId` that
reports what `r` has received. -/
structure Reports (r : Session β) (ackId : IdType) (c c' : Connection β) : Prop where
  erased : ∀ id, Erases c c' id → r.HasReceived id
  queue : c'.outgoing.readyPackets = c.outgoing.readyPackets ++ appended c c'
  rescheduled : ∀ p ∈ appended c c', ¬ r.HasReceived p.id ∧
    c.outgoing.reliablePackets.find p.id = some p ∧
      c'.outgoing.reliablePackets.find p.id = some p
  once : ((appended c c').map (·.id)).Nodup
  exclusive : ∀ id, Erases c c' id → ∀ p ∈ appended c c', p.id ≠ id
  decided : ∀ id, InWindow ackId id → c.outgoing.reliablePackets.contains id = true →
    Erases c c' id ∨ ∃ p ∈ appended c c', p.id = id
  acked : c'.outgoing.reliablePackets.contains ackId = false
  outside : ∀ id, id ≠ ackId → ¬ InWindow ackId id →
    c'.outgoing.reliablePackets.find id = c.outgoing.reliablePackets.find id
  sequenceNumber : c'.outgoing.sequenceNumber = c.outgoing.sequenceNumber
  incoming : c'.incoming = c.incoming
  currentAckId : c'.currentAckId = c.currentAckId
  address : c'.address = c.address

theorem appended_processAcks (c : Connection β) (p : Packet β) :
    appended c (c.processAcks p) = c.rescheduled p sizeofAckBitset := by
  simp [appended, Connection.processAcks_readyPackets]

theorem rescheduled_ids_sublist {c : Connection β} (hc : OwnIds c.outgoing.reliablePackets)
    (p : Packet β) (count : ℕ) :
    ((c.rescheduled p count).map (·.id)).Sublist ((List.range count).map p.ackWindowId) := by
  rw [Connection.rescheduled, List.map_flatMap, List.map_eq_flatMap]
  apply List.Sublist.flatMap_right
  intro i _
  cases p.ackBit i with
  | true => simp
  | false =>
      cases hfind : c.outgoing.reliablePackets.find (p.ackWindowId i) with
      | none => simp
      | some q => simp [(hc _ _ hfind).1]

theorem nodup_windowIds (p : Packet β) :
    ((List.range sizeofAckBitset).map p.ackWindowId).Nodup := by
  apply List.Nodup.map_on _ List.nodup_range
  intro i hi j hj h
  have hlt : ∀ k, k ∈ List.range sizeofAckBitset → k < 65536 := by
    intro k hk
    exact (List.mem_range.mp hk).trans (by decide)
  exact Connection.ackWindowId_injective p (hlt i hi) (hlt j hj) h

theorem Erases.acks {c : Connection β} {header : Packet β} {id : IdType}
    (h : Erases c (c.processAcks header) id) : header.Acks id := by
  classical
  obtain ⟨hstored, hgone⟩ := h
  by_contra hnot
  rw [PartialMap.contains, Connection.processAcks_find, if_neg hnot, ← PartialMap.contains,
    hstored] at hgone
  cases hgone

theorem exists_of_mem_appended {c : Connection β} {header q : Packet β}
    (hc : OwnIds c.outgoing.reliablePackets) (hq : q ∈ appended c (c.processAcks header)) :
    ∃ i < sizeofAckBitset, q.id = header.ackWindowId i ∧ header.ackBit i = false ∧
      c.outgoing.reliablePackets.find q.id = some q := by
  rw [appended_processAcks] at hq
  obtain ⟨i, hi, hbit, hq⟩ := Connection.mem_rescheduled.mp hq
  have hid := (hc _ _ hq).1
  exact ⟨i, hi, hid, hbit, hid ▸ hq⟩

/-- A rescheduled id is neither the ack id nor under a bit that is set. -/
theorem not_acks_of_mem_appended {c : Connection β} {header q : Packet β}
    (hc : OwnIds c.outgoing.reliablePackets) (hq : q ∈ appended c (c.processAcks header)) :
    ¬ header.Acks q.id := by
  intro hack
  obtain ⟨i, hi, hid, hbit, -⟩ := exists_of_mem_appended hc hq
  rw [hid] at hack
  rcases hack with hack | ⟨j, hj, hij, hbit'⟩
  · exact Connection.ackWindowId_ne_ackId header
      (Nat.lt_of_le_of_lt (Nat.succ_le_of_lt hi) (by decide)) hack
  · obtain rfl := Connection.ackWindowId_injective header (hi.trans (by decide))
      (hj.trans (by decide)) hij
    cases hbit.symm.trans hbit'

/-- A header with the fields that `AddAckHeader` writes acks what has been received. -/
theorem acks_iff_of_records {r : Session β} (hr : r.Records) {header : Packet β}
    (hackId : header.ackId = r.connection.currentAckId)
    (hbits : header.ackBitset = r.connection.ackBits) {i : ℕ} (hi : i < sizeofAckBitset) :
    header.ackBit i = true ↔ r.HasReceived (header.ackWindowId i) := by
  rw [← hr.contains_iff, Packet.ackBit_of_ackBitsOf (by rw [hbits, hackId]) hi]
  rfl

/-- What `ProcessAcks` does with a header of `AddAckHeader`, for all reachable
states of the two connections. -/
theorem reports_of_run {build build' : Build} {address address' : NetAddress}
    {calls calls' : List (Call β)} {r s : Session β} (hr : Run build address calls r)
    (hs : Run build' address' calls' s) (p header : Packet β)
    (hackId : header.ackId = (r.connection.addAckHeader p).ackId)
    (hbits : header.ackBitset = (r.connection.addAckHeader p).ackBitset) :
    Reports r header.ackId s.connection (s.connection.processAcks header) := by
  classical
  have hrecords := records_of_run hr
  have hown := (outgoingConsistent_of_run hs).stored
  rw [Connection.addAckHeader_eq] at hackId hbits
  have hacks : ∀ i < sizeofAckBitset,
      (header.ackBit i = true ↔ r.HasReceived (header.ackWindowId i)) :=
    fun i hi ↦ acks_iff_of_records hrecords hackId hbits hi
  have hfind := Connection.processAcks_find s.connection header
  exact {
    erased := by
      intro id herases
      rcases herases.acks with rfl | ⟨i, hi, rfl, hbit⟩
      · rw [hackId]
        refine hrecords.ackId.resolve_left fun hzero ↦ ?_
        -- nothing is stored under the id `0`
        obtain ⟨q, hq⟩ := PartialMap.contains_iff.mp herases.1
        exact (hown _ _ hq).2.2 (hackId.trans hzero)
      · exact (hacks i hi).mp hbit
    queue := by
      rw [appended_processAcks, Connection.processAcks_readyPackets]
    rescheduled := by
      intro q hq
      obtain ⟨i, hi, hid, hbit, hstored⟩ := exists_of_mem_appended hown hq
      refine ⟨?_, hstored, ?_⟩
      · intro hreceived
        rw [hid, ← hacks i hi, hbit] at hreceived
        cases hreceived
      · rw [hfind, if_neg (not_acks_of_mem_appended hown hq), hstored]
    once := by
      rw [appended_processAcks]
      exact (nodup_windowIds header).sublist (rescheduled_ids_sublist hown header _)
    exclusive := by
      rintro id herases q hq rfl
      exact not_acks_of_mem_appended hown hq herases.acks
    decided := by
      rintro id ⟨i, hi, hid⟩ hstored
      obtain rfl : id = header.ackWindowId i := hid
      cases hbit : header.ackBit i with
      | true =>
          have hack : header.Acks (header.ackWindowId i) := Or.inr ⟨i, hi, rfl, hbit⟩
          refine Or.inl ⟨hstored, ?_⟩
          rw [PartialMap.contains_eq_false_iff, hfind, if_pos hack]
      | false =>
          obtain ⟨q, hq⟩ := PartialMap.contains_iff.mp hstored
          refine Or.inr ⟨q, ?_, (hown _ _ hq).1⟩
          rw [appended_processAcks]
          exact Connection.mem_rescheduled.mpr ⟨i, hi, hbit, hq⟩
    acked := by
      have hack : header.Acks header.ackId := Or.inl rfl
      rw [PartialMap.contains_eq_false_iff, hfind, if_pos hack]
    outside := by
      intro id hne hwindow
      rw [hfind, if_neg]
      rintro (rfl | ⟨i, hi, rfl, -⟩)
      · exact hne rfl
      · exact hwindow ⟨i, hi, rfl⟩
    sequenceNumber := by simp
    incoming := by simp
    currentAckId := by simp
    address := by simp }

/-- The header reports the ids `1` and `3`; of the ids `1` and `2` that are
stored, the first is erased and the second queued again. -/
theorem reports_of_run_hole :
    ∃ r s : Session Unit,
      Run .debug {} [.receive (.emptyReliable 1), .receive (.emptyReliable 3)] r ∧
        Run .debug {} [.schedule (.emptyReliable 0), .schedule (.emptyReliable 0)] s ∧
          Reports r 3 s.connection
            (s.connection.processAcks (r.connection.addAckHeader (.emptyReliable 0))) := by
  have hr : ∃ r : Session Unit,
      Run .debug {} [.receive (.emptyReliable 1), .receive (.emptyReliable 3)] r ∧
        r.connection.currentAckId = 3 :=
    ⟨_, (LabelledRun.Run.nil.snoc (.receive _ _ rfl)).snoc (.receive _ _ rfl), rfl⟩
  have hs : ∃ s : Session Unit,
      Run .debug {} [.schedule (.emptyReliable 0), .schedule (.emptyReliable 0)] s :=
    ⟨_, (LabelledRun.Run.nil.snoc (.schedule _)).snoc (.schedule _)⟩
  obtain ⟨r, hrun, hack⟩ := hr
  obtain ⟨s, hrun'⟩ := hs
  have hreports := reports_of_run hrun hrun' (.emptyReliable 0) _ rfl rfl
  have hackId : (r.connection.addAckHeader (.emptyReliable 0)).ackId = 3 := by
    rw [Connection.addAckHeader_eq]
    exact hack
  rw [hackId] at hreports
  exact ⟨r, s, hrun, hrun', hreports⟩

end Session

end GioNet
