import GioNet.Outgoing

/-!
# Both sides count along the same cycle

As long as nobody sets a sequence number, the ids that `Schedule` assigns and the
ids that the delivery loop walks through are those of the stream positions
`1, 2, 3, …`, whatever arrives.
-/

namespace GioNet

open Packet (invalidId)

variable {β : Type}

/-- The ids of the packets are those of the first stream positions. -/
def InSequence (ps : List (Packet β)) : Prop :=
  ps.map (·.id) = (List.range ps.length).map fun k ↦ wireId (k + 1)

theorem InSequence.append {ps qs : List (Packet β)} (h : InSequence ps)
    (hqs : qs.map (·.id) =
      (List.range qs.length).map fun k ↦ wireId (ps.length + k + 1)) :
    InSequence (ps ++ qs) := by
  unfold InSequence at h ⊢
  rw [List.map_append, h, hqs, List.length_append, List.range_add, List.map_append, List.map_map]
  rfl

theorem InSequence.snoc {ps : List (Packet β)} (h : InSequence ps) {p : Packet β}
    (hp : p.id = wireId (ps.length + 1)) : InSequence (ps ++ [p]) :=
  h.append (by simp [hp])

/-- The `k`-th packet has the id of the `k`-th position. -/
theorem InSequence.getElem {ps : List (Packet β)} (h : InSequence ps) {k : ℕ}
    (hk : k < ps.length) : ps[k].id = wireId (k + 1) := by
  have hget := congrArg (·[k]?) h
  simpa [hk] using hget

/-- The packets of a map are reliable and stand under their own id, a valid one. -/
def OwnIds (m : PartialMap IdType (Packet β)) : Prop :=
  ∀ id p, m.find id = some p → p.id = id ∧ p.isReliable = true ∧ id ≠ invalidId

theorem OwnIds.insert {m : PartialMap IdType (Packet β)} (h : OwnIds m) {p : Packet β}
    (hrel : p.isReliable = true) (hid : p.id ≠ invalidId) : OwnIds (m.insert p.id p) := by
  intro id q hq
  rw [PartialMap.find_insert] at hq
  split at hq
  · rename_i heq
    obtain rfl := Option.some.inj hq
    exact ⟨heq.symm, hrel, heq ▸ hid⟩
  · exact h id q hq

/-- The delivery loop finds packets with consecutive ids. -/
theorem Delivers.ids {m : PartialMap IdType (Packet β)} {latest : IdType} {n : ℕ}
    {ps : List (Packet β)} (h : Delivers m latest (wireId n) ps) (hm : OwnIds m) :
    ps.map (·.id) = (List.range ps.length).map fun k ↦ wireId (n + k + 1) := by
  apply List.ext_getElem
  · simp
  · intro k hk _
    have hlt : k < ps.length := by simpa using hk
    have hid := (hm _ _ (h.found_wireId hlt)).1
    simp [hid]

theorem Delivers.allReliable {m : PartialMap IdType (Packet β)} {latest s : IdType}
    {ps : List (Packet β)} (h : Delivers m latest s ps) (hm : OwnIds m) :
    ps.filter Packet.isReliable = ps := by
  apply List.filter_eq_self.mpr
  exact h.forall_mem fun id p hp ↦ (hm id p hp).2.1

namespace Session

/-! ## The sender -/

def reliableOriginals (s : Session β) : List (Packet β) :=
  s.originals.filter Packet.isReliable

structure Numbering (s : Session β) : Prop where
  sequenceNumber : s.connection.outgoing.sequenceNumber = wireId s.reliableOriginals.length
  inSequence : InSequence s.reliableOriginals
  count : s.reliableOriginals.length = (s.scheduled.filter Packet.isReliable).length

theorem reliableOriginals_queue (s : Session β) (p : Packet β) :
    ((((s.queue true (s.connection.schedule p)).filter (·.original)).map (·.packet)).filter
      Packet.isReliable) = s.reliableOriginals ++
        if p.isReliable then [s.connection.scheduledPacket p] else [] := by
  cases hrel : p.isReliable <;>
    simp [queue_schedule, reliableOriginals, originals, hrel]

theorem Numbering.schedule {s : Session β} (h : s.Numbering) (p : Packet β) :
    Numbering { s with
      connection := s.connection.schedule p
      scheduled := s.scheduled ++ [p]
      queued := s.queue true (s.connection.schedule p) } := by
  have hqueue := reliableOriginals_queue s p
  cases hrel : p.isReliable with
  | false =>
      rw [hrel, if_neg Bool.false_ne_true, List.append_nil] at hqueue
      refine ⟨?_, ?_, ?_⟩
      · rw [reliableOriginals, originals, hqueue, Connection.schedule_of_unreliable hrel]
        exact h.sequenceNumber
      · rw [reliableOriginals, originals, hqueue]
        exact h.inSequence
      · rw [reliableOriginals, originals, hqueue]
        simpa [hrel] using h.count
  | true =>
      rw [hrel, if_pos rfl] at hqueue
      have hid := s.connection.scheduledPacket_id hrel
      rw [h.sequenceNumber, ← wireId_succ] at hid
      refine ⟨?_, ?_, ?_⟩
      · rw [reliableOriginals, originals, hqueue, Connection.schedule_of_reliable hrel]
        simp [h.sequenceNumber, wireId_succ]
      · rw [reliableOriginals, originals, hqueue]
        exact h.inSequence.snoc hid
      · rw [reliableOriginals, originals, hqueue]
        simp [hrel, h.count]

theorem Numbering.step {build : Build} {s s' : Session β} {call : Call β} (h : s.Numbering)
    (hcall : call.isSetter = false) (hstep : Step build s call s') : s'.Numbering := by
  cases hstep with
  | schedule p => exact h.schedule p
  | popOutgoing p c hpop =>
      obtain ⟨q, rest, -, rfl, -⟩ := Connection.popReadyOutgoingPacket_eq_some_iff.mp hpop
      exact ⟨h.sequenceNumber, h.inSequence, h.count⟩
  | receive p c hreceived =>
      have hkept : reliableOriginals { s with
          connection := c
          received := s.received ++ [p]
          queued := s.queue false c } = s.reliableOriginals := by
        simp [reliableOriginals, originals, queue_received hreceived]
      refine ⟨?_, hkept ▸ h.inSequence, hkept ▸ h.count⟩
      rw [hkept, Connection.received_outgoing hreceived, Connection.processAcks_sequenceNumber]
      exact h.sequenceNumber
  | popIncoming p c hpop =>
      obtain ⟨rest, -, rfl⟩ := Connection.popReadyIncomingPacket_eq_some_iff.mp hpop
      exact ⟨h.sequenceNumber, h.inSequence, h.count⟩
  | setOutgoing sequenceNumber => cases hcall
  | setIncoming sequenceNumber => cases hcall

/-! ## The receiver -/

/-- The reliable packets put on `incoming.readyPackets` so far. -/
def deliveredReliable (s : Session β) : List (Packet β) :=
  (s.consumed ++ s.connection.incoming.readyPackets).filter Packet.isReliable

structure Gapless (s : Session β) : Prop where
  sequenceNumber : s.connection.incoming.sequenceNumber = wireId s.deliveredReliable.length
  inSequence : InSequence s.deliveredReliable
  stored : OwnIds s.connection.incoming.reliablePackets

theorem Gapless.received {build : Build} {s : Session β} {p : Packet β} {c : Connection β}
    (h : s.Gapless) (hvalid : p.isReliable = true → p.id ≠ invalidId)
    (hreceived : s.connection.received build p = .ok c) :
    Gapless { s with
      connection := c
      received := s.received ++ [p]
      queued := s.queue false c } := by
  cases hrel : p.isReliable with
  | false =>
      rw [Connection.received_of_unreliable build _ hrel] at hreceived
      obtain rfl := Except.ok.inj hreceived
      have hkept : (s.consumed ++ (s.connection.incoming.readyPackets ++ [p])).filter
          Packet.isReliable = s.deliveredReliable := by
        simp [deliveredReliable, hrel]
      refine ⟨?_, ?_, h.stored⟩
      · simp only [deliveredReliable, hkept]
        exact h.sequenceNumber
      · simp only [deliveredReliable, hkept]
        exact h.inSequence
  | true =>
      obtain ⟨ps, hps, hok⟩ := Connection.received_of_reliable build s.connection hrel (hvalid hrel)
      obtain rfl := Except.ok.inj (hok.symm.trans hreceived)
      have hstored := h.stored.insert hrel (hvalid hrel)
      rw [h.sequenceNumber] at hps
      have hdelivered : (s.consumed ++ (s.connection.incoming.readyPackets ++ ps)).filter
          Packet.isReliable = s.deliveredReliable ++ ps := by
        rw [← List.append_assoc, List.filter_append, hps.allReliable hstored, deliveredReliable]
      refine ⟨?_, ?_, hstored⟩
      · simp only [deliveredReliable, Connection.afterReliable, Connection.deliver, hdelivered,
          h.sequenceNumber, succId_iterate_wireId, List.length_append]
      · simp only [deliveredReliable, Connection.afterReliable, Connection.deliver, hdelivered]
        exact h.inSequence.append (hps.ids hstored)

theorem Gapless.step {build : Build} {s s' : Session β} {call : Call β} (h : s.Gapless)
    (hcall : call.isSetter = false ∧ call.ValidId) (hstep : Step build s call s') :
    s'.Gapless := by
  cases hstep with
  | schedule p =>
      refine ⟨?_, ?_, ?_⟩
      · simpa [deliveredReliable] using h.sequenceNumber
      · simpa [deliveredReliable] using h.inSequence
      · simpa using h.stored
  | popOutgoing p c hpop =>
      obtain ⟨q, rest, -, rfl, -⟩ := Connection.popReadyOutgoingPacket_eq_some_iff.mp hpop
      exact ⟨h.sequenceNumber, h.inSequence, h.stored⟩
  | receive p c hreceived => exact h.received hcall.2 hreceived
  | popIncoming p c hpop =>
      obtain ⟨rest, hready, rfl⟩ := Connection.popReadyIncomingPacket_eq_some_iff.mp hpop
      have hkept : ((s.consumed ++ [p]) ++ rest).filter Packet.isReliable =
          s.deliveredReliable := by
        simp [deliveredReliable, hready]
      refine ⟨?_, ?_, h.stored⟩
      · simp only [deliveredReliable, hkept]
        exact h.sequenceNumber
      · simp only [deliveredReliable, hkept]
        exact h.inSequence
  | setOutgoing sequenceNumber => cases hcall.1
  | setIncoming sequenceNumber => cases hcall.1

/-! ## Runs -/

theorem numbering_of_run {build : Build} {address : NetAddress} {calls : List (Call β)}
    {s : Session β} (h : Run build address calls s)
    (hcalls : ∀ call ∈ calls, call.isSetter = false) : s.Numbering :=
  h.invariant_of_allowed _ Numbering hcalls ⟨rfl, rfl, rfl⟩
    fun _ _ _ hs hcall hstep ↦ hs.step hcall hstep

theorem gapless_fresh (address : NetAddress) : (fresh address : Session β).Gapless := by
  refine ⟨rfl, rfl, ?_⟩
  intro id p hp
  simp [fresh, Connection.fresh] at hp

theorem gapless_of_run {build : Build} {address : NetAddress} {calls : List (Call β)}
    {s : Session β} (h : Run build address calls s)
    (hcalls : ∀ call ∈ calls, call.isSetter = false)
    (hvalid : ∀ call ∈ calls, call.ValidId) : s.Gapless :=
  h.invariant_of_allowed _ Gapless (fun call hcall ↦ ⟨hcalls call hcall, hvalid call hcall⟩)
    (gapless_fresh address) fun _ _ _ hs hcall hstep ↦ hs.step hcall hstep

theorem assigned_reliableOriginals {build : Build} {address : NetAddress}
    {calls : List (Call β)} {s : Session β} (h : Run build address calls s) :
    List.Forall₂ Assigned (s.scheduled.filter Packet.isReliable) s.reliableOriginals := by
  apply List.rel_filter _ (integrity_of_run h).originals
  intro p q hpq
  rw [hpq.eq_setId]
  rfl

/-- The `k`-th reliable packet that is scheduled gets the id of position `k`. If
the reliable packets that arrive have valid ids, the `k`-th one that is delivered
has it as well. -/
theorem ids_follow_positions {build : Build} {address : NetAddress} {calls : List (Call β)}
    {s : Session β} (h : Run build address calls s)
    (hcalls : ∀ call ∈ calls, call.isSetter = false) :
    List.Forall₂ Assigned (s.scheduled.filter Packet.isReliable) s.reliableOriginals ∧
      (∀ k, (hk : k < s.reliableOriginals.length) →
        s.reliableOriginals[k].id = wireId (k + 1)) ∧
        ((∀ call ∈ calls, call.ValidId) → ∀ k, (hk : k < s.deliveredReliable.length) →
          s.deliveredReliable[k].id = wireId (k + 1)) := by
  refine ⟨assigned_reliableOriginals h, ?_, ?_⟩
  · intro k hk
    exact (numbering_of_run h hcalls).inSequence.getElem hk
  · intro hvalid k hk
    exact (gapless_of_run h hcalls hvalid).inSequence.getElem hk

/-- The second packet arrives before the first. -/
theorem ids_follow_positions_reordered :
    ∃ s : Session Unit, Run .debug {}
        [.schedule (.emptyReliable 7), .receive (.emptyReliable 2),
          .receive (.emptyReliable 1)] s ∧
      s.deliveredReliable.length = 2 ∧
        (∀ k, (hk : k < s.reliableOriginals.length) →
          s.reliableOriginals[k].id = wireId (k + 1)) ∧
          ∀ k, (hk : k < s.deliveredReliable.length) →
            s.deliveredReliable[k].id = wireId (k + 1) := by
  have hrun : ∃ s : Session Unit, Run .debug {}
      [.schedule (.emptyReliable 7), .receive (.emptyReliable 2),
        .receive (.emptyReliable 1)] s ∧ s.deliveredReliable.length = 2 := by
    refine ⟨_, ((LabelledRun.Run.nil.snoc (.schedule _)).snoc (.receive _ _ rfl)).snoc
      (.receive _ _ rfl), ?_⟩
    rfl
  obtain ⟨s, hs, hlength⟩ := hrun
  have hcalls : ∀ call ∈ [Call.schedule (Packet.emptyReliable 7),
      .receive (.emptyReliable 2), .receive (.emptyReliable 1)], call.isSetter = false := by
    simp [Call.isSetter]
  have hids := ids_follow_positions hs hcalls
  refine ⟨s, hs, hlength, hids.2.1, hids.2.2 ?_⟩
  simp [Call.ValidId, Packet.emptyReliable, invalidId]

end Session

end GioNet
