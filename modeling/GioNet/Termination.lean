import GioNet.Faults
import GioNet.LongStream

/-!
# The delivery loop ends within one round

In a release build the delivery loop ends within `65535` iterations and pushes
one packet in each of them, unless it is sent round forever by a packet with the
id `0`.
-/

namespace GioNet

open Packet (invalidId)

namespace Connection

variable {β : Type}

/-- The connection when `Received` comes to the delivery loop with a reliable packet. -/
def beforeDelivery (c : Connection β) (p : Packet β) : Connection β :=
  ((c.processAcks p).updateAckId p.id).storeIncoming p.id p

/-- The delivery loop ends after `n` iterations, and has pushed `n` packets. -/
def DeliveryEndsAfter (c : Connection β) (p : Packet β) (n : ℕ) : Prop :=
  ∃ t, BoundedLoop.steps (DeliveryLoop.body (c.beforeDelivery p).getCurrentAckId) n
        ⟨(c.beforeDelivery p).incoming.sequenceNumber, (c.beforeDelivery p).incoming⟩ = some t ∧
      DeliveryLoop.body (c.beforeDelivery p).getCurrentAckId t = none ∧
        t.incoming.readyPackets.length = c.incoming.readyPackets.length + n

theorem received_release {c : Connection β} {p : Packet β} (h : p.isReliable = true) :
    c.received .release p = (c.beforeDelivery p).enqueueProcessablePackets := by
  simp [received, h, Build.assert, beforeDelivery]

/-- Every iteration that goes on pushes a packet. -/
theorem deliveryEndsAfter_iff (c : Connection β) (p : Packet β) (n : ℕ) :
    c.DeliveryEndsAfter p n ↔
      ∃ t, BoundedLoop.steps (DeliveryLoop.body (c.beforeDelivery p).currentAckId) n
            ⟨(c.beforeDelivery p).incoming.sequenceNumber, (c.beforeDelivery p).incoming⟩ =
              some t ∧
          DeliveryLoop.body (c.beforeDelivery p).currentAckId t = none := by
  refine exists_congr fun t ↦ and_congr_right fun hsteps ↦ and_iff_left_iff_imp.mpr fun _ ↦ ?_
  obtain ⟨ps, rfl, -, -, rfl⟩ := (steps_body_iff ..).mp hsteps
  simp [deliver, beforeDelivery, updateAckId_eq, storeIncoming]

theorem exists_deliveryEndsAfter_iff {c : Connection β} {p : Packet β}
    (h : p.isReliable = true) :
    (∃ n ≤ 65535, c.DeliveryEndsAfter p n) ↔ (p.id = invalidId → ¬ c.Wedges) := by
  have hharmless : (∃ c', c.received .release p = .ok c') ↔ (p.id = invalidId → ¬ c.Wedges) := by
    rw [exists_received_iff]
    simp [Harmless, h]
  rw [← hharmless, received_release h, exists_enqueueProcessablePackets_iff_exec]
  simp only [BoundedLoop.exec_eq_some_iff, deliveryEndsAfter_iff, deliveryBound]
  constructor
  · rintro ⟨n, hn, t, ht⟩
    exact ⟨t, n, Nat.lt_succ_of_le hn, ht⟩
  · rintro ⟨t, n, hn, ht⟩
    exact ⟨n, Nat.le_of_lt_succ hn, t, ht⟩

/-- A call of `Received` in a sequence of calls: `c` is the connection before it. -/
def IsCall (address : NetAddress) (ps : List (Packet β)) (c : Connection β) (p : Packet β) :
    Prop :=
  ∃ before after, ps = before ++ p :: after ∧
    (fresh address).receiveAll .release before = .ok c

theorem exists_receiveAll {address : NetAddress} {ps : List (Packet β)}
    (h : ∀ c p, IsCall address ps c p → c.Harmless .release p) :
    ∃ c, (fresh address).receiveAll .release ps = .ok c := by
  induction ps using List.reverseRecOn with
  | nil => exact ⟨fresh address, rfl⟩
  | append_singleton ps p ih =>
      obtain ⟨c, hc⟩ := ih fun c q ⟨before, after, heq, hbefore⟩ ↦
        h c q ⟨before, after ++ [p], by rw [heq, List.append_assoc, List.cons_append], hbefore⟩
      rw [receiveAll_snoc hc]
      exact (exists_received_iff ..).mpr (h c p ⟨ps, [], rfl, hc⟩)

/-- For every sequence of packets: all calls come back, with at most `65535`
iterations of the delivery loop each, exactly if no reliable packet with the id
`0` meets a state in which it makes the loop go round forever. -/
theorem deliveries_end_iff (address : NetAddress) (ps : List (Packet β)) :
    ((∃ c, (fresh address).receiveAll .release ps = .ok c) ∧
      ∀ c p, IsCall address ps c p → p.isReliable = true →
        ∃ n ≤ 65535, c.DeliveryEndsAfter p n) ↔
      ∀ c p, IsCall address ps c p → p.isReliable = true → p.id = invalidId → ¬ c.Wedges := by
  constructor
  · rintro ⟨-, hends⟩ c p hcall hrel
    exact (exists_deliveryEndsAfter_iff hrel).mp (hends c p hcall hrel)
  · intro h
    refine ⟨exists_receiveAll ?_, ?_⟩
    · intro c p hcall hrel hid
      exact ⟨rfl, h c p hcall hrel hid⟩
    · intro c p hcall hrel
      exact (exists_deliveryEndsAfter_iff hrel).mpr (h c p hcall hrel)

/-! ## A loop that never ends -/

theorem receiveAll_of_run {build : Build} {message : ℕ → β} {address : NetAddress}
    {labels : List (ℕ × Packet β)} {s : LongStream β}
    (h : LabelledRun.Run (LongStream.Step build message) (.fresh address) labels s) :
    (fresh address).receiveAll build (labels.map Prod.snd) = .ok s.connection := by
  induction h with
  | nil => rfl
  | snoc _ last ih =>
      rw [List.map_append, List.map_singleton, receiveAll_snoc ih]
      exact last.received

/-- The messages `1, …, 65535` in order leave a packet under every id. -/
theorem exists_wedges : ∃ c, (fresh {}).receiveAll .release
      ((LongStream.inOrderArrivals 65535).map Prod.snd) = .ok c ∧ c.Wedges := by
  obtain ⟨s, hrun, htracks, harrived⟩ := LongStream.exists_run_in_order .release idPeriod
  have hlast : (wireId idPeriod).toNat = idPeriod := wireId_toNat_of_le le_rfl
  refine ⟨s.connection, receiveAll_of_run (hrun.mono fun _ _ _ h ↦ h.1), ?_, ?_, ?_⟩
  · rw [htracks.ackId, hlast]
    exact Or.inr (by decide)
  · rw [htracks.sequenceNumber]
    exact wireId_ne_invalidId (by decide)
  · intro id hid
    have hpos : 0 < id.toNat := Nat.pos_of_ne_zero fun h ↦ hid (eq_invalidId_iff.mpr h)
    obtain ⟨p, hp, -⟩ := htracks.stored id.toNat
      ((harrived _).mpr ⟨hpos, idType_toNat_le id⟩) (by
        rw [harrived]
        omega)
    rw [wireId_toNat_self] at hp
    exact PartialMap.contains_iff.mpr ⟨p, hp⟩

theorem not_deliveryEndsAfter {c : Connection β} (h : c.Wedges) {p : Packet β}
    (hid : p.id = invalidId) (n : ℕ) : ¬ c.DeliveryEndsAfter p n := by
  have hack : (c.beforeDelivery p).currentAckId = invalidId := by
    have hlatest := (latestId_invalidId_iff c.currentAckId).mpr h.ackId
    simpa [beforeDelivery, updateAckId_eq, storeIncoming, hid] using hlatest
  have hnone := exec_body_of_full (c := c.beforeDelivery p) hack
    (by simpa [beforeDelivery, updateAckId_eq, storeIncoming] using h.started)
    (by
      intro id hne
      have hcontains := h.full id hne
      simp [beforeDelivery, updateAckId_eq, storeIncoming, PartialMap.contains_insert, hcontains])
    (n + 1)
  rw [deliveryEndsAfter_iff]
  rintro ⟨t, hsteps, hend⟩
  have hsome := BoundedLoop.exec_eq_some_iff.mpr ⟨n, Nat.lt_succ_self n, hsteps, hend⟩
  cases hnone.symm.trans hsome

/-- After the messages `1, …, 65535` a reliable packet with the id `0` starts a loop
that does not end after any number of iterations. -/
theorem delivery_never_ends :
    ∃ c : Connection ℕ,
      (fresh {}).receiveAll .release ((LongStream.inOrderArrivals 65535).map Prod.snd) = .ok c ∧
        (LongStream.copyOf 0).isReliable = true ∧ (LongStream.copyOf 0).id = invalidId ∧
          ∀ n, ¬ c.DeliveryEndsAfter (LongStream.copyOf 0) n := by
  obtain ⟨c, hc, hwedges⟩ := exists_wedges
  exact ⟨c, hc, Packet.make_isReliable .data 0, rfl, not_deliveryEndsAfter hwedges rfl⟩

end Connection

end GioNet
