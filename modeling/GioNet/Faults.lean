import GioNet.Delivery

/-!
# Packets that `Received` does not come back from

A reliable packet with the id `0` fails the assertion of a debug build. Without
assertions it can set the ack id back to `0`, which is no id of the cycle. If the
receiver then has a packet under every id, the delivery loop never ends.
-/

namespace GioNet

open Packet (invalidId maxPossibleId)

namespace Connection

variable {β : Type}

/-- A packet with the id `0` would make the delivery loop go round forever. -/
structure Wedges (c : Connection β) : Prop where
  ackId : c.currentAckId = invalidId ∨ 32767 < c.currentAckId.toNat
  started : c.incoming.sequenceNumber ≠ invalidId
  full : ∀ id ≠ invalidId, c.incoming.reliablePackets.contains id = true

/-- The packet is unreliable, has a valid id, or is let through by a release
build and does not make the delivery loop go round forever. -/
def Harmless (build : Build) (c : Connection β) (p : Packet β) : Prop :=
  p.isReliable = true → p.id = invalidId → build = .release ∧ ¬ c.Wedges

theorem latestId_invalidId_iff (current : IdType) :
    latestId current invalidId = invalidId ↔ current = invalidId ∨ 32767 < current.toNat := by
  by_cases h0 : current = invalidId
  · simp [h0, latestId]
  · have hpos : invalidId.toNat < current.toNat :=
      Nat.pos_of_ne_zero fun h ↦ h0 (eq_invalidId_iff.mpr h)
    have hold : CyclicNumber.NotOlder 32767 current.toNat invalidId.toNat ↔
        32767 < current.toNat := by
      rw [CyclicNumber.NotOlder, if_pos hpos]
      rfl
    rw [latestId, if_neg h0, ite_eq_left_iff, hold]
    simp [h0]

/-- With a packet under every id and `0` as its goal, the loop goes on forever. -/
theorem exec_body_of_full {c : Connection β} (hack : c.currentAckId = invalidId)
    (hstarted : c.incoming.sequenceNumber ≠ invalidId)
    (hfull : ∀ id ≠ invalidId, c.incoming.reliablePackets.contains id = true) (bound : ℕ) :
    BoundedLoop.exec (DeliveryLoop.body c.currentAckId) bound
      ⟨c.incoming.sequenceNumber, c.incoming⟩ = none := by
  apply BoundedLoop.exec_eq_none_of_trapped (fun s : DeliveryLoop β ↦
    s.nextExpectedPacketId ≠ invalidId ∧
      s.incoming.reliablePackets = c.incoming.reliablePackets)
  · rintro s ⟨hne, hmap⟩
    obtain ⟨p, hp⟩ := PartialMap.contains_iff.mp
      (hfull (succId s.nextExpectedPacketId) (succId_ne_invalidId _))
    rw [body_eq, hack, if_neg hne, hmap, hp]
    exact ⟨_, rfl, succId_ne_invalidId _, hmap⟩
  · exact ⟨hstarted, rfl⟩

/-- The loop goes on forever exactly if it has left `0`, tries to get back there,
and finds a packet under every id. -/
theorem exists_enqueueProcessablePackets_iff (c : Connection β) :
    (∃ c', c.enqueueProcessablePackets = .ok c') ↔
      ¬ (c.currentAckId = invalidId ∧ c.incoming.sequenceNumber ≠ invalidId ∧
        ∀ id ≠ invalidId, c.incoming.reliablePackets.contains id = true) := by
  rw [exists_enqueueProcessablePackets_iff_exec]
  constructor
  · rintro ⟨t, ht⟩ ⟨hack, hstarted, hfull⟩
    rw [exec_body_of_full hack hstarted hfull] at ht
    cases ht
  · intro h
    by_cases hack : c.currentAckId = invalidId
    · by_cases hstarted : c.incoming.sequenceNumber = invalidId
      · refine ⟨⟨c.incoming.sequenceNumber, c.incoming⟩, ?_⟩
        rw [hack, hstarted]
        rfl
      · obtain ⟨hole, hvalid, hhole⟩ : ∃ id, id ≠ invalidId ∧
            c.incoming.reliablePackets.find id = none := by
          by_contra hall
          refine h ⟨hack, hstarted, fun id hid ↦ ?_⟩
          by_contra hnot
          exact hall ⟨id, hid, PartialMap.contains_eq_false_iff.mp (by simpa using hnot)⟩
        -- each iteration takes the loop one id closer to the hole
        apply BoundedLoop.exists_exec_of_measure
          (fun s ↦ s.incoming.reliablePackets = c.incoming.reliablePackets)
          (fun s ↦ idDistance (succId s.nextExpectedPacketId) hole)
        · intro s t hmap hbody
          rw [body_eq] at hbody
          split at hbody
          · cases hbody
          · obtain ⟨p, hp, rfl⟩ := Option.map_eq_some_iff.mp hbody
            refine ⟨hmap, idDistance_succId hvalid ?_⟩
            rintro rfl
            rw [hmap, hhole] at hp
            cases hp
        · rfl
        · apply idDistance_lt_deliveryBound
    · exact exists_enqueueProcessablePackets_iff_exec.mp (exists_enqueueProcessablePackets hack)

theorem exists_received_iff (build : Build) (c : Connection β) (p : Packet β) :
    (∃ c', c.received build p = .ok c') ↔ c.Harmless build p := by
  cases hrel : p.isReliable with
  | false =>
      simp only [Harmless, hrel, Bool.false_eq_true, false_implies, iff_true]
      exact ⟨_, received_of_unreliable build c hrel⟩
  | true =>
      by_cases hid : p.id = invalidId
      · simp only [Harmless, hrel, hid, forall_const]
        cases build with
        | debug => simp [received, hrel, hid, Build.assert]
        | release =>
            have hreceived : c.received .release p = (((c.processAcks p).updateAckId
                p.id).storeIncoming p.id p).enqueueProcessablePackets := by
              simp [received, hrel, Build.assert]
            have hcontains : ∀ id ≠ invalidId,
                (c.incoming.reliablePackets.insert invalidId p).contains id =
                  c.incoming.reliablePackets.contains id := by
              intro id hne
              simp [PartialMap.contains_insert, hne]
            rw [hreceived, exists_enqueueProcessablePackets_iff, hid, updateAckId_eq]
            simp only [storeIncoming, processAcks_currentAckId, processAcks_incoming,
              latestId_invalidId_iff, true_and]
            apply not_congr
            constructor
            · rintro ⟨hack, hstarted, hfull⟩
              exact ⟨hack, hstarted, fun id hne ↦ hcontains id hne ▸ hfull id hne⟩
            · rintro ⟨hack, hstarted, hfull⟩
              exact ⟨hack, hstarted, fun id hne ↦ (hcontains id hne).trans (hfull id hne)⟩
      · simp only [Harmless, hrel, hid, false_implies, implies_true, iff_true]
        obtain ⟨ps, -, hok⟩ := received_of_reliable build c hrel hid
        exact ⟨_, hok⟩

end Connection

end GioNet
