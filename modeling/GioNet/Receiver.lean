import GioNet.Delivery
import GioNet.Library.Reassembly

/-!
# The receiver refines the longest-contiguous-prefix machine

For reliable ids in the lower half of the id range a fresh connection behaves
like the abstract machine of `Reassembly`, whose numbers are the ids.
-/

namespace GioNet

open Packet (invalidId maxPossibleId)

variable {β : Type}

def arrivals (ps : List (Packet β)) : List (ℕ × Packet β) :=
  (ps.filter Packet.isReliable).map fun p ↦ (p.id.toNat, p)

/-- Every reliable packet of the list has an id in `1, …, 32767`. -/
def LowIds (ps : List (Packet β)) : Prop :=
  ∀ p ∈ ps, p.isReliable = true → 0 < p.id.toNat ∧ p.id.toNat ≤ 32767

instance (ps : List (Packet β)) : Decidable (LowIds ps) :=
  inferInstanceAs (Decidable (∀ p ∈ ps, p.isReliable = true → 0 < p.id.toNat ∧ p.id.toNat ≤ 32767))

theorem arrivals_append_of_reliable (ps : List (Packet β)) {p : Packet β}
    (h : p.isReliable = true) : arrivals (ps ++ [p]) = arrivals ps ++ [(p.id.toNat, p)] := by
  simp [arrivals, h]

theorem arrivals_append_of_unreliable (ps : List (Packet β)) {p : Packet β}
    (h : p.isReliable = false) : arrivals (ps ++ [p]) = arrivals ps := by
  simp [arrivals, h]

theorem LowIds.seen_le {ps : List (Packet β)} (h : LowIds ps) {n : ℕ}
    (hn : Reassembly.Seen (arrivals ps) n) : 0 < n ∧ n ≤ 32767 := by
  obtain ⟨p, hp⟩ := hn
  obtain ⟨q, hq, heq⟩ := List.mem_map.mp hp
  obtain ⟨hmem, hrel⟩ := List.mem_filter.mp hq
  have hid : q.id.toNat = n := congrArg Prod.fst heq
  exact hid ▸ h q hmem hrel

theorem LowIds.largest_le {ps : List (Packet β)} (h : LowIds ps) :
    Reassembly.largest (arrivals ps) ≤ 32767 := by
  induction ps using List.reverseRecOn with
  | nil => exact Nat.zero_le _
  | append_singleton ps p ih =>
      have hle := ih fun q hq ↦ h q (List.mem_append_left _ hq)
      cases hrel : p.isReliable with
      | false => rwa [arrivals_append_of_unreliable ps hrel]
      | true =>
          rw [arrivals_append_of_reliable ps hrel, Reassembly.largest_append_singleton]
          exact Nat.max_le.mpr ⟨hle, (h p (by simp) hrel).2⟩

namespace Connection

structure Reassembles (c : Connection β) (xs : List (ℕ × Packet β)) : Prop where
  ackId : c.currentAckId.toNat = Reassembly.largest xs
  sequenceNumber : Reassembly.PrefixLength xs c.incoming.sequenceNumber.toNat
  stored : ∀ id, c.incoming.reliablePackets.find id = Reassembly.lastCopy xs id.toNat

theorem reassembles_fresh (address : NetAddress) :
    (fresh address : Connection β).Reassembles [] := by
  refine ⟨rfl, ?_, fun _ ↦ rfl⟩
  rw [Reassembly.prefixLength_iff]
  refine ⟨?_, ?_⟩
  · intro j hj hle
    exact absurd hle (Nat.not_le.mpr hj)
  · rintro ⟨p, hp⟩
    simp at hp

/-- The packets that the loop finds are those under the next numbers, and the
prefix length after it is the new one. -/
theorem released_of_delivers {xs : List (ℕ × Packet β)} {m : PartialMap IdType (Packet β)}
    {latest : IdType} {k : ℕ} {ps : List (Packet β)}
    (hstored : ∀ id, m.find id = Reassembly.lastCopy xs id.toNat)
    (hlatest : latest.toNat = Reassembly.largest xs) (hlow : ∀ n, Reassembly.Seen xs n → n ≤ 32767)
    (hall : ∀ j, 0 < j → j ≤ k → Reassembly.Seen xs j)
    (h : Delivers m latest (wireId k) ps) :
    Reassembly.PrefixLength xs (k + ps.length) ∧
      ps = Reassembly.released xs k (k + ps.length) := by
  have hfound : ∀ i, (hi : i < ps.length) → k + i ≤ 32767 →
      Reassembly.lastCopy xs (k + i + 1) = some ps[i] := by
    intro i hi hle
    rw [← h.found_wireId hi, hstored, wireId_toNat_of_le (by rw [idPeriod]; omega)]
  -- the prefix grows by one seen number at a time, so it stays in the lower half
  have hseen : ∀ j, 0 < j → j ≤ k + ps.length → Reassembly.Seen xs j := by
    refine Reassembly.contiguous_add hall fun i hi hprev ↦ ?_
    exact Reassembly.exists_lastCopy_iff.mp
      ⟨_, hfound i hi (Reassembly.le_of_contiguous hlow hprev)⟩
  have hbound : k + ps.length ≤ 32767 := Reassembly.le_of_contiguous hlow hseen
  refine ⟨Reassembly.prefixLength_iff.mpr ⟨hseen, ?_⟩, ?_⟩
  · intro hnext
    rcases h.stops_wireId with hstop | hstop
    · have hle := hnext.le_largest
      rw [← hlatest, ← hstop, wireId_toNat_of_le (by rw [idPeriod]; omega)] at hle
      omega
    · rw [hstored, wireId_toNat_of_le (by rw [idPeriod]; omega)] at hstop
      obtain ⟨p, hp⟩ := Reassembly.exists_lastCopy_iff.mpr hnext
      cases hp.symm.trans hstop
  · exact (Reassembly.released_eq_of_lastCopy fun i hi ↦ hfound i hi (by omega)).symm

theorem Reassembles.received_of_reliable {build : Build} {c : Connection β}
    {ps : List (Packet β)} {p : Packet β} (h : c.Reassembles (arrivals ps))
    (hlow : LowIds (ps ++ [p])) (hrel : p.isReliable = true) :
    ∃ c' k', c.received build p = .ok c' ∧ c'.Reassembles (arrivals (ps ++ [p])) ∧
      c'.incoming.sequenceNumber.toNat = k' ∧
      c'.incoming.readyPackets = c.incoming.readyPackets ++
        Reassembly.released (arrivals (ps ++ [p])) c.incoming.sequenceNumber.toNat k' := by
  obtain ⟨hpos, hle⟩ := hlow p (by simp) hrel
  have hvalid : p.id ≠ invalidId := fun he ↦ by
    rw [eq_invalidId_iff.mp he] at hpos
    omega
  obtain ⟨qs, hqs, hok⟩ := Connection.received_of_reliable build c hrel hvalid
  have hold : LowIds ps := fun q hq ↦ hlow q (List.mem_append_left _ hq)
  have hack : (latestId c.currentAckId p.id).toNat =
      Reassembly.largest (arrivals (ps ++ [p])) := by
    rw [arrivals_append_of_reliable ps hrel, Reassembly.largest_append_singleton, ← h.ackId]
    exact toNat_latestId (h.ackId ▸ hold.largest_le) hpos hle
  have hstored : ∀ id, (c.incoming.reliablePackets.insert p.id p).find id =
      Reassembly.lastCopy (arrivals (ps ++ [p])) id.toNat := by
    intro id
    rw [arrivals_append_of_reliable ps hrel, Reassembly.lastCopy_append_singleton,
      PartialMap.find_insert, h.stored]
    simp only [UInt16.toNat_inj]
  have hall : ∀ j, 0 < j → j ≤ c.incoming.sequenceNumber.toNat →
      Reassembly.Seen (arrivals (ps ++ [p])) j := by
    intro j hj hjk
    rw [arrivals_append_of_reliable ps hrel, Reassembly.seen_append_singleton]
    exact Or.inl ((Reassembly.prefixLength_iff.mp h.sequenceNumber).1 j hj hjk)
  rw [← wireId_toNat_self c.incoming.sequenceNumber] at hqs
  obtain ⟨hpre, hreleased⟩ := released_of_delivers hstored hack
    (fun n hn ↦ (hlow.seen_le hn).2) hall hqs
  have hseq : (c.afterReliable p qs).incoming.sequenceNumber.toNat =
      c.incoming.sequenceNumber.toNat + qs.length := by
    have hbound : c.incoming.sequenceNumber.toNat + qs.length ≤ 32767 :=
      Reassembly.le_of_contiguous (fun n hn ↦ (hlow.seen_le hn).2)
        (Reassembly.prefixLength_iff.mp hpre).1
    have hwire : (c.afterReliable p qs).incoming.sequenceNumber =
        wireId (c.incoming.sequenceNumber.toNat + qs.length) := by
      rw [← succId_iterate_wireId, wireId_toNat_self]
      rfl
    rw [hwire, wireId_toNat_of_le (hbound.trans (by decide))]
  refine ⟨_, _, hok, ⟨hack, hseq ▸ hpre, hstored⟩, hseq, ?_⟩
  rw [← hreleased]
  rfl

theorem Reassembles.received_of_unreliable {c : Connection β} {ps : List (Packet β)}
    {p : Packet β} (h : c.Reassembles (arrivals ps)) (hrel : p.isReliable = false) :
    Reassembles { c.processAcks p with
      incoming := { c.incoming with readyPackets := c.incoming.readyPackets ++ [p] } }
      (arrivals (ps ++ [p])) := by
  rw [arrivals_append_of_unreliable ps hrel]
  refine ⟨?_, h.sequenceNumber, h.stored⟩
  rw [← h.ackId]
  simp

theorem exists_reassembles (build : Build) (address : NetAddress) (ps : List (Packet β))
    (hlow : LowIds ps) :
    ∃ c, (fresh address).receiveAll build ps = .ok c ∧ c.Reassembles (arrivals ps) := by
  induction ps using List.reverseRecOn with
  | nil => exact ⟨fresh address, rfl, reassembles_fresh address⟩
  | append_singleton ps p ih =>
      obtain ⟨c, hc, hinv⟩ := ih fun q hq ↦ hlow q (List.mem_append_left _ hq)
      rw [receiveAll_snoc hc]
      cases hrel : p.isReliable with
      | false =>
          exact ⟨_, received_of_unreliable build c hrel, hinv.received_of_unreliable hrel⟩
      | true =>
          obtain ⟨c', -, hok, hinv', -⟩ := hinv.received_of_reliable hlow hrel
          exact ⟨c', hok, hinv'⟩

/-- The arrival of a packet after any sequence of arrivals: the ack id is the
largest reliable id so far, the sequence number the length of the gapless
prefix, and what is appended to the ready packets is the packet itself if it is
unreliable, else the last copies under the ids by which the prefix grew. -/
theorem received_refines_reassembly (build : Build) (address : NetAddress)
    (ps : List (Packet β)) (p : Packet β) (hlow : LowIds (ps ++ [p])) :
    ∃ c c' : Connection β, (fresh address).receiveAll build ps = .ok c ∧
      c.received build p = .ok c' ∧
      c'.getCurrentAckId.toNat = Reassembly.largest (arrivals (ps ++ [p])) ∧
      Reassembly.PrefixLength (arrivals ps) c.incoming.sequenceNumber.toNat ∧
      Reassembly.PrefixLength (arrivals (ps ++ [p])) c'.incoming.sequenceNumber.toNat ∧
      c'.incoming.readyPackets = c.incoming.readyPackets ++
        (if p.isReliable then Reassembly.released (arrivals (ps ++ [p]))
          c.incoming.sequenceNumber.toNat c'.incoming.sequenceNumber.toNat else [p]) ∧
      (p.isReliable = false → c'.getCurrentAckId = c.getCurrentAckId ∧
        c'.incoming.sequenceNumber = c.incoming.sequenceNumber ∧
        c'.incoming.readyPackets.filter Packet.isReliable =
          c.incoming.readyPackets.filter Packet.isReliable) := by
  obtain ⟨c, hc, hinv⟩ := exists_reassembles build address ps
    fun q hq ↦ hlow q (List.mem_append_left _ hq)
  cases hrel : p.isReliable with
  | false =>
      have hinv' := hinv.received_of_unreliable hrel
      refine ⟨c, _, hc, received_of_unreliable build c hrel, hinv'.ackId, hinv.sequenceNumber,
        hinv'.sequenceNumber, by simp, fun _ ↦ ⟨by simp [getCurrentAckId], rfl, ?_⟩⟩
      simp [hrel]
  | true =>
      obtain ⟨c', k', hok, hinv', hk', hready⟩ := hinv.received_of_reliable hlow hrel
      refine ⟨c, c', hc, hok, hinv'.ackId, hinv.sequenceNumber, hinv'.sequenceNumber, ?_, ?_⟩
      · rw [if_pos rfl, hk', hready]
      · intro hfalse
        simp at hfalse

/-- The ids `2`, `3` and then `1`: the last arrival releases all three packets. -/
theorem received_refines_reassembly_swapped :
    ∃ c c' : Connection Unit,
      (fresh {}).receiveAll .debug ([2, 3].map Packet.emptyReliable) = .ok c ∧
        c.received .debug (Packet.emptyReliable 1) = .ok c' ∧
        c'.incoming.readyPackets = c.incoming.readyPackets ++
          (if (Packet.emptyReliable 1).isReliable then
            Reassembly.released (arrivals ([2, 3, 1].map Packet.emptyReliable))
              c.incoming.sequenceNumber.toNat c'.incoming.sequenceNumber.toNat
          else [Packet.emptyReliable 1]) := by
  have hlow : LowIds ([2, 3, 1].map Packet.emptyReliable) := by decide
  obtain ⟨c, c', hc, hc', -, -, -, hready, -⟩ := received_refines_reassembly .debug {}
    ([2, 3].map Packet.emptyReliable) (Packet.emptyReliable 1) hlow
  exact ⟨c, c', hc, hc', hready⟩

end Connection

end GioNet
