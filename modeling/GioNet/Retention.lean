import GioNet.Copies
import GioNet.Payloads
import Mathlib.Data.Finset.Card
import Mathlib.Order.Interval.Finset.Nat

/-!
# Messages that are held until they are received

A sender drops a stored message when an ack for its id arrives. Ids are used
again after `65535` messages, so the ack may be meant for an older message with
the same id. The conditions below exclude this, and then every scheduled message
has been received or is still held.
-/

namespace GioNet

open Packet (invalidId maxPossibleId)

namespace Stream

variable {γ : Type} {v v' : Stream (Stamped γ)} {m : ℕ}

def Heard (v : Stream (Stamped γ)) (k : ℕ) : Prop :=
  ∃ p ∈ v.received, p.isReliable = true ∧ p.payload.number = k

instance (v : Stream (Stamped γ)) : DecidablePred v.Heard := fun k ↦
  inferInstanceAs (Decidable (∃ p ∈ v.received, p.isReliable = true ∧ p.payload.number = k))

def unheard (v : Stream (Stamped γ)) : Finset ℕ :=
  (Finset.Icc 1 v.scheduled.length).filter fun k ↦ ¬ v.Heard k

theorem mem_unheard {k : ℕ} :
    k ∈ v.unheard ↔ (0 < k ∧ k ≤ v.scheduled.length) ∧ ¬ v.Heard k := by
  rw [unheard, Finset.mem_filter, Finset.mem_Icc, Nat.succ_le_iff]

/-- Copies arrive within 32 positions of the delivered count, and at most 32
scheduled messages are not received. -/
structure Windowed (v : Stream (Stamped γ)) (e : Event (Stamped γ)) (v' : Stream (Stamped γ)) :
    Prop where
  near : ∀ p, e = .arrive p → p.isReliable = true →
    p.payload.number ≤ v.deliveredReliable.length + 32 ∧
      v.deliveredReliable.length ≤ p.payload.number + 32
  few : v'.unheard.card ≤ 32

/-- When an id is used again, the message before under it has been received and
no ack of it is in flight. When a header is written, the messages that its bits
are about, as the sender will read them, have been received. -/
structure Careful (v : Stream (Stamped γ)) (e : Event (Stamped γ)) : Prop where
  reused : ∀ p, e = .schedule p → p.isReliable = true → ∀ k, 0 < k →
    k + idPeriod = v.scheduled.length + 1 → v.Heard k
  unacked : ∀ p, e = .schedule p → p.isReliable = true → ∀ q ∈ v.headers,
    ¬ q.Acks (wireId (v.scheduled.length + 1))
  current : e = .header → ∀ i < sizeofAckBitset,
    v.incoming.reliablePackets.contains (v.ackId - (UInt16.ofNat i + 1)) = true →
      ∀ k, 0 < k → k ≤ v.scheduled.length → v.scheduled.length < k + idPeriod →
        wireId k = v.ackId - (UInt16.ofNat i + 1) → v.Heard k

/-- The scheduled messages are stamped with their positions. -/
def Numbered (v : Stream (Stamped γ)) : Prop :=
  ∀ i, (hi : i < v.scheduled.length) → v.scheduled[i].payload.number = i + 1

theorem Numbered.append (h : v.Numbered) {p : Packet (Stamped γ)}
    (hnumber : p.payload.number = v.scheduled.length + 1)
    (hscheduled : v'.scheduled = v.scheduled ++ [p]) : v'.Numbered := by
  intro i hi
  simp only [hscheduled] at hi ⊢
  rcases Nat.lt_succ_iff_lt_or_eq.mp (by simpa using hi) with hlt | rfl
  · rw [List.getElem_append_left hlt]
    exact h i hlt
  · simpa using hnumber

theorem Numbered.step {build : Build} {e : Event (Stamped γ)} (h : v.Numbered)
    (hstep : Step build v e v') (hnumber : ∀ p, e = .schedule p → p.isReliable = true →
      p.payload.number = v.scheduled.length + 1) : v'.Numbered := by
  cases hstep with
  | schedule p c hc =>
      cases hrel : p.isReliable with
      | false => exact h
      | true => exact h.append (hnumber p rfl hrel) rfl
  | idle | send | acks | arrive | header | consume | drop => exact h

/-- A reliable copy carries the number that its id stands for. -/
theorem Numbered.number_of_genuine (h : v.Numbered) {p : Packet (Stamped γ)}
    (hp : Genuine v.scheduled p) (hrel : p.isReliable = true) :
    0 < p.payload.number ∧ p.payload.number ≤ v.scheduled.length ∧
      p.id = wireId p.payload.number := by
  obtain ⟨i, hi, hid, hpayload⟩ := hp hrel
  have hnumber : p.payload.number = i + 1 := by rw [hpayload, h i hi]
  rw [hnumber]
  exact ⟨Nat.succ_pos i, hi, hid⟩

def Keeps (v : Stream (Stamped γ)) (k : ℕ) : Prop :=
  ∃ p, v.outgoing.reliablePackets.find (wireId k) = some p ∧ p.payload.number = k

/-- The invariant; `m` is the largest number of a received message. -/
structure Retains (v : Stream (Stamped γ)) (m : ℕ) : Prop where
  copies : v.Copies
  numbers : v.Numbered
  heard : ∀ k, v.Heard k → k ≤ m
  attained : m = 0 ∨ v.Heard m
  largest : m ≤ v.scheduled.length
  few : v.unheard.card ≤ 32
  ackId : v.ackId = wireId m
  sequenceNumber : v.incoming.sequenceNumber = wireId v.deliveredReliable.length
  behind : v.deliveredReliable.length ≤ m
  ahead : m ≤ v.deliveredReliable.length + 32
  kept : ∀ k, 0 < k → k ≤ v.scheduled.length → v.Heard k ∨ v.Keeps k
  cycled : ∀ k, 0 < k → k + idPeriod ≤ v.scheduled.length → v.Heard k
  acked : ∀ q ∈ v.headers, ∀ k, 0 < k → k ≤ v.scheduled.length →
    v.scheduled.length < k + idPeriod → q.Acks (wireId k) → v.Heard k

namespace Retains

theorem scheduled_le (h : v.Retains m) : v.scheduled.length ≤ m + 32 := by
  have hsub : Finset.Ioc m v.scheduled.length ⊆ v.unheard := by
    intro k hk
    obtain ⟨hmk, hkn⟩ := Finset.mem_Ioc.mp hk
    refine mem_unheard.mpr ⟨⟨by omega, hkn⟩, fun hheard ↦ ?_⟩
    have hle := h.heard k hheard
    omega
  have hcard := (Finset.card_le_card hsub).trans h.few
  rw [Nat.card_Ioc] at hcard
  omega

theorem frame (h : v.Retains m) (hcopies : v'.Copies) (hscheduled : v'.scheduled = v.scheduled)
    (hheard : ∀ k, v'.Heard k ↔ v.Heard k)
    (hstore : v'.outgoing.reliablePackets = v.outgoing.reliablePackets)
    (hack : v'.ackId = v.ackId) (hseq : v'.incoming.sequenceNumber = v.incoming.sequenceNumber)
    (hdelivered : v'.deliveredReliable = v.deliveredReliable) (hheaders : v'.headers ⊆ v.headers) :
    v'.Retains m := by
  have hunheard : v'.unheard = v.unheard := by
    ext k
    rw [mem_unheard, mem_unheard, hscheduled, hheard]
  refine ⟨hcopies, ?_, ?_, ?_, ?_, ?_, ?_, ?_, ?_, ?_, ?_, ?_, ?_⟩
  all_goals simp only [Numbered, hscheduled, hheard, hunheard, hack, hseq, hdelivered, Keeps,
    hstore]
  exacts [h.numbers, h.heard, h.attained, h.largest, h.few, h.ackId, h.sequenceNumber, h.behind,
    h.ahead, h.kept, h.cycled, fun q hq ↦ h.acked q (hheaders hq)]

theorem schedule (h : v.Retains m) {p : Packet (Stamped γ)} {c : Connection (Stamped γ)}
    (hc : c.outgoing = v.outgoing) (hrel : p.isReliable = true)
    (hnumber : p.payload.number = v.scheduled.length + 1) (hcareful : v.Careful (.schedule p))
    (hfew : (unheard { v with
      outgoing := (c.schedule p).outgoing, scheduled := v.scheduled ++ [p] }).card ≤ 32) :
    Retains { v with outgoing := (c.schedule p).outgoing, scheduled := v.scheduled ++ [p] } m := by
  have hcopies := h.copies.schedule p hc
  rw [if_pos hrel] at hcopies
  have hcycled : ∀ k, 0 < k → k + idPeriod ≤ v.scheduled.length + 1 → v.Heard k := by
    intro k hk hle
    rcases Nat.le_or_eq_of_le_succ hle with hle | heq
    · exact h.cycled k hk hle
    · exact hcareful.reused p rfl hrel k hk heq
  refine ⟨hcopies, h.numbers.append hnumber rfl, h.heard, h.attained, ?_, hfew, h.ackId,
    h.sequenceNumber, h.behind, h.ahead, ?_, ?_, ?_⟩
  · have hle := h.largest
    simp
    omega
  · intro k hk hle
    have hnew : succId c.outgoing.sequenceNumber = wireId (v.scheduled.length + 1) := by
      rw [hc, h.copies.numbered, wireId_succ]
    have hfind : (c.schedule p).outgoing.reliablePackets.find (wireId k) =
        if wireId k = wireId (v.scheduled.length + 1) then some (c.scheduledPacket p)
        else v.outgoing.reliablePackets.find (wireId k) := by
      rw [Connection.schedule_of_reliable hrel, PartialMap.find_insert, hnew, hc]
    by_cases hid : wireId k = wireId (v.scheduled.length + 1)
    · by_cases hkn : k = v.scheduled.length + 1
      · right
        refine ⟨c.scheduledPacket p, ?_, ?_⟩
        · rw [hfind, if_pos hid]
        · rw [Connection.scheduledPacket_payload, hnumber, hkn]
      · -- an older message under the new id
        left
        apply hcycled k hk
        by_contra hlt
        exact hkn (eq_of_wireId_eq hk (Nat.succ_pos _) (by simp at hle; omega) (by omega) hid)
    · have hkn : k ≠ v.scheduled.length + 1 := fun heq ↦ hid (by rw [heq])
      rcases h.kept k hk (by simp at hle; omega) with hheard | ⟨q, hq, hqnumber⟩
      · exact Or.inl hheard
      · exact Or.inr ⟨q, by rw [hfind, if_neg hid, hq], hqnumber⟩
  · intro k hk hle
    exact hcycled k hk (by simpa using hle)
  · intro q hq k hk hle hlt hacks
    simp only [List.length_append, List.length_singleton] at hle hlt
    rcases Nat.le_or_eq_of_le_succ hle with hle | rfl
    · exact h.acked q hq k hk hle (by omega) hacks
    · exact absurd hacks (hcareful.unacked p rfl hrel q hq)

theorem acks (h : v.Retains m) {q : Packet (Stamped γ)} {c : Connection (Stamped γ)}
    (hc : c.outgoing = v.outgoing) (hq : q ∈ v.headers) :
    Retains { v with outgoing := (c.processAcks q).outgoing } m := by
  classical
  refine ⟨h.copies.acks q hc, h.numbers, h.heard, h.attained, h.largest, h.few, h.ackId,
    h.sequenceNumber, h.behind, h.ahead, ?_, h.cycled, h.acked⟩
  intro k hk hle
  rcases h.kept k hk hle with hheard | ⟨p, hp, hnumber⟩
  · exact Or.inl hheard
  · by_cases hacks : q.Acks (wireId k)
    · left
      rcases Nat.lt_or_ge v.scheduled.length (k + idPeriod) with hlt | hge
      · exact h.acked q hq k hk hle hlt hacks
      · exact h.cycled k hk hge
    · refine Or.inr ⟨p, ?_, hnumber⟩
      rw [Connection.processAcks_find, if_neg hacks, hc, hp]

theorem heard_append (p : Packet (Stamped γ)) (hrel : p.isReliable = true) {k : ℕ}
    (hv : v'.received = v.received ++ [p]) : v'.Heard k ↔ v.Heard k ∨ k = p.payload.number := by
  rw [eq_comm (a := k)]
  simp [Heard, hv, or_and_right, exists_or, hrel]

/-- What the delivery loop does when a copy from the window arrives. -/
theorem delivers {build : Build} (h : v.Retains m) {p : Packet (Stamped γ)}
    {c c' : Connection (Stamped γ)} (hin : c.incoming = v.incoming)
    (hack : c.currentAckId = v.ackId) (hp : p ∈ v.inFlight) (hrel : p.isReliable = true)
    (hreceived : c.received build p = .ok c')
    (hnear : p.payload.number ≤ v.deliveredReliable.length + 32 ∧
      v.deliveredReliable.length ≤ p.payload.number + 32) :
    ∃ ps, c' = c.afterReliable p ps ∧
      Connection.latestId c.currentAckId p.id = wireId (max m p.payload.number) ∧
      Delivers (v.incoming.reliablePackets.insert p.id p) (wireId (max m p.payload.number))
        (wireId v.deliveredReliable.length) ps ∧
      deliveredReliable { v with
        incoming := c'.incoming
        ackId := c'.currentAckId
        received := v.received ++ [p] } = v.deliveredReliable ++ ps := by
  obtain ⟨hpos, hle, hid⟩ := h.numbers.number_of_genuine (h.copies.inFlight p hp) hrel
  have hbehind := h.behind
  have hahead := h.ahead
  have hlatest : Connection.latestId c.currentAckId p.id = wireId (max m p.payload.number) := by
    rw [hack, h.ackId, hid]
    exact Connection.latestId_wireId hpos (by omega) (by omega)
  obtain ⟨ps, hps, rfl⟩ := h.copies.received hin hp hrel hreceived
  rw [hlatest, h.sequenceNumber] at hps
  have hmap := h.copies.buffered.insert (h.copies.inFlight p hp) hrel
  have hpsrel : ps.filter Packet.isReliable = ps :=
    List.filter_eq_self.mpr (hps.forall_mem fun id q hq ↦ (hmap id q hq).2.1)
  refine ⟨ps, rfl, hlatest, hps, ?_⟩
  simp [deliveredReliable, Connection.afterReliable, Connection.deliver, hin, hpsrel]

theorem arrive {build : Build} (h : v.Retains m) {p : Packet (Stamped γ)}
    {c c' : Connection (Stamped γ)} (hin : c.incoming = v.incoming)
    (hack : c.currentAckId = v.ackId) (hp : p ∈ v.inFlight) (hrel : p.isReliable = true)
    (hreceived : c.received build p = .ok c')
    (hnear : p.payload.number ≤ v.deliveredReliable.length + 32 ∧
      v.deliveredReliable.length ≤ p.payload.number + 32)
    (hfew : (unheard { v with
      incoming := c'.incoming, ackId := c'.currentAckId, received := v.received ++ [p] }).card ≤
        32) :
    Retains { v with
      incoming := c'.incoming
      ackId := c'.currentAckId
      received := v.received ++ [p] } (max m p.payload.number) := by
  have hcopies := h.copies.arrive hin hp hreceived
  have hle := (h.numbers.number_of_genuine (h.copies.inFlight p hp) hrel).2.1
  have hbehind := h.behind
  have hahead := h.ahead
  obtain ⟨ps, rfl, hlatest, hps, hdelivered⟩ := h.delivers hin hack hp hrel hreceived hnear
  have hstop : v.deliveredReliable.length + ps.length ≤ max m p.payload.number :=
    hps.le_latest (by omega)
  have hheard := fun k ↦ heard_append (k := k) p hrel
    (show ({ v with
      incoming := (c.afterReliable p ps).incoming
      ackId := (c.afterReliable p ps).currentAckId
      received := v.received ++ [p] } : Stream (Stamped γ)).received = v.received ++ [p] from rfl)
  refine ⟨hcopies, h.numbers, ?_, ?_, ?_, hfew, hlatest, ?_, ?_, ?_, ?_, ?_, ?_⟩
  · intro k hk
    rcases (hheard k).mp hk with hk | rfl
    · exact (h.heard k hk).trans (Nat.le_max_left _ _)
    · apply Nat.le_max_right
  · right
    rw [hheard]
    rcases Nat.le_total m p.payload.number with hmn | hmn
    · exact Or.inr (Nat.max_eq_right hmn)
    · rw [Nat.max_eq_left hmn]
      rcases h.attained with rfl | hm
      · exact Or.inr (Nat.le_zero.mp hmn).symm
      · exact Or.inl hm
  · exact Nat.max_le.mpr ⟨h.largest, hle⟩
  · rw [hdelivered, List.length_append, ← succId_iterate_wireId, ← h.sequenceNumber, ← hin]
    rfl
  · rw [hdelivered, List.length_append]
    exact hstop
  · rw [hdelivered, List.length_append]
    omega
  · intro k hk hkn
    rw [hheard]
    exact (h.kept k hk hkn).imp Or.inl id
  · intro k hk hkn
    exact (hheard k).mpr (Or.inl (h.cycled k hk hkn))
  · intro q hq k hk hkn hlt hacks
    exact (hheard k).mpr (Or.inl (h.acked q hq k hk hkn hlt hacks))

theorem delivers_next {build : Build} (h : v.Retains m) {p : Packet (Stamped γ)}
    (hrel : p.isReliable = true) (hnumber : p.payload.number = v.deliveredReliable.length + 1)
    (hstep : Step build v (.arrive p) v') :
    v.deliveredReliable.length < v'.deliveredReliable.length := by
  cases hstep with
  | arrive p c c' hin hack hp hreceived =>
      obtain ⟨ps, rfl, -, hps, hdelivered⟩ :=
        h.delivers hin hack hp hrel hreceived ⟨by omega, by omega⟩
      rw [hdelivered, List.length_append]
      by_contra hlt
      obtain rfl : ps = [] := List.length_eq_zero_iff.mp (by omega)
      have hid := (h.numbers.number_of_genuine (h.copies.inFlight p hp) hrel).2.2
      have hahead := h.ahead
      have hhole := hps.hole_of_lt (by rw [List.length_nil]; omega) (by rw [idPeriod]; omega)
      rw [List.length_nil, Nat.add_zero, ← hnumber, ← hid, PartialMap.find_insert_self] at hhole
      cases hhole

theorem header (h : v.Retains m) (q : Packet (Stamped γ)) (hcareful : v.Careful .header) :
    Retains { v with headers := v.headers ++ [{ q with
      ackId := v.ackId
      ackBitset := Connection.ackBitsOf v.incoming.reliablePackets v.ackId }] } m := by
  have hcopies := h.copies
  refine ⟨⟨hcopies.numbered, hcopies.queued, hcopies.stored, hcopies.inFlight,
    hcopies.buffered⟩, h.numbers, h.heard, h.attained, h.largest, h.few, h.ackId,
    h.sequenceNumber, h.behind, h.ahead, h.kept, h.cycled, ?_⟩
  intro q' hq' k hk hle hlt hacks
  rcases List.mem_append.mp hq' with hq' | hq'
  · exact h.acked q' hq' k hk hle hlt hacks
  · obtain rfl := List.mem_singleton.mp hq'
    rcases hacks with hid | ⟨i, hi, hid, hbit⟩
    · -- the ack id stands for the largest received message
      dsimp only at hle hlt
      have hscheduled := h.scheduled_le
      have hm : wireId k = wireId m := hid.trans h.ackId
      rcases h.attained with rfl | hheard
      · exact absurd hm (wireId_ne_invalidId hk)
      · rcases Nat.eq_zero_or_pos m with rfl | hmpos
        · exact absurd hm (wireId_ne_invalidId hk)
        · have hmn := h.largest
          rw [idPeriod] at hlt
          rwa [eq_of_wireId_eq hk hmpos (by rw [idPeriod]; omega) (by rw [idPeriod]; omega) hm]
    · rw [Packet.ackBit_of_ackBitsOf rfl hi] at hbit
      exact hcareful.current rfl i hi hbit k hk hle hlt hid

theorem step {build : Build} {e : Event (Stamped γ)} (h : v.Retains m)
    (hstep : Step build v e v') (hnumber : ∀ p, e = .schedule p → p.isReliable = true →
      p.payload.number = v.scheduled.length + 1)
    (hwindow : v.Windowed e v') (hcareful : v.Careful e) : ∃ m', v'.Retains m' := by
  have hcopies := h.copies.step hstep
  cases hstep with
  | schedule p c hc =>
      cases hrel : p.isReliable with
      | false =>
          rw [hrel] at hcopies
          refine ⟨m, h.frame hcopies rfl (fun _ ↦ Iff.rfl) ?_ rfl rfl rfl (List.Subset.refl _)⟩
          simp [Connection.schedule_of_unreliable hrel, hc]
      | true =>
          have hfew := hwindow.few
          rw [if_pos hrel] at hfew
          exact ⟨m, h.schedule hc hrel (hnumber p rfl hrel) hcareful hfew⟩
  | acks q c hc hq => exact ⟨m, h.acks hc hq⟩
  | arrive p c c' hin hack hp hreceived =>
      cases hrel : p.isReliable with
      | false =>
          rw [Connection.received_of_unreliable build c hrel] at hreceived
          obtain rfl := Except.ok.inj hreceived
          refine ⟨m, h.frame hcopies rfl ?_ rfl ?_ ?_ ?_ (List.Subset.refl _)⟩
          · intro k
            simp [Heard, or_and_right, exists_or, hrel]
          · simpa using hack
          · simp [hin]
          · simp [deliveredReliable, hin, hrel]
      | true =>
          exact ⟨_, h.arrive hin hack hp hrel hreceived (hwindow.near p rfl hrel) hwindow.few⟩
  | header q => exact ⟨m, h.header q hcareful⟩
  | consume p rest hready =>
      refine ⟨m, h.frame hcopies rfl (fun _ ↦ Iff.rfl) rfl rfl rfl ?_ (List.Subset.refl _)⟩
      simp [deliveredReliable, hready]
  | drop inFlight headers hsub hsub' =>
      exact ⟨m, h.frame hcopies rfl (fun _ ↦ Iff.rfl) rfl rfl rfl rfl hsub'⟩
  | idle | send =>
      exact ⟨m, h.frame hcopies rfl (fun _ ↦ Iff.rfl) rfl rfl rfl rfl (List.Subset.refl _)⟩

theorem payload_of_keeps (h : v.Retains m) {i : ℕ} (hi : i < v.scheduled.length)
    (hkeeps : v.Keeps (i + 1)) :
    ∃ id p, v.outgoing.reliablePackets.find id = some p ∧
      p.payload = v.scheduled[i].payload := by
  obtain ⟨p, hp, hnumber⟩ := hkeeps
  refine ⟨_, p, hp, ?_⟩
  obtain ⟨-, hrel, hgen⟩ := h.copies.stored _ p hp
  obtain ⟨j, hj, -, hpayload⟩ := hgen hrel
  rw [hpayload, h.numbers j hj] at hnumber
  obtain rfl := Nat.succ.inj hnumber
  exact hpayload

end Retains

end Stream

namespace Link

variable {γ : Type}

/-- A numbered step that the window of the direction from `s` allows. -/
structure WindowedStep (build : Build) (s : Side) (l : Link (Stamped γ))
    (a : Action (Stamped γ)) (l' : Link (Stamped γ)) : Prop extends NumberedStep build l a l' where
  windowed : (l.stream s).Windowed (a.event s) (l'.stream s)

structure CarefulStep (build : Build) (s : Side) (l : Link (Stamped γ))
    (a : Action (Stamped γ)) (l' : Link (Stamped γ)) : Prop
    extends WindowedStep build s l a l' where
  careful : (l.stream s).Careful (a.event s)

theorem retains_fresh (address : Side → NetAddress) (s : Side) :
    ((fresh address : Link (Stamped γ)).stream s).Retains 0 := by
  refine ⟨copies_fresh address s, ?_, ?_, Or.inl rfl, le_rfl, Nat.zero_le _, rfl, rfl, le_rfl,
    Nat.zero_le _, ?_, ?_, ?_⟩
  · intro i hi
    exact absurd hi (Nat.not_lt_zero i)
  · rintro k ⟨p, hp, -⟩
    simp [stream, fresh] at hp
  · intro k hk hle
    simp [stream, fresh] at hle
    omega
  · intro k hk hle
    simp [stream, fresh] at hle
    omega
  · intro q hq
    simp [stream, fresh] at hq

theorem retains_of_run {build : Build} {address : Side → NetAddress} {s : Side}
    {l : Link (Stamped γ)} (h : LabelledRun.Reaches (CarefulStep build s) (fresh address) l) :
    ∃ m, (l.stream s).Retains m := by
  refine h.invariant (fun l ↦ ∃ m, (l.stream s).Retains m) ⟨0, retains_fresh address s⟩ ?_
  rintro t a u ⟨m, hm⟩ hstep
  refine hm.step (hstep.step.stream s) ?_ hstep.windowed hstep.careful
  intro p he hrel
  exact hstep.number s p (Action.event_eq_schedule he) hrel

theorem WindowedStep.of_same {build : Build} {s : Side} {l l' : Link (Stamped γ)}
    {a : Action (Stamped γ)} (h : Step build l a l')
    (hnumber : ∀ t p, a = .schedule t p → p.isReliable = false)
    (harrive : ∀ p, a.event s ≠ .arrive p) (hfew : (l.stream s).unheard.card ≤ 32)
    (hscheduled : (l'.stream s).scheduled = (l.stream s).scheduled)
    (hreceived : (l'.stream s).received = (l.stream s).received) : WindowedStep build s l a l' := by
  refine ⟨⟨h, ?_⟩, ⟨fun p he ↦ absurd he (harrive p), ?_⟩⟩
  · intro t p ha hrel
    rw [hnumber t p ha] at hrel
    cases hrel
  · have hsame : (l'.stream s).unheard = (l.stream s).unheard := by
      ext k
      simp only [Stream.mem_unheard, Stream.Heard, hscheduled, hreceived]
    rwa [hsame]

/-- In a run of careful steps every scheduled message, told apart by its number,
has been received or is still in the sender's store with its payload. -/
theorem scheduled_heard_or_held (build : Build) (address : Side → NetAddress) (s : Side)
    {labels : List (Action (Stamped γ))} {l : Link (Stamped γ)}
    (h : LabelledRun.Run (CarefulStep build s) (fresh address) labels l) (i : ℕ)
    (hi : i < (l.endpoint s).scheduled.length) :
    (∃ p ∈ (l.endpoint s.other).received, p.isReliable = true ∧ p.payload.number = i + 1) ∨
      ∃ id p, (l.endpoint s).connection.outgoing.reliablePackets.find id = some p ∧
        p.payload = (l.endpoint s).scheduled[i].payload := by
  obtain ⟨m, hm⟩ := retains_of_run ⟨labels, h⟩
  rcases hm.kept (i + 1) (Nat.succ_pos i) hi with hheard | hkeeps
  · exact Or.inl hheard
  · exact Or.inr (hm.payload_of_keeps hi hkeeps)

/-! ## An ack of an older message -/

def message (k : ℕ) : Packet (Stamped Unit) := Packet.make .data .reliable ⟨k, ()⟩

theorem message_isReliable (k : ℕ) : (message k).isReliable = true := Packet.make_isReliable ..

/-- Side `a` has put `n` messages into the network and those in `got` have
arrived; nothing has been sent in the other direction. -/
structure Sent (l : Link (Stamped Unit)) (n : ℕ) (got : ℕ → Prop) : Prop where
  run : LabelledRun.Reaches (CarefulStep .debug .a) (fresh fun _ ↦ {}) l
  count : (l.endpoint .a).scheduled.length = n
  queue : (l.endpoint .a).connection.outgoing.readyPackets = []
  inFlight : ∀ k, 0 < k → k ≤ n →
    ∃ p ∈ l.network .a, p.isReliable = true ∧ p.payload.number = k
  heard : ∀ k, (l.stream .a).Heard k ↔ got k
  stored : ∀ k, got k →
    (l.endpoint .b).connection.incoming.reliablePackets.contains (wireId k) = true
  silent : l.network .b = []
  quiet : (l.endpoint .b).connection.outgoing.readyPackets = [] ∧
    ∀ id, (l.endpoint .b).connection.outgoing.reliablePackets.find id = none

theorem sent_fresh : Sent (fresh fun _ ↦ {}) 0 fun k ↦ 0 < k ∧ k ≤ 0 := by
  refine ⟨.refl _, rfl, rfl, ?_, ?_, ?_, rfl, rfl, fun _ ↦ rfl⟩
  · intro k hk hle
    omega
  · intro k
    simp only [Stream.Heard, stream, fresh, List.not_mem_nil, false_and, exists_false, false_iff]
    omega
  · intro k hk
    omega

theorem numbered_of_run {build : Build} {address : Side → NetAddress} (s : Side)
    {l : Link (Stamped γ)} (h : LabelledRun.Reaches (NumberedStep build) (fresh address) l) :
    (l.stream s).Numbered := by
  refine h.invariant (fun l ↦ (l.stream s).Numbered) ?_ ?_
  · intro i hi
    exact absurd hi (Nat.not_lt_zero i)
  · intro t a u hnumbered hstep
    refine hnumbered.step (hstep.step.stream s) ?_
    intro p he hrel
    exact hstep.number s p (Action.event_eq_schedule he) hrel

theorem reachable_of_run {build : Build} {address : Side → NetAddress} {s : Side}
    {l : Link (Stamped γ)} (h : LabelledRun.Reaches (CarefulStep build s) (fresh address) l) :
    Reachable build address l :=
  h.mono fun _ _ _ hstep ↦ hstep.step

theorem card_unheard_le {v : Stream (Stamped γ)}
    (h : ∀ k, 0 < k → k + 1 < v.scheduled.length → v.Heard k) : v.unheard.card ≤ 32 := by
  have hsub : v.unheard ⊆ {v.scheduled.length - 1, v.scheduled.length} := by
    intro k hk
    obtain ⟨⟨hpos, hle⟩, hnot⟩ := Stream.mem_unheard.mp hk
    have hlast : ¬ k + 1 < v.scheduled.length := fun hlt ↦ hnot (h k hpos hlt)
    simp only [Finset.mem_insert, Finset.mem_singleton]
    omega
  exact (Finset.card_le_card hsub).trans (Finset.card_le_two.trans (by decide))

/-- Who has nothing to send has no answer to acks. -/
theorem quiet_received {build : Build} {c c' : Connection γ} {p : Packet γ}
    (hquiet : c.outgoing.readyPackets = [] ∧ ∀ id, c.outgoing.reliablePackets.find id = none)
    (h : c.received build p = .ok c') :
    c'.outgoing.readyPackets = [] ∧ ∀ id, c'.outgoing.reliablePackets.find id = none := by
  have hnone : c.rescheduled p sizeofAckBitset = [] := by
    apply List.eq_nil_iff_forall_not_mem.mpr
    intro q hq
    obtain ⟨i, -, -, hfind⟩ := Connection.mem_rescheduled.mp hq
    rw [hquiet.2] at hfind
    cases hfind
  rw [Connection.received_outgoing h]
  constructor
  · rw [Connection.processAcks_readyPackets, hquiet.1, hnone]
    rfl
  · intro id
    by_contra hne
    obtain ⟨q, hq⟩ := Option.ne_none_iff_exists'.mp hne
    have hold := (Connection.processAcks_find_some hq).2
    rw [hquiet.2] at hold
    cases hold

namespace Sent

variable {l : Link (Stamped Unit)} {n : ℕ} {got : ℕ → Prop}

theorem send (h : Sent l n got) (hgot : ∀ k, 0 < k → k + 1 ≤ n → got k) :
    ∃ l', Sent l' (n + 1) got ∧
      (l'.stream .a).deliveredReliable = (l.stream .a).deliveredReliable := by
  have hrel := message_isReliable (n + 1)
  have hschedule : Step .debug l (.schedule .a (message (n + 1)))
      (l.setEndpoint .a ((l.endpoint .a).schedule (message (n + 1)))) :=
    .schedule .a (message (n + 1))
  have hfirst : CarefulStep .debug .a l (.schedule .a (message (n + 1)))
      (l.setEndpoint .a ((l.endpoint .a).schedule (message (n + 1)))) := by
    refine ⟨⟨⟨hschedule, ?_⟩, ⟨by simp [Action.event], ?_⟩⟩, ⟨?_, ?_, by simp [Action.event]⟩⟩
    · intro t p he _
      obtain ⟨rfl, rfl⟩ := (Action.schedule.injEq ..).mp he
      rw [h.count]
      rfl
    · apply card_unheard_le
      intro k hk hlt
      refine (h.heard k).mpr (hgot k hk ?_)
      simp [stream, Endpoint.schedule, hrel, h.count] at hlt
      omega
    · intro p _ _ k hk hkn
      refine (h.heard k).mpr (hgot k hk ?_)
      simp [stream, h.count, idPeriod] at hkn
      omega
    · intro p _ _ q hq
      simp [stream, Side.other, h.silent] at hq
  have hready : ((l.setEndpoint .a ((l.endpoint .a).schedule (message (n + 1)))).endpoint
      .a).connection.outgoing.readyPackets =
        [(l.endpoint .a).connection.scheduledPacket (message (n + 1))] := by
    simp [Endpoint.schedule, h.queue]
  have hpop := Connection.popReadyOutgoingPacket_eq_some_iff.mpr ⟨_, _, hready, rfl, rfl⟩
  have hlast : Step .debug _ (.pop .a) _ := .pop .a _ _ hpop
  refine ⟨_, ⟨(h.run.tail hfirst).tail ⟨⟨⟨hlast, by simp⟩, ⟨by simp [Action.event], ?_⟩⟩,
    ⟨by simp [Action.event], by simp [Action.event], by simp [Action.event]⟩⟩, ?_, ?_, ?_, ?_, ?_,
    ?_, ?_⟩, ?_⟩
  · exact hfirst.windowed.few
  · simp [Endpoint.schedule, hrel, h.count]
  · simp
  · intro k hk hle
    rcases Nat.le_or_eq_of_le_succ hle with hle | rfl
    · obtain ⟨p, hp, hprel⟩ := h.inFlight k hk hle
      exact ⟨p, by simp [hp], hprel⟩
    · refine ⟨_, List.mem_append_right _ (List.mem_singleton_self _), ?_, ?_⟩
      · exact (Connection.scheduledPacket_isReliable _ _).trans hrel
      · simp [message, Packet.make, Packet.setFlags]
  · exact h.heard
  · exact h.stored
  · exact h.silent
  · exact h.quiet
  · rfl

theorem hear (h : Sent l n got) {k : ℕ} (hk : 0 < k) (hkn : k ≤ n)
    (hnear : k ≤ (l.stream .a).deliveredReliable.length + 32 ∧
      (l.stream .a).deliveredReliable.length ≤ k + 32)
    (hgot : ∀ j, 0 < j → j + 1 < n → got j ∨ j = k) :
    ∃ l' p, Sent l' n (fun j ↦ got j ∨ j = k) ∧ p.isReliable = true ∧ p.payload.number = k ∧
      Stream.Step .debug (l.stream .a) (.arrive p) (l'.stream .a) := by
  obtain ⟨p, hp, hrel, rfl⟩ := h.inFlight k hk hkn
  have hreachable := reachable_of_run h.run
  obtain ⟨m, hretains⟩ := retains_of_run h.run
  have hid := (hretains.numbers.number_of_genuine ((hreachable.copies .a).inFlight p hp) hrel).2.2
  obtain ⟨ps, -, hok⟩ := Connection.received_of_reliable .debug (l.endpoint .b).connection hrel
    (((hreachable.copies .a).inFlight p hp).id_ne hrel)
  have hstep : Step .debug l (.receive .b p) _ := .receive .b p _ hp hok
  have hheard := fun j ↦ Stream.Retains.heard_append (k := j) (v := l.stream .a) p hrel
    (show ((l.setEndpoint .b { l.endpoint .b with
      connection := (l.endpoint .b).connection.afterReliable p ps
      received := (l.endpoint .b).received ++ [p] }).stream .a).received = _ by simp [stream])
  refine ⟨_, p, ⟨h.run.tail ⟨⟨⟨hstep, by simp⟩, ⟨?_, ?_⟩⟩,
    ⟨by simp [Action.event], by simp [Action.event], by simp [Action.event]⟩⟩,
    ?_, ?_, ?_, ?_, ?_, ?_, ?_⟩, hrel, rfl, ?_⟩
  · rintro q hq -
    obtain rfl : p = q := by simpa [Action.event] using hq
    exact hnear
  · apply card_unheard_le
    intro j hj hlt
    rw [hheard, h.heard]
    exact hgot j hj (by simpa [stream, h.count] using hlt)
  · simpa using h.count
  · simpa using h.queue
  · simpa using h.inFlight
  · intro j
    rw [hheard, h.heard]
  · intro j hj
    simp [Connection.afterReliable, Connection.deliver, PartialMap.contains_insert, hid]
    rcases hj with hj | rfl
    · exact Or.inr (h.stored j hj)
    · exact Or.inl rfl
  · exact h.silent
  · simpa using quiet_received h.quiet hok
  · have hstream := hstep.stream .a
    simpa [Action.event] using hstream

theorem answer (h : Sent l n got) : ∃ l' : Link (Stamped Unit),
    LabelledRun.Reaches (WindowedStep .debug .a) (fresh fun _ ↦ {}) l' ∧
      (l'.endpoint .a).scheduled = (l.endpoint .a).scheduled ∧
      (l'.stream .a).received = (l.stream .a).received ∧
      ∃ q : Packet (Stamped Unit), q.ackId = (l.endpoint .b).connection.currentAckId ∧
        q.ackBitset = (l.endpoint .b).connection.ackBits ∧
        (l'.endpoint .a).connection.outgoing =
          ((l.endpoint .a).connection.processAcks q).outgoing := by
  let p : Packet (Stamped Unit) := Packet.make .data .none ⟨0, ()⟩
  have hrel : p.isReliable = false := Packet.make_data_isReliable _
  obtain ⟨m, hm⟩ := retains_of_run h.run
  obtain ⟨l₁, hschedule, ha₁, hb₁, hready⟩ : ∃ l₁ : Link (Stamped Unit),
      Step .debug l (.schedule .b p) l₁ ∧ l₁.endpoint .a = l.endpoint .a ∧
        (l₁.endpoint .b = (l.endpoint .b).schedule p) ∧
        (l₁.endpoint .b).connection.outgoing.readyPackets = [p] := by
    refine ⟨_, .schedule .b p, by simp, by simp, ?_⟩
    simp [Endpoint.schedule, Connection.scheduledPacket, hrel, h.quiet.1]
  obtain ⟨l₂, q, hpop, ha₂, hb₂, hq, hqrel, hqack, hqbits⟩ : ∃ (l₂ : Link (Stamped Unit)) (q : _),
      Step .debug l₁ (.pop .b) l₂ ∧ l₂.endpoint .a = l₁.endpoint .a ∧
        (l₂.endpoint .b).received = (l₁.endpoint .b).received ∧ q ∈ l₂.network .b ∧
        q.isReliable = false ∧ q.ackId = (l₁.endpoint .b).connection.currentAckId ∧
        q.ackBitset = (l₁.endpoint .b).connection.ackBits := by
    refine ⟨_, { p with
        ackId := (l₁.endpoint .b).connection.currentAckId
        ackBitset := (l₁.endpoint .b).connection.ackBits }, .pop .b _ _
      (Connection.popReadyOutgoingPacket_eq_some_iff.mpr ⟨_, _, hready, rfl, rfl⟩),
      by simp, by simp, ?_, hrel, rfl, rfl⟩
    simp only [setNetwork_network, if_true]
    exact List.mem_append_right _ (List.mem_singleton_self _)
  have hreceive : Step .debug l₂ (.receive .a q) _ :=
    .receive .a q _ hq (Connection.received_of_unreliable .debug (l₂.endpoint .a).connection hqrel)
  have hrec₁ : (l₁.stream .a).received = (l.stream .a).received := by simp [stream, hb₁]; rfl
  have hrec₂ : (l₂.stream .a).received = (l₁.stream .a).received := by simpa [stream] using hb₂
  have hw₁ : WindowedStep .debug .a l (.schedule .b p) l₁ := by
    apply WindowedStep.of_same hschedule _ (by simp [Action.event]) hm.few _ hrec₁
    · rintro t p' ha
      obtain ⟨-, rfl⟩ := (Action.schedule.injEq ..).mp ha
      exact hrel
    · simp [stream, ha₁]
  have hw₂ : WindowedStep .debug .a l₁ (.pop .b) l₂ :=
    .of_same hpop (by simp) (by simp [Action.event]) hw₁.windowed.few (by simp [stream, ha₂]) hrec₂
  have hw₃ : WindowedStep .debug .a l₂ (.receive .a q) _ :=
    .of_same hreceive (by simp) (by simp [Action.event]) hw₂.windowed.few (by simp [stream])
      (by simp [stream])
  refine ⟨_, (((h.run.mono fun _ _ _ hstep ↦ hstep.toWindowedStep).tail hw₁).tail hw₂).tail hw₃,
    ?_, ?_, q, ?_, ?_, ?_⟩
  · simp [ha₂, ha₁]
  · rw [← hrec₁, ← hrec₂]
    simp [stream]
  · simp [hqack, hb₁, Endpoint.schedule]
  · simp [hqbits, hb₁, Endpoint.schedule, Connection.ackBits]
  · simp [ha₂, ha₁]

end Sent

theorem exists_rounds (n : ℕ) : ∃ l, Sent l n (fun k ↦ 0 < k ∧ k ≤ n) ∧
    (l.stream .a).deliveredReliable.length = n := by
  induction n with
  | zero => exact ⟨_, sent_fresh, rfl⟩
  | succ n ih =>
      obtain ⟨l, hl, hdelivered⟩ := ih
      obtain ⟨l₁, hl₁, hsame⟩ := hl.send fun k hk hle ↦ ⟨hk, by omega⟩
      rw [← hsame] at hdelivered
      obtain ⟨l₂, p, hl₂, hrel, hnumber, hstep⟩ := hl₁.hear (Nat.succ_pos n) le_rfl
        ⟨by omega, by omega⟩ fun j hj hlt ↦ Or.inl ⟨hj, by omega⟩
      have hgot : (fun j ↦ (0 < j ∧ j ≤ n) ∨ j = n + 1) = fun j ↦ 0 < j ∧ j ≤ n + 1 := by
        funext j
        apply propext
        omega
      rw [hgot] at hl₂
      refine ⟨l₂, hl₂, ?_⟩
      obtain ⟨m₁, hm₁⟩ := retains_of_run hl₁.run
      obtain ⟨m₂, hm₂⟩ := retains_of_run hl₂.run
      have hmore := hm₁.delivers_next hrel (by rw [hnumber, hdelivered]) hstep
      have hbehind := hm₂.behind
      have hlargest : m₂ ≤ n + 1 := hl₂.count ▸ hm₂.largest
      omega

/-- Message `65536` is lost, the next one arrives, and the header of the answer
has the bit of message `1`, which has the id of the lost one. -/
theorem exists_forgotten : ∃ l : Link (Stamped Unit),
    LabelledRun.Reaches (WindowedStep .debug .a) (fresh fun _ ↦ {}) l ∧
      (l.endpoint .a).scheduled.length = 65537 ∧ ¬ (l.stream .a).Heard 65536 ∧
      (l.endpoint .a).connection.outgoing.reliablePackets.find (wireId 65536) = none := by
  obtain ⟨l₀, hl₀, hdelivered⟩ := exists_rounds 65535
  obtain ⟨l₁, hl₁, hsame⟩ := hl₀.send fun k hk hle ↦ ⟨hk, by omega⟩
  obtain ⟨l₂, hl₂, hsame'⟩ := hl₁.send fun k hk hle ↦ ⟨hk, by omega⟩
  rw [← hsame, ← hsame'] at hdelivered
  obtain ⟨l, -, hl, -⟩ := hl₂.hear (k := 65537) (by decide) le_rfl ⟨by omega, by omega⟩
    fun j hj hlt ↦ Or.inl ⟨hj, by omega⟩
  obtain ⟨m, hm⟩ := retains_of_run hl.run
  obtain rfl : m = 65537 := by
    have hle : m ≤ (l.endpoint .a).scheduled.length := hm.largest
    rw [hl.count] at hle
    have hge := hm.heard 65537 ((hl.heard _).mpr (Or.inr rfl))
    omega
  have hack : (l.endpoint .b).connection.currentAckId = wireId 65537 := hm.ackId
  obtain ⟨l', hrun, hscheduled, hreceived, q, hqack, hqbits, hout⟩ := hl.answer
  refine ⟨l', hrun, by rw [hscheduled, hl.count], ?_, ?_⟩
  · rintro ⟨p, hp, hrel, hnumber⟩
    have hheard : (l.stream .a).Heard 65536 := ⟨p, hreceived ▸ hp, hrel, hnumber⟩
    rcases (hl.heard _).mp hheard with ⟨-, hle⟩ | heq <;> omega
  · rw [hout]
    cases hfind : ((l.endpoint .a).connection.processAcks q).outgoing.reliablePackets.find
        (wireId 65536) with
    | none => rfl
    | some p =>
        have hacks : q.Acks (wireId 65536) := by
          have hid : q.ackWindowId 0 = wireId 1 := by
            rw [Packet.ackWindowId, hqack, hack]
            decide
          refine Or.inr ⟨0, by decide, by rw [hid]; decide, ?_⟩
          rw [Packet.ackBit_of_ackBitsOf (by rw [hqbits, hqack]) (by decide), hid]
          exact hl.stored 1 (Or.inl ⟨by decide, by decide⟩)
        exact absurd hacks (Connection.processAcks_find_some hfind).1

/-- In the run above message `65536` is neither received nor held any more. -/
theorem message_forgotten_after_wrap : ∃ (labels : List (Action (Stamped Unit)))
    (l : Link (Stamped Unit)),
    LabelledRun.Run (WindowedStep .debug .a) (fresh fun _ ↦ {}) labels l ∧
      ∃ h : 65535 < (l.endpoint .a).scheduled.length,
        ¬ ((∃ p ∈ (l.endpoint .b).received, p.isReliable = true ∧ p.payload.number = 65535 + 1) ∨
          ∃ id p, (l.endpoint .a).connection.outgoing.reliablePackets.find id = some p ∧
            p.payload = (l.endpoint .a).scheduled[65535].payload) := by
  obtain ⟨l, ⟨labels, hrun⟩, hcount, hheard, hfind⟩ := exists_forgotten
  have hlt : 65535 < (l.endpoint .a).scheduled.length := by omega
  refine ⟨labels, l, hrun, hlt, ?_⟩
  rintro (hmem | ⟨id, p, hp, hpayload⟩)
  · exact hheard hmem
  · have hnumbered := numbered_of_run .a (LabelledRun.Reaches.mono ⟨labels, hrun⟩
      fun _ _ _ hstep ↦ hstep.toNumberedStep)
    have hreachable : Reachable .debug _ l := ⟨labels, hrun.mono fun _ _ _ hstep ↦ hstep.step⟩
    obtain ⟨rfl, hrel, hgen⟩ := (hreachable.copies .a).stored id p hp
    have hid := (hnumbered.number_of_genuine hgen hrel).2.2
    have hnumber : p.payload.number = 65536 := by
      rw [hpayload]
      exact hnumbered 65535 hlt
    rw [hid, hnumber, hfind] at hp
    cases hp

/-- A message that is still in flight is held. -/
theorem scheduled_heard_or_held_in_flight : ∃ l : Link (Stamped Unit),
    (l.endpoint .a).scheduled.length = 3 ∧ ¬ (l.stream .a).Heard 3 ∧
      ∃ id p, (l.endpoint .a).connection.outgoing.reliablePackets.find id = some p ∧
        p.payload.number = 3 := by
  obtain ⟨l₀, hl₀, -⟩ := exists_rounds 2
  obtain ⟨l, hl, -⟩ := hl₀.send fun k hk hle ↦ ⟨hk, by omega⟩
  obtain ⟨labels, hrun⟩ := hl.run
  have hlt : 2 < (l.endpoint .a).scheduled.length := by
    rw [hl.count]
    decide
  have hheard : ¬ (l.stream .a).Heard 3 := by
    rw [hl.heard]
    omega
  refine ⟨l, hl.count, hheard, ?_⟩
  rcases scheduled_heard_or_held .debug _ .a hrun 2 hlt with hmem | ⟨id, p, hp, hpayload⟩
  · exact absurd hmem hheard
  · have hnumbered := numbered_of_run .a (hl.run.mono fun _ _ _ hstep ↦ hstep.toNumberedStep)
    exact ⟨id, p, hp, hpayload ▸ hnumbered 2 hlt⟩

end Link

end GioNet
