import GioNet.OrderedDelivery

/-!
# The first id cycle

While a sender has used ids of the lower half of the range only, the ids are the
message numbers, the ack id of the receiver is the largest number that has
arrived, and an ack that is read off a header is an ack of an arrived message.
-/

namespace GioNet

open Packet (invalidId maxPossibleId)

namespace Stream

variable {β : Type} {v : Stream β}

def Got (v : Stream β) (k : ℕ) : Prop := v.incoming.reliablePackets.contains (wireId k) = true

/-- The largest number for which messages can be numbered by ids that the
half-range comparison orders like numbers. -/
def lowMax : ℕ := 32766

structure FirstCycle (v : Stream β) : Prop where
  ordered : v.Ordered
  held : ∀ k, 0 < k → k ≤ v.scheduled.length → ¬ v.Got k →
    ∃ p, v.outgoing.reliablePackets.find (wireId k) = some p
  below : ∀ id, v.incoming.reliablePackets.contains id = true → id.toNat ≤ v.ackId.toNat
  attained : v.ackId = invalidId ∨ v.incoming.reliablePackets.contains v.ackId = true
  contiguous : ∀ k, 0 < k → k ≤ v.incoming.sequenceNumber.toNat → v.Got k
  gap : ¬ v.Got (v.incoming.sequenceNumber.toNat + 1)
  headers : ∀ q ∈ v.headers, q.ackId.toNat ≤ v.ackId.toNat ∧
    ∀ id ≠ invalidId, q.Acks id → v.incoming.reliablePackets.contains id = true

namespace FirstCycle

theorem le_scheduled (h : v.FirstCycle) {id : IdType}
    (hid : v.incoming.reliablePackets.contains id = true)
    (hbound : v.scheduled.length ≤ lowMax) : 0 < id.toNat ∧ id.toNat ≤ v.scheduled.length := by
  obtain ⟨p, hp⟩ := PartialMap.contains_iff.mp hid
  obtain ⟨rfl, hrel, hgen⟩ := h.ordered.buffered _ _ hp
  obtain ⟨k, hk, hkid, -⟩ := hgen hrel
  rw [lowMax] at hbound
  rw [hkid, wireId_toNat_of_le (by rw [idPeriod]; omega)]
  omega

theorem ackId_le (h : v.FirstCycle) (hbound : v.scheduled.length ≤ lowMax) :
    v.ackId.toNat ≤ v.scheduled.length := by
  rcases h.attained with hzero | hack
  · rw [eq_invalidId_iff.mp hzero]
    apply Nat.zero_le
  · exact (h.le_scheduled hack hbound).2

theorem delivered (h : v.FirstCycle) (hbound : v.scheduled.length ≤ lowMax) :
    v.incoming.sequenceNumber.toNat ≤ v.scheduled.length ∧
      v.deliveredReliable.map Packet.payload =
        (v.scheduled.map Packet.payload).take v.incoming.sequenceNumber.toNat := by
  obtain ⟨d, hd, hseq, hpayloads⟩ := h.ordered.delivered
  rw [lowMax] at hbound
  rw [hseq, wireId_toNat_of_le (by rw [idPeriod]; omega)]
  exact ⟨hd, hpayloads⟩

theorem schedule (h : v.FirstCycle) (p : Packet β) {c : Connection β}
    (hc : c.outgoing = v.outgoing) :
    FirstCycle { v with
      outgoing := (c.schedule p).outgoing
      scheduled := if p.isReliable then v.scheduled ++ [p] else v.scheduled } := by
  have hordered := h.ordered.schedule p hc
  cases hrel : p.isReliable with
  | false =>
      rw [hrel] at hordered
      refine ⟨hordered, ?_, h.below, h.attained, h.contiguous, h.gap, h.headers⟩
      · intro k hk hle hgot
        simpa [Connection.schedule_of_unreliable hrel, hc] using h.held k hk hle hgot
  | true =>
      rw [hrel] at hordered
      have hnew : succId c.outgoing.sequenceNumber = wireId (v.scheduled.length + 1) := by
        rw [hc, h.ordered.numbered, wireId_succ]
      refine ⟨hordered, ?_, h.below, h.attained, h.contiguous, h.gap, h.headers⟩
      · intro k hk hle hgot
        simp only [Connection.schedule_of_reliable hrel, PartialMap.find_insert]
        by_cases hid : wireId k = succId c.outgoing.sequenceNumber
        · exact ⟨_, if_pos hid⟩
        · have hne : k ≠ v.scheduled.length + 1 := fun he ↦ hid (he ▸ hnew.symm)
          have hle' : k ≤ v.scheduled.length + 1 := by simpa using hle
          obtain ⟨q, hq⟩ := h.held k hk (by omega) hgot
          exact ⟨q, by rw [if_neg hid, hc, hq]⟩

theorem acks (h : v.FirstCycle) {q : Packet β} {c : Connection β} (hc : c.outgoing = v.outgoing)
    (hq : q ∈ v.headers) : FirstCycle { v with outgoing := (c.processAcks q).outgoing } := by
  classical
  refine ⟨⟨h.ordered.toCopies.acks q hc, h.ordered.delivered⟩, ?_, h.below, h.attained,
    h.contiguous, h.gap, h.headers⟩
  · intro k hk hle hgot
    obtain ⟨p, hp⟩ := h.held k hk hle hgot
    refine ⟨p, ?_⟩
    rw [Connection.processAcks_find, if_neg, hc, hp]
    exact fun hacks ↦ hgot ((h.headers q hq).2 _ (wireId_ne_invalidId hk) hacks)

/-- The arrival of a reliable copy adds its id to those that have arrived, and
the ack id becomes the larger of the two. -/
theorem received {build : Build} (h : v.FirstCycle) (hbound : v.scheduled.length ≤ lowMax)
    {p : Packet β} {c c' : Connection β} (hin : c.incoming = v.incoming)
    (hack : c.currentAckId = v.ackId) (hp : p ∈ v.inFlight) (hrel : p.isReliable = true)
    (hreceived : c.received build p = .ok c') :
    (∀ id, c'.incoming.reliablePackets.contains id = true ↔
        id = p.id ∨ v.incoming.reliablePackets.contains id = true) ∧
      c'.currentAckId.toNat = max v.ackId.toNat p.id.toNat := by
  obtain ⟨ps, -, rfl⟩ := h.ordered.received hin hp hrel hreceived
  obtain ⟨k, hk, hid, -⟩ := h.ordered.inFlight p hp hrel
  have hackle := h.ackId_le hbound
  rw [lowMax] at hbound
  have hidNat : p.id.toNat = k + 1 := by
    rw [hid, wireId_toNat_of_le (by rw [idPeriod]; omega)]
  constructor
  · intro id
    rw [← hin]
    change (c.incoming.reliablePackets.insert p.id p).contains id = true ↔ _
    rw [PartialMap.contains_insert, Bool.or_eq_true, decide_eq_true_iff]
  · rw [← hack] at hackle ⊢
    exact Connection.toNat_latestId (by omega) (by omega) (by omega)

theorem attained_received {build : Build} (h : v.FirstCycle) (hbound : v.scheduled.length ≤ lowMax)
    {p : Packet β} {c c' : Connection β} (hin : c.incoming = v.incoming)
    (hack : c.currentAckId = v.ackId) (hp : p ∈ v.inFlight) (hrel : p.isReliable = true)
    (hreceived : c.received build p = .ok c') :
    c'.incoming.reliablePackets.contains c'.currentAckId = true := by
  obtain ⟨hcontains, hmax⟩ := h.received hbound hin hack hp hrel hreceived
  rw [hcontains]
  rcases Nat.le_total v.ackId.toNat p.id.toNat with hle | hle
  · left
    rw [← UInt16.toNat_inj, hmax, Nat.max_eq_right hle]
  · have hsame : c'.currentAckId = v.ackId := by
      rw [← UInt16.toNat_inj, hmax, Nat.max_eq_left hle]
    rcases h.attained with hzero | hcontained
    · left
      rw [hsame, hzero]
      rw [eq_invalidId_iff.mp hzero, Nat.le_zero] at hle
      exact (eq_invalidId_iff.mpr hle).symm
    · right
      rwa [hsame]

/-- The loop moves the sequence number to the end of the gapless prefix of what
has arrived. -/
theorem prefix_received {build : Build} (h : v.FirstCycle) (hbound : v.scheduled.length ≤ lowMax)
    {p : Packet β} {c c' : Connection β} (hin : c.incoming = v.incoming)
    (hack : c.currentAckId = v.ackId) (hp : p ∈ v.inFlight) (hrel : p.isReliable = true)
    (hreceived : c.received build p = .ok c') :
    (∀ j, 0 < j → j ≤ c'.incoming.sequenceNumber.toNat →
        c'.incoming.reliablePackets.contains (wireId j) = true) ∧
      c'.incoming.reliablePackets.contains
        (wireId (c'.incoming.sequenceNumber.toNat + 1)) = false := by
  obtain ⟨hcontains, hmax⟩ := h.received hbound hin hack hp hrel hreceived
  obtain ⟨ps, hps, rfl⟩ := h.ordered.received hin hp hrel hreceived
  obtain ⟨d, hd, hseq, -⟩ := h.ordered.delivered
  rw [lowMax] at hbound
  have hseqNat : v.incoming.sequenceNumber.toNat = d := by
    rw [hseq, wireId_toNat_of_le (by rw [idPeriod]; omega)]
  rw [hseq] at hps
  have hlen := (hps.of_genuine (h.ordered.buffered.insert (h.ordered.inFlight p hp) hrel)
    (by rw [idPeriod]; omega) hd).2.1
  have hseqNat' : (c.afterReliable p ps).incoming.sequenceNumber.toNat = d + ps.length := by
    have hseq' : (c.afterReliable p ps).incoming.sequenceNumber =
        succId^[ps.length] (wireId d) := by
      rw [← hseq, ← hin]
      rfl
    rw [hseq', succId_iterate_wireId, wireId_toNat_of_le (by rw [idPeriod]; omega)]
  have hmap : (c.afterReliable p ps).incoming.reliablePackets =
      v.incoming.reliablePackets.insert p.id p := by
    rw [← hin]
    rfl
  rw [hseqNat']
  constructor
  · intro j hj hle
    rcases Nat.lt_or_ge d j with hlt | hge
    · have hfound := hps.found_wireId (i := j - d - 1) (by omega)
      rw [show d + (j - d - 1) + 1 = j by omega, ← hmap] at hfound
      exact PartialMap.contains_iff.mpr ⟨_, hfound⟩
    · exact (hcontains _).mpr (Or.inr (h.contiguous j hj (by omega)))
  · rw [← Bool.not_eq_true]
    intro hgot
    rcases hps.stops_wireId with hstop | hstop
    · -- nothing has arrived beyond the ack id
      have hle : (wireId (d + ps.length + 1)).toNat ≤
          (c.afterReliable p ps).currentAckId.toNat := by
        rw [hmax]
        rcases (hcontains _).mp hgot with heq | hold
        · rw [heq]
          apply Nat.le_max_right
        · exact (h.below _ hold).trans (Nat.le_max_left _ _)
      have hack' : (c.afterReliable p ps).currentAckId = wireId (d + ps.length) := by
        rw [hstop]
        rfl
      rw [hack', wireId_toNat_of_le (by rw [idPeriod]; omega),
        wireId_toNat_of_le (by rw [idPeriod]; omega)] at hle
      omega
    · rw [← hmap] at hstop
      obtain ⟨q, hq⟩ := PartialMap.contains_iff.mp hgot
      cases hstop.symm.trans hq

theorem arrive_of_reliable {build : Build} (h : v.FirstCycle)
    (hbound : v.scheduled.length ≤ lowMax) {p : Packet β} {c c' : Connection β}
    (hin : c.incoming = v.incoming) (hack : c.currentAckId = v.ackId) (hp : p ∈ v.inFlight)
    (hrel : p.isReliable = true) (hreceived : c.received build p = .ok c') :
    FirstCycle { v with
      incoming := c'.incoming
      ackId := c'.currentAckId
      received := v.received ++ [p] } := by
  have hlt : v.scheduled.length < idPeriod := Nat.lt_of_le_of_lt hbound (by decide)
  obtain ⟨hcontains, hmax⟩ := h.received hbound hin hack hp hrel hreceived
  obtain ⟨hcontiguous, hgap⟩ := h.prefix_received hbound hin hack hp hrel hreceived
  have hattained := h.attained_received hbound hin hack hp hrel hreceived
  refine ⟨h.ordered.arrive hlt hin hp hreceived, ?_, ?_, Or.inr hattained, hcontiguous, ?_, ?_⟩
  · intro j hj hle hgot
    exact h.held j hj hle fun hold ↦ hgot ((hcontains _).mpr (Or.inr hold))
  · intro id hid
    dsimp only
    rw [hmax]
    rcases (hcontains id).mp hid with rfl | hold
    · apply Nat.le_max_right
    · exact (h.below id hold).trans (Nat.le_max_left _ _)
  · exact Bool.not_eq_true _ ▸ hgap
  · intro q hq
    obtain ⟨hle, hacks⟩ := h.headers q hq
    refine ⟨?_, fun id hid hacked ↦ (hcontains id).mpr (Or.inr (hacks id hid hacked))⟩
    dsimp only
    rw [hmax]
    exact hle.trans (Nat.le_max_left _ _)

theorem arrive {build : Build} (h : v.FirstCycle) (hbound : v.scheduled.length ≤ lowMax)
    {p : Packet β} {c c' : Connection β} (hin : c.incoming = v.incoming)
    (hack : c.currentAckId = v.ackId) (hp : p ∈ v.inFlight)
    (hreceived : c.received build p = .ok c') :
    FirstCycle { v with
      incoming := c'.incoming
      ackId := c'.currentAckId
      received := v.received ++ [p] } := by
  cases hrel : p.isReliable with
  | false =>
      have hlt : v.scheduled.length < idPeriod := Nat.lt_of_le_of_lt hbound (by decide)
      have hordered := h.ordered.arrive hlt hin hp hreceived
      rw [Connection.received_of_unreliable build c hrel] at hreceived
      obtain rfl := Except.ok.inj hreceived
      refine ⟨hordered, ?_, ?_, ?_, ?_, ?_, ?_⟩ <;>
        simp only [hin, hack, Got, Connection.processAcks_currentAckId]
      exacts [h.held, h.below, h.attained, h.contiguous, h.gap, h.headers]
  | true => exact h.arrive_of_reliable hbound hin hack hp hrel hreceived

theorem header (h : v.FirstCycle) (q : Packet β) :
    FirstCycle { v with headers := v.headers ++ [{ q with
      ackId := v.ackId
      ackBitset := Connection.ackBitsOf v.incoming.reliablePackets v.ackId }] } := by
  have hcopies := h.ordered.toCopies
  refine ⟨⟨⟨hcopies.numbered, hcopies.queued, hcopies.stored, hcopies.inFlight,
    hcopies.buffered⟩, h.ordered.delivered⟩, h.held, h.below, h.attained, h.contiguous, h.gap, ?_⟩
  intro q' hq'
  rcases List.mem_append.mp hq' with hq' | hq'
  · exact h.headers q' hq'
  · obtain rfl := List.mem_singleton.mp hq'
    refine ⟨le_rfl, ?_⟩
    rintro id hid (rfl | ⟨i, hi, rfl, hbit⟩)
    · exact h.attained.resolve_left hid
    · rwa [Packet.ackBit_of_ackBitsOf rfl hi] at hbit

theorem step {build : Build} {v' : Stream β} {e : Event β} (h : v.FirstCycle)
    (hbound : v.scheduled.length ≤ lowMax) (hstep : Step build v e v') : v'.FirstCycle := by
  have hordered := h.ordered.step (by rw [lowMax] at hbound; rw [idPeriod]; omega) hstep
  cases hstep with
  | idle => exact h
  | schedule p c hc => exact h.schedule p hc
  | send p rest ackId bits hready =>
      exact ⟨hordered, h.held, h.below, h.attained, h.contiguous, h.gap, h.headers⟩
  | acks q c hc hq => exact h.acks hc hq
  | arrive p c c' hin hack hp hreceived => exact h.arrive hbound hin hack hp hreceived
  | header q => exact h.header q
  | consume p rest hready =>
      exact ⟨hordered, h.held, h.below, h.attained, h.contiguous, h.gap, h.headers⟩
  | drop inFlight headers hsub hsub' =>
      exact ⟨hordered, h.held, h.below, h.attained, h.contiguous, h.gap,
        fun q hq ↦ h.headers q (hsub' hq)⟩

end FirstCycle

end Stream

namespace Link

theorem Reachable.firstCycle {build : Build} {address : Side → NetAddress} {l : Link β}
    (h : Reachable build address l) (s : Side) :
    (l.endpoint s).scheduled.length ≤ Stream.lowMax → (l.stream s).FirstCycle := by
  refine LabelledRun.Reaches.invariant
    (fun l ↦ (l.stream s).scheduled.length ≤ Stream.lowMax → (l.stream s).FirstCycle) h ?_ ?_
  · intro _
    refine ⟨ordered_fresh address s, ?_, ?_, Or.inl rfl, ?_, ?_, ?_⟩
    · intro k hk hle
      simp [stream, fresh] at hle
      omega
    · intro id hid
      simp [stream, fresh, Connection.fresh] at hid
    · intro k hk hle
      simp [stream, fresh, Connection.fresh, invalidId] at hle
      omega
    · simp [Stream.Got, stream, fresh, Connection.fresh]
    · intro q hq
      simp [stream, fresh] at hq
  · intro l a l' hinv hstep hbound
    have hstream := hstep.stream s
    have hle := hstream.scheduled_length_le
    exact (hinv (hle.trans hbound)).step (hle.trans hbound) hstream

end Link

end GioNet
