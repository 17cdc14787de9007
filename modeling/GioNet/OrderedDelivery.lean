import GioNet.Copies

/-!
# Ordered delivery while no id is used twice

As long as a sender has scheduled at most `65534` reliable messages, an id names
one message. The receiver then delivers a prefix of what was scheduled.
-/

namespace GioNet

variable {β : Type}

/-- From a map of copies the delivery loop takes the next messages in order. -/
theorem Delivers.of_genuine {scheduled : List (Packet β)} {m : PartialMap IdType (Packet β)}
    {latest : IdType} {d : ℕ} {ps : List (Packet β)} (hm : GenuineMap scheduled m)
    (hbound : scheduled.length < idPeriod) (hd : d ≤ scheduled.length)
    (h : Delivers m latest (wireId d) ps) :
    (∀ p ∈ ps, p.isReliable = true) ∧ d + ps.length ≤ scheduled.length ∧
      ps.map Packet.payload = ((scheduled.map Packet.payload).drop d).take ps.length := by
  have hnext : ∀ i, (hi : i < ps.length) → d + i ≤ scheduled.length →
      ∃ hk : d + i < scheduled.length, ps[i].payload = scheduled[d + i].payload := by
    intro i hi hle
    obtain ⟨hid, hrel, hgen⟩ := hm _ _ (h.found_wireId hi)
    obtain ⟨k, hk, hkid, hpayload⟩ := hgen hrel
    have hkd : k + 1 = d + i + 1 :=
      eq_of_wireId_eq (by omega) (by omega) (by omega) (by omega) (hkid.symm.trans hid)
    obtain rfl : k = d + i := by omega
    exact ⟨hk, hpayload⟩
  have hle : ∀ i ≤ ps.length, d + i ≤ scheduled.length := by
    intro i
    induction i with
    | zero => intro _; omega
    | succ i ih =>
        intro hi
        obtain ⟨hk, -⟩ := hnext i (by omega) (ih (by omega))
        omega
  refine ⟨?_, hle _ le_rfl, ?_⟩
  · exact h.forall_mem fun id p hp ↦ (hm id p hp).2.1
  · apply List.ext_getElem
    · have hlen := hle _ le_rfl
      simp only [List.length_map, List.length_take, List.length_drop]
      omega
    · intro i hi hi'
      obtain ⟨hk, hpayload⟩ := hnext i (by simpa using hi) (hle i (by simp at hi; omega))
      simp [hpayload]

namespace Stream

/-- The invariant of one direction: the delivered payloads are the first `d`
scheduled ones, where `d` is the message that the receiver's sequence number
stands for. -/
structure Ordered (v : Stream β) : Prop extends Copies v where
  delivered : ∃ d ≤ v.scheduled.length, v.incoming.sequenceNumber = wireId d ∧
    v.deliveredReliable.map Packet.payload = (v.scheduled.map Packet.payload).take d

theorem Ordered.schedule {v : Stream β} (h : v.Ordered) (p : Packet β) {c : Connection β}
    (hc : c.outgoing = v.outgoing) :
    Ordered { v with
      outgoing := (c.schedule p).outgoing
      scheduled := if p.isReliable then v.scheduled ++ [p] else v.scheduled } := by
  refine ⟨h.toCopies.schedule p hc, ?_⟩
  cases hrel : p.isReliable with
  | false => exact h.delivered
  | true =>
      obtain ⟨d, hd, hseq, hpayloads⟩ := h.delivered
      refine ⟨d, by simp; omega, hseq, ?_⟩
      simp only [if_true, List.map_append]
      rw [List.take_append_of_le_length (by simpa using hd)]
      exact hpayloads

theorem Ordered.arrive {build : Build} {v : Stream β} (h : v.Ordered)
    (hbound : v.scheduled.length < idPeriod) {p : Packet β} {c c' : Connection β}
    (hin : c.incoming = v.incoming) (hp : p ∈ v.inFlight)
    (hreceived : c.received build p = .ok c') :
    Ordered { v with
      incoming := c'.incoming
      ackId := c'.currentAckId
      received := v.received ++ [p] } := by
  refine ⟨h.toCopies.arrive hin hp hreceived, ?_⟩
  obtain ⟨d, hd, hseq, hpayloads⟩ := h.delivered
  cases hrel : p.isReliable with
  | false =>
      rw [Connection.received_of_unreliable build c hrel] at hreceived
      obtain rfl := Except.ok.inj hreceived
      refine ⟨d, hd, ?_, ?_⟩
      · simpa [hin] using hseq
      · simpa [deliveredReliable, hin, hrel] using hpayloads
  | true =>
      obtain ⟨ps, hps, rfl⟩ := h.toCopies.received hin hp hrel hreceived
      rw [hseq] at hps
      obtain ⟨hpsrel, hlen, hpspayloads⟩ :=
        hps.of_genuine (h.buffered.insert (h.inFlight p hp) hrel) hbound hd
      refine ⟨d + ps.length, hlen, ?_, ?_⟩
      · simp [Connection.afterReliable, Connection.deliver, hin, hseq, succId_iterate_wireId]
      · have hfilter : ps.filter Packet.isReliable = ps := List.filter_eq_self.mpr hpsrel
        have hsplit : (({ v with
            incoming := (c.afterReliable p ps).incoming
            ackId := (c.afterReliable p ps).currentAckId
            received := v.received ++ [p] } : Stream β)).deliveredReliable =
              v.deliveredReliable ++ ps := by
          simp [deliveredReliable, Connection.afterReliable, Connection.deliver, hin, hfilter]
        rw [hsplit, List.map_append, hpayloads, hpspayloads, List.take_add]

theorem Ordered.step {build : Build} {v v' : Stream β} {e : Event β} (h : v.Ordered)
    (hbound : v.scheduled.length < idPeriod) (hstep : Step build v e v') : v'.Ordered := by
  have hcopies := h.toCopies.step hstep
  cases hstep with
  | schedule p c hc => exact h.schedule p hc
  | arrive p c c' hin hack hp hreceived => exact h.arrive hbound hin hp hreceived
  | consume p rest hready =>
      refine ⟨hcopies, ?_⟩
      obtain ⟨d, hd, hseq, hpayloads⟩ := h.delivered
      refine ⟨d, hd, hseq, ?_⟩
      simpa [deliveredReliable, hready] using hpayloads
  | idle | send | acks | header | drop => exact ⟨hcopies, h.delivered⟩

theorem Step.scheduled_length_le {build : Build} {v v' : Stream β} {e : Event β}
    (hstep : Step build v e v') : v.scheduled.length ≤ v'.scheduled.length := by
  cases hstep with
  | schedule p c hc =>
      dsimp only
      split
      · simp
      · exact le_rfl
  | _ => exact le_rfl

end Stream

namespace Link

theorem ordered_fresh (address : Side → NetAddress) (s : Side) :
    ((fresh address : Link β).stream s).Ordered :=
  ⟨copies_fresh address s, 0, Nat.zero_le _, rfl, rfl⟩

theorem Reachable.ordered {build : Build} {address : Side → NetAddress} {l : Link β}
    (h : Reachable build address l) (s : Side) :
    (l.endpoint s).scheduled.length < idPeriod → (l.stream s).Ordered := by
  refine LabelledRun.Reaches.invariant
    (fun l ↦ (l.stream s).scheduled.length < idPeriod → (l.stream s).Ordered) h
    (fun _ ↦ ordered_fresh address s) ?_
  intro l a l' hinv hstep hbound
  have hstream := hstep.stream s
  have hle := hstream.scheduled_length_le
  exact (hinv (Nat.lt_of_le_of_lt hle hbound)).step (Nat.lt_of_le_of_lt hle hbound) hstream

/-- Whatever the network does, the reliable packets that a side has delivered
carry a prefix of the payloads that the other side has scheduled, as long as
that side has used no id twice. -/
theorem delivered_prefix_of_scheduled (build : Build) (address : Side → NetAddress)
    (l : Link β) (hl : Reachable build address l)
    (hbound : ∀ s, (l.endpoint s).scheduled.length ≤ 65534) (s : Side) :
    (l.endpoint s.other).deliveredReliable.map Packet.payload <+:
        (l.endpoint s).scheduled.map Packet.payload ∧
      ∀ p ∈ l.network s, ∃ c, (l.endpoint s.other).connection.received build p = .ok c := by
  have hlt : (l.endpoint s).scheduled.length < idPeriod := Nat.lt_succ_of_le (hbound s)
  refine ⟨?_, fun p hp ↦ hl.exists_received hp⟩
  obtain ⟨d, -, -, hpayloads⟩ := (hl.ordered s hlt).delivered
  change (l.stream s).deliveredReliable.map Packet.payload <+: _
  rw [hpayloads]
  apply List.take_prefix

theorem delivered_prefix_after_swap :
    ∃ l : Link ℕ, (l.endpoint .b).deliveredReliable.map Packet.payload = [7, 8] ∧
      (l.endpoint .b).deliveredReliable.map Packet.payload <+:
        (l.endpoint .a).scheduled.map Packet.payload := by
  have hrun : ∃ l : Link ℕ, Reachable .debug (fun _ ↦ {}) l ∧
      (∀ s, (l.endpoint s).scheduled.length ≤ 65534) ∧
      (l.endpoint .b).deliveredReliable.map Packet.payload = [7, 8] := by
    have hsent : LabelledRun.Reaches (Step .debug) (fresh fun _ ↦ {}) _ :=
      ((((LabelledRun.Reaches.refl _).tail
      (.schedule .a (Packet.make .data .reliable 7))).tail
      (.schedule .a (Packet.make .data .reliable 8))).tail
      (.pop .a _ _ rfl)).tail (.pop .a _ _ rfl)
    refine ⟨_, (hsent.tail (.receive .b _ _ (List.mem_of_getElem? (i := 1) rfl) rfl)).tail
      (.receive .b _ _ (List.mem_of_getElem? (i := 0) rfl) rfl), ?_, ?_⟩
    · rintro (_ | _) <;> decide
    · decide
  obtain ⟨l, hl, hbound, hdelivered⟩ := hrun
  exact ⟨l, hdelivered, (delivered_prefix_of_scheduled .debug _ l hl hbound .a).1⟩

end Link

end GioNet
