import GioNet.Outgoing
import GioNet.Quiescence

/-!
# How often a packet is sent again

An arriving packet makes a connection queue at most four packets again. A
receiver that has seen every id asks for none: its map never shrinks, so its
headers ack the whole window, and from the second id cycle on nothing that is
lost is sent again.
-/

namespace GioNet

open Packet (invalidId)

variable {β : Type}

namespace Session

def retransmissions (s : Session β) : List (Queued β) :=
  s.queued.filter fun q ↦ !q.original

theorem length_retransmissions_received {build : Build} {s : Session β} {p : Packet β}
    {c : Connection β} (h : s.connection.received build p = .ok c) :
    ((s.queue false c).filter fun q ↦ !q.original).length ≤
      s.retransmissions.length + sizeofAckBitset := by
  have hlength := s.connection.length_rescheduled_le p sizeofAckBitset
  rw [queue_received h, List.filter_append, List.length_append, retransmissions]
  refine Nat.add_le_add_left ((List.length_filter_le _ _).trans ?_) _
  simpa using hlength

theorem retransmissions_bounded {build : Build} {address : NetAddress} {calls : List (Call β)}
    {s : Session β} (h : Run build address calls s) :
    s.retransmissions.length ≤ sizeofAckBitset * s.received.length := by
  refine h.invariant (fun s : Session β ↦
    s.retransmissions.length ≤ sizeofAckBitset * s.received.length) ?_ ?_
  · simp [retransmissions, fresh]
  · intro s call s' hs hstep
    cases hstep with
    | schedule p =>
        simpa [retransmissions, queue_schedule, List.filter_append] using hs
    | receive p c hreceived =>
        have hlength := length_retransmissions_received hreceived
        simp only [retransmissions, List.length_append, List.length_singleton] at hs hlength ⊢
        rw [Nat.mul_succ]
        omega
    | popOutgoing p c hpop | popIncoming p c hpop => exact hs
    | setOutgoing n | setIncoming n => exact hs

/-- In every run, whatever the other side sends, a connection queues at most four
packets again for each packet it receives, and pops at most as many packets as that
and those that have been scheduled. -/
theorem retransmissions_le {build : Build} {address : NetAddress} {calls : List (Call β)}
    {s : Session β} (h : Run build address calls s) :
    s.retransmissions.length ≤ sizeofAckBitset * s.received.length ∧
      s.popped.length ≤ s.scheduled.length + sizeofAckBitset * s.received.length := by
  have hbounded := retransmissions_bounded h
  refine ⟨hbounded, ?_⟩
  have hintegrity := integrity_of_run h
  have hfifo := congrArg List.length hintegrity.fifo
  have horiginals := hintegrity.originals.length_eq
  have hsplit := List.length_eq_length_filter_add (l := s.queued) (·.original)
  simp only [outgoing, originals, retransmissions, List.length_map, List.length_append] at *
  omega

/-- The bound is met: four messages, and a header that acks none of them. -/
theorem retransmissions_le_attained :
    ∃ s : Session Unit, s.retransmissions.length = 4 ∧ s.received.length = 1 ∧
      s.retransmissions.length ≤ sizeofAckBitset * s.received.length := by
  have hrun : ∃ s : Session Unit, Run .debug {} [.schedule (.emptyReliable 0),
      .schedule (.emptyReliable 0), .schedule (.emptyReliable 0), .schedule (.emptyReliable 0),
      .receive { Packet.make .data .none () with ackId := 5 }] s ∧
      s.retransmissions.length = 4 ∧ s.received.length = 1 :=
    ⟨_, ((((LabelledRun.Run.nil.snoc (.schedule _)).snoc (.schedule _)).snoc (.schedule _)).snoc
      (.schedule _)).snoc (.receive _ _ rfl), rfl, rfl⟩
  obtain ⟨s, hs, hcount, hreceived⟩ := hrun
  exact ⟨s, hcount, hreceived, (retransmissions_le hs).1⟩

end Session

namespace Link

variable {build : Build} {l l₁ l' l'' : Link β} {s t : Side} {address : Side → NetAddress}

/-- A receiver never forgets an id. -/
theorem Step.known_mono {a : Action β} (h : Step build l a l') {id : IdType}
    (hid : l.known t id = true) : l'.known t id = true := by
  cases a with
  | schedule s p =>
      cases h
      rcases Side.eq_or_eq_other t s with rfl | rfl
      · simpa [known, Endpoint.schedule, Connection.hasReceivedPacket] using hid
      · simpa [known] using hid
  | pop s =>
      obtain ⟨-, -, -, -, -, -, hknown⟩ := h.pop_effect
      rwa [hknown]
  | receive s p =>
      obtain ⟨-, -, -, -, -, hknown, hknown'⟩ := h.receive_effect
      rcases Side.eq_or_eq_other t s with rfl | rfl
      · rw [hknown, hid, Bool.or_true]
      · rwa [hknown']
  | consume s =>
      obtain ⟨-, -, -, hknown, -⟩ := h.consume_effect
      rwa [hknown]
  | drop s i =>
      cases h
      exact hid

/-- The side has received a packet under every id. -/
def Full (l : Link β) (t : Side) : Prop := ∀ id, id ≠ invalidId → l.known t id = true

/-- The header acks all of its window but for the id `0`. -/
def Complete (q : Packet β) : Prop :=
  ∀ i < sizeofAckBitset, q.ackWindowId i ≠ invalidId → q.ackBit i = true

theorem Full.complete (h : l.Full t) {q : Packet β} (hcurrent : q.isCurrent (l.known t) = true) :
    Complete q := by
  intro i hi hne
  simp only [Packet.isCurrent, List.all_eq_true, List.mem_range, beq_iff_eq] at hcurrent
  rw [hcurrent i hi, h _ hne]

theorem rescheduled_of_complete (hl : Reachable build address l) {q : Packet β}
    (h : Complete q) : (l.endpoint s).connection.rescheduled q sizeofAckBitset = [] := by
  refine List.eq_nil_iff_forall_not_mem.mpr fun p hp ↦ ?_
  obtain ⟨i, hi, hbit, hfind⟩ := Connection.mem_rescheduled.mp hp
  obtain ⟨hid, hrel, hgenuine⟩ := (hl.copies s).stored _ p hfind
  have hacked := h i hi (hid ▸ hgenuine.id_ne hrel)
  rw [hacked] at hbit
  cases hbit

/-- Once a side has received a packet under every id, no packet that it pops from
then on makes the other side send anything again, whenever it arrives and however
much is lost. -/
theorem resends_nothing_to_full (hl : Reachable build address l) (hfull : l.Full t)
    (h : LabelledRun.Reaches (Step build) l l₁) {q : Packet β} {c : Connection β}
    (hpop : (l₁.endpoint t).connection.popReadyOutgoingPacket = some (q, c))
    (hlater : LabelledRun.Reaches (Step build) l₁ l')
    (hstep : Step build l' (.receive t.other q) l'') : l''.queued t.other = l'.queued t.other := by
  have hfull₁ : l₁.Full t := h.invariant (fun l ↦ l.Full t) hfull
    fun _ _ _ hfull hstep id hid ↦ hstep.known_mono (hfull id hid)
  obtain ⟨p, packets, -, -, rfl⟩ := Connection.popReadyOutgoingPacket_eq_some_iff.mp hpop
  have hcomplete := hfull₁.complete (Packet.isCurrent_popped _ p)
  have hreach := (hl.trans h).trans hlater
  rw [hstep.receive_effect.1, rescheduled_of_complete hreach hcomplete, List.append_nil]

/-! ## A receiver that has seen every id -/

/-- Only `.a` has sent anything, and it has sent `n` messages, which have arrived. -/
structure OneWay (l : Link β) (n : ℕ) : Prop where
  queued : ∀ s, l.queued s = []
  stored : ∀ id, (l.stored .b).contains id = false
  network : l.network .b = []
  scheduled : (l.endpoint .a).scheduled.length = n
  known : ∀ k, 0 < k → k ≤ n → l.known .b (wireId k) = true

theorem oneWay_fresh (address : Side → NetAddress) : (fresh address : Link β).OneWay 0 := by
  refine ⟨fun _ ↦ rfl, fun _ ↦ rfl, rfl, rfl, ?_⟩
  intro k hk hle
  omega

/-- One more message is scheduled, sent and received. -/
theorem OneWay.exists_next {n : ℕ} (hl : Reachable build address l) (h : l.OneWay n)
    {p : Packet β} (hrel : p.isReliable = true) :
    ∃ l' : Link β, Reachable build address l' ∧ l'.OneWay (n + 1) := by
  obtain ⟨l₁, hstep₁, hl₁⟩ : ∃ l₁, Step build l (.schedule .a p) l₁ ∧
      l₁ = l.setEndpoint .a ((l.endpoint .a).schedule p) := ⟨_, .schedule .a p, rfl⟩
  have hqueued₁ : l₁.queued .a = [(l.endpoint .a).connection.scheduledPacket p] := by
    have hempty : (l.endpoint .a).connection.outgoing.readyPackets = [] := h.queued .a
    simp [hl₁, Link.queued, Endpoint.schedule, hempty]
  obtain ⟨l₂, hstep₂⟩ := exists_pop build l₁ .a (by
    change l₁.queued .a ≠ []
    simp [hqueued₁])
  obtain ⟨q, hqueued₂, hqueued₂', hnetwork₂, hnetwork₂', hstored₂, hknown₂⟩ := hstep₂.pop_effect
  rw [hqueued₁, List.cons.injEq] at hqueued₂
  obtain ⟨hq, hempty⟩ := hqueued₂
  have hreach₂ : Reachable build address l₂ := (hl.tail hstep₁).tail hstep₂
  obtain ⟨l₃, hstep₃⟩ := hreach₂.exists_receive (t := .b) (p := _)
    (hnetwork₂ ▸ List.mem_append_right _ (List.mem_singleton_self _))
  obtain ⟨hqueued₃, hqueued₃', hnetwork₃, hstored₃, -, hknown₃, -⟩ := hstep₃.receive_effect
  have hstored : ∀ id, (l₂.stored .b).contains id = false := by
    intro id
    rw [hstored₂, hl₁]
    exact h.stored id
  have hnothing : (l₂.endpoint .b).connection.rescheduled
      { q with
        ackId := (l₁.endpoint .a).connection.currentAckId
        ackBitset := (l₁.endpoint .a).connection.ackBits } sizeofAckBitset = [] := by
    refine List.eq_nil_iff_forall_not_mem.mpr fun r hr ↦ ?_
    obtain ⟨i, -, -, hfind⟩ := Connection.mem_rescheduled.mp hr
    have hcontains := PartialMap.contains_iff.mpr ⟨r, hfind⟩
    exact absurd (hcontains.symm.trans (hstored _)) (by simp)
  refine ⟨l₃, hreach₂.tail hstep₃, ?_, ?_, ?_, ?_, ?_⟩
  · rintro (_ | _)
    · exact hqueued₃'.trans hempty.symm
    · rw [hqueued₃, hnothing, List.append_nil]
      refine hqueued₂'.trans ?_
      simpa [hl₁, Link.queued] using h.queued .b
  · intro id
    by_contra hcontains
    exact absurd ((hstored₃ id (by simpa using hcontains)).symm.trans (hstored id)) (by simp)
  · rw [hnetwork₃]
    refine hnetwork₂'.trans ?_
    rw [hl₁]
    exact h.network
  · rw [hstep₃.scheduled fun _ _ ↦ by simp, hstep₂.scheduled fun _ _ ↦ by simp, hl₁]
    simp [Endpoint.schedule, hrel, h.scheduled]
  · intro k hk hle
    rcases Nat.le_or_eq_of_le_succ hle with hle | heq
    · exact hstep₃.known_mono (hstep₂.known_mono (hstep₁.known_mono (h.known k hk hle)))
    · have hid : q.id = wireId (n + 1) := by
        rw [← hq, Connection.scheduledPacket_id _ hrel, wireId_succ, ← h.scheduled]
        exact congrArg succId (hl.copies .a).numbered
      have hreliable : q.isReliable = true := by
        rw [← hq, Connection.scheduledPacket_isReliable, hrel]
      rw [hknown₃, heq, ← hid]
      simp [hreliable]

theorem exists_oneWay (n : ℕ) : ∃ l : Link ℕ, Reachable build address l ∧ l.OneWay n := by
  induction n with
  | zero => exact ⟨fresh address, .refl _, oneWay_fresh address⟩
  | succ n ih =>
      obtain ⟨l, hl, h⟩ := ih
      exact h.exists_next hl (Packet.make_isReliable .data 0)

theorem OneWay.full (h : l.OneWay idPeriod) : l.Full .b := by
  intro id hid
  have hpos : 0 < id.toNat := Nat.pos_of_ne_zero fun hzero ↦ hid (eq_invalidId_iff.mpr hzero)
  have hknown := h.known id.toNat hpos (idType_toNat_le id)
  rwa [wireId_toNat_self] at hknown

/-- After `65535` messages a header of the receiver comes back: nothing is queued. -/
theorem resends_nothing_to_full_after_cycle :
    ∃ l l' : Link ℕ, Reachable .debug (fun _ ↦ {}) l ∧ (l.endpoint .a).scheduled.length = 65535 ∧
      LabelledRun.Reaches (Step .debug) l l' ∧ l'.queued .a = [] := by
  obtain ⟨l, hl, h⟩ : ∃ l : Link ℕ, Reachable .debug (fun _ ↦ {}) l ∧ l.OneWay idPeriod :=
    exists_oneWay idPeriod
  have hschedule : Step .debug l (.schedule .b (Packet.make .data .none 0)) _ := .schedule .b _
  obtain ⟨l₁, hl₁⟩ : ∃ l₁, l₁ = l.setEndpoint .b ((l.endpoint .b).schedule
    (Packet.make .data .none 0)) := ⟨_, rfl⟩
  rw [← hl₁] at hschedule
  have hqueued₁ : l₁.queued .a = [] ∧ l₁.queued .b ≠ [] := by
    refine ⟨?_, ?_⟩
    · simpa [hl₁, queued] using h.queued .a
    · simp [hl₁, queued, Endpoint.schedule]
  obtain ⟨p, packets, hready⟩ := List.exists_cons_of_ne_nil hqueued₁.2
  have hq := Connection.popReadyOutgoingPacket_eq_some_iff.mpr ⟨p, packets, hready, rfl, rfl⟩
  have hpop : Step .debug l₁ (.pop .b) _ := .pop .b _ _ hq
  obtain ⟨-, -, hqueued₂, -, -, -, -⟩ := hpop.pop_effect
  have hsent := LabelledRun.Reaches.single hschedule
  obtain ⟨l₃, hreceive⟩ := Reachable.exists_receive (hl.trans (hsent.tail hpop)) (t := .a) (p := _)
    (List.mem_append_right _ (List.mem_singleton_self _))
  refine ⟨l, l₃, hl, h.scheduled, (hsent.tail hpop).tail hreceive, ?_⟩
  have hsame := resends_nothing_to_full hl h.full hsent hq (.single hpop) hreceive
  exact hsame.trans (hqueued₂.trans hqueued₁.1)

end Link

end GioNet
