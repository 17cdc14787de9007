import GioNet.FirstCycle

/-!
# When a lost message can still be recovered

A message that has not arrived is queued again only when a header arrives whose
ack id is one to four ahead of it. So a message that has no copy left and from
which every ack id that can still occur is too far away is lost for good. In
every other case some continuation delivers everything.
-/

namespace GioNet

open Packet (invalidId maxPossibleId)

namespace Packet

variable {β : Type}

theorem ackWindowId_eq_wireId_iff (q : Packet β) {i k : ℕ} (hi : i < sizeofAckBitset)
    (hk : k ≤ 32767) : q.ackWindowId i = wireId k ↔ q.ackId.toNat = k + i + 1 := by
  rw [sizeofAckBitset] at hi
  have hoffset : (UInt16.ofNat i + 1).toNat = i + 1 := by
    rw [UInt16.toNat_add, UInt16.toNat_ofNat_of_lt' (hi.trans (by decide)), UInt16.toNat_one]
    omega
  have hsum : (wireId k + (UInt16.ofNat i + 1)).toNat = k + i + 1 := by
    rw [UInt16.toNat_add, hoffset, wireId_toNat_of_le (by rw [idPeriod]; omega)]
    omega
  have hmove : q.ackWindowId i = wireId k ↔ q.ackId = wireId k + (UInt16.ofNat i + 1) := by
    rw [ackWindowId]
    constructor <;> intro h <;> grind
  rw [hmove, ← UInt16.toNat_inj, hsum]

end Packet

namespace Stream

variable {β : Type} {v v' : Stream β} {k : ℕ}

def Available (v : Stream β) (k : ℕ) : Prop :=
  ∃ p, (p ∈ v.outgoing.readyPackets ∨ p ∈ v.inFlight) ∧ p.isReliable = true ∧ p.id = wireId k

/-- An ack id that a header can bring to the sender without a new message: that
of a header in flight, the current one of the receiver, and the number of a later
message of which there is a copy. -/
def InReach (v : Stream β) (h : ℕ) : Prop :=
  h = v.ackId.toNat ∨ (∃ q ∈ v.headers, q.ackId.toNat = h) ∨
    (v.ackId.toNat < h ∧ v.Available h)

/-- With a new message its number can be brought as well. -/
def Attainable (v : Stream β) (h : ℕ) : Prop :=
  v.InReach h ∨ h = v.scheduled.length + 1

/-- Message `k` has arrived, or there is a copy of it, or a header that makes the
sender queue it again is attainable. -/
def Recoverable (v : Stream β) (k : ℕ) : Prop :=
  v.Got k ∨ v.Available k ∨ ∃ h, k < h ∧ h ≤ k + sizeofAckBitset ∧ v.Attainable h

/-! ## What is lost stays lost -/

theorem Step.available {build : Build} {e : Event β} (hv : v.FirstCycle)
    (hstep : Step build v e v') (h : v'.Available k) :
    v.Available k ∨ (∃ p, e = .schedule p ∧ wireId k = wireId (v.scheduled.length + 1)) ∨
      ∃ q ∈ v.headers, ∃ i < sizeofAckBitset, q.ackWindowId i = wireId k := by
  obtain ⟨p, hp, hrel, hid⟩ := h
  cases hstep with
  | idle => exact Or.inl ⟨p, hp, hrel, hid⟩
  | schedule r c hc =>
      rw [Connection.schedule_readyPackets, hc, List.mem_append, List.mem_singleton] at hp
      rcases hp with (hp | rfl) | hp
      · exact Or.inl ⟨p, Or.inl hp, hrel, hid⟩
      · refine Or.inr (Or.inl ⟨r, rfl, ?_⟩)
        rw [Connection.scheduledPacket_isReliable] at hrel
        rw [← hid, wireId_succ, ← hv.ordered.numbered, ← hc]
        exact Connection.scheduledPacket_id c hrel
      · exact Or.inl ⟨p, Or.inr hp, hrel, hid⟩
  | send r rest ackId bits hready =>
      rcases hp with hp | hp
      · exact Or.inl ⟨p, Or.inl (hready ▸ List.mem_cons_of_mem r hp), hrel, hid⟩
      · rcases List.mem_append.mp hp with hp | hp
        · exact Or.inl ⟨p, Or.inr hp, hrel, hid⟩
        · obtain rfl := List.mem_singleton.mp hp
          exact Or.inl ⟨r, Or.inl (hready ▸ List.mem_cons_self), hrel, hid⟩
  | acks q c hc hq =>
      rw [Connection.processAcks_readyPackets, hc, List.mem_append] at hp
      rcases hp with (hp | hp) | hp
      · exact Or.inl ⟨p, Or.inl hp, hrel, hid⟩
      · obtain ⟨i, hi, -, hfind⟩ := Connection.mem_rescheduled.mp hp
        rw [hc] at hfind
        exact Or.inr (Or.inr ⟨q, hq, i, hi, (hv.ordered.stored _ p hfind).1 ▸ hid⟩)
      · exact Or.inl ⟨p, Or.inr hp, hrel, hid⟩
  | arrive r c c' hin hack hr hreceived => exact Or.inl ⟨p, hp, hrel, hid⟩
  | header q => exact Or.inl ⟨p, hp, hrel, hid⟩
  | consume r rest hready => exact Or.inl ⟨p, hp, hrel, hid⟩
  | drop inFlight headers hsub hsub' =>
      exact Or.inl ⟨p, hp.imp_right fun hp ↦ hsub hp, hrel, hid⟩

theorem Step.got {build : Build} {e : Event β} (hv : v.FirstCycle)
    (hbound : v.scheduled.length ≤ lowMax) (hstep : Step build v e v') (h : v'.Got k) :
    v.Got k ∨ v.Available k := by
  cases hstep with
  | arrive p c c' hin hack hp hreceived =>
      cases hrel : p.isReliable with
      | false =>
          rw [Connection.received_of_unreliable build c hrel] at hreceived
          obtain rfl := Except.ok.inj hreceived
          exact Or.inl (by simpa [Got, hin] using h)
      | true =>
          rcases ((hv.received hbound hin hack hp hrel hreceived).1 _).mp h with hid | hold
          · exact Or.inr ⟨p, Or.inr hp, hrel, hid.symm⟩
          · exact Or.inl hold
  | _ => exact Or.inl h

theorem Step.ackId {build : Build} {e : Event β} (hv : v.FirstCycle)
    (hbound : v.scheduled.length ≤ lowMax) (hstep : Step build v e v') :
    v'.ackId.toNat = v.ackId.toNat ∨
      v.ackId.toNat < v'.ackId.toNat ∧ v.Available v'.ackId.toNat := by
  cases hstep with
  | arrive p c c' hin hack hp hreceived =>
      cases hrel : p.isReliable with
      | false =>
          rw [Connection.received_of_unreliable build c hrel] at hreceived
          obtain rfl := Except.ok.inj hreceived
          exact Or.inl (by simp [hack])
      | true =>
          have hmax := (hv.received hbound hin hack hp hrel hreceived).2
          dsimp only
          rw [hmax]
          rcases Nat.lt_or_ge v.ackId.toNat p.id.toNat with hlt | hge
          · rw [Nat.max_eq_right hlt.le]
            exact Or.inr ⟨hlt, p, Or.inr hp, hrel, (wireId_toNat_self p.id).symm⟩
          · exact Or.inl (Nat.max_eq_left hge)
  | _ => exact Or.inl rfl

theorem Step.headers {build : Build} {e : Event β} (hstep : Step build v e v') {q : Packet β}
    (hq : q ∈ v'.headers) : q ∈ v.headers ∨ q.ackId = v.ackId := by
  cases hstep with
  | header r =>
      rcases List.mem_append.mp hq with hq | hq
      · exact Or.inl hq
      · obtain rfl := List.mem_singleton.mp hq
        exact Or.inr rfl
  | drop inFlight headers hsub hsub' => exact Or.inl (hsub' hq)
  | _ => exact Or.inl hq

/-- The message is scheduled, has not arrived, has no copy, and no header from
which it is queued again is attainable. -/
structure Lost (v : Stream β) (k : ℕ) : Prop where
  pos : 0 < k
  scheduled : k ≤ v.scheduled.length
  not_got : ¬ v.Got k
  not_available : ¬ v.Available k
  not_attainable : ∀ h, k < h → h ≤ k + sizeofAckBitset → ¬ v.Attainable h

theorem Lost.not_ackWindow (h : v.Lost k) (hbound : v.scheduled.length ≤ lowMax)
    {q : Packet β} (hq : q ∈ v.headers) {i : ℕ} (hi : i < sizeofAckBitset) :
    q.ackWindowId i ≠ wireId k := by
  intro heq
  have hk := h.scheduled
  rw [lowMax] at hbound
  rw [Packet.ackWindowId_eq_wireId_iff q hi (by omega)] at heq
  exact h.not_attainable (k + i + 1) (by omega) (by omega) (Or.inl (Or.inr (Or.inl ⟨q, hq, heq⟩)))

/-- The next number is out of reach, and so are the numbers after it. -/
theorem Lost.window_le (h : v.Lost k) : k + sizeofAckBitset ≤ v.scheduled.length := by
  by_contra hlt
  have hk := h.scheduled
  exact h.not_attainable (v.scheduled.length + 1) (by omega) (by omega) (Or.inr rfl)

theorem Lost.wireId_ne_next (h : v.Lost k) (hbound : v.scheduled.length ≤ lowMax) {n : ℕ}
    (hn : n ≤ k + sizeofAckBitset) : wireId n ≠ wireId (v.scheduled.length + 1) := by
  intro heq
  have hwindow := h.window_le
  rw [lowMax] at hbound
  have hnat := congrArg UInt16.toNat heq
  rw [wireId_toNat_of_le (by rw [idPeriod]; omega),
    wireId_toNat_of_le (by rw [idPeriod]; omega)] at hnat
  omega

theorem Lost.not_available_step {build : Build} {e : Event β} (hv : v.FirstCycle)
    (hbound : v.scheduled.length ≤ lowMax) (h : v.Lost k) (hstep : Step build v e v') :
    ¬ v'.Available k := by
  intro hav
  rcases hstep.available hv hav with hav | ⟨p, -, heq⟩ | ⟨q, hq, i, hi, heq⟩
  · exact h.not_available hav
  · exact h.wireId_ne_next hbound (Nat.le_add_right k _) heq
  · exact h.not_ackWindow hbound hq hi heq

/-- A copy of a later message within the window would have been there before. -/
theorem Lost.not_later_step {build : Build} {e : Event β} (hv : v.FirstCycle)
    (hbound : v.scheduled.length ≤ lowMax) (h : v.Lost k) (hstep : Step build v e v') {n : ℕ}
    (hlt : k < n) (hle : n ≤ k + sizeofAckBitset) (hack : v.ackId.toNat < n) :
    ¬ v'.Available n := by
  intro hav
  rcases hstep.available hv hav with hav | ⟨p, -, heq⟩ | ⟨q, hq, i, hi, heq⟩
  · exact h.not_attainable n hlt hle (Or.inl (Or.inr (Or.inr ⟨hack, hav⟩)))
  · exact h.wireId_ne_next hbound hle heq
  · have hwindow := h.window_le
    rw [lowMax] at hbound
    rw [Packet.ackWindowId_eq_wireId_iff q hi (by omega)] at heq
    have hle' := (hv.headers q hq).1
    omega

theorem Lost.step {build : Build} {e : Event β} (hv : v.FirstCycle)
    (hbound : v.scheduled.length ≤ lowMax) (h : v.Lost k) (hstep : Step build v e v') :
    v'.Lost k := by
  refine ⟨h.pos, h.scheduled.trans hstep.scheduled_length_le, ?_,
    h.not_available_step hv hbound hstep, ?_⟩
  · intro hgot
    rcases hstep.got hv hbound hgot with hgot | hav
    · exact h.not_got hgot
    · exact h.not_available hav
  · intro n hlt hnle hattainable
    have hmono : v.ackId.toNat ≤ v'.ackId.toNat := by
      rcases hstep.ackId hv hbound with heq | ⟨hup, -⟩
      · exact heq.ge
      · exact hup.le
    rcases hattainable with (heq | ⟨q, hq, heq⟩ | ⟨hack, hav⟩) | heq
    · rcases hstep.ackId hv hbound with hsame | ⟨hup, hav⟩
      · exact h.not_attainable n hlt hnle (Or.inl (Or.inl (heq.trans hsame)))
      · rw [← heq] at hup hav
        exact h.not_attainable n hlt hnle (Or.inl (Or.inr (Or.inr ⟨hup, hav⟩)))
    · rcases hstep.headers hq with hq | hack
      · exact h.not_attainable n hlt hnle (Or.inl (Or.inr (Or.inl ⟨q, hq, heq⟩)))
      · exact h.not_attainable n hlt hnle (Or.inl (Or.inl (by rw [← heq, hack])))
    · exact h.not_later_step hv hbound hstep hlt hnle (Nat.lt_of_le_of_lt hmono hack) hav
    · have hwindow := h.window_le
      have hle := hstep.scheduled_length_le
      omega

end Stream

namespace Link

variable {β : Type} {build : Build} {address : Side → NetAddress} {l l' : Link β} {s : Side}

/-- No continuation brings a lost message back. -/
theorem lost_of_reaches {k : ℕ} (hl : Reachable build address l) (hlost : (l.stream s).Lost k)
    (h : LabelledRun.Reaches (Step build) l l') :
    (l'.endpoint s).scheduled.length ≤ Stream.lowMax → (l'.stream s).Lost k := by
  refine (LabelledRun.Reaches.invariant (fun l' ↦ Reachable build address l' ∧
    ((l'.endpoint s).scheduled.length ≤ Stream.lowMax → (l'.stream s).Lost k)) h
    ⟨hl, fun _ ↦ hlost⟩ ?_).2
  rintro l₁ a l₂ ⟨hreach, hlost₁⟩ hstep
  refine ⟨hreach.tail hstep, fun hbound ↦ ?_⟩
  have hbound₁ := (hstep.stream s).scheduled_length_le.trans hbound
  exact (hlost₁ hbound₁).step (hreach.firstCycle s hbound₁) hbound₁ (hstep.stream s)

/-- The continuation has delivered everything that had been scheduled. -/
def Completes (l : Link β) (s : Side) (l' : Link β) : Prop :=
  (l.endpoint s).scheduled.map Packet.payload <+:
    (l'.endpoint s.other).deliveredReliable.map Packet.payload

theorem not_completes_of_lost {k : ℕ} (hl : Reachable build address l)
    (hlost : (l.stream s).Lost k) (h : LabelledRun.Reaches (Step build) l l')
    (hbound : (l'.endpoint s).scheduled.length ≤ Stream.lowMax) : ¬ l.Completes s l' := by
  intro hcomplete
  have hlost' := lost_of_reaches hl hlost h hbound
  have hreach : Reachable build address l' := LabelledRun.Reaches.trans hl h
  have hfirst := hreach.firstCycle s hbound
  obtain ⟨-, hpayloads⟩ := hfirst.delivered hbound
  have hbefore : (l'.stream s).incoming.sequenceNumber.toNat < k := by
    by_contra hge
    exact hlost'.not_got (hfirst.contiguous k hlost'.pos (by omega))
  have hlen := hcomplete.length_le
  have hdelivered := congrArg List.length hpayloads
  have hk := hlost.scheduled
  simp only [List.length_map, List.length_take] at hlen hdelivered
  change (l.stream s).scheduled.length ≤ (l'.stream s).deliveredReliable.length at hlen
  omega

end Link

end GioNet
