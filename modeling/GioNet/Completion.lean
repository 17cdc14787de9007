import GioNet.Recovery
import Mathlib.Data.Finset.Card
import Mathlib.Data.Finset.Range

/-!
# What can be recovered is recovered

From a state in which no message is lost for good, the missing messages are
brought over one by one: the next copy beyond the ack id if there is one, after
the window of the current ack id has been queued again, else any message that
has a copy or is in the window of a header.
-/

namespace GioNet

open Packet (invalidId maxPossibleId)

namespace Stream

variable {β : Type} {v v' : Stream β} {k : ℕ} {build : Build} {e : Event β}

theorem Available.step (h : v.Available k) (he : e ≠ .drop) (hstep : Step build v e v') :
    v'.Available k := by
  obtain ⟨p, hp, hrel, hid⟩ := h
  cases hstep with
  | schedule r c hc =>
      refine ⟨p, hp.imp_left fun hp ↦ ?_, hrel, hid⟩
      rw [Connection.schedule_readyPackets, hc]
      exact List.mem_append_left _ hp
  | send r rest ackId bits hready =>
      rcases hp with hp | hp
      · rw [hready] at hp
        rcases List.mem_cons.mp hp with rfl | hp
        · exact ⟨_, Or.inr (List.mem_append_right _ (List.mem_singleton.mpr rfl)), hrel, hid⟩
        · exact ⟨p, Or.inl hp, hrel, hid⟩
      · exact ⟨p, Or.inr (List.mem_append_left _ hp), hrel, hid⟩
  | acks q c hc hq =>
      refine ⟨p, hp.imp_left fun hp ↦ ?_, hrel, hid⟩
      rw [Connection.processAcks_readyPackets, hc]
      exact List.mem_append_left _ hp
  | drop inFlight headers hsub hsub' => exact absurd rfl he
  | _ => exact ⟨p, hp, hrel, hid⟩

theorem Available.of_schedule {p : Packet β} (hv : v.Ordered) (hrel : p.isReliable = true)
    (hstep : Step build v (.schedule p) v') : v'.Available (v.scheduled.length + 1) := by
  cases hstep with
  | schedule p c hc =>
      refine ⟨c.scheduledPacket p, Or.inl ?_, by simpa using hrel, ?_⟩
      · rw [Connection.schedule_readyPackets]
        exact List.mem_append_right _ (List.mem_singleton.mpr rfl)
      · rw [wireId_succ, ← hv.numbered, ← hc]
        exact Connection.scheduledPacket_id c hrel

theorem Step.headers_subset (he : e ≠ .drop) (hstep : Step build v e v') :
    v.headers ⊆ v'.headers := by
  cases hstep with
  | header q => exact List.subset_append_left _ _
  | drop inFlight headers hsub hsub' => exact absurd rfl he
  | _ => exact List.Subset.refl _

theorem Step.quiet (he : ∀ p, e ≠ .arrive p) (he' : e ≠ .consume) (hstep : Step build v e v') :
    v'.incoming = v.incoming ∧ v'.ackId = v.ackId := by
  cases hstep with
  | arrive p c c' hin hack hp hreceived => exact absurd rfl (he p)
  | consume p rest hready => exact absurd rfl he'
  | _ => exact ⟨rfl, rfl⟩

/-- A header makes the sender queue every missing message of its window again. -/
theorem FirstCycle.available_of_acks (hv : v.FirstCycle) (hbound : v.scheduled.length ≤ lowMax)
    {q : Packet β} (hq : q ∈ v.headers) (hstep : Step build v (.acks q) v') (hk : 0 < k)
    (hle : k ≤ v.scheduled.length) (hgot : ¬ v.Got k) (hlt : k < q.ackId.toNat)
    (hwindow : q.ackId.toNat ≤ k + sizeofAckBitset) : v'.Available k := by
  obtain ⟨i, hi, hack⟩ : ∃ i < sizeofAckBitset, q.ackId.toNat = k + i + 1 :=
    ⟨q.ackId.toNat - k - 1, by omega, by omega⟩
  rw [lowMax] at hbound
  have hid : q.ackWindowId i = wireId k :=
    (Packet.ackWindowId_eq_wireId_iff q hi (by omega)).mpr hack
  have hbit : q.ackBit i = false := by
    by_contra hbit
    exact hgot ((hv.headers q hq).2 _ (wireId_ne_invalidId hk)
      (Or.inr ⟨i, hi, hid.symm, by simpa using hbit⟩))
  obtain ⟨p, hp⟩ := hv.held k hk hle hgot
  obtain ⟨hpid, hrel, -⟩ := hv.ordered.stored _ p hp
  cases hstep with
  | acks q c hc hq =>
      refine ⟨p, Or.inl ?_, hrel, hpid⟩
      rw [Connection.processAcks_readyPackets]
      apply List.mem_append_right
      exact Connection.mem_rescheduled.mpr ⟨i, hi, hbit, by rw [hc, hid, hp]⟩

end Stream

namespace Link

variable {β : Type} {build : Build} {address : Side → NetAddress} {l l' l'' : Link β} {s : Side}

/-- A reachable state in which both sides number by the lower half of the ids. -/
structure Early (build : Build) (address : Side → NetAddress) (l : Link β) : Prop where
  reachable : Reachable build address l
  low : ∀ t, (l.endpoint t).scheduled.length ≤ Stream.lowMax

theorem Early.firstCycle (h : l.Early build address) (s : Side) : (l.stream s).FirstCycle :=
  h.reachable.firstCycle s (h.low s)

/-- The continuation schedules no reliable message and drops nothing. -/
structure Continues (build : Build) (s : Side) (l l' : Link β) : Prop where
  reaches : LabelledRun.Reaches (Step build) l l'
  scheduled : ∀ t, (l'.endpoint t).scheduled = (l.endpoint t).scheduled
  available : ∀ k, (l.stream s).Available k → (l'.stream s).Available k
  headers : (l.stream s).headers ⊆ (l'.stream s).headers

theorem Continues.refl (l : Link β) : l.Continues build s l :=
  ⟨.refl l, fun _ ↦ rfl, fun _ h ↦ h, List.Subset.refl _⟩

theorem Continues.trans (h : l.Continues build s l') (h' : l'.Continues build s l'') :
    l.Continues build s l'' :=
  ⟨h.reaches.trans h'.reaches, fun t ↦ (h'.scheduled t).trans (h.scheduled t),
    fun k hk ↦ h'.available k (h.available k hk), List.Subset.trans h.headers h'.headers⟩

theorem Early.continues (h : l.Early build address) (hc : l.Continues build s l') :
    l'.Early build address :=
  ⟨h.reachable.trans hc.reaches, fun t ↦ (hc.scheduled t).symm ▸ h.low t⟩

/-- Nothing has arrived at the receiver in the meantime. -/
structure Quiet (build : Build) (s : Side) (l l' : Link β) : Prop
    extends Continues build s l l' where
  incoming : (l'.stream s).incoming = (l.stream s).incoming
  ackId : (l'.stream s).ackId = (l.stream s).ackId

theorem Quiet.trans (h : l.Quiet build s l') (h' : l'.Quiet build s l'') :
    l.Quiet build s l'' :=
  ⟨h.toContinues.trans h'.toContinues, h'.incoming.trans h.incoming, h'.ackId.trans h.ackId⟩

theorem Step.scheduled_eq {a : Action β} (h : Step build l a l')
    (ha : ∀ t p, a = .schedule t p → p.isReliable = false) (t : Side) :
    (l'.endpoint t).scheduled = (l.endpoint t).scheduled := by
  cases h with
  | schedule r p =>
      rw [setEndpoint_endpoint]
      split
      · rename_i hr
        have hrel := ha r p rfl
        subst hr
        simp [Endpoint.schedule, hrel]
      · rfl
  | pop r p c hpop =>
      rw [setNetwork_endpoint, setEndpoint_endpoint]
      split
      · rename_i hr
        rw [hr]
      · rfl
  | drop r i => rfl
  | _ =>
      rw [setEndpoint_endpoint]
      split
      · rename_i hr
        rw [hr]
      · rfl

theorem Continues.of_step {a : Action β} (h : Step build l a l')
    (ha : ∀ t p, a = .schedule t p → p.isReliable = false) (hdrop : a.event s ≠ .drop) :
    l.Continues build s l' :=
  ⟨.single h, h.scheduled_eq ha, fun _ hk ↦ hk.step hdrop (h.stream s),
    (h.stream s).headers_subset hdrop⟩

theorem Quiet.of_step {a : Action β} (h : Step build l a l')
    (ha : ∀ t p, a = .schedule t p → p.isReliable = false) (hdrop : a.event s ≠ .drop)
    (harrive : ∀ p, a.event s ≠ .arrive p) (hconsume : a.event s ≠ .consume) :
    l.Quiet build s l' := by
  obtain ⟨hincoming, hackId⟩ := (h.stream s).quiet harrive hconsume
  exact ⟨.of_step h ha hdrop, hincoming, hackId⟩

theorem Quiet.of_pop {t : Side} (h : Step build l (.pop t) l') : l.Quiet build s l' := by
  have hevent : (Action.pop t : Action β).event s = .send ∨
      (Action.pop t : Action β).event s = .header := by
    simp only [Action.event]
    split <;> simp
  apply Quiet.of_step h
  · simp
  all_goals rcases hevent with hevent | hevent <;> simp [hevent]

theorem exists_flush (build : Build) (l : Link β) (s : Side) :
    ∃ l', l.Quiet build s l' ∧ (l'.stream s).outgoing.readyPackets = [] := by
  obtain ⟨n, hn⟩ : ∃ n, (l.stream s).outgoing.readyPackets.length = n := ⟨_, rfl⟩
  induction n generalizing l with
  | zero => exact ⟨l, ⟨.refl l, rfl, rfl⟩, List.length_eq_zero_iff.mp hn⟩
  | succ n ih =>
      obtain ⟨l', hstep⟩ := exists_pop build l s
        (List.ne_nil_of_length_eq_add_one hn)
      have hstream := hstep.stream s
      have hlen : (l'.stream s).outgoing.readyPackets.length = n := by
        simp only [Action.event, if_true] at hstream
        generalize l'.stream s = v' at hstream ⊢
        cases hstream with
        | send p rest ackId bits hready =>
            rw [hready] at hn
            exact Nat.succ.inj hn
      obtain ⟨l'', hquiet, hempty⟩ := ih l' hlen
      exact ⟨l'', (Quiet.of_pop hstep).trans hquiet, hempty⟩

theorem exists_stamp (build : Build) (l : Link β) (s : Side) (payload : β) :
    ∃ l', l.Quiet build s l' ∧ ∃ q ∈ (l'.stream s).headers, q.ackId = (l.stream s).ackId := by
  have hquiet : l.Quiet build s (l.setEndpoint s.other
      ((l.endpoint s.other).schedule (.make .data .none payload))) := by
    apply Quiet.of_step (Step.schedule s.other (.make .data .none payload))
    · intro t p hp
      cases hp
      apply Packet.make_data_isReliable
    all_goals simp [Action.event]
  obtain ⟨l', hstep⟩ := exists_pop build (l.setEndpoint s.other
    ((l.endpoint s.other).schedule (.make .data .none payload))) s.other (by
      simp [Endpoint.schedule])
  refine ⟨l', hquiet.trans (.of_pop hstep), ?_⟩
  have hstream := hstep.stream s
  rw [← hquiet.ackId]
  simp only [Action.event, Side.other_ne, if_false] at hstream
  generalize l'.stream s = v' at hstream ⊢
  cases hstream with
  | header q => exact ⟨_, List.mem_append_right _ (List.mem_singleton.mpr rfl), rfl⟩

/-- A header in flight can be read; the missing messages of its window then have copies. -/
theorem Early.exists_read (h : l.Early build address) {q : Packet β}
    (hq : q ∈ (l.stream s).headers) :
    ∃ l', l.Quiet build s l' ∧ ∀ k, 0 < k → k ≤ (l.endpoint s).scheduled.length →
      ¬ (l.stream s).Got k → k < q.ackId.toNat → q.ackId.toNat ≤ k + sizeofAckBitset →
        (l'.stream s).Available k := by
  obtain ⟨l', hstep⟩ := h.reachable.exists_receive hq
  have hevent : (Action.receive s q).event s = .acks q := by simp [Action.event]
  refine ⟨l', ?_, ?_⟩
  · apply Quiet.of_step hstep
    all_goals simp [hevent]
  · intro k hk hle hgot hlt hwindow
    have hstream := hstep.stream s
    rw [hevent] at hstream
    exact (h.firstCycle s).available_of_acks (h.low s) hq hstream hk hle hgot hlt hwindow

theorem Early.exists_deliver (h : l.Early build address) {k : ℕ}
    (hav : (l.stream s).Available k) :
    ∃ l', l.Continues build s l' ∧ (∀ j, (l'.stream s).Got j ↔ wireId j = wireId k ∨
      (l.stream s).Got j) ∧
        (l'.stream s).ackId.toNat = max (l.stream s).ackId.toNat (wireId k).toNat := by
  obtain ⟨l₁, hquiet, hempty⟩ := exists_flush build l s
  have h₁ := h.continues hquiet.toContinues
  obtain ⟨p, hp, hrel, hid⟩ := hquiet.available k hav
  have hflight : p ∈ (l₁.stream s).inFlight := by
    rcases hp with hp | hp
    · rw [hempty] at hp
      cases hp
    · exact hp
  obtain ⟨l', hstep⟩ := h₁.reachable.exists_receive (t := s.other) (by
    rw [Side.other_other]
    exact hflight)
  have hevent : (Action.receive s.other p).event s = .arrive p := by simp [Action.event]
  refine ⟨l', hquiet.toContinues.trans ?_, ?_⟩
  · apply Continues.of_step hstep
    all_goals simp [hevent]
  · have hstream := hstep.stream s
    have hfirst := h₁.firstCycle s
    have hlow := h₁.low s
    rw [hevent] at hstream
    simp only [Stream.Got, ← hquiet.incoming, ← hquiet.ackId, ← hid]
    generalize l'.stream s = v' at hstream ⊢
    cases hstream with
    | arrive p c c' hin hack hp hreceived =>
        obtain ⟨hcontains, hmax⟩ := hfirst.received hlow hin hack hp hrel hreceived
        exact ⟨fun j ↦ hcontains (wireId j), hmax⟩

end Link

namespace Stream

variable {β : Type} {v v' : Stream β} {k : ℕ}

/-- Every scheduled message has arrived, has a copy, or is in the window of a
header that can be brought to the sender. -/
def Covered (v : Stream β) : Prop :=
  ∀ k, 0 < k → k ≤ v.scheduled.length →
    v.Got k ∨ v.Available k ∨ ∃ h, k < h ∧ h ≤ k + sizeofAckBitset ∧ v.InReach h

instance (v : Stream β) (k : ℕ) : Decidable (v.Got k) :=
  inferInstanceAs (Decidable (_ = true))

def missing (v : Stream β) : Finset ℕ :=
  (Finset.range v.scheduled.length).filter fun k ↦ ¬ v.Got (k + 1)

theorem FirstCycle.le_of_available (hv : v.FirstCycle) (hbound : v.scheduled.length ≤ lowMax)
    (hk : k ≤ idPeriod) (h : v.Available k) : k ≤ v.scheduled.length := by
  obtain ⟨p, hp, hrel, hid⟩ := h
  have hgen : Genuine v.scheduled p := by
    rcases hp with hp | hp
    · exact hv.ordered.queued p hp
    · exact hv.ordered.inFlight p hp
  obtain ⟨j, hj, hjid, -⟩ := hgen hrel
  have hnat := congrArg UInt16.toNat (hid.symm.trans hjid)
  rw [lowMax] at hbound
  rw [wireId_toNat_of_le hk, wireId_toNat_of_le (by rw [idPeriod]; omega)] at hnat
  omega

/-- As long as nothing arrives and no datagram is dropped, what is in reach stays so. -/
theorem InReach.step {build : Build} {e : Event β} {n : ℕ} (h : v.InReach n)
    (hdrop : e ≠ .drop) (harrive : ∀ p, e ≠ .arrive p) (hconsume : e ≠ .consume)
    (hstep : Step build v e v') : v'.InReach n := by
  obtain ⟨-, hackId⟩ := hstep.quiet harrive hconsume
  rw [InReach, hackId]
  rcases h with heq | ⟨q, hq, hqn⟩ | ⟨hlater, hav⟩
  · exact Or.inl heq
  · exact Or.inr (Or.inl ⟨q, hstep.headers_subset hdrop hq, hqn⟩)
  · exact Or.inr (Or.inr ⟨hlater, hav.step hdrop hstep⟩)

/-- A new message is the next one beyond the ack id, so whatever was attainable
is in reach once it has been scheduled. -/
theorem FirstCycle.covered_of_schedule {build : Build} {p : Packet β} (hv : v.FirstCycle)
    (hbound : v.scheduled.length ≤ lowMax) (hrel : p.isReliable = true)
    (hstep : Step build v (.schedule p) v')
    (hrecoverable : ∀ k, 0 < k → k ≤ v.scheduled.length → v.Recoverable k) : v'.Covered := by
  have hnew : v'.Available (v.scheduled.length + 1) := .of_schedule hv.ordered hrel hstep
  have hcount : v'.scheduled.length = v.scheduled.length + 1 := by
    cases hstep with
    | schedule p c hc => simp [hrel]
  obtain ⟨hincoming, hackId⟩ := hstep.quiet (by simp) (by simp)
  intro k hk hle
  rw [hcount] at hle
  rcases Nat.lt_or_eq_of_le hle with hlt | rfl
  · rcases hrecoverable k hk (by omega) with hgot | hav | ⟨n, hkn, hn, hreach | rfl⟩
    · exact Or.inl (by simpa only [Got, hincoming] using hgot)
    · exact Or.inr (Or.inl (hav.step (by simp) hstep))
    · exact Or.inr (Or.inr ⟨n, hkn, hn, hreach.step (by simp) (by simp) (by simp) hstep⟩)
    · refine Or.inr (Or.inr ⟨_, hkn, hn, Or.inr (Or.inr ⟨?_, hnew⟩)⟩)
      rw [hackId]
      exact Nat.lt_succ_of_le (hv.ackId_le hbound)
  · exact Or.inr (Or.inl hnew)

end Stream

namespace Link

variable {β : Type} {build : Build} {address : Side → NetAddress} {l l' : Link β} {s : Side}

theorem Early.exists_probe (h : l.Early build address) (payload : β) :
    ∃ l', l.Quiet build s l' ∧ ∀ k, 0 < k → k ≤ (l.endpoint s).scheduled.length →
      ¬ (l.stream s).Got k → k < (l.stream s).ackId.toNat →
        (l.stream s).ackId.toNat ≤ k + sizeofAckBitset → (l'.stream s).Available k := by
  obtain ⟨l₁, hquiet, q, hq, hack⟩ := exists_stamp build l s payload
  obtain ⟨l', hquiet', hav⟩ := (h.continues hquiet.toContinues).exists_read hq
  refine ⟨l', hquiet.trans hquiet', ?_⟩
  intro k hk hle hgot hlt hwindow
  apply hav k hk
  · rwa [hquiet.scheduled]
  · simpa only [Stream.Got, hquiet.incoming] using hgot
  · rwa [hack]
  · rwa [hack]

/-- A message in the window of a header in flight, or of the current ack id, can
be given a copy. -/
theorem Early.exists_available (h : l.Early build address) {k n : ℕ} (payload : β) (hk : 0 < k)
    (hle : k ≤ (l.endpoint s).scheduled.length) (hgot : ¬ (l.stream s).Got k)
    (hlt : k < n) (hwindow : n ≤ k + sizeofAckBitset)
    (hn : n = (l.stream s).ackId.toNat ∨ ∃ q ∈ (l.stream s).headers, q.ackId.toNat = n) :
    ∃ l', l.Quiet build s l' ∧ (l'.stream s).Available k := by
  rcases hn with rfl | ⟨q, hq, rfl⟩
  · obtain ⟨l', hquiet, hav⟩ := h.exists_probe (s := s) payload
    exact ⟨l', hquiet, hav k hk hle hgot hlt hwindow⟩
  · obtain ⟨l', hquiet, hav⟩ := h.exists_read hq
    exact ⟨l', hquiet, hav k hk hle hgot hlt hwindow⟩

/-- A continuation keeps everything covered if it takes care of the windows of the
old ack id and of the later copies; the headers in flight stay. -/
theorem covered_of_continues (hcovered : (l.stream s).Covered) (hc : l.Continues build s l')
    (hgot : ∀ k, (l.stream s).Got k → (l'.stream s).Got k)
    (hwindow : ∀ k n, 0 < k → k ≤ (l.endpoint s).scheduled.length → ¬ (l.stream s).Got k →
      k < n → n ≤ k + sizeofAckBitset →
        n = (l.stream s).ackId.toNat ∨ (l.stream s).ackId.toNat < n ∧ (l.stream s).Available n →
          (l'.stream s).Available k ∨ (l'.stream s).InReach n) : (l'.stream s).Covered := by
  intro k hk hle
  have hle' : k ≤ (l.endpoint s).scheduled.length := by
    rw [← hc.scheduled s]
    exact hle
  by_cases hold : (l.stream s).Got k
  · exact Or.inl (hgot k hold)
  · right
    rcases hcovered k hk hle' with hold' | hav | ⟨n, hlt, hn, hack | ⟨q, hq, hqn⟩ | hlater⟩
    · exact absurd hold' hold
    · exact Or.inl (hc.available k hav)
    · exact (hwindow k n hk hle' hold hlt hn (Or.inl hack)).imp_right fun h ↦ ⟨n, hlt, hn, h⟩
    · exact Or.inr ⟨n, hlt, hn, Or.inr (Or.inl ⟨q, hc.headers hq, hqn⟩)⟩
    · exact (hwindow k n hk hle' hold hlt hn (Or.inr hlater)).imp_right fun h ↦ ⟨n, hlt, hn, h⟩

theorem missing_ssubset {k : ℕ} (hc : l.Continues build s l') (hk : 0 < k)
    (hle : k ≤ (l.endpoint s).scheduled.length) (hmissing : ¬ (l.stream s).Got k)
    (hgot : ∀ j, (l'.stream s).Got j ↔ wireId j = wireId k ∨ (l.stream s).Got j) :
    (l'.stream s).missing ⊂ (l.stream s).missing := by
  have hlen : (l'.stream s).scheduled.length = (l.stream s).scheduled.length :=
    congrArg List.length (hc.scheduled s)
  rw [Finset.ssubset_iff_of_subset]
  · refine ⟨k - 1, ?_, ?_⟩
    · rw [Stream.missing, Finset.mem_filter, Finset.mem_range, Nat.sub_add_cancel hk]
      exact ⟨Nat.lt_of_lt_of_le (Nat.sub_lt hk Nat.one_pos) hle, hmissing⟩
    · rw [Stream.missing, Finset.mem_filter, Nat.sub_add_cancel hk]
      exact fun hmem ↦ hmem.2 ((hgot k).mpr (Or.inl rfl))
  · intro j hj
    rw [Stream.missing, Finset.mem_filter] at hj ⊢
    rw [hlen] at hj
    exact ⟨hj.1, fun hold ↦ hj.2 ((hgot _).mpr (Or.inr hold))⟩

/-- With copies beyond the ack id, the first of them can be brought over. -/
theorem Early.exists_progress_of_later (h : l.Early build address)
    (hcovered : (l.stream s).Covered) (hlater : ∃ n, (l.stream s).ackId.toNat < n ∧
      n ≤ (l.endpoint s).scheduled.length ∧ (l.stream s).Available n) :
    ∃ l', l.Continues build s l' ∧ (l'.stream s).Covered ∧
      (l'.stream s).missing ⊂ (l.stream s).missing := by
  classical
  obtain ⟨hack, hle, hav⟩ := Nat.find_spec hlater
  have hmin : ∀ n, (l.stream s).ackId.toNat < n → n ≤ (l.endpoint s).scheduled.length →
      (l.stream s).Available n → Nat.find hlater ≤ n :=
    fun n hn hn' hn'' ↦ Nat.find_min' hlater ⟨hn, hn', hn''⟩
  generalize Nat.find hlater = n at *
  have hlow := h.low s
  rw [Stream.lowMax] at hlow
  have hnat : (wireId n).toNat = n := wireId_toNat_of_le (by rw [idPeriod]; omega)
  have hmissing : ¬ (l.stream s).Got n := by
    intro hgot
    have hbelow := (h.firstCycle s).below _ hgot
    rw [hnat] at hbelow
    omega
  obtain ⟨p, rest, -⟩ := List.exists_cons_of_ne_nil
    (List.ne_nil_of_length_pos (Nat.lt_of_lt_of_le (Nat.zero_lt_of_lt hack) hle))
  obtain ⟨l₁, hquiet, hprobe⟩ := h.exists_probe (s := s) p.payload
  obtain ⟨l₂, hc, hgot, hmax⟩ :=
    (h.continues hquiet.toContinues).exists_deliver (hquiet.available n hav)
  simp only [Stream.Got, hquiet.incoming] at hgot
  rw [hquiet.ackId, hnat, Nat.max_eq_right hack.le] at hmax
  have hc' := hquiet.toContinues.trans hc
  refine ⟨l₂, hc', ?_, missing_ssubset hc' (Nat.zero_lt_of_lt hack) hle hmissing hgot⟩
  refine covered_of_continues hcovered hc' (fun k hk ↦ (hgot k).mpr (Or.inr hk)) ?_
  rintro k m hk hkle hkgot hlt hm (rfl | ⟨hmack, hmav⟩)
  · exact Or.inl (hc.available k (hprobe k hk hkle hkgot hlt hm))
  · have hmle : m ≤ (l.stream s).scheduled.length := by
      apply (h.firstCycle s).le_of_available (h.low s) _ hmav
      rw [sizeofAckBitset] at hm
      rw [idPeriod]
      omega
    right
    rcases Nat.lt_or_eq_of_le (hmin m hmack hmle hmav) with hlt' | rfl
    · exact Or.inr (Or.inr ⟨by omega, hc'.available m hmav⟩)
    · exact Or.inl hmax.symm

/-- Without, any missing message can be. -/
theorem Early.exists_progress_of_not_later (h : l.Early build address)
    (hcovered : (l.stream s).Covered) (hlater : ¬ ∃ n, (l.stream s).ackId.toNat < n ∧
      n ≤ (l.endpoint s).scheduled.length ∧ (l.stream s).Available n)
    (hmissing : (l.stream s).missing.Nonempty) :
    ∃ l', l.Continues build s l' ∧ (l'.stream s).Covered ∧
      (l'.stream s).missing ⊂ (l.stream s).missing := by
  obtain ⟨j, hj⟩ := hmissing
  rw [Stream.missing, Finset.mem_filter, Finset.mem_range] at hj
  obtain ⟨hle, hkgot⟩ := hj
  have hnone : ∀ k n, k ≤ (l.stream s).scheduled.length → n ≤ k + sizeofAckBitset →
      ¬ ((l.stream s).ackId.toNat < n ∧ (l.stream s).Available n) := by
    rintro k n hk hn ⟨hack, hav⟩
    have hlow := h.low s
    change (l.stream s).scheduled.length ≤ _ at hlow
    rw [Stream.lowMax] at hlow
    rw [sizeofAckBitset] at hn
    exact hlater ⟨n, hack,
      (h.firstCycle s).le_of_available (h.low s) (by rw [idPeriod]; omega) hav, hav⟩
  obtain ⟨p, rest, -⟩ := List.exists_cons_of_ne_nil
    (List.ne_nil_of_length_pos (Nat.zero_lt_of_lt hle))
  -- the missing message lies below the ack id and can be given a copy
  obtain ⟨l₁, hquiet, hav, hack⟩ : ∃ l₁, l.Quiet build s l₁ ∧ (l₁.stream s).Available (j + 1) ∧
      j + 1 ≤ (l.stream s).ackId.toNat := by
    rcases hcovered (j + 1) (Nat.succ_pos j) hle with hgot | hav | ⟨n, hlt, hn, hreach⟩
    · exact absurd hgot hkgot
    · refine ⟨l, ⟨.refl l, rfl, rfl⟩, hav, ?_⟩
      by_contra hgt
      exact hnone (j + 1) (j + 1) hle (Nat.le_add_right _ _) ⟨Nat.lt_of_not_le hgt, hav⟩
    · have hheader : (n = (l.stream s).ackId.toNat ∨
          ∃ q ∈ (l.stream s).headers, q.ackId.toNat = n) ∧ n ≤ (l.stream s).ackId.toNat := by
        rcases hreach with heq | ⟨q, hq, hqn⟩ | hlater'
        · exact ⟨Or.inl heq, heq.le⟩
        · exact ⟨Or.inr ⟨q, hq, hqn⟩, hqn ▸ ((h.firstCycle s).headers q hq).1⟩
        · exact absurd hlater' (hnone (j + 1) n hle hn)
      obtain ⟨l₁, hquiet, hav⟩ :=
        h.exists_available p.payload (Nat.succ_pos j) hle hkgot hlt hn hheader.1
      exact ⟨l₁, hquiet, hav, by omega⟩
  obtain ⟨l₂, hc, hgot, hmax⟩ := (h.continues hquiet.toContinues).exists_deliver hav
  have hlow := h.low s
  change (l.stream s).scheduled.length ≤ _ at hlow
  rw [Stream.lowMax] at hlow
  simp only [Stream.Got, hquiet.incoming] at hgot
  rw [hquiet.ackId, wireId_toNat_of_le (by rw [idPeriod]; omega), Nat.max_eq_left hack] at hmax
  have hc' := hquiet.toContinues.trans hc
  refine ⟨l₂, hc', ?_, missing_ssubset hc' (Nat.succ_pos j) hle hkgot hgot⟩
  refine covered_of_continues hcovered hc' (fun k hk ↦ (hgot k).mpr (Or.inr hk)) ?_
  rintro k n - hkle - - hn (rfl | hlater')
  · exact Or.inr (Or.inl hmax.symm)
  · exact absurd hlater' (hnone k n hkle hn)

theorem Early.exists_completion (h : l.Early build address) (hcovered : (l.stream s).Covered) :
    ∃ l', l.Continues build s l' ∧ l.Completes s l' := by
  obtain ⟨n, hn⟩ : ∃ n, (l.stream s).missing.card = n := ⟨_, rfl⟩
  induction n using Nat.strong_induction_on generalizing l with
  | _ n ih =>
      rcases (l.stream s).missing.eq_empty_or_nonempty with hempty | hmissing
      · refine ⟨l, .refl l, ?_⟩
        obtain ⟨hle, hpayloads⟩ := (h.firstCycle s).delivered (h.low s)
        have hall : (l.stream s).scheduled.length ≤
            (l.stream s).incoming.sequenceNumber.toNat := by
          by_contra hlt
          have hmem : (l.stream s).incoming.sequenceNumber.toNat ∈ (l.stream s).missing := by
            rw [Stream.missing, Finset.mem_filter, Finset.mem_range]
            exact ⟨Nat.lt_of_not_le hlt, (h.firstCycle s).gap⟩
          rw [hempty] at hmem
          cases hmem
        rw [List.take_of_length_le (by simpa using hall)] at hpayloads
        change _ <+: (l.stream s).deliveredReliable.map Packet.payload
        rw [hpayloads]
        apply List.prefix_refl
      · obtain ⟨l₁, hc, hcovered₁, hlt⟩ : ∃ l', l.Continues build s l' ∧
            (l'.stream s).Covered ∧ (l'.stream s).missing ⊂ (l.stream s).missing := by
          by_cases hlater : ∃ n, (l.stream s).ackId.toNat < n ∧
              n ≤ (l.endpoint s).scheduled.length ∧ (l.stream s).Available n
          · exact h.exists_progress_of_later hcovered hlater
          · exact h.exists_progress_of_not_later hcovered hlater hmissing
        obtain ⟨l', hc', hcomplete⟩ :=
          ih _ (hn ▸ Finset.card_lt_card hlt) (h.continues hc) hcovered₁ rfl
        refine ⟨l', hc.trans hc', ?_⟩
        rwa [Completes, hc.scheduled] at hcomplete

/-- A new message can be scheduled, and everything is covered afterwards. -/
theorem Early.exists_schedule (h : l.Early build address)
    (hroom : (l.endpoint s).scheduled.length < Stream.lowMax) (payload : β)
    (hrecoverable : ∀ k, 0 < k → k ≤ (l.endpoint s).scheduled.length →
      (l.stream s).Recoverable k) :
    ∃ l', LabelledRun.Reaches (Step build) l l' ∧ l'.Early build address ∧
      (l'.stream s).Covered ∧
      (∀ t, (l'.endpoint t).scheduled.length ≤ (l.endpoint t).scheduled.length + 1) ∧
      (l.endpoint s).scheduled <+: (l'.endpoint s).scheduled := by
  have hrel := Packet.make_isReliable .data payload
  generalize Packet.make .data .reliable payload = p at hrel
  have hstep : Step build l (.schedule s p) _ := .schedule s p
  have hscheduled : ∀ t, ((l.setEndpoint s ((l.endpoint s).schedule p)).endpoint t).scheduled =
      (l.endpoint t).scheduled ++ if t = s then [p] else [] := by
    intro t
    rw [setEndpoint_endpoint]
    split
    · rename_i ht
      simp [Endpoint.schedule, hrel, ht]
    · simp
  have hlen : ∀ t, ((l.setEndpoint s ((l.endpoint s).schedule p)).endpoint t).scheduled.length =
      (l.endpoint t).scheduled.length + if t = s then 1 else 0 := by
    intro t
    rw [hscheduled, List.length_append]
    split <;> rfl
  have hstream := hstep.stream s
  have hevent : (Action.schedule s p).event s = .schedule p := by simp [Action.event]
  rw [hevent] at hstream
  have hcovered := (h.firstCycle s).covered_of_schedule (h.low s) hrel hstream hrecoverable
  refine ⟨_, .single hstep, ⟨h.reachable.tail hstep, fun t ↦ ?_⟩, hcovered, fun t ↦ ?_, ?_⟩
  · rw [hlen]
    split
    · rename_i ht
      exact ht ▸ hroom
    · exact h.low t
  · rw [hlen]
    split <;> omega
  · rw [hscheduled]
    apply List.prefix_append

/-- From a state in which each side has scheduled at most `16000` reliable
messages, a continuation delivers everything scheduled by a side exactly if each
of its messages has arrived, has a copy, or is in the window of an attainable
header. -/
theorem exists_completion_iff_recoverable (build : Build) (address : Side → NetAddress)
    (l : Link β) (hl : Reachable build address l)
    (hbound : ∀ t, (l.endpoint t).scheduled.length ≤ 16000) (s : Side) :
    (∃ l', LabelledRun.Reaches (Step build) l l' ∧
        (∀ t, (l'.endpoint t).scheduled.length ≤ 32766) ∧ l.Completes s l') ↔
      ∀ k, 0 < k → k ≤ (l.endpoint s).scheduled.length → (l.stream s).Recoverable k := by
  have hearly : l.Early build address := ⟨hl, fun t ↦ (hbound t).trans (by decide)⟩
  constructor
  · rintro ⟨l', hreaches, hlow, hcomplete⟩ k hk hle
    by_contra hlost
    refine not_completes_of_lost hl ⟨hk, hle, ?_, ?_, ?_⟩ hreaches (hlow s) hcomplete
    · exact fun hgot ↦ hlost (Or.inl hgot)
    · exact fun hav ↦ hlost (Or.inr (Or.inl hav))
    · exact fun n hlt hn hattainable ↦ hlost (Or.inr (Or.inr ⟨n, hlt, hn, hattainable⟩))
  · intro hrecoverable
    rcases (l.endpoint s).scheduled.eq_nil_or_concat with hnil | ⟨ps, p, -⟩
    · refine ⟨l, .refl l, hearly.low, ?_⟩
      rw [Completes, hnil]
      apply List.nil_prefix
    · obtain ⟨l₁, hreaches, h₁, hcovered, hlen, hsub⟩ := hearly.exists_schedule
        (Nat.lt_of_le_of_lt (hbound s) (by decide)) p.payload hrecoverable
      obtain ⟨l', hc, hcomplete⟩ := h₁.exists_completion hcovered
      refine ⟨l', hreaches.trans hc.reaches, (h₁.continues hc).low, ?_⟩
      exact (hsub.map Packet.payload).trans hcomplete

theorem exists_burst_loss : ∃ l : Link Unit, Reachable .debug (fun _ ↦ {}) l ∧
    (∀ t, (l.endpoint t).scheduled.length ≤ 6) ∧ (l.endpoint .a).scheduled.length = 6 ∧
    ¬ (l.stream .a).Got 1 ∧ (l.stream .a).ackId = 6 ∧ (l.stream .a).headers = [] ∧
    (l.stream .a).outgoing.readyPackets = [] ∧ ∀ p ∈ (l.stream .a).inFlight, p.id ≠ 1 := by
  have hscheduled : LabelledRun.Reaches (Step .debug) (fresh fun _ ↦ {}) _ :=
    ((((((LabelledRun.Reaches.refl _).tail (.schedule .a (.make .data .reliable ()))).tail
      (.schedule .a (.make .data .reliable ()))).tail
      (.schedule .a (.make .data .reliable ()))).tail
      (.schedule .a (.make .data .reliable ()))).tail
      (.schedule .a (.make .data .reliable ()))).tail
      (.schedule .a (.make .data .reliable ()))
  have hsent := ((((((hscheduled.tail (.pop .a _ _ rfl)).tail (.pop .a _ _ rfl)).tail
    (.pop .a _ _ rfl)).tail (.pop .a _ _ rfl)).tail (.pop .a _ _ rfl)).tail
    (.pop .a _ _ rfl)).tail (.drop .a 0)
  have harrived := ((((hsent.tail (.receive .b _ _ (List.mem_of_getElem? (i := 0) rfl) rfl)).tail
    (.receive .b _ _ (List.mem_of_getElem? (i := 1) rfl) rfl)).tail
    (.receive .b _ _ (List.mem_of_getElem? (i := 2) rfl) rfl)).tail
    (.receive .b _ _ (List.mem_of_getElem? (i := 3) rfl) rfl)).tail
    (.receive .b _ _ (List.mem_of_getElem? (i := 4) rfl) rfl)
  refine ⟨_, harrived, ?_, ?_, ?_, ?_, ?_, ?_, ?_⟩
  · rintro (_ | _) <;> decide
  all_goals decide

/-- The first message can then never be delivered. -/
theorem no_completion_after_burst_loss :
    ∃ l : Link Unit, Reachable .debug (fun _ ↦ {}) l ∧
      (∀ t, (l.endpoint t).scheduled.length ≤ 16000) ∧
      ¬ ∃ l', LabelledRun.Reaches (Step .debug) l l' ∧
        (∀ t, (l'.endpoint t).scheduled.length ≤ 32766) ∧ l.Completes .a l' := by
  obtain ⟨l, hl, hbound, hlen, hgot, hack, hheaders, hready, hflight⟩ := exists_burst_loss
  refine ⟨l, hl, fun t ↦ (hbound t).trans (by decide), ?_⟩
  rintro ⟨l', hreaches, hlow, hcomplete⟩
  have hlost : (l.stream .a).Lost 1 := by
    refine ⟨Nat.one_pos, ?_, hgot, ?_, ?_⟩
    · change 1 ≤ (l.endpoint .a).scheduled.length
      omega
    · rintro ⟨p, hp | hp, -, hid⟩
      · rw [hready] at hp
        cases hp
      · exact hflight p hp hid
    · rintro n hlt hn ((heq | ⟨q, hq, -⟩ | ⟨hlater, -⟩) | heq)
      · rw [hack] at heq
        rw [heq] at hn
        exact absurd hn (by decide)
      · rw [hheaders] at hq
        cases hq
      · rw [hack] at hlater
        have hn' : n ≤ 5 := hn
        have hlater' : 6 < n := hlater
        omega
      · change n = (l.endpoint .a).scheduled.length + 1 at heq
        have hn' : n ≤ 5 := hn
        omega
  exact not_completes_of_lost hl hlost hreaches (hlow .a) hcomplete

/-- One message is scheduled and its only copy is still queued. -/
theorem exists_completion_iff_recoverable_queued :
    ∃ l : Link Unit, Reachable .debug (fun _ ↦ {}) l ∧
      (l.endpoint .a).scheduled.length = 1 ∧
      ∃ l', LabelledRun.Reaches (Step .debug) l l' ∧
        (∀ t, (l'.endpoint t).scheduled.length ≤ 32766) ∧ l.Completes .a l' := by
  have hl : LabelledRun.Reaches (Step .debug) (fresh fun _ ↦ {}) _ :=
    (LabelledRun.Reaches.refl _).tail (.schedule .a (.make .data .reliable ()))
  refine ⟨_, hl, rfl, (exists_completion_iff_recoverable .debug _ _ hl ?_ .a).mpr ?_⟩
  · rintro (_ | _) <;> decide
  · intro k hk hle
    have hone : k = 1 := Nat.le_antisymm hle hk
    exact Or.inr (Or.inl ⟨_, Or.inl (List.mem_singleton.mpr rfl), rfl, by rw [hone]; rfl⟩)

end Link

end GioNet
