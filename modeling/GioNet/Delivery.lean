import GioNet.ConnectionSpec

/-!
# The delivery loop

`EnqueueProcessablePackets` walks along the cycle of ids from the last delivered
one, up to the ack id or to the first id without a stored packet. Every id that
is not `invalidId` lies on that cycle, so a walk towards one ends within
`65535` iterations.
-/

namespace GioNet

open Packet (invalidId maxPossibleId)

/-- `ps` are the packets that the delivery loop finds in `m`, starting after the
id `s` and going on to `latest` at most. -/
structure Delivers {β : Type} (m : PartialMap IdType (Packet β)) (latest s : IdType)
    (ps : List (Packet β)) : Prop where
  found : ∀ i, (hi : i < ps.length) → m.find (succId^[i + 1] s) = some ps[i]
  before : ∀ i < ps.length, succId^[i] s ≠ latest
  stops : succId^[ps.length] s = latest ∨ m.find (succId^[ps.length + 1] s) = none

namespace Delivers

variable {β : Type} {m : PartialMap IdType (Packet β)} {latest s : IdType} {n latestN : ℕ}
  {ps : List (Packet β)}

theorem forall_mem {P : Packet β → Prop} (h : Delivers m latest s ps)
    (hm : ∀ id p, m.find id = some p → P p) : ∀ p ∈ ps, P p := by
  intro p hp
  obtain ⟨i, hi, rfl⟩ := List.getElem_of_mem hp
  exact hm _ _ (h.found i hi)

/-! ## The loop in stream positions -/

theorem found_wireId (h : Delivers m latest (wireId n) ps) {i : ℕ} (hi : i < ps.length) :
    m.find (wireId (n + i + 1)) = some ps[i] := by
  have hfound := h.found i hi
  rwa [succId_iterate_wireId] at hfound

theorem stops_wireId (h : Delivers m latest (wireId n) ps) :
    wireId (n + ps.length) = latest ∨ m.find (wireId (n + ps.length + 1)) = none := by
  have hstops := h.stops
  rwa [succId_iterate_wireId, succId_iterate_wireId] at hstops

/-- The loop does not go past the ack id. -/
theorem le_latest (h : Delivers m (wireId latestN) (wireId n) ps) (hle : n ≤ latestN) :
    n + ps.length ≤ latestN := by
  by_contra hlt
  have hopen := h.before (latestN - n) (by omega)
  rw [succId_iterate_wireId, Nat.add_sub_of_le hle] at hopen
  exact hopen rfl

/-- If the ack id is less than a period ahead, the loop ends before it only at a hole. -/
theorem hole_of_lt (h : Delivers m (wireId latestN) (wireId n) ps)
    (hlt : n + ps.length < latestN) (hnear : latestN < n + idPeriod) :
    m.find (wireId (n + ps.length + 1)) = none := by
  refine h.stops_wireId.resolve_left fun hstop ↦ ?_
  rcases Nat.eq_zero_or_pos (n + ps.length) with hzero | hpos
  · rw [hzero, wireId_zero] at hstop
    exact wireId_ne_invalidId (Nat.zero_lt_of_lt hlt) hstop.symm
  · have heq := eq_of_wireId_eq hpos (by omega) (by omega) (by omega) hstop
    omega

end Delivers

namespace Connection

variable {β : Type}

def deliver (s : PacketStream β) (ps : List (Packet β)) : PacketStream β :=
  { s with
    readyPackets := s.readyPackets ++ ps
    sequenceNumber := succId^[ps.length] s.sequenceNumber }

theorem body_eq (latest : IdType) (s : DeliveryLoop β) :
    DeliveryLoop.body latest s =
      if s.nextExpectedPacketId = latest then none
      else (s.incoming.reliablePackets.find (succId s.nextExpectedPacketId)).map fun p ↦
        ⟨succId s.nextExpectedPacketId,
          { s.incoming with
            readyPackets := s.incoming.readyPackets ++ [p]
            sequenceNumber := succId s.nextExpectedPacketId }⟩ := by
  simp only [DeliveryLoop.body, delivery_successor, ne_eq, ite_not]
  split
  · rfl
  · cases s.incoming.reliablePackets.find (succId s.nextExpectedPacketId) <;> rfl

/-- One more iteration, after the packets `ps` have been delivered. -/
theorem body_deliver_eq_some_iff {latest : IdType} {s : PacketStream β} {ps : List (Packet β)}
    {t : DeliveryLoop β} :
    DeliveryLoop.body latest ⟨succId^[ps.length] s.sequenceNumber, deliver s ps⟩ = some t ↔
      succId^[ps.length] s.sequenceNumber ≠ latest ∧
        ∃ p, s.reliablePackets.find (succId^[ps.length + 1] s.sequenceNumber) = some p ∧
          t = ⟨succId^[ps.length + 1] s.sequenceNumber, deliver s (ps ++ [p])⟩ := by
  rw [body_eq, Function.iterate_succ_apply' succId]
  by_cases hend : succId^[ps.length] s.sequenceNumber = latest
  · simp [hend]
  · rw [if_neg hend, Option.map_eq_some_iff]
    simp [deliver, Function.iterate_succ_apply', hend, eq_comm]

theorem body_deliver_eq_none_iff {latest : IdType} {s : PacketStream β} {ps : List (Packet β)} :
    DeliveryLoop.body latest ⟨succId^[ps.length] s.sequenceNumber, deliver s ps⟩ = none ↔
      succId^[ps.length] s.sequenceNumber = latest ∨
        s.reliablePackets.find (succId^[ps.length + 1] s.sequenceNumber) = none := by
  rw [body_eq, Function.iterate_succ_apply' succId]
  by_cases hend : succId^[ps.length] s.sequenceNumber = latest
  · simp [hend]
  · rw [if_neg hend, Option.map_eq_none_iff, or_iff_right hend]
    rfl

/-- Snoc form of the condition on the packets that have been found. -/
theorem forall_getElem_snoc_iff {α : Type} {f : ℕ → Option α} {ps : List α} {p : α} :
    (∀ i, (hi : i < (ps ++ [p]).length) → f i = some (ps ++ [p])[i]) ↔
      (∀ i, (hi : i < ps.length) → f i = some ps[i]) ∧ f ps.length = some p := by
  constructor
  · intro h
    refine ⟨fun i hi ↦ ?_, ?_⟩
    · have hget := h i (by simp; omega)
      rwa [List.getElem_append_left hi] at hget
    · simpa using h ps.length (by simp)
  · rintro ⟨h, hlast⟩ i hi
    rcases Nat.lt_succ_iff_lt_or_eq.mp (by simpa using hi) with hlt | rfl
    · rw [List.getElem_append_left hlt]
      exact h i hlt
    · simpa using hlast

theorem steps_body_iff (latest : IdType) (s : PacketStream β) (n : ℕ) (t : DeliveryLoop β) :
    BoundedLoop.steps (DeliveryLoop.body latest) n ⟨s.sequenceNumber, s⟩ = some t ↔
      ∃ ps : List (Packet β), ps.length = n ∧
        (∀ i, (hi : i < ps.length) →
          s.reliablePackets.find (succId^[i + 1] s.sequenceNumber) = some ps[i]) ∧
        (∀ i < ps.length, succId^[i] s.sequenceNumber ≠ latest) ∧
        t = ⟨succId^[n] s.sequenceNumber, deliver s ps⟩ := by
  induction n generalizing t with
  | zero =>
      constructor
      · intro h
        refine ⟨[], rfl, by simp, by simp, ?_⟩
        simpa [deliver] using (Option.some.inj h).symm
      · rintro ⟨ps, hlen, -, -, rfl⟩
        obtain rfl := List.length_eq_zero_iff.mp hlen
        simp [deliver]
  | succ n ih =>
      rw [BoundedLoop.steps_succ_right, Option.bind_eq_some_iff]
      constructor
      · rintro ⟨u, hu, hbody⟩
        obtain ⟨ps, rfl, hfound, hbefore, rfl⟩ := (ih u).mp hu
        obtain ⟨hne, p, hp, rfl⟩ := body_deliver_eq_some_iff.mp hbody
        refine ⟨ps ++ [p], by simp, forall_getElem_snoc_iff.mpr ⟨hfound, hp⟩, ?_, rfl⟩
        intro i hi
        rcases Nat.lt_succ_iff_lt_or_eq.mp (by simpa using hi) with hlt | rfl
        · exact hbefore i hlt
        · exact hne
      · rintro ⟨ps, hlen, hfound, hbefore, rfl⟩
        have hne : ps ≠ [] := by
          rintro rfl
          simp at hlen
        obtain ⟨qs, p, rfl⟩ := (List.eq_nil_or_concat' ps).resolve_left hne
        obtain rfl : qs.length = n := by simpa using hlen
        obtain ⟨hfound, hlast⟩ := forall_getElem_snoc_iff.mp hfound
        refine ⟨⟨succId^[qs.length] s.sequenceNumber, deliver s qs⟩,
          (ih _).mpr ⟨qs, rfl, hfound, ?_, rfl⟩, ?_⟩
        · intro i hi
          exact hbefore i (by simp; omega)
        · exact body_deliver_eq_some_iff.mpr ⟨hbefore _ (by simp), p, hlast, rfl⟩

theorem exec_body_iff (latest : IdType) (s : PacketStream β) (bound : ℕ) (t : DeliveryLoop β) :
    BoundedLoop.exec (DeliveryLoop.body latest) bound ⟨s.sequenceNumber, s⟩ = some t ↔
      ∃ ps, ps.length < bound ∧ Delivers s.reliablePackets latest s.sequenceNumber ps ∧
        t = ⟨succId^[ps.length] s.sequenceNumber, deliver s ps⟩ := by
  rw [BoundedLoop.exec_eq_some_iff]
  constructor
  · rintro ⟨n, hn, hsteps, hend⟩
    obtain ⟨ps, rfl, hfound, hbefore, rfl⟩ := (steps_body_iff ..).mp hsteps
    exact ⟨ps, hn, ⟨hfound, hbefore, body_deliver_eq_none_iff.mp hend⟩, rfl⟩
  · rintro ⟨ps, hn, hps, rfl⟩
    exact ⟨ps.length, hn, (steps_body_iff ..).mpr ⟨ps, rfl, hps.found, hps.before, rfl⟩,
      body_deliver_eq_none_iff.mpr hps.stops⟩

/-! ## Termination -/

/-- The number of steps from one id to another along the cycle. -/
def idDistance (a b : IdType) : ℕ :=
  if a.toNat ≤ b.toNat then b.toNat - a.toNat else b.toNat + idPeriod - a.toNat

theorem idDistance_succId {a b : IdType} (hb : b ≠ invalidId) (hab : a ≠ b) :
    idDistance (succId a) b < idDistance a b := by
  have hale := idType_toNat_le a
  have hble := idType_toNat_le b
  have hbpos : b.toNat ≠ 0 := fun h ↦ hb (eq_invalidId_iff.mpr h)
  have habne : a.toNat ≠ b.toNat := fun h ↦ hab (UInt16.toNat_inj.mp h)
  rw [idDistance, idDistance, succId_toNat, CyclicNumber.next]
  split <;> split <;> split <;> omega

theorem idDistance_lt_deliveryBound (a b : IdType) : idDistance a b < deliveryBound := by
  have hale := idType_toNat_le a
  have hble := idType_toNat_le b
  rw [idDistance, deliveryBound]
  rw [idPeriod] at *
  split <;> omega

theorem enqueueProcessablePackets_eq_ok_iff {c c' : Connection β} :
    c.enqueueProcessablePackets = .ok c' ↔
      ∃ ps, ps.length < deliveryBound ∧
        Delivers c.incoming.reliablePackets c.currentAckId c.incoming.sequenceNumber ps ∧
        c' = { c with incoming := deliver c.incoming ps } := by
  rw [enqueueProcessablePackets, getCurrentAckId]
  cases h : BoundedLoop.exec (DeliveryLoop.body c.currentAckId) deliveryBound
      ⟨c.incoming.sequenceNumber, c.incoming⟩ with
  | none =>
      constructor
      · intro hc
        simp at hc
      · rintro ⟨ps, hlt, hps, -⟩
        have hsome := (exec_body_iff _ _ _ _).mpr ⟨ps, hlt, hps, rfl⟩
        rw [h] at hsome
        simp at hsome
  | some t =>
      obtain ⟨ps, hlt, hps, rfl⟩ := (exec_body_iff _ _ _ _).mp h
      constructor
      · intro hc
        exact ⟨ps, hlt, hps, (Except.ok.inj hc).symm⟩
      · rintro ⟨qs, hlt', hqs, rfl⟩
        have hsome := (exec_body_iff _ _ _ _).mpr ⟨qs, hlt', hqs, rfl⟩
        rw [h] at hsome
        have hstream := congrArg DeliveryLoop.incoming (Option.some.inj hsome)
        exact congrArg (fun s ↦ Except.ok { c with incoming := s }) hstream

theorem exists_enqueueProcessablePackets_iff_exec {c : Connection β} :
    (∃ c', c.enqueueProcessablePackets = .ok c') ↔
      ∃ t, BoundedLoop.exec (DeliveryLoop.body c.currentAckId) deliveryBound
        ⟨c.incoming.sequenceNumber, c.incoming⟩ = some t := by
  constructor
  · rintro ⟨c', hc'⟩
    obtain ⟨ps, hlt, hps, -⟩ := enqueueProcessablePackets_eq_ok_iff.mp hc'
    exact ⟨_, (exec_body_iff _ _ _ _).mpr ⟨ps, hlt, hps, rfl⟩⟩
  · rintro ⟨t, ht⟩
    obtain ⟨ps, hlt, hps, -⟩ := (exec_body_iff _ _ _ _).mp ht
    exact ⟨_, enqueueProcessablePackets_eq_ok_iff.mpr ⟨ps, hlt, hps, rfl⟩⟩

theorem exists_enqueueProcessablePackets {c : Connection β} (hack : c.currentAckId ≠ invalidId) :
    ∃ c', c.enqueueProcessablePackets = .ok c' := by
  apply exists_enqueueProcessablePackets_iff_exec.mpr
  apply BoundedLoop.exists_exec_of_measure (fun _ ↦ True)
    (fun s ↦ idDistance s.nextExpectedPacketId c.currentAckId)
  · intro s t _ hbody
    rw [body_eq] at hbody
    split at hbody
    · simp at hbody
    · obtain ⟨p, -, rfl⟩ := Option.map_eq_some_iff.mp hbody
      exact ⟨trivial, idDistance_succId hack (by assumption)⟩
  · trivial
  · exact idDistance_lt_deliveryBound _ _

/-! ## `Received` -/

theorem received_of_unreliable (build : Build) (c : Connection β) {p : Packet β}
    (h : p.isReliable = false) :
    c.received build p = .ok { c.processAcks p with
      incoming := { c.incoming with readyPackets := c.incoming.readyPackets ++ [p] } } := by
  simp [received, h, PacketStream.push]
  rfl

/-- The connection after a reliable packet has been stored and the packets `ps`
have been delivered. -/
def afterReliable (c : Connection β) (p : Packet β) (ps : List (Packet β)) : Connection β :=
  { c.processAcks p with
    currentAckId := latestId c.currentAckId p.id
    incoming := deliver
      { c.incoming with reliablePackets := c.incoming.reliablePackets.insert p.id p } ps }

/-- What is left of a reliable packet, whatever its id is. -/
theorem received_eq_ok_iff_of_reliable {build : Build} {c c' : Connection β} {p : Packet β}
    (hrel : p.isReliable = true) :
    c.received build p = .ok c' ↔ (p.id = invalidId → build = .release) ∧
      ∃ ps, ps.length < deliveryBound ∧
        Delivers (c.incoming.reliablePackets.insert p.id p) (latestId c.currentAckId p.id)
          c.incoming.sequenceNumber ps ∧
        c' = c.afterReliable p ps := by
  have hloop : ∀ c', (((c.processAcks p).updateAckId p.id).storeIncoming p.id
      p).enqueueProcessablePackets = .ok c' ↔ ∃ ps, ps.length < deliveryBound ∧
        Delivers (c.incoming.reliablePackets.insert p.id p) (latestId c.currentAckId p.id)
          c.incoming.sequenceNumber ps ∧
        c' = c.afterReliable p ps := by
    intro c'
    rw [enqueueProcessablePackets_eq_ok_iff]
    simp [updateAckId_eq, storeIncoming, afterReliable]
  by_cases hid : p.id = invalidId
  · cases build with
    | debug => simp [received, hrel, hid, Build.assert]
    | release =>
        rw [← hloop]
        simp [received, hrel, Build.assert]
  · rw [← hloop]
    simp [received, hrel, hid]

/-- A reliable packet with a valid id is always processed, in either build. -/
theorem received_of_reliable (build : Build) (c : Connection β) {p : Packet β}
    (h : p.isReliable = true) (hid : p.id ≠ invalidId) :
    ∃ ps, Delivers (c.incoming.reliablePackets.insert p.id p) (latestId c.currentAckId p.id)
        c.incoming.sequenceNumber ps ∧
      c.received build p = .ok (c.afterReliable p ps) := by
  have hack : (((c.processAcks p).updateAckId p.id).storeIncoming p.id p).currentAckId =
      latestId c.currentAckId p.id := by
    simp [updateAckId_eq, storeIncoming]
  obtain ⟨c', hc'⟩ := exists_enqueueProcessablePackets
    (c := ((c.processAcks p).updateAckId p.id).storeIncoming p.id p)
    (by rw [hack]; exact latestId_ne_invalidId hid)
  have hok : c.received build p = .ok c' := by
    rw [← hc']
    simp [received, h, hid]
  obtain ⟨-, ps, -, hps, rfl⟩ := (received_eq_ok_iff_of_reliable h).mp hok
  exact ⟨ps, hps, hok⟩

def receiveAll (build : Build) (c : Connection β) (ps : List (Packet β)) :
    Except Fault (Connection β) :=
  ps.foldlM (received build) c

theorem receiveAll_append (build : Build) (c : Connection β) (ps qs : List (Packet β)) :
    c.receiveAll build (ps ++ qs) = (c.receiveAll build ps).bind (·.receiveAll build qs) :=
  List.foldlM_append

theorem receiveAll_snoc {build : Build} {c c' : Connection β} {ps : List (Packet β)}
    (h : c.receiveAll build ps = .ok c') (p : Packet β) :
    c.receiveAll build (ps ++ [p]) = c'.received build p := by
  rw [receiveAll_append, h]
  change (c'.received build p >>= pure) = _
  exact bind_pure _

theorem receiveAll_snoc_eq_ok_iff {build : Build} {c c' : Connection β} {ps : List (Packet β)}
    {p : Packet β} : c.receiveAll build (ps ++ [p]) = .ok c' ↔
      ∃ c₀, c.receiveAll build ps = .ok c₀ ∧ c₀.received build p = .ok c' := by
  constructor
  · intro h
    cases hc₀ : c.receiveAll build ps with
    | error f =>
        rw [receiveAll_append, hc₀] at h
        cases h
    | ok c₀ => exact ⟨c₀, rfl, (receiveAll_snoc hc₀ p).symm.trans h⟩
  · rintro ⟨c₀, hc₀, hlast⟩
    exact (receiveAll_snoc hc₀ p).trans hlast

/-- Received packets reach the outgoing side through their ack fields only. -/
theorem received_outgoing {build : Build} {c c' : Connection β} {p : Packet β}
    (h : c.received build p = .ok c') : c'.outgoing = (c.processAcks p).outgoing := by
  cases hrel : p.isReliable with
  | false =>
      rw [received_of_unreliable build c hrel] at h
      rw [← Except.ok.inj h]
  | true =>
      obtain ⟨-, ps, -, -, rfl⟩ := (received_eq_ok_iff_of_reliable hrel).mp h
      rfl

end Connection

end GioNet
