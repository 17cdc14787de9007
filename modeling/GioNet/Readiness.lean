import GioNet.Delivery

/-!
# Which packets become ready

A connection whose ready packets are popped from time to time makes the same
packets ready as one whose ready packets stay where they are. Which packets an
arrival makes ready can be read off the connection before it.
-/

namespace GioNet

open Packet (invalidId)

namespace Connection

variable {β : Type} {build : Build} {c c' d : Connection β} {p : Packet β}
  {popped : List (Packet β)}

/-! ## Popping does not matter -/

/-- `c` has received what `d` has, and of its ready packets these have been popped. -/
structure Trails (c d : Connection β) (popped : List (Packet β)) : Prop where
  reliablePackets : c.incoming.reliablePackets = d.incoming.reliablePackets
  sequenceNumber : c.incoming.sequenceNumber = d.incoming.sequenceNumber
  currentAckId : c.currentAckId = d.currentAckId
  readyPackets : popped ++ c.incoming.readyPackets = d.incoming.readyPackets

/-- What is common to connections of different addresses. -/
theorem trails_fresh (a b : NetAddress) : (fresh a : Connection β).Trails (fresh b) [] :=
  ⟨rfl, rfl, rfl, rfl⟩

theorem Trails.of_incoming (h : c.Trails d popped) (hincoming : c'.incoming = c.incoming)
    (hack : c'.currentAckId = c.currentAckId) : c'.Trails d popped := by
  refine ⟨?_, ?_, hack.trans h.currentAckId, ?_⟩
  · rw [hincoming, h.reliablePackets]
  · rw [hincoming, h.sequenceNumber]
  · rw [hincoming, h.readyPackets]

theorem Trails.pop (h : c.Trails d popped) {p : Packet β}
    (hpop : c.popReadyIncomingPacket = some (p, c')) : c'.Trails d (popped ++ [p]) := by
  obtain ⟨rest, hready, rfl⟩ := popReadyIncomingPacket_eq_some_iff.mp hpop
  refine ⟨h.reliablePackets, h.sequenceNumber, h.currentAckId, ?_⟩
  rw [← h.readyPackets, hready, List.append_assoc]
  rfl

theorem Trails.received (h : c.Trails d popped) (hc : c.received build p = .ok c') :
    ∃ d', d.received build p = .ok d' ∧ c'.Trails d' popped := by
  cases hrel : p.isReliable with
  | false =>
      rw [received_of_unreliable build c hrel] at hc
      obtain rfl := Except.ok.inj hc
      refine ⟨_, received_of_unreliable build d hrel, h.reliablePackets, h.sequenceNumber, ?_, ?_⟩
      · simpa using h.currentAckId
      · rw [← h.readyPackets, List.append_assoc]
  | true =>
      obtain ⟨hbuild, ps, hlt, hps, rfl⟩ := (received_eq_ok_iff_of_reliable hrel).mp hc
      rw [h.reliablePackets, h.sequenceNumber, h.currentAckId] at hps
      refine ⟨d.afterReliable p ps,
        (received_eq_ok_iff_of_reliable hrel).mpr ⟨hbuild, ps, hlt, hps, rfl⟩, ?_, ?_, ?_, ?_⟩
      · simp [afterReliable, deliver, h.reliablePackets]
      · simp [afterReliable, deliver, h.sequenceNumber]
      · simp [afterReliable, h.currentAckId]
      · simp [afterReliable, deliver, ← h.readyPackets]

end Connection

/-! ## Reading off what becomes ready -/

/-- The delivery loop gets to `q`: it is stored under one of the ids after `s`, with
no hole before it and without `latest` being passed. -/
def Reaches {β : Type} (m : PartialMap IdType (Packet β)) (latest s : IdType) (q : Packet β) :
    Prop :=
  ∃ n, (∀ i ≤ n, succId^[i] s ≠ latest ∧ m.contains (succId^[i + 1] s) = true) ∧
    m.find (succId^[n + 1] s) = some q

theorem Delivers.mem_iff {β : Type} {m : PartialMap IdType (Packet β)} {latest s : IdType}
    {ps : List (Packet β)} (h : Delivers m latest s ps) (q : Packet β) :
    q ∈ ps ↔ Reaches m latest s q := by
  constructor
  · intro hq
    obtain ⟨n, hn, rfl⟩ := List.mem_iff_getElem.mp hq
    refine ⟨n, fun i hi ↦ ⟨h.before i (by omega), ?_⟩, h.found n hn⟩
    exact PartialMap.contains_iff.mpr ⟨_, h.found i (by omega)⟩
  · rintro ⟨n, hway, hq⟩
    have hn : n < ps.length := by
      by_contra hge
      obtain ⟨hopen, hstored⟩ := hway ps.length (by omega)
      rcases h.stops with hstop | hhole
      · exact hopen hstop
      · obtain ⟨p, hp⟩ := PartialMap.contains_iff.mp hstored
        cases hp.symm.trans hhole
    obtain rfl : ps[n] = q := Option.some.inj ((h.found n hn).symm.trans hq)
    exact List.getElem_mem hn

namespace Connection

variable {β : Type} {build : Build} {c c' : Connection β} {p : Packet β}

/-- `q` is ready after `p` has arrived, and was not before. -/
def MakesReady (c : Connection β) (p q : Packet β) : Prop :=
  if p.isReliable then
    Reaches (c.incoming.reliablePackets.insert p.id p) (latestId c.currentAckId p.id)
      c.incoming.sequenceNumber q
  else q = p

theorem mem_readyPackets_received (h : c.received build p = .ok c') (q : Packet β) :
    q ∈ c'.incoming.readyPackets ↔ q ∈ c.incoming.readyPackets ∨ c.MakesReady p q := by
  cases hrel : p.isReliable with
  | false =>
      rw [received_of_unreliable build c hrel] at h
      obtain rfl := Except.ok.inj h
      simp [MakesReady, hrel]
  | true =>
      obtain ⟨-, ps, -, hps, rfl⟩ := (received_eq_ok_iff_of_reliable hrel).mp h
      rw [MakesReady, if_pos hrel, ← hps.mem_iff]
      simp [afterReliable, deliver]

/-- While the packets arrive in turn at a new connection, `q` becomes ready. -/
def BecomesReady (build : Build) (address : NetAddress) (ps : List (Packet β)) (q : Packet β) :
    Prop :=
  ∃ before p after c, ps = before ++ p :: after ∧
    (fresh address).receiveAll build before = .ok c ∧ c.MakesReady p q

theorem mem_readyPackets_receiveAll {address : NetAddress} {ps : List (Packet β)}
    (h : (fresh address).receiveAll build ps = .ok c) (q : Packet β) :
    q ∈ c.incoming.readyPackets ↔ BecomesReady build address ps q := by
  induction ps using List.reverseRecOn generalizing c with
  | nil =>
      obtain rfl := Except.ok.inj h
      constructor
      · intro hq
        cases hq
      · rintro ⟨before, p, after, c, heq, -⟩
        simp at heq
  | append_singleton ps p ih =>
      obtain ⟨c₀, hc₀, hlast⟩ := receiveAll_snoc_eq_ok_iff.mp h
      rw [mem_readyPackets_received hlast, ih hc₀]
      constructor
      · rintro (⟨before, p', after, c', rfl, hbefore, hready⟩ | hready)
        · exact ⟨before, p', after ++ [p], c', by simp, hbefore, hready⟩
        · exact ⟨ps, p, [], c₀, rfl, hc₀, hready⟩
      · rintro ⟨before, p', after, c', heq, hbefore, hready⟩
        rcases List.eq_nil_or_concat' after with rfl | ⟨after', p'', rfl⟩
        · obtain ⟨rfl, hp⟩ := List.append_inj' heq rfl
          obtain rfl := List.singleton_inj.mp hp
          obtain rfl := Except.ok.inj (hc₀.symm.trans hbefore)
          exact .inr hready
        · rw [← List.cons_append, ← List.append_assoc] at heq
          exact .inl ⟨before, p', after', c', (List.append_inj' heq rfl).1, hbefore, hready⟩

end Connection

end GioNet
