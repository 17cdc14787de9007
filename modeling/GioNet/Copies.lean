import GioNet.Stream

/-!
# Copies of the messages of a stream

The sender numbers the messages it schedules, and a copy never changes: in the
sender's queue and store, in flight and in the receiver's map it carries the
payload of a message under the id of that message. No bound on the length of
the stream is needed for this.
-/

namespace GioNet

open Packet (invalidId maxPossibleId)

variable {β : Type}

/-- If reliable, the packet is a copy of one of the messages of the list, under
the id of that message. -/
def Genuine (scheduled : List (Packet β)) (p : Packet β) : Prop :=
  p.isReliable = true → ∃ k, ∃ h : k < scheduled.length,
    p.id = wireId (k + 1) ∧ p.payload = scheduled[k].payload

theorem Genuine.append {scheduled : List (Packet β)} {p : Packet β} (h : Genuine scheduled p)
    (more : List (Packet β)) : Genuine (scheduled ++ more) p := by
  intro hrel
  obtain ⟨k, hk, hid, hpayload⟩ := h hrel
  refine ⟨k, by rw [List.length_append]; omega, hid, ?_⟩
  rw [hpayload, List.getElem_append_left hk]

theorem Genuine.id_ne {scheduled : List (Packet β)} {p : Packet β} (h : Genuine scheduled p)
    (hrel : p.isReliable = true) : p.id ≠ invalidId := by
  obtain ⟨k, -, hid, -⟩ := h hrel
  rw [hid]
  exact wireId_ne_invalidId (Nat.succ_pos k)

/-- What the receiver's map may hold: copies, each under its own id. -/
def GenuineMap (scheduled : List (Packet β)) (m : PartialMap IdType (Packet β)) : Prop :=
  ∀ id p, m.find id = some p → p.id = id ∧ p.isReliable = true ∧ Genuine scheduled p

theorem GenuineMap.append {scheduled : List (Packet β)} {m : PartialMap IdType (Packet β)}
    (h : GenuineMap scheduled m) (more : List (Packet β)) : GenuineMap (scheduled ++ more) m := by
  intro id p hp
  obtain ⟨hid, hrel, hgen⟩ := h id p hp
  exact ⟨hid, hrel, hgen.append more⟩

theorem GenuineMap.insert {scheduled : List (Packet β)} {m : PartialMap IdType (Packet β)}
    (h : GenuineMap scheduled m) {p : Packet β} (hp : Genuine scheduled p)
    (hrel : p.isReliable = true) : GenuineMap scheduled (m.insert p.id p) := by
  intro id q hq
  rw [PartialMap.find_insert] at hq
  split at hq
  · obtain rfl := Option.some.inj hq
    exact ⟨Eq.symm (by assumption), hrel, hp⟩
  · exact h id q hq

namespace Stream

structure Copies (v : Stream β) : Prop where
  numbered : v.outgoing.sequenceNumber = wireId v.scheduled.length
  queued : ∀ p ∈ v.outgoing.readyPackets, Genuine v.scheduled p
  stored : GenuineMap v.scheduled v.outgoing.reliablePackets
  inFlight : ∀ p ∈ v.inFlight, Genuine v.scheduled p
  buffered : GenuineMap v.scheduled v.incoming.reliablePackets

namespace Copies

variable {v : Stream β}

theorem genuine_scheduledPacket (h : v.Copies) {p : Packet β} {c : Connection β}
    (hc : c.outgoing = v.outgoing) : Genuine (v.scheduled ++ [p]) (c.scheduledPacket p) := by
  intro hrel
  rw [Connection.scheduledPacket_isReliable] at hrel
  refine ⟨v.scheduled.length, by simp, ?_, by simp⟩
  rw [wireId_succ, ← h.numbered, ← hc]
  exact Connection.scheduledPacket_id c hrel

theorem schedule (h : v.Copies) (p : Packet β) {c : Connection β} (hc : c.outgoing = v.outgoing) :
    Copies { v with
      outgoing := (c.schedule p).outgoing
      scheduled := if p.isReliable then v.scheduled ++ [p] else v.scheduled } := by
  cases hrel : p.isReliable with
  | false =>
      refine ⟨?_, ?_, ?_, h.inFlight, h.buffered⟩
      · simpa [Connection.schedule_of_unreliable hrel, hc] using h.numbered
      · intro q hq
        rw [Connection.schedule_readyPackets, hc, List.mem_append, List.mem_singleton] at hq
        rcases hq with hq | rfl
        · exact h.queued q hq
        · intro hq
          simp [hrel] at hq
      · simpa [Connection.schedule_of_unreliable hrel, hc] using h.stored
  | true =>
      have hnew := h.genuine_scheduledPacket (p := p) hc
      refine ⟨?_, ?_, ?_, fun q hq ↦ (h.inFlight q hq).append [p], h.buffered.append [p]⟩
      · simp [Connection.schedule_of_reliable hrel, hc, h.numbered, wireId_succ]
      · intro q hq
        rw [Connection.schedule_readyPackets, hc, List.mem_append, List.mem_singleton] at hq
        rcases hq with hq | rfl
        · exact (h.queued q hq).append [p]
        · exact hnew
      · have hmap := (h.stored.append [p]).insert hnew (by simpa using hrel)
        simpa [Connection.schedule_of_reliable hrel, Connection.scheduledPacket, hrel, hc]
          using hmap

theorem send (h : v.Copies) {p : Packet β} {rest : List (Packet β)} {ackId : IdType}
    {bits : AckBitsetType} (hready : v.outgoing.readyPackets = p :: rest) :
    Copies { v with
      outgoing := { v.outgoing with readyPackets := rest }
      inFlight := v.inFlight ++ [{ p with ackId := ackId, ackBitset := bits }] } := by
  refine ⟨h.numbered, ?_, h.stored, ?_, h.buffered⟩
  · intro q hq
    exact h.queued q (hready ▸ List.mem_cons_of_mem p hq)
  · intro q hq
    rcases List.mem_append.mp hq with hq | hq
    · exact h.inFlight q hq
    · obtain rfl := List.mem_singleton.mp hq
      exact h.queued p (hready ▸ List.mem_cons_self)

theorem acks (h : v.Copies) (q : Packet β) {c : Connection β} (hc : c.outgoing = v.outgoing) :
    Copies { v with outgoing := (c.processAcks q).outgoing } := by
  refine ⟨?_, ?_, ?_, h.inFlight, h.buffered⟩
  · simpa [hc] using h.numbered
  · intro p hp
    rw [Connection.processAcks_readyPackets, hc, List.mem_append] at hp
    rcases hp with hp | hp
    · exact h.queued p hp
    · obtain ⟨i, -, -, hfind⟩ := Connection.mem_rescheduled.mp hp
      exact (h.stored _ p (hc ▸ hfind)).2.2
  · intro id p hp
    exact h.stored id p (hc ▸ (Connection.processAcks_find_some hp).2)

theorem received {build : Build} (h : v.Copies) {p : Packet β} {c c' : Connection β}
    (hin : c.incoming = v.incoming) (hp : p ∈ v.inFlight) (hrel : p.isReliable = true)
    (hreceived : c.received build p = .ok c') :
    ∃ ps, Delivers (v.incoming.reliablePackets.insert p.id p)
        (Connection.latestId c.currentAckId p.id) v.incoming.sequenceNumber ps ∧
      c' = c.afterReliable p ps := by
  obtain ⟨ps, hps, hok⟩ :=
    Connection.received_of_reliable build c hrel ((h.inFlight p hp).id_ne hrel)
  exact ⟨ps, hin ▸ hps, Except.ok.inj (hreceived.symm.trans hok)⟩

theorem arrive {build : Build} (h : v.Copies) {p : Packet β} {c c' : Connection β}
    (hin : c.incoming = v.incoming) (hp : p ∈ v.inFlight)
    (hreceived : c.received build p = .ok c') :
    Copies { v with
      incoming := c'.incoming
      ackId := c'.currentAckId
      received := v.received ++ [p] } := by
  refine ⟨h.numbered, h.queued, h.stored, h.inFlight, ?_⟩
  cases hrel : p.isReliable with
  | false =>
      rw [Connection.received_of_unreliable build c hrel] at hreceived
      obtain rfl := Except.ok.inj hreceived
      simpa [hin] using h.buffered
  | true =>
      obtain ⟨ps, -, rfl⟩ := h.received hin hp hrel hreceived
      simpa [Connection.afterReliable, Connection.deliver, hin] using
        h.buffered.insert (h.inFlight p hp) hrel

theorem step {build : Build} {v' : Stream β} {e : Event β} (h : v.Copies)
    (hstep : Step build v e v') : v'.Copies := by
  cases hstep with
  | idle => exact h
  | schedule p c hc => exact h.schedule p hc
  | send p rest ackId bits hready => exact h.send hready
  | acks q c hc hq => exact h.acks q hc
  | arrive p c c' hin hack hp hreceived => exact h.arrive hin hp hreceived
  | header q => exact ⟨h.numbered, h.queued, h.stored, h.inFlight, h.buffered⟩
  | consume p rest hready => exact ⟨h.numbered, h.queued, h.stored, h.inFlight, h.buffered⟩
  | drop inFlight headers hsub hsub' =>
      exact ⟨h.numbered, h.queued, h.stored, fun p hp ↦ h.inFlight p (hsub hp), h.buffered⟩

end Copies

end Stream

namespace Link

theorem copies_fresh (address : Side → NetAddress) (s : Side) :
    ((fresh address : Link β).stream s).Copies := by
  refine ⟨rfl, ?_, ?_, ?_, ?_⟩
  · intro p hp
    simp [stream, fresh, Connection.fresh] at hp
  · intro id p hp
    simp [stream, fresh, Connection.fresh] at hp
  · intro p hp
    simp [stream, fresh] at hp
  · intro id p hp
    simp [stream, fresh, Connection.fresh] at hp

theorem Reachable.copies {build : Build} {address : Side → NetAddress} {l : Link β}
    (h : Reachable build address l) (s : Side) : (l.stream s).Copies :=
  LabelledRun.Reaches.invariant (fun l ↦ (l.stream s).Copies) h (copies_fresh address s)
    fun _ _ _ hcopies hstep ↦ hcopies.step (hstep.stream s)

/-- No run gets stuck in `Received`: every packet in flight can be processed. -/
theorem Reachable.exists_received {build : Build} {address : Side → NetAddress} {l : Link β}
    (h : Reachable build address l) {s : Side} {p : Packet β} (hp : p ∈ l.network s) :
    ∃ c, (l.endpoint s.other).connection.received build p = .ok c := by
  cases hrel : p.isReliable with
  | false => exact ⟨_, Connection.received_of_unreliable build _ hrel⟩
  | true =>
      obtain ⟨ps, -, hok⟩ := Connection.received_of_reliable build
        (l.endpoint s.other).connection hrel (((h.copies s).inFlight p hp).id_ne hrel)
      exact ⟨_, hok⟩

theorem Reachable.exists_receive {build : Build} {address : Side → NetAddress} {l : Link β}
    (h : Reachable build address l) {t : Side} {p : Packet β} (hp : p ∈ l.network t.other) :
    ∃ l', Step build l (.receive t p) l' := by
  obtain ⟨c, hc⟩ := h.exists_received hp
  rw [Side.other_other] at hc
  exact ⟨_, .receive t p c hp hc⟩

theorem exists_pop (build : Build) (l : Link β) (t : Side)
    (h : (l.endpoint t).connection.outgoing.readyPackets ≠ []) :
    ∃ l', Step build l (.pop t) l' := by
  obtain ⟨p, rest, hready⟩ := List.exists_cons_of_ne_nil h
  exact ⟨_, .pop t _ _ (Connection.popReadyOutgoingPacket_eq_some_iff.mpr
    ⟨p, rest, hready, rfl, rfl⟩)⟩

end Link

end GioNet
