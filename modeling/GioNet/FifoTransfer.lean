import GioNet.Delivery
import GioNet.Library.Run

/-!
# Transfer over a loss-free FIFO channel

One sender, one receiver and a channel that keeps the order and loses nothing.
However far the sender runs ahead and however often the ids wrap, the receiver
delivers each packet when it arrives.
-/

namespace GioNet

open Packet (invalidId maxPossibleId)

structure Fifo (β : Type) where
  sender : Connection β
  receiver : Connection β
  channel : List (Packet β) := []
  /-- The scheduled packets, with the ids that the sender assigned. -/
  assigned : List (Packet β) := []
  /-- The number of packets that the receiver has received. -/
  arrived : ℕ := 0
  /-- The packets popped from the receiver. -/
  popped : List (Packet β) := []

namespace Fifo

variable {β : Type}

inductive Action (β : Type) where
  | schedule (p : Packet β)
  | send
  | receive
  | consume

inductive Step (build : Build) (l : Fifo β) : Action β → Fifo β → Prop
  | schedule (p : Packet β) (hrel : p.isReliable = true) :
      Step build l (.schedule p) { l with
        sender := l.sender.schedule p
        assigned := l.assigned ++
          [{ p with id := (l.sender.schedule p).outgoing.sequenceNumber }] }
  | send (p : Packet β) (c : Connection β)
      (hpop : l.sender.popReadyOutgoingPacket = some (p, c)) :
      Step build l .send { l with sender := c, channel := l.channel ++ [p] }
  | receive (p : Packet β) (rest : List (Packet β)) (c : Connection β)
      (hhead : l.channel = p :: rest) (hreceived : l.receiver.received build p = .ok c) :
      Step build l .receive { l with receiver := c, channel := rest, arrived := l.arrived + 1 }
  | consume (p : Packet β) (c : Connection β)
      (hpop : l.receiver.popReadyIncomingPacket = some (p, c)) :
      Step build l .consume { l with receiver := c, popped := l.popped ++ [p] }

def fresh (address address' : NetAddress) : Fifo β :=
  { sender := .fresh address, receiver := .fresh address' }

def Reachable (build : Build) (address address' : NetAddress) (l : Fifo β) : Prop :=
  LabelledRun.Reaches (Step build) (fresh address address') l

def delivered (l : Fifo β) : List (Packet β) :=
  l.popped ++ l.receiver.incoming.readyPackets

end Fifo

def Packet.message {β : Type} (p : Packet β) : HeaderType × IdType × β :=
  (p.header, p.id, p.payload)

theorem Packet.isReliable_of_message_eq {β : Type} {p q : Packet β} (h : p.message = q.message) :
    p.isReliable = q.isReliable := by
  have hheader : p.header = q.header := congrArg Prod.fst h
  simp [Packet.isReliable, Packet.hasFlags, hheader]

theorem Delivers.eq_singleton {β : Type} {m : PartialMap IdType (Packet β)} {k : ℕ}
    {p : Packet β} {ps : List (Packet β)}
    (h : Delivers (m.insert (wireId (k + 1)) p) (wireId (k + 1)) (wireId k) ps) : ps = [p] := by
  have hle := h.le_latest (Nat.le_succ k)
  have hlen : ps.length = 1 := by
    rcases Nat.eq_zero_or_pos ps.length with hzero | hpos
    · have hhole := h.hole_of_lt (by omega) (by rw [idPeriod]; omega)
      simp [hzero] at hhole
    · omega
  obtain ⟨q, rfl⟩ := List.length_eq_one_iff.mp hlen
  have hfound := h.found_wireId (i := 0) (by simp)
  simpa using hfound.symm

namespace Fifo

variable {β : Type}

/-- Everything scheduled is delivered, in the channel or still queued, in this
order; the receiver's two counters stand at the last arrived message. -/
structure InStep (l : Fifo β) : Prop where
  numbered : l.sender.outgoing.sequenceNumber = wireId l.assigned.length
  ids : ∀ i, (hi : i < l.assigned.length) →
    l.assigned[i].id = wireId (i + 1) ∧ l.assigned[i].isReliable = true
  split : l.delivered.map Packet.message ++ l.channel.map Packet.message ++
    l.sender.outgoing.readyPackets.map Packet.message = l.assigned.map Packet.message
  arrived : l.delivered.length = l.arrived
  sequenceNumber : l.receiver.incoming.sequenceNumber = wireId l.arrived
  ackId : l.receiver.currentAckId = wireId l.arrived

theorem inStep_fresh (address address' : NetAddress) :
    (fresh address address' : Fifo β).InStep := by
  refine ⟨rfl, ?_, rfl, rfl, rfl, rfl⟩
  intro i hi
  simp [fresh] at hi

theorem InStep.head {l : Fifo β} (h : l.InStep) {p : Packet β} {rest : List (Packet β)}
    (hhead : l.channel = p :: rest) :
    p.id = wireId (l.arrived + 1) ∧ p.isReliable = true := by
  have hlt : l.arrived < l.assigned.length := by
    have hlen := congrArg List.length h.split
    simp only [List.length_append, List.length_map, hhead, List.length_cons, h.arrived] at hlen
    omega
  have hmessage : p.message = l.assigned[l.arrived].message := by
    have hget : (l.assigned.map Packet.message)[l.arrived]? = some p.message := by
      rw [← h.split, hhead, List.append_assoc, List.getElem?_append_right (by simp [h.arrived])]
      simp [h.arrived]
    rw [List.getElem?_map, List.getElem?_eq_getElem hlt] at hget
    exact (Option.some.inj hget).symm
  obtain ⟨hid, hrel⟩ := h.ids l.arrived hlt
  exact ⟨(congrArg (fun m ↦ m.2.1) hmessage).trans hid,
    (Packet.isReliable_of_message_eq hmessage).trans hrel⟩

theorem InStep.received {l : Fifo β} (h : l.InStep) (build : Build) {p : Packet β}
    {rest : List (Packet β)} (hhead : l.channel = p :: rest) :
    l.receiver.received build p = .ok (l.receiver.afterReliable p [p]) := by
  obtain ⟨hid, hrel⟩ := h.head hhead
  have hvalid : p.id ≠ invalidId := by
    rw [hid]
    exact wireId_ne_invalidId (Nat.succ_pos _)
  obtain ⟨ps, hps, hok⟩ := Connection.received_of_reliable build l.receiver hrel hvalid
  rw [hid, h.ackId, h.sequenceNumber, Connection.latestId_wireId (Nat.succ_pos _) (by omega)
    (by omega), Nat.max_eq_right (Nat.le_succ _)] at hps
  rw [hok, hps.eq_singleton]

theorem InStep.step {build : Build} {l l' : Fifo β} {a : Action β} (h : l.InStep)
    (hstep : Step build l a l') : l'.InStep := by
  cases hstep with
  | schedule p hrel =>
      have hid : (l.sender.schedule p).outgoing.sequenceNumber =
          wireId (l.assigned.length + 1) := by
        simp [Connection.schedule_of_reliable hrel, h.numbered, wireId_succ]
      refine ⟨by simpa using hid, ?_, ?_, h.arrived, h.sequenceNumber, h.ackId⟩
      · intro i hi
        rcases Nat.lt_succ_iff_lt_or_eq.mp (by simpa using hi) with hlt | rfl
        · simpa [List.getElem_append_left hlt] using h.ids i hlt
        · simpa [hrel] using hid
      · have hlast : (l.sender.scheduledPacket p).message =
            ({ p with id := (l.sender.schedule p).outgoing.sequenceNumber } :
              Packet β).message := by
          simp [Packet.message, Connection.scheduledPacket, hrel,
            Connection.schedule_of_reliable hrel]
        have hsplit := congrArg (· ++ [(l.sender.scheduledPacket p).message]) h.split
        simpa [delivered, hlast] using hsplit
  | send p c hpop =>
      obtain ⟨q, rest, hready, rfl, rfl⟩ := Connection.popReadyOutgoingPacket_eq_some_iff.mp hpop
      refine ⟨h.numbered, h.ids, ?_, h.arrived, h.sequenceNumber, h.ackId⟩
      have hsplit := h.split
      rw [hready] at hsplit
      simpa [delivered, Packet.message] using hsplit
  | receive p rest c hhead hreceived =>
      obtain ⟨hid, hrel⟩ := h.head hhead
      obtain rfl := Except.ok.inj (hreceived.symm.trans (h.received build hhead))
      refine ⟨h.numbered, h.ids, ?_, ?_, ?_, ?_⟩
      · have hsplit := h.split
        rw [hhead] at hsplit
        simpa [delivered, Connection.afterReliable, Connection.deliver] using hsplit
      · have harrived := h.arrived
        simp only [delivered, List.length_append] at harrived
        simp [delivered, Connection.afterReliable, Connection.deliver, ← harrived, Nat.add_assoc]
      · simp [Connection.afterReliable, Connection.deliver, h.sequenceNumber, wireId_succ]
      · simp only [Connection.afterReliable, hid, h.ackId]
        rw [Connection.latestId_wireId (Nat.succ_pos _) (by omega) (by omega),
          Nat.max_eq_right (Nat.le_succ _)]
  | consume p c hpop =>
      obtain ⟨rest, hready, rfl⟩ := Connection.popReadyIncomingPacket_eq_some_iff.mp hpop
      have hsame : ({ l with
          receiver := { l.receiver with
            incoming := { l.receiver.incoming with readyPackets := rest } }
          popped := l.popped ++ [p] } : Fifo β).delivered = l.delivered := by
        simp [delivered, hready]
      refine ⟨h.numbered, h.ids, ?_, ?_, h.sequenceNumber, h.ackId⟩
      · rw [hsame]
        exact h.split
      · rw [hsame]
        exact h.arrived

theorem Reachable.inStep {build : Build} {address address' : NetAddress} {l : Fifo β}
    (h : Reachable build address address' l) : l.InStep :=
  LabelledRun.Reaches.invariant InStep h (inStep_fresh address address')
    fun _ _ _ hinv hstep ↦ hinv.step hstep

/-- After `arrived` receptions the receiver has delivered exactly the first
`arrived` scheduled messages, under the ids that the sender gave them; nothing
that has arrived is waiting, and the next packet in the channel is accepted. -/
theorem delivered_eq_take_arrived (build : Build) (address address' : NetAddress) (l : Fifo β)
    (hl : Reachable build address address' l) :
    l.delivered.map Packet.message = (l.assigned.take l.arrived).map Packet.message ∧
      l.delivered.length = l.arrived ∧
      l.receiver.incoming.sequenceNumber = l.receiver.currentAckId ∧
      ∀ p rest, l.channel = p :: rest → ∃ c, l.receiver.received build p = .ok c := by
  have h := hl.inStep
  refine ⟨?_, h.arrived, h.sequenceNumber.trans h.ackId.symm, ?_⟩
  · have hlen : (l.delivered.map Packet.message).length = l.arrived := by
      rw [List.length_map, h.arrived]
    rw [List.map_take, ← h.split, List.append_assoc, List.take_left' hlen]
  · intro p rest hhead
    exact ⟨_, h.received build hhead⟩

theorem delivered_eq_take_arrived_after_one :
    ∃ l : Fifo ℕ, l.assigned.length = 2 ∧ l.delivered.length = 1 ∧
      l.delivered.map Packet.message = (l.assigned.take l.arrived).map Packet.message := by
  have hrun : ∃ l : Fifo ℕ, Reachable .debug {} {} l ∧
      l.assigned.length = 2 ∧ l.delivered.length = 1 := by
    have hsent : LabelledRun.Reaches (Step .debug) (fresh {} {}) _ :=
      (((LabelledRun.Reaches.refl _).tail
        (.schedule (Packet.make .data .reliable 7) rfl)).tail
        (.schedule (Packet.make .data .reliable 8) rfl)).tail (.send _ _ rfl)
    refine ⟨_, (hsent.tail (.receive _ _ _ rfl rfl)).tail (.consume _ _ rfl), ?_, ?_⟩
    · decide
    · decide
  obtain ⟨l, hl, hassigned, hdelivered⟩ := hrun
  exact ⟨l, hassigned, hdelivered, (delivered_eq_take_arrived .debug {} {} l hl).1⟩

end Fifo

end GioNet
