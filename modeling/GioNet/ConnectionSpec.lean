import GioNet.WireId
import GioNet.Library.BitFold
import Mathlib.Data.List.Basic

/-!
# What each connection operation does

One specification lemma per member function: the result in terms of the state
before, with everything that is left alone. The later modules use these lemmas
and never unfold the functions.
-/

namespace GioNet

open Packet (invalidId maxPossibleId)

namespace Connection

variable {β : Type} {c c' : Connection β} {p : Packet β}

/-! ## Scheduling and popping -/

def scheduledPacket (c : Connection β) (p : Packet β) : Packet β :=
  if p.isReliable then { p with id := succId c.outgoing.sequenceNumber } else p

@[simp] theorem scheduledPacket_isReliable (c : Connection β) (p : Packet β) :
    (c.scheduledPacket p).isReliable = p.isReliable := by
  unfold scheduledPacket
  split <;> simp

@[simp] theorem scheduledPacket_payload (c : Connection β) (p : Packet β) :
    (c.scheduledPacket p).payload = p.payload := by
  unfold scheduledPacket
  split <;> rfl

theorem scheduledPacket_id (c : Connection β) (h : p.isReliable = true) :
    (c.scheduledPacket p).id = succId c.outgoing.sequenceNumber := by
  simp [scheduledPacket, h]

theorem schedule_of_reliable (h : p.isReliable = true) :
    c.schedule p = { c with outgoing := {
      reliablePackets := c.outgoing.reliablePackets.insert (succId c.outgoing.sequenceNumber)
        (c.scheduledPacket p)
      readyPackets := c.outgoing.readyPackets ++ [c.scheduledPacket p]
      sequenceNumber := succId c.outgoing.sequenceNumber } } := by
  simp [schedule, scheduledPacket, h, getIndexForNextPacket_eq, PacketStream.push]

theorem schedule_of_unreliable (h : p.isReliable = false) :
    c.schedule p = { c with outgoing := { c.outgoing with
      readyPackets := c.outgoing.readyPackets ++ [p] } } := by
  simp [schedule, h, PacketStream.push]

@[simp] theorem schedule_readyPackets (c : Connection β) (p : Packet β) :
    (c.schedule p).outgoing.readyPackets =
      c.outgoing.readyPackets ++ [c.scheduledPacket p] := by
  cases h : p.isReliable
  · simp [schedule_of_unreliable h, scheduledPacket, h]
  · simp [schedule_of_reliable h]

@[simp] theorem schedule_incoming (c : Connection β) (p : Packet β) :
    (c.schedule p).incoming = c.incoming := by
  cases h : p.isReliable
  · simp [schedule_of_unreliable h]
  · simp [schedule_of_reliable h]

@[simp] theorem schedule_currentAckId (c : Connection β) (p : Packet β) :
    (c.schedule p).currentAckId = c.currentAckId := by
  cases h : p.isReliable
  · simp [schedule_of_unreliable h]
  · simp [schedule_of_reliable h]

@[simp] theorem schedule_address (c : Connection β) (p : Packet β) :
    (c.schedule p).address = c.address := by
  cases h : p.isReliable
  · simp [schedule_of_unreliable h]
  · simp [schedule_of_reliable h]

theorem popReadyIncomingPacket_eq_some_iff :
    c.popReadyIncomingPacket = some (p, c') ↔
      ∃ rest, c.incoming.readyPackets = p :: rest ∧
        c' = { c with incoming := { c.incoming with readyPackets := rest } } := by
  unfold popReadyIncomingPacket PacketStream.popNextReadyPacket
  cases h : c.incoming.readyPackets with
  | nil => simp
  | cons q rest =>
      constructor
      · intro heq
        simp only [Option.some.injEq, Prod.mk.injEq] at heq
        exact ⟨rest, by rw [heq.1], heq.2.symm⟩
      · rintro ⟨rest', heq, rfl⟩
        obtain ⟨rfl, rfl⟩ := List.cons.inj heq
        rfl

theorem popReadyIncomingPacket_eq_none_iff :
    c.popReadyIncomingPacket = none ↔ c.incoming.readyPackets = [] := by
  unfold popReadyIncomingPacket PacketStream.popNextReadyPacket
  cases c.incoming.readyPackets <;> simp

/-! ## The ack header -/

/-- The bitset that `AddAckHeader` computes from the stored packets and the ack id. -/
def ackBitsOf (m : PartialMap IdType (Packet β)) (ackId : IdType) : AckBitsetType :=
  BitFold.collect (fun i ↦ m.contains (ackId - (UInt16.ofNat i + 1))) sizeofAckBitset

abbrev ackBits (c : Connection β) : AckBitsetType :=
  ackBitsOf c.incoming.reliablePackets c.currentAckId

theorem addAckHeader_eq (c : Connection β) (p : Packet β) :
    c.addAckHeader p = { p with ackId := c.currentAckId, ackBitset := c.ackBits } := by
  have hfold : ∀ (is : List ℕ) (bits : AckBitsetType),
      is.foldl (fun (packet : Packet β) i ↦
          if c.hasReceivedPacket (packet.ackId - (UInt16.ofNat i + 1)) then
            { packet with ackBitset := packet.ackBitset ||| (1 <<< UInt32.ofNat i) }
          else packet) { p with ackId := c.currentAckId, ackBitset := bits } =
        { p with ackId := c.currentAckId, ackBitset := is.foldl (fun word i ↦
          if c.hasReceivedPacket (c.currentAckId - (UInt16.ofNat i + 1)) then
            word ||| (1 <<< UInt32.ofNat i) else word) bits } := by
    intro is
    induction is with
    | nil => intro bits; rfl
    | cons i is ih =>
        intro bits
        simp only [List.foldl_cons]
        split <;> exact ih _
  exact hfold (List.range sizeofAckBitset) 0

theorem testBit_ackBitsOf (m : PartialMap IdType (Packet β)) (ackId : IdType) (i : ℕ) :
    (ackBitsOf m ackId).toNat.testBit i = (decide (i < sizeofAckBitset) &&
      m.contains (ackId - (UInt16.ofNat i + 1))) :=
  BitFold.testBit_collect _ (by decide) i

theorem popReadyOutgoingPacket_eq_some_iff :
    c.popReadyOutgoingPacket = some (p, c') ↔
      ∃ q rest, c.outgoing.readyPackets = q :: rest ∧
        c' = { c with outgoing := { c.outgoing with readyPackets := rest } } ∧
        p = { q with ackId := c.currentAckId, ackBitset := c.ackBits } := by
  unfold popReadyOutgoingPacket PacketStream.popNextReadyPacket
  cases h : c.outgoing.readyPackets with
  | nil => simp
  | cons q rest =>
      have hheader : ∀ c₁ : Connection β, c₁.incoming = c.incoming →
          c₁.currentAckId = c.currentAckId →
          c₁.addAckHeader q = { q with ackId := c.currentAckId, ackBitset := c.ackBits } := by
        intro c₁ hin hack
        rw [addAckHeader_eq]
        simp only [ackBits, hin, hack]
      constructor
      · intro heq
        simp only [Option.some.injEq, Prod.mk.injEq] at heq
        exact ⟨q, rest, rfl, heq.2.symm, heq.1.symm.trans (hheader _ rfl rfl)⟩
      · rintro ⟨q', rest', heq, rfl, rfl⟩
        obtain ⟨rfl, rfl⟩ := List.cons.inj heq
        simp only [Option.some.injEq, Prod.mk.injEq, and_true]
        exact hheader _ rfl rfl

end Connection

/-! ## Acks read from a header -/

namespace Packet

variable {β : Type}

/-- The id that position `i` of a packet's ack bitset is about. -/
def ackWindowId (p : Packet β) (i : ℕ) : IdType := p.ackId - (UInt16.ofNat i + 1)

/-- The bit at position `i`, as `ProcessAcks` tests it. -/
def ackBit (p : Packet β) (i : ℕ) : Bool := (p.ackBitset &&& (1 <<< UInt32.ofNat i)) ≠ 0

/-- The ids that `ProcessAcks` takes as acked by the packet. -/
def Acks (p : Packet β) (id : IdType) : Prop :=
  id = p.ackId ∨ ∃ i < sizeofAckBitset, id = p.ackWindowId i ∧ p.ackBit i = true

theorem ackBit_eq_testBit (p : Packet β) {i : ℕ} (hi : i < 32) :
    p.ackBit i = p.ackBitset.toNat.testBit i := by
  rw [Bool.eq_iff_iff, ← BitFold.and_shift_ne_zero_iff _ hi]
  simp [ackBit]

/-- A header with the fields that `AddAckHeader` writes tells which of the ids of
its window are in the map. -/
theorem ackBit_of_ackBitsOf {q : Packet β} {m : PartialMap IdType (Packet β)}
    (hbits : q.ackBitset = Connection.ackBitsOf m q.ackId) {i : ℕ} (hi : i < sizeofAckBitset) :
    q.ackBit i = m.contains (q.ackWindowId i) := by
  rw [ackBit_eq_testBit _ (hi.trans (by decide)), hbits, Connection.testBit_ackBitsOf,
    decide_eq_true hi, Bool.true_and]
  rfl

end Packet

namespace Connection

variable {β : Type} {c c' : Connection β} {p : Packet β}

def ackLoop (c : Connection β) (p : Packet β) (count : ℕ) : IdType × Connection β :=
  (List.range count).foldl
    (fun (id, c) i ↦
      let id := id - 1
      let isPacketAcked : Bool := (p.ackBitset &&& (1 <<< UInt32.ofNat i)) ≠ 0
      if isPacketAcked then (id, c.packetAcked id) else (id, c.reschedulePacket id))
    (p.ackId, c.packetAcked p.ackId)

theorem reschedulePacket_eq (c : Connection β) (id : IdType) :
    c.reschedulePacket id = { c with outgoing := { c.outgoing with
      readyPackets := c.outgoing.readyPackets ++
        (c.outgoing.reliablePackets.find id).toList } } := by
  unfold reschedulePacket
  cases h : c.outgoing.reliablePackets.find id <;> simp [PacketStream.push]

theorem processAcks_eq (c : Connection β) (p : Packet β) :
    c.processAcks p = (c.ackLoop p sizeofAckBitset).2 := rfl

theorem ackLoop_id (c : Connection β) (p : Packet β) (count : ℕ) :
    (c.ackLoop p count).1 = p.ackId - UInt16.ofNat count := by
  induction count with
  | zero => simp [ackLoop]
  | succ count ih =>
      have hsucc : p.ackId - UInt16.ofNat (count + 1) = p.ackId - UInt16.ofNat count - 1 := by
        rw [UInt16.ofNat_add]
        grind
      rw [hsucc, ← ih]
      simp only [ackLoop, List.range_succ, List.foldl_append, List.foldl_cons, List.foldl_nil]
      split <;> rfl

theorem ackLoop_succ (c : Connection β) (p : Packet β) (count : ℕ) :
    (c.ackLoop p (count + 1)).2 =
      if p.ackBit count then (c.ackLoop p count).2.packetAcked (p.ackWindowId count)
      else (c.ackLoop p count).2.reschedulePacket (p.ackWindowId count) := by
  have hid : p.ackWindowId count = (c.ackLoop p count).1 - 1 := by
    rw [ackLoop_id, Packet.ackWindowId]
    grind
  rw [hid]
  simp only [ackLoop, List.range_succ, List.foldl_append, List.foldl_cons, List.foldl_nil,
    Packet.ackBit, apply_ite Prod.snd]
  rfl

theorem ackLoop_frame (c : Connection β) (p : Packet β) (count : ℕ) :
    (c.ackLoop p count).2.incoming = c.incoming ∧
      (c.ackLoop p count).2.currentAckId = c.currentAckId ∧
        (c.ackLoop p count).2.address = c.address ∧
          (c.ackLoop p count).2.outgoing.sequenceNumber = c.outgoing.sequenceNumber := by
  induction count with
  | zero => exact ⟨rfl, rfl, rfl, rfl⟩
  | succ count ih =>
      rw [ackLoop_succ]
      split
      · simpa [packetAcked] using ih
      · simpa [reschedulePacket_eq] using ih

theorem exists_lt_succ_iff {P : ℕ → Prop} {count : ℕ} :
    (∃ i < count + 1, P i) ↔ (∃ i < count, P i) ∨ P count := by
  constructor
  · rintro ⟨i, hi, h⟩
    rcases Nat.lt_succ_iff_lt_or_eq.mp hi with hlt | rfl
    · exact Or.inl ⟨i, hlt, h⟩
    · exact Or.inr h
  · rintro (⟨i, hi, h⟩ | h)
    · exact ⟨i, Nat.lt_succ_of_lt hi, h⟩
    · exact ⟨count, Nat.lt_succ_self count, h⟩

theorem ackLoop_find (c : Connection β) (p : Packet β) (count : ℕ) (j : IdType) :
    (c.ackLoop p count).2.outgoing.reliablePackets.find j =
      if j = p.ackId ∨ ∃ i < count, j = p.ackWindowId i ∧ p.ackBit i = true then none
      else c.outgoing.reliablePackets.find j := by
  induction count with
  | zero => simp [ackLoop, packetAcked, PartialMap.find_erase]
  | succ count ih =>
      rw [ackLoop_succ]
      simp only [exists_lt_succ_iff, ← or_assoc]
      cases hbit : p.ackBit count with
      | true =>
          simp only [if_true, packetAcked, PartialMap.find_erase, ih, and_true]
          by_cases hj : j = p.ackWindowId count
          · rw [if_pos hj, if_pos (Or.inr hj)]
          · simp only [hj, if_false, or_false]
      | false =>
          simp only [Bool.false_eq_true, if_false, reschedulePacket_eq, ih, and_false, or_false]

theorem ackWindowId_injective (p : Packet β) {i j : ℕ} (hi : i < 65536) (hj : j < 65536)
    (h : p.ackWindowId i = p.ackWindowId j) : i = j := by
  have hofNat : UInt16.ofNat i = UInt16.ofNat j := by
    unfold Packet.ackWindowId at h
    grind
  have hnat := congrArg UInt16.toNat hofNat
  rwa [UInt16.toNat_ofNat_of_lt' hi, UInt16.toNat_ofNat_of_lt' hj] at hnat

theorem ackWindowId_ne_ackId (p : Packet β) {i : ℕ} (hi : i + 1 < 65536) :
    p.ackWindowId i ≠ p.ackId := by
  intro h
  have hzero : UInt16.ofNat i + 1 = 0 := by
    unfold Packet.ackWindowId at h
    grind
  have hofNat : UInt16.ofNat (i + 1) = UInt16.ofNat 0 := by
    rw [UInt16.ofNat_add]
    exact hzero
  have hnat := congrArg UInt16.toNat hofNat
  rw [UInt16.toNat_ofNat_of_lt' hi] at hnat
  simp at hnat

/-- The packets that the positions below `count` of a header make
`ProcessAcks` queue again. -/
def rescheduled (c : Connection β) (p : Packet β) (count : ℕ) : List (Packet β) :=
  (List.range count).flatMap fun i ↦
    if p.ackBit i then [] else (c.outgoing.reliablePackets.find (p.ackWindowId i)).toList

theorem mem_rescheduled {q : Packet β} {count : ℕ} :
    q ∈ c.rescheduled p count ↔ ∃ i < count, p.ackBit i = false ∧
      c.outgoing.reliablePackets.find (p.ackWindowId i) = some q := by
  simp only [rescheduled, List.mem_flatMap, List.mem_range]
  refine exists_congr fun i ↦ and_congr_right fun _ ↦ ?_
  cases p.ackBit i <;> simp

theorem ackLoop_readyPackets (c : Connection β) (p : Packet β) {count : ℕ}
    (hcount : count < 65536) :
    (c.ackLoop p count).2.outgoing.readyPackets =
      c.outgoing.readyPackets ++ c.rescheduled p count := by
  induction count with
  | zero => simp [ackLoop, packetAcked, rescheduled]
  | succ count ih =>
      have hprev := ih (by omega)
      have hlast : c.rescheduled p (count + 1) = c.rescheduled p count ++
          if p.ackBit count then []
          else (c.outgoing.reliablePackets.find (p.ackWindowId count)).toList := by
        simp [rescheduled, List.range_succ]
      rw [ackLoop_succ, hlast]
      cases hbit : p.ackBit count with
      | true => simpa [packetAcked] using hprev
      | false =>
          -- no earlier iteration has touched this id
          have hfind : (c.ackLoop p count).2.outgoing.reliablePackets.find
              (p.ackWindowId count) = c.outgoing.reliablePackets.find (p.ackWindowId count) := by
            rw [ackLoop_find, if_neg]
            rintro (h | ⟨i, hi, h, -⟩)
            · exact ackWindowId_ne_ackId p hcount h
            · have hij := ackWindowId_injective p (by omega) (by omega) h
              omega
          simp [reschedulePacket_eq, hfind, hprev]

/-! ## `ProcessAcks` -/

theorem processAcks_find (c : Connection β) (p : Packet β) (j : IdType) [Decidable (p.Acks j)] :
    (c.processAcks p).outgoing.reliablePackets.find j =
      if p.Acks j then none else c.outgoing.reliablePackets.find j := by
  rw [processAcks_eq, ackLoop_find]
  congr

theorem processAcks_readyPackets (c : Connection β) (p : Packet β) :
    (c.processAcks p).outgoing.readyPackets =
      c.outgoing.readyPackets ++ c.rescheduled p sizeofAckBitset :=
  ackLoop_readyPackets c p (by decide)

@[simp] theorem processAcks_incoming (c : Connection β) (p : Packet β) :
    (c.processAcks p).incoming = c.incoming :=
  (ackLoop_frame c p _).1

@[simp] theorem processAcks_currentAckId (c : Connection β) (p : Packet β) :
    (c.processAcks p).currentAckId = c.currentAckId :=
  (ackLoop_frame c p _).2.1

@[simp] theorem processAcks_address (c : Connection β) (p : Packet β) :
    (c.processAcks p).address = c.address :=
  (ackLoop_frame c p _).2.2.1

@[simp] theorem processAcks_sequenceNumber (c : Connection β) (p : Packet β) :
    (c.processAcks p).outgoing.sequenceNumber = c.outgoing.sequenceNumber :=
  (ackLoop_frame c p _).2.2.2

theorem processAcks_find_some {j : IdType} {q : Packet β}
    (h : (c.processAcks p).outgoing.reliablePackets.find j = some q) :
    ¬ p.Acks j ∧ c.outgoing.reliablePackets.find j = some q := by
  classical
  rw [processAcks_find] at h
  split at h
  · simp at h
  · exact ⟨by assumption, h⟩

end Connection

end GioNet
