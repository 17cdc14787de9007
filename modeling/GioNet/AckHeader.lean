import GioNet.Delivery

/-!
# How much of the ack bitset is used

`AddAckHeader` takes the number of bits from `sizeof`, which counts bytes. So
only the four lowest of the 32 bits are ever computed.
-/

namespace GioNet

namespace Connection

variable {β : Type}

/-- The ack header is as documented: the id is the current ack id, and each of
the 32 bits tells whether the id it stands for has been received. -/
def AckHeaderComplete (c : Connection β) (p : Packet β) : Prop :=
  (c.addAckHeader p).ackId = c.getCurrentAckId ∧
    ∀ i < 32, (c.addAckHeader p).ackBitset.toNat.testBit i =
      c.hasReceivedPacket ((c.addAckHeader p).ackId - 1 - UInt16.ofNat i)

/-- The header is complete exactly when none of the ids from the fifth on
behind the ack id has been received. -/
theorem ackHeaderComplete_iff (c : Connection β) (p : Packet β) :
    c.AckHeaderComplete p ↔ ∀ i, 4 ≤ i → i < 32 →
      c.hasReceivedPacket (c.getCurrentAckId - 1 - UInt16.ofNat i) = false := by
  have hid : ∀ i : ℕ, c.currentAckId - (UInt16.ofNat i + 1) =
      c.currentAckId - 1 - UInt16.ofNat i := by
    intro i
    grind
  rw [AckHeaderComplete, addAckHeader_eq]
  simp only [testBit_ackBitsOf, hid, getCurrentAckId, true_and]
  constructor
  · intro h i hlow hhigh
    have hbit := h i hhigh
    rw [decide_eq_false (show ¬ i < sizeofAckBitset from hlow.not_gt), Bool.false_and] at hbit
    exact hbit.symm
  · intro h i hhigh
    rcases Nat.lt_or_ge i 4 with hlt | hge
    · rw [decide_eq_true (show i < sizeofAckBitset from hlt), Bool.true_and]
      rfl
    · rw [decide_eq_false (show ¬ i < sizeofAckBitset from hge.not_gt), Bool.false_and,
        h i hge hhigh]

/-- After the ids `1, …, 6` have been received, the bit for the id `1` is off. -/
theorem ackHeader_incomplete_after_six :
    ∃ c : Connection Unit,
      (fresh {}).receiveAll .release ([1, 2, 3, 4, 5, 6].map Packet.emptyReliable) = .ok c ∧
        c.hasReceivedPacket 1 = true ∧ ¬ c.AckHeaderComplete (Packet.emptyReliable 0) := by
  refine ⟨_, rfl, rfl, ?_⟩
  rw [ackHeaderComplete_iff]
  intro h
  exact absurd (h 4 le_rfl (by decide)) (by decide)

end Connection

end GioNet
