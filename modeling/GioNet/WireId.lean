import GioNet.Connection
import GioNet.Library.CyclicNumber

/-!
# Wire ids as labels of stream positions

The `n`-th reliable message of a stream travels under the id
`((n - 1) mod 65535) + 1`. Sender and receiver compute the successor of an id
in two different ways; both are the successor on the cycle of labels.
-/

namespace GioNet

open Packet (invalidId maxPossibleId)

def idPeriod : ℕ := 65535

def wireId (n : ℕ) : IdType := UInt16.ofNat (CyclicNumber.label idPeriod n)

/-- The id after `id`, with `invalidId` skipped. -/
def succId (id : IdType) : IdType := if id = maxPossibleId then 1 else id + 1

theorem maxPossibleId_toNat : maxPossibleId.toNat = idPeriod := by decide

theorem eq_maxPossibleId_iff {id : IdType} : id = maxPossibleId ↔ id.toNat = idPeriod := by
  rw [← maxPossibleId_toNat, UInt16.toNat_inj]

theorem eq_invalidId_iff {id : IdType} : id = invalidId ↔ id.toNat = 0 := by
  rw [← UInt16.toNat_inj]
  rfl

theorem idType_toNat_le (id : IdType) : id.toNat ≤ idPeriod := by
  have h := id.toNat_lt
  unfold idPeriod
  omega

theorem add_one_toNat {id : IdType} (h : id ≠ maxPossibleId) :
    (id + 1).toNat = id.toNat + 1 := by
  have hle := idType_toNat_le id
  have hne : id.toNat ≠ idPeriod := fun he ↦ h (eq_maxPossibleId_iff.mpr he)
  rw [UInt16.toNat_add, Nat.mod_eq_of_lt]
  · rfl
  · simp only [idPeriod] at hle hne
    simp
    omega

theorem succId_toNat (id : IdType) :
    (succId id).toNat = CyclicNumber.next idPeriod id.toNat := by
  unfold succId CyclicNumber.next
  by_cases h : id = maxPossibleId
  · rw [if_pos h, if_pos (eq_maxPossibleId_iff.mp h)]
    rfl
  · rw [if_neg h, if_neg (fun he ↦ h (eq_maxPossibleId_iff.mpr he)), add_one_toNat h]

theorem succId_ne_invalidId (id : IdType) : succId id ≠ invalidId := by
  intro h
  have hzero := eq_invalidId_iff.mp h
  rw [succId_toNat] at hzero
  unfold CyclicNumber.next at hzero
  split at hzero <;> omega

@[simp] theorem wireId_zero : wireId 0 = invalidId := rfl

theorem wireId_toNat (n : ℕ) : (wireId n).toNat = CyclicNumber.label idPeriod n := by
  have hle := CyclicNumber.label_le (N := idPeriod) (n := n) (by decide)
  refine UInt16.toNat_ofNat_of_lt' ?_
  simp only [idPeriod] at hle ⊢
  exact Nat.lt_of_le_of_lt hle (by decide)

theorem wireId_toNat_of_le {n : ℕ} (hn : n ≤ idPeriod) : (wireId n).toNat = n := by
  rw [wireId_toNat, CyclicNumber.label_of_le hn]

theorem wireId_toNat_self (id : IdType) : wireId id.toNat = id := by
  rw [← UInt16.toNat_inj, wireId_toNat_of_le (idType_toNat_le id)]

theorem wireId_succ (n : ℕ) : wireId (n + 1) = succId (wireId n) := by
  rw [← UInt16.toNat_inj, wireId_toNat, succId_toNat, wireId_toNat,
    CyclicNumber.label_succ (by decide)]

theorem succId_iterate_wireId (k n : ℕ) : succId^[k] (wireId n) = wireId (n + k) := by
  induction k with
  | zero => rfl
  | succ k ih => rw [Function.iterate_succ_apply', ih, ← wireId_succ, Nat.add_assoc]

theorem wireId_ne_invalidId {n : ℕ} (hn : 0 < n) : wireId n ≠ invalidId := by
  intro h
  have hzero := eq_invalidId_iff.mp h
  rw [wireId_toNat, CyclicNumber.label_eq_zero_iff] at hzero
  omega

theorem wireId_add_period {n : ℕ} (hn : 0 < n) : wireId (n + idPeriod) = wireId n := by
  rw [← UInt16.toNat_inj, wireId_toNat, wireId_toNat, CyclicNumber.label_add_period hn]

theorem eq_of_wireId_eq {m n : ℕ} (hm : 0 < m) (hn : 0 < n) (hmn : m < n + idPeriod)
    (hnm : n < m + idPeriod) (h : wireId m = wireId n) : m = n := by
  rw [← UInt16.toNat_inj, wireId_toNat, wireId_toNat] at h
  exact CyclicNumber.eq_of_label_eq hm hn hmn hnm h

/-! ## The two successors of the source -/

namespace Connection

variable {β : Type}

theorem getIndexForNextPacket_eq (c : Connection β) :
    c.getIndexForNextPacket = (succId c.outgoing.sequenceNumber,
      { c with outgoing := { c.outgoing with
          sequenceNumber := succId c.outgoing.sequenceNumber } }) := by
  unfold getIndexForNextPacket succId
  by_cases h : c.outgoing.sequenceNumber = maxPossibleId
  · simp only [h]
    rfl
  · simp only [if_neg h]

theorem delivery_successor (id : IdType) :
    (if id + 1 = invalidId then id + 1 + 1 else id + 1) = succId id := by
  unfold succId
  by_cases h : id = maxPossibleId
  · subst h
    decide
  · have hne : id + 1 ≠ invalidId := by
      intro he
      have hzero := eq_invalidId_iff.mp he
      rw [add_one_toNat h] at hzero
      omega
    rw [if_neg hne, if_neg h]

/-! ## The half-range comparison -/

theorem halfId_toNat : (halfId).toNat = 32767 := by decide

def latestId (current new : IdType) : IdType :=
  if current = invalidId then new
  else if CyclicNumber.NotOlder 32767 current.toNat new.toNat then new else current

theorem updateAckId_eq (c : Connection β) (newId : IdType) :
    c.updateAckId newId = { c with currentAckId := latestId c.currentAckId newId } := by
  unfold updateAckId latestId CyclicNumber.NotOlder
  by_cases h0 : c.currentAckId = invalidId
  · simp [h0]
  · simp only [if_neg h0, gt_iff_lt, UInt16.lt_iff_toNat_lt, halfId_toNat]
    by_cases hlt : newId.toNat < c.currentAckId.toNat
    · have hsub : (c.currentAckId - newId).toNat = c.currentAckId.toNat - newId.toNat :=
        UInt16.toNat_sub_of_le _ _ (UInt16.le_iff_toNat_le.mpr hlt.le)
      by_cases hfar : 32767 < c.currentAckId.toNat - newId.toNat <;>
        simp [hlt, hsub, hfar]
    · have hsub : (newId - c.currentAckId).toNat = newId.toNat - c.currentAckId.toNat :=
        UInt16.toNat_sub_of_le _ _ (UInt16.le_iff_toNat_le.mpr (by omega))
      by_cases hnear : newId.toNat - c.currentAckId.toNat < 32767 <;>
        simp [hlt, hsub, hnear]

theorem latestId_ne_invalidId {current new : IdType} (h : new ≠ invalidId) :
    latestId current new ≠ invalidId := by
  unfold latestId
  split
  · exact h
  · split
    · exact h
    · assumption

theorem latestId_eq_or (current new : IdType) :
    latestId current new = new ∨ latestId current new = current ∧ current ≠ invalidId := by
  unfold latestId
  split
  · exact Or.inl rfl
  · split
    · exact Or.inl rfl
    · exact Or.inr ⟨rfl, by assumption⟩

/-- On stream positions less than half the id range apart, the later one wins. -/
theorem latestId_wireId {m n : ℕ} (hn : 0 < n) (hmn : m < n + 32767) (hnm : n < m + 32767) :
    latestId (wireId m) (wireId n) = wireId (max m n) := by
  unfold latestId
  rcases Nat.eq_zero_or_pos m with rfl | hm
  · simp
  · rw [if_neg (wireId_ne_invalidId hm), wireId_toNat, wireId_toNat]
    have hiff := CyclicNumber.notOlder_label_iff (N := idPeriod) rfl hm hn hmn hnm
    by_cases hle : m ≤ n
    · rw [if_pos (hiff.mpr hle), Nat.max_eq_right hle]
    · rw [if_neg (fun h ↦ hle (hiff.mp h)), Nat.max_eq_left (by omega)]

/-- In the lower half of the id range the larger id wins. -/
theorem toNat_latestId {current new : IdType} (hcurrent : current.toNat ≤ 32767)
    (hnew : 0 < new.toNat) (hnew' : new.toNat ≤ 32767) :
    (latestId current new).toNat = max current.toNat new.toNat := by
  have hc := wireId_toNat_self current
  have hn := wireId_toNat_self new
  rcases Nat.eq_zero_or_pos current.toNat with hzero | hpos
  · have h0 : current = invalidId := eq_invalidId_iff.mpr hzero
    simp [latestId, h0, invalidId]
  · have hlatest : latestId (wireId current.toNat) (wireId new.toNat) =
        wireId (max current.toNat new.toNat) :=
      latestId_wireId hnew (by omega) (by omega)
    rw [hc, hn] at hlatest
    rw [hlatest, wireId_toNat_of_le]
    rw [idPeriod]
    omega

end Connection

end GioNet
