import GioNet.Delivery
import GioNet.Library.Run

/-!
# Streams longer than the id range

A receiver gets copies of the messages of an unbounded stream, each within 32
positions of what it has delivered. Its map is never cleared, so from the second
id cycle on every id has an entry, and a gap in the arrivals is filled with the
message of the cycle before. Without such a gap the stream is delivered in order.
-/

namespace GioNet

open Packet (invalidId maxPossibleId)

structure LongStream (β : Type) where
  connection : Connection β
  /-- The stream numbers that have arrived. -/
  arrived : List ℕ := []

namespace LongStream

variable {β : Type}

structure IsCopy (message : ℕ → β) (n : ℕ) (p : Packet β) : Prop where
  pos : 0 < n
  reliable : p.isReliable = true
  id : p.id = wireId n
  payload : p.payload = message n

def delivered (s : LongStream β) : List (Packet β) :=
  s.connection.incoming.readyPackets.filter Packet.isReliable

/-- One arrival: of a copy of message `n`, within 32 of the delivered count. -/
structure Step (build : Build) (message : ℕ → β) (s : LongStream β) (a : ℕ × Packet β)
    (s' : LongStream β) : Prop where
  copy : IsCopy message a.1 a.2
  near : a.1 ≤ s.delivered.length + 32 ∧ s.delivered.length ≤ a.1 + 32
  received : s.connection.received build a.2 = .ok s'.connection
  arrived : s'.arrived = a.1 :: s.arrived

/-- The first message that is still missing after the arrival of `n` is in the
first id cycle, or nothing after it has arrived. -/
def NoLateGap (s : LongStream β) (n : ℕ) : Prop :=
  ∀ m, idPeriod < m → (∀ j, 0 < j → j < m → j ∈ n :: s.arrived) → m ∉ n :: s.arrived →
    ∀ j ∈ n :: s.arrived, j < m

def InOrder (message : ℕ → β) (s : LongStream β) : Prop :=
  s.delivered.map Packet.payload =
    (List.range s.delivered.length).map fun i ↦ message (i + 1)

def fresh (address : NetAddress) : LongStream β := { connection := .fresh address }

/-- The invariant: `d` messages are delivered, `m` is the largest number that has
arrived, and the map holds the last arrival under every id. -/
structure Tracks (message : ℕ → β) (s : LongStream β) (d m : ℕ) : Prop where
  allReliable : ∀ p ∈ s.connection.incoming.readyPackets, p.isReliable = true
  count : s.connection.incoming.readyPackets.length = d
  inOrder : s.connection.incoming.readyPackets.map Packet.payload =
    (List.range d).map fun i ↦ message (i + 1)
  sequenceNumber : s.connection.incoming.sequenceNumber = wireId d
  ackId : s.connection.currentAckId = wireId m
  positive : ∀ j ∈ s.arrived, 0 < j
  below : ∀ j, 0 < j → j ≤ d → j ∈ s.arrived
  gap : d + 1 ∉ s.arrived
  largest : ∀ j ∈ s.arrived, j ≤ m
  attained : m = 0 ∨ m ∈ s.arrived
  near : m ≤ d + 32
  stored : ∀ j ∈ s.arrived, j + idPeriod ∉ s.arrived →
    ∃ p, s.connection.incoming.reliablePackets.find (wireId j) = some p ∧
      p.payload = message j
  entries : ∀ id p, s.connection.incoming.reliablePackets.find id = some p →
    p.isReliable = true ∧ ∃ j ∈ s.arrived, wireId j = id

theorem tracks_fresh (message : ℕ → β) (address : NetAddress) :
    (fresh address).Tracks message 0 0 := by
  refine ⟨?_, rfl, rfl, rfl, rfl, ?_, ?_, ?_, ?_, Or.inl rfl, Nat.zero_le _, ?_, ?_⟩
  · intro p hp
    simp [fresh, Connection.fresh] at hp
  · intro j hj
    simp [fresh] at hj
  · intro j hj hle
    omega
  · simp [fresh]
  · intro j hj
    simp [fresh] at hj
  · intro j hj
    simp [fresh] at hj
  · intro id p hp
    simp [fresh, Connection.fresh] at hp

namespace Tracks

variable {message : ℕ → β} {s : LongStream β} {d m n : ℕ} {p : Packet β}

theorem delivered_eq (h : s.Tracks message d m) :
    s.delivered = s.connection.incoming.readyPackets :=
  List.filter_eq_self.mpr h.allReliable

theorem le_largest (h : s.Tracks message d m) : d ≤ m := by
  rcases Nat.eq_zero_or_pos d with rfl | hd
  · exact Nat.zero_le m
  · exact h.largest d (h.below d hd le_rfl)

theorem ackId_after (h : s.Tracks message d m) (hcopy : IsCopy message n p)
    (hnear : n ≤ d + 32 ∧ d ≤ n + 32) :
    Connection.latestId s.connection.currentAckId p.id = wireId (max m n) := by
  have hle := h.le_largest
  have hm := h.near
  rw [h.ackId, hcopy.id]
  exact Connection.latestId_wireId hcopy.pos (by omega) (by omega)

/-- The map after the arrival of `n` holds every message whose id has not been
used again. -/
theorem stored_after (h : s.Tracks message d m) (hcopy : IsCopy message n p)
    (hnear : n ≤ d + 32 ∧ d ≤ n + 32) {j : ℕ} (hj : j ∈ n :: s.arrived)
    (hlast : j + idPeriod ∉ n :: s.arrived) :
    ∃ q, (s.connection.incoming.reliablePackets.insert p.id p).find (wireId j) = some q ∧
      q.payload = message j := by
  obtain ⟨hnext, hlast⟩ := not_or.mp (fun h ↦ hlast (List.mem_cons.mpr h))
  by_cases hjn : j = n
  · subst hjn
    exact ⟨p, by rw [hcopy.id, PartialMap.find_insert_self], hcopy.payload⟩
  · have hold : j ∈ s.arrived := (List.mem_cons.mp hj).resolve_left hjn
    have hjpos := h.positive j hold
    have hjm := h.largest j hold
    have hm := h.near
    have hd : d < j + idPeriod := by
      by_contra hle
      exact hlast (h.below _ (by omega) (by omega))
    have hne : wireId j ≠ p.id := by
      rw [hcopy.id]
      intro heq
      -- `n` is less than two periods ahead of `j`, and it is not one period ahead
      rcases Nat.lt_or_ge n (j + idPeriod) with hlt | hge
      · exact hjn (eq_of_wireId_eq hjpos hcopy.pos (by rw [idPeriod]; omega) hlt heq)
      · rw [← wireId_add_period hjpos] at heq
        refine hnext (eq_of_wireId_eq (by omega) hcopy.pos (by omega) ?_ heq)
        rw [idPeriod] at hd ⊢
        omega
    rw [PartialMap.find_insert_ne hne]
    exact h.stored j hold hlast

theorem entries_after (h : s.Tracks message d m) (hcopy : IsCopy message n p) {id : IdType}
    {q : Packet β}
    (hq : (s.connection.incoming.reliablePackets.insert p.id p).find id = some q) :
    q.isReliable = true ∧ ∃ j ∈ n :: s.arrived, wireId j = id := by
  rw [PartialMap.find_insert] at hq
  split at hq
  · rename_i hid
    obtain rfl := Option.some.inj hq
    exact ⟨hcopy.reliable, n, List.mem_cons_self, by rw [hid, hcopy.id]⟩
  · obtain ⟨hrel, j, hj, hid⟩ := h.entries id q hq
    exact ⟨hrel, j, List.mem_cons_of_mem n hj, hid⟩

theorem positive_after (h : s.Tracks message d m) (hcopy : IsCopy message n p) {j : ℕ}
    (hj : j ∈ n :: s.arrived) : 0 < j := by
  rcases List.mem_cons.mp hj with rfl | hj
  · exact hcopy.pos
  · exact h.positive j hj

theorem largest_after (h : s.Tracks message d m) {j : ℕ} (hj : j ∈ n :: s.arrived) :
    j ≤ max m n := by
  rcases List.mem_cons.mp hj with rfl | hj
  · exact Nat.le_max_right m j
  · exact (h.largest j hj).trans (Nat.le_max_left m n)

theorem not_mem_of_far (h : s.Tracks message d m) {j : ℕ} (hj : max m n < j) :
    j ∉ n :: s.arrived := by
  intro hmem
  have hle := h.largest_after hmem
  omega

theorem attained_after (h : s.Tracks message d m) : max m n ∈ n :: s.arrived := by
  rcases Nat.le_total m n with hle | hle
  · rw [Nat.max_eq_right hle]
    exact List.mem_cons_self
  · rw [Nat.max_eq_left hle]
    rcases h.attained with rfl | hm
    · rw [Nat.le_zero.mp hle]
      exact List.mem_cons_self
    · exact List.mem_cons_of_mem n hm

/-- Without a late gap the number after a gapless prefix has arrived as soon as
the map has an entry under its id. -/
theorem mem_of_find (h : s.Tracks message d m) (hcopy : IsCopy message n p)
    (hnear : n ≤ d + 32 ∧ d ≤ n + 32) (hgap : s.NoLateGap n) {k : ℕ} {q : Packet β}
    (hdk : d ≤ k) (hk : k < max m n) (hbelow : ∀ j, 0 < j → j ≤ k → j ∈ n :: s.arrived)
    (hq : (s.connection.incoming.reliablePackets.insert p.id p).find (wireId (k + 1)) =
      some q) : k + 1 ∈ n :: s.arrived := by
  by_contra hmissing
  have hm := h.near
  rcases Nat.lt_or_ge idPeriod (k + 1) with hlate | hearly
  · have hall := hgap (k + 1) hlate (fun j hj hjk ↦ hbelow j hj (by omega)) hmissing
    have hmax := hall _ h.attained_after
    omega
  · obtain ⟨-, j, hj, hid⟩ := h.entries_after hcopy hq
    have hjle := h.largest_after hj
    have hjpos := h.positive_after hcopy hj
    have heq : j = k + 1 :=
      eq_of_wireId_eq hjpos (Nat.succ_pos k) (by rw [idPeriod]; omega) (by omega) hid
    exact hmissing (heq ▸ hj)

theorem delivers (h : s.Tracks message d m) (hcopy : IsCopy message n p)
    (hnear : n ≤ d + 32 ∧ d ≤ n + 32) (hgap : s.NoLateGap n) {ps : List (Packet β)}
    (hps : Delivers (s.connection.incoming.reliablePackets.insert p.id p) (wireId (max m n))
      (wireId d) ps) :
    d + ps.length ≤ max m n ∧ (∀ j, 0 < j → j ≤ d + ps.length → j ∈ n :: s.arrived) ∧
      ∀ i, (hi : i < ps.length) → ps[i].payload = message (d + i + 1) := by
  have hmd := h.near
  have hle : d + ps.length ≤ max m n := hps.le_latest (h.le_largest.trans (Nat.le_max_left m n))
  -- one more packet found is one more number of the prefix that has arrived
  have hprogress : ∀ i ≤ ps.length, ∀ j, 0 < j → j ≤ d + i → j ∈ n :: s.arrived := by
    intro i
    induction i with
    | zero => exact fun _ j hj hjle ↦ List.mem_cons_of_mem n (h.below j hj hjle)
    | succ i ih =>
        intro hi j hj hjle
        have hbelow := ih (by omega)
        have hmem : d + i + 1 ∈ n :: s.arrived :=
          h.mem_of_find hcopy hnear hgap (by omega) (by omega) hbelow (hps.found_wireId hi)
        rcases Nat.lt_or_eq_of_le hjle with hjlt | rfl
        · exact hbelow j hj (by omega)
        · exact hmem
  refine ⟨hle, hprogress _ le_rfl, ?_⟩
  intro i hi
  have hmem := hprogress (i + 1) hi (d + i + 1) (by omega) le_rfl
  obtain ⟨q, hq, hpayload⟩ := h.stored_after hcopy hnear hmem
    (h.not_mem_of_far (by rw [idPeriod]; omega))
  obtain rfl := Option.some.inj (hq.symm.trans (hps.found_wireId hi))
  exact hpayload

theorem near_delivered {build : Build} {s' : LongStream β} (h : s.Tracks message d m)
    (hstep : Step build message s (n, p) s') : n ≤ d + 32 ∧ d ≤ n + 32 := by
  have hnear := hstep.near
  rwa [h.delivered_eq, h.count] at hnear

/-- The packets that an arrival delivers. -/
theorem exists_delivers {build : Build} {s' : LongStream β} (h : s.Tracks message d m)
    (hstep : Step build message s (n, p) s') :
    ∃ ps, s'.connection = s.connection.afterReliable p ps ∧
      Delivers (s.connection.incoming.reliablePackets.insert p.id p) (wireId (max m n))
        (wireId d) ps := by
  have hcopy := hstep.copy
  have hvalid : p.id ≠ invalidId := by
    rw [hcopy.id]
    exact wireId_ne_invalidId hcopy.pos
  obtain ⟨ps, hps, hok⟩ :=
    Connection.received_of_reliable build s.connection hcopy.reliable hvalid
  rw [h.ackId_after hcopy (h.near_delivered hstep), h.sequenceNumber] at hps
  exact ⟨ps, Except.ok.inj (hstep.received.symm.trans hok), hps⟩

theorem allReliable_after (h : s.Tracks message d m) (hcopy : IsCopy message n p)
    {ps : List (Packet β)}
    (hps : Delivers (s.connection.incoming.reliablePackets.insert p.id p) (wireId (max m n))
      (wireId d) ps) :
    ∀ q ∈ s.connection.incoming.readyPackets ++ ps, q.isReliable = true := by
  intro q hq
  rcases List.mem_append.mp hq with hq | hq
  · exact h.allReliable q hq
  · exact hps.forall_mem (fun id q hq ↦ (h.entries_after hcopy hq).1) q hq

/-- The number after the delivered ones has not arrived. -/
theorem gap_after (h : s.Tracks message d m) (hcopy : IsCopy message n p)
    (hnear : n ≤ d + 32 ∧ d ≤ n + 32) {ps : List (Packet β)}
    (hps : Delivers (s.connection.incoming.reliablePackets.insert p.id p) (wireId (max m n))
      (wireId d) ps) : d + ps.length + 1 ∉ n :: s.arrived := by
  intro hmem
  have hmd := h.near
  have hmax := h.largest_after hmem
  have hhole := hps.hole_of_lt (by omega) (by rw [idPeriod]; omega)
  obtain ⟨q, hq, -⟩ := h.stored_after hcopy hnear hmem
    (h.not_mem_of_far (by rw [idPeriod]; omega))
  cases hq.symm.trans hhole

theorem inOrder_after (h : s.Tracks message d m) {ps : List (Packet β)}
    (hpayloads : ∀ i, (hi : i < ps.length) → ps[i].payload = message (d + i + 1)) :
    (s.connection.incoming.readyPackets ++ ps).map Packet.payload =
      (List.range (d + ps.length)).map fun i ↦ message (i + 1) := by
  have hmap : ps.map Packet.payload =
      (List.range ps.length).map fun i ↦ message (d + i + 1) := by
    apply List.ext_getElem
    · simp
    · intro i hi hi'
      have hips : i < ps.length := by simpa using hi
      simpa using hpayloads i hips
  rw [List.map_append, h.inOrder, hmap, List.range_add, List.map_append, List.map_map]
  rfl

theorem step {build : Build} {s' : LongStream β} {a : ℕ × Packet β}
    (h : s.Tracks message d m) (hstep : Step build message s a s') (hgap : s.NoLateGap a.1) :
    ∃ d' m', s'.Tracks message d' m' := by
  obtain ⟨n, p⟩ := a
  have hcopy := hstep.copy
  have hnear := h.near_delivered hstep
  have harrived := hstep.arrived
  dsimp only at hcopy harrived
  obtain ⟨ps, hconn, hps⟩ := h.exists_delivers hstep
  obtain ⟨hle, hbelow, hpayloads⟩ := h.delivers hcopy hnear hgap hps
  have hmd := h.near
  have hready : s'.connection.incoming.readyPackets =
      s.connection.incoming.readyPackets ++ ps := by
    rw [hconn]
    rfl
  refine ⟨d + ps.length, max m n, ?_⟩
  constructor
  case allReliable =>
    rw [hready]
    exact h.allReliable_after hcopy hps
  case count => rw [hready, List.length_append, h.count]
  case inOrder =>
    rw [hready]
    exact h.inOrder_after hpayloads
  case sequenceNumber =>
    rw [hconn, ← succId_iterate_wireId, ← h.sequenceNumber]
    rfl
  case ackId =>
    rw [hconn]
    exact h.ackId_after hcopy hnear
  case positive => exact fun j hj ↦ h.positive_after hcopy (harrived ▸ hj)
  case below => exact fun j hj hjle ↦ harrived ▸ hbelow j hj hjle
  case gap =>
    rw [harrived]
    exact h.gap_after hcopy hnear hps
  case largest => exact fun j hj ↦ h.largest_after (harrived ▸ hj)
  case attained => exact Or.inr (harrived ▸ h.attained_after)
  case near => omega
  case stored =>
    intro j hj hlast
    rw [hconn]
    exact h.stored_after hcopy hnear (harrived ▸ hj) (harrived ▸ hlast)
  case entries =>
    intro id q hq
    rw [hconn] at hq
    rw [harrived]
    exact h.entries_after hcopy hq

/-- With a late gap at `k` the message of the id cycle before is delivered in the
place of message `k`. -/
theorem stale_of_lateGap {build : Build} {s' : LongStream β} {a : ℕ × Packet β}
    (h : s.Tracks message d m) (hstep : Step build message s a s') {k : ℕ}
    (hlate : idPeriod < k) (hbelow : ∀ j, 0 < j → j < k → j ∈ a.1 :: s.arrived)
    (hmissing : k ∉ a.1 :: s.arrived) (hlater : ∃ j ∈ a.1 :: s.arrived, k < j) :
    ∃ p, s'.delivered[k - 1]? = some p ∧ p.payload = message (k - idPeriod) := by
  obtain ⟨n, p⟩ := a
  have hcopy := hstep.copy
  have hnear := h.near_delivered hstep
  dsimp only at hcopy hbelow hmissing hlater
  obtain ⟨ps, hconn, hps⟩ := h.exists_delivers hstep
  obtain ⟨j, hj, hkj⟩ := hlater
  have hjmax := h.largest_after hj
  have hmd := h.near
  have hdk : d < k := by
    by_contra hle
    exact hmissing (List.mem_cons_of_mem n (h.below k (by omega) (by omega)))
  -- the old message under the id of `k` is still in the map
  have hold : ∃ q, (s.connection.incoming.reliablePackets.insert p.id p).find (wireId k) =
      some q ∧ q.payload = message (k - idPeriod) := by
    have hsum : k - idPeriod + idPeriod = k := Nat.sub_add_cancel hlate.le
    have hfind := h.stored_after hcopy hnear (hbelow (k - idPeriod) (by omega)
      (by rw [idPeriod] at *; omega)) (hsum.symm ▸ hmissing)
    rwa [← wireId_add_period (by omega), hsum] at hfind
  -- so the loop cannot stop before it
  have hreach : k ≤ d + ps.length := by
    by_contra hlt
    have hhole := hps.hole_of_lt (by omega) (by rw [idPeriod]; omega)
    rcases Nat.lt_or_eq_of_le (show d + ps.length + 1 ≤ k by omega) with hlt' | heq
    · obtain ⟨q, hq, -⟩ := h.stored_after hcopy hnear (hbelow _ (by omega) hlt')
        (h.not_mem_of_far (by rw [idPeriod]; omega))
      cases hq.symm.trans hhole
    · obtain ⟨q, hq, -⟩ := hold
      rw [heq] at hhole
      cases hq.symm.trans hhole
  obtain ⟨q, hq, hpayload⟩ := hold
  have hfound := hps.found_wireId (i := k - 1 - d) (by omega)
  rw [show d + (k - 1 - d) + 1 = k by omega, hq] at hfound
  refine ⟨q, ?_, hpayload⟩
  have hall : s'.delivered = s.connection.incoming.readyPackets ++ ps := by
    rw [delivered, hconn]
    exact List.filter_eq_self.mpr (h.allReliable_after hcopy hps)
  rw [hall, List.getElem?_append_right (by rw [h.count]; omega), h.count,
    List.getElem?_eq_getElem (by omega)]
  exact hfound.symm

theorem toInOrder (h : s.Tracks message d m) : s.InOrder message := by
  rw [InOrder, h.delivered_eq, h.count]
  exact h.inOrder

end Tracks

/-- In every run without a late gap the delivered packets are the first messages
of the stream, in order. -/
theorem inOrder_of_noLateGap (build : Build) (message : ℕ → β) (address : NetAddress)
    (labels : List (ℕ × Packet β)) (s : LongStream β)
    (hrun : LabelledRun.Run (fun s a s' ↦ Step build message s a s' ∧ s.NoLateGap a.1)
      (fresh address) labels s) : s.InOrder message := by
  have htracks : ∃ d m, s.Tracks message d m := by
    refine hrun.invariant (fun s ↦ ∃ d m, s.Tracks message d m)
      ⟨0, 0, tracks_fresh message address⟩ ?_
    rintro t a u ⟨d, m, h⟩ ⟨hstep, hgap⟩
    exact h.step hstep hgap
  obtain ⟨d, m, h⟩ := htracks
  exact h.toInOrder

/-! ## A run with a late gap -/

def copyOf (n : ℕ) : Packet ℕ := { Packet.make .data .reliable n with id := wireId n }

theorem isCopy_copyOf {n : ℕ} (hn : 0 < n) : IsCopy (fun n ↦ n) n (copyOf n) :=
  ⟨hn, Packet.make_isReliable .data n, rfl, rfl⟩

theorem exists_step {message : ℕ → β} (build : Build) (s : LongStream β) {n : ℕ} {p : Packet β}
    (hcopy : IsCopy message n p)
    (hnear : n ≤ s.delivered.length + 32 ∧ s.delivered.length ≤ n + 32) :
    ∃ s', Step build message s (n, p) s' := by
  have hvalid : p.id ≠ invalidId := by
    rw [hcopy.id]
    exact wireId_ne_invalidId hcopy.pos
  obtain ⟨ps, -, hok⟩ :=
    Connection.received_of_reliable build s.connection hcopy.reliable hvalid
  exact ⟨⟨_, n :: s.arrived⟩, hcopy, hnear, hok, rfl⟩

/-- The arrivals of the messages `1, …, n` in order. -/
def inOrderArrivals (n : ℕ) : List (ℕ × Packet ℕ) :=
  (List.range n).map fun k ↦ (k + 1, copyOf (k + 1))

theorem inOrderArrivals_succ (n : ℕ) :
    inOrderArrivals (n + 1) = inOrderArrivals n ++ [(n + 1, copyOf (n + 1))] := by
  simp [inOrderArrivals, List.range_succ]

theorem exists_run_in_order (build : Build) (n : ℕ) :
    ∃ s, LabelledRun.Run
        (fun s a s' ↦ Step build (fun n ↦ n) s a s' ∧ s.NoLateGap a.1) (fresh {})
        (inOrderArrivals n) s ∧
      s.Tracks (fun n ↦ n) n n ∧ ∀ j, j ∈ s.arrived ↔ 0 < j ∧ j ≤ n := by
  induction n with
  | zero =>
      refine ⟨fresh {}, .nil, tracks_fresh _ _, fun j ↦ ?_⟩
      simp only [fresh, List.not_mem_nil, false_iff]
      omega
  | succ n ih =>
      obtain ⟨s, hrun, htracks, harrived⟩ := ih
      have hcount : s.delivered.length = n := by rw [htracks.delivered_eq, htracks.count]
      obtain ⟨s', hstep⟩ := exists_step build s (isCopy_copyOf (Nat.succ_pos n)) (by omega)
      have hmem : ∀ j, j ∈ s'.arrived ↔ 0 < j ∧ j ≤ n + 1 := by
        intro j
        rw [hstep.arrived, List.mem_cons, harrived]
        omega
      have hgap : s.NoLateGap (n + 1) := by
        intro k hlate hbelow hmissing j hj
        rw [← hstep.arrived, hmem] at hj hmissing
        omega
      obtain ⟨d, m, h⟩ := htracks.step hstep hgap
      have hd : d = n + 1 := by
        have hgap' := h.gap
        rw [hmem] at hgap'
        rcases Nat.eq_zero_or_pos d with hz | hpos
        · omega
        · have hle := (hmem d).mp (h.below d hpos le_rfl)
          omega
      have hm : m = n + 1 := by
        have hle := h.largest (n + 1) ((hmem _).mpr ⟨Nat.succ_pos n, le_rfl⟩)
        rcases h.attained with hz | hmm
        · omega
        · have hle' := (hmem m).mp hmm
          omega
      rw [hd, hm] at h
      rw [inOrderArrivals_succ]
      exact ⟨s', hrun.snoc ⟨hstep, hgap⟩, h, hmem⟩

theorem inOrder_after_wrap : ∃ s : LongStream ℕ,
    s.delivered.length = 70000 ∧ s.InOrder (fun n ↦ n) := by
  obtain ⟨s, hrun, htracks, -⟩ := exists_run_in_order .debug 70000
  refine ⟨s, ?_, inOrder_of_noLateGap .debug _ {} _ s hrun⟩
  rw [htracks.delivered_eq, htracks.count]

/-- After `1, …, 65535` the arrival of message `65537` delivers message `1` a
second time, in the place of message `65536`. -/
theorem stale_delivery_after_wrap :
    ∃ labels s, LabelledRun.Run (Step .release (fun n ↦ n)) (fresh {}) labels s ∧
      (∃ p, s.delivered[65535]? = some p ∧ p.payload = 1) ∧ ¬ s.InOrder (fun n ↦ n) := by
  obtain ⟨s, hrun, htracks, harrived⟩ := exists_run_in_order .release 65535
  have hcount : s.delivered.length = 65535 := by rw [htracks.delivered_eq, htracks.count]
  obtain ⟨s', hstep⟩ :=
    exists_step .release s (isCopy_copyOf (n := 65537) (by decide)) (by omega)
  have hstale := htracks.stale_of_lateGap hstep (k := 65536) (by decide)
    (fun j hj hjk ↦ List.mem_cons_of_mem _ ((harrived j).mpr ⟨hj, by omega⟩))
    (by
      rw [List.mem_cons, harrived]
      omega)
    ⟨65537, List.mem_cons_self, by decide⟩
  refine ⟨_, s', (hrun.mono fun _ _ _ h ↦ h.1).snoc hstep, hstale, fun hinOrder ↦ ?_⟩
  obtain ⟨p, hp, hpayload⟩ := hstale
  obtain ⟨hlt, -⟩ := List.getElem?_eq_some_iff.mp hp
  have hget := congrArg (fun ps ↦ ps[65535]?) hinOrder
  simp only [List.getElem?_map, hp, List.getElem?_range hlt, Option.map_some,
    Option.some.injEq] at hget
  rw [hpayload] at hget
  exact absurd hget (by decide)

end LongStream

end GioNet
