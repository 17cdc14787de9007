import GioNet.Accounting
import Mathlib.Algebra.Group.Action.Defs
import Mathlib.Algebra.Order.BigOperators.Group.List
import Mathlib.Data.FinEnum
import Mathlib.Data.Prod.Lex
import Mathlib.Order.WellFounded

/-!
# Traffic dies out

There are no timers: a packet is queued again only in answer to a packet that
arrives. So if nothing new is scheduled and the network makes no copies, every
run ends, from every reachable state and over any number of id cycles.
-/

namespace GioNet

open Packet (invalidId maxPossibleId)

variable {β : Type}

/-! ## What a received packet changes -/

namespace Connection

variable {c c' : Connection β} {p : Packet β} {build : Build}

theorem received_outgoing_readyPackets (h : c.received build p = .ok c') :
    c'.outgoing.readyPackets = c.outgoing.readyPackets ++ c.rescheduled p sizeofAckBitset := by
  rw [received_outgoing h, processAcks_readyPackets]

theorem contains_of_received (h : c.received build p = .ok c') {id : IdType}
    (hid : c'.outgoing.reliablePackets.contains id = true) :
    c.outgoing.reliablePackets.contains id = true := by
  obtain ⟨q, hq⟩ := PartialMap.contains_iff.mp hid
  rw [received_outgoing h] at hq
  exact PartialMap.contains_iff.mpr ⟨q, (processAcks_find_some hq).2⟩

theorem length_rescheduled_le (c : Connection β) (p : Packet β) (count : ℕ) :
    (c.rescheduled p count).length ≤ count := by
  induction count with
  | zero => simp [rescheduled]
  | succ count ih =>
      have hlast : c.rescheduled p (count + 1) = c.rescheduled p count ++
          if p.ackBit count then []
          else (c.outgoing.reliablePackets.find (p.ackWindowId count)).toList := by
        simp [rescheduled, List.range_succ]
      have hone : (if p.ackBit count then []
          else (c.outgoing.reliablePackets.find (p.ackWindowId count)).toList).length ≤ 1 := by
        split
        · simp
        · exact Option.length_toList_le
      rw [hlast, List.length_append]
      omega

end Connection

/-! ## Weights -/

namespace Packet

/-- A reliable packet that the side which knows the ids `known` has not received. -/
def isNews (known : IdType → Bool) (p : Packet β) : Bool :=
  p.isReliable && !known p.id

/-- The header tells what the side that knows the ids `known` would write now. -/
def isCurrent (known : IdType → Bool) (p : Packet β) : Bool :=
  (List.range sizeofAckBitset).all fun i ↦ p.ackBit i == known (p.ackWindowId i)

def queuedWeight (known : IdType → Bool) (p : Packet β) : ℕ :=
  if p.isNews known then 2 else 10

def inFlightWeight (own known : IdType → Bool) (p : Packet β) : ℕ :=
  if p.isNews known then 1 else if p.isCurrent own then 9 else 41

theorem inFlightWeight_pos (own known : IdType → Bool) (p : Packet β) :
    0 < p.inFlightWeight own known := by
  unfold inFlightWeight
  split
  · omega
  · split <;> omega

/-- A popped packet carries a current header. -/
theorem isCurrent_popped (c : Connection β) (p : Packet β) :
    ({ p with ackId := c.currentAckId, ackBitset := c.ackBits } : Packet β).isCurrent
      c.hasReceivedPacket = true := by
  simp only [isCurrent, List.all_eq_true, List.mem_range, beq_iff_eq]
  intro i hi
  exact ackBit_of_ackBitsOf rfl hi

theorem inFlightWeight_popped (known : IdType → Bool) (c : Connection β) (p : Packet β) :
    ({ p with ackId := c.currentAckId, ackBitset := c.ackBits } : Packet β).inFlightWeight
        c.hasReceivedPacket known < p.queuedWeight known := by
  have hnews : ({ p with
      ackId := c.currentAckId, ackBitset := c.ackBits } : Packet β).isNews known =
        p.isNews known := rfl
  unfold inFlightWeight queuedWeight
  rw [isCurrent_popped, hnews]
  split <;> simp

end Packet

namespace Link

variable {build : Build} {l l' : Link β} {s : Side} {address : Side → NetAddress}

def known (l : Link β) (s : Side) : IdType → Bool :=
  (l.endpoint s).connection.hasReceivedPacket

def stored (l : Link β) (s : Side) : PartialMap IdType (Packet β) :=
  (l.endpoint s).connection.outgoing.reliablePackets

def queued (l : Link β) (s : Side) : List (Packet β) :=
  (l.endpoint s).connection.outgoing.readyPackets

def ready (l : Link β) (s : Side) : ℕ :=
  (l.endpoint s).connection.incoming.readyPackets.length

def load (l : Link β) (s : Side) : ℕ :=
  ((l.queued s).map (Packet.queuedWeight (l.known s.other))).sum +
    ((l.network s).map (Packet.inFlightWeight (l.known s) (l.known s.other))).sum

/-- The number of ids that a side stores a packet under and that the other has not
received. -/
def outstanding (l : Link β) (s : Side) : ℕ :=
  (Finset.univ.filter fun id ↦
    (l.stored s).contains id = true ∧ l.known s.other id = false).card

def measure (l : Link β) : ℕ ×ₗ ℕ ×ₗ ℕ :=
  toLex (l.outstanding .a + l.outstanding .b,
    toLex (l.load .a + l.load .b, l.ready .a + l.ready .b))

@[simp] theorem setNetwork_known (l : Link β) (s : Side) (packets : List (Packet β)) :
    (l.setNetwork s packets).known = l.known := rfl

@[simp] theorem setNetwork_queued (l : Link β) (s : Side) (packets : List (Packet β)) :
    (l.setNetwork s packets).queued = l.queued := rfl

theorem sum_sides (f : Side → ℕ) (s : Side) : f .a + f .b = f s + f s.other := by
  cases s
  · rfl
  · exact Nat.add_comm _ _

theorem measure_lt_of_outstanding (s : Side) (h : l'.outstanding s < l.outstanding s)
    (hother : l'.outstanding s.other ≤ l.outstanding s.other) : l'.measure < l.measure := by
  rw [measure, measure, Prod.Lex.toLex_lt_toLex]
  left
  simp only [sum_sides _ s]
  omega

theorem measure_lt_of_load (s : Side) (h : ∀ t, l'.outstanding t ≤ l.outstanding t)
    (hload : l'.load s + l'.load s.other < l.load s + l.load s.other) :
    l'.measure < l.measure := by
  have ha := h .a
  have hb := h .b
  rw [measure, measure, Prod.Lex.toLex_lt_toLex, Prod.Lex.toLex_lt_toLex]
  simp only [sum_sides l.load s, sum_sides l'.load s]
  omega

theorem measure_lt_of_ready (s : Side) (h : ∀ t, l'.outstanding t = l.outstanding t)
    (hload : ∀ t, l'.load t = l.load t) (hready : l'.ready s < l.ready s)
    (hother : l'.ready s.other = l.ready s.other) : l'.measure < l.measure := by
  have hsum := sum_sides l.ready s
  have hsum' := sum_sides l'.ready s
  rw [measure, measure, Prod.Lex.toLex_lt_toLex, Prod.Lex.toLex_lt_toLex]
  right
  simp only [h, hload, true_and]
  right
  omega

theorem outstanding_le
    (hstored : ∀ id, (l'.stored s).contains id = true → (l.stored s).contains id = true)
    (hknown : ∀ id, l.known s.other id = true → l'.known s.other id = true) :
    l'.outstanding s ≤ l.outstanding s := by
  apply Finset.card_le_card
  intro id hid
  simp only [Finset.mem_filter, Finset.mem_univ, true_and] at hid ⊢
  refine ⟨hstored id hid.1, ?_⟩
  by_contra hne
  have harrived := hknown id (by simpa using hne)
  exact absurd (hid.2.symm.trans harrived) (by simp)

theorem outstanding_lt
    (hstored : ∀ id, (l'.stored s).contains id = true → (l.stored s).contains id = true)
    (hknown : ∀ id, l.known s.other id = true → l'.known s.other id = true) {id : IdType}
    (hbefore : (l.stored s).contains id = true) (hnews : l.known s.other id = false)
    (hafter : l'.known s.other id = true) : l'.outstanding s < l.outstanding s := by
  apply Finset.card_lt_card
  refine ⟨?_, ?_⟩
  · intro j hj
    simp only [Finset.mem_filter, Finset.mem_univ, true_and] at hj ⊢
    refine ⟨hstored j hj.1, ?_⟩
    by_contra hne
    have harrived := hknown j (by simpa using hne)
    exact absurd (hj.2.symm.trans harrived) (by simp)
  · intro hsub
    have hmem := hsub (x := id) (by simp [hbefore, hnews])
    simp [hafter] at hmem

theorem outstanding_eq (hstored : ∀ t, l'.stored t = l.stored t)
    (hknown : ∀ t, l'.known t = l.known t) (t : Side) : l'.outstanding t = l.outstanding t := by
  simp only [outstanding, hstored, hknown]

/-! ## Transfer without duplication -/

/-- A step in which nothing is scheduled and no copy is made: a packet that is
received leaves the network. -/
inductive Transfer (build : Build) (l : Link β) : Action β → Link β → Prop
  | pop (s : Side) (l' : Link β) (h : Step build l (.pop s) l') : Transfer build l (.pop s) l'
  | receive (s : Side) (p : Packet β) (i : ℕ) (l' : Link β)
      (hi : (l.network s.other)[i]? = some p) (h : Step build l (.receive s p) l') :
      Transfer build l (.receive s p)
        (l'.setNetwork s.other ((l.network s.other).eraseIdx i))
  | consume (s : Side) (l' : Link β) (h : Step build l (.consume s) l') :
      Transfer build l (.consume s) l'
  | drop (s : Side) (i : ℕ) (hi : i < (l.network s).length) :
      Transfer build l (.drop s i) (l.setNetwork s ((l.network s).eraseIdx i))

theorem Transfer.reaches {a : Action β} (h : Transfer build l a l') :
    LabelledRun.Reaches (Step build) l l' := by
  cases h with
  | pop s l' h => exact .single h
  | receive s p i l' hi h =>
      have hnetwork : l.network = l'.network := by
        cases h
        rfl
      rw [hnetwork]
      exact (LabelledRun.Reaches.single h).tail (.drop s.other i)
  | consume s l' h => exact .single h
  | drop s i hi => exact .single (.drop s i)

theorem sum_eraseIdx {packets : List (Packet β)} {i : ℕ} {p : Packet β} (w : Packet β → ℕ)
    (hi : packets[i]? = some p) :
    w p + ((packets.eraseIdx i).map w).sum = (packets.map w).sum := by
  obtain ⟨hlt, rfl⟩ := List.getElem?_eq_some_iff.mp hi
  have hperm := (List.getElem_cons_eraseIdx_perm hlt).map w
  simpa using hperm.sum_eq

theorem Step.pop_effect (h : Step build l (.pop s) l') :
    ∃ q, l.queued s = q :: l'.queued s ∧ l'.queued s.other = l.queued s.other ∧
      l'.network s = l.network s ++ [{ q with
        ackId := (l.endpoint s).connection.currentAckId
        ackBitset := (l.endpoint s).connection.ackBits }] ∧
      l'.network s.other = l.network s.other ∧ (∀ t, l'.stored t = l.stored t) ∧
      ∀ t, l'.known t = l.known t := by
  cases h with
  | pop s p c hpop =>
      obtain ⟨q, rest, hready, rfl, rfl⟩ := Connection.popReadyOutgoingPacket_eq_some_iff.mp hpop
      refine ⟨q, by simp [queued, hready], by simp [queued], by simp, by simp, ?_, ?_⟩
      · intro t
        rcases Side.eq_or_eq_other s t with rfl | rfl <;> simp [stored]
      · intro t
        rcases Side.eq_or_eq_other t s with rfl | rfl
        · funext id
          simp [known, Connection.hasReceivedPacket]
        · simp [known]

theorem Step.receive_effect {p : Packet β} (h : Step build l (.receive s p) l') :
    l'.queued s = l.queued s ++ (l.endpoint s).connection.rescheduled p sizeofAckBitset ∧
      l'.queued s.other = l.queued s.other ∧ l'.network = l.network ∧
      (∀ id, (l'.stored s).contains id = true → (l.stored s).contains id = true) ∧
      l'.stored s.other = l.stored s.other ∧
      (∀ id, l'.known s id = (p.isReliable && decide (id = p.id) || l.known s id)) ∧
      l'.known s.other = l.known s.other := by
  cases h with
  | receive s p c hmem hreceived =>
      refine ⟨?_, by simp [queued], rfl, ?_, by simp [stored], ?_, by simp [known]⟩
      · simpa [queued] using Connection.received_outgoing_readyPackets hreceived
      · intro id hid
        exact Connection.contains_of_received hreceived (by simpa [stored] using hid)
      · intro id
        simpa [known] using Connection.received_hasReceivedPacket hreceived id

theorem Step.consume_effect (h : Step build l (.consume s) l') :
    l'.queued = l.queued ∧ l'.network = l.network ∧ l'.stored = l.stored ∧ l'.known = l.known ∧
      l.ready s = l'.ready s + 1 ∧ l'.ready s.other = l.ready s.other := by
  cases h with
  | consume s p c hpop =>
      obtain ⟨rest, hready, rfl⟩ := Connection.popReadyIncomingPacket_eq_some_iff.mp hpop
      refine ⟨?_, rfl, ?_, ?_, by simp [ready, hready], by simp [ready]⟩
      · funext t
        rcases Side.eq_or_eq_other s t with rfl | rfl <;> simp [queued]
      · funext t
        rcases Side.eq_or_eq_other s t with rfl | rfl <;> simp [stored]
      · funext t
        rcases Side.eq_or_eq_other t s with rfl | rfl
        · funext id
          simp [known, Connection.hasReceivedPacket]
        · simp [known]

theorem Step.scheduled {a : Action β} (h : Step build l a l') (ha : ∀ t p, a ≠ .schedule t p) :
    (l'.endpoint s).scheduled = (l.endpoint s).scheduled := by
  cases h with
  | schedule t p => exact absurd rfl (ha t p)
  | drop t i => rfl
  | pop t p c hpop | receive t p c hmem hreceived | consume t p c hpop =>
      rcases Side.eq_or_eq_other s t with rfl | rfl <;> simp

theorem measure_pop (h : Step build l (.pop s) l') : l'.measure < l.measure := by
  obtain ⟨q, hqueued, hqueued', hnetwork, hnetwork', hstored, hknown⟩ := h.pop_effect
  have hlt := Packet.inFlightWeight_popped (l.known s.other) (l.endpoint s).connection q
  refine measure_lt_of_load s (fun t ↦ (outstanding_eq hstored hknown t).le) ?_
  simp only [load, hqueued, hqueued', hnetwork, hnetwork', hknown, List.map_cons, List.sum_cons,
    List.map_append, List.sum_append, List.map_nil, List.sum_nil]
  change Packet.inFlightWeight (l.known s) _ _ < _ at hlt
  omega

theorem measure_consume (h : Step build l (.consume s) l') : l'.measure < l.measure := by
  obtain ⟨hqueued, hnetwork, hstored, hknown, hready, hready'⟩ := h.consume_effect
  refine measure_lt_of_ready s ?_ ?_ (by omega) hready'
  · exact outstanding_eq (fun t ↦ by rw [hstored]) fun t ↦ by rw [hknown]
  · intro t
    rw [load, load, hqueued, hnetwork, hknown]

theorem measure_drop {i : ℕ} (hi : i < (l.network s).length) :
    (l.setNetwork s ((l.network s).eraseIdx i)).measure < l.measure := by
  have hsum := sum_eraseIdx (Packet.inFlightWeight (l.known s) (l.known s.other))
    (List.getElem?_eq_getElem hi)
  have hpos := Packet.inFlightWeight_pos (l.known s) (l.known s.other) (l.network s)[i]
  refine measure_lt_of_load s (fun t ↦ le_rfl) ?_
  simp only [load, queued, known, setNetwork_endpoint, setNetwork_network, if_true, Side.other_ne,
    if_false]
  simp only [known] at hsum hpos
  omega

/-- A reliable packet that had not arrived was outstanding, and is no more. -/
theorem measure_receive_news (hl : Reachable build address l) {p : Packet β} (i : ℕ)
    (h : Step build l (.receive s p) l') (hp : p ∈ l.network s.other)
    (hnews : p.isNews (l.known s) = true) :
    (l'.setNetwork s.other ((l.network s.other).eraseIdx i)).measure < l.measure := by
  obtain ⟨-, -, -, hstored, hstored', hknown, hknown'⟩ := h.receive_effect
  simp only [Packet.isNews, Bool.and_eq_true, Bool.not_eq_true'] at hnews
  have hbacked := (hl.accounted s.other).inFlight p hp hnews.1
  have hbefore : (l.stored s.other).contains p.id = true := by
    refine hbacked.resolve_right fun harrived ↦ ?_
    have hknows : l.known s p.id = true := by
      simpa [known, stream, Connection.hasReceivedPacket] using harrived
    exact absurd (hnews.2.symm.trans hknows) (by simp)
  refine measure_lt_of_outstanding s.other ?_ ?_
  · refine outstanding_lt ?_ ?_ hbefore ?_ ?_
    · intro id hid
      exact hstored' ▸ hid
    · intro id hid
      rw [Side.other_other] at hid ⊢
      exact (hknown id).trans (by simp [hid])
    · rw [Side.other_other]
      exact hnews.2
    · rw [Side.other_other]
      exact (hknown p.id).trans (by simp [hnews.1])
  · rw [Side.other_other]
    exact outstanding_le hstored fun id hid ↦ (congrFun hknown' id).trans hid

theorem sum_rescheduled_le (c : Connection β) (p : Packet β) {w : Packet β → ℕ} {k : ℕ}
    (h : ∀ q ∈ c.rescheduled p sizeofAckBitset, w q ≤ k) :
    ((c.rescheduled p sizeofAckBitset).map w).sum ≤ 4 * k := by
  have hlength := c.length_rescheduled_le p sizeofAckBitset
  have hsum := List.sum_le_card_nsmul ((c.rescheduled p sizeofAckBitset).map w) k (by simpa using h)
  rw [List.length_map, smul_eq_mul] at hsum
  exact hsum.trans (Nat.mul_le_mul_right k hlength)

/-- A current header makes the sender repeat only what has not arrived. -/
theorem isNews_of_rescheduled (hl : Reachable build address l) {p q : Packet β}
    (hcurrent : p.isCurrent (l.known s.other) = true)
    (hq : q ∈ (l.endpoint s).connection.rescheduled p sizeofAckBitset) :
    q.isNews (l.known s.other) = true := by
  obtain ⟨i, hi, hbit, hfind⟩ := Connection.mem_rescheduled.mp hq
  obtain ⟨hid, hrel, -⟩ := (hl.copies s).stored _ q hfind
  simp only [Packet.isCurrent, List.all_eq_true, List.mem_range, beq_iff_eq] at hcurrent
  have hunknown := hcurrent i hi
  rw [hbit, ← hid] at hunknown
  simp [Packet.isNews, hrel, ← hunknown]

theorem weight_rescheduled_lt (hl : Reachable build address l) {p : Packet β}
    (hold : p.isNews (l.known s) = false) :
    (((l.endpoint s).connection.rescheduled p sizeofAckBitset).map
      (Packet.queuedWeight (l.known s.other))).sum <
        p.inFlightWeight (l.known s.other) (l.known s) := by
  unfold Packet.inFlightWeight
  rw [hold, if_neg Bool.false_ne_true]
  cases hcurrent : p.isCurrent (l.known s.other) with
  | true =>
      have hsum := sum_rescheduled_le (l.endpoint s).connection p (k := 2)
        (w := Packet.queuedWeight (l.known s.other)) fun q hq ↦ by
          rw [Packet.queuedWeight, isNews_of_rescheduled hl hcurrent hq, if_pos rfl]
      rw [if_pos rfl]
      omega
  | false =>
      have hsum := sum_rescheduled_le (l.endpoint s).connection p (k := 10)
        (w := Packet.queuedWeight (l.known s.other)) fun q hq ↦ by
          unfold Packet.queuedWeight
          split <;> omega
      rw [if_neg Bool.false_ne_true]
      omega

theorem measure_receive_old (hl : Reachable build address l) {p : Packet β} {i : ℕ}
    (h : Step build l (.receive s p) l') (hi : (l.network s.other)[i]? = some p)
    (hold : p.isNews (l.known s) = false) :
    (l'.setNetwork s.other ((l.network s.other).eraseIdx i)).measure < l.measure := by
  obtain ⟨hqueued, hqueued', hnetwork, hstored, hstored', hknown, hknown'⟩ := h.receive_effect
  have hsame : l'.known s = l.known s := by
    funext id
    rw [hknown]
    by_cases hid : id = p.id
    · subst hid
      cases hrel : p.isReliable <;> simp_all [Packet.isNews]
    · simp [hid]
  have hlt := weight_rescheduled_lt hl hold
  have hsum := sum_eraseIdx (Packet.inFlightWeight (l.known s.other) (l.known s)) hi
  refine measure_lt_of_load s ?_ ?_
  · intro t
    rcases Side.eq_or_eq_other t s with rfl | rfl
    · exact outstanding_le hstored fun id hid ↦ (congrFun hknown' id).trans hid
    · refine outstanding_le (fun id hid ↦ hstored' ▸ hid) fun id hid ↦ ?_
      rw [Side.other_other] at hid ⊢
      exact (congrFun hsame id).trans hid
  · simp only [load, setNetwork_known, setNetwork_queued, setNetwork_network, Side.ne_other,
      if_false, if_true, Side.other_other, hqueued, hqueued', hnetwork, hsame, hknown',
      List.map_append, List.sum_append]
    omega

theorem Transfer.measure_lt {a : Action β} (hl : Reachable build address l)
    (h : Transfer build l a l') : l'.measure < l.measure := by
  cases h with
  | pop s l' h => exact measure_pop h
  | receive s p i l' hi h =>
      cases hnews : p.isNews (l.known s) with
      | true => exact measure_receive_news hl i h (List.mem_of_getElem? hi) hnews
      | false => exact measure_receive_old hl h hi hnews
  | consume s l' h => exact measure_consume h
  | drop s i hi => exact measure_drop hi

/-! ## Silence -/

theorem Reachable.ends (hl : Reachable build address l) :
    LabelledRun.Ends (Transfer build) l :=
  LabelledRun.ends_of_decreases (Reachable build address) measure hl
    fun _ _ _ ht hstep ↦ ⟨ht.trans hstep.reaches, hstep.measure_lt ht⟩

/-- Nothing is queued, in flight or ready to be consumed. -/
def Silent (l : Link β) : Prop :=
  ∀ s, l.queued s = [] ∧ l.network s = [] ∧ (l.endpoint s).connection.incoming.readyPackets = []

theorem exists_consume (build : Build) (l : Link β) (s : Side)
    (h : (l.endpoint s).connection.incoming.readyPackets ≠ []) :
    ∃ l', Step build l (.consume s) l' := by
  obtain ⟨p, rest, hready⟩ := List.exists_cons_of_ne_nil h
  exact ⟨_, .consume s p _
    (Connection.popReadyIncomingPacket_eq_some_iff.mpr ⟨rest, hready, rfl⟩)⟩

theorem silent_iff : l.Silent ↔ ∀ a l', ¬ Transfer build l a l' := by
  constructor
  · intro h a l' hstep
    cases hstep with
    | pop s l' hstep =>
        obtain ⟨q, hqueued, -⟩ := hstep.pop_effect
        rw [(h s).1] at hqueued
        cases hqueued
    | receive s p i l' hi hstep =>
        rw [(h s.other).2.1] at hi
        cases hi
    | consume s l' hstep =>
        have hready := hstep.consume_effect.2.2.2.2.1
        rw [ready, (h s).2.2] at hready
        cases hready
    | drop s i hi =>
        rw [(h s).2.1] at hi
        cases hi
  · intro h s
    refine ⟨?_, ?_, ?_⟩
    · by_contra hne
      obtain ⟨l', hpop⟩ := exists_pop build l s hne
      exact h _ _ (.pop s l' hpop)
    · by_contra hne
      exact h _ _ (.drop s 0 (List.length_pos_iff.mpr hne))
    · by_contra hne
      obtain ⟨l', hconsume⟩ := exists_consume build l s hne
      exact h _ _ (.consume s l' hconsume)

/-- From every reachable state there is no infinite run, and the runs that cannot
be continued end in silence. -/
theorem traffic_dies_out (hl : Reachable build address l) :
    (∀ (states : ℕ → Link β) (actions : ℕ → Action β), states 0 = l →
      ¬ ∀ n, Transfer build (states n) (actions n) (states (n + 1))) ∧
    (∃ l', LabelledRun.Reaches (Transfer build) l l' ∧ l'.Silent) ∧
    ∀ l', LabelledRun.Reaches (Transfer build) l l' →
      (∀ a l'', ¬ Transfer build l' a l'') → l'.Silent := by
  refine ⟨fun _ _ hstart ↦ hl.ends.not_infinite hstart, ?_, fun _ _ ↦ silent_iff.mpr⟩
  obtain ⟨l', hreach, hfinal⟩ := hl.ends.exists_final
  exact ⟨l', hreach, silent_iff.mpr hfinal⟩

/-- A message on its way: its header arrives, or is lost, and the traffic ends. -/
theorem traffic_dies_out_after_schedule :
    ∃ l : Link ℕ, (l.queued .a).length = 2 ∧
      ∃ l', LabelledRun.Reaches (Transfer .debug) l l' ∧ l'.Silent := by
  have hl : Reachable .debug (fun _ ↦ {}) _ :=
    ((LabelledRun.Reaches.refl (fresh fun _ ↦ {})).tail
      (.schedule .a (Packet.make .data .reliable 7))).tail
      (.schedule .a (Packet.make .data .reliable 8))
  exact ⟨_, rfl, (traffic_dies_out hl).2.1⟩

end Link

end GioNet
