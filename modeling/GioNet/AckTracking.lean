import GioNet.Delivery

/-!
# The ack id follows the stream

The messages of a stream are numbered `1, 2, 3, …` and travel under their wire
ids. As long as every arrival is less than half the id range away from the
latest message before it, on either side, the ack id is the wire id of the
latest message, however often the ids have wrapped around.
-/

namespace GioNet

open Packet (invalidId)

/-- A message of the stream at its arrival: its number, and the packet. -/
structure Arrival (β : Type) where
  number : ℕ
  packet : Packet β

namespace Arrival

variable {β : Type}

/-- A reliable packet under the wire id of its number; messages count from `1`. -/
structure Numbered (a : Arrival β) : Prop where
  pos : 0 < a.number
  reliable : a.packet.isReliable = true
  id_eq : a.packet.id = wireId a.number

def largest (arrivals : List (Arrival β)) : ℕ :=
  arrivals.foldl (fun latest a ↦ max latest a.number) 0

@[simp] theorem largest_snoc (arrivals : List (Arrival β)) (a : Arrival β) :
    largest (arrivals ++ [a]) = max (largest arrivals) a.number := by
  simp [largest]

/-- Every arrival but the first differs from the largest number before it by
less than `HalfId`. -/
def Near (arrivals : List (Arrival β)) : Prop :=
  ∀ before a after, arrivals = before ++ a :: after → before ≠ [] →
    a.number < largest before + Connection.halfId.toNat ∧
      largest before < a.number + Connection.halfId.toNat

theorem Near.of_append {arrivals later : List (Arrival β)} (h : Near (arrivals ++ later)) :
    Near arrivals := by
  intro before a after heq hne
  apply h before a (after ++ later) _ hne
  rw [heq, List.append_assoc, List.cons_append]

end Arrival

namespace Connection

variable {β : Type}

theorem getCurrentAckId_of_near (build : Build) (address : NetAddress)
    (arrivals : List (Arrival β)) (hnumbered : ∀ a ∈ arrivals, a.Numbered)
    (hnear : Arrival.Near arrivals) :
    ∃ c, (fresh address).receiveAll build (arrivals.map (·.packet)) = .ok c ∧
      c.getCurrentAckId = wireId (Arrival.largest arrivals) := by
  induction arrivals using List.reverseRecOn with
  | nil => exact ⟨fresh address, rfl, rfl⟩
  | append_singleton arrivals a ih =>
      obtain ⟨c, hc, hack⟩ := ih (fun b hb ↦ hnumbered b (List.mem_append_left _ hb))
        hnear.of_append
      have ha := hnumbered a (by simp)
      have hid : a.packet.id ≠ invalidId := by
        rw [ha.id_eq]
        exact wireId_ne_invalidId ha.pos
      obtain ⟨ps, -, hreceived⟩ := received_of_reliable build c ha.reliable hid
      refine ⟨c.afterReliable a.packet ps, ?_, ?_⟩
      · rw [List.map_append, List.map_singleton, receiveAll_snoc hc]
        exact hreceived
      · have hack' : c.currentAckId = wireId (Arrival.largest arrivals) := hack
        change latestId c.currentAckId a.packet.id = _
        rw [hack', ha.id_eq, Arrival.largest_snoc]
        by_cases hne : arrivals = []
        · -- the first message may have any number
          subst hne
          simp [Arrival.largest, latestId]
        · obtain ⟨hahead, hbehind⟩ := hnear arrivals a [] rfl hne
          rw [halfId_toNat] at hahead hbehind
          exact latestId_wireId ha.pos hbehind hahead

/-- After each of the arrivals, the ack id is the wire id of the largest number
that has arrived. -/
theorem ackId_follows_stream (build : Build) (address : NetAddress)
    (arrivals : List (Arrival β)) (hnumbered : ∀ a ∈ arrivals, a.Numbered)
    (hnear : Arrival.Near arrivals) (before after : List (Arrival β))
    (hsplit : arrivals = before ++ after) :
    ∃ c, (fresh address).receiveAll build (before.map (·.packet)) = .ok c ∧
      c.getCurrentAckId = wireId (Arrival.largest before) := by
  subst hsplit
  exact getCurrentAckId_of_near build address before
    (fun a ha ↦ hnumbered a (List.mem_append_left _ ha)) hnear.of_append

/-- The first message has the last id of the first round, the second the first
id of the next round, and the third comes late. -/
theorem ackId_follows_stream_wraps :
    ∃ c, (fresh {}).receiveAll .debug (([65535, 65536, 65534].map fun n ↦
        Packet.emptyReliable (wireId n))) = .ok c ∧ c.getCurrentAckId = 1 := by
  have hnumbered : ∀ a ∈ [65535, 65536, 65534].map fun n ↦
      (⟨n, Packet.emptyReliable (wireId n)⟩ : Arrival Unit), a.Numbered := by
    intro a ha
    obtain ⟨n, hn, rfl⟩ := List.mem_map.mp ha
    refine ⟨?_, Packet.make_isReliable _ _, rfl⟩
    change 0 < n
    simp only [List.mem_cons, List.not_mem_nil, or_false] at hn
    rcases hn with rfl | rfl | rfl <;> decide
  have hnear : Arrival.Near ([65535, 65536, 65534].map fun n ↦
      (⟨n, Packet.emptyReliable (wireId n)⟩ : Arrival Unit)) := by
    intro before a after heq hne
    rw [halfId_toNat]
    match before, heq, hne with
    | [_], heq, _ =>
        simp only [List.map_cons, List.map_nil, List.singleton_append, List.cons.injEq] at heq
        obtain ⟨rfl, rfl, -⟩ := heq
        simp [Arrival.largest]
    | [_, _], heq, _ =>
        simp only [List.map_cons, List.map_nil, List.cons_append, List.nil_append,
          List.cons.injEq] at heq
        obtain ⟨rfl, rfl, rfl, -⟩ := heq
        simp [Arrival.largest]
    | _ :: _ :: _ :: _, heq, _ => simp at heq
  exact ackId_follows_stream .debug {} _ hnumbered hnear _ [] (List.append_nil _).symm

end Connection

end GioNet
