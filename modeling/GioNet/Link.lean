import GioNet.Delivery
import GioNet.Library.Run

/-!
# Two connections over a lossy network

Two endpoints `a` and `b` exchange packets over a network that keeps every
popped packet until it is dropped: a packet in the network may arrive any number
of times, in any order, or never. The lists `scheduled`, `received` and
`consumed` are history and are not read by any step.
-/

namespace GioNet

inductive Side where
  | a
  | b
  deriving DecidableEq, Repr

def Side.other : Side → Side
  | .a => .b
  | .b => .a

@[simp] theorem Side.other_other (s : Side) : s.other.other = s := by cases s <;> rfl

@[simp] theorem Side.other_a : Side.a.other = .b := rfl

@[simp] theorem Side.other_b : Side.b.other = .a := rfl

@[simp] theorem Side.other_ne (s : Side) : s.other ≠ s := by cases s <;> decide

@[simp] theorem Side.ne_other (s : Side) : s ≠ s.other := by cases s <;> decide

theorem Side.eq_or_eq_other (s t : Side) : s = t ∨ s = t.other := by
  cases s <;> cases t <;> decide

structure Endpoint (β : Type) where
  connection : Connection β
  /-- The reliable packets passed to `Schedule`. -/
  scheduled : List (Packet β) := []
  /-- The packets passed to `Received`. -/
  received : List (Packet β) := []
  /-- The packets that `PopReadyIncomingPacket` has returned. -/
  consumed : List (Packet β) := []

namespace Endpoint

variable {β : Type}

/-- Everything put on `incoming.readyPackets` so far. -/
def delivered (e : Endpoint β) : List (Packet β) :=
  e.consumed ++ e.connection.incoming.readyPackets

def deliveredReliable (e : Endpoint β) : List (Packet β) :=
  e.delivered.filter Packet.isReliable

def schedule (e : Endpoint β) (p : Packet β) : Endpoint β :=
  { e with
    connection := e.connection.schedule p
    scheduled := if p.isReliable then e.scheduled ++ [p] else e.scheduled }

end Endpoint

structure Link (β : Type) where
  endpoint : Side → Endpoint β
  /-- The packets popped by a side that may still arrive at the other. -/
  network : Side → List (Packet β) := fun _ ↦ []

inductive Action (β : Type) where
  | schedule (s : Side) (p : Packet β)
  | pop (s : Side)
  | receive (s : Side) (p : Packet β)
  | consume (s : Side)
  | drop (s : Side) (i : ℕ)

namespace Link

variable {β : Type}

def fresh (address : Side → NetAddress) : Link β :=
  { endpoint := fun s ↦ { connection := .fresh (address s) } }

def setEndpoint (l : Link β) (s : Side) (e : Endpoint β) : Link β :=
  { l with endpoint := Function.update l.endpoint s e }

def setNetwork (l : Link β) (s : Side) (packets : List (Packet β)) : Link β :=
  { l with network := Function.update l.network s packets }

inductive Step (build : Build) (l : Link β) : Action β → Link β → Prop
  | schedule (s : Side) (p : Packet β) :
      Step build l (.schedule s p) (l.setEndpoint s ((l.endpoint s).schedule p))
  | pop (s : Side) (p : Packet β) (c : Connection β)
      (hpop : (l.endpoint s).connection.popReadyOutgoingPacket = some (p, c)) :
      Step build l (.pop s)
        ((l.setEndpoint s { l.endpoint s with connection := c }).setNetwork s
          (l.network s ++ [p]))
  | receive (s : Side) (p : Packet β) (c : Connection β) (hmem : p ∈ l.network s.other)
      (hreceived : (l.endpoint s).connection.received build p = .ok c) :
      Step build l (.receive s p)
        (l.setEndpoint s
          { l.endpoint s with connection := c, received := (l.endpoint s).received ++ [p] })
  | consume (s : Side) (p : Packet β) (c : Connection β)
      (hpop : (l.endpoint s).connection.popReadyIncomingPacket = some (p, c)) :
      Step build l (.consume s)
        (l.setEndpoint s
          { l.endpoint s with connection := c, consumed := (l.endpoint s).consumed ++ [p] })
  | drop (s : Side) (i : ℕ) :
      Step build l (.drop s i) (l.setNetwork s ((l.network s).eraseIdx i))

def Reachable (build : Build) (address : Side → NetAddress) (l : Link β) : Prop :=
  LabelledRun.Reaches (Step build) (fresh address) l

@[simp] theorem setEndpoint_endpoint (l : Link β) (s : Side) (e : Endpoint β) (t : Side) :
    (l.setEndpoint s e).endpoint t = if t = s then e else l.endpoint t :=
  Function.update_apply l.endpoint s e t

@[simp] theorem setEndpoint_network (l : Link β) (s : Side) (e : Endpoint β) :
    (l.setEndpoint s e).network = l.network := rfl

@[simp] theorem setNetwork_endpoint (l : Link β) (s : Side) (packets : List (Packet β)) :
    (l.setNetwork s packets).endpoint = l.endpoint := rfl

@[simp] theorem setNetwork_network (l : Link β) (s : Side) (packets : List (Packet β)) (t : Side) :
    (l.setNetwork s packets).network t = if t = s then packets else l.network t :=
  Function.update_apply l.network s packets t

end Link

end GioNet
