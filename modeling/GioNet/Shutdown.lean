import GioNet.EndToEnd
import Mathlib.Algebra.Order.BigOperators.Group.List
import Mathlib.Data.Prod.Lex

/-!
# After the socket of the server is closed

A call that fails closes the socket and leaves it to the threads to notice. They do:
with the socket closed no thread can go on for ever, and `ListenThread`, which may be
in a call of `recvfrom`, is woken by an error.
-/

namespace GioNet

open LabelledRun (Run Ends)

/-- Where a `ListenThread` is. -/
inductive Place where
  /-- At the test of its loop or in the body. -/
  | loop
  /-- In the call of `recvfrom`. -/
  | receiveFrom
  /-- Behind its loop. -/
  | left
  deriving DecidableEq

/-- The steps of `ListenThread` until it is behind its loop. -/
def Place.rest : Place → ℕ
  | .receiveFrom => 2
  | .loop => 1
  | .left => 0

/-- Everything but new calls of `Send` and `Broadcast` and what the network does alone. -/
def Event.IsThread : Event → Prop
  | .ignored _ _ => False
  | .send _ _ => False
  | .broadcast _ _ => False
  | _ => True

def Listening.stage : Listening → ℕ
  | .added _ _ => 2
  | .found _ _ => 1
  | _ => 0

def Listening.loops : Listening → ℕ
  | .processing rest => rest.length + 1
  | _ => 0

namespace Server

structure ThreadStep (build : Build) (w : Winsock) (σ : Server) (e : Event) (σ' : Server) :
    Prop where
  step : Step build w σ e σ'
  thread : e.IsThread

def incomingOf (σ : Server) (peers : List NetAddress) : ℕ :=
  (peers.map fun peer ↦ (σ.connection peer).incoming.readyPackets.length).sum

def outgoingOf (σ : Server) (peers : List NetAddress) : ℕ :=
  (peers.map fun peer ↦ (σ.connection peer).outgoing.readyPackets.length).sum

def calls (σ : Server) : ℕ := (σ.broadcasts.map fun b ↦ b.rest.length).sum

def listenDuties (σ : Server) : ℕ := σ.listening.loops + σ.incomingOf σ.listening.rest

def sendDuties (σ : Server) : ℕ := σ.connectedPeers.length + σ.outgoingOf σ.connectedPeers

def duties (σ : Server) : ℕ := σ.listenDuties + σ.sendDuties + (!σ.aborted).toNat

/-- What is in hand may make packets ready, and a call of `Broadcast` schedules some. -/
def remaining (σ : Server) : ℕ ×ₗ ℕ := toLex (σ.listening.stage + σ.calls, σ.duties)

variable {build : Build} {w : Winsock} {σ σ' : Server} {e : Event} {labels : List Event}
  {peer : NetAddress}

theorem remaining_lt_of_stage (h : σ'.listening.stage + σ'.calls < σ.listening.stage + σ.calls) :
    σ'.remaining < σ.remaining :=
  Prod.Lex.left _ _ h

theorem remaining_lt_of_duties
    (hstage : σ'.listening.stage + σ'.calls = σ.listening.stage + σ.calls)
    (h : σ'.duties < σ.duties) : σ'.remaining < σ.remaining :=
  Prod.Lex.toLex_lt_toLex.mpr (.inr ⟨hstage, h⟩)

theorem sendPacket_of_closed {s socket : Socket} {packet : Packet Buffer}
    {datagram : Option (List UInt8)} (hclosed : s.isValid = false)
    (h : sendPacket w s packet = .ok (datagram, socket)) : datagram = none ∧ socket = s := by
  cases hwrite : (Buffer.writePacket packet).run {} with
  | error f =>
      simp only [sendPacket, hwrite] at h
      cases h
  | ok r =>
      simp only [sendPacket, hwrite, Fault.ok_bind, hclosed] at h
      obtain ⟨rfl, rfl⟩ := Prod.mk.inj (Except.ok.inj h)
      exact ⟨rfl, rfl⟩

/-- What a call of `recvfrom` comes back with from an open socket. -/
def returns : Event → Bool
  | .arrive _ _ => true
  | .recvFailed => true
  | _ => false

theorem Step.valid_of_returns (h : Step build w σ e σ') (hreturns : returns e = true) :
    σ.socket.isValid = true := by
  cases h <;> first | assumption | cases hreturns

theorem Step.closed (h : Step build w σ e σ') (hclosed : σ.socket.isValid = false) :
    σ'.socket.isValid = false := by
  cases h with
  | arrive _ _ _ _ _ _ hvalid | arriveFailed _ _ _ _ _ hvalid | arriveFault _ _ _ _ _ hvalid
    | recvFailed _ _ hvalid => cases hclosed.symm.trans hvalid
  | receivedFault =>
      unfold fault
      split <;> exact hclosed
  | drain _ _ _ _ _ _ _ _ _ _ hsend =>
      obtain ⟨-, rfl⟩ := sendPacket_of_closed hclosed hsend
      exact hclosed
  | _ => exact hclosed

/-- The server with the places of its threads. -/
structure Threads where
  server : Server
  place : Place := .loop
  /-- `SendThread` has left its loop. -/
  sendThreadLeft : Bool := false

namespace Threads

inductive Event where
  | server (e : GioNet.Event)
  /-- `ListenThread` calls `recvfrom`. -/
  | receiveFrom
  /-- `recvfrom` comes back from a socket that has been closed. -/
  | wake
  /-- A thread leaves its loop. -/
  | leave

inductive Step (build : Build) (w : Winsock) (θ : Threads) : Event → Threads → Prop
  | server (e : GioNet.Event) (σ : Server) (hreturns : returns e = false)
      (hsending : σ.connectedPeers ≠ θ.server.connectedPeers → θ.sendThreadLeft = false)
      (hstep : Server.Step build w θ.server e σ) :
      Step build w θ (.server e) { θ with server := σ }
  | returned (e : GioNet.Event) (σ : Server) (hreturns : returns e = true)
      (hplace : θ.place = .receiveFrom) (hstep : Server.Step build w θ.server e σ) :
      Step build w θ (.server e) { θ with server := σ, place := .loop }
  | receiveFrom (hrun : θ.server.aborted = false) (hlistening : θ.server.listening = .receiving)
      (hplace : θ.place = .loop) (hvalid : θ.server.socket.isValid = true) :
      Step build w θ .receiveFrom { θ with place := .receiveFrom }
  -- there is nothing left for `Close`, and nothing has been received
  | wake (hrun : θ.server.aborted = false) (hplace : θ.place = .receiveFrom)
      (hclosed : θ.server.socket.isValid = false) :
      Step build w θ .wake { θ with place := .loop }
  | leaveListen (hrun : θ.server.aborted = false) (hlistening : θ.server.listening = .receiving)
      (hplace : θ.place = .loop) (hclosed : θ.server.socket.isValid = false) :
      Step build w θ .leave { θ with place := .left }
  | leaveSend (hrun : θ.server.aborted = false) (hpeers : θ.server.connectedPeers = [])
      (hleft : θ.sendThreadLeft = false) (hclosed : θ.server.socket.isValid = false) :
      Step build w θ .leave { θ with sendThreadLeft := true }

def Event.IsThread : Event → Prop
  | .server e => e.IsThread
  | _ => True

structure ThreadStep (build : Build) (w : Winsock) (θ : Threads) (e : Event) (θ' : Threads) :
    Prop where
  step : Step build w θ e θ'
  thread : e.IsThread

def Final (build : Build) (w : Winsock) (θ : Threads) : Prop :=
  ∀ e θ', ¬ ThreadStep build w θ e θ'

variable {θ θ' : Threads} {e : Event} {labels : List Event}

/-- `SendThread` leaves its loop when it has no peers left and the socket is closed. -/
def Consistent (θ : Threads) : Prop :=
  θ.sendThreadLeft = true → θ.server.connectedPeers = [] ∧ θ.server.socket.isValid = false

theorem Consistent.step (h : θ.Consistent) (hstep : Step build w θ e θ') : θ'.Consistent := by
  cases hstep with
  | server e σ hreturns hsending hstep =>
      intro hleft
      obtain ⟨hpeers, hclosed⟩ := h hleft
      refine ⟨?_, hstep.closed hclosed⟩
      by_contra hne
      have hstay := hsending fun heq ↦ hne (heq.trans hpeers)
      cases hleft.symm.trans hstay
  | returned e σ hreturns hplace hstep =>
      intro hleft
      obtain ⟨hpeers, hclosed⟩ := h hleft
      exact absurd (hstep.valid_of_returns hreturns) (by simp [hclosed])
  | receiveFrom | wake | leaveListen => exact h
  | leaveSend hrun hpeers hleft hclosed => exact fun _ ↦ ⟨hpeers, hclosed⟩

/-- What the server still has to do and what its threads have to do to leave. -/
def remaining (θ : Threads) : ℕ ×ₗ ℕ :=
  toLex (θ.server.listening.stage + θ.server.calls,
    θ.server.duties + θ.place.rest + (!θ.sendThreadLeft).toNat)

end Threads

end Server

end GioNet
