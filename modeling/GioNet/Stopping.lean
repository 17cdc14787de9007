import GioNet.ClientThreads
import Mathlib.Data.Prod.Lex

/-!
# `Stop` of the client

`Stop` frees the address of the server before it closes the socket, and
`SendThread` does not look at either in its inner loop. Whatever the threads do,
nothing is sent once the address has been freed and they come to an end once the
handle is invalid. But the end may be an assertion, a null pointer or freed memory:
that happens exactly if `SendThread` has something to send, or may be given
something by what still arrives.
-/

namespace GioNet

open LabelledRun (Run Ends)

namespace Client

def Listening.stage : Listening → ℕ
  | .found _ => 1
  | _ => 0

def Listening.loops : Listening → ℕ
  | .processing => 1
  | _ => 0

/-- The steps until the end of `Stop`. -/
def Stopping.rest : Stopping → ℕ
  | .notCalled => 5
  | .freed => 4
  | .cleared => 3
  | .closed => 2
  | .invalidated => 1
  | .returned => 0

/-- What the threads still have to do inside of their loops when nothing is in hand. -/
def duties (κ : Client) : ℕ :=
  κ.connectionToServer.incoming.readyPackets.length + κ.listening.loops + κ.sending.toNat +
    (!κ.aborted).toNat

/-- With the handle invalid, a local step comes closer to the end. What is in hand may make
any number of packets ready. -/
theorem Step.of_invalid {build : Build} {w : Winsock} {κ κ' : Client} {e : Event}
    (hclosed : κ.socket.isValid = false) (hlocal : e.IsLocal)
    (hsend : ∀ message, e ≠ .send message) (hstep : Step build w κ e κ') :
    κ'.socket.isValid = false ∧ (κ'.listening.stage < κ.listening.stage ∨
      (κ'.listening.stage = κ.listening.stage ∧ κ'.duties < κ.duties)) := by
  cases hstep with
  | arrive | arriveFailed | arriveFault | recvFailed | stop | drain | drainFault | drainClosed =>
      exact hlocal.elim
  | beginSending hrun hsending hloop => cases hclosed.symm.trans hloop.1
  | send message => exact absurd rfl (hsend message)
  | received received packet rest c hrun hlistening hread hreceived =>
      exact ⟨hclosed, .inl (by simp [Listening.stage, hlistening])⟩
  | receivedFault received packet rest f hrun hlistening hread hreceived =>
      unfold fault
      split
      · exact ⟨hclosed, .inl (by simp [Listening.stage, hlistening])⟩
      · exact ⟨hclosed, .inr ⟨rfl, by simp [duties, hrun]⟩⟩
  | undecodable received f hrun hlistening hread =>
      exact ⟨hclosed, .inr ⟨rfl, by simp [duties, hrun]⟩⟩
  | deliver packet c hrun hlistening hpop =>
      obtain ⟨packets, hready, rfl⟩ := Connection.popReadyIncomingPacket_eq_some_iff.mp hpop
      exact ⟨hclosed, .inr ⟨rfl, by simp [duties, hready]⟩⟩
  | endReceived hrun hlistening hpop =>
      refine ⟨hclosed, .inr ⟨by simp [Listening.stage, hlistening], ?_⟩⟩
      simp [duties, Listening.loops, hlistening]
  | endSending hrun hsending hpop => exact ⟨hclosed, .inr ⟨rfl, by simp [duties, hsending]⟩⟩

namespace Threads

variable {build : Build} {w : Winsock} {serverAddress : NetAddress} {θ θ' : Threads}
  {κ κ₀ : Client} {e : Event} {labels : List Event}

/-- No call of `Send`. -/
def Event.IsThread : Event → Prop
  | .client (.send _) => False
  | _ => True

/-- A step of `Stop` or of a thread, or a well-formed datagram that arrives. -/
structure ThreadStep (build : Build) (w : Winsock) (serverAddress : NetAddress) (θ : Threads)
    (e : Event) (θ' : Threads) : Prop where
  step : Step build w θ e θ'
  allowed : e.Allowed serverAddress
  thread : e.IsThread

/-! ## After the address has been freed -/

/-- Nothing is sent any more. -/
theorem Step.silent (h : Step build w θ e θ') (hstop : θ.stopping ≠ .notCalled) :
    θ'.stopping ≠ .notCalled ∧ θ'.client.sent = θ.client.sent := by
  refine ⟨fun hback ↦ hstop (h.notCalled hback), ?_⟩
  cases h with
  | client e κ hlocal hsending hstep =>
      have hdrain : e ≠ .drain := by
        rintro rfl
        exact hlocal
      exact (hstep.withSent hdrain []).2
  | arrive addr datagram κ hplace hopen hfits hstep => exact (hstep.withSent nofun []).2
  | wake => exact (receiveFailed_withSent { θ.client with socket := θ.client.socket.close } []).2
  | sendTo packet datagram hrun hpopped haddress => exact absurd haddress hstop
  | _ => rfl

theorem silent_of_run (hstop : θ.stopping ≠ .notCalled)
    (hrun : Run (ThreadStep build w serverAddress) θ labels θ') :
    θ'.client.sent = θ.client.sent := by
  have hboth := hrun.invariant
    (fun τ ↦ τ.stopping ≠ .notCalled ∧ τ.client.sent = θ.client.sent) ⟨hstop, rfl⟩
    fun t _ _ h hstep ↦ ⟨(hstep.step.silent h.1).1, (hstep.step.silent h.1).2.trans h.2⟩
  exact hboth.2

/-! ## After the handle has become invalid -/

/-- What the threads and `Stop` still have to do when nothing is in hand. -/
def duties (θ : Threads) : ℕ :=
  θ.client.duties + θ.place.rest + θ.popped.isNone.toNat + (!θ.sendThreadLeft).toNat +
    θ.stopping.rest

def remaining (θ : Threads) : ℕ ×ₗ ℕ := toLex (θ.client.listening.stage, θ.duties)

theorem remaining_lt_of_stage (h : θ'.client.listening.stage < θ.client.listening.stage) :
    θ'.remaining < θ.remaining :=
  Prod.Lex.left _ _ h

theorem remaining_lt_of_duties (hstage : θ'.client.listening.stage = θ.client.listening.stage)
    (h : θ'.duties < θ.duties) : θ'.remaining < θ.remaining :=
  Prod.Lex.toLex_lt_toLex.mpr (.inr ⟨hstage, h⟩)

/-- With the handle invalid, every step comes closer to the end. -/
theorem ThreadStep.of_invalid (hclosed : θ.client.socket.isValid = false)
    (hstep : ThreadStep build w serverAddress θ e θ') :
    θ'.client.socket.isValid = false ∧ θ'.remaining < θ.remaining := by
  obtain ⟨hstep, -, hthread⟩ := hstep
  have hdeaf : ¬ θ.client.Listens := fun hloop ↦ by cases hclosed.symm.trans hloop.1
  cases hstep with
  | client e κ hlocal hsending hstep =>
      have hsend : ∀ message, e ≠ .send message := by
        rintro message rfl
        exact hthread
      obtain ⟨hclosed', hless⟩ := hstep.of_invalid hclosed hlocal hsend
      rcases hless with hstage | ⟨hstage, hduties⟩
      · exact ⟨hclosed', remaining_lt_of_stage hstage⟩
      · refine ⟨hclosed', remaining_lt_of_duties hstage ?_⟩
        simpa [duties] using hduties
  | receiveFrom hrun hlistening hplace hloop => exact absurd hloop hdeaf
  | arrive addr datagram κ hplace hopen hfits hstep =>
      cases hstep with
      | arrive _ _ _ _ _ _ hloop | arriveFailed _ _ _ _ _ hloop
        | arriveFault _ _ _ _ _ hloop => exact absurd hloop hdeaf
  | wake hrun hplace hopen =>
      obtain ⟨requested, hfailed⟩ := exists_receiveFailed θ.client
      rw [hfailed]
      exact ⟨rfl, remaining_lt_of_duties rfl (by simp [duties, Client.duties, hplace, Place.rest])⟩
  | leaveListen hrun hlistening hplace hloop =>
      exact ⟨hclosed, remaining_lt_of_duties rfl (by simp [duties, hplace, Place.rest])⟩
  | pop packet c hrun hsending hpopped hlock hpop =>
      obtain ⟨_, _, _, rfl, -⟩ := Connection.popReadyOutgoingPacket_eq_some_iff.mp hpop
      exact ⟨hclosed, remaining_lt_of_duties rfl (by simp [duties, Client.duties, hpopped])⟩
  | sendTo packet datagram hrun hpopped haddress hsend =>
      obtain ⟨hnone, -⟩ := Server.sendPacket_of_closed hclosed hsend
      cases hnone
  | sendToFreed packet hrun hpopped haddress =>
      exact ⟨hclosed, remaining_lt_of_duties rfl (by simp [duties, Client.duties, hrun])⟩
  | leaveSend hrun hsending hleft hloop =>
      exact ⟨hclosed, remaining_lt_of_duties rfl (by simp [duties, hleft])⟩
  | stopClosed hrun hstop hvalid | clear hrun hstop | close hrun hstop
    | requestStop hrun hstop =>
      refine ⟨hclosed, remaining_lt_of_duties rfl ?_⟩
      simp [duties, Client.duties, hstop, Stopping.rest]
  | free hrun hstop hvalid => cases hclosed.symm.trans hvalid
  | invalidate hrun hstop =>
      refine ⟨rfl, remaining_lt_of_duties rfl ?_⟩
      simp [duties, Client.duties, hstop, Stopping.rest]

theorem ends_of_invalid (build : Build) (w : Winsock) (serverAddress : NetAddress)
    (hclosed : θ.client.socket.isValid = false) : Ends (ThreadStep build w serverAddress) θ :=
  LabelledRun.ends_of_decreases (fun θ : Threads ↦ θ.client.socket.isValid = false) remaining
    hclosed fun _ _ _ hclosed hstep ↦ hstep.of_invalid hclosed

/-! ## How the threads come to an end -/

/-- Nothing more can happen. -/
def Final (build : Build) (w : Winsock) (serverAddress : NetAddress) (θ : Threads) : Prop :=
  ∀ e θ', ¬ ThreadStep build w serverAddress θ e θ'

/-- `Stop` has come back, both threads have left their loops, and all that was ready has
been handed over. -/
structure Quit (θ : Threads) : Prop where
  running : θ.client.aborted = false
  stopped : θ.stopping = .returned
  listenThread : θ.place = .left
  sendThread : θ.sendThreadLeft = true
  popped : θ.popped = none
  handed : θ.client.connectionToServer.incoming.readyPackets = []

/-- Of the local steps, only `Send` has a message that may be long. -/
theorem Event.allowed_client (e : Client.Event) (hlocal : e.IsLocal)
    (hsend : ∀ message, e ≠ .send message) (serverAddress : NetAddress) :
    (Event.client e).Allowed serverAddress := by
  intro e' hfused
  obtain rfl := Option.some.inj hfused
  refine ⟨?_, fun message heq ↦ absurd heq (hsend message)⟩
  cases e with
  | arrive => exact hlocal.elim
  | _ => exact nofun

theorem Event.allowed_pop (serverAddress : NetAddress) : Event.pop.Allowed serverAddress := by
  intro e hfused
  obtain rfl := Option.some.inj hfused
  exact ⟨nofun, nofun⟩

/-- A step that the client makes alone. -/
theorem ThreadStep.alone (hstep : Step build w θ e θ') (hnone : e.fused = none)
    (serverAddress : NetAddress) : ThreadStep build w serverAddress θ e θ' := by
  refine ⟨hstep, fun e' hfused ↦ ?_, ?_⟩
  · cases hnone.symm.trans hfused
  · cases e with
    | client e => cases hnone
    | _ => trivial

/-- A step that does not concern `SendThread`. -/
theorem ThreadStep.client (e : Client.Event) (hlocal : e.IsLocal)
    (hsend : ∀ message, e ≠ .send message) (hstep : Client.Step build w θ.client e κ)
    (hsending : κ.sending = θ.client.sending) (serverAddress : NetAddress) :
    ThreadStep build w serverAddress θ (.client e) { θ with client := κ } := by
  refine ⟨.client e κ hlocal (fun hne ↦ absurd hsending hne) hstep,
    Event.allowed_client e hlocal hsend serverAddress, ?_⟩
  cases e with
  | send message => exact absurd rfl (hsend message)
  | _ => trivial

theorem Intact.returned_of_final (h : θ.Intact serverAddress)
    (hfinal : θ.Final build w serverAddress) : θ.stopping = .returned := by
  have hrun := h.orderly.running
  cases hstop : θ.stopping with
  | notCalled =>
      have hlistens := h.listens (by rw [handleOpen, hstop])
      exact absurd (.alone (.free hrun hstop hlistens.1) rfl _) (hfinal _ _)
  | freed => exact absurd (.alone (.clear hrun hstop) rfl _) (hfinal _ _)
  | cleared => exact absurd (.alone (.close hrun hstop) rfl _) (hfinal _ _)
  | closed => exact absurd (.alone (.invalidate hrun hstop) rfl _) (hfinal _ _)
  | invalidated => exact absurd (.alone (.requestStop hrun hstop) rfl _) (hfinal _ _)
  | returned => rfl

/-- `ListenThread` has nothing in hand and nothing to hand over. -/
theorem Intact.receiving_of_final (h : θ.Intact serverAddress)
    (hfinal : θ.Final build w serverAddress) : θ.client.listening = .receiving := by
  have hrun := h.orderly.running
  cases hlistening : θ.client.listening with
  | receiving => rfl
  | found received =>
      obtain ⟨rest, c, hread, hc⟩ := h.orderly.exists_received hlistening build
      exact absurd (.client (.received _) trivial (by simp)
        (.received received _ rest c hrun hlistening hread hc) rfl _) (hfinal _ _)
  | processing =>
      cases hpop : θ.client.connectionToServer.popReadyIncomingPacket with
      | none =>
          exact absurd (.client .next trivial (by simp) (.endReceived hrun hlistening hpop) rfl _)
            (hfinal _ _)
      | some pair =>
          exact absurd (.client .deliver trivial (by simp)
            (.deliver pair.1 pair.2 hrun hlistening hpop) rfl _) (hfinal _ _)
  | stuck => exact absurd hlistening h.orderly.free

theorem Intact.popped_of_final (h : θ.Intact serverAddress)
    (hfinal : θ.Final build w serverAddress) : θ.popped = none := by
  cases hpopped : θ.popped with
  | none => rfl
  | some packet =>
      have haddress : θ.stopping ≠ .notCalled := by simp [h.returned_of_final hfinal]
      exact absurd (.alone (.sendToFreed packet h.orderly.running hpopped haddress) rfl _)
        (hfinal _ _)

/-- `SendThread` is out of its inner loop. -/
theorem Intact.sending_of_final (h : θ.Intact serverAddress)
    (hfinal : θ.Final build w serverAddress) : θ.client.sending = false := by
  have hrun := h.orderly.running
  have hpopped := h.popped_of_final hfinal
  cases hsending : θ.client.sending with
  | false => rfl
  | true =>
      have hstay : θ.sendThreadLeft = false := by
        by_contra hleft
        cases hsending.symm.trans (h.sendLeft (by simpa using hleft)).1
      cases hpop : θ.client.connectionToServer.popReadyOutgoingPacket with
      | none =>
          have hnext : ThreadStep build w serverAddress θ (.client .next) _ :=
            ⟨.client .next _ trivial (fun _ ↦ ⟨hpopped, hstay⟩) (.endSending hrun hsending hpop),
              Event.allowed_client .next trivial (by simp) _, trivial⟩
          exact absurd hnext (hfinal _ _)
      | some pair =>
          have hpopstep : ThreadStep build w serverAddress θ .pop _ :=
            ⟨.pop pair.1 pair.2 hrun hsending hpopped h.orderly.free hpop, Event.allowed_pop _,
              trivial⟩
          exact absurd hpopstep (hfinal _ _)

/-- A thread that has something to do can do it, or leaves its loop. -/
theorem Intact.quit_of_final (h : θ.Intact serverAddress)
    (hfinal : θ.Final build w serverAddress) : θ.Quit := by
  have hrun := h.orderly.running
  have hstopped := h.returned_of_final hfinal
  have hlistening := h.receiving_of_final hfinal
  have hdeaf : ¬ θ.client.Listens := fun hloop ↦ by
    cases (h.invalid (.inr hstopped)).symm.trans hloop.1
  refine ⟨hrun, hstopped, ?_, ?_, h.popped_of_final hfinal, h.orderly.ready (by simp [hlistening])⟩
  · cases hplace : θ.place with
    | left => rfl
    | loop =>
        exact absurd (.alone (.leaveListen hrun hlistening hplace hdeaf) rfl _) (hfinal _ _)
    | receiveFrom =>
        have hopen : θ.handleOpen = false := by rw [handleOpen, hstopped]
        exact absurd (.alone (.wake hrun hplace hopen) rfl _) (hfinal _ _)
  · cases hleft : θ.sendThreadLeft with
    | true => rfl
    | false =>
        have hsending := h.sending_of_final hfinal
        exact absurd (.alone (.leaveSend hrun hsending hleft hdeaf) rfl _) (hfinal _ _)

/-! ## When `SendThread` has nothing to send -/

/-- What the connection is when what is in hand has been received. -/
def Settles (build : Build) (κ : Client) (c : Connection Buffer) : Prop :=
  match κ.listening with
  | .found received => κ.connectionToServer.received build (packetOf received.payload) = .ok c
  | _ => c = κ.connectionToServer

/-- `SendThread` has nothing to send, and there is nothing that an ack could make it send
again. -/
structure Quiet (build : Build) (θ : Threads) : Prop where
  popped : θ.popped = none
  queued : θ.client.connectionToServer.outgoing.readyPackets = []
  settled : ∀ c, Settles build θ.client c →
    c.outgoing.readyPackets = [] ∧ ∀ id, c.outgoing.reliablePackets.find id = none

theorem Quiet.congr (h : θ.Quiet build) (hpopped : θ'.popped = θ.popped)
    (hconnection : θ'.client.connectionToServer.outgoing = θ.client.connectionToServer.outgoing)
    (hsettles : ∀ c, Settles build θ'.client c → ∃ c', Settles build θ.client c' ∧
      c.outgoing = c'.outgoing) : θ'.Quiet build := by
  refine ⟨hpopped.trans h.popped, hconnection ▸ h.queued, fun c hc ↦ ?_⟩
  obtain ⟨c', hc', hout⟩ := hsettles c hc
  rw [hout]
  exact h.settled c' hc'

/-- A connection with nothing stored sends nothing again. -/
theorem received_of_nothing {c c' : Connection Buffer} {p : Packet Buffer}
    (hqueued : c.outgoing.readyPackets = [])
    (hstored : ∀ id, c.outgoing.reliablePackets.find id = none)
    (hreceived : c.received build p = .ok c') :
    c'.outgoing.readyPackets = [] ∧ ∀ id, c'.outgoing.reliablePackets.find id = none := by
  refine ⟨?_, fun id ↦ ?_⟩
  · rw [Connection.received_outgoing hreceived, Connection.processAcks_readyPackets, hqueued,
      List.nil_append, List.eq_nil_iff_forall_not_mem]
    intro q hq
    obtain ⟨i, -, -, hfind⟩ := Connection.mem_rescheduled.mp hq
    cases (hstored _).symm.trans hfind
  · by_contra hne
    obtain ⟨q, hq⟩ := Option.ne_none_iff_exists'.mp hne
    rw [Connection.received_outgoing hreceived] at hq
    cases (hstored id).symm.trans (Connection.processAcks_find_some hq).2

theorem Quiet.step (h : θ.Quiet build) (hintact : θ.Intact serverAddress) (hw : w.Documented)
    (hstep : ThreadStep build w serverAddress θ e θ') : θ'.Quiet build := by
  obtain ⟨hstep, hallowed, hthread⟩ := hstep
  cases hstep with
  | client e κ hlocal hsending hstep =>
      cases hstep with
      | arrive | arriveFailed | arriveFault | recvFailed | stop | drain | drainFault
        | drainClosed => exact hlocal.elim
      | send => exact hthread.elim
      | received received packet rest c hrun hlistening hread hreceived =>
          obtain ⟨rest', c', hread', hc'⟩ := hintact.orderly.exists_received hlistening build
          obtain ⟨rfl, -⟩ := Prod.mk.inj (Except.ok.inj (hread.symm.trans hread'))
          have hsettles : Settles build θ.client c := by
            rw [Settles, hlistening]
            exact hreceived
          obtain ⟨hqueued, hstored⟩ := h.settled c hsettles
          refine ⟨h.popped, hqueued, ?_⟩
          rintro c rfl
          exact ⟨hqueued, hstored⟩
      | receivedFault received packet rest f hrun hlistening hread hreceived =>
          obtain ⟨rest', c', hread', hc'⟩ := hintact.orderly.exists_received hlistening build
          obtain ⟨rfl, -⟩ := Prod.mk.inj (Except.ok.inj (hread.symm.trans hread'))
          cases hc'.symm.trans hreceived
      | undecodable received f hrun hlistening hread =>
          obtain ⟨rest', c', hread', -⟩ := hintact.orderly.exists_received hlistening build
          cases hread'.symm.trans hread
      | deliver packet c hrun hlistening hpop =>
          obtain ⟨packets, hready, rfl⟩ := Connection.popReadyIncomingPacket_eq_some_iff.mp hpop
          refine h.congr rfl rfl fun c hc ↦ ⟨θ.client.connectionToServer, ?_, ?_⟩
          · rw [Settles, hlistening]
          · rw [Settles, hlistening] at hc
            rw [hc]
      | endReceived hrun hlistening hpop =>
          refine h.congr rfl rfl fun c hc ↦ ⟨c, ?_, rfl⟩
          rw [Settles, hlistening]
          exact hc
      | beginSending | endSending => exact h.congr rfl rfl fun c hc ↦ ⟨c, hc, rfl⟩
  | arrive addr datagram κ hplace hopen hfits hstep =>
      have hlistening := hintact.receiving (by simp [hplace])
      obtain ⟨-, hκ⟩ := hintact.orderly.arrive hw (hallowed _ rfl) hfits hstep
      rcases hκ with rfl | rfl
      · exact h.congr rfl rfl fun c hc ↦ ⟨c, hc, rfl⟩
      · have hsettles : Settles build θ.client θ.client.connectionToServer := by
          rw [Settles, hlistening]
        obtain ⟨hqueued, hstored⟩ := h.settled _ hsettles
        exact ⟨h.popped, h.queued, fun c hc ↦ received_of_nothing hqueued hstored hc⟩
  | wake hrun hplace hclosed =>
      obtain ⟨requested, hfailed⟩ := exists_receiveFailed θ.client
      rw [hfailed]
      exact h.congr rfl rfl fun c hc ↦ ⟨c, hc, rfl⟩
  | pop packet c hrun hsending hpopped hlock hpop =>
      obtain ⟨q, rest, hready, -⟩ := Connection.popReadyOutgoingPacket_eq_some_iff.mp hpop
      cases h.queued.symm.trans hready
  | sendTo packet datagram hrun hpopped | sendToFreed packet hrun hpopped =>
      cases h.popped.symm.trans hpopped
  | _ => exact h.congr rfl rfl fun c hc ↦ ⟨c, hc, rfl⟩

/-- No interleaving of the threads and `Stop` comes to an assertion, a null pointer or to
what has been freed. -/
def StopsCleanly (build : Build) (w : Winsock) (serverAddress : NetAddress) (θ : Threads) : Prop :=
  ∀ labels θ', Run (ThreadStep build w serverAddress) θ labels θ' → θ'.client.aborted = false

theorem Quiet.stopsCleanly (h : θ.Quiet build) (hintact : θ.Intact serverAddress)
    (hw : w.Documented) : θ.StopsCleanly build w serverAddress := by
  intro labels θ' hrun
  have hboth := hrun.invariant (fun τ ↦ τ.Intact serverAddress ∧ τ.Quiet build) ⟨hintact, h⟩ ?_
  · exact hboth.1.orderly.running
  · rintro t e u ⟨hintact, hquiet⟩ hstep
    refine ⟨?_, hquiet.step hintact hw hstep⟩
    rcases hintact.step hw hstep.allowed hstep.step with ⟨hpopped, -⟩ | hintact'
    · exact absurd hquiet.popped hpopped
    · exact hintact'

/-- `Stop` has not been called and may be called safely. -/
structure Safe (build : Build) (w : Winsock) (serverAddress : NetAddress) (θ : Threads) : Prop where
  intact : θ.Intact serverAddress
  notCalled : θ.stopping = .notCalled
  cleanly : θ.StopsCleanly build w serverAddress

namespace Safe

theorem step (h : θ.Safe build w serverAddress) (hw : w.Documented)
    (hstep : ThreadStep build w serverAddress θ e θ') (hstop : θ'.stopping = .notCalled) :
    θ'.Safe build w serverAddress := by
  refine ⟨?_, hstop, fun labels _ hrun ↦
    h.cleanly ([e] ++ labels) _ ((Run.single hstep).append hrun)⟩
  rcases h.intact.step hw hstep.allowed hstep.step with ⟨-, -, haborted⟩ | hintact
  · cases haborted.symm.trans (h.cleanly _ _ (.single hstep))
  · exact hintact

theorem listens (h : θ.Safe build w serverAddress) : θ.client.Listens :=
  h.intact.listens (by rw [handleOpen, h.notCalled])

/-- Otherwise `Stop` frees the address before `SendThread` reads it. -/
theorem popped_eq_none (h : θ.Safe build w serverAddress) : θ.popped = none := by
  by_contra hne
  obtain ⟨packet, hpopped⟩ := Option.ne_none_iff_exists'.mp hne
  have hrun := h.intact.orderly.running
  have hfree : ThreadStep build w serverAddress θ .stop _ :=
    .alone (.free hrun h.notCalled h.listens.1) rfl _
  have hread : ThreadStep build w serverAddress { θ with stopping := .freed } .sendTo _ :=
    .alone (.sendToFreed (θ := { θ with stopping := .freed }) packet hrun hpopped (by simp)) rfl _
  cases h.cleanly _ _ ((Run.single hfree).snoc hread)

/-- `SendThread` goes into its inner loop. -/
theorem exists_sending (h : θ.Safe build w serverAddress) (hw : w.Documented) :
    ∃ θ' : Threads, θ'.Safe build w serverAddress ∧ θ'.client.sending = true ∧
      θ'.client.connectionToServer = θ.client.connectionToServer := by
  cases hsending : θ.client.sending with
  | true => exact ⟨θ, h, hsending, rfl⟩
  | false =>
      have hstay : θ.sendThreadLeft = false := by
        by_contra hleft
        exact (h.intact.sendLeft (by simpa using hleft)).2 h.listens
      have hstep : ThreadStep build w serverAddress θ (.client .next) _ :=
        ⟨.client .next _ trivial (fun _ ↦ ⟨h.popped_eq_none, hstay⟩)
          (.beginSending h.intact.orderly.running hsending h.listens),
          Event.allowed_client .next trivial (by simp) _, trivial⟩
      exact ⟨_, h.step hw hstep h.notCalled, rfl, rfl⟩

/-- Otherwise `SendThread` pops a packet. -/
theorem queued_eq_nil (h : θ.Safe build w serverAddress) (hw : w.Documented) :
    θ.client.connectionToServer.outgoing.readyPackets = [] := by
  obtain ⟨θ', h', hsending, hsame⟩ := h.exists_sending hw
  rw [← hsame]
  by_contra hne
  obtain ⟨q, rest, hready⟩ := List.exists_cons_of_ne_nil hne
  have hpop := Connection.popReadyOutgoingPacket_eq_some_iff.mpr ⟨q, rest, hready, rfl, rfl⟩
  have hstep : ThreadStep build w serverAddress θ' .pop _ :=
    ⟨.pop _ _ h'.intact.orderly.running hsending h'.popped_eq_none h'.intact.orderly.free hpop,
      Event.allowed_pop _, trivial⟩
  cases (h'.step hw hstep h'.notCalled).popped_eq_none

/-- `ListenThread` receives what is in hand. -/
theorem exists_received (h : θ.Safe build w serverAddress) (hw : w.Documented) {received : Buffer}
    (hlistening : θ.client.listening = .found received) :
    ∃ θ' : Threads, θ'.Safe build w serverAddress ∧ θ'.client.listening = .processing ∧
      θ.client.connectionToServer.received build (packetOf received.payload) =
        .ok θ'.client.connectionToServer := by
  obtain ⟨rest, c, hread, hc⟩ := h.intact.orderly.exists_received hlistening build
  have hstep : ThreadStep build w serverAddress θ _ _ :=
    .client (.received _) trivial (by simp)
      (.received received _ rest c h.intact.orderly.running hlistening hread hc) rfl _
  exact ⟨_, h.step hw hstep h.notCalled, rfl, hc⟩

/-- `ListenThread` hands over what is ready. -/
theorem exists_processed (h : θ.Safe build w serverAddress) (hw : w.Documented)
    (hlistening : θ.client.listening = .processing) :
    ∃ θ' : Threads, θ'.Safe build w serverAddress ∧ θ'.client.listening = .receiving ∧
      θ'.client.connectionToServer.outgoing = θ.client.connectionToServer.outgoing := by
  have hrun := h.intact.orderly.running
  induction hready : θ.client.connectionToServer.incoming.readyPackets generalizing θ with
  | nil =>
      have hpop := Connection.popReadyIncomingPacket_eq_none_iff.mpr hready
      have hstep : ThreadStep build w serverAddress θ _ _ :=
        .client .next trivial (by simp) (.endReceived hrun hlistening hpop) rfl _
      exact ⟨_, h.step hw hstep h.notCalled, rfl, rfl⟩
  | cons packet rest ih =>
      have hpop := Connection.popReadyIncomingPacket_eq_some_iff.mpr ⟨rest, hready, rfl⟩
      have hstep : ThreadStep build w serverAddress θ _ _ :=
        .client .deliver trivial (by simp) (.deliver packet _ hrun hlistening hpop) rfl _
      have hrest := ih (h.step hw hstep h.notCalled) hlistening hrun rfl
      exact hrest

/-- `ListenThread` calls `recvfrom`. -/
theorem exists_receiving (h : θ.Safe build w serverAddress) (hw : w.Documented)
    (hlistening : θ.client.listening = .receiving) :
    ∃ θ' : Threads, θ'.Safe build w serverAddress ∧ θ'.place = .receiveFrom ∧
      θ'.client = θ.client := by
  cases hplace : θ.place with
  | receiveFrom => exact ⟨θ, h, hplace, rfl⟩
  | left => exact absurd h.listens (h.intact.listenLeft hplace)
  | loop =>
      have hstep : ThreadStep build w serverAddress θ .receiveFrom _ :=
        .alone (.receiveFrom h.intact.orderly.running hlistening hplace h.listens) rfl _
      exact ⟨_, h.step hw hstep h.notCalled, rfl, rfl⟩

/-- The header that says that the packet with this id has not come. -/
def nack (id : IdType) : Packet Buffer := { pingPacket with ackId := id + 1 }

theorem nack_wire (id : IdType) : WellFormed (nack id).wire ∧ (nack id).wire.length ≤ bufferMax ∧
    packetOf (nack id).wire = nack id := by
  have hlength : (nack id).wire.length = 13 := (nack id).wire_length
  have hsmall : (nack id).payload.payload.length < 2 ^ 30 := Nat.two_pow_pos 30
  have hunreliable : (nack id).isReliable = false := show pingPacket.isReliable = false by decide
  refine ⟨wellFormed_wire hsmall fun hrel ↦ ?_, ?_, (frame_of_wire hsmall).2⟩
  · cases hunreliable.symm.trans hrel
  · rw [hlength, bufferMax]
    omega

theorem mem_rescheduled_nack {c : Connection Buffer} {id : IdType} {q : Packet Buffer}
    (hfind : c.outgoing.reliablePackets.find id = some q) :
    q ∈ c.rescheduled (nack id) sizeofAckBitset := by
  have hid : (nack id).ackWindowId 0 = id := by
    rw [Packet.ackWindowId, nack]
    grind
  have hbit : (nack id).ackBit 0 = false := show pingPacket.ackBit 0 = false by decide
  exact Connection.mem_rescheduled.mpr ⟨0, by decide, hbit, hid.symm ▸ hfind⟩

/-- Otherwise an ack makes `SendThread` send a packet again. -/
theorem stored_eq_none (h : θ.Safe build w serverAddress) (hw : w.Documented)
    (hlistening : θ.client.listening = .receiving) (id : IdType) :
    θ.client.connectionToServer.outgoing.reliablePackets.find id = none := by
  obtain ⟨θ₁, h₁, hplace, hsame⟩ := h.exists_receiving hw hlistening
  rw [← hsame] at hlistening ⊢
  by_contra hne
  obtain ⟨q, hfind⟩ := Option.ne_none_iff_exists'.mp hne
  obtain ⟨hformed, hfits, hpacket⟩ := nack_wire id
  have hreceive := Socket.receiveFrom_of_le hw build θ₁.client.socket hfits
  have htake : Client.take { θ₁.client with socket := θ₁.client.socket } serverAddress
      ⟨(nack id).wire⟩ = { θ₁.client with listening := .found ⟨(nack id).wire⟩ } := by
    rw [Client.take, if_pos (by rw [h₁.intact.orderly.server, NetAddress.eq_self])]
  have harrive := Client.Step.arrive serverAddress (nack id).wire _ _ h₁.intact.orderly.running
    hlistening h₁.listens hreceive
  rw [htake] at harrive
  have hopen : θ₁.handleOpen = true := by rw [handleOpen, h₁.notCalled]
  have hallowed : (Event.arrive serverAddress (nack id).wire).Allowed serverAddress := by
    intro e hfused
    obtain rfl := Option.some.inj hfused
    refine ⟨fun datagram hfrom ↦ ?_, by simp⟩
    rw [Client.Event.fromServer, if_pos (NetAddress.eq_self serverAddress)] at hfrom
    exact Option.some.inj hfrom ▸ hformed
  have hstep : ThreadStep build w serverAddress θ₁ _ _ :=
    ⟨.arrive serverAddress (nack id).wire _ hplace hopen hfits harrive, hallowed, trivial⟩
  obtain ⟨θ₂, h₂, -, hreceived⟩ := (h₁.step hw hstep h₁.notCalled).exists_received hw rfl
  have hnone := h₂.queued_eq_nil hw
  rw [hpacket] at hreceived
  rw [Connection.received_outgoing hreceived, Connection.processAcks_readyPackets,
    List.append_eq_nil_iff] at hnone
  exact List.ne_nil_of_mem (mem_rescheduled_nack hfind) hnone.2

/-- What has been received and handed over leaves nothing to send. -/
theorem nothing_of_processing (h : θ.Safe build w serverAddress) (hw : w.Documented)
    (hlistening : θ.client.listening = .processing) :
    θ.client.connectionToServer.outgoing.readyPackets = [] ∧
      ∀ id, θ.client.connectionToServer.outgoing.reliablePackets.find id = none := by
  refine ⟨h.queued_eq_nil hw, fun id ↦ ?_⟩
  obtain ⟨θ₁, h₁, hreceiving, hout⟩ := h.exists_processed hw hlistening
  rw [← hout]
  exact h₁.stored_eq_none hw hreceiving id

theorem quiet (h : θ.Safe build w serverAddress) (hw : w.Documented) : θ.Quiet build := by
  refine ⟨h.popped_eq_none, h.queued_eq_nil hw, fun c hc ↦ ?_⟩
  unfold Settles at hc
  cases hlistening : θ.client.listening with
  | found received =>
      rw [hlistening] at hc
      obtain ⟨θ₁, h₁, hprocessing, hreceived⟩ := h.exists_received hw hlistening
      obtain rfl := Except.ok.inj (hc.symm.trans hreceived)
      exact h₁.nothing_of_processing hw hprocessing
  | processing =>
      rw [hlistening] at hc
      exact hc ▸ h.nothing_of_processing hw hlistening
  | receiving =>
      rw [hlistening] at hc
      exact hc ▸ ⟨h.queued_eq_nil hw, h.stored_eq_none hw hlistening⟩
  | stuck => exact absurd hlistening h.intact.orderly.free

end Safe

/-- `Stop` may be called in every state before it. Nothing is sent once it has freed the
address, and the threads come to an end once it has made the handle invalid. In the
end both have left their loops, or `SendThread` has come to what has been freed. No
interleaving comes to that exactly if `SendThread` has nothing in hand and nothing
queued, and what `ListenThread` has in hand leaves nothing that is queued or stored. -/
theorem stop_of_run (hw : w.Sends) (hstart : (make serverAddress).start w = .ok κ₀)
    (hallowed : ∀ e ∈ labels, e.Allowed serverAddress)
    (hrun : Run (Step build w) { client := κ₀ } labels θ) (hstop : θ.stopping = .notCalled) :
    (∀ labels' θ', Run (ThreadStep build w serverAddress) θ labels' θ' →
      (θ'.stopping ≠ .notCalled → ∀ labels'' θ'',
        Run (ThreadStep build w serverAddress) θ' labels'' θ'' →
          θ''.client.sent = θ'.client.sent) ∧
      (θ'.client.socket.isValid = false → Ends (ThreadStep build w serverAddress) θ') ∧
      (θ'.Final build w serverAddress → θ'.client.aborted = true ∨ θ'.Quit)) ∧
    (θ.StopsCleanly build w serverAddress ↔ θ.Quiet build) := by
  have hintact : θ.Intact serverAddress :=
    (intact_of_run hw hstart hallowed hrun).resolve_left fun h ↦ h.1 hstop
  refine ⟨fun labels' θ' hrun' ↦ ⟨?_, ?_, fun hfinal ↦ ?_⟩, fun hclean ↦ ?_, fun hquiet ↦ ?_⟩
  · exact fun hstop' labels'' θ'' hrun'' ↦ silent_of_run hstop' hrun''
  · exact ends_of_invalid build w serverAddress
  · have hend := hrun'.invariant
      (fun τ ↦ τ.client.aborted = true ∨ τ.Intact serverAddress) (.inr hintact)
      fun t e u h hstep ↦ ?_
    · exact hend.imp_right fun h ↦ h.quit_of_final hfinal
    · rcases h with haborted | hintact
      · cases haborted.symm.trans hstep.step.running
      · exact (hintact.step hw.toDocumented hstep.allowed hstep.step).imp_left fun h ↦ h.2.2
  · exact Safe.quiet ⟨hintact, hstop, hclean⟩ hw.toDocumented
  · exact hquiet.stopsCleanly hintact hw.toDocumented

/-- A client that has just been started may be stopped, and one that is about to send a
question may not. -/
theorem stop_after_asking :
    StopsCleanly .debug .datagrams Server.secondPeer
      { client := { make Server.secondPeer with sent := [pingPacket.wire] } } ∧
    ∃ θ, Run (Step .debug .datagrams)
        { client := { make Server.secondPeer with sent := [pingPacket.wire] } } asking θ ∧
      ¬ θ.StopsCleanly .debug .datagrams Server.secondPeer := by
  have hw := Winsock.datagrams_sends
  have hstart := start_eq hw Server.secondPeer
  have hallowed := asking_allowed Server.secondPeer
  refine ⟨?_, ?_⟩
  · refine (stop_of_run hw hstart (by simp) .nil rfl).2.mpr ⟨rfl, rfl, ?_⟩
    rintro c rfl
    exact ⟨rfl, fun _ ↦ rfl⟩
  · obtain ⟨θ, hrun, hstop, hpopped, -⟩ := exists_asking Server.secondPeer
    refine ⟨θ, hrun, fun hclean ↦ ?_⟩
    have hquiet := (stop_of_run hw hstart hallowed hrun hstop).2.mp hclean
    cases hpopped.symm.trans hquiet.popped

end Threads

end Client

end GioNet
