import GioNet.Client
import GioNet.Independence

/-!
# Client and server hand over the same data

The two receive loops share the connection but drain it differently: the server
leaves out what is not data, the client does not look at the type. So they agree
as long as only data becomes ready.
-/

namespace GioNet

open LabelledRun (Run)

/-! ## What a lone connection has received -/

theorem dataOf_append (ps qs : List (Packet Buffer)) : dataOf (ps ++ qs) = dataOf ps ++ dataOf qs :=
  List.filterMap_append

theorem map_payload_eq_dataOf_iff (ps : List (Packet Buffer)) :
    ps.map (·.payload) = dataOf ps ↔ ∀ p ∈ ps, p.getType = .data := by
  rw [dataOf, eq_comm, List.filterMap_eq_map_iff_forall_eq_some]
  refine forall₂_congr fun p _ ↦ ?_
  by_cases hdata : p.getType = .data <;> simp [hdata]

theorem Connection.Trails.drained {β : Type} {c d : Connection β} {popped : List (Packet β)}
    (h : c.Trails d popped) : c.drained.Trails d (popped ++ c.incoming.readyPackets) := by
  refine ⟨h.reliablePackets, h.sequenceNumber, h.currentAckId, ?_⟩
  rw [← h.readyPackets]
  exact List.append_nil _

namespace Lone

variable {build : Build} {w : Winsock} {a : NetAddress} {feeds : List Feed} {s s' : Lone}

/-- Everything has been popped, and the data in it has been delivered. -/
structure Follows (s : Lone) (d : Connection Buffer) (popped : List (Packet Buffer)) : Prop where
  trails : s.connection.Trails d popped
  drained : s.connection.incoming.readyPackets = []
  delivered : s.delivered = dataOf popped

theorem Follows.of_incoming {d : Connection Buffer} {popped : List (Packet Buffer)}
    (h : s.Follows d popped) (hincoming : s'.connection.incoming = s.connection.incoming)
    (hack : s'.connection.currentAckId = s.connection.currentAckId)
    (hdelivered : s'.delivered = s.delivered) : s'.Follows d popped := by
  refine ⟨h.trails.of_incoming hincoming hack, ?_, hdelivered.trans h.delivered⟩
  rw [hincoming, h.drained]

theorem Follows.receive {d : Connection Buffer} {popped : List (Packet Buffer)}
    {packet : Packet Buffer} (h : s.Follows d popped)
    (hreceive : s.receive build packet = some s') :
    ∃ d' popped', d.received build packet = .ok d' ∧ s'.Follows d' popped' := by
  cases hc : s.connection.received build packet with
  | error f =>
      rw [Lone.receive, hc] at hreceive
      cases hreceive
  | ok c =>
      rw [Lone.receive, hc] at hreceive
      obtain rfl := Option.some.inj hreceive
      obtain ⟨d', hd', htrails⟩ := h.trails.received hc
      refine ⟨d', _, hd', htrails.drained, rfl, ?_⟩
      rw [dataOf_append, h.delivered]

theorem of_afterSend {c : Connection Buffer} {r : Except Fault (Option (List UInt8) × Socket)}
    (h : s.afterSend c r = some s') : s'.connection = c ∧ s'.delivered = s.delivered := by
  cases r with
  | error f => cases h
  | ok r =>
      obtain rfl := Option.some.inj h
      exact ⟨rfl, rfl⟩

theorem Follows.drain {d : Connection Buffer} {popped : List (Packet Buffer)}
    (h : s.Follows d popped) (hdrain : s.drain w = some s') : s'.Follows d popped := by
  cases hpop : s.connection.popReadyOutgoingPacket with
  | none =>
      rw [Lone.drain, hpop] at hdrain
      obtain rfl := Option.some.inj hdrain
      exact h
  | some r =>
      obtain ⟨packet, c⟩ := r
      obtain ⟨_, _, _, hc, _⟩ := Connection.popReadyOutgoingPacket_eq_some_iff.mp hpop
      rw [Lone.drain, hpop] at hdrain
      obtain ⟨hconnection, hdelivered⟩ := of_afterSend hdrain
      apply h.of_incoming
      · rw [hconnection, hc]
      · rw [hconnection, hc]
      · exact hdelivered

theorem exists_follows_of_run (h : run build w a feeds = some s) :
    ∃ d popped, (Connection.fresh a).receiveAll build (feeds.filterMap Feed.datagram?) = .ok d ∧
      s.Follows d popped := by
  induction feeds using List.reverseRecOn generalizing s with
  | nil =>
      obtain rfl := Option.some.inj h
      exact ⟨_, [], rfl, Connection.trails_fresh a a, rfl, rfl⟩
  | append_singleton feeds f ih =>
      obtain ⟨s₀, hs₀, hlast⟩ : ∃ s₀, run build w a feeds = some s₀ ∧
          s₀.feed build w f = some s := by
        rw [run, List.foldlM_append, ← run] at h
        simpa [Option.bind_eq_some_iff] using h
      obtain ⟨d, popped, hd, hfollows⟩ := ih hs₀
      rw [List.filterMap_append]
      cases f with
      | datagram packet =>
          obtain ⟨d', popped', hd', hfollows'⟩ := hfollows.receive hlast
          exact ⟨d', popped', (Connection.receiveAll_snoc hd packet).trans hd', hfollows'⟩
      | schedule message =>
          obtain rfl := Option.some.inj hlast
          refine ⟨d, popped, (List.append_nil _).symm ▸ hd, hfollows.of_incoming ?_ ?_ rfl⟩
          · simp
          · simp
      | drain => exact ⟨d, popped, (List.append_nil _).symm ▸ hd, hfollows.drain hlast⟩

end Lone

/-! ## What the server hands over -/

/-- The datagram of the address that an event is the arrival of. -/
def Event.fromPeer (a : NetAddress) : Event → Option (List UInt8)
  | .arrive source datagram => if source = a then some datagram else none
  | .ignored source datagram => if source = a then some datagram else none
  | _ => none

theorem decode_of_wellFormed {w : Winsock} (hw : w.Documented) (build : Build)
    {datagram : List UInt8} (hfits : datagram.length ≤ bufferMax) (h : WellFormed datagram) :
    decode build w datagram = some (packetOf datagram) := by
  obtain ⟨rest, hread⟩ := h.readPacket hfits build
  exact Server.decode_eq_some_iff.mpr
    ⟨_, _, _, Socket.receiveFrom_of_le hw build {} hfits, hread⟩

namespace Server

variable {build : Build} {w : Winsock} {involved : Set NetAddress} {a : NetAddress} {σ : Server}
  {labels : List Event} {datagrams : List (List UInt8)}

/-- Nothing fails on behalf of anyone but the address. -/
structure PeerStep (build : Build) (w : Winsock) (involved : Set NetAddress) (a : NetAddress)
    (σ : Server) (e : Event) (σ' : Server) : Prop extends AssumedStep build w involved σ e σ' where
  careful : (∀ packet, e ≠ .received a packet) → σ.Careful build w e

/-- The server has received these datagrams from the address, with anything else
going on, and has processed them. -/
def HasReceived (build : Build) (w : Winsock) (a : NetAddress) (datagrams : List (List UInt8))
    (σ : Server) : Prop :=
  ∃ involved labels, Distinct involved ∧ Run (PeerStep build w involved a) {} labels σ ∧
    labels.filterMap (Event.fromPeer a) = datagrams ∧ σ.listening = .receiving

theorem filterMap_datagram (hw : w.Documented) (build : Build)
    (hlabels : labels.filterMap (Event.fromPeer a) = datagrams)
    (h : ∀ datagram ∈ datagrams, datagram.length ≤ bufferMax ∧ WellFormed datagram) :
    labels.filterMap (Event.datagram build w a) = datagrams.map packetOf := by
  have hbind : Event.datagram build w a = fun e ↦ (e.fromPeer a).bind (decode build w) := by
    funext e
    cases e with
    | arrive source datagram | ignored source datagram =>
        simp only [Event.datagram, Event.fromPeer]
        split <;> rfl
    | _ => rfl
  rw [hbind, ← List.filterMap_filterMap, hlabels, ← List.filterMap_eq_map]
  apply List.filterMap_congr
  intro datagram hmem
  exact decode_of_wellFormed hw build (h datagram hmem).1 (h datagram hmem).2

/-- What the address sends is in hand until it is received, so `Received` comes
back from it. -/
theorem careful_of_run (hw : w.Documented) (hdistinct : Distinct involved)
    (hrun : Run (PeerStep build w involved a) {} labels σ)
    (h : ∀ datagram ∈ labels.filterMap (Event.fromPeer a),
      datagram.length ≤ bufferMax ∧ WellFormed datagram) :
    Run (CarefulStep build w involved) {} labels σ := by
  induction hrun with
  | nil => exact .nil
  | @snoc labels t u e hrun hlast ih =>
      have hbefore : ∀ datagram ∈ labels.filterMap (Event.fromPeer a),
          datagram.length ≤ bufferMax ∧ WellFormed datagram := by
        intro datagram hmem
        apply h
        rw [List.filterMap_append]
        exact List.mem_append_left _ hmem
      have hcareful := ih hbefore
      refine hcareful.snoc ⟨hlast.toAssumedStep, ?_⟩
      by_cases hother : ∀ packet, e ≠ .received a packet
      · exact hlast.careful hother
      · simp only [ne_eq, not_forall, not_not] at hother
        obtain ⟨packet, rfl⟩ := hother
        obtain ⟨received, rest, hlistening, hread⟩ : ∃ received rest,
            t.listening = .found a received ∧
              (Buffer.readPacket build).run received = .ok (packet, rest) := by
          cases hlast.step with
          | received peer received packet rest c order hrun hlistening hread =>
              exact ⟨received, rest, hlistening, hread⟩
          | receivedFault peer received packet rest f hrun hlistening hread =>
              exact ⟨received, rest, hlistening, hread⟩
        have hdatagrams := datagrams_of_run (run_proceeds hdistinct hcareful) a
        rw [filterMap_datagram hw build rfl hbefore,
          inHand_of_inHand (by rw [hlistening]; rfl) hread, if_pos rfl] at hdatagrams
        have hmem : packet ∈ (labels.filterMap (Event.fromPeer a)).map packetOf := by
          rw [hdatagrams]
          simp
        obtain ⟨datagram, hdatagram, rfl⟩ := List.mem_map.mp hmem
        intro hrel hid
        exact absurd hid ((hbefore datagram hdatagram).2.id_ne_invalidId hrel)

/-- The server hands over the payloads of the ready packets of type data. -/
theorem HasReceived.dataFor_eq (h : HasReceived build w a datagrams σ) (hw : w.Documented)
    (hformed : ∀ datagram ∈ datagrams, datagram.length ≤ bufferMax ∧ WellFormed datagram) :
    ∃ d, (Connection.fresh a).receiveAll build (datagrams.map packetOf) = .ok d ∧
      σ.dataFor a = dataOf d.incoming.readyPackets := by
  obtain ⟨involved, labels, hdistinct, hrun, hlabels, hlistening⟩ := h
  have hcareful := careful_of_run hw hdistinct hrun (by rwa [hlabels])
  have hproceeds := run_proceeds hdistinct hcareful
  obtain ⟨s, hs, hfollows⟩ := follows_of_run hproceeds a
  obtain ⟨d, popped, hd, hlone⟩ := Lone.exists_follows_of_run hs
  have hdatagrams := datagrams_of_run hproceeds a
  rw [filterMap_datagram hw build hlabels hformed,
    inHand_of_none (by rw [hlistening]; rfl), List.append_nil] at hdatagrams
  have hready := (sound_of_run hdistinct hcareful).ready a (by simp [hlistening, Listening.rest])
  have hpopped := hlone.trails.readyPackets
  rw [hlone.drained, List.append_nil] at hpopped
  have hpending : σ.pending a = [] := by
    rw [pending, hready]
    rfl
  refine ⟨d, hdatagrams ▸ hd, ?_⟩
  rw [← hpopped, ← hlone.delivered, ← hfollows.delivered, hpending, List.append_nil]

/-! ## Every sequence of well-formed datagrams can be received -/

variable {peer : NetAddress} {rest : List NetAddress}

/-- One peer's turn in `ProcessReceivedPackets`. -/
theorem exists_popped (build : Build) (w : Winsock) (involved : Set NetAddress) (a : NetAddress)
    (hrun : σ.aborted = false) (hlistening : σ.listening = .processing (peer :: rest)) :
    ∃ labels σ', Run (CarefulStep build w involved) σ labels σ' ∧
      labels.filterMap (Event.fromPeer a) = [] ∧ σ'.aborted = false ∧
        σ'.listening = .processing rest := by
  induction hready : (σ.connection peer).incoming.readyPackets generalizing σ with
  | nil =>
      have hpop := Connection.popReadyIncomingPacket_eq_none_iff.mpr hready
      exact ⟨_, _, .single ⟨⟨.nextReceived peer rest hrun hlistening hpop, trivial⟩, trivial⟩, rfl,
        hrun, rfl⟩
  | cons packet packets ih =>
      obtain ⟨c, hpop, hrest⟩ : ∃ c, (σ.connection peer).popReadyIncomingPacket =
          some (packet, c) ∧ c.incoming.readyPackets = packets :=
        ⟨_, Connection.popReadyIncomingPacket_eq_some_iff.mpr ⟨packets, hready, rfl⟩, rfl⟩
      have hdeliver : Step build w σ Event.deliver _ :=
        .deliver peer rest packet c hrun hlistening hpop
      have hafter : ((σ.setConnection peer c).connection peer).incoming.readyPackets = packets := by
        simpa using hrest
      obtain ⟨labels, σ', hrun', hlabels, hend⟩ := ih (σ := { σ.setConnection peer c with
        callbacks := σ.callbacks ++ callbacksFor peer packet }) hrun hlistening hafter
      exact ⟨[Event.deliver] ++ labels, σ',
        (Run.single ⟨⟨hdeliver, trivial⟩, trivial⟩).append hrun', hlabels, hend⟩

theorem exists_processed (build : Build) (w : Winsock) (involved : Set NetAddress) (a : NetAddress)
    (hrun : σ.aborted = false) (hlistening : σ.listening = .processing rest) :
    ∃ labels σ', Run (CarefulStep build w involved) σ labels σ' ∧
      labels.filterMap (Event.fromPeer a) = [] ∧ σ'.listening = .receiving := by
  induction rest generalizing σ with
  | nil =>
      exact ⟨_, _, .single ⟨⟨.endReceived hrun hlistening, trivial⟩, trivial⟩, rfl, rfl⟩
  | cons peer rest ih =>
      obtain ⟨labels, σ', hpopped, hlabels, hrun', hlistening'⟩ :=
        exists_popped build w involved a hrun hlistening
      obtain ⟨labels', σ'', hprocessed, hlabels', hend⟩ := ih hrun' hlistening'
      refine ⟨labels ++ labels', σ'', hpopped.append hprocessed, ?_, hend⟩
      rw [List.filterMap_append, hlabels, hlabels', List.append_nil]

/-- The peer is found or added. -/
theorem exists_found {datagram : List UInt8} (h : σ.Sound build involved)
    (hlistening : σ.listening = .receiving) (hdistinct : Distinct involved) (ha : a ∈ involved)
    (hw : w.Documented) (hfits : datagram.length ≤ bufferMax) (hformed : WellFormed datagram) :
    ∃ labels σ', Run (CarefulStep build w involved) σ labels σ' ∧
      labels.filterMap (Event.fromPeer a) = [datagram] ∧ σ'.aborted = false ∧
        σ'.listening = .found a ⟨datagram⟩ := by
  have hvalid : σ.socket.isValid = true := h.socket ▸ rfl
  have hreceive := Socket.receiveFrom_of_le hw build σ.socket hfits
  have harrive : Step build w σ (.arrive a datagram) (σ.lookUp a ⟨datagram⟩) :=
    .arrive a datagram _ _ h.running hlistening hvalid hreceive
  have hassumed : (Event.arrive a datagram).Assumed build w involved :=
    ⟨ha, _, decode_of_wellFormed hw build hfits hformed⟩
  rw [h.lookUp_eq hdistinct ha] at harrive
  by_cases hknown : a ∈ σ.peers
  · rw [if_pos hknown] at harrive
    refine ⟨_, _, .single ⟨⟨harrive, hassumed⟩, trivial⟩, ?_, h.running, rfl⟩
    simp [Event.fromPeer]
  · rw [if_neg hknown] at harrive
    have hconnected : Step build w
        { σ with peers := σ.peers ++ [a], listening := .added a ⟨datagram⟩ } .peerConnected _ :=
      .peerConnected a ⟨datagram⟩ h.running rfl
    refine ⟨_, _, (Run.single ⟨⟨harrive, hassumed⟩, trivial⟩).snoc
      ⟨⟨hconnected, trivial⟩, trivial⟩, ?_, h.running, rfl⟩
    simp [Event.fromPeer]

theorem exists_received {datagram : List UInt8} (h : σ.Sound build involved)
    (hlistening : σ.listening = .receiving) (hdistinct : Distinct involved) (ha : a ∈ involved)
    (hw : w.Documented) (hfits : datagram.length ≤ bufferMax) (hformed : WellFormed datagram) :
    ∃ labels σ', Run (CarefulStep build w involved) σ labels σ' ∧
      labels.filterMap (Event.fromPeer a) = [datagram] ∧ σ'.listening = .receiving := by
  obtain ⟨labels, σ₁, hfound, hlabels, hrun, hlistening₁⟩ :=
    exists_found h hlistening hdistinct ha hw hfits hformed
  obtain ⟨rest, c, hread, hc⟩ := hformed.exists_decoded hfits build (σ₁.connection a)
  have hreceived : Step build w σ₁ (.received a (packetOf datagram)) _ :=
    .received a _ _ rest c σ₁.peers hrun hlistening₁ hread hc (List.Perm.refl _)
  have hharmless := (Connection.exists_received_iff ..).mp ⟨c, hc⟩
  obtain ⟨labels', σ', hprocessed, hlabels', hend⟩ := exists_processed build w involved a
    (σ := { σ₁.setConnection a c with listening := .processing σ₁.peers }) hrun rfl
  refine ⟨labels ++ [.received a (packetOf datagram)] ++ labels', σ',
    (hfound.snoc ⟨⟨hreceived, trivial⟩, hharmless⟩).append hprocessed, ?_, hend⟩
  rw [List.filterMap_append, List.filterMap_append, hlabels, hlabels']
  rfl

theorem exists_hasReceived (hw : w.Documented) (a : NetAddress)
    (h : ∀ datagram ∈ datagrams, datagram.length ≤ bufferMax ∧ WellFormed datagram)
    (build : Build) : ∃ σ, HasReceived build w a datagrams σ := by
  have hdistinct : Distinct {a} := by
    rintro b rfl b' rfl -
    rfl
  obtain ⟨labels, σ, hrun, hlabels, hend⟩ : ∃ labels σ,
      Run (CarefulStep build w {a}) {} labels σ ∧
        labels.filterMap (Event.fromPeer a) = datagrams ∧ σ.listening = .receiving := by
    induction datagrams using List.reverseRecOn with
    | nil => exact ⟨[], {}, .nil, rfl, rfl⟩
    | append_singleton datagrams datagram ih =>
        obtain ⟨labels, σ, hrun, hlabels, hlistening⟩ := ih fun d hd ↦
          h d (List.mem_append_left _ hd)
        obtain ⟨hfits, hformed⟩ := h datagram (by simp)
        obtain ⟨labels', σ', hrun', hlabels', hend⟩ := exists_received
          (sound_of_run hdistinct hrun) hlistening hdistinct rfl hw hfits hformed
        refine ⟨labels ++ labels', σ', hrun.append hrun', ?_, hend⟩
        rw [List.filterMap_append, hlabels, hlabels']
  exact ⟨σ, {a}, labels, hdistinct, hrun.mono fun _ _ _ hstep ↦
    ⟨hstep.toAssumedStep, fun _ ↦ hstep.careful⟩, hlabels, hend⟩

end Server

/-! ## Both hand over the same -/

/-- However the datagrams of the address are received, what the client and the
server hand over are the payloads of the ready packets of type data. -/
def SameData (build : Build) (w : Winsock) (a serverAddress : NetAddress)
    (datagrams : List (List UInt8)) : Prop :=
  ∃ d, (Connection.fresh a).receiveAll build (datagrams.map packetOf) = .ok d ∧
    (∀ κ, Client.HasReceived build w serverAddress datagrams κ →
      κ.dataReceived = dataOf d.incoming.readyPackets) ∧
    ∀ σ, Server.HasReceived build w a datagrams σ → σ.dataFor a = dataOf d.incoming.readyPackets

/-- The client agrees with the server exactly if no packet of another type than
data becomes ready. Both can receive every sequence of well-formed datagrams. -/
theorem sameData_iff {build : Build} {w : Winsock} (hw : w.Sends)
    {a serverAddress : NetAddress} (hserver : a.eq serverAddress = true)
    {datagrams : List (List UInt8)}
    (h : ∀ datagram ∈ datagrams, datagram.length ≤ bufferMax ∧ WellFormed datagram) :
    (∃ κ, Client.HasReceived build w serverAddress datagrams κ) ∧
      (∃ σ, Server.HasReceived build w a datagrams σ) ∧
      (SameData build w a serverAddress datagrams ↔
        ∀ q, Connection.BecomesReady build a (datagrams.map packetOf) q → q.getType = .data) := by
  obtain ⟨κ, hκ⟩ := Client.exists_hasReceived hw hserver h build
  have hformed : ∀ datagram ∈ datagrams, WellFormed datagram := fun d hd ↦ (h d hd).2
  obtain ⟨d, hd, hdata⟩ := hκ.dataReceived_eq hw hformed a
  refine ⟨⟨κ, hκ⟩, Server.exists_hasReceived hw.toDocumented a h build, ?_⟩
  have hready := Connection.mem_readyPackets_receiveAll hd
  rw [← forall_congr' fun q ↦ imp_congr_left (hready q), ← map_payload_eq_dataOf_iff]
  constructor
  · rintro ⟨d', hd', hclient, -⟩
    obtain rfl := Except.ok.inj (hd.symm.trans hd')
    rw [← hdata, hclient κ hκ]
  · intro hall
    refine ⟨d, hd, fun κ' hκ' ↦ ?_, fun σ hσ ↦ ?_⟩
    · obtain ⟨d', hd', hdata'⟩ := hκ'.dataReceived_eq hw hformed a
      obtain rfl := Except.ok.inj (hd.symm.trans hd')
      rw [hdata', hall]
    · obtain ⟨d', hd', hdata'⟩ := hσ.dataFor_eq hw.toDocumented h
      obtain rfl := Except.ok.inj (hd.symm.trans hd')
      exact hdata'

theorem receiveAll_of_unreliable (build : Build) (a : NetAddress) {p : Packet Buffer}
    (hrel : p.isReliable = false) :
    ∃ d, (Connection.fresh a).receiveAll build [p] = .ok d ∧ d.incoming.readyPackets = [p] := by
  have hnil : (Connection.fresh a : Connection Buffer).receiveAll build [] = .ok (.fresh a) := rfl
  have hlast := Connection.receiveAll_snoc hnil p
  rw [List.nil_append, Connection.received_of_unreliable build _ hrel] at hlast
  exact ⟨_, hlast, rfl⟩

theorem formed_singleton {p : Packet Buffer} (hlen : p.payload.payload.length ≤ 499)
    (hid : p.isReliable = true → p.id ≠ Packet.invalidId) :
    ∀ datagram ∈ [p.wire], datagram.length ≤ bufferMax ∧ WellFormed datagram := by
  intro datagram hmem
  obtain rfl := List.mem_singleton.mp hmem
  have hwire := p.wire_length
  rw [bufferMax]
  exact ⟨by omega, wellFormed_wire (by omega) hid⟩

/-- An unreliable message, two reliable ones that change places, and a reliable ping
that waits for an id that does not come. -/
def mixedPackets : List (Packet Buffer) :=
  [Server.plainPacket, { Packet.make .data .reliable ⟨[2, 2]⟩ with id := 2 },
    { Packet.make .data .reliable ⟨[1]⟩ with id := 1 },
    { Packet.make .ping .reliable {} with id := 4 }]

/-- Both hand over the three messages. -/
theorem sameData_iff_mixedPackets :
    SameData .debug .datagrams Server.firstPeer Server.firstPeer (mixedPackets.map Packet.wire) ∧
      ∃ κ, Client.HasReceived .debug .datagrams Server.firstPeer (mixedPackets.map Packet.wire) κ ∧
        κ.dataReceived = [⟨[7]⟩, ⟨[1]⟩, ⟨[2, 2]⟩] := by
  have hformed : ∀ datagram ∈ mixedPackets.map Packet.wire,
      datagram.length ≤ bufferMax ∧ WellFormed datagram := by
    intro datagram hmem
    obtain ⟨p, hp, rfl⟩ := List.mem_map.mp hmem
    have hsmall : p.payload.payload.length ≤ 499 ∧
        (p.isReliable = true → p.id ≠ Packet.invalidId) := by
      revert p
      decide
    exact formed_singleton hsmall.1 hsmall.2 p.wire (List.mem_singleton_self _)
  have hpackets : (mixedPackets.map Packet.wire).map packetOf = mixedPackets := by
    rw [List.map_map]
    refine (List.map_congr_left fun p hp ↦ ?_).trans (List.map_id _)
    refine (frame_of_wire ?_).2
    revert p
    decide
  obtain ⟨d, hd, hready⟩ : ∃ d,
      (Connection.fresh Server.firstPeer).receiveAll .debug mixedPackets = .ok d ∧
        d.incoming.readyPackets = [Server.plainPacket,
          { Packet.make .data .reliable ⟨[1]⟩ with id := 1 },
          { Packet.make .data .reliable ⟨[2, 2]⟩ with id := 2 }] := ⟨_, rfl, rfl⟩
  obtain ⟨⟨κ, hκ⟩, -, hiff⟩ :
      (∃ κ, Client.HasReceived .debug .datagrams Server.firstPeer _ κ) ∧ _ :=
    sameData_iff Winsock.datagrams_sends (NetAddress.eq_self Server.firstPeer) hformed
  refine ⟨hiff.mpr fun q hq ↦ ?_, κ, hκ, ?_⟩
  · rw [hpackets, ← Connection.mem_readyPackets_receiveAll hd, hready] at hq
    revert q
    decide
  · obtain ⟨d', hd', hdata⟩ :=
      hκ.dataReceived_eq Winsock.datagrams_sends (fun b hb ↦ (hformed b hb).2) Server.firstPeer
    rw [hpackets] at hd'
    obtain rfl := Except.ok.inj (hd.symm.trans hd')
    rw [hdata, hready]
    rfl

/-- The client hands over the empty payload of a ping, the server does not. -/
theorem not_sameData_ping :
    (∀ datagram ∈ [Client.pingPacket.wire], datagram.length ≤ bufferMax ∧ WellFormed datagram) ∧
      (∃ κ σ, Client.HasReceived .debug .datagrams Server.firstPeer [Client.pingPacket.wire] κ ∧
        Server.HasReceived .debug .datagrams Server.firstPeer [Client.pingPacket.wire] σ ∧
          κ.dataReceived = [{}] ∧ σ.dataFor Server.firstPeer = []) ∧
      ¬ SameData .debug .datagrams Server.firstPeer Server.firstPeer
        [Client.pingPacket.wire] := by
  have hw := Winsock.datagrams_sends
  have hformed := formed_singleton (p := Client.pingPacket) (by decide) (by decide)
  have hpacket : packetOf Client.pingPacket.wire = Client.pingPacket :=
    (frame_of_wire (by decide)).2
  obtain ⟨d, hd, hpackets⟩ := receiveAll_of_unreliable .debug Server.firstPeer
    (p := Client.pingPacket) rfl
  obtain ⟨κ, hκ⟩ :=
    Client.exists_hasReceived hw (NetAddress.eq_self Server.firstPeer) hformed .debug
  obtain ⟨σ, hσ⟩ := Server.exists_hasReceived hw.toDocumented Server.firstPeer hformed .debug
  have hclient : κ.dataReceived = [{}] := by
    obtain ⟨d', hd', hdata⟩ := hκ.dataReceived_eq hw (fun b hb ↦ (hformed b hb).2) Server.firstPeer
    rw [List.map_singleton, hpacket] at hd'
    obtain rfl := Except.ok.inj (hd.symm.trans hd')
    rw [hdata, hpackets]
    rfl
  have hserver : σ.dataFor Server.firstPeer = [] := by
    obtain ⟨d', hd', hdata⟩ := hσ.dataFor_eq hw.toDocumented hformed
    rw [List.map_singleton, hpacket] at hd'
    obtain rfl := Except.ok.inj (hd.symm.trans hd')
    rw [hdata, hpackets]
    rfl
  refine ⟨hformed, ⟨κ, σ, hκ, hσ, hclient, hserver⟩, ?_⟩
  rintro ⟨d', -, hsame, hsame'⟩
  have hdiffer := (hsame κ hκ).trans (hsame' σ hσ).symm
  rw [hclient, hserver] at hdiffer
  cases hdiffer

end GioNet
