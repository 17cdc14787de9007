import GioNet.Peers

/-!
# The server is a product of independent connections

In a run in which nothing fails, each address sees what a lone connection would
show it, whatever the other peers do. One reliable packet with the id `0` from
any of them ends that.
-/

namespace GioNet

open Packet (invalidId)
open Server

def Broadcasting.scheduledFor (b : Broadcasting) (a : NetAddress) : List Message :=
  if a ∈ b.peersCopy ∧ a ∉ b.except ∧ a ∉ b.rest then [b.message] else []

def Event.isBroadcast : Event → Bool
  | .broadcast _ _ => true
  | _ => false

/-- The address sees what a lone connection would show it. The lone connection is
fed with the datagrams that have come from the address, with the sends to it, and
with one message for each broadcast that began after the first datagram and does
not except it. -/
structure Independent (build : Build) (w : Winsock) (labels : List Event) (σ : Server)
    (a : NetAddress) : Prop where
  lone : ∃ s, Lone.run build w a (labels.flatMap (Event.feed build w a)) = some s ∧
    σ.sentTo a = s.sent ∧ σ.dataFor a ++ σ.pending a = s.delivered
  delivered : (∀ rest, σ.listening ≠ .processing rest) → σ.pending a = []
  connected : σ.Connected a →
    σ.callbacksOf a = .peerConnected a :: (σ.dataFor a).map (.dataReceived a)
  unconnected : ¬ σ.Connected a → σ.callbacksOf a = []
  arrived : a ∈ σ.peers ↔ ∃ datagram, Event.arrive a datagram ∈ labels
  datagrams : labels.filterMap (Event.datagram build w a) =
    (labels.flatMap (Event.feed build w a)).filterMap Feed.datagram? ++ σ.inHand build a
  broadcasts : ∀ i, labels.filterMap (Event.broadcastTo i a) =
    σ.broadcasts[i]?.elim [] fun b ↦ b.scheduledFor a
  calls : ∀ before message except after, labels = before ++ .broadcast message except :: after →
    ∃ b, σ.broadcasts[before.countP Event.isBroadcast]? = some b ∧ b.message = message ∧
      b.except = except ∧ (a ∈ b.peersCopy ↔ ∃ datagram, Event.arrive a datagram ∈ before)

namespace Server

variable {build : Build} {w : Winsock} {involved : Set NetAddress} {σ σ' : Server} {e : Event}
  {a peer : NetAddress} {labels : List Event}

/-! ## Callbacks -/

/-- The connected callback comes first and comes once. -/
structure Announced (σ : Server) (a : NetAddress) : Prop where
  connected : σ.Connected a →
    σ.callbacksOf a = .peerConnected a :: (σ.dataFor a).map (.dataReceived a)
  unconnected : ¬ σ.Connected a → σ.callbacksOf a = []

theorem Announced.frame (h : σ.Announced a) (hcallbacks : σ'.callbacksOf a = σ.callbacksOf a)
    (hdata : σ'.dataFor a = σ.dataFor a) (hconnected : σ'.Connected a ↔ σ.Connected a) :
    σ'.Announced a := by
  refine ⟨fun hc ↦ ?_, fun hc ↦ ?_⟩
  · rw [hcallbacks, hdata]
    exact h.connected (hconnected.mp hc)
  · rw [hcallbacks]
    exact h.unconnected fun hold ↦ hc (hconnected.mpr hold)

theorem dataFor_eq_nil (h : σ.callbacksOf a = []) : σ.dataFor a = [] := by
  apply List.filterMap_eq_nil_iff.mpr
  intro callback hmem
  have hne : callback.peer ≠ a := by simpa using List.filter_eq_nil_iff.mp h callback hmem
  cases callback with
  | peerConnected peer => rfl
  | dataReceived peer data => exact if_neg hne

theorem connected_iff_of_peers (hpeers : σ'.peers = σ.peers)
    (hadded : ∀ received, σ.listening ≠ .added a received)
    (hadded' : ∀ received, σ'.listening ≠ .added a received) :
    σ'.Connected a ↔ σ.Connected a := by
  simp only [Connected, hpeers, ne_eq, hadded, hadded', not_false_eq_true, implies_true]

theorem callbacksOf_callbacksFor (peer : NetAddress) (packet : Packet Buffer) (a : NetAddress) :
    (callbacksFor peer packet).filter (fun callback ↦ callback.peer = a) =
      ((callbacksFor peer packet).filterMap (Callback.data a)).map (.dataReceived a) := by
  unfold callbacksFor
  by_cases hdata : packet.getType = .data <;> by_cases hpeer : peer = a <;>
    simp [hdata, hpeer]

theorem Announced.peerConnected (h : σ.Announced a) (hmem : peer ∈ σ.peers) {received : Buffer}
    (hlistening : σ.listening = .added peer received) :
    Announced { σ with
      listening := .found peer received
      callbacks := σ.callbacks ++ [.peerConnected peer] } a := by
  by_cases hpeer : peer = a
  · subst hpeer
    have hnone := h.unconnected fun hc ↦ hc.2 received hlistening
    have hdata := dataFor_eq_nil hnone
    refine ⟨fun _ ↦ ?_, fun hc ↦ absurd ⟨hmem, by simp⟩ hc⟩
    rw [callbacksOf] at hnone
    rw [dataFor] at hdata
    simp [callbacksOf, dataFor, hnone, hdata]
  · apply Announced.frame h
    · simp [callbacksOf, hpeer]
    · simp [dataFor]
    · simp [Connected, hlistening, hpeer]

theorem Announced.deliver (h : σ.Announced a) (hmem : peer ∈ σ.peers) {rest : List NetAddress}
    (hlistening : σ.listening = .processing (peer :: rest)) (packet : Packet Buffer)
    (c : Connection Buffer) :
    Announced
      { σ.setConnection peer c with callbacks := σ.callbacks ++ callbacksFor peer packet } a := by
  refine ⟨fun hc ↦ ?_, fun hc ↦ ?_⟩
  · have hold := h.connected ⟨hc.1, hc.2⟩
    change (σ.callbacks ++ callbacksFor peer packet).filter _ = _ ::
      ((σ.callbacks ++ callbacksFor peer packet).filterMap _).map _
    rw [List.filter_append, callbacksOf_callbacksFor, List.filterMap_append, List.map_append,
      ← List.cons_append]
    exact congrArg (· ++ _) hold
  · have hold := h.unconnected fun hold ↦ hc ⟨hold.1, hold.2⟩
    have hne : peer ≠ a := by
      rintro rfl
      exact hc ⟨hmem, by simp [setConnection, hlistening]⟩
    change (σ.callbacks ++ callbacksFor peer packet).filter _ = _
    rw [List.filter_append, callbacksOf_callbacksFor, filterMap_callbacksFor, if_neg hne,
      List.map_nil, List.append_nil]
    exact hold

theorem Announced.step (h : σ.Announced a) (hsound : σ.Sound build involved)
    (hstep : Proceeds build w involved σ e σ') : σ'.Announced a := by
  cases hstep with
  | arriveKnown source datagram received rest packet hlistening hsource hread hdecode =>
      refine Announced.frame h rfl rfl ?_
      exact connected_iff_of_peers rfl (by simp [hlistening]) (by simp)
  | arriveNew source datagram received rest packet hlistening hsource hinvolved hread hdecode =>
      refine Announced.frame h rfl rfl ?_
      by_cases hpeer : source = a
      · subst hpeer
        simp [Connected, hsource]
      · simp [Connected, hlistening, hpeer, Ne.symm hpeer]
  | peerConnected peer received hlistening =>
      have hsub := hsound.listening
      rw [hlistening] at hsub
      exact h.peerConnected (hsub List.mem_cons_self) hlistening
  | deliver peer rest packet c hlistening hpop =>
      have hsub := hsound.listening
      rw [hlistening] at hsub
      exact h.deliver (hsub List.mem_cons_self) hlistening packet c
  | received peer received rest packet c order hlistening hread hreceived horder =>
      refine Announced.frame h rfl rfl ?_
      exact connected_iff_of_peers rfl (by simp [hlistening]) (by simp)
  | nextReceived peer rest hlistening hpop =>
      refine Announced.frame h rfl rfl ?_
      exact connected_iff_of_peers rfl (by simp [hlistening]) (by simp)
  | endReceived hlistening =>
      refine Announced.frame h rfl rfl ?_
      exact connected_iff_of_peers rfl (by simp [hlistening]) (by simp)
  | send | broadcast | broadcastSkip | broadcastSend | getPeers | drain | nextPeer =>
      exact Announced.frame h rfl rfl Iff.rfl

/-! ## Datagrams -/

theorem inHand_of_inHand {b : NetAddress} {received rest : Buffer} {packet : Packet Buffer}
    (hinHand : σ.listening.inHand = some (b, received))
    (hread : (Buffer.readPacket build).run received = .ok (packet, rest)) :
    σ.inHand build a = if b = a then [packet] else [] := by
  simp only [inHand, hinHand, hread]

theorem inHand_of_none (h : σ.listening.inHand = none) : σ.inHand build a = [] := by
  simp only [inHand, h]

/-- A datagram is in hand from its arrival until it is fed to a connection. -/
theorem Proceeds.inHand (hstep : Proceeds build w involved σ e σ') (a : NetAddress) :
    σ.inHand build a ++ (e.datagram build w a).toList =
      (e.feed build w a).filterMap Feed.datagram? ++ σ'.inHand build a := by
  cases hstep with
  | arriveKnown source datagram received rest packet hlistening hsource hread hdecode
  | arriveNew source datagram received rest packet hlistening hsource hinvolved hread hdecode =>
      rw [inHand_of_none (by rw [hlistening]; rfl), inHand_of_inHand rfl hread, Event.datagram,
        hdecode]
      simp only [Event.feed]
      split <;> rfl
  | received peer received rest packet c order hlistening hread hreceived horder =>
      rw [inHand_of_inHand (by rw [hlistening]; rfl) hread]
      simp only [Event.feed, Event.datagram]
      split <;> rfl
  | peerConnected peer received hlistening =>
      simp [Server.inHand, hlistening, Listening.inHand, Event.feed, Event.datagram]
  | nextReceived peer rest hlistening hpop =>
      simp [Server.inHand, hlistening, Listening.inHand, Event.feed, Event.datagram]
  | endReceived hlistening =>
      simp [Server.inHand, hlistening, Listening.inHand, Event.feed, Event.datagram]
  | deliver | broadcast | broadcastSkip | getPeers | nextPeer => exact List.append_nil _
  | send peer message | broadcastSend i b peer | drain peer =>
      simp only [Event.feed, Event.datagram]
      split <;> exact List.append_nil _

theorem Proceeds.mem_peers (hstep : Proceeds build w involved σ e σ') (a : NetAddress) :
    a ∈ σ'.peers ↔ a ∈ σ.peers ∨ ∃ datagram, e = .arrive a datagram := by
  cases hstep with
  | arriveKnown source datagram received rest packet hlistening hsource hread hdecode =>
      simp only [Event.arrive.injEq]
      constructor
      · exact .inl
      · rintro (hold | ⟨_, rfl, -⟩)
        · exact hold
        · exact hsource
  | arriveNew => simp [eq_comm]
  | deliver | broadcast | broadcastSkip | getPeers | nextPeer | peerConnected | received
    | nextReceived | endReceived | send | broadcastSend | drain => simp

/-! ## Broadcasts -/

/-- A step leaves the calls of `Broadcast` alone, begins one, or takes one to its
next peer. -/
theorem Proceeds.broadcasts (hstep : Proceeds build w involved σ e σ') (a : NetAddress) :
    (σ'.broadcasts = σ.broadcasts ∧ e.isBroadcast = false ∧ ∀ i, e.broadcastTo i a = none) ∨
    (∃ message except order, e = .broadcast message except ∧ order.Perm σ.peers ∧
      σ'.broadcasts = σ.broadcasts ++ [⟨message, except, order, order⟩]) ∨
    ∃ i b peer rest, σ.broadcasts[i]? = some b ∧ b.rest = peer :: rest ∧
      σ'.broadcasts = σ.broadcasts.set i { b with rest := rest } ∧ e.isBroadcast = false ∧
        ∀ j, e.broadcastTo j a =
          if j = i ∧ peer = a ∧ peer ∉ b.except then some b.message else none := by
  cases hstep with
  | broadcast message except order hexcept horder =>
      exact .inr (.inl ⟨message, except, order, rfl, horder, rfl⟩)
  | broadcastSkip i b peer rest hcall hrest hexcept =>
      refine .inr (.inr ⟨i, b, peer, rest, hcall, hrest, rfl, rfl, fun j ↦ ?_⟩)
      simp [Event.broadcastTo, hexcept]
  | broadcastSend i b peer rest hcall hrest hexcept =>
      refine .inr (.inr ⟨i, b, peer, rest, hcall, hrest, rfl, rfl, fun j ↦ ?_⟩)
      simp [Event.broadcastTo, hexcept, eq_comm]
  | arriveKnown | arriveNew | peerConnected | received | deliver | nextReceived | endReceived
    | send | getPeers | drain | nextPeer => exact .inl ⟨rfl, rfl, fun _ ↦ rfl⟩

/-- Going on to the next peer schedules the message for that peer if the call
does not except it. -/
theorem scheduledFor_next {b : Broadcasting} {rest : List NetAddress} (hnodup : b.peersCopy.Nodup)
    (hsuffix : b.rest <:+ b.peersCopy) (hrest : b.rest = peer :: rest) (a : NetAddress) :
    Broadcasting.scheduledFor { b with rest := rest } a =
      b.scheduledFor a ++ if peer = a ∧ peer ∉ b.except then [b.message] else [] := by
  have hnodup' : (peer :: rest).Nodup := hrest ▸ hsuffix.sublist.nodup hnodup
  simp only [Broadcasting.scheduledFor, hrest, List.mem_cons, not_or]
  by_cases hpeer : peer = a
  · subst hpeer
    have hcopy : peer ∈ b.peersCopy := hsuffix.subset (hrest ▸ List.mem_cons_self)
    simp [hcopy, (List.nodup_cons.mp hnodup').1]
  · simp [hpeer, Ne.symm hpeer]

structure Recorded (labels : List Event) (σ : Server) (a : NetAddress) : Prop where
  count : σ.broadcasts.length = labels.countP Event.isBroadcast
  copies : ∀ b ∈ σ.broadcasts, b.peersCopy.Nodup ∧ b.rest <:+ b.peersCopy
  scheduled : ∀ i, labels.filterMap (Event.broadcastTo i a) =
    σ.broadcasts[i]?.elim [] fun b ↦ b.scheduledFor a
  calls : ∀ before message except after, labels = before ++ .broadcast message except :: after →
    ∃ b, σ.broadcasts[before.countP Event.isBroadcast]? = some b ∧ b.message = message ∧
      b.except = except ∧ (a ∈ b.peersCopy ↔ ∃ datagram, Event.arrive a datagram ∈ before)

theorem Recorded.copies_step (h : Recorded labels σ a) (hsound : σ.Sound build involved)
    (hstep : Proceeds build w involved σ e σ') :
    ∀ b ∈ σ'.broadcasts, b.peersCopy.Nodup ∧ b.rest <:+ b.peersCopy := by
  obtain ⟨hsame, -⟩ | ⟨message, except, order, -, horder, hadd⟩ |
    ⟨i, b, peer, rest, hcall, hrest, hset, -⟩ := hstep.broadcasts a
  · rw [hsame]
    exact h.copies
  · intro b hb
    rw [hadd] at hb
    rcases List.mem_append.mp hb with hb | hb
    · exact h.copies b hb
    · obtain rfl := List.mem_singleton.mp hb
      exact ⟨horder.nodup_iff.mpr hsound.nodup, List.suffix_rfl⟩
  · intro b' hb'
    rw [hset] at hb'
    obtain ⟨hnodup, hsuffix⟩ := h.copies b (List.mem_of_getElem? hcall)
    rcases List.mem_or_eq_of_mem_set hb' with hb' | rfl
    · exact h.copies b' hb'
    · rw [hrest] at hsuffix
      exact ⟨hnodup, (List.suffix_cons peer rest).trans hsuffix⟩

theorem Recorded.scheduled_step (h : Recorded labels σ a)
    (hstep : Proceeds build w involved σ e σ') (i : ℕ) :
    (labels ++ [e]).filterMap (Event.broadcastTo i a) =
      σ'.broadcasts[i]?.elim [] fun b ↦ b.scheduledFor a := by
  rw [LabelledRun.filterMap_snoc, h.scheduled i]
  obtain ⟨hsame, -, hnone⟩ | ⟨message, except, order, rfl, -, hadd⟩ |
    ⟨j, b, peer, rest, hcall, hrest, hset, -, hto⟩ := hstep.broadcasts a
  · rw [hsame, hnone]
    exact List.append_nil _
  · rw [hadd]
    refine (List.append_nil _).trans ?_
    rcases lt_trichotomy i σ.broadcasts.length with hlt | rfl | hgt
    · rw [List.getElem?_append_left hlt]
    · have hempty : Broadcasting.scheduledFor ⟨message, except, order, order⟩ a = [] := by
        unfold Broadcasting.scheduledFor
        exact if_neg fun hmem ↦ hmem.2.2 hmem.1
      simp [hempty]
    · rw [List.getElem?_eq_none hgt.le, List.getElem?_eq_none]
      simpa using Nat.succ_le_of_lt hgt
  · obtain ⟨hnodup, hsuffix⟩ := h.copies b (List.mem_of_getElem? hcall)
    rw [hto, hset]
    by_cases hij : i = j
    · subst hij
      have hlt := (List.getElem?_eq_some_iff.mp hcall).1
      rw [List.getElem?_set_self hlt, hcall]
      refine Eq.trans ?_ (scheduledFor_next hnodup hsuffix hrest a).symm
      simp only [true_and]
      by_cases hnext : peer = a ∧ peer ∉ b.except
      · rw [if_pos hnext, if_pos hnext]
        rfl
      · rw [if_neg hnext, if_neg hnext]
        rfl
    · rw [List.getElem?_set_ne (Ne.symm hij)]
      simp [hij]

theorem Recorded.calls_step (h : Recorded labels σ a) (hstep : Proceeds build w involved σ e σ')
    (harrived : a ∈ σ.peers ↔ ∃ datagram, Event.arrive a datagram ∈ labels)
    {before after : List Event} {message : Message} {except : List NetAddress}
    (heq : labels ++ [e] = before ++ .broadcast message except :: after) :
    ∃ b, σ'.broadcasts[before.countP Event.isBroadcast]? = some b ∧ b.message = message ∧
      b.except = except ∧ (a ∈ b.peersCopy ↔ ∃ datagram, Event.arrive a datagram ∈ before) := by
  rcases LabelledRun.snoc_eq_append_cons heq with ⟨rfl, rfl⟩ | ⟨after', hlabels⟩
  · obtain ⟨-, hno, -⟩ | ⟨message', except', order, he, horder, hadd⟩ |
      ⟨-, -, -, -, -, -, -, hno, -⟩ := hstep.broadcasts a
    · cases hno
    · obtain ⟨rfl, rfl⟩ := Event.broadcast.inj he
      refine ⟨⟨message, except, order, order⟩, ?_, rfl, rfl, horder.mem_iff.trans harrived⟩
      rw [hadd, ← h.count]
      simp
    · cases hno
  · obtain ⟨b, hb, hcall⟩ := h.calls before message except after' hlabels
    obtain ⟨hsame, -⟩ | ⟨_, _, _, _, _, hadd⟩ | ⟨i, b', peer, rest, hb', -, hset, -⟩ :=
      hstep.broadcasts a
    · rw [hsame]
      exact ⟨b, hb, hcall⟩
    · rw [hadd]
      exact ⟨b, List.getElem?_append_left (List.getElem?_eq_some_iff.mp hb).1 ▸ hb, hcall⟩
    · rw [hset]
      by_cases hi : i = before.countP Event.isBroadcast
      · -- going on to the next peer keeps all but `rest`
        subst hi
        obtain rfl : b' = b := Option.some.inj (hb'.symm.trans hb)
        exact ⟨_, List.getElem?_set_self (List.getElem?_eq_some_iff.mp hb).1, hcall⟩
      · exact ⟨b, (List.getElem?_set_ne hi).trans hb, hcall⟩

theorem Recorded.step (h : Recorded labels σ a) (hsound : σ.Sound build involved)
    (hstep : Proceeds build w involved σ e σ')
    (harrived : a ∈ σ.peers ↔ ∃ datagram, Event.arrive a datagram ∈ labels) :
    Recorded (labels ++ [e]) σ' a := by
  refine ⟨?_, h.copies_step hsound hstep, h.scheduled_step hstep,
    fun before message except after heq ↦ h.calls_step hstep harrived heq⟩
  rw [List.countP_append, List.countP_singleton, ← h.count]
  obtain ⟨hsame, hno, -⟩ | ⟨message, except, order, rfl, -, hadd⟩ |
    ⟨i, b, -, rest, -, -, hset, hno, -⟩ := hstep.broadcasts a
  · simp [hsame, hno]
  · simp [hadd, Event.isBroadcast]
  · simp [hset, hno]

/-! ## Runs -/

open LabelledRun (Run)

theorem sound_fresh : Sound build involved {} where
  running := rfl
  socket := rfl
  free := by simp
  listening := List.nil_subset _
  decodes := by simp [Listening.inHand]
  nodup := List.nodup_nil
  known := by simp
  connectedPeers := List.nil_subset _
  broadcasts := by simp
  outside _ _ := rfl
  ready _ _ := rfl

theorem sound_of_run (hdistinct : Distinct involved)
    (hrun : Run (CarefulStep build w involved) {} labels σ) : σ.Sound build involved :=
  hrun.invariant _ sound_fresh fun _ _ _ h hstep ↦ h.step (h.proceeds hdistinct hstep)

/-- Nothing fails in a careful run. -/
theorem run_proceeds (hdistinct : Distinct involved)
    (hrun : Run (CarefulStep build w involved) {} labels σ) :
    Run (fun σ e σ' ↦ σ.Sound build involved ∧ Proceeds build w involved σ e σ') {} labels σ := by
  induction hrun with
  | nil => exact .nil
  | snoc hrun hlast ih =>
      have hsound := sound_of_run hdistinct hrun
      exact ih.snoc ⟨hsound, hsound.proceeds hdistinct hlast⟩

variable (hrun : Run (fun σ e σ' ↦ σ.Sound build involved ∧ Proceeds build w involved σ e σ') {}
  labels σ)

include hrun

theorem arrived_of_run (a : NetAddress) :
    a ∈ σ.peers ↔ ∃ datagram, Event.arrive a datagram ∈ labels := by
  induction hrun with
  | nil => simp
  | snoc hrun hlast ih =>
      rw [hlast.2.mem_peers, ih]
      simp only [List.mem_append, List.mem_singleton, exists_or]
      simp only [eq_comm]

theorem recorded_of_run (a : NetAddress) : Recorded labels σ a := by
  induction hrun with
  | nil => exact ⟨rfl, by simp, by simp, by simp⟩
  | snoc hrun hlast ih => exact ih.step hlast.1 hlast.2 (arrived_of_run hrun a)

theorem datagrams_of_run (a : NetAddress) : labels.filterMap (Event.datagram build w a) =
    (labels.flatMap (Event.feed build w a)).filterMap Feed.datagram? ++ σ.inHand build a := by
  induction hrun with
  | nil => rfl
  | @snoc labels t u e hrun hlast ih =>
      rw [LabelledRun.filterMap_snoc, ih, List.append_assoc, hlast.2.inHand]
      simp

theorem announced_of_run (a : NetAddress) : σ.Announced a := by
  induction hrun with
  | nil => exact ⟨fun hc ↦ absurd hc.1 List.not_mem_nil, fun _ ↦ rfl⟩
  | snoc hrun hlast ih => exact ih.step hlast.1 hlast.2

theorem follows_of_run (a : NetAddress) :
    ∃ s, Lone.run build w a (labels.flatMap (Event.feed build w a)) = some s ∧ σ.Follows a s := by
  induction hrun with
  | nil => exact ⟨_, rfl, rfl, rfl, rfl⟩
  | snoc hrun hlast ih =>
      obtain ⟨s, hs, hfollows⟩ := ih
      obtain ⟨s', hs', hfollows'⟩ := hfollows.step hlast.1 hlast.2
      refine ⟨s', ?_, hfollows'⟩
      rw [List.flatMap_append, Lone.run, List.foldlM_append, ← Lone.run, hs]
      simpa using hs'

omit hrun

/-! ## One datagram in a fresh server -/

theorem decode_wire (hw : w.Documented) (build : Build) {p : Packet Buffer}
    (h : p.payload.payload.length ≤ 499) : decode build w p.wire = some p := by
  obtain ⟨hreceive, hread⟩ := Socket.receiveFrom_wire hw build {} h
  exact decode_eq_some_iff.mpr ⟨_, _, _, hreceive, hread⟩

/-- The server when it has received its first packet and is about to decode it. -/
def holding (source : NetAddress) (p : Packet Buffer) : Server where
  peers := [source]
  listening := .found source ⟨p.wire⟩
  callbacks := [.peerConnected source]

theorem run_holding (build : Build) (hw : w.Documented) {source : NetAddress}
    (hsource : source ∈ involved) {p : Packet Buffer} (h : p.payload.payload.length ≤ 499) :
    Run (CarefulStep build w involved) {} [.arrive source p.wire, .peerConnected]
      (holding source p) := by
  obtain ⟨hreceive, hread⟩ := Socket.receiveFrom_wire hw build {} h
  have hlookUp : Server.lookUp {} source ⟨p.wire⟩ =
      { peers := [source], listening := .added source ⟨p.wire⟩ } := by
    simp [Server.lookUp, tryGetPeer, addPeer]
  have harrive : Step build w {} (.arrive source p.wire)
      { peers := [source], listening := .added source ⟨p.wire⟩ } := by
    rw [← hlookUp]
    exact .arrive source p.wire _ {} rfl rfl rfl hreceive
  have hdecode := decode_wire hw build h
  exact (Run.nil.snoc ⟨⟨harrive, hsource, p, hdecode⟩, trivial⟩).snoc
    ⟨⟨.peerConnected source _ rfl rfl, trivial⟩, trivial⟩

/-- Two peers that only the port tells apart. -/
def firstPeer : NetAddress := { port := 1 }

def secondPeer : NetAddress := { port := 2 }

theorem distinct_peers : Distinct {firstPeer, secondPeer} := by
  rintro a (rfl | rfl) b (rfl | rfl) heq
  all_goals first | rfl | cases heq

def plainPacket : Packet Buffer := Packet.make .data .none ⟨[7]⟩

def unnumberedPacket : Packet Buffer := Packet.make .data .reliable {}

theorem received_unnumberedPacket (c : Connection Buffer) :
    c.received .debug unnumberedPacket = .error .assertionFailed := by
  have hrel : unnumberedPacket.isReliable = true := rfl
  have hid : unnumberedPacket.id = invalidId := rfl
  simp [Connection.received, hrel, hid, Build.assert]

/-! ## Independence -/

/-- In every run in which `Received` comes back and no call of `sendto` or
`recvfrom` fails, every address sees what a lone connection would show it. -/
theorem independent_of_careful_run (hdistinct : Distinct involved)
    (hrun : Run (CarefulStep build w involved) {} labels σ) (a : NetAddress) :
    Independent build w labels σ a := by
  have hsound := sound_of_run hdistinct hrun
  have hproceeds := run_proceeds hdistinct hrun
  obtain ⟨s, hs, hfollows⟩ := follows_of_run hproceeds a
  have hannounced := announced_of_run hproceeds a
  have hrecorded := recorded_of_run hproceeds a
  refine ⟨⟨s, hs, hfollows.sent, hfollows.delivered⟩, fun hno ↦ ?_, hannounced.connected,
    hannounced.unconnected, arrived_of_run hproceeds a, datagrams_of_run hproceeds a,
    hrecorded.scheduled, hrecorded.calls⟩
  have hrest : σ.listening.rest = [] := by
    cases hlistening : σ.listening with
    | processing rest => exact absurd hlistening (hno rest)
    | receiving | added | found | stuck => rfl
  rw [pending, hsound.ready a (by simp [hrest])]
  rfl

/-- What another peer sends. -/
def otherPacket : Packet Buffer := { Packet.make .data .reliable ⟨[8, 9]⟩ with id := 1 }

/-- Both peers send a datagram, and both are delivered. -/
def bothDelivered : List Event :=
  [.arrive firstPeer plainPacket.wire, .peerConnected, .received firstPeer plainPacket, .deliver,
    .next, .next, .arrive secondPeer otherPacket.wire, .peerConnected,
    .received secondPeer otherPacket, .deliver]

theorem independent_after_both :
    ∃ σ, Run (CarefulStep .debug .datagrams {firstPeer, secondPeer}) {} bothDelivered σ ∧
      σ.callbacks = [.peerConnected firstPeer, .dataReceived firstPeer ⟨[7]⟩,
        .peerConnected secondPeer, .dataReceived secondPeer ⟨[8, 9]⟩] ∧
      ∀ a, Independent .debug .datagrams bothDelivered σ a := by
  have hw := Winsock.datagrams_sends.toDocumented
  have hrun : Run (CarefulStep .debug .datagrams {firstPeer, secondPeer}) {} _
      (holding firstPeer plainPacket) := run_holding .debug hw (.inl rfl) (by decide)
  have hread := (Socket.receiveFrom_wire hw .debug {} (p := plainPacket) (by decide)).2
  have hreceived := Connection.received_of_unreliable .debug (.fresh firstPeer)
    (show plainPacket.isReliable = false by rfl)
  have hreceive : Server.Step .debug .datagrams (holding firstPeer plainPacket)
      (.received firstPeer plainPacket) _ :=
    .received firstPeer _ plainPacket {} _ [firstPeer] rfl rfl hread hreceived (List.Perm.refl _)
  have hcareful : (holding firstPeer plainPacket).Careful .debug .datagrams
      (.received firstPeer plainPacket) := fun hrel ↦ by cases hrel
  have hrun₁ := hrun.snoc ⟨⟨hreceive, trivial⟩, hcareful⟩
  have hrun₂ := hrun₁.snoc ⟨⟨.deliver firstPeer [] plainPacket _ rfl rfl
    (Connection.popReadyIncomingPacket_eq_some_iff.mpr ⟨[], by simp; rfl, rfl⟩), trivial⟩, trivial⟩
  have hrun₃ := hrun₂.snoc ⟨⟨.nextReceived firstPeer [] rfl rfl rfl, trivial⟩, trivial⟩
  have hrun₄ := hrun₃.snoc ⟨⟨.endReceived rfl rfl, trivial⟩, trivial⟩
  -- the other peer
  obtain ⟨hreceive', hread'⟩ :=
    Socket.receiveFrom_wire hw .debug {} (p := otherPacket) (by decide)
  obtain ⟨c, c', hreceived', hpop⟩ : ∃ c c',
      (Connection.fresh secondPeer).received .debug otherPacket = .ok c ∧
        c.popReadyIncomingPacket = some (otherPacket, c') := ⟨_, _, rfl, rfl⟩
  have hdecode : decode .debug .datagrams otherPacket.wire = some otherPacket :=
    decode_wire hw .debug (by decide)
  have hrun₅ := hrun₄.snoc ⟨⟨.arrive secondPeer otherPacket.wire _ _ rfl rfl rfl hreceive',
    .inr rfl, _, hdecode⟩, trivial⟩
  have hrun₆ := hrun₅.snoc ⟨⟨.peerConnected secondPeer ⟨otherPacket.wire⟩ rfl rfl, trivial⟩,
    trivial⟩
  have hrun₇ := hrun₆.snoc ⟨⟨.received secondPeer ⟨otherPacket.wire⟩ otherPacket {} c
    [secondPeer, firstPeer] rfl rfl hread' hreceived' (List.Perm.swap _ _ _), trivial⟩,
    fun _ hid ↦ absurd hid (by decide)⟩
  have hrun₈ := hrun₇.snoc ⟨⟨.deliver secondPeer [firstPeer] otherPacket c' rfl rfl hpop, trivial⟩,
    trivial⟩
  exact ⟨_, hrun₈, rfl, fun a ↦ independent_of_careful_run distinct_peers hrun₈ a⟩

/-- One peer sends a reliable packet with the id `0`. The assertion of `Received`
ends the process, and the data that the other peer sends is never delivered. -/
theorem not_independent_after_unnumbered :
    ∃ σ, Run (AssumedStep .debug .datagrams {firstPeer, secondPeer}) {}
      [.arrive firstPeer unnumberedPacket.wire, .peerConnected,
        .received firstPeer unnumberedPacket, .ignored secondPeer plainPacket.wire] σ ∧
      Distinct {firstPeer, secondPeer} ∧
      ¬ Independent .debug .datagrams
        [.arrive firstPeer unnumberedPacket.wire, .peerConnected,
          .received firstPeer unnumberedPacket, .ignored secondPeer plainPacket.wire] σ
        secondPeer := by
  have hw := Winsock.datagrams_sends.toDocumented
  have hrun : Run (AssumedStep .debug .datagrams {firstPeer, secondPeer}) {} _
      (holding firstPeer unnumberedPacket) :=
    (run_holding .debug hw (.inl rfl) (by decide)).mono fun _ _ _ h ↦ h.toAssumedStep
  have hread :=
    (Socket.receiveFrom_wire hw .debug {} (p := unnumberedPacket) (by decide)).2
  have hdecode : decode .debug .datagrams plainPacket.wire = some plainPacket :=
    decode_wire hw .debug (by decide)
  have hfault : Server.Step .debug .datagrams (holding firstPeer unnumberedPacket)
      (.received firstPeer unnumberedPacket)
      { holding firstPeer unnumberedPacket with aborted := true } :=
    .receivedFault firstPeer _ unnumberedPacket {} .assertionFailed rfl rfl hread
      (received_unnumberedPacket _)
  refine ⟨{ holding firstPeer unnumberedPacket with aborted := true },
    (hrun.snoc ⟨hfault, trivial⟩).snoc ⟨.ignored _ _ (.inl rfl), .inr rfl, _, hdecode⟩,
    distinct_peers, fun h ↦ ?_⟩
  have hlone := Lone.delivered_of_unreliable .debug .datagrams secondPeer (p := plainPacket) rfl
  obtain ⟨s, hs, -, hdelivered⟩ := h.lone
  have hne : firstPeer ≠ secondPeer := by decide
  have hfeeds : ([.arrive firstPeer unnumberedPacket.wire, .peerConnected,
      .received firstPeer unnumberedPacket, .ignored secondPeer plainPacket.wire] :
        List Event).flatMap (Event.feed .debug .datagrams secondPeer) =
      [.datagram plainPacket] := by
    simp [Event.feed, hne, hdecode]
  rw [hfeeds] at hs
  rw [hs, Option.map_some, ← hdelivered] at hlone
  cases hlone

end Server

end GioNet
