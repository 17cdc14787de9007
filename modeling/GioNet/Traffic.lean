import GioNet.Client
import GioNet.OrderedDelivery
import GioNet.Peers
import GioNet.Provenance

/-!
# The traffic between the server and one client

What the server and one client share: their two connections and the datagrams
between them. `Side.a` is the server and `Side.b` the client. Every step of the
traffic is matched by a run of a link, whose network keeps all that was ever popped.
-/

namespace GioNet

/-! ## Packets of messages -/

theorem Message.packet_isReliable (m : Message) : m.packet.isReliable = m.reliable := by
  cases hm : m.reliable with
  | true => rw [packet, hm, if_pos rfl, Packet.make_isReliable]
  | false =>
      rw [packet, hm, if_neg Bool.false_ne_true]
      exact Packet.make_data_isReliable m.data

theorem Message.packet_getType (m : Message) : m.packet.getType = .data := by
  cases hm : m.reliable <;> simp [packet, hm, Packet.getType, Packet.make, Packet.setFlags] <;>
    decide

/-- What the packet may carry if these messages have been sent: a reliable packet
is of type data, and an unreliable one of that type carries one of the messages. -/
structure Carries (messages : List Message) (p : Packet Buffer) : Prop where
  small : p.payload.payload.length ≤ 499
  data : p.isReliable = true → p.getType = .data
  unreliable : p.isReliable = false → p.getType = .data →
    ∃ m ∈ messages, m.reliable = false ∧ m.data = p.payload

theorem Carries.steady (messages : List Message) : Packet.Steady (Carries messages) :=
  fun _ _ _ _ h ↦ ⟨h.small, h.data, h.unreliable⟩

theorem Carries.append {messages : List Message} {p : Packet Buffer} (h : Carries messages p)
    (m : Message) : Carries (messages ++ [m]) p := by
  refine ⟨h.small, h.data, fun hrel hdata ↦ ?_⟩
  obtain ⟨m', hm', hboth⟩ := h.unreliable hrel hdata
  exact ⟨m', List.mem_append_left _ hm', hboth⟩

theorem carries_packet (messages : List Message) {m : Message}
    (hsmall : m.data.payload.length ≤ 499) : Carries (messages ++ [m]) m.packet := by
  refine ⟨?_, fun _ ↦ m.packet_getType, fun hrel _ ↦ ?_⟩
  · rwa [Message.packet_payload]
  · rw [Message.packet_isReliable] at hrel
    exact ⟨m, by simp, hrel, (Message.packet_payload m).symm⟩

/-! ## Traffic and links -/

structure Traffic where
  connection : Side → Connection Buffer
  /-- The datagrams of a side that are on their way or in hand at the other. -/
  inFlight : Side → List (List UInt8)
  /-- The messages that a side has scheduled. -/
  messages : Side → List Message
  /-- The data that a side has handed over. -/
  handed : Side → List Buffer

namespace Traffic

/-- The link that the traffic is a view of. -/
structure Linked (build : Build) (address : Side → NetAddress) (v : Traffic) (l : Link Buffer) :
    Prop where
  reachable : Link.Reachable build address l
  connection : ∀ s, (l.endpoint s).connection = v.connection s
  inFlight : ∀ s, ∀ datagram ∈ v.inFlight s, ∃ p ∈ l.network s, datagram = p.wire
  carries : ∀ s, (l.stream s).Holds (Carries (v.messages s))
  typed : (l.stream .a).Holds fun p ↦ p.getType = .data
  scheduled : ∀ s, (l.endpoint s).scheduled.map (·.payload) =
    ((v.messages s).filter (·.reliable)).map (·.data)
  handed : ∀ s, v.handed s = dataOf (l.endpoint s).consumed

variable {build : Build} {address : Side → NetAddress} {v : Traffic} {l : Link Buffer} {s : Side}

/-- Datagrams may be lost. -/
theorem Linked.congr {v' : Traffic} (h : v.Linked build address l)
    (hconnection : ∀ s, v'.connection s = v.connection s)
    (hinFlight : ∀ s, v'.inFlight s ⊆ v.inFlight s)
    (hmessages : ∀ s, v'.messages s = v.messages s) (hhanded : ∀ s, v'.handed s = v.handed s) :
    v'.Linked build address l := by
  refine ⟨h.reachable, ?_, ?_, ?_, h.typed, ?_, ?_⟩
  · exact fun s ↦ (h.connection s).trans (hconnection s).symm
  · exact fun s datagram hmem ↦ h.inFlight s datagram (hinFlight s hmem)
  · exact fun s ↦ hmessages s ▸ h.carries s
  · exact fun s ↦ hmessages s ▸ h.scheduled s
  · exact fun s ↦ (hhanded s).trans (h.handed s)

theorem Linked.schedule (h : v.Linked build address l) (s : Side) {m : Message}
    (hsmall : m.data.payload.length ≤ 499) :
    ∃ l', Linked build address { v with
      connection := Function.update v.connection s ((v.connection s).schedule m.packet)
      messages := Function.update v.messages s (v.messages s ++ [m]) } l' := by
  have hstep : Link.Step build l (.schedule s m.packet) _ := .schedule s m.packet
  refine ⟨_, h.reachable.tail hstep, ?_, h.inFlight, ?_, ?_, ?_, ?_⟩
  · intro t
    rcases Side.eq_or_eq_other t s with rfl | rfl
    · simp [Endpoint.schedule, h.connection]
    · simpa using h.connection s.other
  · intro t
    refine Stream.Holds.step ?_ (Carries.steady _) (hstep.stream t) fun p hp ↦ ?_
    · refine (h.carries t).mono fun p hp ↦ ?_
      dsimp only
      rw [Function.update_apply]
      split
      · rename_i ht
        exact ht ▸ hp.append m
      · exact hp
    · have heq := Action.event_eq_schedule hp
      rw [Action.schedule.injEq] at heq
      obtain ⟨ht, hpacket⟩ := heq
      simpa [ht, ← hpacket] using carries_packet (v.messages t) hsmall
  · refine h.typed.step (fun _ _ _ _ hp ↦ hp) (hstep.stream .a) fun p hp ↦ ?_
    have heq := Action.event_eq_schedule hp
    rw [Action.schedule.injEq] at heq
    rw [← heq.2]
    exact m.packet_getType
  · intro t
    rcases Side.eq_or_eq_other t s with rfl | rfl
    · cases hrel : m.reliable <;>
        simp [Endpoint.schedule, Message.packet_isReliable, hrel, h.scheduled]
    · simpa using h.scheduled s.other
  · intro t
    rcases Side.eq_or_eq_other t s with rfl | rfl
    · simpa [Endpoint.schedule] using h.handed t
    · simpa using h.handed s.other

/-- The parts of a link that are histories of scheduling. -/
theorem Linked.of_step {a : Action Buffer} {l' : Link Buffer} {v' : Traffic}
    (h : v.Linked build address l) (hstep : Link.Step build l a l')
    (ha : ∀ s p, a ≠ .schedule s p) (hmessages : v'.messages = v.messages)
    (hconnection : ∀ s, (l'.endpoint s).connection = v'.connection s)
    (hinFlight : ∀ s, ∀ datagram ∈ v'.inFlight s, ∃ p ∈ l'.network s, datagram = p.wire)
    (hhanded : ∀ s, v'.handed s = dataOf (l'.endpoint s).consumed) :
    v'.Linked build address l' := by
  refine ⟨h.reachable.tail hstep, hconnection, hinFlight, ?_, ?_, ?_, hhanded⟩
  · intro s
    rw [hmessages]
    exact (h.carries s).step (Carries.steady _) (hstep.stream s) fun p hp ↦
      absurd (Action.event_eq_schedule hp) (ha s p)
  · exact h.typed.step (fun _ _ _ _ hp ↦ hp) (hstep.stream .a) fun p hp ↦
      absurd (Action.event_eq_schedule hp) (ha .a p)
  · intro s
    rw [hmessages, ← h.scheduled s]
    have hsame : (l'.endpoint s).scheduled = (l.endpoint s).scheduled := by
      cases hstep with
      | schedule t p => exact absurd rfl (ha t p)
      | drop t i => rfl
      | pop t p c hpop | receive t p c hmem hreceived | consume t p c hpop =>
          rcases Side.eq_or_eq_other s t with rfl | rfl <;> simp
    rw [hsame]

theorem Linked.pop (h : v.Linked build address l) {p : Packet Buffer} {c : Connection Buffer}
    (hpop : (v.connection s).popReadyOutgoingPacket = some (p, c)) :
    ∃ l', Linked build address { v with
      connection := Function.update v.connection s c
      inFlight := Function.update v.inFlight s (v.inFlight s ++ [p.wire]) } l' := by
  rw [← h.connection s] at hpop
  have hstep : Link.Step build l (.pop s) _ := .pop s p c hpop
  refine ⟨_, h.of_step hstep (fun _ _ ↦ by simp) rfl ?_ ?_ ?_⟩
  · intro t
    rcases Side.eq_or_eq_other t s with rfl | rfl
    · simp
    · simpa using h.connection s.other
  · intro t datagram hmem
    rcases Side.eq_or_eq_other t s with rfl | rfl
    · simp only [Function.update_self, List.mem_append, List.mem_singleton] at hmem
      rcases hmem with hmem | heq
      · obtain ⟨q, hq, hwire⟩ := h.inFlight t datagram hmem
        exact ⟨q, by simp [hq], hwire⟩
      · exact ⟨p, by simp, heq⟩
    · simp only [Function.update_of_ne (Side.other_ne s)] at hmem
      simpa using h.inFlight s.other datagram hmem
  · intro t
    rcases Side.eq_or_eq_other t s with rfl | rfl
    · simpa using h.handed t
    · simpa using h.handed s.other

theorem Linked.consume (h : v.Linked build address l) {p : Packet Buffer} {c : Connection Buffer}
    (hpop : (v.connection s).popReadyIncomingPacket = some (p, c)) :
    ∃ l', Linked build address { v with
      connection := Function.update v.connection s c
      handed := Function.update v.handed s (v.handed s ++ dataOf [p]) } l' := by
  rw [← h.connection s] at hpop
  have hstep : Link.Step build l (.consume s) _ := .consume s p c hpop
  refine ⟨_, h.of_step hstep (fun _ _ ↦ by simp) rfl ?_ h.inFlight ?_⟩
  · intro t
    rcases Side.eq_or_eq_other t s with rfl | rfl
    · simp
    · simpa using h.connection s.other
  · intro t
    rcases Side.eq_or_eq_other t s with rfl | rfl
    · simp [h.handed, dataOf]
    · simpa using h.handed s.other

/-- A datagram on its way is the wire form of a packet in the network of the link. -/
theorem Linked.packetOf_mem (h : v.Linked build address l) {datagram : List UInt8}
    (hmem : datagram ∈ v.inFlight s) :
    packetOf datagram ∈ l.network s ∧ datagram = (packetOf datagram).wire ∧
      (packetOf datagram).payload.payload.length ≤ 499 := by
  obtain ⟨p, hp, hwire⟩ := h.inFlight s datagram hmem
  have hsmall := ((h.carries s).inFlight p hp).small
  have hpacket : packetOf datagram = p := by
    rw [hwire]
    exact (frame_of_wire (by omega)).2
  rw [hpacket]
  exact ⟨hp, hwire, hsmall⟩

theorem Linked.packetOf_wire (h : v.Linked build address l) {p : Packet Buffer}
    (hmem : p.wire ∈ v.inFlight s) : packetOf p.wire = p := by
  obtain ⟨-, hwire, hsmall⟩ := h.packetOf_mem hmem
  have hlength := congrArg List.length hwire
  rw [p.wire_length, (packetOf p.wire).wire_length] at hlength
  exact (frame_of_wire (by omega)).2

/-- All that is sent can be received. -/
theorem Linked.formed (h : v.Linked build address l) {datagram : List UInt8}
    (hmem : datagram ∈ v.inFlight s) : datagram.length ≤ bufferMax ∧ WellFormed datagram := by
  obtain ⟨hnetwork, hwire, hsmall⟩ := h.packetOf_mem hmem
  have hlength := (packetOf datagram).wire_length
  have hgenuine := (h.reachable.copies s).inFlight _ hnetwork
  rw [hwire, bufferMax]
  exact ⟨by omega, wellFormed_wire (by omega) hgenuine.id_ne⟩

theorem Linked.id_ne (h : v.Linked build address l) {p : Packet Buffer}
    (hmem : p.wire ∈ v.inFlight s) (hrel : p.isReliable = true) : p.id ≠ Packet.invalidId := by
  have hpacket := h.packetOf_wire hmem
  have hformed := (h.formed hmem).2
  rw [← hpacket] at hrel ⊢
  exact hformed.id_ne_invalidId hrel

theorem Linked.small_queued (h : v.Linked build address l) {p : Packet Buffer}
    {c : Connection Buffer}
    (hpop : (v.connection s).popReadyOutgoingPacket = some (p, c)) :
    p.payload.payload.length ≤ 499 := by
  obtain ⟨q, rest, hready, -, rfl⟩ := Connection.popReadyOutgoingPacket_eq_some_iff.mp hpop
  rw [← h.connection s] at hready
  exact ((h.carries s).queued q (hready ▸ List.mem_cons_self)).small

/-- The client is sent packets of type data only. -/
theorem Linked.typed_ready (h : v.Linked build address l) {p : Packet Buffer}
    {c : Connection Buffer} (hpop : (v.connection .b).popReadyIncomingPacket = some (p, c)) :
    p.getType = .data := by
  obtain ⟨rest, hready, -⟩ := Connection.popReadyIncomingPacket_eq_some_iff.mp hpop
  rw [← h.connection .b] at hready
  exact h.typed.ready p (hready ▸ List.mem_cons_self)

theorem Linked.receive (h : v.Linked build address l) {p : Packet Buffer} {c : Connection Buffer}
    (hmem : p.wire ∈ v.inFlight s.other)
    (hreceived : (v.connection s).received build p = .ok c) :
    ∃ l', Linked build address { v with connection := Function.update v.connection s c } l' := by
  have hnetwork := (h.packetOf_mem hmem).1
  rw [h.packetOf_wire hmem] at hnetwork
  rw [← h.connection s] at hreceived
  have hstep : Link.Step build l (.receive s p) _ := .receive s p c hnetwork hreceived
  refine ⟨_, h.of_step hstep (fun _ _ ↦ by simp) rfl ?_ h.inFlight ?_⟩
  · intro t
    rcases Side.eq_or_eq_other t s with rfl | rfl
    · simp
    · simpa using h.connection s.other
  · intro t
    rcases Side.eq_or_eq_other t s with rfl | rfl
    · simpa using h.handed t
    · simpa using h.handed s.other

/-! ## The start of a client -/

def started (address : Side → NetAddress) : Traffic where
  connection s := .fresh (address s)
  inFlight
    | .a => []
    | .b => [Client.pingPacket.wire]
  messages _ := []
  handed _ := []

theorem carries_ping : Carries [] Client.pingPacket :=
  ⟨by decide, by decide, by decide⟩

/-- A link whose client has scheduled and popped the ping. -/
def startedLink (address : Side → NetAddress) : Link Buffer :=
  (Link.fresh address).setNetwork .b [Client.pingPacket]

theorem reachable_startedLink (build : Build) (address : Side → NetAddress) :
    Link.Reachable build address (startedLink address) := by
  have hschedule : Link.Step build (Link.fresh address) (.schedule .b Client.pingPacket) _ :=
    .schedule .b Client.pingPacket
  have hpop : Link.Step build _ (.pop .b) _ := .pop (l := (Link.fresh address).setEndpoint .b
    (((Link.fresh address).endpoint .b).schedule Client.pingPacket)) .b Client.pingPacket
    (.fresh (address .b)) rfl
  have hreach := ((LabelledRun.Reaches.refl _).tail hschedule).tail hpop
  rw [Link.Reachable]
  convert hreach using 1
  rw [startedLink, Link.setNetwork, Link.setNetwork, Link.mk.injEq]
  refine ⟨?_, rfl⟩
  funext s
  cases s <;> rfl

/-- `Start` sends the ping past the connection, and what it sends is what an
unused connection would have made of it. -/
theorem linked_started (build : Build) (address : Side → NetAddress) :
    (started address).Linked build address (startedLink address) := by
  have hholds : ∀ (P : Packet Buffer → Prop) (s : Side), (s = .b → P Client.pingPacket) →
      ((startedLink address).stream s).Holds P := by
    intro P s hping
    refine { Link.holds_fresh P address s with inFlight := ?_ }
    intro p hp
    cases s with
    | a => cases hp
    | b => exact List.mem_singleton.mp hp ▸ hping rfl
  refine ⟨reachable_startedLink build address, fun _ ↦ rfl, ?_, ?_, ?_, fun _ ↦ rfl, fun _ ↦ rfl⟩
  · rintro (_ | _) datagram hmem
    · cases hmem
    · exact ⟨Client.pingPacket, List.mem_singleton_self _, List.mem_singleton.mp hmem⟩
  · exact fun s ↦ hholds _ s fun _ ↦ carries_ping
  · exact hholds _ .a fun hs ↦ by cases hs

/-! ## What is handed over -/

/-- The data are those of messages that have been sent, and the reliable ones
among these are the first of the reliable ones that have been sent, in order. -/
def Delivered (sent : List Message) (handed : List Buffer) : Prop :=
  ∃ messages : List Message, handed = messages.map (·.data) ∧ messages ⊆ sent ∧
    messages.filter (·.reliable) <+: sent.filter (·.reliable)

theorem Delivered.prefix_of_reliable {sent : List Message} {handed : List Buffer}
    (h : Delivered sent handed) (hreliable : ∀ m ∈ sent, m.reliable = true) :
    handed <+: sent.map (·.data) := by
  obtain ⟨messages, rfl, hsub, hprefix⟩ := h
  rw [List.filter_eq_self.mpr fun m hm ↦ hreliable m (hsub hm),
    List.filter_eq_self.mpr hreliable] at hprefix
  exact hprefix.map _

def messagesOf (packets : List (Packet Buffer)) : List Message :=
  (packets.filter fun p ↦ p.getType = .data).map fun p ↦ ⟨p.isReliable, p.payload⟩

theorem dataOf_eq_messagesOf (packets : List (Packet Buffer)) :
    dataOf packets = (messagesOf packets).map (·.data) := by
  induction packets with
  | nil => rfl
  | cons p packets ih =>
      by_cases hdata : p.getType = .data <;>
        simpa [dataOf, messagesOf, hdata] using ih

/-- Reliable messages are told apart by their data. -/
theorem filter_reliable_eq (messages : List Message) :
    messages.filter (·.reliable) =
      ((messages.filter (·.reliable)).map (·.data)).map fun data ↦ ⟨true, data⟩ := by
  induction messages with
  | nil => rfl
  | cons m messages ih =>
      obtain ⟨reliable, data⟩ := m
      cases reliable with
      | false => simpa using ih
      | true => simpa using ih

theorem filter_messagesOf {packets : List (Packet Buffer)}
    (h : ∀ p ∈ packets, p.isReliable = true → p.getType = .data) :
    (messagesOf packets).filter (·.reliable) =
      ((packets.filter Packet.isReliable).map (·.payload)).map fun data ↦ ⟨true, data⟩ := by
  induction packets with
  | nil => rfl
  | cons p packets ih =>
      have hrest := ih fun q hq ↦ h q (List.mem_cons_of_mem p hq)
      have hp := h p List.mem_cons_self
      cases hrel : p.isReliable with
      | false =>
          by_cases hdata : p.getType = .data <;>
            simpa [messagesOf, hdata, hrel] using hrest
      | true => simpa [messagesOf, hp hrel, hrel] using hrest

theorem Linked.prefix_consumed (h : v.Linked build address l)
    (hbound : ((v.messages s).filter (·.reliable)).length ≤ 65534) :
    (messagesOf (l.endpoint s.other).consumed).filter (·.reliable) <+:
      (v.messages s).filter (·.reliable) := by
  have hlength := congrArg List.length (h.scheduled s)
  simp only [List.length_map] at hlength
  obtain ⟨d, -, -, hpayloads⟩ :=
    (h.reachable.ordered s (by rw [hlength, idPeriod]; omega)).delivered
  have hconsumed : ((l.endpoint s.other).consumed.filter Packet.isReliable).map (·.payload) <+:
      ((v.messages s).filter (·.reliable)).map (·.data) := by
    have hall : (l.stream s).deliveredReliable.map Packet.payload <+: _ :=
      hpayloads ▸ List.take_prefix d _
    rw [Stream.deliveredReliable, List.filter_append, List.map_append] at hall
    exact (List.prefix_append _ _).trans (h.scheduled s ▸ hall)
  have hdata : ∀ p ∈ (l.endpoint s.other).consumed, p.isReliable = true → p.getType = .data :=
    fun p hp ↦ ((h.carries s).consumed p hp).data
  rw [filter_messagesOf hdata, filter_reliable_eq (v.messages s)]
  exact hconsumed.map _

/-- However many messages there are, all that is handed over has been sent. -/
theorem Linked.provenance (h : v.Linked build address l) {data : Buffer}
    (hdata : data ∈ v.handed s.other) : ∃ m ∈ v.messages s, m.data = data := by
  rw [h.handed, dataOf_eq_messagesOf] at hdata
  obtain ⟨m, hm, rfl⟩ := List.mem_map.mp hdata
  obtain ⟨p, hp, rfl⟩ := List.mem_map.mp hm
  obtain ⟨hconsumed, htype⟩ := List.mem_filter.mp hp
  cases hrel : p.isReliable with
  | true =>
      obtain ⟨q, hq, hpayload⟩ := (h.reachable.stems s).consumed p hconsumed hrel
      have hscheduled : q.payload ∈ ((v.messages s).filter (·.reliable)).map (·.data) :=
        h.scheduled s ▸ List.mem_map_of_mem hq
      obtain ⟨m', hm', hsame⟩ := List.mem_map.mp hscheduled
      exact ⟨m', List.mem_of_mem_filter hm', hsame.trans hpayload⟩
  | false =>
      obtain ⟨m', hm', -, hsame⟩ := ((h.carries s).consumed p hconsumed).unreliable hrel
        (by simpa using htype)
      exact ⟨m', hm', hsame⟩

theorem Linked.delivered (h : v.Linked build address l)
    (hbound : ((v.messages s).filter (·.reliable)).length ≤ 65534) :
    Delivered (v.messages s) (v.handed s.other) := by
  have hfirst := h.prefix_consumed hbound
  refine ⟨messagesOf (l.endpoint s.other).consumed, ?_, ?_, hfirst⟩
  · rw [h.handed, dataOf_eq_messagesOf]
  · intro m hm
    obtain ⟨p, hp, hmessage⟩ := List.mem_map.mp hm
    obtain ⟨hconsumed, hdata⟩ := List.mem_filter.mp hp
    cases hrel : p.isReliable with
    | true =>
        have hreliable : m.reliable = true := by rw [← hmessage, hrel]
        exact List.mem_of_mem_filter (hfirst.subset (List.mem_filter.mpr ⟨hm, hreliable⟩))
    | false =>
        obtain ⟨m', hm', hboth⟩ := ((h.carries s).consumed p hconsumed).unreliable hrel
          (by simpa using hdata)
        have heq : m' = m := by
          rw [← hmessage, hrel, ← hboth.1, ← hboth.2]
        exact heq ▸ hm'

end Traffic

end GioNet
