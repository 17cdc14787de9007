import GioNet.EndToEnd
import GioNet.PeerMap
import GioNet.Library.DecimalText

/-!
# Endpoints

The operating system names the other end of a datagram by the four bytes of an
IPv4 address and a port in network byte order. `ReceiveFrom` and
`AcceptConnection` make a network address of that, and `SendTo` goes the other
way. The conversions are those of Winsock.
-/

namespace GioNet

open DecimalText LabelledRun

/-- `in_addr`. -/
structure InAddr where
  b1 : UInt8 := 0
  b2 : UInt8 := 0
  b3 : UInt8 := 0
  b4 : UInt8 := 0
  deriving DecidableEq, Repr

/-- `sockaddr_in`, with the family `AF_INET`. -/
structure SockaddrIn where
  sinPort : UInt16
  sinAddr : InAddr
  deriving DecidableEq, Repr

def fullStop : UInt8 := 46

def InAddr.bytes (a : InAddr) : List ℕ := [a.b1.toNat, a.b2.toNat, a.b3.toNat, a.b4.toNat]

/-- The bytes in decimal, with full stops between them. -/
def InAddr.dotted (a : InAddr) : StdString := joined fullStop a.bytes

/-- The conversions of Winsock, for the family `AF_INET`. `inetPton` gives `none` for a
text that is no address. -/
structure Inet where
  htons : UInt16 → UInt16
  ntohs : UInt16 → UInt16
  inetNtop : InAddr → StdString
  inetPton : StdString → Option InAddr

/-- The network has the high byte of a number first, the host the low byte. -/
structure Inet.Documented (inet : Inet) : Prop where
  htons_toNat : ∀ port, (inet.htons port).toNat = port.toNat % 256 * 256 + port.toNat / 256
  ntohs_toNat : ∀ port, (inet.ntohs port).toNat = port.toNat % 256 * 256 + port.toNat / 256
  inetNtop_eq : ∀ a, inet.inetNtop a = a.dotted
  inetPton_dotted : ∀ a, inet.inetPton a.dotted = some a

/-- The address that `ReceiveFrom` writes to `outFrom`. -/
def SockaddrIn.netAddress (inet : Inet) (source : SockaddrIn) : NetAddress :=
  ⟨inet.inetNtop source.sinAddr, inet.ntohs source.sinPort⟩

/-- The address that `AcceptConnection` gives to the new socket. -/
def SockaddrIn.acceptedAddress (inet : Inet) (addr : SockaddrIn) : NetAddress :=
  ⟨inet.inetNtop addr.sinAddr, addr.sinPort⟩

/-- The endpoint that `SendTo` sends to. The address of a text that `inet_pton`
does not accept stays zero. -/
def NetAddress.sockaddr (inet : Inet) (destination : NetAddress) : SockaddrIn :=
  ⟨inet.htons destination.port, (inet.inetPton destination.ip).getD {}⟩

/-- Four numbers below `256`, with full stops between them. -/
def dottedDecimal (text : StdString) : Option InAddr :=
  match separated fullStop text with
  | some [b1, b2, b3, b4] =>
      if b1 < 256 ∧ b2 < 256 ∧ b3 < 256 ∧ b4 < 256 then
        some ⟨.ofNat b1, .ofNat b2, .ofNat b3, .ofNat b4⟩
      else none
  | _ => none

theorem isDigit_fullStop : isDigit fullStop = false := by decide

theorem separated_dotted (a : InAddr) : separated fullStop a.dotted = some a.bytes :=
  separated_joined isDigit_fullStop (by simp [InAddr.bytes])

theorem dottedDecimal_dotted (a : InAddr) : dottedDecimal a.dotted = some a := by
  have hlt : ∀ b : UInt8, b.toNat < 256 := fun b ↦ b.toNat_lt
  simp [dottedDecimal, separated_dotted, InAddr.bytes, hlt]

theorem dotted_injective : Function.Injective InAddr.dotted := by
  intro a b h
  simpa [dottedDecimal_dotted] using congrArg dottedDecimal h

theorem dotted_eq (a : InAddr) : a.dotted = decimal a.b1.toNat ++ fullStop ::
    joined fullStop [a.b2.toNat, a.b3.toNat, a.b4.toNat] := by
  simp [InAddr.dotted, joined, InAddr.bytes, List.intercalate_cons_cons]

/-- The text of an address fits into the arrays that it is written to. -/
theorem length_dotted (a : InAddr) : a.dotted.length ≤ 15 := by
  have hdecimal : ∀ b : UInt8, (decimal b.toNat).length ≤ 3 := by
    intro b
    have hlt := b.toNat_lt
    exact (length_decimal_le_iff (by decide)).mpr (by omega)
  have h1 := hdecimal a.b1
  have h2 := hdecimal a.b2
  have h3 := hdecimal a.b3
  have h4 := hdecimal a.b4
  simp only [InAddr.dotted, joined, InAddr.bytes, List.map_cons, List.map_nil,
    List.intercalate_cons_cons, List.intercalate_singleton, List.length_append, List.length_cons,
    List.length_nil]
  omega

namespace Inet

/-- A little-endian host. -/
def littleEndian : Inet where
  htons port := .ofNat (port.toNat % 256 * 256 + port.toNat / 256)
  ntohs port := .ofNat (port.toNat % 256 * 256 + port.toNat / 256)
  inetNtop := InAddr.dotted
  inetPton := dottedDecimal

theorem littleEndian_documented : littleEndian.Documented := by
  have hswap : ∀ port : UInt16,
      (UInt16.ofNat (port.toNat % 256 * 256 + port.toNat / 256)).toNat =
        port.toNat % 256 * 256 + port.toNat / 256 := by
    intro port
    have hlt := port.toNat_lt
    exact Nat.mod_eq_of_lt (by omega)
  exact ⟨hswap, hswap, fun _ ↦ rfl, dottedDecimal_dotted⟩

namespace Documented

variable {inet : Inet}

theorem htons_ntohs (h : inet.Documented) (port : UInt16) :
    inet.htons (inet.ntohs port) = port := by
  have hlt := port.toNat_lt
  apply UInt16.toNat_inj.mp
  rw [h.htons_toNat, h.ntohs_toNat]
  omega

theorem ntohs_injective (h : inet.Documented) : Function.Injective inet.ntohs := by
  intro p q hpq
  rw [← h.htons_ntohs p, hpq, h.htons_ntohs]

/-- The port is the same in both byte orders if its bytes are equal. -/
theorem ntohs_eq_self_iff (h : inet.Documented) (port : UInt16) :
    inet.ntohs port = port ↔ port.toNat % 256 = port.toNat / 256 := by
  have hlt := port.toNat_lt
  rw [← UInt16.toNat_inj, h.ntohs_toNat]
  omega

/-- The loopback addresses are those that start with `127`. -/
theorem isLoopback_iff (h : inet.Documented) (source : SockaddrIn) :
    (source.netAddress inet).isLoopback = true ↔ source.sinAddr.b1 = 127 := by
  have hbegin : literal "127" <+: source.sinAddr.dotted ↔ source.sinAddr.b1 = 127 := by
    have hlt := source.sinAddr.b1.toNat_lt
    have h127 : (decimal 127).length = 3 := by decide
    have hlen : (decimal source.sinAddr.b1.toNat).length ≤ (decimal 127).length := by
      rw [h127]
      exact (length_decimal_le_iff (by decide)).mpr (by omega)
    rw [show literal "127" = decimal 127 by decide, dotted_eq,
      decimal_prefix_iff isDigit_fullStop _ hlen, ← UInt8.toNat_inj, eq_comm]
    rfl
  have hlocal : source.sinAddr.dotted ≠ literal "localhost" := by
    intro h
    have hsome := separated_dotted source.sinAddr
    rw [h, show separated fullStop (literal "localhost") = none by decide] at hsome
    cases hsome
  rw [NetAddress.isLoopback, SockaddrIn.netAddress, h.inetNtop_eq, Bool.or_eq_true,
    List.isPrefixOf_iff_prefix, beq_iff_eq]
  exact ⟨fun h ↦ hbegin.mp (h.resolve_right hlocal), fun h ↦ .inl (hbegin.mpr h)⟩

/-- Two endpoints have equal addresses if they are the same, or both loopback
endpoints of one port. -/
theorem netAddress_eq_iff (h : inet.Documented) (a b : SockaddrIn) :
    (a.netAddress inet).eq (b.netAddress inet) = true ↔
      a = b ∨ (a.sinPort = b.sinPort ∧ a.sinAddr.b1 = 127 ∧ b.sinAddr.b1 = 127) := by
  have hport : (a.netAddress inet).port = (b.netAddress inet).port ↔ a.sinPort = b.sinPort :=
    h.ntohs_injective.eq_iff
  have hip : (a.netAddress inet).ip = (b.netAddress inet).ip ↔ a.sinAddr = b.sinAddr := by
    rw [SockaddrIn.netAddress, SockaddrIn.netAddress, h.inetNtop_eq, h.inetNtop_eq]
    exact dotted_injective.eq_iff
  rw [NetAddress.eq_iff, h.isLoopback_iff, h.isLoopback_iff, hport, hip, SockaddrIn.mk.injEq]
  exact ⟨fun ⟨hp, h⟩ ↦ h.imp (⟨hp, ·⟩) (⟨hp, ·⟩), fun h ↦ h.elim (fun ⟨hp, h⟩ ↦ ⟨hp, .inl h⟩)
    fun ⟨hp, h⟩ ↦ ⟨hp, .inr h⟩⟩

theorem netAddress_injective (h : inet.Documented) :
    Function.Injective (SockaddrIn.netAddress inet) := by
  intro a b heq
  obtain ⟨hip, hport⟩ := NetAddress.mk.inj heq
  rw [h.inetNtop_eq, h.inetNtop_eq] at hip
  exact SockaddrIn.mk.injEq .. ▸ ⟨h.ntohs_injective hport, dotted_injective hip⟩

/-- What `SendTo` makes of an address that `ReceiveFrom` has given is the endpoint
that the datagram has come from. -/
theorem sockaddr_netAddress (h : inet.Documented) (source : SockaddrIn) :
    (source.netAddress inet).sockaddr inet = source := by
  simp [NetAddress.sockaddr, SockaddrIn.netAddress, h.htons_ntohs, h.inetNtop_eq,
    h.inetPton_dotted]

/-- The address of an accepted connection is that of its other end only if the two
bytes of the port are equal. -/
theorem acceptedAddress_eq_iff (h : inet.Documented) (addr : SockaddrIn) :
    addr.acceptedAddress inet = addr.netAddress inet ↔
      addr.sinPort.toNat % 256 = addr.sinPort.toNat / 256 := by
  rw [← h.ntohs_eq_self_iff, eq_comm]
  simp [SockaddrIn.acceptedAddress, SockaddrIn.netAddress]

end Documented

end Inet

/-- No two of the endpoints are loopback endpoints of one port. -/
def OneLoopback (endpoints : Set SockaddrIn) : Prop :=
  ∀ a ∈ endpoints, ∀ b ∈ endpoints, a.sinPort = b.sinPort → a.sinAddr.b1 = 127 →
    b.sinAddr.b1 = 127 → a = b

variable {inet : Inet}

theorem distinct_iff (h : inet.Documented) (endpoints : Set SockaddrIn) :
    Server.Distinct (SockaddrIn.netAddress inet '' endpoints) ↔ OneLoopback endpoints := by
  constructor
  · intro hdistinct a ha b hb hport haddr haddr'
    refine h.netAddress_injective (hdistinct _ ⟨a, ha, rfl⟩ _ ⟨b, hb, rfl⟩ ?_)
    exact (h.netAddress_eq_iff a b).mpr (.inr ⟨hport, haddr, haddr'⟩)
  · rintro hone _ ⟨a, ha, rfl⟩ _ ⟨b, hb, rfl⟩ heq
    rcases (h.netAddress_eq_iff a b).mp heq with rfl | ⟨hport, haddr, haddr'⟩
    · rfl
    · rw [hone a ha b hb hport haddr haddr']

/-! ## Whom the server answers -/

namespace Server

variable {build : Build} {w : Winsock} {σ σ' : Server} {e : Event} {labels : List Event}

theorem lookUp_addressees (source : NetAddress) (received : Buffer) :
    ((σ.lookUp source received).peers = σ.peers ∨
      (σ.lookUp source received).peers = σ.peers ++ [source]) ∧
        (σ.lookUp source received).connectedPeers = σ.connectedPeers ∧
          (σ.lookUp source received).sent = σ.sent ∧
            (σ.lookUp source received).socket = σ.socket := by
  unfold lookUp addPeer
  split
  · exact ⟨.inl rfl, rfl, rfl, rfl⟩
  · split
    · rename_i σ₁ hadd
      split at hadd
      · cases hadd
      · cases hadd
        exact ⟨.inr rfl, rfl, rfl, rfl⟩
    · exact ⟨.inl rfl, rfl, rfl, rfl⟩

/-- Only the source of a datagram becomes a peer, `SendThread` goes through the
peers, and it sends to those only. -/
theorem Step.addressees (h : Step build w σ e σ') :
    (σ'.peers = σ.peers ∨ ∃ source datagram, e = .arrive source datagram ∧
      σ'.peers = σ.peers ++ [source]) ∧
      (∀ a ∈ σ'.connectedPeers, a ∈ σ.connectedPeers ∨ a ∈ σ.peers) ∧
        ∀ m ∈ σ'.sent, m ∈ σ.sent ∨ m.1 ∈ σ.connectedPeers := by
  have hsame : (∀ a ∈ σ.connectedPeers, a ∈ σ.connectedPeers ∨ a ∈ σ.peers) ∧
      ∀ m ∈ σ.sent, m ∈ σ.sent ∨ m.1 ∈ σ.connectedPeers := ⟨fun _ ↦ .inl, fun _ ↦ .inl⟩
  cases h with
  | arrive source datagram received socket =>
      obtain ⟨hpeers, hconnected, hsent, -⟩ :=
        ({ σ with socket := socket } : Server).lookUp_addressees source received
      rw [hconnected, hsent]
      exact ⟨hpeers.imp_right fun hadded ↦ ⟨source, datagram, rfl, hadded⟩, hsame⟩
  | getPeers order _ _ _ horder =>
      exact ⟨.inl rfl, fun _ ha ↦ .inr (horder.mem_iff.mp ha), hsame.2⟩
  | drain peer rest packet c datagram socket _ hpeers =>
      refine ⟨.inl rfl, hsame.1, ?_⟩
      intro m hm
      rcases List.mem_append.mp hm with hold | hnew
      · exact .inl hold
      · obtain ⟨bytes, -, rfl⟩ := List.mem_map.mp hnew
        exact .inr (hpeers ▸ List.mem_cons_self)
  | nextPeer peer rest _ hpeers =>
      exact ⟨.inl rfl, fun _ ha ↦ .inl (hpeers ▸ List.mem_cons_of_mem _ ha), hsame.2⟩
  | receivedFault =>
      unfold fault
      split <;> exact ⟨.inl rfl, hsame⟩
  | _ => exact ⟨.inl rfl, hsame⟩

/-- Who the peers are, and who has been sent to. -/
structure Answering (labels : List Event) (σ : Server) : Prop where
  peers : ∀ a ∈ σ.peers, ∃ datagram, .arrive a datagram ∈ labels
  connectedPeers : ∀ a ∈ σ.connectedPeers, a ∈ σ.peers
  sent : ∀ m ∈ σ.sent, m.1 ∈ σ.peers

theorem Answering.step (h : Answering labels σ) (hstep : Step build w σ e σ') :
    Answering (labels ++ [e]) σ' := by
  obtain ⟨hpeers, hconnected, hsent⟩ := hstep.addressees
  have hold : ∀ a ∈ σ.peers, ∃ datagram, .arrive a datagram ∈ labels ++ [e] := by
    intro a ha
    obtain ⟨datagram, hmem⟩ := h.peers a ha
    exact ⟨datagram, List.mem_append_left _ hmem⟩
  have hsub : σ.peers ⊆ σ'.peers := by
    rcases hpeers with hpeers | ⟨source, datagram, -, hpeers⟩
    · exact hpeers ▸ List.Subset.refl _
    · exact hpeers ▸ List.subset_append_left _ _
  refine ⟨?_, ?_, ?_⟩
  · rcases hpeers with hpeers | ⟨source, datagram, rfl, hpeers⟩
    · exact hpeers ▸ hold
    · intro a ha
      rcases List.mem_append.mp (hpeers ▸ ha) with ha | hnew
      · exact hold a ha
      · obtain rfl := List.mem_singleton.mp hnew
        exact ⟨datagram, by simp⟩
  · intro a ha
    exact hsub ((hconnected a ha).elim (h.connectedPeers a) id)
  · intro m hm
    exact hsub ((hsent m hm).elim (h.sent m) (h.connectedPeers m.1))

theorem answering_of_run (hrun : Run (Step build w) {} labels σ) : Answering labels σ := by
  refine hrun.history_invariant (fun _ ↦ True) _ (fun _ _ ↦ trivial) ?_
    fun labels τ e τ' h _ hstep ↦ h.step hstep
  exact ⟨nofun, nofun, nofun⟩

/-- A datagram is handed to a peer that its source is equal to. -/
theorem Step.handedTo {source peer : NetAddress} {datagram : List UInt8} {received : Buffer}
    (h : Step build w σ (.arrive source datagram) σ')
    (hhand : σ'.listening.inHand = some (peer, received)) :
    peer = source ∨ (peer ∈ σ.peers ∧ peer.eq source = true) := by
  cases h with
  | arrive _ _ bytes socket _ hlistening =>
      unfold lookUp tryGetPeer addPeer at hhand
      split at hhand
      · rename_i found hfind
        obtain rfl : found = peer := congrArg Prod.fst (Option.some.inj hhand)
        have heq := List.find?_some hfind
        exact .inr ⟨List.mem_of_find?_eq_some hfind, by simpa using heq⟩
      · split at hhand
        · rename_i σ₁ hadd
          exact .inl (congrArg Prod.fst (Option.some.inj hhand)).symm
        · simp [hlistening, Listening.inHand] at hhand
  | arriveFailed _ _ _ _ hlistening => simp [hlistening, Listening.inHand] at hhand
  | arriveFault _ _ _ _ hlistening => simp [hlistening, Listening.inHand] at hhand

/-- The server sends to endpoints that it has heard from before, and to no other.
If no two of the endpoints are loopback endpoints of one port, then what comes
from an endpoint is handed to a peer whose answers go to that endpoint. -/
theorem endpoints_of_run (hinet : inet.Documented) (hrun : Run (Step build w) {} labels σ)
    (endpoints : Set SockaddrIn)
    (hsource : ∀ source datagram, .arrive source datagram ∈ labels →
      ∃ endpoint ∈ endpoints, source = endpoint.netAddress inet) :
    (∀ m ∈ σ.sent, ∃ endpoint ∈ endpoints, m.1.sockaddr inet = endpoint ∧
      ∃ datagram, .arrive (endpoint.netAddress inet) datagram ∈ labels) ∧
    (OneLoopback endpoints → ∀ endpoint ∈ endpoints, ∀ datagram σ' peer received,
      Step build w σ (.arrive (endpoint.netAddress inet) datagram) σ' →
      σ'.listening.inHand = some (peer, received) → peer.sockaddr inet = endpoint) := by
  have hanswering := answering_of_run hrun
  have hpeer : ∀ a ∈ σ.peers, ∃ endpoint ∈ endpoints, a = endpoint.netAddress inet ∧
      ∃ datagram, .arrive (endpoint.netAddress inet) datagram ∈ labels := by
    intro a ha
    obtain ⟨datagram, hmem⟩ := hanswering.peers a ha
    obtain ⟨endpoint, hendpoint, rfl⟩ := hsource a datagram hmem
    exact ⟨endpoint, hendpoint, rfl, datagram, hmem⟩
  refine ⟨?_, ?_⟩
  · intro m hm
    obtain ⟨endpoint, hendpoint, heq, harrived⟩ := hpeer m.1 (hanswering.sent m hm)
    exact ⟨endpoint, hendpoint, heq ▸ hinet.sockaddr_netAddress endpoint, harrived⟩
  · intro hone endpoint hendpoint datagram σ' peer received hstep hhand
    suffices heq : peer = endpoint.netAddress inet from heq ▸ hinet.sockaddr_netAddress endpoint
    rcases hstep.handedTo hhand with heq | ⟨hmem, heq⟩
    · exact heq
    · obtain ⟨other, hother, rfl, -⟩ := hpeer peer hmem
      have hdistinct := (distinct_iff hinet endpoints).mpr hone
      exact hdistinct _ ⟨other, hother, rfl⟩ _ ⟨endpoint, hendpoint, rfl⟩ heq

/-- The endpoint `10.0.0.7:50000`. -/
def remoteEndpoint : SockaddrIn := ⟨Inet.littleEndian.htons 50000, ⟨10, 0, 0, 7⟩⟩

def remoteAddress : NetAddress := remoteEndpoint.netAddress .littleEndian

/-- A ping comes from the endpoint, and a message is sent to it. -/
def greeted : List Event :=
  [.arrive remoteAddress Client.pingPacket.wire, .peerConnected,
    .received remoteAddress Client.pingPacket, .deliver, .next, .next,
    .send remoteAddress System.question, .next, .drain remoteAddress]

/-- The message has been sent, and the endpoint may go on. -/
theorem exists_greeted : ∃ σ σ' m, Run (Step .debug .datagrams) {} greeted σ ∧ m ∈ σ.sent ∧
    Step .debug .datagrams σ (.arrive remoteAddress Client.pingPacket.wire) σ' ∧
      σ'.listening.inHand = some (remoteAddress, ⟨Client.pingPacket.wire⟩) := by
  have hw := Winsock.datagrams_sends
  obtain ⟨hreceive, hread⟩ :=
    Socket.receiveFrom_wire hw.toDocumented .debug {} (p := Client.pingPacket) (by decide)
  have hreceived := Connection.received_of_unreliable .debug (.fresh remoteAddress)
    (show Client.pingPacket.isReliable = false by rfl)
  have hrun₁ : Run (Step .debug .datagrams) {} [.arrive remoteAddress Client.pingPacket.wire] _ :=
    .single (.arrive _ _ _ {} rfl rfl rfl hreceive)
  have hrun₂ := hrun₁.snoc (.peerConnected remoteAddress ⟨Client.pingPacket.wire⟩ rfl rfl)
  have hrun₃ := hrun₂.snoc (.received remoteAddress ⟨Client.pingPacket.wire⟩ Client.pingPacket {} _
    [remoteAddress] rfl rfl hread hreceived (List.Perm.refl _))
  have hrun₄ := hrun₃.snoc (.deliver remoteAddress [] Client.pingPacket _ rfl rfl rfl)
  have hrun₅ := hrun₄.snoc (.nextReceived remoteAddress [] rfl rfl rfl)
  have hrun₆ := hrun₅.snoc (.endReceived rfl rfl)
  have hrun₇ := hrun₆.snoc (.send remoteAddress System.question rfl (List.mem_singleton_self _))
  have hrun₈ := hrun₇.snoc (.getPeers [remoteAddress] rfl rfl rfl (List.Perm.refl _))
  have hrun₉ := hrun₈.snoc (.drain remoteAddress [] _ _ _ _ rfl rfl (by rintro ⟨⟩) rfl
    (sendPacket_small hw (by decide)))
  exact ⟨_, _, _, hrun₉, List.mem_singleton_self _, .arrive _ _ _ {} rfl rfl rfl hreceive, rfl⟩

theorem endpoints_after_greeted : ∃ σ, Run (Step .debug .datagrams) {} greeted σ ∧
    (∃ m ∈ σ.sent, m.1.sockaddr .littleEndian = remoteEndpoint) ∧
      ∃ σ' peer received,
        Step .debug .datagrams σ (.arrive remoteAddress Client.pingPacket.wire) σ' ∧
          σ'.listening.inHand = some (peer, received) ∧
            peer.sockaddr .littleEndian = remoteEndpoint := by
  obtain ⟨σ, σ', m, hrun, hm, hstep, hhand⟩ := exists_greeted
  have hsource : ∀ source datagram, .arrive source datagram ∈ greeted →
      ∃ endpoint ∈ ({remoteEndpoint} : Set SockaddrIn),
        source = endpoint.netAddress .littleEndian := by
    intro source datagram hmem
    obtain ⟨rfl, -⟩ : source = remoteAddress ∧ datagram = Client.pingPacket.wire := by
      simpa [greeted] using hmem
    exact ⟨remoteEndpoint, rfl, rfl⟩
  have hone : OneLoopback {remoteEndpoint} := by
    rintro a rfl b rfl - - -
    rfl
  obtain ⟨hsent, hanswer⟩ := endpoints_of_run Inet.littleEndian_documented hrun _ hsource
  obtain ⟨endpoint, hendpoint, heq, -⟩ := hsent m hm
  exact ⟨σ, hrun, ⟨m, hm, heq.trans hendpoint⟩, σ', remoteAddress, _, hstep, hhand,
    hanswer hone remoteEndpoint rfl _ σ' _ _ hstep hhand⟩

end Server

end GioNet
