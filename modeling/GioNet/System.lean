import GioNet.ClientServer

/-!
# The server, its clients and the network between them

A client is named by the address under which the server sees it. A datagram that
has been sent may arrive any number of times and at any time until it is lost.
The steps of all parties may interleave in any way.
-/

namespace GioNet

structure System where
  server : Server := {}
  /-- The clients that have been started. -/
  client : NetAddress → Option Client := fun _ ↦ none
  toServer : NetAddress → List (List UInt8) := fun _ ↦ []
  toClient : NetAddress → List (List UInt8) := fun _ ↦ []

namespace System

inductive Label where
  /-- A client calls `Start`. -/
  | start (a : NetAddress)
  | server (e : Event)
  | client (a : NetAddress) (e : Client.Event)
  | loseToServer (a : NetAddress) (i : ℕ)
  | loseToClient (a : NetAddress) (i : ℕ)

/-- What a party has sent in a step leaves for the network. -/
inductive Step (build : Build) (w : Winsock) (serverAddress : NetAddress) (S : System) :
    Label → System → Prop
  | start (a : NetAddress) (κ : Client) (hnew : S.client a = none)
      (hstart : (Client.make serverAddress).start w = .ok κ) :
      Step build w serverAddress S (.start a) { S with
        client := Function.update S.client a (some κ)
        toServer := Function.update S.toServer a (S.toServer a ++ κ.sent) }
  | server (e : Event) (σ : Server) (hstep : Server.Step build w S.server e σ)
      (hnetwork : ∀ a datagram, e.fromPeer a = some datagram → datagram ∈ S.toServer a) :
      Step build w serverAddress S (.server e) { S with
        server := σ
        toClient := fun a ↦ S.toClient a ++ (σ.sentTo a).drop (S.server.sentTo a).length }
  | client (a : NetAddress) (e : Client.Event) (κ κ' : Client) (hclient : S.client a = some κ)
      (hstep : Client.Step build w κ e κ')
      (hnetwork : ∀ addr datagram, e = .arrive addr datagram →
        addr = serverAddress ∧ datagram ∈ S.toClient a) :
      Step build w serverAddress S (.client a e) { S with
        client := Function.update S.client a (some κ')
        toServer := Function.update S.toServer a
          (S.toServer a ++ κ'.sent.drop κ.sent.length) }
  | loseToServer (a : NetAddress) (i : ℕ) :
      Step build w serverAddress S (.loseToServer a i)
        { S with toServer := Function.update S.toServer a ((S.toServer a).eraseIdx i) }
  | loseToClient (a : NetAddress) (i : ℕ) :
      Step build w serverAddress S (.loseToClient a i)
        { S with toClient := Function.update S.toClient a ((S.toClient a).eraseIdx i) }

namespace Label

/-- The clients' addresses and those of the except sets are among those that are
told apart, messages have at most `499` bytes, `recvfrom` fails for no other reason
than the size of a datagram, and `Stop` is not called. -/
def Allowed (involved : Set NetAddress) : Label → Prop
  | .start a => a ∈ involved
  | .server .recvFailed => False
  | .server (.send _ message) => message.data.payload.length ≤ 499
  | .server (.broadcast message except) =>
      message.data.payload.length ≤ 499 ∧ ∀ e ∈ except, e ∈ involved
  | .client _ .recvFailed => False
  | .client _ .stop => False
  | .client _ (.send message) => message.data.payload.length ≤ 499
  | _ => True

end Label

end System

/-! ## The messages that are sent -/

/-- The message that the server schedules for the address. -/
def Event.messageTo (a : NetAddress) : Event → Option Message
  | .send peer message => if peer = a then some message else none
  | .broadcastSend _ peer message => if peer = a then some message else none
  | _ => none

def Client.Event.message : Client.Event → Option Message
  | .send message => some message
  | _ => none

namespace System.Label

def messageTo (a : NetAddress) : Label → Option Message
  | .server e => e.messageTo a
  | _ => none

def messageFrom (a : NetAddress) : Label → Option Message
  | .client b e => if b = a then e.message else none
  | _ => none

end System.Label

/-! ## One peer's share of a step of the server -/

namespace Server

variable {build : Build} {w : Winsock} {involved : Set NetAddress} {σ σ' : Server} {e : Event}

/-- What a step does for the address: nothing, or one call of a member function of
the connection of a peer. -/
inductive Effect (build : Build) (w : Winsock) (σ : Server) (a : NetAddress) (σ' : Server) :
    Option Message → Prop
  | frame (hconnection : σ'.connection a = σ.connection a) (hsent : σ'.sentTo a = σ.sentTo a)
      (hdata : σ'.dataFor a = σ.dataFor a) : Effect build w σ a σ' none
  | schedule (message : Message) (hmem : a ∈ σ.peers)
      (hconnection : σ'.connection a = (σ.connection a).schedule message.packet)
      (hsent : σ'.sentTo a = σ.sentTo a) (hdata : σ'.dataFor a = σ.dataFor a) :
      Effect build w σ a σ' (some message)
  | receive (packet : Packet Buffer) (c : Connection Buffer) (hmem : a ∈ σ.peers)
      (hinHand : σ.inHand build a = [packet])
      (hreceived : (σ.connection a).received build packet = .ok c)
      (hconnection : σ'.connection a = c) (hsent : σ'.sentTo a = σ.sentTo a)
      (hdata : σ'.dataFor a = σ.dataFor a) : Effect build w σ a σ' none
  | deliver (packet : Packet Buffer) (c : Connection Buffer) (hmem : a ∈ σ.peers)
      (hpop : (σ.connection a).popReadyIncomingPacket = some (packet, c))
      (hconnection : σ'.connection a = c) (hsent : σ'.sentTo a = σ.sentTo a)
      (hdata : σ'.dataFor a = σ.dataFor a ++ dataOf [packet]) : Effect build w σ a σ' none
  | drain (packet : Packet Buffer) (c : Connection Buffer) (datagram : List UInt8)
      (hmem : a ∈ σ.peers) (hpop : (σ.connection a).popReadyOutgoingPacket = some (packet, c))
      (hsend : sendPacket w {} packet = .ok (some datagram, {}))
      (hconnection : σ'.connection a = c) (hsent : σ'.sentTo a = σ.sentTo a ++ [datagram])
      (hdata : σ'.dataFor a = σ.dataFor a) : Effect build w σ a σ' none

theorem effect_of_schedule {peer : NetAddress} (hmem : peer ∈ σ.peers) (message : Message)
    (hconnection : ∀ a, σ'.connection a = (σ.schedule peer message).connection a)
    (hsent : σ'.sent = σ.sent) (hcallbacks : σ'.callbacks = σ.callbacks) (a : NetAddress) :
    Effect build w σ a σ' (if peer = a then some message else none) := by
  have hsent' : σ'.sentTo a = σ.sentTo a := by rw [sentTo, hsent, sentTo]
  have hdata : σ'.dataFor a = σ.dataFor a := by rw [dataFor, hcallbacks, dataFor]
  have hafter := hconnection a
  rw [schedule_connection] at hafter
  by_cases hpeer : peer = a
  · subst hpeer
    rw [if_pos rfl] at hafter ⊢
    exact .schedule message hmem hafter hsent' hdata
  · rw [if_neg (Ne.symm hpeer)] at hafter
    rw [if_neg hpeer]
    exact .frame hafter hsent' hdata

theorem Proceeds.effect (h : σ.Sound build involved) (hstep : Proceeds build w involved σ e σ')
    (a : NetAddress) : Effect build w σ a σ' (e.messageTo a) := by
  cases hstep with
  | arriveKnown | arriveNew | nextReceived | endReceived | broadcast | broadcastSkip | getPeers
    | nextPeer => exact .frame rfl rfl rfl
  | peerConnected peer received hlistening => exact .frame rfl rfl (by simp [dataFor])
  | received peer received rest packet c order hlistening hread hreceived horder =>
      by_cases hpeer : a = peer
      · subst hpeer
        have hmem : a ∈ σ.peers := by simpa [hlistening, Listening.peers] using h.listening
        refine .receive packet c hmem ?_ hreceived (by simp) rfl rfl
        rw [inHand_of_inHand (by rw [hlistening]; rfl) hread, if_pos rfl]
      · exact .frame (by simp [hpeer]) rfl rfl
  | deliver peer rest packet c hlistening hpop =>
      have hdata : (σ.callbacks ++ callbacksFor peer packet).filterMap (Callback.data a) =
          σ.dataFor a ++ if peer = a then dataOf [packet] else [] := by
        rw [List.filterMap_append, filterMap_callbacksFor, dataFor]
      by_cases hpeer : a = peer
      · subst hpeer
        have hmem : a ∈ σ.peers := h.listening (by simp [hlistening, Listening.peers])
        rw [if_pos rfl] at hdata
        exact .deliver packet c hmem hpop (by simp [setConnection]) rfl hdata
      · rw [if_neg (Ne.symm hpeer), List.append_nil] at hdata
        exact .frame (by simp [setConnection, hpeer]) rfl hdata
  | send peer message hmem => exact effect_of_schedule hmem message (fun _ ↦ rfl) rfl rfl a
  | broadcastSend i b peer rest hcall hrest hexcept =>
      have hmem : peer ∈ σ.peers :=
        (h.broadcasts b (List.mem_of_getElem? hcall)).1 (hrest ▸ List.mem_cons_self)
      refine effect_of_schedule hmem b.message ?_ ?_ ?_ a
      · exact fun _ ↦ rfl
      · rfl
      · rfl
  | drain peer rest packet c datagram hpeers hpop hsend =>
      by_cases hpeer : a = peer
      · subst hpeer
        have hmem : a ∈ σ.peers := h.connectedPeers (hpeers ▸ List.mem_cons_self)
        exact .drain packet c datagram hmem hpop hsend (by simp [setConnection])
          (by simp [sentTo]) rfl
      · exact .frame (by simp [setConnection, hpeer]) (by simp [sentTo, Ne.symm hpeer]) rfl

end Server

end GioNet
