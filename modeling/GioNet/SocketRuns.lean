import GioNet.SocketUse
import Mathlib.Data.List.Forall2

/-!
# Runs of the client and of the server over socket objects

The steps of a run that touch the socket are uses of it, in their order. The object
that stands for the socket goes through the same uses: it sends the same datagrams,
to the endpoints that belong to the model's addresses, and it is valid when the
model's socket is.
-/

namespace GioNet

open LabelledRun Simulation

variable {build : Build} {inet : Inet} {w : Winsock} {role : Role}
  {s t u : Socket} {outcome : Outcome} {event : SocketEvent} {events used : List SocketEvent}
  {sent : List (Target × List UInt8)}

/-- The datagram that leaves, with its target. -/
def Outcome.leaves : Outcome → Option (Target × List UInt8)
  | .sent (some (target, some bytes)) => some (target, bytes)
  | _ => none

namespace Socket

theorem react_send (hopen : ¬ (role = .client ∧ s.isValid = false)) {packet : Packet Buffer}
    {destination : Option NetAddress} {datagram : Option (List UInt8)}
    (hsend : sendPacket w s packet = .ok (datagram, t)) :
    s.react build inet w role (.send packet destination) =
      some (.sent (some (destination.map (NetAddress.sockaddr inet), datagram)), t) := by
  rw [react, if_neg hopen, hsend]
  rfl

theorem react_arrive (hvalid : s.isValid = true) {datagram : List UInt8} {source : SockaddrIn}
    {b : Option Buffer} (hreceive : s.receiveFrom build w datagram = .ok (b, t)) :
    s.react build inet w role (.arrive datagram source) =
      some (.received b (if b.isSome then source.netAddress inet else {}), t) := by
  rw [react, if_pos hvalid, hreceive]
  rfl

end Socket

/-- The uses of the socket `s` have made it `t`, and these datagrams have left. -/
structure Used (build : Build) (inet : Inet) (w : Winsock) (role : Role)
    (s t : Socket) (sent : List (Target × List UInt8)) (events : List SocketEvent) : Prop where
  by_role : ∀ e ∈ events, e.By role
  sent : (outputs (Socket.react build inet w role) s events).1.filterMap Outcome.leaves = sent
  socket : (outputs (Socket.react build inet w role) s events).2 = some t

/-- After the uses of the object these datagrams have left, and it is valid or not. -/
structure Replays (build : Build) (inet : Inet) (w : Winsock) (o : SocketObject)
    (events : List SocketEvent) (sent : List (Target × List UInt8)) (valid : Bool) : Prop where
  sent : (outputs (SocketObject.react build inet w) o events).1.filterMap Outcome.leaves = sent
  valid : (outputs (SocketObject.react build inet w) o events).2.map SocketObject.isValid =
    some valid

namespace Used

theorem nil : Used build inet w role s s [] [] := ⟨nofun, rfl, rfl⟩

theorem snoc (h : Used build inet w role s t sent events) (hby : event.By role)
    (hreact : t.react build inet w role event = some (outcome, u)) :
    Used build inet w role s u (sent ++ outcome.leaves.toList) (events ++ [event]) := by
  refine ⟨?_, ?_, ?_⟩
  · intro e he
    rcases List.mem_append.mp he with he | he
    · exact h.by_role e he
    · exact List.mem_singleton.mp he ▸ hby
  · rw [outputs_snoc h.socket hreact, filterMap_snoc, h.sent]
  · rw [outputs_snoc h.socket hreact]

/-- The object goes through the uses like the socket. -/
theorem replays (h : Used build inet w role s t sent events) {o : SocketObject}
    (ho : Represents role o s) : Replays build inet w o events sent t.isValid := by
  obtain ⟨houtcomes, hvalid⟩ : SameUse build inet w role o s events := ho.sameUse h.by_role
  refine ⟨?_, ?_⟩
  · rw [houtcomes, h.sent]
  · rw [hvalid, h.socket]
    rfl

end Used

/-- What a step does with the socket and what it sends: nothing, or one use. -/
inductive UsesSocket (build : Build) (inet : Inet) (w : Winsock) (role : Role) (s : Socket)
    (sent : List (Target × List UInt8)) :
    List SocketEvent → Socket → List (Target × List UInt8) → Prop
  | untouched : UsesSocket build inet w role s sent [] s sent
  | use (event : SocketEvent) (outcome : Outcome) (t : Socket) (hby : event.By role)
      (hreact : s.react build inet w role event = some (outcome, t)) :
      UsesSocket build inet w role s sent [event] t (sent ++ outcome.leaves.toList)

namespace UsesSocket

variable (sent)

/-- A use in which nothing leaves. -/
theorem silent (hby : event.By role)
    (hreact : s.react build inet w role event = some (outcome, t))
    (hleaves : outcome.leaves = none) :
    UsesSocket build inet w role s sent [event] t sent := by
  have huse : UsesSocket build inet w role s sent [event] t (sent ++ outcome.leaves.toList) :=
    .use event outcome t hby hreact
  rwa [hleaves, Option.toList_none, List.append_nil] at huse

theorem arrive (hvalid : s.isValid = true) {datagram : List UInt8} {b : Option Buffer}
    (hreceive : s.receiveFrom build w datagram = .ok (b, t)) (source : SockaddrIn) :
    UsesSocket build inet w role s sent [.arrive datagram source] t sent :=
  silent sent (by cases role <;> trivial) (Socket.react_arrive hvalid hreceive) rfl

theorem recvFailed (s : Socket) :
    UsesSocket build inet w role s sent [.recvFailed] s.close sent := by
  have hreact : s.react build inet w role .recvFailed = some (.received none {}, s.close) := rfl
  exact silent sent (by cases role <;> trivial) hreact rfl

theorem close (s : Socket) : UsesSocket build inet w role s sent [.close] s.close sent := by
  have hreact : s.react build inet w role .close = some (.closed, s.close) := rfl
  exact silent sent (by cases role <;> trivial) hreact rfl

theorem send (hopen : ¬ (role = .client ∧ s.isValid = false)) {packet : Packet Buffer}
    {destination : Option NetAddress} (hby : (SocketEvent.send packet destination).By role)
    {datagram : Option (List UInt8)} (hsend : sendPacket w s packet = .ok (datagram, t)) :
    UsesSocket build inet w role s sent [.send packet destination] t
      (sent ++ datagram.toList.map fun bytes ↦
        (destination.map (NetAddress.sockaddr inet), bytes)) := by
  cases datagram <;> exact .use _ _ t hby (Socket.react_send hopen hsend)

end UsesSocket

theorem Used.step {sent' : List (Target × List UInt8)}
    (h : Used build inet w role s t sent events)
    (hstep : UsesSocket build inet w role t sent used u sent') :
    Used build inet w role s u sent' (events ++ used) := by
  cases hstep with
  | untouched => rwa [List.append_nil]
  | use event outcome _ hby hreact => exact h.snoc hby hreact

/-- The steps of a run that touch the socket are the uses of it, in their order. -/
theorem Used.run {σ ι : Type*} {step : σ → ι → σ → Prop} {touches : ι → Bool}
    {uses : ι → SocketEvent → Prop} {socketOf : σ → Socket}
    {sentOf : σ → List (Target × List UInt8)} {a b : σ} {labels : List ι}
    (running : σ → Prop) (allowed : ι → Prop)
    (h : Used build inet w role s (socketOf a) (sentOf a) events) (hrun : Run step a labels b)
    (hlabels : ∀ l ∈ labels, allowed l) (hrunning : running b)
    (hstep : ∀ a l b, allowed l → step a l b → running b → running a ∧
      ∃ used, List.Forall₂ uses ([l].filter touches) used ∧
        UsesSocket build inet w role (socketOf a) (sentOf a) used (socketOf b) (sentOf b)) :
    ∃ used, List.Forall₂ uses (labels.filter touches) used ∧
      Used build inet w role s (socketOf b) (sentOf b) (events ++ used) := by
  induction hrun with
  | nil => exact ⟨[], .nil, by rwa [List.append_nil]⟩
  | @snoc labels c d l hbefore hlast ih =>
      obtain ⟨hrunning', used', huses', hsocket⟩ :=
        hstep c l d (hlabels l (by simp)) hlast hrunning
      obtain ⟨used, huses, hused⟩ := ih (fun l hl ↦ hlabels l (List.mem_append_left _ hl)) hrunning'
      refine ⟨used ++ used', ?_, ?_⟩
      · rw [List.filter_append]
        exact List.rel_append huses huses'
      · rw [← List.append_assoc]
        exact hused.step hsocket

namespace Server

variable {σ σ' : Server} {e : Event} {labels : List Event}

/-- The use that a step of the server is. -/
inductive Uses (inet : Inet) : Event → SocketEvent → Prop
  | arrive (endpoint : SockaddrIn) (datagram : List UInt8) :
      Uses inet (.arrive (endpoint.netAddress inet) datagram) (.arrive datagram endpoint)
  | recvFailed : Uses inet .recvFailed .recvFailed
  | drain (peer : NetAddress) (packet : Packet Buffer) :
      Uses inet (.drain peer) (.send packet (some peer))

theorem Step.running (h : Step build w σ e σ') (hrunning : σ'.aborted = false) :
    σ.aborted = false := by
  cases h with
  | ignored => exact hrunning
  | _ => assumption

end Server

namespace Client

variable {κ κ' : Client} {e : Event} {labels : List Event}

/-- The use that a step of the client is. -/
inductive Uses (inet : Inet) : Event → SocketEvent → Prop
  | arrive (endpoint : SockaddrIn) (datagram : List UInt8) :
      Uses inet (.arrive (endpoint.netAddress inet) datagram) (.arrive datagram endpoint)
  | recvFailed : Uses inet .recvFailed .recvFailed
  | drain (packet : Packet Buffer) : Uses inet .drain (.send packet none)
  | stop : Uses inet .stop .close

theorem Step.running (h : Step build w κ e κ') : κ.aborted = false := by
  cases h <;> assumption

end Client

end GioNet
