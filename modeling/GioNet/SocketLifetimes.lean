import GioNet.SocketRuns

/-!
# From the constructor to the destructor

The uses that the server and the client make of their socket object are calls of its
member functions, in a process that makes the object before and destroys it at the
end. In this process every call of Winsock is for something that is open, and at the
end nothing is open any more.
-/

namespace GioNet

open LabelledRun Ownership Simulation

variable {build : Build} {inet : Inet} {w : Winsock} {role : Role}
  {o o' : SocketObject} {s : Socket} {event : SocketEvent} {events : List SocketEvent}
  {outcome : Outcome}

/-- The datagram that leaves in a call of `sendto`, with its target. -/
def WinsockCall.leaves : WinsockCall → Option (Target × List UInt8)
  | .sendto _ _ _ destination (some bytes) => some (destination.target, bytes)
  | _ => none

/-- The call of a member function that a use is. -/
inductive SocketEvent.Calls : SocketEvent → Method → Prop
  | send (packet : Packet Buffer) (b : Buffer) (destination : Option NetAddress)
      (sent : Option (List UInt8)) (hwrite : (Buffer.writePacket packet).run {} = .ok ((), b)) :
      Calls (.send packet destination) (.sendTo b destination sent)
  | arrive (datagram : List UInt8) (source : SockaddrIn)
      (received : Option (List UInt8 × SockaddrIn))
      (hreceived : ∀ found, received = some found → found = (datagram, source)) :
      Calls (.arrive datagram source) (.receiveFrom {} received)
  | recvFailed : Calls .recvFailed (.receiveFrom {} none)
  | close : Calls .close .close

/-- A use of the object `o` that makes it `o'` is this call of a member function. -/
structure Performs (build : Build) (inet : Inet) (o : SocketObject) (event : SocketEvent)
    (outcome : Outcome) (o' : SocketObject) (m : Method) (calls : List WinsockCall) : Prop where
  method : event.Calls m
  invoke : o.invoke build inet m = .ok (o', [], calls)
  acquires : acquisitions (usesOf calls) = []
  succeeds : m.succeeds = true → o.isValid = true
  received : ∀ bytes, m.received = some bytes → bytes.length ≤ bufferMax
  leaves : calls.filterMap WinsockCall.leaves = outcome.leaves.toList

namespace SocketObject

theorem close_leaves (o : SocketObject) : o.close.2.filterMap WinsockCall.leaves = [] := by
  unfold close freeAddressInfo
  rcases o with ⟨address, protocol, _ | handle, _ | info⟩ <;> rfl

theorem acquisitions_close (o : SocketObject) : acquisitions (usesOf o.close.2) = [] := by
  rw [usesOf_close, acquisitions_map_release]

theorem Reads.acquires {call : WinsockCall} (h : o.Reads call) (calls : List WinsockCall) :
    acquisitions (usesOf (call :: calls)) = acquisitions (usesOf calls) := by
  obtain ⟨rs, huses, -⟩ := h
  rw [usesOf_cons, acquisitions_append, huses, acquisitions_map_access, List.nil_append]

theorem Reads.acquires_finishSend {call : WinsockCall} (h : o.Reads call)
    (sent : Option (List UInt8)) : acquisitions (usesOf (o.finishSend call sent).calls) = [] := by
  cases sent with
  | none => exact (h.acquires o.close.2).trans o.acquisitions_close
  | some bytes => exact h.acquires []

theorem finishSend_leaves (data : List UInt8) (length : ℤ) (destination : Destination)
    (sent : Option (List UInt8)) :
    (o.finishSend (.sendto o.winSocket data length destination sent) sent).calls.filterMap
        WinsockCall.leaves =
      (Outcome.sent ((o.finishSend (.sendto o.winSocket data length destination sent)
        sent).calls.findSome? WinsockCall.sendto?)).leaves.toList := by
  rw [finishSend_sendto? rfl]
  cases sent with
  | none => exact o.close_leaves
  | some bytes => rfl

end SocketObject

/-- A call of `SendTo` that comes back. -/
theorem Performs.send (h : o.communicationProtocol = .udp) {packet : Packet Buffer} {b : Buffer}
    (hwrite : (Buffer.writePacket packet).run {} = .ok ((), b)) {destination : Option NetAddress}
    {sent : Option (List UInt8)} (hsent : sent.isSome = true → o.isValid = true)
    {r : Returned (Option ℤ)} (hr : o.sendTo build inet b destination sent = .ok r) :
    Performs build inet o (.send packet destination)
      (.sent (r.calls.findSome? WinsockCall.sendto?)) r.object (.sendTo b destination sent)
      r.calls := by
  have hinvoke : o.invoke build inet (.sendTo b destination sent) =
      .ok (r.object, [], r.calls) := by
    rw [SocketObject.invoke, hr]
    rfl
  rw [SocketObject.sendTo_eq h] at hr
  cases destination with
  | some destination =>
      cases hr
      exact ⟨.send packet b _ sent hwrite, hinvoke,
        (SocketObject.reads_handle rfl).acquires_finishSend sent, hsent, nofun,
        SocketObject.finishSend_leaves _ _ _ sent⟩
  | none =>
      cases hinfo : o.winAddrInfo with
      | some info =>
          rw [hinfo] at hr
          cases hr
          exact ⟨.send packet b _ sent hwrite, hinvoke,
            (SocketObject.reads_info hinfo rfl).acquires_finishSend sent, hsent, nofun,
            SocketObject.finishSend_leaves _ _ _ sent⟩
      | none =>
          rw [hinfo] at hr
          dsimp only at hr
          split at hr <;> cases hr

/-- A call of `ReceiveFrom` that comes back. -/
theorem Performs.receive (h : o.communicationProtocol = .udp)
    {received : Option (List UInt8 × SockaddrIn)}
    (hcalls : event.Calls (.receiveFrom {} received))
    (hvalid : received.isSome = true → o.isValid = true)
    (hfits : ∀ found, received = some found → found.1.length ≤ bufferMax)
    {r : Returned (Option Buffer)} {outFrom : NetAddress}
    (hr : o.receiveFrom build inet {} received = .ok (r, outFrom)) :
    Performs build inet o event (.received r.value outFrom) r.object (.receiveFrom {} received)
      r.calls := by
  have hinvoke : o.invoke build inet (.receiveFrom {} received) = .ok (r.object, [], r.calls) := by
    rw [SocketObject.invoke, hr]
    rfl
  have hlength : ∀ bytes, (Method.receiveFrom {} received).received = some bytes →
      bytes.length ≤ bufferMax := by
    intro bytes hbytes
    obtain ⟨found, hfound, rfl⟩ := Option.map_eq_some_iff.mp hbytes
    exact hfits found hfound
  cases received with
  | none =>
      rw [SocketObject.receiveFrom_none h] at hr
      cases hr
      exact ⟨hcalls, hinvoke, ((SocketObject.reads_handle rfl).acquires _).trans
        o.acquisitions_close, hvalid, hlength, o.close_leaves⟩
  | some found =>
      rw [SocketObject.receiveFrom_some h] at hr
      cases hdata : Buffer.ofData build found.1 with
      | error f =>
          rw [hdata] at hr
          cases hr
      | ok b =>
          rw [hdata] at hr
          cases hr
          exact ⟨hcalls, hinvoke, (SocketObject.reads_handle rfl).acquires [], hvalid, hlength, rfl⟩

/-- What `recvfrom` writes is the datagram, which has to fit. -/
theorem Winsock.Documented.recvfrom_eq (hw : w.Documented) {datagram bytes : List UInt8}
    (h : w.recvfrom datagram bufferMax = some bytes) :
    bytes = datagram ∧ datagram.length ≤ bufferMax := by
  by_cases hfits : datagram.length ≤ bufferMax
  · rw [hw.recvfrom_fits datagram bufferMax hfits] at h
    exact ⟨(Option.some.inj h).symm, hfits⟩
  · rw [hw.recvfrom_long datagram bufferMax (not_le.mp hfits)] at h
    cases h

/-- What the object receives is the datagram, and its handle is open. -/
theorem SocketObject.received_eq (hw : w.Documented) {datagram : List UInt8} {source : SockaddrIn}
    {found : List UInt8 × SockaddrIn}
    (h : (if o.isValid then (w.recvfrom datagram bufferMax).map fun bytes ↦ (bytes, source)
      else none) = some found) :
    o.isValid = true ∧ found = (datagram, source) ∧ datagram.length ≤ bufferMax := by
  by_cases hvalid : o.isValid = true
  · rw [if_pos hvalid] at h
    obtain ⟨bytes, hbytes, rfl⟩ := Option.map_eq_some_iff.mp h
    obtain ⟨rfl, hfits⟩ := hw.recvfrom_eq hbytes
    exact ⟨hvalid, rfl, hfits⟩
  · rw [if_neg hvalid] at h
    cases h

theorem exists_performs_send (h : o.communicationProtocol = .udp) {packet : Packet Buffer}
    {destination : Option NetAddress}
    (hreact : o.react build inet w (.send packet destination) = some (outcome, o')) :
    ∃ m calls, Performs build inet o (.send packet destination) outcome o' m calls := by
  rw [SocketObject.react] at hreact
  cases hwrite : (Buffer.writePacket packet).run {} with
  | error f =>
      rw [hwrite] at hreact
      cases hreact
  | ok x =>
      obtain ⟨⟨⟩, b⟩ := x
      rw [hwrite] at hreact
      change (o.sendTo build inet b destination
        (if o.isValid then w.sendto b.payload b.length else none)).toOption.bind _ = _ at hreact
      cases hr : o.sendTo build inet b destination
          (if o.isValid then w.sendto b.payload b.length else none) with
      | error c =>
          rw [hr] at hreact
          cases hreact
      | ok r =>
          rw [hr] at hreact
          cases hreact
          refine ⟨_, _, Performs.send h hwrite (fun hsent ↦ ?_) hr⟩
          by_contra hclosed
          rw [if_neg hclosed] at hsent
          cases hsent

theorem exists_performs_receive (h : o.communicationProtocol = .udp)
    {received : Option (List UInt8 × SockaddrIn)}
    (hcalls : event.Calls (.receiveFrom {} received))
    (hfound : ∀ found, received = some found →
      o.isValid = true ∧ found.1.length ≤ bufferMax)
    (hreact : ((o.receiveFrom build inet {} received).toOption.bind fun x ↦
      some (Outcome.received x.1.value x.2, x.1.object)) = some (outcome, o')) :
    ∃ m calls, Performs build inet o event outcome o' m calls := by
  cases hr : o.receiveFrom build inet {} received with
  | error c =>
      rw [hr] at hreact
      cases hreact
  | ok x =>
      rw [hr] at hreact
      cases hreact
      refine ⟨_, _, Performs.receive h hcalls (fun hsome ↦ ?_) (fun found hsome ↦ ?_) hr⟩
      · obtain ⟨found, hsome⟩ := Option.isSome_iff_exists.mp hsome
        exact (hfound found hsome).1
      · exact (hfound found hsome).2

/-- Every use is a call of a member function. -/
theorem exists_performs (hw : w.Documented) (h : o.communicationProtocol = .udp)
    (hreact : o.react build inet w event = some (outcome, o')) :
    ∃ m calls, Performs build inet o event outcome o' m calls := by
  cases event with
  | send packet destination => exact exists_performs_send h hreact
  | arrive datagram source =>
      refine exists_performs_receive h (.arrive datagram source _ ?_) ?_ hreact
      · exact fun found hsome ↦ (SocketObject.received_eq hw hsome).2.1
      · intro found hsome
        obtain ⟨hvalid, rfl, hfits⟩ := SocketObject.received_eq hw hsome
        exact ⟨hvalid, hfits⟩
  | recvFailed => exact exists_performs_receive h .recvFailed (by simp) hreact
  | close =>
      cases hreact
      refine ⟨.close, _, .close, rfl, o.acquisitions_close, ?_, ?_, o.close_leaves⟩
      · simp [Method.succeeds]
      · simp [Method.received]

namespace Sockets

variable {P : Sockets} {process : List Label} {m : Method} {calls : List WinsockCall}

/-- A call for the only object of a process. -/
theorem HarmlessStep.call (hobjects : P.objects = [o]) (hrun : P.crashed = false) (howned : P.Owned)
    (hinvoke : o.invoke build inet m = .ok (o', [], calls))
    (hacquires : acquisitions (usesOf calls) = [])
    (hsucceeds : m.succeeds = true → o.isValid = true)
    (hreceived : ∀ bytes, m.received = some bytes → bytes.length ≤ bufferMax) :
    HarmlessStep build inet P (.call 0 m) { P with
      objects := [o']
      calls := P.calls ++ calls } := by
  have hget : P.objects[0]? = some o := by rw [hobjects, List.getElem?_cons_zero]
  have hpossible : m.Possible o P.inUse := by
    refine ⟨fun hm ↦ ?_, hreceived⟩
    obtain ⟨handle, hhandle⟩ := Option.isSome_iff_exists.mp (hsucceeds hm)
    refine ⟨handle, hhandle, howned.owned.mem_iff.mpr ⟨o, List.mem_of_getElem? hget, ?_⟩⟩
    exact SocketObject.mem_held_of_mem_handleResource (by simp [handleResource, hhandle])
  have hfresh : P.Fresh calls := by
    rw [Fresh, hacquires]
    exact List.forall_mem_nil _
  have hset : P.objects.set 0 o' ++ [] = [o'] := by rw [hobjects]; rfl
  have hstep := Step.call 0 m o o' [] calls hrun hget hpossible hinvoke hfresh
  rw [hset] at hstep
  exact ⟨hstep, trivial⟩

/-- The process has made one object and has called these member functions of it, in
which these datagrams have left. -/
structure Alone (build : Build) (inet : Inet) (address : NetAddress) (methods : List Method)
    (sent : List (Target × List UInt8)) (o : SocketObject) (P : Sockets) : Prop where
  run : Run (HarmlessStep build inet) {} (.make address .udp :: methods.map (.call 0)) P
  objects : P.objects = [o]
  crashed : P.crashed = false
  sent : P.calls.filterMap WinsockCall.leaves = sent

/-- A process with one object from its constructor to its destructor. Every call of
Winsock is for something that is open, and nothing is left open. -/
structure Lifetime (build : Build) (inet : Inet) (address : NetAddress) (methods : List Method)
    (sent : List (Target × List UInt8)) (P : Sockets) : Prop where
  run : Run (HarmlessStep build inet) {}
    (.make address .udp :: methods.map (.call 0) ++ [.destroy 0]) P
  sent : P.calls.filterMap WinsockCall.leaves = sent
  legal : Legal ∅ (usesOf P.calls)
  closed : P.inUse = ∅

namespace Alone

variable {address : NetAddress} {methods : List Method} {sent : List (Target × List UInt8)}

theorem make (address : NetAddress) (resolved : Option AddrInfo) (opened : Option Handle) :
    ∃ P, Alone build inet address [] [] (SocketObject.make address .udp resolved opened).1 P := by
  have hstep : Step build inet {} (.make address .udp) _ :=
    .make address .udp resolved opened _ _ rfl rfl fun r _ ↦ Finset.notMem_empty r
  refine ⟨_, .single ⟨hstep, trivial⟩, rfl, rfl, ?_⟩
  cases resolved with
  | none => rfl
  | some info =>
      cases opened with
      | none =>
          exact SocketObject.close_leaves
            { address := address, communicationProtocol := .udp, winAddrInfo := some info }
      | some handle => rfl

theorem call (h : Alone build inet address methods sent o P)
    (hinvoke : o.invoke build inet m = .ok (o', [], calls))
    (hacquires : acquisitions (usesOf calls) = [])
    (hsucceeds : m.succeeds = true → o.isValid = true)
    (hreceived : ∀ bytes, m.received = some bytes → bytes.length ≤ bufferMax) :
    ∃ P', Alone build inet address (methods ++ [m])
      (sent ++ calls.filterMap WinsockCall.leaves) o' P' := by
  have howned := (accounted_owned_of_run h.run).2
  have hstep := HarmlessStep.call h.objects h.crashed howned hinvoke hacquires hsucceeds hreceived
  refine ⟨{ P with objects := [o'], calls := P.calls ++ calls }, ?_, rfl, h.crashed, ?_⟩
  · rw [List.map_append]
    exact h.run.snoc hstep
  · rw [List.filterMap_append, h.sent]

theorem uses (hw : w.Documented) (h : Alone build inet address methods sent o P)
    (hrepresents : Represents role o s) (hby : ∀ e ∈ events, e.By role)
    (hend : (outputs (SocketObject.react build inet w) o events).2 = some o') :
    ∃ methods' P', List.Forall₂ SocketEvent.Calls events methods' ∧
      Alone build inet address (methods ++ methods')
        (sent ++ (outputs (SocketObject.react build inet w) o events).1.filterMap Outcome.leaves)
        o' P' := by
  induction events generalizing o s methods sent P with
  | nil =>
      obtain rfl : o = o' := Option.some.inj hend
      exact ⟨[], P, .nil, by simpa [outputs] using h⟩
  | cons e events ih =>
      have hmatches : Matches (Represents role) (o.react build inet w e)
          (s.react build inet w role e) := hrepresents.react e (hby e List.mem_cons_self)
      cases hreact : o.react build inet w e with
      | none =>
          rw [outputs_of_none hreact] at hend
          cases hend
      | some x =>
          obtain ⟨outcome, o₁⟩ := x
          rw [outputs_of_some hreact] at hend ⊢
          rw [hreact] at hmatches
          obtain ⟨m, calls, hperforms⟩ := exists_performs hw hrepresents.protocol hreact
          obtain ⟨P₁, h₁⟩ := h.call hperforms.invoke hperforms.acquires hperforms.succeeds
            hperforms.received
          obtain ⟨s₁, hrepresents₁⟩ : ∃ s₁, Represents role o₁ s₁ := by
            cases hs : s.react build inet w role e with
            | none =>
                rw [hs] at hmatches
                cases hmatches
            | some y =>
                rw [hs] at hmatches
                cases hmatches with
                | some hboth => exact ⟨_, hboth.2⟩
          obtain ⟨methods', P', hcalls, hafter⟩ := ih h₁ hrepresents₁
            (fun e he ↦ hby e (List.mem_cons_of_mem _ he)) hend
          refine ⟨m :: methods', P', .cons hperforms.method hcalls, ?_⟩
          rw [hperforms.leaves] at hafter
          have hleaves (outcomes : List Outcome) : (outcome :: outcomes).filterMap Outcome.leaves =
              outcome.leaves.toList ++ outcomes.filterMap Outcome.leaves := by
            cases hout : outcome.leaves <;> simp [hout]
          rw [hleaves, ← List.append_assoc]
          simpa using hafter

/-- The object goes through the uses of the socket in a run. -/
theorem lives (hw : w.Documented) (h : Alone build inet address methods [] o P) {t : Socket}
    (hused : Used build inet w role s t sent events) (hrepresents : Represents role o s) :
    ∃ o' methods' P', List.Forall₂ SocketEvent.Calls events methods' ∧
      Alone build inet address (methods ++ methods') sent o' P' := by
  have hreplays : Replays build inet w o events sent t.isValid := hused.replays hrepresents
  obtain ⟨o', hend, -⟩ := Option.map_eq_some_iff.mp hreplays.valid
  obtain ⟨methods', P', hcalls, hafter⟩ := h.uses hw hrepresents hused.by_role hend
  rw [hreplays.sent] at hafter
  exact ⟨o', methods', P', hcalls, hafter⟩

/-- The object is destroyed. -/
theorem destroy (h : Alone build inet address methods sent o P) :
    ∃ P', Lifetime build inet address methods sent P' := by
  have hget : P.objects[0]? = some o := by rw [h.objects, List.getElem?_cons_zero]
  have hnone : P.objects.eraseIdx 0 = [] := by rw [h.objects]; rfl
  have hstep : Step build inet P (.destroy 0) _ := .destroy 0 o h.crashed hget
  rw [hnone] at hstep
  have hrun := h.run.snoc ⟨hstep, trivial⟩
  have howned := (accounted_owned_of_run hrun).2
  refine ⟨_, hrun, ?_, howned.legal, howned.inUse_eq rfl⟩
  have hleaves : o.destroy.filterMap WinsockCall.leaves = [] := by
    unfold SocketObject.destroy
    split
    · exact o.close_leaves
    · rfl
  rw [List.filterMap_append, h.sent, hleaves, List.append_nil]

end Alone

end Sockets

end GioNet
