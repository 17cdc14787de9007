import GioNet.Library.Run
import GioNet.SocketObject

/-!
# The resources of sockets

Handles and lists of addresses are resources of Winsock, and the socket objects of
the process are their owners. A run is any sequence of constructions, calls of
member functions, moves and destructions.
-/

namespace GioNet

open Ownership LabelledRun

inductive Resource where
  | socket (handle : Handle)
  | addrInfo (place : ℕ)
  deriving DecidableEq

def AddrInfo.resource (info : AddrInfo) : Resource := .addrInfo info.place

/-- `INVALID_SOCKET` is no resource. -/
def handleResource (s : Option Handle) : List Resource := s.toList.map .socket

def Destination.reads : Destination → List Resource
  | .given _ => []
  | .resolved info => [info.resource]

/-- What a call of Winsock does with resources, its arguments included. -/
def WinsockCall.uses : WinsockCall → List (Use Resource)
  | .getaddrinfo _ _ _ result => result.toList.map fun info ↦ .acquire info.resource
  | .freeaddrinfo info => [.release info.resource]
  | .socket info result =>
      [.access info.resource] ++ result.toList.map fun handle ↦ .acquire (.socket handle)
  | .closesocket s => [.release (.socket s)]
  | .bind s info _ => (info.resource :: handleResource s).map .access
  | .connect s info _ => (info.resource :: handleResource s).map .access
  | .listen s _ => (handleResource s).map .access
  | .accept s result =>
      (handleResource s).map .access ++ result.toList.map fun found ↦ .acquire (.socket found.1)
  | .send s _ _ _ => (handleResource s).map .access
  | .sendto s _ _ destination _ => (destination.reads ++ handleResource s).map .access
  | .recv s _ => (handleResource s).map .access
  | .recvfrom s _ => (handleResource s).map .access

def usesOf (calls : List WinsockCall) : List (Use Resource) := calls.flatMap WinsockCall.uses

@[simp] theorem usesOf_nil : usesOf [] = [] := rfl

@[simp] theorem usesOf_cons (call : WinsockCall) (calls : List WinsockCall) :
    usesOf (call :: calls) = call.uses ++ usesOf calls := rfl

@[simp] theorem usesOf_append (calls calls' : List WinsockCall) :
    usesOf (calls ++ calls') = usesOf calls ++ usesOf calls' := List.flatMap_append

/-- A call of a member function, with what the call of Winsock in it comes to. -/
inductive Method where
  | send (buffer : Buffer) (sent : Option (List UInt8))
  | sendTo (buffer : Buffer) (destination : Option NetAddress) (sent : Option (List UInt8))
  | receive (received : Option (List UInt8))
  | receiveFrom (outFrom : NetAddress) (received : Option (List UInt8 × SockaddrIn))
  | bind (result : Bool)
  | listen (result : Bool)
  | acceptConnection (result : Option (Handle × SockaddrIn))
  | connect (result : Bool)
  | close

namespace SocketObject

variable {build : Build} {inet : Inet} {s s' : SocketObject}
  {more : List SocketObject} {calls : List WinsockCall} {call : WinsockCall} {m : Method}

def held (s : SocketObject) : List Resource :=
  s.winAddrInfo.toList.map AddrInfo.resource ++ handleResource s.winSocket

/-- The object afterwards, the objects that are made, and the calls. -/
def invoke (build : Build) (inet : Inet) (s : SocketObject) :
    Method → Except Crash (SocketObject × List SocketObject × List WinsockCall)
  | .send buffer sent => do
      let r ← s.send build buffer sent
      return (r.object, [], r.calls)
  | .sendTo buffer destination sent => do
      let r ← s.sendTo build inet buffer destination sent
      return (r.object, [], r.calls)
  | .receive received => do
      let r ← s.receive build received
      return (r.object, [], r.calls)
  | .receiveFrom outFrom received => do
      let (r, _) ← s.receiveFrom build inet outFrom received
      return (r.object, [], r.calls)
  | .bind result => do
      let r ← s.bind result
      return (r.object, [], r.calls)
  | .listen result => do
      let r ← s.listen build result
      return (r.object, [], r.calls)
  | .acceptConnection result => do
      let r ← s.acceptConnection build inet result
      return (r.object, r.value.toList, r.calls)
  | .connect result => do
      let r ← s.connect build result
      return (r.object, [], r.calls)
  | .close => .ok (s.close.1, [], s.close.2)

/-- A socket without a handle has no list of addresses, which the destructor would
not free. -/
def Kept (s : SocketObject) : Prop := s.winSocket = none → s.winAddrInfo = none

/-- What the calls do with the resources of the object is legal and turns them into
those of the objects afterwards. -/
structure Acts (s s' : SocketObject) (more : List SocketObject) (calls : List WinsockCall) :
    Prop where
  takes : Takes s.held.toFinset (usesOf calls) ((s' :: more).flatMap held).toFinset
  nodup : ((s' :: more).flatMap held).Nodup
  kept : s.Kept → ∀ t ∈ s' :: more, t.Kept

theorem nodup_held (s : SocketObject) : s.held.Nodup := by
  unfold held handleResource
  cases s.winAddrInfo <;> cases s.winSocket <;> simp [AddrInfo.resource]

theorem Acts.of_single (htakes : Takes s.held.toFinset (usesOf calls) s'.held.toFinset)
    (hkept : s.Kept → s'.Kept) : Acts s s' [] calls := by
  refine ⟨?_, ?_, ?_⟩
  · simpa using htakes
  · simpa using s'.nodup_held
  · simpa using hkept

theorem usesOf_close (s : SocketObject) : usesOf s.close.2 = s.held.map .release := by
  unfold close freeAddressInfo
  rcases s with ⟨address, protocol, _ | handle, _ | info⟩ <;> rfl

theorem close_takes (s : SocketObject) :
    Takes s.held.toFinset (usesOf s.close.2) s.close.1.held.toFinset := by
  rw [usesOf_close, close_object]
  exact .release s.nodup_held

theorem close_kept (s : SocketObject) : s.close.1.Kept := by
  rw [close_object]
  exact fun _ ↦ rfl

theorem freeAddressInfo_takes (s : SocketObject) :
    Takes s.held.toFinset (usesOf s.freeAddressInfo.2) s.freeAddressInfo.1.held.toFinset := by
  have huses : usesOf s.freeAddressInfo.2 =
      (s.winAddrInfo.toList.map AddrInfo.resource).map .release := by
    unfold freeAddressInfo
    rcases s with ⟨address, protocol, handle, _ | info⟩ <;> rfl
  have hnodup := List.nodup_append'.mp s.nodup_held
  have hfrees := Takes.release hnodup.1
  obtain ⟨htakes, -⟩ := hfrees.frame
    (List.disjoint_toFinset_iff_disjoint.mpr hnodup.2.2)
    (by rw [acquisitions_map_release]; exact nofun)
  rw [freeAddressInfo_object, huses, held, List.toFinset_append]
  simpa [held] using htakes

/-- The resources that a call only looks at belong to the object. -/
def Reads (s : SocketObject) (call : WinsockCall) : Prop :=
  ∃ rs : List Resource, call.uses = rs.map .access ∧ ∀ r ∈ rs, r ∈ s.held

theorem Reads.takes (h : s.Reads call) : Takes s.held.toFinset (usesOf [call]) s.held.toFinset := by
  obtain ⟨rs, huses, hmem⟩ := h
  rw [usesOf_cons, usesOf_nil, List.append_nil, huses]
  exact .access fun r hr ↦ List.mem_toFinset.mpr (hmem r hr)

theorem Reads.acts (h : s.Reads call) : Acts s s [] [call] := .of_single h.takes id

theorem Reads.then (h : s.Reads call)
    (htakes : Takes s.held.toFinset (usesOf calls) s'.held.toFinset) (hkept : s.Kept → s'.Kept) :
    Acts s s' [] (call :: calls) :=
  .of_single (usesOf_append [call] calls ▸ h.takes.append htakes) hkept

theorem Reads.close (h : s.Reads call) : Acts s s.close.1 [] (call :: s.close.2) :=
  h.then s.close_takes fun _ ↦ s.close_kept

theorem Reads.free (h : s.Reads call) :
    Acts s s.freeAddressInfo.1 [] (call :: s.freeAddressInfo.2) := by
  refine h.then s.freeAddressInfo_takes fun _ ↦ ?_
  rw [freeAddressInfo_object]
  exact fun _ ↦ rfl

theorem finishSend_acts (h : s.Reads call) (sent : Option (List UInt8)) :
    Acts s (s.finishSend call sent).object [] (s.finishSend call sent).calls := by
  cases sent with
  | none => exact h.close
  | some bytes => exact h.acts

theorem mem_held_of_mem_handleResource {r : Resource} (h : r ∈ handleResource s.winSocket) :
    r ∈ s.held := List.mem_append_right _ h

theorem mem_held_of_winAddrInfo {info : AddrInfo} (h : s.winAddrInfo = some info) :
    info.resource ∈ s.held := by
  simp [held, h]

theorem reads_handle (h : call.uses = (handleResource s.winSocket).map .access) : s.Reads call :=
  ⟨_, h, fun _ ↦ mem_held_of_mem_handleResource⟩

theorem reads_info {info : AddrInfo} (hinfo : s.winAddrInfo = some info)
    (h : call.uses = (info.resource :: handleResource s.winSocket).map .access) :
    s.Reads call := by
  refine ⟨_, h, fun r hr ↦ ?_⟩
  rcases List.mem_cons.mp hr with rfl | hr
  · exact mem_held_of_winAddrInfo hinfo
  · exact mem_held_of_mem_handleResource hr

theorem send_acts {buffer : Buffer} {sent : Option (List UInt8)} {r : Returned (Option ℤ)}
    (h : s.send build buffer sent = .ok r) : Acts s r.object [] r.calls := by
  cases expect_bind h
  exact finishSend_acts (reads_handle rfl) sent

theorem sendTo_acts {buffer : Buffer} {destination : Option NetAddress}
    {sent : Option (List UInt8)} {r : Returned (Option ℤ)}
    (h : s.sendTo build inet buffer destination sent = .ok r) :
    Acts s r.object [] r.calls := by
  replace h := expect_bind h
  cases destination with
  | some destination =>
      cases h
      exact finishSend_acts (reads_handle rfl) sent
  | none =>
      cases hinfo : s.winAddrInfo with
      | some info =>
          rw [hinfo] at h
          cases h
          exact finishSend_acts (reads_info hinfo rfl) sent
      | none =>
          rw [hinfo] at h
          dsimp only at h
          split at h <;> cases h

theorem receive_acts {received : Option (List UInt8)} {r : Returned (Option Buffer)}
    (h : s.receive build received = .ok r) : Acts s r.object [] r.calls := by
  replace h := expect_bind h
  cases received with
  | none =>
      cases h
      exact (reads_handle rfl).close
  | some bytes =>
      dsimp only at h
      cases hbuffer : buffered build bytes with
      | error c =>
          rw [hbuffer] at h
          cases h
      | ok b =>
          rw [hbuffer] at h
          cases h
          exact (reads_handle rfl).acts

theorem receiveFrom_acts {outFrom source : NetAddress}
    {received : Option (List UInt8 × SockaddrIn)} {r : Returned (Option Buffer)}
    (h : s.receiveFrom build inet outFrom received = .ok (r, source)) :
    Acts s r.object [] r.calls := by
  replace h := expect_bind h
  cases received with
  | none =>
      cases h
      exact (reads_handle rfl).close
  | some datagram =>
      dsimp only at h
      cases hbuffer : buffered build datagram.1 with
      | error c =>
          rw [hbuffer] at h
          cases h
      | ok b =>
          rw [hbuffer] at h
          cases h
          exact (reads_handle rfl).acts

theorem bind_acts {result : Bool} {r : Returned Bool} (h : s.bind result = .ok r) :
    Acts s r.object [] r.calls := by
  unfold bind at h
  cases hinfo : s.winAddrInfo with
  | none =>
      rw [hinfo] at h
      cases h
  | some info =>
      rw [hinfo] at h
      cases result with
      | true =>
          cases h
          exact (reads_info hinfo rfl).free
      | false =>
          cases h
          exact (reads_info hinfo rfl).close

theorem listen_acts {result : Bool} {r : Returned Bool} (h : s.listen build result = .ok r) :
    Acts s r.object [] r.calls := by
  replace h := expect_bind h
  cases result with
  | true =>
      cases h
      exact (reads_handle rfl).acts
  | false =>
      cases h
      exact (reads_handle rfl).close

theorem connect_acts {result : Bool} {r : Returned Bool} (h : s.connect build result = .ok r) :
    Acts s r.object [] r.calls := by
  replace h := expect_bind h
  cases hinfo : s.winAddrInfo with
  | none =>
      rw [hinfo] at h
      cases h
  | some info =>
      rw [hinfo] at h
      cases result with
      | true =>
          cases h
          exact (reads_info hinfo rfl).free
      | false =>
          cases h
          exact (reads_info hinfo rfl).acts

/-- The handle of an accepted connection goes to the new object. -/
theorem acceptConnection_acts {result : Option (Handle × SockaddrIn)}
    {r : Returned (Option SocketObject)} (h : s.acceptConnection build inet result = .ok r)
    (hnew : ∀ found, result = some found → Resource.socket found.1 ∉ s.held) :
    Acts s r.object r.value.toList r.calls := by
  replace h := expect_bind h
  cases result with
  | none =>
      cases h
      exact (reads_handle (by simp [WinsockCall.uses])).acts
  | some found =>
      cases h
      replace hnew := hnew found rfl
      have hreads := Takes.access (s := s.held.toFinset) fun r hr ↦
        List.mem_toFinset.mpr (mem_held_of_mem_handleResource hr)
      have hacquires := Takes.acquire (s := s.held.toFinset) (by simpa using hnew)
      have hheld : ({ address := found.2.acceptedAddress inet, winSocket := some found.1 } :
          SocketObject).held = [.socket found.1] := rfl
      refine ⟨?_, ?_, ?_⟩
      · have htakes := hreads.append hacquires
        rw [usesOf_cons, usesOf_nil, List.append_nil]
        simpa [hheld, WinsockCall.uses, Finset.union_comm] using htakes
      · simpa [hheld, List.nodup_append', s.nodup_held] using hnew
      · intro hkept t ht
        rcases List.mem_cons.mp ht with rfl | ht
        · exact hkept
        · obtain rfl := List.mem_singleton.mp ht
          exact nofun

theorem exists_of_bind {α β : Type} {x : Except Crash α} {f : α → β} {y : β}
    (h : (x >>= fun r ↦ pure (f r)) = .ok y) : ∃ r, x = .ok r ∧ f r = y := by
  cases x with
  | error c => cases h
  | ok r => exact ⟨r, rfl, Except.ok.inj h⟩

/-- What a member function does is the object's own affair. -/
theorem invoke_acts (h : s.invoke build inet m = .ok (s', more, calls))
    (hnew : ∀ found, m = .acceptConnection (some found) → Resource.socket found.1 ∉ s.held) :
    Acts s s' more calls := by
  cases m with
  | send buffer sent =>
      obtain ⟨r, hr, heq⟩ := exists_of_bind h
      cases heq
      exact send_acts hr
  | sendTo buffer destination sent =>
      obtain ⟨r, hr, heq⟩ := exists_of_bind h
      cases heq
      exact sendTo_acts hr
  | receive received =>
      obtain ⟨r, hr, heq⟩ := exists_of_bind h
      cases heq
      exact receive_acts hr
  | receiveFrom outFrom received =>
      obtain ⟨⟨r, source⟩, hr, heq⟩ := exists_of_bind h
      cases heq
      exact receiveFrom_acts hr
  | bind result =>
      obtain ⟨r, hr, heq⟩ := exists_of_bind h
      cases heq
      exact bind_acts hr
  | listen result =>
      obtain ⟨r, hr, heq⟩ := exists_of_bind h
      cases heq
      exact listen_acts hr
  | acceptConnection result =>
      obtain ⟨r, hr, heq⟩ := exists_of_bind h
      cases heq
      exact acceptConnection_acts hr fun found hfound ↦ hnew found (congrArg _ hfound)
  | connect result =>
      obtain ⟨r, hr, heq⟩ := exists_of_bind h
      cases heq
      exact connect_acts hr
  | close =>
      cases h
      exact .of_single s.close_takes fun _ ↦ s.close_kept

/-- The constructor acquires what the new object holds, and no more. -/
theorem make_takes (address : NetAddress) (protocol : CommunicationProtocols)
    (resolved : Option AddrInfo) (opened : Option Handle) :
    Takes ∅ (usesOf (make address protocol resolved opened).2)
      (make address protocol resolved opened).1.held.toFinset := by
  cases resolved with
  | none => exact .nil ∅
  | some info =>
      have hresolves : Takes ∅ [.acquire info.resource, .access info.resource]
          {info.resource} := by
        have hreads : Takes {info.resource} ([info.resource].map .access) {info.resource} :=
          .access (by simp)
        exact (Takes.acquire (Finset.notMem_empty info.resource)).append hreads
      cases opened with
      | none =>
          have hcloses := close_takes
            { address := address, communicationProtocol := protocol, winAddrInfo := some info }
          exact hresolves.append hcloses
      | some handle =>
          have hnew : Resource.socket handle ∉ ({info.resource} : Finset Resource) := by
            simp [AddrInfo.resource]
          have hheld : (make address protocol (some info) (some handle)).1.held.toFinset =
              insert (.socket handle) {info.resource} :=
            Finset.insert_comm info.resource (.socket handle) ∅
          rw [hheld]
          exact hresolves.append (.acquire hnew)

theorem make_kept (address : NetAddress) (protocol : CommunicationProtocols)
    (resolved : Option AddrInfo) (opened : Option Handle) :
    (make address protocol resolved opened).1.Kept := by
  cases resolved with
  | none => exact fun _ ↦ rfl
  | some info =>
      cases opened with
      | none =>
          exact close_kept
            { address := address, communicationProtocol := protocol, winAddrInfo := some info }
      | some handle => exact nofun

/-- The destructor looks at the handle only, and that is enough. -/
theorem destroy_takes (h : s.Kept) : Takes s.held.toFinset (usesOf s.destroy) ∅ := by
  unfold destroy
  cases hsocket : s.winSocket with
  | some handle =>
      rw [show (∅ : Finset Resource) = s.close.1.held.toFinset by rw [close_object]; rfl]
      exact s.close_takes
  | none =>
      have hnone : s.held = [] := by simp [held, handleResource, hsocket, h hsocket]
      rw [hnone]
      exact .nil ∅

theorem acquisitions_destroy (s : SocketObject) : acquisitions (usesOf s.destroy) = [] := by
  unfold destroy
  cases s.winSocket with
  | some handle => exact s.usesOf_close ▸ acquisitions_map_release s.held
  | none => rfl

@[simp] theorem held_movedFrom (s : SocketObject) : s.movedFrom.held = s.held := rfl

theorem held_eq_nil_iff (h : s.Kept) : s.held = [] ↔ s.isValid = false := by
  unfold held handleResource isValid
  cases hsocket : s.winSocket with
  | some handle => simp
  | none => simp [h hsocket]

end SocketObject

/-! ## The sockets of a process -/

namespace Method

/-- The call of Winsock is no error. -/
def succeeds : Method → Bool
  | send _ sent => sent.isSome
  | sendTo _ _ sent => sent.isSome
  | receive received => received.isSome
  | receiveFrom _ received => received.isSome
  | bind result => result
  | listen result => result
  | acceptConnection result => result.isSome
  | connect result => result
  | close => false

def received : Method → Option (List UInt8)
  | receive received => received
  | receiveFrom _ received => received.map Prod.fst
  | _ => none

/-- Winsock fails on what is no open handle, and writes no more than there is room for. -/
def Possible (m : Method) (s : SocketObject) (inUse : Finset Resource) : Prop :=
  (m.succeeds = true → ∃ handle, s.winSocket = some handle ∧ Resource.socket handle ∈ inUse) ∧
    ∀ bytes, m.received = some bytes → bytes.length ≤ bufferMax

end Method

/-- `copied` and `overwritten` have the resources that moves have copied from one object
to another, and those that an object has forgotten in a move. -/
structure Sockets where
  objects : List SocketObject := []
  calls : List WinsockCall := []
  copied : List Resource := []
  overwritten : List Resource := []
  crashed : Bool := false

namespace Sockets

def inUse (P : Sockets) : Finset Resource := liveAfter ∅ (usesOf P.calls)

inductive Label where
  | default
  | make (address : NetAddress) (protocol : CommunicationProtocols)
  | call (i : ℕ) (m : Method)
  | moveConstruct (i : ℕ)
  | moveAssign (i j : ℕ)
  | destroy (i : ℕ)

/-- Winsock gives nothing that is in use. -/
def Fresh (P : Sockets) (calls : List WinsockCall) : Prop :=
  ∀ r ∈ acquisitions (usesOf calls), r ∉ P.inUse

inductive Step (build : Build) (inet : Inet) (P : Sockets) :
    Label → Sockets → Prop
  | default (hrun : P.crashed = false) :
      Step build inet P .default { P with objects := P.objects ++ [{}] }
  | make (address : NetAddress) (protocol : CommunicationProtocols) (resolved : Option AddrInfo)
      (opened : Option Handle) (s : SocketObject) (calls : List WinsockCall)
      (hrun : P.crashed = false)
      (hmake : SocketObject.make address protocol resolved opened = (s, calls))
      (hfresh : P.Fresh calls) :
      Step build inet P (.make address protocol) { P with
        objects := P.objects ++ [s]
        calls := P.calls ++ calls }
  | call (i : ℕ) (m : Method) (s s' : SocketObject) (more : List SocketObject)
      (calls : List WinsockCall) (hrun : P.crashed = false) (hget : P.objects[i]? = some s)
      (hpossible : m.Possible s P.inUse)
      (hinvoke : s.invoke build inet m = .ok (s', more, calls)) (hfresh : P.Fresh calls) :
      Step build inet P (.call i m) { P with
        objects := P.objects.set i s' ++ more
        calls := P.calls ++ calls }
  | crash (i : ℕ) (m : Method) (s : SocketObject) (c : Crash) (hrun : P.crashed = false)
      (hget : P.objects[i]? = some s) (hpossible : m.Possible s P.inUse)
      (hinvoke : s.invoke build inet m = .error c) :
      Step build inet P (.call i m) { P with crashed := true }
  | moveConstruct (i : ℕ) (s : SocketObject) (hrun : P.crashed = false)
      (hget : P.objects[i]? = some s) :
      Step build inet P (.moveConstruct i) { P with
        objects := P.objects.set i s.movedFrom ++ [s]
        copied := P.copied ++ s.held }
  | moveAssign (i j : ℕ) (s t : SocketObject) (hrun : P.crashed = false) (hne : i ≠ j)
      (hget : P.objects[i]? = some s) (hget' : P.objects[j]? = some t) :
      Step build inet P (.moveAssign i j) { P with
        objects := (P.objects.set i t).set j t.movedFrom
        copied := P.copied ++ t.held
        overwritten := P.overwritten ++ s.held }
  | selfMove (i : ℕ) (s : SocketObject) (hrun : P.crashed = false)
      (hget : P.objects[i]? = some s) :
      Step build inet P (.moveAssign i i) P
  | destroy (i : ℕ) (s : SocketObject) (hrun : P.crashed = false)
      (hget : P.objects[i]? = some s) :
      Step build inet P (.destroy i) { P with
        objects := P.objects.eraseIdx i
        calls := P.calls ++ s.destroy }

variable {build : Build} {inet : Inet} {P P' : Sockets}
  {labels : List Label} {label : Label}

/-- The handle of an accepted connection is not that of the listening socket. -/
theorem Fresh.notMem_held {calls : List WinsockCall} (h : P.Fresh calls) {s s' : SocketObject}
    {more : List SocketObject} {found : Handle × SockaddrIn}
    (hpossible : (Method.acceptConnection (some found)).Possible s P.inUse)
    (hinvoke : s.invoke build inet (.acceptConnection (some found)) = .ok (s', more, calls)) :
    Resource.socket found.1 ∉ s.held := by
  obtain ⟨handle, hsocket, huse⟩ := hpossible.1 rfl
  obtain ⟨r, hr, heq⟩ := SocketObject.exists_of_bind hinvoke
  cases heq
  cases SocketObject.expect_bind hr
  have hnew : Resource.socket found.1 ∉ P.inUse := h _ (by simp [WinsockCall.uses])
  intro hmem
  have heq : found.1 = handle := by
    simpa [SocketObject.held, handleResource, AddrInfo.resource, hsocket] using hmem
  exact hnew (heq ▸ huse)

theorem acts_of_call {calls : List WinsockCall} {m : Method} {s s' : SocketObject}
    {more : List SocketObject} (hpossible : m.Possible s P.inUse)
    (hinvoke : s.invoke build inet m = .ok (s', more, calls)) (hfresh : P.Fresh calls) :
    s.Acts s' more calls := by
  refine SocketObject.invoke_acts hinvoke ?_
  rintro found rfl
  exact hfresh.notMem_held hpossible hinvoke

/-! ## The account of handles and lists of addresses -/

structure Accounted (P : Sockets) : Prop where
  kept : ∀ s ∈ P.objects, s.Kept
  balanced : Balanced SocketObject.held P.objects (usesOf P.calls) P.copied P.overwritten

theorem Accounted.step (h : P.Accounted) (hstep : Step build inet P label P') :
    P'.Accounted := by
  obtain ⟨hkept, hbalanced⟩ := h
  cases hstep with
  | default =>
      refine ⟨?_, ?_⟩
      · intro t ht
        rcases List.mem_append.mp ht with ht | ht
        · exact hkept t ht
        · obtain rfl := List.mem_singleton.mp ht
          exact fun _ ↦ rfl
      · have hadds := hbalanced.add (a := ({} : SocketObject)) (.nil ∅) List.nodup_nil
        rwa [List.append_nil] at hadds
  | make address protocol resolved opened s calls _ hmake =>
      have htakes := SocketObject.make_takes address protocol resolved opened
      have hnew := SocketObject.make_kept address protocol resolved opened
      rw [hmake] at htakes hnew
      refine ⟨?_, ?_⟩
      · intro t ht
        rcases List.mem_append.mp ht with ht | ht
        · exact hkept t ht
        · exact List.mem_singleton.mp ht ▸ hnew
      · rw [usesOf_append]
        exact hbalanced.add htakes s.nodup_held
  | call i m s s' more calls _ hget hpossible hinvoke hfresh =>
      have hmem := List.mem_of_getElem? hget
      have hacts := acts_of_call hpossible hinvoke hfresh
      refine ⟨?_, ?_⟩
      · intro t ht
        rcases List.mem_append.mp ht with ht | ht
        · rcases List.mem_or_eq_of_mem_set ht with ht | rfl
          · exact hkept t ht
          · exact hacts.kept (hkept s hmem) t List.mem_cons_self
        · exact hacts.kept (hkept s hmem) t (List.mem_cons_of_mem _ ht)
      · rw [usesOf_append]
        exact hbalanced.act hget hacts.takes s.nodup_held hacts.nodup
  | crash => exact ⟨hkept, hbalanced⟩
  | moveConstruct i s _ hget =>
      have hs := hkept s (List.mem_of_getElem? hget)
      refine ⟨?_, ?_⟩
      · intro t ht
        rcases List.mem_append.mp ht with ht | ht
        · rcases List.mem_or_eq_of_mem_set ht with ht | rfl
          · exact hkept t ht
          · exact hs
        · exact List.mem_singleton.mp ht ▸ hs
      · exact (hbalanced.set hget s.held_movedFrom).copy s
  | moveAssign i j s t _ hne hget hget' =>
      have ht := hkept t (List.mem_of_getElem? hget')
      refine ⟨?_, ?_⟩
      · intro u hu
        rcases List.mem_or_eq_of_mem_set hu with hu | rfl
        · rcases List.mem_or_eq_of_mem_set hu with hu | rfl
          · exact hkept u hu
          · exact ht
        · exact ht
      · have hset : (P.objects.set i t)[j]? = some t := by
          rw [List.getElem?_set_ne hne, hget']
        exact (hbalanced.overwrite hget t).set hset t.held_movedFrom
  | selfMove => exact ⟨hkept, hbalanced⟩
  | destroy i s _ hget =>
      refine ⟨fun t ht ↦ hkept t (List.mem_of_mem_eraseIdx ht), ?_⟩
      rw [usesOf_append]
      exact hbalanced.drop hget
        (SocketObject.destroy_takes (hkept s (List.mem_of_getElem? hget))) s.nodup_held

theorem accounted_of_run (hrun : Run (Step build inet) {} labels P) : P.Accounted := by
  refine hrun.invariant Accounted ?_ fun Q l Q' h hstep ↦ h.step hstep
  exact ⟨nofun, Balanced.nil⟩

/-- In every run, a handle or list of addresses that Winsock has given to the process
and moves have copied is closed, overwritten in a move, or still held. -/
theorem accounts_of_run (hrun : Run (Step build inet) {} labels P) (r : Resource) :
    (acquisitions (usesOf P.calls)).count r + P.copied.count r =
      (releases (usesOf P.calls)).count r + P.overwritten.count r +
        (P.objects.flatMap SocketObject.held).count r :=
  (accounted_of_run hrun).balanced r

/-! ## Sockets that are not moved -/

/-- Only closed sockets are moved, and they are moved to closed sockets. -/
def Harmless (P : Sockets) : Label → Prop
  | .moveConstruct i => ∀ s, P.objects[i]? = some s → s.isValid = false
  | .moveAssign i j => i ≠ j → ∀ k ∈ [i, j], ∀ s, P.objects[k]? = some s → s.isValid = false
  | _ => True

structure HarmlessStep (build : Build) (inet : Inet) (P : Sockets)
    (label : Label) (P' : Sockets) : Prop where
  step : Step build inet P label P'
  harmless : P.Harmless label

/-- No call of Winsock was for what was not in use, and what is in use is held by one
socket object. -/
structure Owned (P : Sockets) : Prop where
  legal : Legal ∅ (usesOf P.calls)
  owned : Ownership.Owned SocketObject.held P.objects P.inUse

theorem inUse_append (P : Sockets) (calls : List WinsockCall) :
    liveAfter ∅ (usesOf (P.calls ++ calls)) = liveAfter P.inUse (usesOf calls) := by
  rw [usesOf_append, liveAfter_append]
  rfl

/-- The calls of an owner that are legal and leave the resources owned. -/
theorem Owned.append (h : P.Owned) {calls : List WinsockCall} {objects : List SocketObject}
    (hacts : Legal P.inUse (usesOf calls) ∧
      Ownership.Owned SocketObject.held objects (liveAfter P.inUse (usesOf calls))) :
    ({ P with objects := objects, calls := P.calls ++ calls } : Sockets).Owned := by
  refine ⟨?_, ?_⟩
  · rw [usesOf_append]
    exact legal_append.mpr ⟨h.legal, hacts.1⟩
  · rw [inUse, inUse_append]
    exact hacts.2

/-- Nothing is called. -/
theorem Owned.iff_owned (h : P.Owned) (objects : List SocketObject)
    (copied overwritten : List Resource) :
    ({ P with objects := objects, copied := copied, overwritten := overwritten } :
      Sockets).Owned ↔ Ownership.Owned SocketObject.held objects P.inUse :=
  ⟨fun h' ↦ h'.owned, fun howned ↦ ⟨h.legal, howned⟩⟩

/-- A step leaves the resources owned exactly if it does not move an open socket and
does not overwrite one. -/
theorem Owned.step_iff (h : P.Owned) (hkept : ∀ s ∈ P.objects, s.Kept)
    (hstep : Step build inet P label P') : P'.Owned ↔ P.Harmless label := by
  cases hstep with
  | default => exact iff_of_true ((h.iff_owned _ _ _).mpr (h.owned.snoc_iff.mpr rfl)) trivial
  | make address protocol resolved opened s calls _ hmake hfresh =>
      have htakes := SocketObject.make_takes address protocol resolved opened
      rw [hmake] at htakes
      exact iff_of_true (h.append (h.owned.add htakes s.nodup_held hfresh)) trivial
  | call i m s s' more calls _ hget hpossible hinvoke hfresh =>
      have hacts := acts_of_call hpossible hinvoke hfresh
      exact iff_of_true (h.append (h.owned.act hget hacts.takes hacts.nodup hfresh)) trivial
  | crash => exact iff_of_true ⟨h.legal, h.owned⟩ trivial
  | moveConstruct i s _ hget =>
      have hs := SocketObject.held_eq_nil_iff (hkept s (List.mem_of_getElem? hget))
      have hset := (Ownership.Owned.set_iff hget s.held_movedFrom).mpr h.owned
      rw [h.iff_owned, hset.snoc_iff, hs]
      simp [Harmless, hget]
  | moveAssign i j s t _ hne hget hget' =>
      have hs := SocketObject.held_eq_nil_iff (hkept s (List.mem_of_getElem? hget))
      have ht := SocketObject.held_eq_nil_iff (hkept t (List.mem_of_getElem? hget'))
      have hset : (P.objects.set i t)[j]? = some t := by
        rw [List.getElem?_set_ne hne, hget']
      rw [h.iff_owned, Ownership.Owned.set_iff hset t.held_movedFrom,
        h.owned.overwrite_iff hget hget' hne rfl, hs, ht]
      simp [Harmless, hget, hget', hne]
  | selfMove i => exact iff_of_true h fun hne ↦ absurd rfl hne
  | destroy i s _ hget =>
      have hdrops := h.owned.drop hget
        (SocketObject.destroy_takes (hkept s (List.mem_of_getElem? hget)))
        (by rw [s.acquisitions_destroy]; exact nofun)
      exact iff_of_true (h.append hdrops) trivial

theorem accounted_owned_of_run (hrun : Run (HarmlessStep build inet) {} labels P) :
    P.Accounted ∧ P.Owned := by
  refine hrun.invariant (fun Q ↦ Q.Accounted ∧ Q.Owned) ?_ fun Q l Q' h hstep ↦ ?_
  · exact ⟨⟨nofun, Balanced.nil⟩, trivial, Ownership.Owned.nil⟩
  · obtain ⟨hbefore, howned⟩ := h
    exact ⟨hbefore.step hstep.step, (howned.step_iff hbefore.kept hstep.step).mpr hstep.harmless⟩

/-- Nothing is in use when there is no object. -/
theorem Owned.inUse_eq (h : P.Owned) (hnone : P.objects = []) : P.inUse = ∅ := by
  rw [h.owned.live_eq, hnone]
  rfl

def serverAddrInfo : AddrInfo where
  place := 100
  aiFamily := afInet
  aiSocktype := sockDgram
  aiProtocol := ipprotoUdp
  aiAddr := ⟨Inet.littleEndian.htons 27015, {}⟩

def serverSocket : SocketObject where
  address := ⟨[], 27015⟩
  communicationProtocol := .udp
  winSocket := some 5
  winAddrInfo := some serverAddrInfo

theorem step_make : Step .debug .littleEndian {} (.make ⟨[], 27015⟩ .udp)
    { objects := [serverSocket], calls := (SocketObject.make ⟨[], 27015⟩ .udp
      (some serverAddrInfo) (some 5)).2 } := by
  refine .make _ _ (some serverAddrInfo) (some 5) _ _ rfl rfl ?_
  intro r _
  exact Finset.notMem_empty r

/-- A socket is moved, and what is moved to and from is destroyed. -/
def moved : List Label := [.make ⟨[], 27015⟩ .udp, .moveConstruct 0, .destroy 0, .destroy 0]

theorem exists_moved : ∃ P, Run (Step .debug .littleEndian) {} moved P ∧ P.objects = [] ∧
    P.copied = serverSocket.held ∧ P.overwritten = [] ∧
      (acquisitions (usesOf P.calls)).count (.socket 5) = 1 := by
  have hrun₂ := (Run.single step_make).snoc (.moveConstruct 0 serverSocket rfl rfl)
  have hrun₃ := hrun₂.snoc (.destroy 0 serverSocket.movedFrom rfl rfl)
  have hrun₄ := hrun₃.snoc (.destroy 0 serverSocket rfl rfl)
  exact ⟨_, hrun₄, rfl, rfl, rfl, by decide⟩

/-- The handle is opened once and closed twice. -/
theorem accounts_after_moved : ∃ P, Run (Step .debug .littleEndian) {} moved P ∧
    (acquisitions (usesOf P.calls)).count (.socket 5) = 1 ∧
      (releases (usesOf P.calls)).count (.socket 5) = 2 := by
  obtain ⟨P, hrun, hobjects, hcopied, hoverwritten, hopened⟩ := exists_moved
  have haccount := accounts_of_run hrun (.socket 5)
  rw [hopened, hcopied, hoverwritten, hobjects,
    show serverSocket.held.count (.socket 5) = 1 by decide] at haccount
  exact ⟨P, hrun, hopened, haccount.symm⟩

/-- A socket is made, bound and destroyed. -/
def bound : List Label := [.make ⟨[], 27015⟩ .udp, .call 0 (.bind true), .destroy 0]

end Sockets

end GioNet
