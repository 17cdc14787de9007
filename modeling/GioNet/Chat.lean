import GioNet.System

/-!
# The chat program

The server relays each line that comes from a client to the other clients, and
sends them its own lines as well. `Broadcast` is called by `ListenThread`, in
which the delegates run, and by the main thread. The two threads and the clients
interleave in any way, but each thread does one thing after the other.
-/

namespace GioNet

/-- `Buffer(view)`. -/
def Buffer.ofView (view : StdString) : Except Fault Buffer := do
  let (_, b) ← (Buffer.writeStringView view).run {}
  return b

def maxMessageLength : ℕ := 100

/-! ## The host of a chat -/

namespace ChatHost

def backspace : UInt8 := 8

def lineFeed : UInt8 := 10

def carriageReturn : UInt8 := 13

def format (username message : StdString) : StdString :=
  literal "[" ++ username ++ literal "]: " ++ message

def appendToPrompt (prompt : StdString) (c : UInt8) : StdString :=
  if c = backspace ∧ prompt.length > 0 then prompt.dropLast else prompt ++ [c]

/-- The loop of `ReadInput` on these keys: the line, if one of the keys finishes
it, and the keys after that one. -/
def readInput (prompt : StdString) : List UInt8 → Option (StdString × List UInt8)
  | [] => none
  | c :: keys =>
      if c = carriageReturn ∨ c = lineFeed then some (prompt, keys)
      else if c = backspace ∧ prompt = [] then readInput prompt keys
      else readInput (appendToPrompt prompt c) keys

/-- The text stays on one line of the console and erases nothing. -/
def Plain (text : StdString) : Prop :=
  ∀ c ∈ text, c ≠ backspace ∧ c ≠ lineFeed ∧ c ≠ carriageReturn

instance (text : StdString) : Decidable (Plain text) :=
  List.decidableBAll (fun c ↦ c ≠ backspace ∧ c ≠ lineFeed ∧ c ≠ carriageReturn) text

theorem Plain.append {text text' : StdString} (h : Plain text) (h' : Plain text') :
    Plain (text ++ text') :=
  List.forall_mem_append.mpr ⟨h, h'⟩

theorem Plain.format {username message : StdString} (hname : Plain username)
    (hmessage : Plain message) : Plain (format username message) := by
  have hopen : Plain (literal "[") := by decide
  have hclose : Plain (literal "]: ") := by decide
  exact ((hopen.append hname).append hclose).append hmessage

/-- The keys that edit or finish a line are no part of it. -/
theorem plain_of_readInput {prompt keys input rest : StdString}
    (h : readInput prompt keys = some (input, rest)) (hprompt : Plain prompt) : Plain input := by
  induction prompt, keys using readInput.induct with
  | case1 prompt => cases h
  | case2 prompt c keys hend =>
      rw [readInput, if_pos hend] at h
      exact (Prod.mk.inj (Option.some.inj h)).1 ▸ hprompt
  | case3 prompt c keys hend hempty ih =>
      rw [readInput, if_neg hend, if_pos hempty] at h
      exact ih h hprompt
  | case4 prompt c keys hend hempty ih =>
      rw [readInput, if_neg hend, if_neg hempty] at h
      refine ih h ?_
      unfold appendToPrompt
      split
      · exact fun c' hc' ↦ hprompt c' (List.mem_of_mem_dropLast hc')
      · rename_i hkeep
        refine hprompt.append fun c' hc' ↦ ?_
        obtain rfl := List.mem_singleton.mp hc'
        have hback : c' ≠ backspace := by
          intro hback
          have hne : prompt ≠ [] := fun hnil ↦ hempty ⟨hback, hnil⟩
          exact hkeep ⟨hback, List.length_pos_iff.mpr hne⟩
        exact ⟨hback, fun hfeed ↦ hend (.inr hfeed), fun hreturn ↦ hend (.inl hreturn)⟩

end ChatHost

namespace Chat

inductive Thread where
  | listen
  | main
  deriving DecidableEq

/-- What the server broadcasts a line for. -/
inductive Origin where
  /-- A line that was typed at the server. -/
  | console
  | connected (peer : NetAddress)
  /-- A line that came from the peer. -/
  | client (peer : NetAddress)
  deriving DecidableEq

def Origin.thread : Origin → Thread
  | .console => .main
  | .connected _ => .listen
  | .client _ => .listen

/-- What `Broadcast` is called with. -/
structure Line where
  origin : Origin
  text : StdString
  except : List NetAddress
  deriving DecidableEq

def Line.thread (line : Line) : Thread := line.origin.thread

end Chat

open Chat (Origin Line)

namespace ChatServer

def username : StdString := literal "SERVER"

/-- `Send`, which refuses a message that is too long. -/
def send (origin : Origin) (message : StdString) : Option Line :=
  if message.length > maxMessageLength then none
  else some ⟨origin, ChatHost.format username message, []⟩

def peerConnected (peer : NetAddress) : Option Line :=
  send (.connected peer) (literal "New peer connected...")

def dataReceived (build : Build) (peer : NetAddress) (buff : Buffer) : Except Fault Line := do
  let (message, _) ← (Buffer.readString build).run buff
  return ⟨.client peer, message, [peer]⟩

/-- What a delegate has the thread broadcast. -/
def delegate (build : Build) : Callback → Except Fault (Option Line)
  | .peerConnected peer => return peerConnected peer
  | .dataReceived peer buff => return some (← dataReceived build peer buff)

end ChatServer

namespace ChatClient

/-- The name that the constructor reads from these keys, if it is finished. -/
def username (keys : List UInt8) : StdString :=
  match ChatHost.readInput [] keys with
  | some (name, _) => name
  | none => []

/-- `Format`, with that name. -/
abbrev format (keys : List UInt8) (message : StdString) : StdString :=
  ChatHost.format (username keys) message

/-- `DataReceived`, with the message that is printed. -/
def dataReceived (build : Build) (data : Buffer) : Except Fault StdString := do
  let (message, _) ← (Buffer.readString build).run data
  return message

theorem plain_username (keys : List UInt8) : ChatHost.Plain (username keys) := by
  unfold username
  split
  · rename_i name rest hinput
    exact ChatHost.plain_of_readInput hinput (by simp [ChatHost.Plain])
  · simp [ChatHost.Plain]

end ChatClient

/-! ## The chat -/

/-- Where a thread of the server is. -/
inductive Chat.Phase where
  | free
  /-- At a call of `Broadcast`. -/
  | owes (line : Line)
  /-- In the call of `Broadcast` with this number. -/
  | calls (i : ℕ)

/-- `calls` has the lines of the calls of `Broadcast` and is not read by any step. -/
structure Chat where
  system : System := {}
  phase : Chat.Thread → Chat.Phase := fun _ ↦ .free
  calls : List Line := []

namespace Chat

/-- The event of the server is a step of `ListenThread`, if it is not `next`. -/
def listens : Event → Bool
  | .arrive _ _ => true
  | .recvFailed => true
  | .peerConnected => true
  | .received _ _ => true
  | .undecodable => true
  | .deliver => true
  | _ => false

/-- The chat's own calls of member functions of the server and the clients; it
does not call the others. -/
def isCall : System.Label → Bool
  | .server (.send _ _) => true
  | .server (.broadcast _ _) => true
  | .client _ (.send _) => true
  | .client _ .stop => true
  | _ => false

/-- `ListenThread` does not move. -/
def Waits (S S' : System) (label : System.Label) : Prop :=
  S'.server.listening = S.server.listening ∧ ∀ e, label = .server e → listens e = false

/-- A delegate has failed to read what came, which ends the process. -/
def ServerFails (build : Build) (S : System) : Prop :=
  ∃ callback ∈ S.server.callbacks, ∀ line, ChatServer.delegate build callback ≠ .ok line

def ClientFails (build : Build) (S : System) (a : NetAddress) : Prop :=
  ∃ κ, S.client a = some κ ∧
    ∃ data ∈ κ.dataReceived, ∀ message, ChatClient.dataReceived build data ≠ .ok message

/-- The party that makes the step has not failed. -/
def Lives (build : Build) (S : System) : System.Label → Prop
  | .server _ => ¬ ServerFails build S
  | .client a _ => ¬ ClientFails build S a
  | _ => True

def Phase.ofLine (line : Option Line) : Phase := line.elim .free .owes

/-- Where `ListenThread` is after these new callbacks. -/
def afterCallbacks (build : Build) (phase : Phase) : List Callback → Phase
  | [] => phase
  | callback :: _ =>
      match ChatServer.delegate build callback with
      | .ok line => .ofLine line
      | .error _ => .free

inductive Label where
  /-- A step of the library's threads or of the network. -/
  | run (label : System.Label)
  | broadcast (line : Line) (message : Message)
  /-- `Broadcast` comes back. -/
  | returned (thread : Thread)
  /-- A line is typed at the server. -/
  | say (input : StdString)
  /-- A line is typed at a client. -/
  | enter (a : NetAddress) (input : StdString) (message : Message)

namespace Label

def system? : Label → Option System.Label
  | .run label => some label
  | .broadcast line message => some (.server (.broadcast message line.except))
  | .enter a _ message => some (.client a (.send message))
  | _ => none

/-- The lines that the client has sent. -/
def enteredBy (a : NetAddress) : Label → Option StdString
  | .enter b input _ => if b = a then some input else none
  | _ => none

/-- Nothing checks the length of a client's line. -/
def Allowed (typed : NetAddress → List UInt8) (involved : Set NetAddress) : Label → Prop
  | .run label => label.Allowed involved
  | .enter a input _ => (ChatClient.username (typed a)).length + input.length ≤ 491
  | _ => True

end Label

variable (build : Build) (w : Winsock) (serverAddress : NetAddress)
  (typed : NetAddress → List UInt8)

/-- The keys that are typed when a client asks for a name are `typed`. A client is
started when it has read its name. -/
inductive Step (C : Chat) : Label → Chat → Prop
  | run (label : System.Label) (S : System) (hcall : isCall label = false)
      (hlives : Lives build C.system label)
      (hname : ∀ a, label = .start a → (ChatHost.readInput [] (typed a)).isSome = true)
      (hstep : System.Step build w serverAddress C.system label S)
      (hwaits : C.phase .listen = .free ∨ Waits C.system S label) :
      Step C (.run label) { C with
        system := S
        phase := Function.update C.phase .listen (afterCallbacks build (C.phase .listen)
          (S.server.callbacks.drop C.system.server.callbacks.length)) }
  | broadcast (t : Thread) (line : Line) (data : Buffer) (S : System)
      (hlives : ¬ ServerFails build C.system) (hphase : C.phase t = .owes line)
      (hdata : Buffer.ofView line.text = .ok data)
      (hstep : System.Step build w serverAddress C.system
        (.server (.broadcast { data := data } line.except)) S) :
      Step C (.broadcast line { data := data }) { C with
        system := S
        phase := Function.update C.phase t (.calls C.system.server.broadcasts.length)
        calls := C.calls ++ [line] }
  | returned (t : Thread) (i : ℕ) (b : Broadcasting) (hlives : ¬ ServerFails build C.system)
      (hphase : C.phase t = .calls i) (hcall : C.system.server.broadcasts[i]? = some b)
      (hrest : b.rest = []) :
      Step C (.returned t) { C with phase := Function.update C.phase t .free }
  -- the loops of `Run` and `Loop`; a finished line leaves no keys
  | say (keys : List UInt8) (input : StdString) (hlives : ¬ ServerFails build C.system)
      (hphase : C.phase .main = .free) (hinput : ChatHost.readInput [] keys = some (input, [])) :
      Step C (.say input) { C with
        phase := Function.update C.phase .main (.ofLine (ChatServer.send .console input)) }
  | enter (a : NetAddress) (keys : List UInt8) (input : StdString) (data : Buffer) (S : System)
      (hlives : ¬ ClientFails build C.system a)
      (hinput : ChatHost.readInput [] keys = some (input, []))
      (hdata : Buffer.ofView (ChatClient.format (typed a) input) = .ok data)
      (hstep : System.Step build w serverAddress C.system (.client a (.send { data := data })) S) :
      Step C (.enter a input { data := data }) { C with system := S }

end Chat

end GioNet
