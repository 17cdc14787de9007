import GioNet.Completion
import GioNet.Quiescence

/-!
# Without loss everything arrives

If the network loses and copies nothing, then whatever the order of the packets
is, the traffic ends with every message consumed, in order and once.
-/

namespace GioNet

variable {β : Type}

namespace Stream

variable {v v' : Stream β} {k : ℕ} {build : Build} {e : Event β}

/-- Every message has arrived or has a copy that is on its way. -/
def Intact (v : Stream β) : Prop :=
  ∀ k, 0 < k → k ≤ v.scheduled.length → v.Got k ∨ v.Available k

theorem Got.step (h : v.Got k) (hstep : Step build v e v') : v'.Got k := by
  cases hstep with
  | arrive p c c' hin hack hp hreceived =>
      have hknown := Connection.received_hasReceivedPacket hreceived (wireId k)
      have hbefore : c.hasReceivedPacket (wireId k) = true := by
        rw [Connection.hasReceivedPacket, hin]
        exact h
      rw [hbefore, Bool.or_true] at hknown
      exact hknown
  | _ => exact h

theorem Intact.step (h : v.Intact) (hv : v.Ordered) (he : e ≠ .drop)
    (hstep : Step build v e v') : v'.Intact := by
  intro k hk hle
  by_cases hold : k ≤ v.scheduled.length
  · exact (h k hk hold).imp (fun hgot ↦ hgot.step hstep) fun hav ↦ hav.step he hstep
  · -- only a new reliable message makes the list longer
    right
    cases hstep with
    | schedule p c hc =>
        cases hrel : p.isReliable with
        | false =>
            simp only [hrel, Bool.false_eq_true, if_false] at hle
            exact absurd hle hold
        | true =>
            simp only [hrel, if_true, List.length_append, List.length_singleton] at hle
            obtain rfl : k = v.scheduled.length + 1 := by omega
            have hschedule : Step build v (.schedule p) _ := .schedule p c hc
            have hnew := Available.of_schedule hv hrel hschedule
            simpa only [hrel, if_true] using hnew
    | _ => exact absurd hle hold

/-- A packet that has been received may go. -/
theorem Intact.forget (h : v.Intact) (inFlight headers : List (Packet β)) {p : Packet β}
    (hsub : ∀ q ∈ v.inFlight, q = p ∨ q ∈ inFlight)
    (hgot : p.isReliable = true → v.incoming.reliablePackets.contains p.id = true) :
    Intact { v with inFlight := inFlight, headers := headers } := by
  intro k hk hle
  rcases h k hk hle with hk' | ⟨q, hq, hrel, hid⟩
  · exact .inl hk'
  · rcases hq with hq | hq
    · exact .inr ⟨q, .inl hq, hrel, hid⟩
    · rcases hsub q hq with heq | hmem
      · subst heq
        left
        rw [Got, ← hid]
        exact hgot hrel
      · exact .inr ⟨q, .inr hmem, hrel, hid⟩

end Stream

namespace Link

variable {build : Build} {l l' : Link β} {s : Side} {address : Side → NetAddress}

/-- A transfer step in which nothing is lost. -/
def Flow (build : Build) (l : Link β) (a : Action β) (l' : Link β) : Prop :=
  Transfer build l a l' ∧ ∀ s i, a ≠ .drop s i

/-- A step of a link whose network loses and copies nothing. -/
inductive Lossless (build : Build) (l : Link β) : Action β → Link β → Prop
  | schedule (s : Side) (p : Packet β) :
      Lossless build l (.schedule s p) (l.setEndpoint s ((l.endpoint s).schedule p))
  | flow (a : Action β) (l' : Link β) (h : Flow build l a l') : Lossless build l a l'

theorem Lossless.reaches {a : Action β} (h : Lossless build l a l') :
    LabelledRun.Reaches (Step build) l l' := by
  cases h with
  | schedule s p => exact .single (.schedule s p)
  | flow a l' h => exact h.1.reaches

theorem intact_step {a : Action β} (hl : Reachable build address l) (hstep : Step build l a l')
    (hkeep : ∀ t i, a ≠ .drop t i) (hbound : (l.endpoint s).scheduled.length < idPeriod)
    (h : (l.stream s).Intact) : (l'.stream s).Intact := by
  refine h.step (hl.ordered s hbound) ?_ (hstep.stream s)
  cases a with
  | drop t i => exact absurd rfl (hkeep t i)
  | schedule t p | pop t | receive t p | consume t =>
      rw [Action.event]
      split <;> simp

theorem Lossless.intact {a : Action β} (hl : Reachable build address l)
    (hstep : Lossless build l a l') (hbound : (l.endpoint s).scheduled.length < idPeriod)
    (h : (l.stream s).Intact) : (l'.stream s).Intact := by
  cases hstep with
  | schedule t p => exact intact_step hl (.schedule t p) (fun _ _ ↦ by simp) hbound h
  | flow a l' hflow =>
      obtain ⟨htransfer, hkeep⟩ := hflow
      cases htransfer with
      | pop t l' hstep => exact intact_step hl hstep hkeep hbound h
      | consume t l' hstep => exact intact_step hl hstep hkeep hbound h
      | drop t i hi => exact absurd rfl (hkeep t i)
      | receive t p i l' hi hstep =>
          have hafter := intact_step hl hstep hkeep hbound h
          obtain ⟨-, -, hnetwork, -, -, hknown, -⟩ := hstep.receive_effect
          rcases Side.eq_or_eq_other s t with rfl | rfl
          · -- what goes is a header for the sender
            intro k hk hle
            simpa [Stream.Got, Stream.Available, stream] using hafter k hk hle
          · obtain ⟨hlt, hp⟩ := List.getElem?_eq_some_iff.mp hi
            have hperm := List.getElem_cons_eraseIdx_perm hlt
            rw [hp] at hperm
            have hforget := hafter.forget (p := p) ((l.network t.other).eraseIdx i)
              (l.network t) ?_ ?_
            · simpa [stream, hnetwork] using hforget
            · intro q hq
              have hmem : q ∈ l.network t.other := by simpa [stream, hnetwork] using hq
              simpa using hperm.mem_iff.mpr hmem
            · intro hrel
              have hnow := hknown p.id
              rw [hrel, decide_eq_true rfl, Bool.true_and, Bool.true_or] at hnow
              simpa [stream, known, Connection.hasReceivedPacket] using hnow

theorem Transfer.scheduled {a : Action β} (h : Transfer build l a l') :
    (l'.endpoint s).scheduled = (l.endpoint s).scheduled := by
  cases h with
  | drop t i hi => rfl
  | pop t l' h | consume t l' h | receive t p i l' hi h => exact h.scheduled fun _ _ ↦ by simp

/-- What a lossless run keeps as long as the ids of the first cycle suffice. -/
theorem reachable_intact_of_lossless (h : LabelledRun.Reaches (Lossless build) (fresh address) l) :
    Reachable build address l ∧
      ∀ s, (l.endpoint s).scheduled.length < idPeriod → (l.stream s).Intact := by
  refine LabelledRun.Reaches.invariant (fun l ↦ Reachable build address l ∧
    ∀ s, (l.endpoint s).scheduled.length < idPeriod → (l.stream s).Intact) h ?_ ?_
  · refine ⟨.refl _, fun s _ k hk hle ↦ ?_⟩
    simp only [stream, fresh, List.length_nil] at hle
    omega
  · rintro l a l' ⟨hl, hintact⟩ hstep
    refine ⟨hl.trans hstep.reaches, fun s hbound ↦ ?_⟩
    have hle : (l.endpoint s).scheduled.length ≤ (l'.endpoint s).scheduled.length := by
      cases hstep with
      | schedule t p =>
          have hschedule : Step build l (.schedule t p) _ := .schedule t p
          exact (hschedule.stream s).scheduled_length_le
      | flow a l' hflow => exact (congrArg List.length hflow.1.scheduled).ge
    have hbound' := Nat.lt_of_le_of_lt hle hbound
    exact hstep.intact hl hbound' (hintact s hbound')

theorem silent_of_stuck (hl : Reachable build address l) (h : ∀ a l', ¬ Flow build l a l') :
    l.Silent := by
  intro s
  refine ⟨?_, ?_, ?_⟩
  · by_contra hne
    obtain ⟨l', hpop⟩ := exists_pop build l s hne
    exact h _ _ ⟨.pop s l' hpop, fun _ _ ↦ by simp⟩
  · by_contra hne
    obtain ⟨p, rest, hnetwork⟩ := List.exists_cons_of_ne_nil hne
    have hfirst : (l.network s.other.other)[0]? = some p := by simp [hnetwork]
    obtain ⟨l', hreceive⟩ := hl.exists_receive (List.mem_of_getElem? hfirst)
    exact h _ _ ⟨.receive s.other p 0 l' hfirst hreceive, fun _ _ ↦ by simp⟩
  · by_contra hne
    obtain ⟨l', hconsume⟩ := exists_consume build l s hne
    exact h _ _ ⟨.consume s l' hconsume, fun _ _ ↦ by simp⟩

/-- Where nothing is on its way, an intact stream has been delivered. -/
theorem consumed_of_silent (hl : Reachable build address l) (hsilent : l.Silent)
    (hintact : (l.stream s).Intact) (hbound : (l.endpoint s).scheduled.length ≤ Stream.lowMax) :
    ((l.endpoint s.other).consumed.filter Packet.isReliable).map Packet.payload =
      (l.endpoint s).scheduled.map Packet.payload := by
  have hfirst := hl.firstCycle s hbound
  obtain ⟨hle, hdelivered⟩ := hfirst.delivered hbound
  have hall : (l.endpoint s).scheduled.length ≤
      (l.stream s).incoming.sequenceNumber.toNat := by
    by_contra hlt
    have hgap := hfirst.gap
    rcases hintact _ (Nat.succ_pos _) (Nat.lt_of_not_le hlt) with hgot | ⟨p, hp, -⟩
    · exact hgap hgot
    · have hnone : (l.stream s).outgoing.readyPackets = [] ∧ (l.stream s).inFlight = [] :=
        ⟨(hsilent s).1, (hsilent s).2.1⟩
      simp [hnone] at hp
  have hconsumed : (l.stream s).deliveredReliable =
      (l.endpoint s.other).consumed.filter Packet.isReliable := by
    simp [Stream.deliveredReliable, stream, (hsilent s.other).2.2]
  rw [← hconsumed, hdelivered, List.take_of_length_le (by simpa [stream] using hall)]
  rfl

/-- Messages are scheduled at any time, and packets overtake each other as they
like: with nothing lost and nothing copied the traffic ends, and where it ends each
side has consumed the messages of the other, in order and once. -/
theorem lossless_traffic_completes (h : LabelledRun.Reaches (Lossless build) (fresh address) l)
    (hbound : ∀ s, (l.endpoint s).scheduled.length ≤ Stream.lowMax) :
    (∀ (states : ℕ → Link β) (actions : ℕ → Action β), states 0 = l →
      ¬ ∀ n, Flow build (states n) (actions n) (states (n + 1))) ∧
    ∀ l', LabelledRun.Reaches (Flow build) l l' → (∀ a l'', ¬ Flow build l' a l'') →
      ∀ s, ((l'.endpoint s.other).consumed.filter Packet.isReliable).map Packet.payload =
        (l.endpoint s).scheduled.map Packet.payload := by
  refine ⟨?_, ?_⟩
  · intro states actions hstart hsteps
    exact (reachable_intact_of_lossless h).1.ends.not_infinite hstart fun n ↦ (hsteps n).1
  · intro l' hflow hfinal s
    have hscheduled : ∀ s, (l'.endpoint s).scheduled = (l.endpoint s).scheduled :=
      fun s ↦ LabelledRun.Reaches.invariant
        (fun l' ↦ (l'.endpoint s).scheduled = (l.endpoint s).scheduled) hflow rfl
        fun _ _ _ heq hstep ↦ hstep.1.scheduled.trans heq
    have hrun := h.trans (hflow.mono fun _ _ _ hstep ↦ Lossless.flow _ _ hstep)
    obtain ⟨hl, hintact⟩ := reachable_intact_of_lossless hrun
    have hbound' : (l'.endpoint s).scheduled.length ≤ Stream.lowMax := hscheduled s ▸ hbound s
    rw [← hscheduled s]
    exact consumed_of_silent hl (silent_of_stuck hl hfinal)
      (hintact s (Nat.lt_of_le_of_lt hbound' (by decide))) hbound'

/-- Two messages, the second of which arrives first. -/
theorem lossless_traffic_completes_after_swap :
    ∃ l : Link ℕ, (l.endpoint .a).scheduled.map Packet.payload = [7, 8] ∧
      ((l.endpoint .b).consumed.filter Packet.isReliable).map Packet.payload =
        (l.endpoint .a).scheduled.map Packet.payload := by
  have hsent : LabelledRun.Reaches (Lossless .debug) (fresh fun _ ↦ {}) _ :=
    ((((LabelledRun.Reaches.refl _).tail
      (.schedule .a (Packet.make .data .reliable 7))).tail
      (.schedule .a (Packet.make .data .reliable 8))).tail
      (.flow _ _ ⟨.pop .a _ (.pop .a _ _ rfl), fun _ _ ↦ by simp⟩)).tail
      (.flow _ _ ⟨.pop .a _ (.pop .a _ _ rfl), fun _ _ ↦ by simp⟩)
  have hreceived := (hsent.tail
    (.flow _ _ ⟨.receive .b _ 1 _ rfl (.receive .b _ _ (List.mem_of_getElem? (i := 1) rfl) rfl),
      fun _ _ ↦ by simp⟩)).tail
    (.flow _ _ ⟨.receive .b _ 0 _ rfl (.receive .b _ _ (List.mem_of_getElem? (i := 0) rfl) rfl),
      fun _ _ ↦ by simp⟩)
  have hconsumed := (hreceived.tail
    (.flow _ _ ⟨.consume .b _ (.consume .b _ _ rfl), fun _ _ ↦ by simp⟩)).tail
    (.flow _ _ ⟨.consume .b _ (.consume .b _ _ rfl), fun _ _ ↦ by simp⟩)
  refine ⟨_, ?_, (lossless_traffic_completes hconsumed ?_).2 _ (.refl _) ?_ .a⟩
  · decide
  · rintro (_ | _) <;> decide
  · intro a l'' hflow
    refine silent_iff.mp ?_ a l'' hflow.1
    rintro (_ | _) <;> exact ⟨rfl, rfl, rfl⟩

end Link

end GioNet
