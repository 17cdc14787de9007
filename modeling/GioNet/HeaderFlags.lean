import GioNet.Packet
import GioNet.Library.BitFold

/-!
# The header byte under updates of its flags

The constructor and `SetFlags` with their assertions, and what a packet's type
and flags are after any sequence of updates. The enabling branch of `SetFlags`
shifts the flag bits into the upper half of the header, the disabling branch
does not shift them.
-/

namespace GioNet

namespace Packet

variable {β : Type}

def maxViableType : UInt8 := typeMask >>> typeOffset

def maxViableFlags : UInt8 := flagsMask >>> flagsOffset

/-- `HasFlags` with its assertion. -/
def checkedHasFlags (build : Build) (p : Packet β) (flags : Flags) : Except Fault Bool := do
  build.assert (flags.bits ≤ maxViableFlags)
  return p.hasFlags flags

/-- `SetFlags` with its assertion. -/
def checkedSetFlags (build : Build) (p : Packet β) (flag : Flags) (enabled : Bool) :
    Except Fault (Packet β) := do
  build.assert (flag.bits ≤ maxViableFlags)
  return p.setFlags flag enabled

/-- The constructor with its assertions. A ping with a payload is only logged. -/
def construct (build : Build) (type : Types) (flags : Flags) (payload : β) :
    Except Fault (Packet β) := do
  build.assert (type.bits ≤ maxViableType)
  checkedSetFlags build { header := type.bits <<< typeOffset, payload := payload } flags true

/-- The arguments of a call of `SetFlags`. -/
structure FlagUpdate where
  flag : Flags
  enabled : Bool
  deriving DecidableEq, Repr

/-- A packet is constructed and its flags are updated by the calls in turn. -/
def constructAndUpdate (build : Build) (type : Types) (flags : Flags) (payload : β)
    (calls : List FlagUpdate) : Except Fault (Packet β) := do
  let packet ← construct build type flags payload
  calls.foldlM (fun packet call ↦ packet.checkedSetFlags build call.flag call.enabled) packet

/-! ## What the calls ask for -/

def Flags.mentions (flags : Flags) (i : ℕ) : Bool := flags.bits.toNat.testBit i

/-- The flag value with the single bit `i`. -/
def Flags.single (i : ℕ) : Flags := ⟨1 <<< UInt8.ofNat i⟩

/-- The value that the last call to mention the bit `i` gave it, or the
constructor if there is no such call. -/
def requested (flags : Flags) (calls : List FlagUpdate) (i : ℕ) : Bool :=
  calls.foldl (fun value call ↦ if call.flag.mentions i then call.enabled else value)
    (flags.mentions i)

def FlagUpdate.enables (call : FlagUpdate) (i : ℕ) : Bool :=
  call.enabled && call.flag.mentions i

def FlagUpdate.disables (call : FlagUpdate) (i : ℕ) : Bool :=
  !call.enabled && call.flag.mentions i

/-- The calls after the last time that the bit `i` was set, `none` if neither the
constructor nor a call set it. -/
def sinceSet (flags : Flags) (calls : List FlagUpdate) (i : ℕ) : Option (List FlagUpdate) :=
  calls.foldl
    (fun since call ↦ if call.enables i then some [] else since.map (· ++ [call]))
    (if flags.mentions i then some [] else none)

/-- A flag bit as `sinceSet` tells it, where disabling happens through the bit `j`. -/
def bitSince (since : Option (List FlagUpdate)) (j : ℕ) : Bool :=
  match since with
  | none => false
  | some calls => !calls.any (·.disables j)

@[simp] theorem bitSince_none (j : ℕ) : bitSince none j = false := rfl

@[simp] theorem bitSince_some (calls : List FlagUpdate) (j : ℕ) :
    bitSince (some calls) j = !calls.any (·.disables j) := rfl

theorem bitSince_snoc (since : Option (List FlagUpdate)) (call : FlagUpdate) (j : ℕ) :
    bitSince (since.map (· ++ [call])) j = (bitSince since j && !call.disables j) := by
  cases since with
  | none => rfl
  | some calls => simp [List.any_append]

/-- A bit that enabling sets through `i` and disabling clears through `j`. -/
theorem foldl_bit_eq (flags : Flags) (calls : List FlagUpdate) (i j : ℕ) :
    calls.foldl (fun value call ↦
        if call.enables i then true else value && !call.disables j) (flags.mentions i) =
      bitSince (sinceSet flags calls i) j := by
  induction calls using List.reverseRecOn with
  | nil => cases h : flags.mentions i <;> simp [sinceSet, h]
  | append_singleton calls call ih =>
      simp only [sinceSet, List.foldl_append, List.foldl_cons, List.foldl_nil] at ih ⊢
      rw [ih]
      by_cases hcall : call.enables i
      · simp [hcall]
      · simp only [hcall, Bool.false_eq_true, if_false]
        exact (bitSince_snoc _ call j).symm

theorem requested_eq (flags : Flags) (calls : List FlagUpdate) (i : ℕ) :
    requested flags calls i = bitSince (sinceSet flags calls i) i := by
  rw [← foldl_bit_eq]
  unfold requested
  congr 1
  funext value call
  cases hm : call.flag.mentions i <;> cases he : call.enabled <;>
    simp [FlagUpdate.enables, FlagUpdate.disables, hm, he]

/-! ## What a call does to the bits -/

/-- The number of flag bits in the header. -/
def flagWidth : ℕ := 4

theorem testBit_shiftLeft_flagsOffset (x : UInt8) (j : ℕ) :
    (x <<< flagsOffset).toNat.testBit j =
      (decide (j < 8) && decide (4 ≤ j) && x.toNat.testBit (j - 4)) := by
  have hoffset : flagsOffset.toNat % 8 = 4 := by decide
  rw [UInt8.toNat_shiftLeft, hoffset, Nat.testBit_mod_two_pow, Nat.testBit_shiftLeft,
    Bool.and_assoc]

theorem testBit_complement (x : UInt8) {j : ℕ} (hj : j < 8) :
    (~~~x).toNat.testBit j = !x.toNat.testBit j := by
  have hx : x.toNat < 2 ^ 8 := x.toNat_lt
  have hnot : (~~~x).toNat = 2 ^ 8 - (x.toNat + 1) := by
    rw [UInt8.toNat_not, UInt8.size]
    omega
  rw [hnot, Nat.testBit_two_pow_sub_succ hx, decide_eq_true hj, Bool.true_and]

theorem testBit_setFlags_enabled (p : Packet β) (flag : Flags) {i : ℕ} (hi : i < flagWidth) :
    (p.setFlags flag true).header.toNat.testBit (4 + i) =
      (p.header.toNat.testBit (4 + i) || flag.mentions i) := by
  have hlt : 4 + i < 8 := Nat.add_lt_add_left hi 4
  simp only [setFlags, if_true, UInt8.toNat_or, Nat.testBit_or,
    testBit_shiftLeft_flagsOffset, decide_eq_true hlt, Nat.le_add_right, decide_true,
    Bool.true_and, Nat.add_sub_cancel_left, Flags.mentions]

theorem testBit_setFlags_enabled_low (p : Packet β) (flag : Flags) {i : ℕ} (hi : i < flagWidth) :
    (p.setFlags flag true).header.toNat.testBit i = p.header.toNat.testBit i := by
  have hlow : ¬ 4 ≤ i := Nat.not_le.mpr hi
  simp only [setFlags, if_true, UInt8.toNat_or, Nat.testBit_or,
    testBit_shiftLeft_flagsOffset, decide_eq_false hlow, Bool.and_false, Bool.false_and,
    Bool.or_false]

theorem testBit_setFlags_disabled (p : Packet β) (flag : Flags) {j : ℕ} (hj : j < 8) :
    (p.setFlags flag false).header.toNat.testBit j =
      (p.header.toNat.testBit j && !flag.mentions j) := by
  simp only [setFlags, Bool.false_eq_true, if_false, UInt8.toNat_and, Nat.testBit_and,
    testBit_complement _ hj, Flags.mentions]

/-! ## What all calls together do -/

def update (p : Packet β) (calls : List FlagUpdate) : Packet β :=
  calls.foldl (fun packet call ↦ packet.setFlags call.flag call.enabled) p

theorem update_snoc (p : Packet β) (calls : List FlagUpdate) (call : FlagUpdate) :
    p.update (calls ++ [call]) = (p.update calls).setFlags call.flag call.enabled := by
  simp [update]

theorem setFlags_frame (p : Packet β) (flag : Flags) (enabled : Bool) :
    (p.setFlags flag enabled).id = p.id ∧ (p.setFlags flag enabled).ackId = p.ackId ∧
      (p.setFlags flag enabled).ackBitset = p.ackBitset ∧
        (p.setFlags flag enabled).payload = p.payload := by
  cases enabled <;> exact ⟨rfl, rfl, rfl, rfl⟩

theorem update_frame (p : Packet β) (calls : List FlagUpdate) :
    (p.update calls).id = p.id ∧ (p.update calls).ackId = p.ackId ∧
      (p.update calls).ackBitset = p.ackBitset ∧ (p.update calls).payload = p.payload := by
  induction calls using List.reverseRecOn with
  | nil => exact ⟨rfl, rfl, rfl, rfl⟩
  | append_singleton calls call ih =>
      obtain ⟨hid, hack, hbits, hpayload⟩ := setFlags_frame (p.update calls) call.flag call.enabled
      rw [update_snoc, hid, hack, hbits, hpayload]
      exact ih

/-- The upper half of the header: enabling sets the flag's bit, disabling clears
it through the bit four positions above. -/
theorem testBit_update_high (p : Packet β) (flags : Flags) (calls : List FlagUpdate) {i : ℕ}
    (hi : i < flagWidth) (hp : p.header.toNat.testBit (4 + i) = flags.mentions i) :
    (p.update calls).header.toNat.testBit (4 + i) =
      bitSince (sinceSet flags calls i) (4 + i) := by
  rw [← foldl_bit_eq]
  induction calls using List.reverseRecOn with
  | nil => exact hp
  | append_singleton calls call ih =>
      rw [update_snoc, List.foldl_append, List.foldl_cons, List.foldl_nil, ← ih]
      cases he : call.enabled with
      | true =>
          rw [testBit_setFlags_enabled _ _ hi]
          cases hm : call.flag.mentions i <;>
            simp [FlagUpdate.enables, FlagUpdate.disables, he, hm]
      | false =>
          rw [testBit_setFlags_disabled _ _ (Nat.add_lt_add_left hi 4)]
          simp [FlagUpdate.enables, FlagUpdate.disables, he]

/-- The lower half of the header, which holds the type, is cleared by disabling calls. -/
theorem testBit_update_low (p : Packet β) (calls : List FlagUpdate) {i : ℕ}
    (hi : i < flagWidth) :
    (p.update calls).header.toNat.testBit i =
      (p.header.toNat.testBit i && !calls.any (·.disables i)) := by
  induction calls using List.reverseRecOn with
  | nil => simp [update]
  | append_singleton calls call ih =>
      rw [update_snoc]
      cases he : call.enabled with
      | true =>
          rw [testBit_setFlags_enabled_low _ _ hi, ih]
          simp [FlagUpdate.disables, he]
      | false =>
          rw [testBit_setFlags_disabled _ _ (Nat.lt_of_lt_of_le hi (by decide)), ih]
          simp [FlagUpdate.disables, he, Bool.and_assoc]

theorem checkedSetFlags_eq_ok {build : Build} {p q : Packet β} {flag : Flags} {enabled : Bool}
    (h : p.checkedSetFlags build flag enabled = .ok q) : q = p.setFlags flag enabled := by
  unfold checkedSetFlags at h
  cases hassert : build.assert (flag.bits ≤ maxViableFlags) with
  | error fault =>
      rw [hassert] at h
      cases h
  | ok u =>
      rw [hassert] at h
      exact (Except.ok.inj h).symm

theorem constructAndUpdate_eq_ok {build : Build} {type : Types} {flags : Flags} {payload : β}
    {calls : List FlagUpdate} {p : Packet β}
    (h : constructAndUpdate build type flags payload calls = .ok p) :
    p = (make type flags payload).update calls := by
  have hcalls : ∀ (calls : List FlagUpdate) (q : Packet β), calls.foldlM (fun packet call ↦
      packet.checkedSetFlags build call.flag call.enabled) q = .ok p → p = q.update calls := by
    intro calls
    induction calls with
    | nil =>
        intro q hq
        exact (Except.ok.inj hq).symm
    | cons call calls ih =>
        intro q hq
        rw [List.foldlM_cons] at hq
        cases hset : q.checkedSetFlags build call.flag call.enabled with
        | error fault =>
            rw [hset] at hq
            cases hq
        | ok r =>
            rw [hset] at hq
            rw [ih r hq, checkedSetFlags_eq_ok hset]
            rfl
  unfold constructAndUpdate construct at h
  cases hassert : build.assert (type.bits ≤ maxViableType) with
  | error fault =>
      rw [hassert] at h
      cases h
  | ok u =>
      cases hset : checkedSetFlags build
          { header := type.bits <<< typeOffset, payload := payload } flags true with
      | error fault =>
          rw [hassert, Fault.ok_bind, hset] at h
          cases h
      | ok q =>
          rw [hassert, Fault.ok_bind, hset] at h
          rw [hcalls calls q h, checkedSetFlags_eq_ok hset]
          rfl

/-! ## Reading the header -/

theorem getType_toNat (p : Packet β) : p.getType.bits.toNat = p.header.toNat % 16 := by
  have hmask : typeMask.toNat = 2 ^ 4 - 1 := by decide
  have hoffset : typeOffset.toNat % 8 = 0 := by decide
  rw [getType, UInt8.toNat_shiftRight, hoffset, UInt8.toNat_and, hmask,
    Nat.and_two_pow_sub_one_eq_mod]
  rfl

theorem getType_eq_iff (p : Packet β) (type : Types) :
    p.getType = type ↔ type.bits ≤ maxViableType ∧
      ∀ i < flagWidth, p.header.toNat.testBit i = type.bits.toNat.testBit i := by
  have hbits : p.getType = type ↔ p.header.toNat % 16 = type.bits.toNat := by
    rw [← getType_toNat, UInt8.toNat_inj]
    exact ⟨congrArg Types.bits, fun h ↦ by cases type; exact congrArg Types.mk h⟩
  have hviable : type.bits ≤ maxViableType ↔ type.bits.toNat < 2 ^ 4 := by
    rw [UInt8.le_iff_toNat_le, show maxViableType.toNat = 15 by decide]
    omega
  have hlow : ∀ i, (p.header.toNat % 16).testBit i =
      (decide (i < flagWidth) && p.header.toNat.testBit i) :=
    fun i ↦ Nat.testBit_mod_two_pow p.header.toNat flagWidth i
  rw [hbits, hviable]
  constructor
  · intro h
    refine ⟨h ▸ Nat.mod_lt _ (by decide), fun i hi ↦ ?_⟩
    rw [← h, hlow, decide_eq_true hi, Bool.true_and]
  · rintro ⟨hlt, hbit⟩
    apply Nat.eq_of_testBit_eq
    intro i
    rw [hlow]
    by_cases hi : i < flagWidth
    · rw [decide_eq_true hi, Bool.true_and, hbit i hi]
    · have hle : type.bits.toNat < 2 ^ i :=
        Nat.lt_of_lt_of_le hlt (Nat.pow_le_pow_right (by decide) (Nat.not_lt.mp hi))
      rw [decide_eq_false hi, Bool.false_and, Nat.testBit_lt_two_pow hle]

theorem getFlags_mentions (p : Packet β) {i : ℕ} (hi : i < flagWidth) :
    p.getFlags.mentions i = p.header.toNat.testBit (4 + i) := by
  have hoffset : flagsOffset.toNat % 8 = 4 := by decide
  have hmask : ∀ i < flagWidth, flagsMask.toNat.testBit (4 + i) = true := by decide
  rw [Flags.mentions, getFlags, UInt8.toNat_shiftRight, hoffset, UInt8.toNat_and,
    Nat.testBit_shiftRight, Nat.testBit_and, hmask i hi, Bool.and_true]

/-- The assertion holds of a single flag. -/
theorem checkedHasFlags_single (build : Build) (p : Packet β) {i : ℕ} (hi : i < flagWidth) :
    p.checkedHasFlags build (.single i) = .ok (p.header.toNat.testBit (4 + i)) := by
  have hviable : ∀ i < flagWidth, (Flags.single i).bits ≤ maxViableFlags := by decide
  have hshift : ∀ i < flagWidth,
      ((Flags.single i).bits <<< flagsOffset).toNat = 2 ^ (4 + i) := by decide
  have hbit : p.hasFlags (.single i) = p.header.toNat.testBit (4 + i) := by
    rw [Bool.eq_iff_iff, hasFlags, headerHasFlags, decide_eq_true_eq, Ne, ← UInt8.toNat_inj,
      UInt8.toNat_and, hshift i hi, Nat.and_two_pow]
    cases p.header.toNat.testBit (4 + i) <;> simp
  simp only [checkedHasFlags, decide_eq_true (hviable i hi), Build.assert_true, Fault.ok_bind,
    hbit]
  rfl

/-! ## Updates that do what they ask for -/

/-- The updates have left the type alone, given every flag bit the value last
asked for, and changed nothing else. -/
structure Faithful (build : Build) (type : Types) (flags : Flags) (payload : β)
    (calls : List FlagUpdate) (p : Packet β) : Prop where
  type_eq : p.getType = type
  getFlags_eq : ∀ i < flagWidth, p.getFlags.mentions i = requested flags calls i
  hasFlags_eq : ∀ i < flagWidth,
    p.checkedHasFlags build (.single i) = .ok (requested flags calls i)
  id_eq : p.id = invalidId
  ackId_eq : p.ackId = invalidId
  ackBitset_eq : p.ackBitset = 0
  payload_eq : p.payload = payload

theorem testBit_make_high {type : Types} (htype : type.bits ≤ maxViableType) (flags : Flags)
    (payload : β) {i : ℕ} (hi : i < flagWidth) :
    (make type flags payload).header.toNat.testBit (4 + i) = flags.mentions i := by
  have hlt : type.bits.toNat < 2 ^ (4 + i) := by
    have hle : type.bits.toNat ≤ 15 := UInt8.le_iff_toNat_le.mp htype
    calc
      type.bits.toNat < 2 ^ 4 := Nat.lt_succ_of_le hle
      _ ≤ 2 ^ (4 + i) := Nat.pow_le_pow_right (by decide) (Nat.le_add_right 4 i)
  have hshift : type.bits <<< typeOffset = type.bits := UInt8.shiftLeft_zero
  rw [make, testBit_setFlags_enabled _ _ hi]
  simp only [hshift, Nat.testBit_lt_two_pow hlt, Bool.false_or]

theorem testBit_make_low (type : Types) (flags : Flags) (payload : β) {i : ℕ}
    (hi : i < flagWidth) :
    (make type flags payload).header.toNat.testBit i = type.bits.toNat.testBit i := by
  have hshift : type.bits <<< typeOffset = type.bits := UInt8.shiftLeft_zero
  rw [make, testBit_setFlags_enabled_low _ _ hi]
  simp only [hshift]

theorem and_eq_zero_iff {x y : UInt8} (hx : x ≤ maxViableType) :
    x &&& y = 0 ↔ ∀ i < flagWidth, ¬ (x.toNat.testBit i = true ∧ y.toNat.testBit i = true) := by
  rw [← UInt8.toNat_inj, UInt8.toNat_and]
  constructor
  · intro h i _
    have hbit := congrArg (Nat.testBit · i) h
    simpa using hbit
  · intro h
    apply Nat.eq_of_testBit_eq
    intro i
    rw [Nat.testBit_and]
    by_cases hi : i < flagWidth
    · simpa using h i hi
    · have hlt : x.toNat < 2 ^ i := calc
        x.toNat < 2 ^ 4 := Nat.lt_succ_of_le (UInt8.le_iff_toNat_le.mp hx)
        _ ≤ 2 ^ i := Nat.pow_le_pow_right (by decide) (Nat.not_lt.mp hi)
      rw [Nat.testBit_lt_two_pow hlt]
      simp

theorem getType_update_iff (type : Types) (flags : Flags) (payload : β)
    (calls : List FlagUpdate) :
    ((make type flags payload).update calls).getType = type ↔
      type.bits ≤ maxViableType ∧
        ∀ call ∈ calls, call.enabled = false → type.bits &&& call.flag.bits = 0 := by
  rw [getType_eq_iff]
  refine and_congr_right fun htype ↦ ?_
  simp only [and_eq_zero_iff htype]
  constructor
  · rintro h call hcall hdisabled i hi ⟨htypeBit, hflagBit⟩
    have hbit := h i hi
    rw [testBit_update_low _ _ hi, testBit_make_low _ _ _ hi, htypeBit, Bool.true_and,
      Bool.not_eq_true'] at hbit
    have hnot := List.any_eq_false.mp hbit call hcall
    simp [FlagUpdate.disables, Flags.mentions, hdisabled, hflagBit] at hnot
  · intro h i hi
    rw [testBit_update_low _ _ hi, testBit_make_low _ _ _ hi]
    cases htypeBit : type.bits.toNat.testBit i with
    | false => rfl
    | true =>
        rw [Bool.true_and, Bool.not_eq_true', List.any_eq_false]
        intro call hcall hdisables
        simp only [FlagUpdate.disables, Bool.and_eq_true, Bool.not_eq_true'] at hdisables
        exact h call hcall hdisables.1 i hi ⟨htypeBit, hdisables.2⟩

/-- The updates are faithful exactly if no disabled flag shares a bit with the
type, and a flag bit that has been set is from then on disabled by a flag that
has the bit if and only if by one that has the bit four positions above it.
No viable flag has a bit there. -/
theorem faithful_iff {build : Build} {type : Types} {flags : Flags} {payload : β}
    {calls : List FlagUpdate} {p : Packet β}
    (h : constructAndUpdate build type flags payload calls = .ok p) :
    Faithful build type flags payload calls p ↔
      type.bits ≤ maxViableType ∧
        (∀ call ∈ calls, call.enabled = false → type.bits &&& call.flag.bits = 0) ∧
          ∀ i < flagWidth, ∀ since, sinceSet flags calls i = some since →
            since.any (·.disables i) = since.any (·.disables (4 + i)) := by
  obtain rfl := constructAndUpdate_eq_ok h
  obtain ⟨hid, hackId, hackBitset, hpayload⟩ :=
    update_frame (make type flags payload) calls
  have hbits : type.bits ≤ maxViableType → ∀ i < flagWidth,
      (((make type flags payload).update calls).header.toNat.testBit (4 + i) =
        requested flags calls i ↔ ∀ since, sinceSet flags calls i = some since →
          since.any (·.disables i) = since.any (·.disables (4 + i))) := by
    intro htype i hi
    rw [requested_eq, testBit_update_high _ _ _ hi (testBit_make_high htype flags payload hi)]
    cases sinceSet flags calls i with
    | none => simp
    | some since => simp [eq_comm]
  constructor
  · intro hfaithful
    obtain ⟨htype, hdisabled⟩ := (getType_update_iff ..).mp hfaithful.type_eq
    refine ⟨htype, hdisabled, fun i hi ↦ (hbits htype i hi).mp ?_⟩
    rw [← getFlags_mentions _ hi]
    exact hfaithful.getFlags_eq i hi
  · rintro ⟨htype, hdisabled, hsince⟩
    have hflags := fun i hi ↦ (hbits htype i hi).mpr (hsince i hi)
    exact {
      type_eq := (getType_update_iff ..).mpr ⟨htype, hdisabled⟩
      getFlags_eq := fun i hi ↦ (getFlags_mentions _ hi).trans (hflags i hi)
      hasFlags_eq := fun i hi ↦ by rw [checkedHasFlags_single build _ hi, hflags i hi]
      id_eq := hid
      ackId_eq := hackId
      ackBitset_eq := hackBitset
      payload_eq := hpayload }

/-- A flag value with the bit of `Reliable` in both places takes the flag away. -/
def setAndCleared : List FlagUpdate := [⟨.reliable, true⟩, ⟨⟨0b10001⟩, false⟩, ⟨.reliable, false⟩]

theorem faithful_iff_setAndCleared :
    constructAndUpdate .release .ping .none [5] setAndCleared =
        .ok (make .ping .none [5]) ∧
      Faithful .release .ping .none [5] setAndCleared (make .ping .none [5]) := by
  have h : constructAndUpdate .release .ping .none [5] setAndCleared =
      .ok (make .ping .none [5]) := by rfl
  refine ⟨h, (faithful_iff h).mpr ⟨by decide, by decide, ?_⟩⟩
  have hsince : ∀ i < flagWidth, ∀ since ∈ sinceSet .none setAndCleared i,
      since.any (·.disables i) = since.any (·.disables (4 + i)) := by decide
  exact hsince

/-- Disabling the flag of a reliable data packet leaves it reliable and makes it
a connection request. -/
theorem not_faithful_disabled_reliable :
    ¬ ∀ (build : Build) (type : Types) (flags : Flags) (payload : Unit)
        (calls : List FlagUpdate) (p : Packet Unit),
      constructAndUpdate build type flags payload calls = .ok p →
        Faithful build type flags payload calls p := by
  intro hall
  have h : constructAndUpdate .debug .data .reliable () [⟨.reliable, false⟩] =
      .ok (make .connect .reliable ()) := by decide
  have htype := (hall _ _ _ _ _ _ h).type_eq
  revert htype
  decide

end Packet

end GioNet
