import Mathlib.Data.Nat.Notation
import Mathlib.Tactic.Common

/-!
# Packets

The packet of the reliability layer. Type and flags share the header byte. The
connection code only stores, moves and copies payloads, so the packet is
generic in them; the serialised packet has a byte buffer there.
-/

namespace GioNet

/-- The build configurations: a `debug` build evaluates assertions, a `release`
build (which defines `NDEBUG`) does not. -/
inductive Build where
  | debug
  | release
  deriving DecidableEq, Repr

/-- The ways in which a call does not come back with a result. -/
inductive Fault where
  /-- An assertion is false, and the build evaluates it. -/
  | assertionFailed
  /-- Bytes are read past the end of a buffer. -/
  | outOfRange
  /-- A container is asked for more elements than it can hold. -/
  | lengthError
  /-- A loop never ends. -/
  | endlessLoop
  deriving DecidableEq, Repr

namespace Fault

variable {α γ : Type}

@[simp] theorem ok_bind (a : α) (f : α → Except Fault γ) : (Except.ok a >>= f) = f a := rfl

@[simp] theorem error_bind (e : Fault) (f : α → Except Fault γ) :
    (Except.error e >>= f) = .error e := rfl

@[simp] theorem map_ok (g : α → γ) (a : α) : g <$> (Except.ok a : Except Fault α) = .ok (g a) :=
  rfl

@[simp] theorem map_error (g : α → γ) (e : Fault) :
    g <$> (Except.error e : Except Fault α) = .error e := rfl

end Fault

/-- `assert(condition)`. -/
def Build.assert (build : Build) (condition : Bool) : Except Fault Unit :=
  match build with
  | .debug => if condition then .ok () else .error .assertionFailed
  | .release => .ok ()

@[simp] theorem Build.assert_true (build : Build) : build.assert true = .ok () := by
  cases build <;> rfl

abbrev HeaderType := UInt8

abbrev IdType := UInt16

abbrev AckBitsetType := UInt32

def sizeofAckBitset : ℕ := 4

namespace Packet

def invalidId : IdType := 0

def maxPossibleId : IdType := ~~~0

/-- `enum class Types : uint8_t`; every byte is a value of it. -/
structure Types where
  bits : UInt8
  deriving DecidableEq, Repr

def Types.connect : Types := ⟨0⟩

def Types.data : Types := ⟨1⟩

def Types.ping : Types := ⟨2⟩

/-- `enum class Flags : uint8_t`; every byte is a value of it. -/
structure Flags where
  bits : UInt8
  deriving DecidableEq, Repr

def Flags.none : Flags := ⟨0⟩

def Flags.reliable : Flags := ⟨0b1⟩

def typeMask : UInt8 := 0b00001111

def typeOffset : UInt8 := 0

def flagsMask : UInt8 := 0b11110000

def flagsOffset : UInt8 := 4

end Packet

structure Packet (β : Type) where
  header : HeaderType := 0
  id : IdType := Packet.invalidId
  ackId : IdType := Packet.invalidId
  ackBitset : AckBitsetType := 0
  payload : β
  deriving DecidableEq, Repr

namespace Packet

variable {β : Type}

def getType (p : Packet β) : Types := ⟨(p.header &&& typeMask) >>> typeOffset⟩

def getFlags (p : Packet β) : Flags := ⟨(p.header &&& flagsMask) >>> flagsOffset⟩

/-- `HasFlags(header, flags)`. -/
def headerHasFlags (header : HeaderType) (flags : Flags) : Bool :=
  (header &&& (flags.bits <<< flagsOffset)) ≠ 0

def hasFlags (p : Packet β) (flags : Flags) : Bool := headerHasFlags p.header flags

/-- The disabling branch clears the unshifted bits, as the source has it. -/
def setFlags (p : Packet β) (flag : Flags) (enabled : Bool) : Packet β :=
  if enabled then { p with header := p.header ||| (flag.bits <<< flagsOffset) }
  else { p with header := p.header &&& ~~~flag.bits }

/-- The constructor `Packet(type, flags, payload)`. -/
def make (type : Types) (flags : Flags) (payload : β) : Packet β :=
  setFlags { header := type.bits <<< typeOffset, payload := payload } flags true

/-- `HasFlags(Flags::Reliable)`. -/
abbrev isReliable (p : Packet β) : Bool := p.hasFlags .reliable

theorem setFlags_hasFlags (p : Packet β) (flag : Flags) :
    (p.setFlags flag true).header &&& (flag.bits <<< flagsOffset) =
      flag.bits <<< flagsOffset := by
  apply UInt8.toBitVec_inj.mp
  ext i hi
  simp only [setFlags, if_true, UInt8.toBitVec_and, UInt8.toBitVec_or, BitVec.getElem_and,
    BitVec.getElem_or]
  cases (flag.bits <<< flagsOffset).toBitVec[i] <;> simp

theorem make_isReliable (type : Types) (payload : β) :
    (make type .reliable payload).isReliable = true := by
  simp only [isReliable, hasFlags, headerHasFlags, make, setFlags_hasFlags]
  decide

theorem make_data_isReliable (payload : β) :
    (make .data .none payload).isReliable = false := by
  simp only [isReliable, hasFlags, headerHasFlags, make, setFlags, if_true]
  decide

def emptyReliable (id : IdType) : Packet Unit := { make .data .reliable () with id := id }

@[simp] theorem isReliable_setId (p : Packet β) (id : IdType) :
    ({ p with id := id } : Packet β).isReliable = p.isReliable := rfl

@[simp] theorem isReliable_setAck (p : Packet β) (ackId : IdType) (bits : AckBitsetType) :
    ({ p with ackId := ackId, ackBitset := bits } : Packet β).isReliable = p.isReliable := rfl

end Packet

end GioNet
