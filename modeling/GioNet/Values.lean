import GioNet.BufferSpec

/-!
# Values that a buffer can hold

The specialisations of `Write` and `Read` as one pair of functions on values. A
`std::string_view` is written, but read back as a `std::string`.
-/

namespace GioNet

open Buffer (Access)

/-- The types that `Read` has. -/
inductive ValueType where
  | integer (width : ℕ)
  | string
  | buffer
  | packet
  deriving DecidableEq, Repr

/-- An integer of `width` bytes is given by its bits, signed or not. -/
inductive Value where
  | integer (width : ℕ) (n : BitVec (8 * width))
  | string (s : StdString)
  | stringView (s : StdString)
  | buffer (b : Buffer)
  | packet (p : Packet Buffer)

def ValueType.read (build : Build) : ValueType → Access Value
  | .integer width => return .integer width (.ofNat (8 * width) (← Buffer.readInteger build width))
  | .string => return .string (← Buffer.readString build)
  | .buffer => return .buffer (← Buffer.readBuffer build)
  | .packet => return .packet (← Buffer.readPacket build)

namespace Value

def write : Value → Access Unit
  | .integer width n => Buffer.writeInteger width n.toNat
  | .string s => Buffer.writeString s
  | .stringView s => Buffer.writeStringView s
  | .buffer b => Buffer.writeBuffer b
  | .packet p => Buffer.writePacket p

/-- The type that the value is read back with. -/
def type : Value → ValueType
  | .integer width _ => .integer width
  | .string _ => .string
  | .stringView _ => .string
  | .buffer _ => .buffer
  | .packet _ => .packet

/-- The value as it is read back. -/
def owned : Value → Value
  | .stringView s => .string s
  | v => v

/-- The integers have at most eight bytes, strings and payloads at most `2 ^ 31 - 1`. -/
def WellSized : Value → Prop
  | .integer width _ => width ≤ 8
  | .string s => s.length < 2 ^ 31
  | .stringView s => s.length < 2 ^ 31
  | .buffer b => b.payload.length < 2 ^ 31
  | .packet p => p.payload.payload.length < 2 ^ 31

def encode : Value → List UInt8
  | .integer width n => LittleEndian.encode width n.toNat
  | .string s => Buffer.counted s
  | .stringView s => Buffer.counted s
  | .buffer b => Buffer.counted b.payload
  | .packet p => p.wire

theorem extends_write {v : Value} (h : v.WellSized) : Buffer.Extends v.write v.encode := by
  cases v with
  | integer width n => exact Buffer.extends_writeInteger (Nat.le_trans h (by decide)) _
  | string s => exact Buffer.extends_writeCharacters h
  | stringView s => exact Buffer.extends_writeCharacters h
  | buffer b => exact Buffer.extends_writeBuffer h
  | packet p => exact Buffer.extends_writePacket h

/-- The values are written one after the other. -/
def writeAll : List Value → Access Unit
  | [] => pure ()
  | v :: vs => do v.write; writeAll vs

def encodeAll (vs : List Value) : List UInt8 := vs.flatMap encode

@[simp] theorem encodeAll_cons (v : Value) (vs : List Value) :
    encodeAll (v :: vs) = v.encode ++ encodeAll vs := rfl

theorem extends_writeAll {vs : List Value} (h : ∀ v ∈ vs, v.WellSized) :
    Buffer.Extends (writeAll vs) (encodeAll vs) := by
  induction vs with
  | nil =>
      intro b hb
      simp [encodeAll, writeAll, hb]
      rfl
  | cons v vs ih =>
      have hfirst := extends_write (h v List.mem_cons_self)
      exact hfirst.bind (ih fun u hu ↦ h u (List.mem_cons_of_mem v hu))

end Value

end GioNet
