import GioNet.Core
import GioNet.Packet
import GioNet.Library.LittleEndian

/-!
# Buffers

The byte buffer packets are serialised into and read from. Reading removes bytes
from the front, writing appends at the end. An access that the assertions of the
source rule out faults: in a debug build on the assertion, else by the read past
the end.
-/

namespace GioNet

/-- `static_cast<int32_t>` of a size: its residue modulo `2 ^ 32` nearest to zero. -/
def int32 (n : ℕ) : ℤ := Int.bmod n 4294967296

theorem int32_eq (n : ℕ) : int32 n = Int.bmod n 4294967296 := rfl

-- the unifier must not compute with the modulus
attribute [irreducible] int32

/-- The conversion to `size_t`, for 64-bit builds. -/
def sizeT (n : ℤ) : ℕ := (n % 2 ^ 64).toNat

/-- `max_size()` of a vector of bytes. -/
def vectorMax : ℕ := 2 ^ 63 - 1

structure Buffer where
  payload : List UInt8 := []
  deriving DecidableEq, Repr

namespace Buffer

/-- `Length()`. -/
def length (b : Buffer) : ℤ := int32 b.payload.length

/-- Functions that work on a buffer in place and may fault. -/
abbrev Access := StateT Buffer (Except Fault)

/-! ## Writing -/

/-- Copies `size` bytes from a source of which `src` are the bytes that exist. -/
def copyBytesIntoPayload (src : List UInt8) (size : ℕ) : Access Unit := do
  if size = 0 then return
  let payload := (← get).payload
  let resized := sizeT (payload.length + size)
  if vectorMax < resized then throw .lengthError
  -- `memcpy` reads `size` bytes of the source and fills the place after the old end
  if src.length < size ∨ resized < payload.length + size then throw .outOfRange
  set (Buffer.mk (payload ++ src.take size))

/-- `Write<T>` for an integer type of `width` bytes. -/
def writeInteger (width n : ℕ) : Access Unit :=
  copyBytesIntoPayload (LittleEndian.encode width n) width

/-- `Write<int32_t>`. -/
def writeInt32 (n : ℤ) : Access Unit := writeInteger 4 (n % 2 ^ 32).toNat

def writeCharacters (val : StdString) : Access Unit := do
  writeInt32 (int32 val.length)
  copyBytesIntoPayload val val.length

/-- `Write<std::string>`. -/
def writeString : StdString → Access Unit := writeCharacters

/-- `Write<std::string_view>`. -/
def writeStringView : StdString → Access Unit := writeCharacters

/-- `Write<Buffer>`. -/
def writeBuffer (val : Buffer) : Access Unit := do
  writeInt32 val.length
  copyBytesIntoPayload val.payload (sizeT val.length)

/-- `Write<Packet>`. -/
def writePacket (val : Packet Buffer) : Access Unit := do
  writeInteger 1 val.header.toNat
  writeInteger 2 val.id.toNat
  writeInteger 2 val.ackId.toNat
  writeInteger 4 val.ackBitset.toNat
  writeBuffer val.payload

/-! ## Reading -/

/-- Moves the first `size` bytes out of the buffer. -/
def extractBytesFromPayload (build : Build) (size : ℕ) : Access (List UInt8) := do
  if size = 0 then return []
  let payload := (← get).payload
  build.assert (size ≤ payload.length)
  if payload.length < size then throw .outOfRange
  set (Buffer.mk (payload.drop size))
  return payload.take size

/-- `Read<T>` for an integer type of `width` bytes. -/
def readInteger (build : Build) (width : ℕ) : Access ℕ := do
  build.assert (width ≤ sizeT (← get).length)
  return LittleEndian.decode (← extractBytesFromPayload build width)

/-- `Read<int32_t>`. -/
def readInt32 (build : Build) : Access ℤ := return int32 (← readInteger build 4)

/-- `Read<std::string>`. -/
def readString (build : Build) : Access StdString := do
  let length ← readInt32 build
  if 0 < length then extractBytesFromPayload build (sizeT length)
  else return []

/-- `Read<Buffer>`. -/
def readBuffer (build : Build) : Access Buffer := do
  let length ← readInt32 build
  if 0 < length then return ⟨← extractBytesFromPayload build (sizeT length)⟩
  else return {}

/-- `Read<Packet>`. -/
def readPacket (build : Build) : Access (Packet Buffer) := do
  let header := UInt8.ofNat (← readInteger build 1)
  let id := UInt16.ofNat (← readInteger build 2)
  let ackId := UInt16.ofNat (← readInteger build 2)
  let ackBitset := UInt32.ofNat (← readInteger build 4)
  return { header, id, ackId, ackBitset, payload := ← readBuffer build }

end Buffer

end GioNet
