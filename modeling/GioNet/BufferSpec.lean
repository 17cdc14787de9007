import GioNet.Buffer

/-!
# The wire format

What the accesses of a buffer do to its bytes. An access of a fixed size either
finds that many bytes or faults, and such accesses compose; so reading a packet
comes down to two comparisons on the number of bytes.
-/

namespace GioNet

theorem int32_of_lt {n : ℕ} (h : n < 2 ^ 31) : int32 n = n := by
  rw [int32_eq]
  apply Int.bmod_eq_of_le <;> omega

theorem int32_lt (n : ℕ) : int32 n < 2 ^ 31 := by
  have h := Int.bmod_lt (x := n) (m := 4294967296) (by decide)
  rw [int32_eq]
  omega

theorem sizeT_natCast {n : ℕ} (h : n < 2 ^ 64) : sizeT n = n := by
  rw [sizeT, Int.emod_eq_of_lt (by omega) (by omega), Int.toNat_natCast]

theorem sizeT_of_nonneg {n : ℤ} (h : 0 ≤ n) (h' : n < 2 ^ 64) : sizeT n = n.toNat := by
  rw [sizeT, Int.emod_eq_of_lt h h']

/-- How an access past the end of a buffer ends. -/
def Build.readFault : Build → Fault
  | .debug => .assertionFailed
  | .release => .outOfRange

namespace Buffer

/-! ## Reading -/

theorem extractBytesFromPayload_of_le (build : Build) {size : ℕ} {b : Buffer}
    (h : size ≤ b.payload.length) :
    (extractBytesFromPayload build size).run b =
      .ok (b.payload.take size, ⟨b.payload.drop size⟩) := by
  unfold extractBytesFromPayload
  by_cases hzero : size = 0
  · simp [hzero]
    rfl
  · simp [hzero, h, Nat.not_lt.mpr h]

theorem extractBytesFromPayload_of_lt (build : Build) {size : ℕ} {b : Buffer}
    (h : b.payload.length < size) :
    (extractBytesFromPayload build size).run b = .error build.readFault := by
  unfold extractBytesFromPayload
  have hzero : size ≠ 0 := by omega
  cases build with
  | debug => simp [hzero, Build.assert, Nat.not_le.mpr h, Build.readFault]
  | release =>
      simp [hzero, Build.assert, h, Build.readFault]
      rfl

/-- The access takes `size` bytes off the front and returns `value` of the bytes
before; with fewer bytes it faults. -/
def TakesOff {α : Type} (build : Build) (size : ℕ) (x : Access α) (value : List UInt8 → α) :
    Prop :=
  ∀ b : Buffer, b.payload.length < 2 ^ 31 →
    x.run b = if size ≤ b.payload.length then .ok (value b.payload, ⟨b.payload.drop size⟩)
      else .error build.readFault

theorem TakesOff.bind {α γ : Type} {build : Build} {m n : ℕ} {x : Access α} {y : α → Access γ}
    {f : List UInt8 → α} {g : α → List UInt8 → γ} (hx : TakesOff build m x f)
    (hy : ∀ a, TakesOff build n (y a) (g a)) :
    TakesOff build (m + n) (x >>= y) fun bytes ↦ g (f bytes) (bytes.drop m) := by
  intro b hb
  rw [StateT.run_bind, hx b hb]
  by_cases hm : m ≤ b.payload.length
  · have hrest := hy (f b.payload) ⟨b.payload.drop m⟩ (by simp; omega)
    rw [if_pos hm]
    change (y (f b.payload)).run ⟨b.payload.drop m⟩ = _
    rw [hrest]
    simp only [List.length_drop, List.drop_drop]
    have hiff : n ≤ b.payload.length - m ↔ m + n ≤ b.payload.length := by omega
    simp only [hiff]
  · rw [if_neg hm, if_neg (by omega)]
    rfl

theorem takesOff_pure {α : Type} (build : Build) (a : α) :
    TakesOff build 0 (pure a) fun _ ↦ a := by
  intro b _
  rfl

theorem takesOff_readInteger (build : Build) (width : ℕ) :
    TakesOff build width (readInteger build width) fun bytes ↦
      LittleEndian.decode (bytes.take width) := by
  intro b hb
  have hlength : sizeT b.length = b.payload.length := by
    rw [Buffer.length, int32_of_lt hb, sizeT_natCast (by omega)]
  by_cases hle : width ≤ b.payload.length
  · have hextract := extractBytesFromPayload_of_le build hle
    simp [readInteger, hlength, hle, hextract]
  · have hextract := extractBytesFromPayload_of_lt build (Nat.lt_of_not_le hle)
    cases build with
    | debug => simp [readInteger, hlength, hle, Build.assert, Build.readFault]
    | release => simp [readInteger, hle, hextract, Build.assert, Build.readFault]

/-! ## Reading a packet -/

def lengthPrefix (bytes : List UInt8) : ℤ :=
  int32 (LittleEndian.decode ((bytes.drop 9).take 4))

def header (bytes : List UInt8) : Buffer → Packet Buffer := fun payload ↦ {
  header := UInt8.ofNat (LittleEndian.decode (bytes.take 1))
  id := UInt16.ofNat (LittleEndian.decode ((bytes.drop 1).take 2))
  ackId := UInt16.ofNat (LittleEndian.decode ((bytes.drop 3).take 2))
  ackBitset := UInt32.ofNat (LittleEndian.decode ((bytes.drop 5).take 4))
  payload := payload }

/-- What is left of `Read<Buffer>` after the length prefix. -/
def readPayload (build : Build) (length : ℤ) : Access Buffer := do
  if 0 < length then return ⟨← extractBytesFromPayload build (sizeT length)⟩
  else return {}

/-- `Read<Packet>` up to the length prefix. -/
def readHeader (build : Build) : Access ((Buffer → Packet Buffer) × ℤ) := do
  let header ← readInteger build 1
  let id ← readInteger build 2
  let ackId ← readInteger build 2
  let ackBitset ← readInteger build 4
  let length ← readInteger build 4
  return (fun payload ↦ ⟨.ofNat header, .ofNat id, .ofNat ackId, .ofNat ackBitset, payload⟩,
    int32 length)

theorem takesOff_readHeader (build : Build) :
    TakesOff build 13 (readHeader build) fun bytes ↦ (header bytes, lengthPrefix bytes) := by
  have h : TakesOff build (1 + (2 + (2 + (4 + (4 + 0))))) (readHeader build) _ :=
    (takesOff_readInteger build 1).bind fun header ↦
      (takesOff_readInteger build 2).bind fun id ↦
        (takesOff_readInteger build 2).bind fun ackId ↦
          (takesOff_readInteger build 4).bind fun ackBitset ↦
            (takesOff_readInteger build 4).bind fun length ↦ takesOff_pure build _
  intro b hb
  rw [h b hb]
  simp only [List.drop_drop]
  rfl

theorem readPacket_eq (build : Build) :
    readPacket build = do
      let (header, length) ← readHeader build
      return header (← readPayload build length) := by
  simp only [readPacket, readHeader, readBuffer, readInt32, readPayload, bind_assoc, pure_bind]

theorem readPayload_run (build : Build) {length : ℤ} (hlength : length < 2 ^ 31) (b : Buffer) :
    (readPayload build length).run b =
      if length ≤ b.payload.length then
        .ok (⟨b.payload.take length.toNat⟩, ⟨b.payload.drop length.toNat⟩)
      else .error build.readFault := by
  unfold readPayload
  by_cases hpos : 0 < length
  · have hsize : sizeT length = length.toNat := sizeT_of_nonneg hpos.le (by omega)
    by_cases hle : length ≤ b.payload.length
    · have hextract := extractBytesFromPayload_of_le build
        (show length.toNat ≤ b.payload.length by omega)
      simp [hpos, hle, hsize, hextract]
    · have hextract := extractBytesFromPayload_of_lt build
        (show b.payload.length < length.toNat by omega)
      simp [hpos, hle, hsize, hextract]
  · have hzero : length.toNat = 0 := by omega
    rw [if_neg hpos, if_pos (by omega), hzero]
    rfl

/-- A packet can be read exactly if the bytes in front of the payload are there
and the length prefix claims no more than what follows them. A negative length
counts as zero. -/
theorem readPacket_run (build : Build) {b : Buffer} (hb : b.payload.length < 2 ^ 31) :
    (readPacket build).run b =
      if 13 ≤ b.payload.length ∧ lengthPrefix b.payload ≤ b.payload.length - 13 then
        .ok (header b.payload ⟨(b.payload.drop 13).take (lengthPrefix b.payload).toNat⟩,
          ⟨b.payload.drop (13 + (lengthPrefix b.payload).toNat)⟩)
      else .error build.readFault := by
  rw [readPacket_eq, StateT.run_bind, takesOff_readHeader build b hb]
  by_cases hlen : 13 ≤ b.payload.length
  · have hlt : lengthPrefix b.payload < 2 ^ 31 := int32_lt _
    have hpayload := readPayload_run build hlt ⟨b.payload.drop 13⟩
    have hcast : ((b.payload.drop 13).length : ℤ) = b.payload.length - 13 := by
      rw [List.length_drop]
      omega
    rw [if_pos hlen, Fault.ok_bind, StateT.run_bind]
    simp only [hpayload, hcast, hlen, true_and, List.drop_drop]
    split
    · rw [Fault.ok_bind, StateT.run_pure]
      rfl
    · rw [Fault.error_bind]
  · simp only [hlen, if_false, false_and, Fault.error_bind]

/-! ## Writing -/

/-- The access appends the bytes, as long as a vector can hold the result. -/
def Appends (x : Access Unit) (bytes : List UInt8) : Prop :=
  ∀ b : Buffer, b.payload.length + bytes.length ≤ vectorMax →
    x.run b = .ok ((), ⟨b.payload ++ bytes⟩)

/-- The access appends the bytes if a vector can hold the result, and faults if not. -/
def Extends (x : Access Unit) (bytes : List UInt8) : Prop :=
  ∀ b : Buffer, b.payload.length ≤ vectorMax →
    x.run b = if b.payload.length + bytes.length ≤ vectorMax then .ok ((), ⟨b.payload ++ bytes⟩)
      else .error .lengthError

theorem Extends.appends {x : Access Unit} {bytes : List UInt8} (h : Extends x bytes) :
    Appends x bytes := by
  intro b hb
  rw [h b (Nat.le_trans (Nat.le_add_right _ _) hb), if_pos hb]

theorem Extends.bind {x y : Access Unit} {bytes bytes' : List UInt8} (hx : Extends x bytes)
    (hy : Extends y bytes') : Extends (do x; y) (bytes ++ bytes') := by
  intro b hb
  rw [StateT.run_bind, hx b hb, List.length_append, ← Nat.add_assoc]
  by_cases hfits : b.payload.length + bytes.length ≤ vectorMax
  · have hrest := hy ⟨b.payload ++ bytes⟩ (by simpa using hfits)
    rw [if_pos hfits, Fault.ok_bind, hrest, List.length_append, List.append_assoc]
  · have htotal : ¬ b.payload.length + bytes.length + bytes'.length ≤ vectorMax :=
      fun h ↦ hfits (Nat.le_trans (Nat.le_add_right _ _) h)
    rw [if_neg hfits, if_neg htotal, Fault.error_bind]

theorem extends_copyBytesIntoPayload (src : List UInt8) {size : ℕ} (h : size ≤ src.length)
    (hsize : size ≤ vectorMax) : Extends (copyBytesIntoPayload src size) (src.take size) := by
  intro b hb
  unfold copyBytesIntoPayload
  by_cases hzero : size = 0
  · simp [hzero, hb]
    rfl
  · have htake : (src.take size).length = size := by simp [h]
    have hresized : sizeT (b.payload.length + size) = b.payload.length + size := by
      rw [vectorMax] at hb hsize
      exact_mod_cast sizeT_natCast (n := b.payload.length + size) (by omega)
    rw [htake]
    by_cases hfits : b.payload.length + size ≤ vectorMax
    · simp [hzero, hresized, Nat.not_lt.mpr hfits, Nat.not_lt.mpr h, hfits]
      rfl
    · simp [hzero, hresized, Nat.lt_of_not_le hfits, hfits]
      rfl

theorem extends_writeInteger {width : ℕ} (hwidth : width ≤ vectorMax) (n : ℕ) :
    Extends (writeInteger width n) (LittleEndian.encode width n) := by
  have h := extends_copyBytesIntoPayload (LittleEndian.encode width n)
    (LittleEndian.encode_length width n).ge hwidth
  rwa [List.take_of_length_le (LittleEndian.encode_length width n).le] at h

/-- A length prefix and the bytes it counts. -/
def counted (bytes : List UInt8) : List UInt8 := LittleEndian.encode 4 bytes.length ++ bytes

theorem extends_counted {bytes : List UInt8} (h : bytes.length < 2 ^ 31) {size : ℕ}
    (hsize : size = bytes.length) :
    Extends (do writeInt32 (int32 bytes.length); copyBytesIntoPayload bytes size)
      (counted bytes) := by
  have hprefix : Extends (writeInt32 (int32 bytes.length))
      (LittleEndian.encode 4 bytes.length) := by
    rw [int32_of_lt h, writeInt32, Int.emod_eq_of_lt (by omega) (by omega), Int.toNat_natCast]
    exact extends_writeInteger (by decide) _
  have hcopy := extends_copyBytesIntoPayload bytes hsize.le (by rw [vectorMax]; omega)
  rw [List.take_of_length_le hsize.ge] at hcopy
  exact hprefix.bind hcopy

theorem extends_writeCharacters {val : StdString} (h : val.length < 2 ^ 31) :
    Extends (writeCharacters val) (counted val) :=
  extends_counted h rfl

theorem extends_writeBuffer {val : Buffer} (h : val.payload.length < 2 ^ 31) :
    Extends (writeBuffer val) (counted val.payload) := by
  apply extends_counted h
  rw [Buffer.length, int32_of_lt h, sizeT_natCast (by omega)]

end Buffer

namespace Packet

def wire (p : Packet Buffer) : List UInt8 :=
  LittleEndian.encode 1 p.header.toNat ++ (LittleEndian.encode 2 p.id.toNat ++
    (LittleEndian.encode 2 p.ackId.toNat ++ (LittleEndian.encode 4 p.ackBitset.toNat ++
      (LittleEndian.encode 4 p.payload.payload.length ++ p.payload.payload))))

theorem wire_length (p : Packet Buffer) : p.wire.length = 13 + p.payload.payload.length := by
  simp [wire]
  omega

end Packet

namespace Buffer

theorem extends_writePacket {p : Packet Buffer} (h : p.payload.payload.length < 2 ^ 31) :
    Extends (writePacket p) p.wire :=
  (extends_writeInteger (by decide) _).bind ((extends_writeInteger (by decide) _).bind
    ((extends_writeInteger (by decide) _).bind ((extends_writeInteger (by decide) _).bind
      (extends_writeBuffer h))))

theorem appends_writePacket {p : Packet Buffer} (h : p.payload.payload.length < 2 ^ 31) :
    Appends (writePacket p) p.wire :=
  (extends_writePacket h).appends

/-- Reading a serialised packet gives the packet and leaves what follows it. -/
theorem readPacket_wire (build : Build) {p : Packet Buffer} {rest : List UInt8}
    (h : (p.wire ++ rest).length < 2 ^ 31) :
    (readPacket build).run ⟨p.wire ++ rest⟩ = .ok (p, ⟨rest⟩) := by
  have hlen : p.wire.length = 13 + p.payload.payload.length := p.wire_length
  have hbytes : (p.wire ++ rest).length = 13 + p.payload.payload.length + rest.length := by
    rw [List.length_append, hlen]
  have hclaimed : lengthPrefix (p.wire ++ rest) = p.payload.payload.length := by
    have hfield : ((p.wire ++ rest).drop 9).take 4 =
        LittleEndian.encode 4 p.payload.payload.length := rfl
    rw [lengthPrefix, hfield, LittleEndian.decode_encode (by omega), int32_of_lt (by omega)]
  have hheader : header (p.wire ++ rest) p.payload = p := by
    have hid : ((p.wire ++ rest).drop 1).take 2 = LittleEndian.encode 2 p.id.toNat := rfl
    have hackId : ((p.wire ++ rest).drop 3).take 2 = LittleEndian.encode 2 p.ackId.toNat := rfl
    have hbits : ((p.wire ++ rest).drop 5).take 4 =
        LittleEndian.encode 4 p.ackBitset.toNat := rfl
    have hhead : (p.wire ++ rest).take 1 = LittleEndian.encode 1 p.header.toNat := rfl
    rw [header, hhead, hid, hackId, hbits, LittleEndian.decode_encode p.header.toNat_lt,
      LittleEndian.decode_encode p.id.toNat_lt, LittleEndian.decode_encode p.ackId.toNat_lt,
      LittleEndian.decode_encode p.ackBitset.toNat_lt]
    simp
  have hdrop : (p.wire ++ rest).drop 13 = p.payload.payload ++ rest := rfl
  rw [readPacket_run build h, if_pos (by dsimp only; rw [hclaimed]; omega)]
  simp only [hclaimed, Int.toNat_natCast, hdrop, List.take_left]
  rw [hheader, ← hlen, List.drop_left]

end Buffer

end GioNet
