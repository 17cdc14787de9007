import GioNet.Values

/-!
# What the readers accept

Whatever the bytes in a buffer are, a read that comes back has taken an encoding
of its value off the front, up to the length prefix: a negative one is read like
zero.
-/

namespace GioNet

open Buffer (Access)

/-- When the access comes back with `a`, it has taken bytes off the front that
stand in the relation to `a`. -/
def Consumes {α : Type} (x : Access α) (R : List UInt8 → α → Prop) : Prop :=
  ∀ b a b', x.run b = .ok (a, b') →
    ∃ bytes, b.payload = bytes ++ b'.payload ∧ R bytes a

namespace Consumes

variable {α γ : Type} {x : Access α} {R : List UInt8 → α → Prop}

theorem bind {y : α → Access γ} {S : α → List UInt8 → γ → Prop} (hx : Consumes x R)
    (hy : ∀ a bytes, R bytes a → Consumes (y a) (S a)) :
    Consumes (x >>= y) fun bytes c ↦
      ∃ a first second, bytes = first ++ second ∧ R first a ∧ S a second c := by
  intro b c b'' h
  rw [StateT.run_bind] at h
  cases hrun : x.run b with
  | error fault =>
      rw [hrun] at h
      cases h
  | ok r =>
      obtain ⟨a, b'⟩ := r
      rw [hrun] at h
      obtain ⟨first, hfirst, hR⟩ := hx b a b' hrun
      obtain ⟨second, hsecond, hS⟩ := hy a first hR b' c b'' h
      refine ⟨first ++ second, ?_, a, first, second, rfl, hR, hS⟩
      rw [hfirst, hsecond, List.append_assoc]

theorem pure (a : α) : Consumes (Pure.pure a) fun bytes c ↦ bytes = [] ∧ c = a := by
  intro b c b' h
  obtain ⟨rfl, rfl⟩ : a = c ∧ b = b' := by simpa using Except.ok.inj h
  exact ⟨[], rfl, rfl, rfl⟩

theorem mono {S : List UInt8 → α → Prop} (hx : Consumes x R)
    (h : ∀ bytes a, R bytes a → S bytes a) : Consumes x S := by
  intro b a b' hrun
  obtain ⟨bytes, hbytes, hR⟩ := hx b a b' hrun
  exact ⟨bytes, hbytes, h bytes a hR⟩

theorem map (hx : Consumes x R) (g : α → γ) :
    Consumes (do return g (← x)) fun bytes c ↦ ∃ a, R bytes a ∧ c = g a := by
  apply (hx.bind fun a _ _ ↦ Consumes.pure (g a)).mono
  rintro bytes c ⟨a, first, second, rfl, hR, rfl, rfl⟩
  exact ⟨a, by simpa using hR, rfl⟩

end Consumes

namespace Buffer

theorem consumes_extractBytesFromPayload (build : Build) (size : ℕ) :
    Consumes (extractBytesFromPayload build size) fun bytes a ↦
      bytes.length = size ∧ a = bytes := by
  intro b a b' h
  by_cases hle : size ≤ b.payload.length
  · rw [extractBytesFromPayload_of_le build hle] at h
    obtain ⟨rfl, rfl⟩ : b.payload.take size = a ∧ Buffer.mk (b.payload.drop size) = b' := by
      simpa using Except.ok.inj h
    exact ⟨b.payload.take size, (List.take_append_drop size _).symm, by simp [hle], rfl⟩
  · rw [extractBytesFromPayload_of_lt build (Nat.lt_of_not_le hle)] at h
    cases h

theorem consumes_readInteger (build : Build) (width : ℕ) :
    Consumes (readInteger build width) fun bytes n ↦
      bytes.length = width ∧ n = LittleEndian.decode bytes := by
  intro b n b' h
  have hextract : ((do return LittleEndian.decode (← extractBytesFromPayload build width)) :
      Access ℕ).run b = .ok (n, b') := by
    unfold readInteger at h
    cases hassert : build.assert (width ≤ sizeT b.length) with
    | error fault =>
        simp [hassert] at h
    | ok u => simpa [hassert] using h
  obtain ⟨bytes, hbytes, a, ⟨hlength, rfl⟩, rfl⟩ :=
    (consumes_extractBytesFromPayload build width).map LittleEndian.decode b n b' hextract
  exact ⟨_, hbytes, hlength, rfl⟩

theorem consumes_readInt32 (build : Build) :
    Consumes (readInt32 build) fun bytes n ↦
      bytes.length = 4 ∧ n = int32 (LittleEndian.decode bytes) := by
  apply ((consumes_readInteger build 4).map int32).mono
  rintro bytes n ⟨a, ⟨hlength, rfl⟩, rfl⟩
  exact ⟨hlength, rfl⟩

/-- What follows a length prefix is empty unless the length is positive. -/
theorem consumes_ifPos {α : Type} (build : Build) (length : ℤ) (hlength : length < 2 ^ 31)
    (g : List UInt8 → α) {x : Access α}
    (hx : x = do return g (← extractBytesFromPayload build (sizeT length))) :
    Consumes (if 0 < length then x else pure (g [])) fun bytes a ↦
      bytes.length = length.toNat ∧ a = g bytes := by
  by_cases hpos : 0 < length
  · rw [if_pos hpos, hx, sizeT_of_nonneg hpos.le (by omega)]
    apply ((consumes_extractBytesFromPayload build length.toNat).map g).mono
    rintro bytes a ⟨bytes', ⟨hlength, rfl⟩, rfl⟩
    exact ⟨hlength, rfl⟩
  · rw [if_neg hpos]
    apply (Consumes.pure (g [])).mono
    rintro bytes a ⟨rfl, rfl⟩
    exact ⟨by simp; omega, rfl⟩

/-- A length prefix, and as many bytes as it claims if it is positive. -/
structure Claimed (claim bytes : List UInt8) : Prop where
  width : claim.length = 4
  length : bytes.length = (int32 (LittleEndian.decode claim)).toNat

theorem Claimed.length_lt {claim bytes : List UInt8} (h : Claimed claim bytes) :
    bytes.length < 2 ^ 31 := by
  have hlt := int32_lt (LittleEndian.decode claim)
  rw [h.length]
  omega

/-- The prefix is the encoding of the length exactly if it is not negative. -/
theorem Claimed.eq_encode_iff {claim bytes : List UInt8} (h : Claimed claim bytes) :
    claim = LittleEndian.encode 4 bytes.length ↔ 0 ≤ int32 (LittleEndian.decode claim) := by
  have hdecode : LittleEndian.decode claim < 2 ^ 32 := by
    have hlt := LittleEndian.decode_lt claim
    rwa [h.width] at hlt
  constructor
  · intro heq
    have hlt := h.length_lt
    rw [heq, LittleEndian.decode_encode (by omega), int32_of_lt hlt]
    exact Int.natCast_nonneg _
  · intro hnonneg
    have hlength : bytes.length = LittleEndian.decode claim := by
      rw [h.length]
      rw [int32_eq, Int.bmod_def] at hnonneg ⊢
      split at hnonneg <;> omega
    have hencode := LittleEndian.encode_decode claim
    rw [h.width] at hencode
    rw [hlength, hencode]

/-- A length prefix, and what is read of as many bytes. -/
theorem consumes_counted {α : Type} (build : Build) (g : List UInt8 → α)
    (x : ℤ → Access α)
    (hx : ∀ length, x length = do return g (← extractBytesFromPayload build (sizeT length))) :
    Consumes (do
        let length ← readInt32 build
        if 0 < length then x length else return g []) fun bytes a ↦
      ∃ claim payload, bytes = claim ++ payload ∧ Claimed claim payload ∧ a = g payload := by
  have hpayload : ∀ length bytes, bytes.length = 4 ∧ length = int32 (LittleEndian.decode bytes) →
      Consumes (if 0 < length then x length else return g []) fun bytes a ↦
        bytes.length = length.toNat ∧ a = g bytes := by
    rintro length bytes ⟨-, rfl⟩
    exact consumes_ifPos build _ (int32_lt _) g (hx _)
  apply ((consumes_readInt32 build).bind hpayload).mono
  rintro bytes a ⟨n, claim, payload, rfl, ⟨hwidth, rfl⟩, hlength, rfl⟩
  exact ⟨claim, payload, rfl, ⟨hwidth, hlength⟩, rfl⟩

theorem consumes_readString (build : Build) :
    Consumes (readString build) fun bytes s ↦ ∃ claim, bytes = claim ++ s ∧ Claimed claim s := by
  apply (consumes_counted build (fun bytes ↦ bytes) _ fun _ ↦ (bind_pure _).symm).mono
  rintro bytes s ⟨claim, payload, rfl, hclaimed, rfl⟩
  exact ⟨claim, rfl, hclaimed⟩

theorem consumes_readBuffer (build : Build) :
    Consumes (readBuffer build) fun bytes b ↦
      ∃ claim, bytes = claim ++ b.payload ∧ Claimed claim b.payload := by
  apply (consumes_counted build Buffer.mk _ fun _ ↦ rfl).mono
  rintro bytes b ⟨claim, payload, rfl, hclaimed, rfl⟩
  exact ⟨claim, rfl, hclaimed⟩

/-- The fields of a packet in front of the length prefix. -/
def fixedFields (p : Packet Buffer) : List UInt8 :=
  LittleEndian.encode 1 p.header.toNat ++ (LittleEndian.encode 2 p.id.toNat ++
    (LittleEndian.encode 2 p.ackId.toNat ++ LittleEndian.encode 4 p.ackBitset.toNat))

theorem wire_eq_fixedFields (p : Packet Buffer) :
    p.wire = fixedFields p ++ counted p.payload.payload := by
  simp [Packet.wire, fixedFields, counted]

theorem encode_of_read {width n : ℕ} {bytes : List UInt8}
    (h : bytes.length = width ∧ n = LittleEndian.decode bytes) :
    n < 256 ^ width ∧ LittleEndian.encode width n = bytes := by
  obtain ⟨rfl, rfl⟩ := h
  exact ⟨LittleEndian.decode_lt bytes, LittleEndian.encode_decode bytes⟩

theorem consumes_readPacket (build : Build) :
    Consumes (readPacket build) fun bytes p ↦
      ∃ claim, bytes = fixedFields p ++ (claim ++ p.payload.payload) ∧
        Claimed claim p.payload.payload := by
  have hall := (consumes_readInteger build 1).bind fun header _ _ ↦
    (consumes_readInteger build 2).bind fun id _ _ ↦
      (consumes_readInteger build 2).bind fun ackId _ _ ↦
        (consumes_readInteger build 4).bind fun ackBitset _ _ ↦
          (consumes_readBuffer build).map fun payload ↦
            ({ header := .ofNat header, id := .ofNat id, ackId := .ofNat ackId,
               ackBitset := .ofNat ackBitset, payload } : Packet Buffer)
  apply Consumes.mono hall
  rintro bytes p ⟨header, b₁, _, rfl, hheader, id, b₂, _, rfl, hid, ackId, b₃, _, rfl, hackId,
    ackBitset, b₄, _, rfl, hackBitset, payload, ⟨claim, rfl, hclaimed⟩, rfl⟩
  obtain ⟨hlt₁, hencode₁⟩ := encode_of_read hheader
  obtain ⟨hlt₂, hencode₂⟩ := encode_of_read hid
  obtain ⟨hlt₃, hencode₃⟩ := encode_of_read hackId
  obtain ⟨hlt₄, hencode₄⟩ := encode_of_read hackBitset
  refine ⟨claim, ?_, hclaimed⟩
  rw [fixedFields, UInt8.toNat_ofNat_of_lt' hlt₁, UInt16.toNat_ofNat_of_lt' hlt₂,
    UInt16.toNat_ofNat_of_lt' hlt₃, UInt32.toNat_ofNat_of_lt' hlt₄, hencode₁, hencode₂, hencode₃,
    hencode₄]
  simp only [List.append_assoc]

end Buffer

/-! ## Reading and writing again -/

/-- Where the length prefix stands in the encoding. -/
def ValueType.prefixOffset : ValueType → Option ℕ
  | .integer _ => none
  | .string => some 0
  | .buffer => some 0
  | .packet => some 9

theorem ValueType.prefixOffset_le {t : ValueType} {offset : ℕ}
    (h : t.prefixOffset = some offset) : offset ≤ 9 := by
  cases t <;> simp [prefixOffset] at h <;> omega

namespace Value

/-- The bytes are the encoding of the value, but for a length prefix that claims
as many bytes as the value has. -/
structure Framed (offset : ℕ) (bytes : List UInt8) (v : Value) (head claim text : List UInt8) :
    Prop where
  bytes_eq : bytes = head ++ (claim ++ text)
  head_length : head.length = offset
  claimed : Buffer.Claimed claim text
  encode_eq : v.encode = head ++ Buffer.counted text
  wellSized : v.WellSized

theorem consumes_read (build : Build) {t : ValueType} {offset : ℕ}
    (ht : t.prefixOffset = some offset) :
    Consumes (t.read build) fun bytes v ↦
      ∃ head claim text, Framed offset bytes v head claim text := by
  cases t with
  | integer width => cases ht
  | string =>
      obtain rfl : 0 = offset := Option.some.inj ht
      apply ((Buffer.consumes_readString build).map Value.string).mono
      rintro bytes v ⟨s, ⟨claim, rfl, hclaimed⟩, rfl⟩
      exact ⟨[], claim, s, rfl, rfl, hclaimed, rfl, hclaimed.length_lt⟩
  | buffer =>
      obtain rfl : 0 = offset := Option.some.inj ht
      apply ((Buffer.consumes_readBuffer build).map Value.buffer).mono
      rintro bytes v ⟨b, ⟨claim, rfl, hclaimed⟩, rfl⟩
      exact ⟨[], claim, b.payload, rfl, rfl, hclaimed, rfl, hclaimed.length_lt⟩
  | packet =>
      obtain rfl : 9 = offset := Option.some.inj ht
      apply ((Buffer.consumes_readPacket build).map Value.packet).mono
      rintro bytes v ⟨p, ⟨claim, rfl, hclaimed⟩, rfl⟩
      exact ⟨Buffer.fixedFields p, claim, p.payload.payload, rfl, by simp [Buffer.fixedFields],
        hclaimed, Buffer.wire_eq_fixedFields p, hclaimed.length_lt⟩

/-- The length prefix at the offset. -/
def claimedLength (bytes : List UInt8) (offset : ℕ) : ℤ :=
  int32 (LittleEndian.decode ((bytes.drop offset).take 4))

/-- When a packet, a buffer or a string is read off the front of a buffer, writing
it again gives the bytes that were taken exactly if their length prefix is not
negative. A negative one is read as an empty payload, and is the only
difference. -/
theorem rewrite_of_read (build : Build) {t : ValueType} {offset : ℕ}
    (ht : t.prefixOffset = some offset) {b r : Buffer} {v : Value}
    (h : (t.read build).run b = .ok (v, r)) :
    ∃ w, v.write.run {} = .ok ((), ⟨w⟩) ∧
      (b.payload = w ++ r.payload ↔ 0 ≤ claimedLength b.payload offset) ∧
        (claimedLength b.payload offset < 0 →
          w = w.take offset ++ LittleEndian.encode 4 0 ∧
            b.payload = w.take offset ++ ((b.payload.drop offset).take 4 ++ r.payload)) := by
  obtain ⟨bytes, hbytes, head, claim, text, hframed⟩ := consumes_read build ht b v r h
  obtain ⟨rfl, rfl, hclaimed, hencode, hsized⟩ := hframed
  have hwrite := extends_write hsized {} (Nat.zero_le _)
  have hfits : v.encode.length ≤ vectorMax := by
    have hlt := hclaimed.length_lt
    have hoffset := ValueType.prefixOffset_le ht
    rw [hencode, List.length_append, Buffer.counted, List.length_append,
      LittleEndian.encode_length, vectorMax]
    omega
  have hclaim : (b.payload.drop head.length).take 4 = claim := by
    rw [hbytes, List.append_assoc, List.drop_left, List.append_assoc, ← hclaimed.width,
      List.take_left]
  have hhead : v.encode.take head.length = head := by
    rw [hencode, List.take_left]
  refine ⟨v.encode, ?_, ?_, ?_⟩
  · rwa [if_pos (by simpa using hfits)] at hwrite
  · rw [claimedLength, hclaim, ← hclaimed.eq_encode_iff, hbytes, hencode, Buffer.counted]
    simp
  · intro hnegative
    rw [claimedLength, hclaim] at hnegative
    have hempty : text = [] := by
      apply List.eq_nil_of_length_eq_zero
      rw [hclaimed.length]
      omega
    subst hempty
    refine ⟨?_, ?_⟩
    · rw [hhead, hencode]
      rfl
    · rw [hclaim, hhead, hbytes]
      simp

/-- An empty packet whose length prefix is `-1`. -/
def negativePrefix : Buffer := ⟨[1, 0, 0, 0, 0, 0, 0, 0, 0, 255, 255, 255, 255]⟩

theorem read_negativePrefix (build : Build) :
    (ValueType.packet.read build).run negativePrefix =
      .ok (.packet (Packet.make .data .none {}), {}) := by
  have hclaim : Buffer.lengthPrefix negativePrefix.payload = -1 := by
    rw [Buffer.lengthPrefix, int32_eq]
    decide
  have hread := Buffer.readPacket_run build (b := negativePrefix) (by decide)
  rw [hclaim, if_pos (by decide)] at hread
  simp only [ValueType.read, StateT.run_bind, hread, Fault.ok_bind]
  rfl

theorem rewrite_of_read_negative :
    ∃ w, (Value.packet (Packet.make .data .none {})).write.run {} = .ok ((), ⟨w⟩) ∧
      w = w.take 9 ++ LittleEndian.encode 4 0 ∧ negativePrefix.payload ≠ w := by
  obtain ⟨w, hwrite, hiff, hnegative⟩ :=
    rewrite_of_read .debug (t := .packet) rfl (read_negativePrefix .debug)
  have hclaim : claimedLength negativePrefix.payload 9 < 0 := by
    rw [claimedLength, int32_eq]
    decide
  refine ⟨w, hwrite, (hnegative hclaim).1, ?_⟩
  rintro heq
  exact absurd (hiff.mp (by rw [heq]; simp)) (by omega)

/-- Read as a packet with an empty payload, the bytes are not what writing that
packet gives. -/
theorem not_rewrite_of_read :
    ¬ ∀ (build : Build) (b r : Buffer) (v : Value) (w : List UInt8),
      (ValueType.packet.read build).run b = .ok (v, r) → v.write.run {} = .ok ((), ⟨w⟩) →
        b.payload = w ++ r.payload := by
  intro hall
  have hwrite : (Value.packet (Packet.make .data .none {})).write.run {} =
      .ok ((), ⟨(Packet.make .data .none ({} : Buffer)).wire⟩) :=
    Buffer.appends_writePacket (by decide) {} (by decide)
  have heq := hall .debug negativePrefix {} _ _ (read_negativePrefix .debug) hwrite
  revert heq
  decide

end Value

end GioNet
