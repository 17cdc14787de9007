import GioNet.BufferSpec
import GioNet.Faults

/-!
# The receive path

Client and server decode every datagram that `ReceiveFrom` returns and hand the
packet to a connection, without looking at the bytes first. Which datagrams get
through is decided by three conditions on the bytes.
-/

namespace GioNet

open Packet (invalidId)

/-- `Buffer(data, length)`. -/
def Buffer.ofData (build : Build) (data : List UInt8) : Except Fault Buffer := do
  build.assert (data.length ≤ bufferMax)
  return ⟨data⟩

theorem Buffer.ofData_of_le (build : Build) {data : List UInt8} (h : data.length ≤ bufferMax) :
    Buffer.ofData build data = .ok ⟨data⟩ := by
  simp [Buffer.ofData, h]

/-- `ListenThread` from the buffer that `ReceiveFrom` constructs up to the
delivery of the ready packets. -/
def receivePath (build : Build) (c : Connection Buffer) (data : List UInt8) :
    Except Fault (Connection Buffer) := do
  let received ← Buffer.ofData build data
  let (packet, _) ← (Buffer.readPacket build).run received
  c.received build packet

/-- The datagram is processed in either build: no assertion on the way is false
and no read goes past the end. -/
def Processed (c : Connection Buffer) (data : List UInt8) : Prop :=
  ∀ build, ∃ c', receivePath build c data = .ok c'

/-- The bytes before the payload are complete, the length prefix claims no more
than the bytes that follow it, and a reliable packet has an id. -/
def WellFormed (data : List UInt8) : Prop :=
  13 ≤ data.length ∧
    int32 (LittleEndian.decode ((data.drop 9).take 4)) ≤ data.length - 13 ∧
    (Packet.headerHasFlags (data.getD 0 0) .reliable = true →
      ¬ (data.getD 1 0 = 0 ∧ data.getD 2 0 = 0))

instance (data : List UInt8) : Decidable (WellFormed data) :=
  inferInstanceAs (Decidable (_ ∧ _ ∧ (_ → _)))

theorem header_of_le {data : List UInt8} (h : 13 ≤ data.length) (payload : Buffer) :
    (Buffer.header data payload).header = data.getD 0 0 ∧
      ((Buffer.header data payload).id = invalidId ↔ data.getD 1 0 = 0 ∧ data.getD 2 0 = 0) := by
  obtain ⟨b₀, b₁, b₂, rest, rfl⟩ : ∃ b₀ b₁ b₂ rest, data = b₀ :: b₁ :: b₂ :: rest := by
    match data, h with
    | b₀ :: b₁ :: b₂ :: rest, _ => exact ⟨b₀, b₁, b₂, rest, rfl⟩
  refine ⟨?_, ?_⟩
  · simp [Buffer.header, LittleEndian.decode_cons]
  · have hb₁ := b₁.toNat_lt
    have hb₂ := b₂.toNat_lt
    simp only [Buffer.header, invalidId, List.drop_succ_cons, List.drop_zero, List.take_succ_cons,
      List.take_zero, LittleEndian.decode_cons, LittleEndian.decode_nil, ← UInt16.toNat_inj,
      ← UInt8.toNat_inj, UInt16.toNat_ofNat', List.getD_cons_zero, List.getD_cons_succ]
    simp only [UInt16.toNat_zero, UInt8.toNat_zero]
    omega

/-- The packet that a well-formed datagram decodes to. -/
def packetOf (data : List UInt8) : Packet Buffer :=
  Buffer.header data ⟨(data.drop 13).take (Buffer.lengthPrefix data).toNat⟩

namespace WellFormed

variable {data : List UInt8}

theorem readPacket (h : WellFormed data) (hmax : data.length ≤ bufferMax) (build : Build) :
    ∃ rest, (Buffer.readPacket build).run ⟨data⟩ = .ok (packetOf data, rest) := by
  have hlt : (Buffer.mk data).payload.length < 2 ^ 31 := by
    rw [bufferMax] at hmax
    dsimp only
    omega
  rw [Buffer.readPacket_run build hlt, if_pos ⟨h.1, h.2.1⟩]
  exact ⟨_, rfl⟩

theorem id_ne_invalidId (h : WellFormed data) (hrel : (packetOf data).isReliable = true) :
    (packetOf data).id ≠ invalidId := by
  obtain ⟨hheader, hid⟩ := header_of_le h.1
    ⟨(data.drop 13).take (Buffer.lengthPrefix data).toNat⟩
  rw [packetOf, Packet.isReliable, Packet.hasFlags, hheader] at hrel
  exact fun hzero ↦ h.2.2 hrel (hid.mp hzero)

theorem exists_received (h : WellFormed data) (build : Build) (c : Connection Buffer) :
    ∃ c', c.received build (packetOf data) = .ok c' := by
  apply (Connection.exists_received_iff build c _).mpr
  intro hrel hid
  exact absurd hid (h.id_ne_invalidId hrel)

/-- Decoding and `Received` come back. -/
theorem exists_decoded (h : WellFormed data) (hmax : data.length ≤ bufferMax) (build : Build)
    (c : Connection Buffer) : ∃ rest c',
      (Buffer.readPacket build).run ⟨data⟩ = .ok (packetOf data, rest) ∧
        c.received build (packetOf data) = .ok c' := by
  obtain ⟨rest, hread⟩ := h.readPacket hmax build
  obtain ⟨c', hc'⟩ := h.exists_received build c
  exact ⟨rest, c', hread, hc'⟩

end WellFormed

namespace Connection

theorem forall_received_iff {β : Type} (c : Connection β) (p : Packet β) :
    (∀ build, ∃ c', c.received build p = .ok c') ↔
      (p.isReliable = true → p.id ≠ invalidId) := by
  simp only [exists_received_iff, Harmless]
  constructor
  · intro h hrel hid
    exact absurd (h .debug hrel hid).1 (by decide)
  · intro h build hrel hid
    exact absurd hid (h hrel)

end Connection

theorem frame_of_wire {p : Packet Buffer} (h : p.payload.payload.length < 2 ^ 30) :
    (13 ≤ p.wire.length ∧ Buffer.lengthPrefix p.wire ≤ p.wire.length - 13) ∧
      packetOf p.wire = p := by
  have hlen := p.wire_length
  have hsmall : (p.wire ++ []).length < 2 ^ 31 := by
    rw [List.append_nil]
    omega
  have hread := Buffer.readPacket_wire .debug hsmall
  rw [List.append_nil, Buffer.readPacket_run .debug (by dsimp only; omega)] at hread
  split at hread
  · rename_i hframe
    exact ⟨hframe, congrArg Prod.fst (Except.ok.inj hread)⟩
  · cases hread

/-- A packet on the wire is well formed if it has an id or needs none. -/
theorem wellFormed_wire {p : Packet Buffer} (h : p.payload.payload.length < 2 ^ 30)
    (hid : p.isReliable = true → p.id ≠ invalidId) : WellFormed p.wire := by
  obtain ⟨⟨hlen, hclaimed⟩, hpacket⟩ := frame_of_wire h
  refine ⟨hlen, hclaimed, fun hrel hzero ↦ ?_⟩
  obtain ⟨hheader, hzero'⟩ := header_of_le hlen
    ⟨(p.wire.drop 13).take (Buffer.lengthPrefix p.wire).toNat⟩
  rw [← packetOf, hpacket] at hheader hzero'
  rw [← hheader] at hrel
  exact hid hrel (hzero'.mpr hzero)

/-- A datagram is processed exactly if it is well formed, in every state of the
connection. -/
theorem processed_iff_wellFormed (c : Connection Buffer) (data : List UInt8)
    (hmax : data.length ≤ bufferMax) : Processed c data ↔ WellFormed data := by
  have hlt : (Buffer.mk data).payload.length < 2 ^ 31 := by
    rw [bufferMax] at hmax
    dsimp only
    omega
  have hread : ∀ build, receivePath build c data =
      ((Buffer.readPacket build).run ⟨data⟩).bind fun r ↦ c.received build r.1 := by
    intro build
    rw [receivePath, Buffer.ofData_of_le build hmax, Fault.ok_bind]
    rfl
  simp only [Processed, hread, Buffer.readPacket_run _ hlt]
  by_cases hframe : 13 ≤ data.length ∧ Buffer.lengthPrefix data ≤ data.length - 13
  · obtain ⟨hlen, hclaimed⟩ := hframe
    simp only [hlen, hclaimed, and_self, if_true]
    have hiff := c.forall_received_iff (Buffer.header data
      ⟨(data.drop 13).take (Buffer.lengthPrefix data).toNat⟩)
    have hheader := header_of_le hlen ⟨(data.drop 13).take (Buffer.lengthPrefix data).toNat⟩
    refine hiff.trans ?_
    rw [Packet.isReliable, Packet.hasFlags, hheader.1, Ne, hheader.2]
    exact ⟨fun h ↦ ⟨hlen, hclaimed, h⟩, fun h ↦ h.2.2⟩
  · simp only [hframe, if_false]
    refine ⟨fun h ↦ ?_, fun h ↦ absurd ⟨h.1, h.2.1⟩ hframe⟩
    obtain ⟨c', hc'⟩ := h .debug
    cases hc'

/-- A reliable packet with an ack header and three bytes of payload, and two bytes
behind it that nobody reads. -/
def fullDatagram : List UInt8 := [17, 1, 0, 4, 0, 3, 0, 0, 0, 3, 0, 0, 0, 7, 8, 9, 1, 2]

theorem processed_full :
    Processed (.fresh {}) fullDatagram ∧ (packetOf fullDatagram).payload = ⟨[7, 8, 9]⟩ := by
  have hclaimed : Buffer.lengthPrefix fullDatagram = 3 := int32_of_lt (by decide)
  have hformed : WellFormed fullDatagram := by
    refine ⟨by decide, ?_, by decide⟩
    change Buffer.lengthPrefix fullDatagram ≤ _
    rw [hclaimed]
    decide
  refine ⟨(processed_iff_wellFormed _ _ (by decide)).mpr hformed, ?_⟩
  rw [packetOf, hclaimed]
  rfl

/-- The empty datagram, and a complete reliable packet with the id `0`. -/
theorem not_processed_empty_or_unnumbered :
    ¬ Processed (.fresh {}) [] ∧ ¬ Processed (.fresh {}) ([17, 0, 0] ++ List.replicate 10 0) := by
  refine ⟨fun h ↦ ?_, fun h ↦ ?_⟩
  · obtain ⟨c', hc'⟩ := h .release
    cases hc'
  · have hread : (Buffer.readPacket .debug).run ⟨[17, 0, 0] ++ List.replicate 10 0⟩ =
        .ok (Packet.make .data .reliable {}, {}) :=
      Buffer.readPacket_wire .debug (p := Packet.make .data .reliable {})
        (show (_ ++ []).length < _ by decide)
    obtain ⟨c', hc'⟩ := h .debug
    rw [receivePath, Buffer.ofData_of_le .debug (by decide), Fault.ok_bind, hread,
      Fault.ok_bind] at hc'
    cases hc'

end GioNet
