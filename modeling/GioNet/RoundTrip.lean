import GioNet.Values

/-!
# Reading back what was written

The values of a list are read back in the order in which they were written, each
read leaving the encoding of the values after it. What can fail is the assertion
in `Read<T>`, which compares the width of `T` with a length that wraps around at
`2 ^ 32` bytes.
-/

namespace GioNet

open Buffer (Access)

/-! ## The assertion -/

theorem le_sizeT_int32_iff {width total : ℕ} (hwidth : width ≤ 2 ^ 31) :
    width ≤ sizeT (int32 total) ↔ width ≤ total % 2 ^ 32 := by
  rw [int32_eq, sizeT, Int.bmod_def]
  split <;> omega

/-- The assertions hold in the reads of fields of these widths, one after the
other, when there are `total` bytes at the start. -/
def Clears : ℕ → List ℕ → Prop
  | _, [] => True
  | total, width :: widths => width ≤ total % 2 ^ 32 ∧ Clears (total - width) widths

instance : ∀ (total : ℕ) (widths : List ℕ), Decidable (Clears total widths)
  | _, [] => inferInstanceAs (Decidable True)
  | total, width :: widths =>
      have := instDecidableClears (total - width) widths
      inferInstanceAs (Decidable (width ≤ total % 2 ^ 32 ∧ Clears (total - width) widths))

theorem clears_append (total : ℕ) (widths widths' : List ℕ) :
    Clears total (widths ++ widths') ↔
      Clears total widths ∧ Clears (total - widths.sum) widths' := by
  induction widths generalizing total with
  | nil => simp [Clears]
  | cons width widths ih =>
      simp only [List.cons_append, Clears, ih, List.sum_cons, Nat.sub_sub, and_assoc]

/-- The build does not evaluate the assertions, or they hold. -/
def Passes (build : Build) (total : ℕ) (widths : List ℕ) : Prop :=
  build = .debug → Clears total widths

instance (build : Build) (total : ℕ) (widths : List ℕ) : Decidable (Passes build total widths) :=
  inferInstanceAs (Decidable (build = .debug → Clears total widths))

theorem passes_append (build : Build) (total : ℕ) (widths widths' : List ℕ) :
    Passes build total (widths ++ widths') ↔
      Passes build total widths ∧ Passes build (total - widths.sum) widths' := by
  simp only [Passes, clears_append, imp_and]

theorem passes_nil (build : Build) (total : ℕ) : Passes build total [] := fun _ ↦ trivial

/-- Less than `2 ^ 32` bytes do not make an assertion fail. -/
theorem clears_of_lt {total : ℕ} (h : total < 2 ^ 32) {widths : List ℕ}
    (hwidths : widths.sum ≤ total) : Clears total widths := by
  induction widths generalizing total with
  | nil => trivial
  | cons width widths ih =>
      rw [List.sum_cons] at hwidths
      refine ⟨?_, ih (by omega) (by omega)⟩
      rw [Nat.mod_eq_of_lt h]
      omega

/-! ## Single reads -/

/-- The access takes the bytes off the front and returns `a`, with fields of these
widths among the bytes; it fails if and only if an assertion does. -/
def Reads {α : Type} (build : Build) (x : Access α) (bytes : List UInt8) (widths : List ℕ)
    (a : α) : Prop :=
  ∀ rest, x.run ⟨bytes ++ rest⟩ =
    if Passes build (bytes.length + rest.length) widths then .ok (a, ⟨rest⟩)
    else .error .assertionFailed

theorem Reads.bind {α γ : Type} {build : Build} {x : Access α} {y : α → Access γ} {a : α} {c : γ}
    {bytes bytes' : List UInt8} {widths widths' : List ℕ} (hx : Reads build x bytes widths a)
    (hy : Reads build (y a) bytes' widths' c) (hsum : widths.sum = bytes.length) :
    Reads build (x >>= y) (bytes ++ bytes') (widths ++ widths') c := by
  intro rest
  have htotal : (bytes ++ bytes').length + rest.length =
      bytes.length + (bytes' ++ rest).length := by
    simp only [List.length_append, Nat.add_assoc]
  have hleft : bytes.length + (bytes' ++ rest).length - widths.sum =
      bytes'.length + rest.length := by
    rw [hsum, Nat.add_sub_cancel_left, List.length_append]
  rw [StateT.run_bind, List.append_assoc, hx, htotal]
  simp only [passes_append, hleft]
  by_cases hfirst : Passes build (bytes.length + (bytes' ++ rest).length) widths
  · rw [if_pos hfirst, Fault.ok_bind]
    simp only [hfirst, true_and]
    exact hy rest
  · rw [if_neg hfirst, Fault.error_bind, if_neg fun h ↦ hfirst h.1]

theorem Reads.map {α γ : Type} {build : Build} {x : Access α} {a : α} {bytes : List UInt8}
    {widths : List ℕ} (hx : Reads build x bytes widths a) (g : α → γ) :
    Reads build (do return g (← x)) bytes widths (g a) := by
  intro rest
  rw [StateT.run_bind, hx rest]
  split
  · rw [Fault.ok_bind, StateT.run_pure]
    rfl
  · rw [Fault.error_bind]

theorem reads_readInteger (build : Build) {width n : ℕ} (hwidth : width ≤ 2 ^ 31)
    (hn : n < 256 ^ width) :
    Reads build (Buffer.readInteger build width) (LittleEndian.encode width n) [width] n := by
  intro rest
  have hlength : (LittleEndian.encode width n).length = width := LittleEndian.encode_length _ _
  have hle : width ≤ (LittleEndian.encode width n ++ rest).length := by simp
  have hextract := Buffer.extractBytesFromPayload_of_le (b := ⟨_⟩) build hle
  have htake : (LittleEndian.encode width n ++ rest).take width = LittleEndian.encode width n :=
    List.take_left' hlength
  have hdrop : (LittleEndian.encode width n ++ rest).drop width = rest :=
    List.drop_left' hlength
  simp only [htake, hdrop] at hextract
  have hiff : width ≤ sizeT (Buffer.length ⟨LittleEndian.encode width n ++ rest⟩) ↔
      width ≤ (width + rest.length) % 2 ^ 32 := by
    rw [Buffer.length, le_sizeT_int32_iff hwidth, List.length_append, hlength]
  have hpasses : Passes build (width + rest.length) [width] ↔
      (build = .debug → width ≤ (width + rest.length) % 2 ^ 32) := by
    simp [Passes, Clears]
  simp only [hlength, hpasses]
  unfold Buffer.readInteger
  by_cases hle : build = .debug → width ≤ (width + rest.length) % 2 ^ 32
  · have hassert : build.assert
        (width ≤ sizeT (Buffer.length ⟨LittleEndian.encode width n ++ rest⟩)) = .ok () := by
      cases build with
      | release => rfl
      | debug => rw [decide_eq_true (hiff.mpr (hle rfl)), Build.assert_true]
    rw [if_pos hle]
    simp [hassert, hextract, LittleEndian.decode_encode hn]
  · obtain ⟨rfl, hlt⟩ : build = .debug ∧ ¬ width ≤ (width + rest.length) % 2 ^ 32 := by
      simpa only [Classical.not_imp] using hle
    have hassert : Build.debug.assert
        (width ≤ sizeT (Buffer.length ⟨LittleEndian.encode width n ++ rest⟩)) =
          .error .assertionFailed := by
      rw [decide_eq_false fun h ↦ hlt (hiff.mp h)]
      rfl
    rw [if_neg hle]
    simp [hassert]

theorem reads_readInt32 (build : Build) {n : ℕ} (hn : n < 2 ^ 31) :
    Reads build (Buffer.readInt32 build) (LittleEndian.encode 4 n) [4] (n : ℤ) := by
  have hread : Reads build (Buffer.readInteger build 4) (LittleEndian.encode 4 n) [4] n :=
    reads_readInteger build (by decide) (by omega)
  have h := hread.map int32
  rwa [int32_of_lt hn] at h

theorem reads_extractBytesFromPayload (build : Build) (bytes : List UInt8) :
    Reads build (Buffer.extractBytesFromPayload build bytes.length) bytes [] bytes := by
  intro rest
  have hle : bytes.length ≤ (bytes ++ rest).length := by simp
  have h := Buffer.extractBytesFromPayload_of_le (b := ⟨_⟩) build hle
  rw [if_pos (passes_nil _ _), h]
  simp

/-- What follows a length prefix: nothing is read if the length is zero. -/
theorem reads_if_pos {γ : Type} {build : Build} {bytes : List UInt8} {x : Access γ} {a e : γ}
    (hx : Reads build x bytes [] a) (he : bytes = [] → e = a) :
    Reads build (if 0 < (bytes.length : ℤ) then x else pure e) bytes [] a := by
  by_cases hpos : 0 < (bytes.length : ℤ)
  · rw [if_pos hpos]
    exact hx
  · have hempty : bytes = [] := List.eq_nil_iff_length_eq_zero.mpr (by omega)
    rw [if_neg hpos, he hempty, hempty]
    intro rest
    rw [if_pos (passes_nil _ _)]
    rfl

theorem reads_characters (build : Build) {bytes : List UInt8} (h : bytes.length < 2 ^ 31) :
    Reads build (Buffer.extractBytesFromPayload build (sizeT bytes.length)) bytes [] bytes := by
  rw [sizeT_natCast (by omega)]
  exact reads_extractBytesFromPayload build bytes

theorem reads_readString (build : Build) {s : StdString} (h : s.length < 2 ^ 31) :
    Reads build (Buffer.readString build) (Buffer.counted s) [4] s :=
  (reads_readInt32 build h).bind (reads_if_pos (reads_characters build h) Eq.symm) (by simp)

theorem reads_readBuffer (build : Build) {b : Buffer} (h : b.payload.length < 2 ^ 31) :
    Reads build (Buffer.readBuffer build) (Buffer.counted b.payload) [4] b := by
  apply (reads_readInt32 build h).bind _ (by simp)
  apply reads_if_pos ((reads_characters build h).map Buffer.mk)
  intro hempty
  rw [hempty]

theorem reads_readPacket (build : Build) {p : Packet Buffer}
    (h : p.payload.payload.length < 2 ^ 31) :
    Reads build (Buffer.readPacket build) p.wire [1, 2, 2, 4, 4] p := by
  have hinteger : ∀ width n, width ≤ 4 → n < 256 ^ width →
      Reads build (Buffer.readInteger build width) (LittleEndian.encode width n) [width] n :=
    fun width n hwidth hn ↦ reads_readInteger build (Nat.le_trans hwidth (by decide)) hn
  let assembled : Buffer → Packet Buffer := fun payload ↦
    { header := .ofNat p.header.toNat, id := .ofNat p.id.toNat, ackId := .ofNat p.ackId.toNat,
      ackBitset := .ofNat p.ackBitset.toNat, payload }
  have hassembled : assembled p.payload = p := by simp [assembled]
  have hpayload := (reads_readBuffer build h).map assembled
  rw [hassembled] at hpayload
  change Reads build _ (_ ++ (_ ++ (_ ++ (_ ++ Buffer.counted p.payload.payload))))
    ([1] ++ ([2] ++ ([2] ++ ([4] ++ [4])))) p
  refine (hinteger 1 _ (by decide) p.header.toNat_lt).bind ?_ (by simp)
  refine (hinteger 2 _ (by decide) p.id.toNat_lt).bind ?_ (by simp)
  refine (hinteger 2 _ (by decide) p.ackId.toNat_lt).bind ?_ (by simp)
  refine (hinteger 4 _ (by decide) p.ackBitset.toNat_lt).bind ?_ (by simp)
  exact hpayload

/-! ## Lists of values -/

namespace Value

/-- The widths of the integers in front of the text or the payload. -/
def fields : Value → List ℕ
  | .integer width _ => [width]
  | .string _ => [4]
  | .stringView _ => [4]
  | .buffer _ => [4]
  | .packet _ => [1, 2, 2, 4, 4]

theorem reads_type (build : Build) {v : Value} (h : v.WellSized) :
    Reads build (v.type.read build) v.encode v.fields v.owned := by
  cases v with
  | integer width n =>
      have hwidth : width ≤ 8 := h
      have hn : n.toNat < 256 ^ width := by
        have hlt := n.isLt
        rwa [Nat.pow_mul] at hlt
      have hread := (reads_readInteger build (Nat.le_trans hwidth (by decide)) hn).map
        fun n ↦ Value.integer width (.ofNat (8 * width) n)
      rwa [BitVec.ofNat_toNat, BitVec.setWidth_eq] at hread
  | string s => exact (reads_readString build h).map Value.string
  | stringView s => exact (reads_readString build h).map Value.string
  | buffer b => exact (reads_readBuffer build h).map Value.buffer
  | packet p => exact (reads_readPacket build h).map Value.packet

/-- The values are read back in turn; each read leaves what writing the others to
an empty buffer gives, and the last one an empty buffer. -/
def ReadsBack (build : Build) : List Value → Buffer → Prop
  | [], b => b = {}
  | v :: vs, b => ∃ b', (v.type.read build).run b = .ok (v.owned, b') ∧
      (writeAll vs).run {} = .ok ((), b') ∧ ReadsBack build vs b'

/-- The values are written to a buffer that holds `c`, the bytes of `c` are taken
off the front, and the values are read back. -/
def RoundTrips (build : Build) (c : Buffer) (vs : List Value) : Prop :=
  ∃ b b', (writeAll vs).run c = .ok ((), b) ∧
    (Buffer.extractBytesFromPayload build c.payload.length).run b = .ok (c.payload, b') ∧
      (writeAll vs).run {} = .ok ((), b') ∧ ReadsBack build vs b'

/-- No assertion fails when the values are read from their encodings. -/
def AllPass (build : Build) (vs : List Value) : Prop :=
  ∀ before v after, vs = before ++ v :: after →
    Passes build (encodeAll (v :: after)).length v.fields

theorem allPass_cons (build : Build) (v : Value) (vs : List Value) :
    AllPass build (v :: vs) ↔
      Passes build (encodeAll (v :: vs)).length v.fields ∧ AllPass build vs := by
  constructor
  · intro h
    refine ⟨h [] v vs rfl, fun before u after heq ↦ ?_⟩
    exact h (v :: before) u after (by rw [heq, List.cons_append])
  · rintro ⟨hfirst, hrest⟩ before u after heq
    cases before with
    | nil =>
        obtain ⟨rfl, rfl⟩ := List.cons.inj heq
        exact hfirst
    | cons w before =>
        obtain ⟨rfl, hvs⟩ := List.cons.inj heq
        exact hrest before u after hvs

theorem fields_sum_le (v : Value) : v.fields.sum ≤ v.encode.length := by
  cases v with
  | packet p =>
      rw [encode, p.wire_length]
      exact Nat.le_add_right 13 _
  | _ => simp [fields, encode, Buffer.counted]

theorem allPass_of_lt (build : Build) {vs : List Value} (h : (encodeAll vs).length < 2 ^ 32) :
    AllPass build vs := by
  rintro before v after rfl -
  have hlast : (encodeAll (v :: after)).length ≤
      (encodeAll (before ++ v :: after)).length := by
    simp [encodeAll]
  apply clears_of_lt (Nat.lt_of_le_of_lt hlast h)
  rw [encodeAll_cons, List.length_append]
  exact Nat.le_trans v.fields_sum_le (Nat.le_add_right _ _)

theorem writeAll_empty {vs : List Value} (h : ∀ v ∈ vs, v.WellSized)
    (hfits : (encodeAll vs).length ≤ vectorMax) :
    (writeAll vs).run {} = .ok ((), ⟨encodeAll vs⟩) := by
  have hrun := extends_writeAll h {} (Nat.zero_le _)
  rwa [if_pos (by simpa using hfits)] at hrun

theorem readsBack_iff (build : Build) {vs : List Value} (h : ∀ v ∈ vs, v.WellSized)
    (hfits : (encodeAll vs).length ≤ vectorMax) :
    ReadsBack build vs ⟨encodeAll vs⟩ ↔ AllPass build vs := by
  induction vs with
  | nil => simp [ReadsBack, AllPass, encodeAll]
  | cons v vs ih =>
      have hrest : ∀ u ∈ vs, u.WellSized := fun u hu ↦ h u (List.mem_cons_of_mem v hu)
      have hfitsRest : (encodeAll vs).length ≤ vectorMax := by
        rw [encodeAll_cons, List.length_append] at hfits
        exact Nat.le_trans (Nat.le_add_left _ _) hfits
      have hread := reads_type build (h v List.mem_cons_self) (encodeAll vs)
      rw [← List.length_append, ← encodeAll_cons] at hread
      rw [allPass_cons, ← ih hrest hfitsRest, ReadsBack, hread]
      constructor
      · rintro ⟨b', hok, -, hback⟩
        by_cases hpasses : Passes build (encodeAll (v :: vs)).length v.fields
        · rw [if_pos hpasses] at hok
          obtain rfl : Buffer.mk (encodeAll vs) = b' :=
            congrArg Prod.snd (Except.ok.inj hok)
          exact ⟨hpasses, hback⟩
        · rw [if_neg hpasses] at hok
          cases hok
      · rintro ⟨hpasses, hback⟩
        exact ⟨_, if_pos hpasses, writeAll_empty hrest hfitsRest, hback⟩

/-- Writing and reading back works exactly if a vector can hold all bytes and,
where assertions are evaluated, the number of bytes modulo `2 ^ 32` is never less
than the width of the integer that is read. -/
theorem roundTrips_iff (build : Build) {c : Buffer} (hc : c.payload.length ≤ vectorMax)
    {vs : List Value} (h : ∀ v ∈ vs, v.WellSized) :
    RoundTrips build c vs ↔
      c.payload.length + (encodeAll vs).length ≤ vectorMax ∧ AllPass build vs := by
  have hwrite := extends_writeAll h c hc
  by_cases hfits : c.payload.length + (encodeAll vs).length ≤ vectorMax
  · have hfitsAll : (encodeAll vs).length ≤ vectorMax :=
      Nat.le_trans (Nat.le_add_left _ _) hfits
    have hextract := reads_extractBytesFromPayload build c.payload (encodeAll vs)
    rw [if_pos (passes_nil _ _)] at hextract
    rw [if_pos hfits] at hwrite
    rw [← readsBack_iff build h hfitsAll]
    constructor
    · rintro ⟨b, b', -, -, hempty, hback⟩
      have hencode := (writeAll_empty h hfitsAll).symm.trans hempty
      obtain rfl : Buffer.mk (encodeAll vs) = b' := congrArg Prod.snd (Except.ok.inj hencode)
      exact ⟨hfits, hback⟩
    · rintro ⟨-, hback⟩
      exact ⟨_, _, hwrite, hextract, writeAll_empty h hfitsAll, hback⟩
  · rw [if_neg hfits] at hwrite
    constructor
    · rintro ⟨b, b', hok, -⟩
      cases hwrite.symm.trans hok
    · rintro ⟨hfits', -⟩
      exact absurd hfits' hfits

theorem roundTrips_nested :
    RoundTrips .debug ⟨[7, 7, 7]⟩ [.integer 4 10, .string [72, 105], .stringView [],
      .packet { Packet.make .data .reliable ⟨[1, 0, 0, 0, 9]⟩ with id := 3 }] := by
  refine (roundTrips_iff .debug (by decide) ?_).mpr ⟨by decide, ?_⟩
  · simp [WellSized, Packet.make, Packet.setFlags]
  · exact allPass_of_lt _ (by decide)

/-- Two strings whose encodings have `2 ^ 32` bytes together are written, but the
first read fails its assertion. -/
theorem not_roundTrips_long :
    ¬ ∀ (build : Build) (c : Buffer) (vs : List Value), c.payload.length ≤ vectorMax →
      (∀ v ∈ vs, v.WellSized) → c.payload.length + (encodeAll vs).length ≤ vectorMax →
        RoundTrips build c vs := by
  intro hall
  obtain ⟨s, hs⟩ : ∃ s : StdString, s.length = 2 ^ 31 - 1 :=
    ⟨List.replicate _ 0, List.length_replicate⟩
  obtain ⟨t, ht⟩ : ∃ t : StdString, t.length = 2 ^ 31 - 7 :=
    ⟨List.replicate _ 0, List.length_replicate⟩
  have hsizes : ∀ v ∈ [Value.string s, Value.string t], v.WellSized := by
    simp [WellSized, hs, ht]
  have hlength : (encodeAll [.string s, .string t]).length = 2 ^ 32 := by
    simp [encodeAll, encode, Buffer.counted, hs, ht]
  have hfits : (encodeAll [.string s, .string t]).length ≤ vectorMax := by
    rw [hlength, vectorMax]
    decide
  obtain ⟨b, b', -, -, hempty, b'', hread, -⟩ := hall .debug {} [.string s, .string t]
    (Nat.zero_le _) hsizes (by simpa using hfits)
  obtain rfl : Buffer.mk (encodeAll [.string s, .string t]) = b' :=
    congrArg Prod.snd (Except.ok.inj ((writeAll_empty hsizes hfits).symm.trans hempty))
  have hfields : ¬ Passes .debug (2 ^ 32) (string s).fields := by
    change ¬ Passes .debug (2 ^ 32) [4]
    decide
  have hfails := reads_type .debug (hsizes _ List.mem_cons_self) (encodeAll [.string t])
  rw [← List.length_append, ← encodeAll_cons, hlength, if_neg hfields] at hfails
  cases hfails.symm.trans hread

end Value

end GioNet
