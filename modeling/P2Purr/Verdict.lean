import P2Purr.Building
import P2Purr.Decoding

namespace P2Purr
open Memory Loop Serializer

theorem exists_three {s : List Byte} (h : 3 ≤ s.length) :
    ∃ v₀ v₁ v₂ rest, s = v₀ :: v₁ :: v₂ :: rest := by
  match s, h with
  | v₀ :: v₁ :: v₂ :: rest, _ => exact ⟨v₀, v₁, v₂, rest, rfl⟩

theorem exists_twelve {s : List Byte} (h : 12 ≤ s.length) :
    ∃ v₀ v₁ v₂ v₃ v₄ v₅ v₆ v₇ v₈ v₉ v₁₀ v₁₁ rest,
      s = v₀ :: v₁ :: v₂ :: v₃ :: v₄ :: v₅ :: v₆ :: v₇ :: v₈ :: v₉ :: v₁₀ :: v₁₁ :: rest := by
  match s, h with
  | v₀ :: v₁ :: v₂ :: v₃ :: v₄ :: v₅ :: v₆ :: v₇ :: v₈ :: v₉ :: v₁₀ :: v₁₁ :: rest, _ =>
    exact ⟨v₀, v₁, v₂, v₃, v₄, v₅, v₆, v₇, v₈, v₉, v₁₀, v₁₁, rest, rfl⟩

theorem Fields.append {p : Packet} {s : List Byte} (h : Fields p s) (h12 : 12 ≤ s.length)
    (t : List Byte) : Fields p (s ++ t) where
  type := by rw [List.getElem?_append_left (by omega)]; exact h.type
  charset := by rw [List.getElem?_append_left (by omega)]; exact h.charset
  encoding := by rw [List.getElem?_append_left (by omega)]; exact h.encoding
  encryption := by rw [List.getElem?_append_left (by omega)]; exact h.encryption
  compression := by rw [List.getElem?_append_left (by omega)]; exact h.compression
  hdr_len := by rw [hdrField_append (by omega)]; exact h.hdr_len
  full_hdr_len := by rw [hdrEnd_append (by omega)]; exact h.full_hdr_len
  payload_len := by rw [payloadField_append h12]; exact h.payload_len

def OutFile.written (o : OutFile) (f : List Byte) : OutFile :=
  if f[3]? = some genericFile ∧ o.opens = true then { o with content := some (f.drop (hdrEnd f)) }
  else o

namespace Decoder

variable {d : Decoder} {acc fresh : List Byte} {total : ℕ}

structure Headed (d : Decoder) (acc fresh : List Byte) (total : ℕ) : Prop
    extends Reading d acc fresh total where
  header_read : hdrEnd acc ≤ acc.length
  header_min : 9 ≤ hdrField acc
  fields : Fields d.pkt acc
  index_eq : d.currBuffIdx = d.pkt.buffNext
  allocated : ∃ pld, d.pkt.payload = some pld
  file_eq : d.pkt.hasFileAttachment = (d.pkt.type == genericFile)

section RebuildHeader

variable (h : Reading d acc fresh total) (h3 : 3 ≤ acc.length) (hle : hdrEnd acc ≤ acc.length)

include h h3 hle

theorem header_block : ∃ hdr b₁ b₂, d.pkt.header = some hdr ∧ hdr.size = hdrEnd acc ∧
    hdr.HoldsAt 0 (acc.take (hdrEnd acc)) ∧ hdr.load 1 = .ok b₁ ∧ hdr.load 2 = .ok b₂ ∧
    (deserializeInt16 b₁ b₂).toNat = hdrField acc := by
  obtain ⟨hdr, hhdr, hsize, hold⟩ := h.decoding.header h3
  match acc, h3 with
  | v₀ :: v₁ :: v₂ :: rest, _ =>
    have hload₁ := hold.load_eq (i := 1) (v := v₁) rfl
    have hload₂ := hold.load_eq (i := 2) (v := v₂) rfl
    simp only [Nat.zero_add] at hload₁ hload₂
    exact ⟨hdr, v₁, v₂, hhdr, hsize, hold, hload₁, hload₂, deserializeInt16_toNat v₁ v₂⟩

theorem rebuildHeader_zero (hz : hdrField acc = 0) :
    ∃ d', d.rebuildHeader = throwPacket "Got a header length of zero or less\n" d' ∧
      SameShared d d' ∧ Decoding d'.pkt acc ∧ d'.currBuffIdx = d.currBuffIdx := by
  obtain ⟨hdr, b₁, b₂, hhdr, hsize, hold, hload₁, hload₂, hlen⟩ := header_block h h3 hle
  refine ⟨{ d with pkt.hdrLen := 0 }, ?_, ⟨rfl, rfl⟩, h.decoding.congr rfl rfl rfl rfl rfl rfl, rfl⟩
  simp only [rebuildHeader, hhdr, deref_some, access_ok, ok_bind, hload₁, hload₂, hlen, hz, le_refl,
    ↓reduceIte]

/-- A header block with fewer than twelve bytes is read past its end. -/
theorem rebuildHeader_short (hpos : hdrField acc ≠ 0) (hlt : hdrField acc < 9) :
    d.rebuildHeader = .error (.halt (.fault .outOfBounds)) := by
  obtain ⟨hdr, b₁, b₂, hhdr, hsize, hold, hload₁, hload₂, hlen⟩ := header_block h h3 hle
  have htake : (acc.take (hdrEnd acc)).length = hdrEnd acc := by
    rw [List.length_take]
    omega
  have hload : ∀ i, (∃ v, hdr.load i = .ok v) ∨ hdr.load i = .error .outOfBounds := by
    intro i
    by_cases hi : i < hdr.size
    · have hi' : i < (acc.take (hdrEnd acc)).length := by omega
      have := hold.load_eq (List.getElem?_eq_getElem hi')
      rw [Nat.zero_add] at this
      exact Or.inl ⟨_, this⟩
    · exact Or.inr (if_neg hi)
  have hlast : hdr.load 11 = .error .outOfBounds := if_neg (by rw [hsize, hdrEnd]; omega)
  have hpos' : ¬ hdrField acc ≤ 0 := by omega
  simp only [rebuildHeader, hhdr, deref_some, access_ok, ok_bind, hload₁, hload₂, hlen, hpos',
    ↓reduceIte]
  -- the first of the remaining loads that is past the end ends the call
  rcases hload 3 with ⟨v₃, h₃⟩ | h₃ <;> simp only [h₃, access_ok, access_error, ok_bind, error_bind]
  rcases hload 4 with ⟨v₄, h₄⟩ | h₄ <;> simp only [h₄, access_ok, access_error, ok_bind, error_bind]
  rcases hload 5 with ⟨v₅, h₅⟩ | h₅ <;> simp only [h₅, access_ok, access_error, ok_bind, error_bind]
  rcases hload 6 with ⟨v₆, h₆⟩ | h₆ <;> simp only [h₆, access_ok, access_error, ok_bind, error_bind]
  rcases hload 7 with ⟨v₇, h₇⟩ | h₇ <;> simp only [h₇, access_ok, access_error, ok_bind, error_bind]
  have hall : hdr.loadAll 8 4 = .error .outOfBounds := by
    rcases hload 8 with ⟨v₈, h₈⟩ | h₈ <;> rcases hload 9 with ⟨v₉, h₉⟩ | h₉ <;>
      rcases hload 10 with ⟨v₁₀, h₁₀⟩ | h₁₀ <;>
      simp [Block.loadAll, h₈, h₉, h₁₀, hlast, Except.map]
  simp only [hall, access_error, error_bind]

theorem payload_block : ∃ pld : Block,
    (d.pkt.payload = some pld ∨ d.pkt.payload = none ∧
      (Block.malloc (payloadField acc)).memset 0 (payloadField acc) = .ok pld) ∧
    pld.size = payloadField acc ∧ pld.HoldsAt 0 (acc.drop (hdrEnd acc)) := by
  cases hp : d.pkt.payload with
  | some pld =>
    have hpld := h.decoding.payload pld hp
    exact ⟨pld, Or.inl rfl, hpld.2.2⟩
  | none =>
    have hexact : acc.length = hdrEnd acc := by
      by_contra hne
      obtain ⟨-, -, pld, hpld⟩ := h.decoding.body h3 (by omega)
      rw [hp] at hpld
      cases hpld
    refine ⟨_, Or.inr ⟨rfl, if_pos (by simp)⟩, rfl, ?_⟩
    rw [List.drop_of_length_le (by omega)]
    exact Block.holdsAt_nil (by simp)

structure HeaderReads (d : Decoder) (acc : List Byte) (hdr : Block)
    (b₁ b₂ type charset encoding encryption compression : Byte) (length : List Byte) : Prop where
  header : d.pkt.header = some hdr
  load₁ : hdr.load 1 = .ok b₁
  load₂ : hdr.load 2 = .ok b₂
  hdr_len : (deserializeInt16 b₁ b₂).toNat = hdrField acc
  load₃ : hdr.load 3 = .ok type
  load₄ : hdr.load 4 = .ok charset
  load₅ : hdr.load 5 = .ok encoding
  load₆ : hdr.load 6 = .ok encryption
  load₇ : hdr.load 7 = .ok compression
  load₈ : hdr.loadAll 8 4 = .ok length
  payload_len : (deserializeInt32 length).toNat = payloadField acc
  type_eq : acc[3]? = some type
  charset_eq : acc[4]? = some charset
  encoding_eq : acc[5]? = some encoding
  encryption_eq : acc[6]? = some encryption
  compression_eq : acc[7]? = some compression

theorem headerReads (hmin : 9 ≤ hdrField acc) :
    ∃ hdr b₁ b₂ type charset encoding encryption compression length,
      HeaderReads d acc hdr b₁ b₂ type charset encoding encryption compression length := by
  obtain ⟨hdr, b₁, b₂, hhdr, -, hold, hload₁, hload₂, hlen⟩ := header_block h h3 hle
  have hload : ∀ {i v}, i < 12 → acc[i]? = some v → hdr.load i = .ok v := by
    intro i v hi hv
    have hi' : i < hdrEnd acc := by simp only [hdrEnd]; omega
    have := hold.load_eq (i := i) (v := v) (by rw [List.getElem?_take_of_lt hi']; exact hv)
    rwa [Nat.zero_add] at this
  obtain ⟨v₀, v₁, v₂, v₃, v₄, v₅, v₆, v₇, v₈, v₉, v₁₀, v₁₁, rest, hacc⟩ :=
    exists_twelve (s := acc) (by simp only [hdrEnd] at hle; omega)
  have h₈ : hdr.load 8 = .ok v₈ := hload (by omega) (by rw [hacc]; rfl)
  have h₉ : hdr.load 9 = .ok v₉ := hload (by omega) (by rw [hacc]; rfl)
  have h₁₀ : hdr.load 10 = .ok v₁₀ := hload (by omega) (by rw [hacc]; rfl)
  have h₁₁ : hdr.load 11 = .ok v₁₁ := hload (by omega) (by rw [hacc]; rfl)
  have hall : hdr.loadAll 8 4 = .ok [v₈, v₉, v₁₀, v₁₁] := by
    simp [Block.loadAll, h₈, h₉, h₁₀, h₁₁, Except.map]
  have hn : (deserializeInt32 [v₈, v₉, v₁₀, v₁₁]).toNat = payloadField acc := by
    rw [deserializeInt32_toNat rfl, hacc]
    rfl
  have h₃ : acc[3]? = some v₃ := by rw [hacc]; rfl
  have h₄ : acc[4]? = some v₄ := by rw [hacc]; rfl
  have h₅ : acc[5]? = some v₅ := by rw [hacc]; rfl
  have h₆ : acc[6]? = some v₆ := by rw [hacc]; rfl
  have h₇ : acc[7]? = some v₇ := by rw [hacc]; rfl
  exact ⟨hdr, b₁, b₂, v₃, v₄, v₅, v₆, v₇, _, hhdr, hload₁, hload₂, hlen, hload (by omega) h₃,
    hload (by omega) h₄, hload (by omega) h₅, hload (by omega) h₆, hload (by omega) h₇, hall, hn,
    h₃, h₄, h₅, h₆, h₇⟩

theorem rebuildHeader_fields (hmin : 9 ≤ hdrField acc) :
    (payloadField acc = 0 →
      ∃ d', d.rebuildHeader = throwPacket "Got a payload length of zero or less\n" d' ∧
        SameShared d d' ∧ Decoding d'.pkt acc ∧ d'.currBuffIdx = d.currBuffIdx) ∧
    (payloadField acc ≠ 0 →
      ∃ d', d.rebuildHeader = .ok d' ∧ SameShared d d' ∧ Headed d' acc fresh total) := by
  obtain ⟨hdr, b₁, b₂, v₃, v₄, v₅, v₆, v₇, length, hr⟩ := headerReads h h3 hle hmin
  have hfull : d.pkt.fullHdrLen = hdrEnd acc := by
    rcases h.decoding.full h3 with hf | ⟨-, hz⟩
    · exact hf
    · omega
  have hpos' : ¬ hdrField acc ≤ 0 := by omega
  let d₁ : Decoder := { d with
    pkt.hdrLen := hdrField acc, pkt.type := v₃, pkt.charset := v₄, pkt.encoding := v₅
    pkt.encryption := v₆, pkt.compression := v₇, pkt.payloadLen := payloadField acc }
  constructor
  · intro hz
    refine ⟨d₁, ?_, ⟨rfl, rfl⟩, h.decoding.congr rfl rfl rfl rfl rfl rfl, rfl⟩
    simp only [rebuildHeader, hr.header, deref_some, access_ok, ok_bind, hr.load₁, hr.load₂,
      hr.hdr_len, hpos', ↓reduceIte, hr.load₃, hr.load₄, hr.load₅, hr.load₆, hr.load₇, hr.load₈,
      hr.payload_len, hz, le_refl, d₁]
  · intro hz
    have hz' : ¬ payloadField acc ≤ 0 := by omega
    -- a flag set by an earlier call was set from the same byte
    have hfile : (d.pkt.hasFileAttachment || v₃ == genericFile) = (v₃ == genericFile) := by
      cases hf : d.pkt.hasFileAttachment with
      | false => simp
      | true =>
        have hv₃ := (h.decoding.file hf).2.2
        rw [hr.type_eq] at hv₃
        simp [Option.some.inj hv₃]
    obtain ⟨pld, hpld, hpldsize, hbody⟩ := payload_block h h3 hle
    let d₂ : Decoder := { d₁ with
      pkt.payload := some pld, pkt.hasFileAttachment := v₃ == genericFile }
    have hnext : (d₂.pkt.buffNext : ℤ) ≤ d₂.pkt.buffTotalLen := by
      have := h.next_eq
      simp only [d₂, d₁, h.total_eq]
      omega
    refine ⟨{ d₂ with currBuffIdx := d₂.pkt.buffNext }, ?_, ⟨rfl, rfl⟩, ⟨⟨?_, h.total_eq, h.next_eq,
      h.holds⟩, hle, hmin, ?_, rfl, ⟨pld, rfl⟩, rfl⟩⟩
    · rw [← updateBuffIdx_eq hnext]
      simp only [rebuildHeader, hr.header, deref_some, access_ok, ok_bind, hr.load₁, hr.load₂,
        hr.hdr_len, hpos', ↓reduceIte, hr.load₃, hr.load₄, hr.load₅, hr.load₆, hr.load₇, hr.load₈,
        hr.payload_len, hz', pure_eq_ok]
      rcases hpld with hpld | ⟨hnone, hset⟩
      · simp only [hpld, hr.header, hfile, d₂, d₁]
      · simp only [hnone, hset, access_ok, ok_bind, hr.header, hfile, d₂, d₁]
    · have hd := h.decoding
      exact ⟨hd.attached, hd.read, fun h' => by omega, hd.marker, hd.header_max, hd.header, hd.full,
        fun pld' h' => by
          obtain rfl := Option.some.inj h'
          exact ⟨hle, hmin, hpldsize, hbody⟩,
        fun h₁ h₂ => ⟨(hd.body h₁ h₂).1, (hd.body h₁ h₂).2.1, pld, rfl⟩,
        fun h' => ⟨hle, hmin, by rw [hr.type_eq]; simpa [d₂] using h'⟩⟩
    · exact ⟨hr.type_eq, hr.charset_eq, hr.encoding_eq, hr.encryption_eq, hr.compression_eq, rfl,
        hfull, rfl⟩

end RebuildHeader

theorem output_eq {f : List Byte} (hfile : d.pkt.hasFileAttachment = (d.pkt.type == genericFile))
    (htype : f[3]? = some d.pkt.type) (hget : d.pkt.getPayload = .ok (f.drop (hdrEnd f))) :
    (if d.pkt.hasFileAttachment then d.outputToFile else pure d) =
      .ok { d with outFile := d.outFile.written f } := by
  rw [hfile]
  by_cases hgeneric : d.pkt.type = genericFile
  · cases hopens : d.outFile.opens with
    | true => simp [hgeneric, outputToFile, OutFile.written, htype, hget, hopens]
    | false => simp [hgeneric, outputToFile, OutFile.written, htype, hopens]
  · simp [hgeneric, OutFile.written, htype]

/-- Bytes are missing: the packet stays as it is, and pending. -/
theorem finish_of_pos (hpos : 0 < i32 (d.pkt.pktLen - d.pkt.numBytesRead))
    (hnext : (d.pkt.buffNext : ℤ) ≤ d.pkt.buffTotalLen) :
    d.finish = .ok { d with currBuffIdx := d.pkt.buffNext, pkt := d.pkt.setBuildPending true } := by
  simp only [finish]
  rw [if_pos hpos, updateBuffIdx_eq hnext]
  rfl

/-- Nothing is missing: the file is written before the packet is put together. -/
theorem finish_of_zero {f : List Byte} {built : Block}
    (hzero : i32 (d.pkt.pktLen - d.pkt.numBytesRead) = 0)
    (houtput : (if d.pkt.hasFileAttachment then d.outputToFile else pure d) =
      .ok { d with outFile := d.outFile.written f })
    (hmake : d.pkt.makePkt = .ok { d.pkt with builtPkt := some built })
    (hnext : (d.pkt.buffNext : ℤ) ≤ d.pkt.buffTotalLen) :
    d.finish = .ok { d with
      outFile := d.outFile.written f, currBuffIdx := d.pkt.buffNext
      pkt := { d.pkt with builtPkt := some built }.setBuildPending false } := by
  let d' : Decoder :=
    { d with outFile := d.outFile.written f, pkt := { d.pkt with builtPkt := some built } }
  have hupdate : d'.updateBuffIdx = .ok { d' with currBuffIdx := d'.pkt.buffNext } :=
    updateBuffIdx_eq hnext
  simp only [finish, hzero, lt_irrefl, ↓reduceIte]
  rw [houtput, access_ok, ok_bind]
  change (access d.pkt.makePkt >>= _) = _
  rw [hmake, access_ok, ok_bind]
  change (d'.updateBuffIdx >>= _) = _
  rw [hupdate]
  rfl

theorem finish_of_neg (hneg : i32 (d.pkt.pktLen - d.pkt.numBytesRead) < 0) :
    d.finish =
      throwPacket "Something is wrong number of bytes remaining is negative\n" d := by
  simp only [finish]
  rw [if_neg (by omega), if_neg (by omega)]

namespace Headed

variable (h : Headed d acc fresh total)

include h

theorem full_hdr_len : d.pkt.fullHdrLen = hdrEnd acc := h.fields.full_hdr_len

theorem three_le : 3 ≤ acc.length := by
  have := h.header_read
  simp only [hdrEnd] at this
  omega

theorem twelve_le : 12 ≤ acc.length := by
  have := h.header_read
  have := h.header_min
  simp only [hdrEnd] at *
  omega

theorem length_le : acc.length ≤ frameSize acc := by
  by_cases hlt : hdrEnd acc < acc.length
  · exact (h.decoding.body h.three_le hlt).2.1.le
  · simp only [frameSize]
    omega

theorem pktLen_eq (hlt : frameSize acc < 2 ^ 31) :
    i32 (u32 (d.pkt.fullHdrLen + d.pkt.payloadLen)) = frameSize acc := by
  have hsmall := u32_of_small (n := frameSize acc) (by omega)
  rw [h.full_hdr_len, h.fields.payload_len, ← Nat.cast_add, ← frameSize, hsmall, i32_of_small] <;>
    omega

/-- The payload loop takes the fresh bytes up to the end of the frame. -/
theorem collectPayload_eq (hpkt : d.pkt.pktLen = frameSize acc) :
    ∃ pld, pld.size = payloadField acc ∧
      pld.HoldsAt 0 ((acc ++ fresh.take (frameSize acc - acc.length)).drop (hdrEnd acc)) ∧
      d.collectPayload = .ok { d with
        pkt.numBytesRead := acc.length + min fresh.length (frameSize acc - acc.length)
        pkt.buffNext := d.pkt.buffNext + min fresh.length (frameSize acc - acc.length)
        pkt.payload := some pld
        currBuffIdx := d.pkt.buffNext + min fresh.length (frameSize acc - acc.length) } := by
  obtain ⟨pld, hpld⟩ := h.allocated
  obtain ⟨-, -, hsize, hbody⟩ := h.decoding.payload pld hpld
  have hread := h.decoding.read
  have hidx := h.index_eq
  have hnext := h.next_eq
  have hle := h.header_read
  have hmax := h.length_le
  have hlen : (acc.drop (hdrEnd acc)).length = acc.length - hdrEnd acc := List.length_drop
  have hmissing : pld.size - (acc.drop (hdrEnd acc)).length = frameSize acc - acc.length := by
    rw [hsize, hlen]
    simp only [frameSize] at hmax ⊢
    omega
  obtain ⟨pld', hsize', hold, hloop⟩ := PayloadLoop.loop_payload
    (s := { toDecoder := d, pld := d.pkt.numBytesRead - d.pkt.fullHdrLen, idx := d.currBuffIdx })
    (n := (d.pkt.buffTotalLen - d.currBuffIdx).toNat)
    (by simp only [hread, h.full_hdr_len, hlen]) hpld
    (by rw [hmissing]; simp only [hpkt, hread]; omega) hbody h.holds
    (by simp only [h.total_eq, hidx]; omega) (by rw [h.total_eq, hidx]; omega)
  rw [hmissing] at hold hloop
  refine ⟨pld', hsize'.trans hsize, ?_, ?_⟩
  · rw [List.drop_append_of_le_length hle]
    rwa [min_comm, ← List.take_take, List.take_length] at hold
  · rw [collectPayload, hloop, ok_bind]
    simp only [PayloadLoop.advance, hread, hidx, pure_eq_ok]

theorem finish_pending (hu : Usable acc) (hpkt : d.pkt.pktLen = frameSize acc)
    (hlt : acc.length + fresh.length < frameSize acc) :
    ∃ d', (d.collectPayload >>= finish) = .ok d' ∧ SameShared d d' ∧
      Decoding d'.pkt (acc ++ fresh) ∧ d'.currBuffIdx = total ∧ d'.pkt.pktBuilt = false := by
  obtain ⟨pld, hsize, hold, hcollect⟩ := h.collectPayload_eq hpkt
  have hle := h.header_read
  have hmin := h.header_min
  have h3 := h.three_le
  have h12 := h.twelve_le
  have hnext := h.next_eq
  have hd := h.decoding
  rw [List.take_of_length_le (by omega)] at hold
  rw [Nat.min_eq_left (by omega), hnext] at hcollect
  let d₁ : Decoder := { d with
    pkt.numBytesRead := acc.length + fresh.length, pkt.buffNext := total
    pkt.payload := some pld, currBuffIdx := total }
  have hmissing : 0 < i32 (d₁.pkt.pktLen - d₁.pkt.numBytesRead) := by
    have := hu.size_lt
    simp only [d₁, hpkt]
    rw [i32_of_small] <;> omega
  refine ⟨{ d₁ with pkt := d₁.pkt.setBuildPending true }, ?_, ⟨rfl, rfl⟩, ?_, rfl, rfl⟩
  · rw [hcollect, ok_bind]
    exact finish_of_pos hmissing (by simp only [h.total_eq, le_refl])
  · obtain ⟨hdr, hhdr, hsize', hold'⟩ := hd.header h3
    have hend := hdrEnd_append h3 fresh
    have hpldlen := payloadField_append h12 fresh
    refine ⟨hd.attached, by simp [d₁, Packet.setBuildPending_true], fun h' => by simp at h'; omega,
      fun _ => by rw [List.head?_append, hd.marker h3]; rfl,
      fun _ => by rw [hdrField_append h3]; exact hd.header_max h3,
      fun _ => ⟨hdr, hhdr, by rw [hend, hsize'], ?_⟩, fun _ => Or.inl ?_, fun pld' h' => ?_,
      fun _ _ => ⟨(usable_append h12 fresh).mpr hu, ?_, pld, rfl⟩, fun h' => ?_⟩
    · rwa [hend, List.take_append_of_le_length hle]
    · rw [hend]
      exact h.full_hdr_len
    · obtain rfl : pld = pld' := Option.some.inj h'
      rw [hend, hdrField_append h3, hpldlen]
      exact ⟨by simp; omega, hmin, hsize, hold⟩
    · rw [frameSize_append h12]
      simpa using hlt
    · obtain ⟨-, -, hthird⟩ := hd.file h'
      rw [hend, hdrField_append h3, List.getElem?_append_left (by omega)]
      exact ⟨by simp; omega, hmin, hthird⟩

theorem finish_complete (hu : Usable acc) (hpkt : d.pkt.pktLen = frameSize acc)
    (hge : frameSize acc ≤ acc.length + fresh.length) :
    ∃ d', (d.collectPayload >>= finish) = .ok d' ∧ d'.buffer = d.buffer ∧
      d'.outFile = d.outFile.written ((acc ++ fresh).take (frameSize acc)) ∧
      Carries d'.pkt ((acc ++ fresh).take (frameSize acc)) ∧
      d'.pkt.hasFileAttachment = (d'.pkt.type == genericFile) ∧
      d'.currBuffIdx + ((acc ++ fresh).drop (frameSize acc)).length = total := by
  obtain ⟨pld, hsize, hold, hcollect⟩ := h.collectPayload_eq hpkt
  obtain ⟨hdr, hhdr, -, hhold⟩ := h.decoding.header h.three_le
  have hle := h.header_read
  have h12 := h.twelve_le
  have hmax := h.length_le
  have hnext := h.next_eq
  let r := frameSize acc - acc.length
  let f := acc ++ fresh.take r
  have hf : (acc ++ fresh).take (frameSize acc) = f := by
    rw [List.take_append, List.take_of_length_le hmax]
  have hflen : f.length = frameSize acc := by
    simp only [f, r, List.length_append, List.length_take]
    omega
  have hend : hdrEnd f = hdrEnd acc := hdrEnd_append h.three_le _
  have hfields : Fields d.pkt f := h.fields.append h12 _
  rw [Nat.min_eq_right (by omega)] at hcollect
  let d₁ : Decoder := { d with
    pkt.numBytesRead := acc.length + r, pkt.buffNext := d.pkt.buffNext + r
    pkt.payload := some pld, currBuffIdx := d.pkt.buffNext + r }
  have hread : i32 (d₁.pkt.pktLen - d₁.pkt.numBytesRead) = 0 := by
    simp only [d₁, hpkt, r]
    rw [i32_of_small] <;> omega
  have hget : d₁.pkt.getPayload = .ok (f.drop (hdrEnd f)) := by
    have hdrop : (f.drop (hdrEnd f)).length = d₁.pkt.payloadLen := by
      rw [List.length_drop, hflen, hend, frameSize, Nat.add_sub_cancel_left]
      exact h.fields.payload_len.symm
    have hload := hold.loadAll_eq
    rwa [← hend, hdrop] at hload
  have houtput := output_eq (d := d₁) h.file_eq hfields.type hget
  obtain ⟨built, hmake, hcarries⟩ := Packet.makePkt_carries (p := d₁.pkt) (f := f)
    ⟨hfields.type, hfields.charset, hfields.encoding, hfields.encryption, hfields.compression,
      hfields.hdr_len, hfields.full_hdr_len, hfields.payload_len⟩ hhdr
    (by rwa [hend, List.take_append_of_le_length hle]) rfl (by rwa [hend])
    (by rw [hflen, frameSize_append h12]) (by rw [hflen]; exact hu.size_lt)
    (by rw [hflen]; exact hpkt)
  have hnext₁ : (d₁.pkt.buffNext : ℤ) ≤ d₁.pkt.buffTotalLen := by
    simp only [d₁, h.total_eq, r]
    omega
  have hfinish := finish_of_zero hread houtput hmake hnext₁
  have hends : (d.collectPayload >>= finish) = d₁.finish := by rw [hcollect, ok_bind]
  refine ⟨_, hends.trans hfinish, rfl, by rw [hf], by rw [hf]; exact hcarries, h.file_eq, ?_⟩
  simp only [d₁, r, List.length_drop, List.length_append]
  omega

/-- A frame length from `2^31` on is negative as an `int`, or less than the header's length. -/
theorem pktLen_overlong (hbig : 2 ^ 31 ≤ frameSize acc) :
    i32 (u32 (d.pkt.fullHdrLen + d.pkt.payloadLen)) = frameSize acc - 2 ^ 32 := by
  have hmax := h.decoding.header_max h.three_le
  have hn := payloadField_lt acc
  rw [h.full_hdr_len, h.fields.payload_len, i32_eq, u32]
  simp only [frameSize, hdrEnd] at hbig ⊢
  omega

theorem finish_overlong (hbig : 2 ^ 31 ≤ frameSize acc)
    (hpkt : d.pkt.pktLen = frameSize acc - 2 ^ 32) :
    (payloadField acc < 2 ^ 31 →
      ∃ d', (d.collectPayload >>= finish) = .ok d' ∧ SameShared d d' ∧
        Decoding d'.pkt acc ∧ d'.currBuffIdx = d.pkt.buffNext ∧ d'.pkt.pktBuilt = false) ∧
    (2 ^ 31 ≤ payloadField acc →
      ∃ d', (d.collectPayload >>= finish) =
          throwPacket "Something is wrong number of bytes remaining is negative\n" d' ∧
        SameShared d d' ∧ Decoding d'.pkt acc ∧ d'.currBuffIdx = d.pkt.buffNext) := by
  have hn := payloadField_lt acc
  have hmax := h.decoding.header_max h.three_le
  have hexact : acc.length = hdrEnd acc := by
    by_contra hne
    have hle := h.header_read
    have := (h.decoding.body h.three_le (by omega)).1.size_lt
    omega
  have hread := h.decoding.read
  have hstuck : d.pkt.pktLen ≤ d.pkt.numBytesRead := by
    rw [hpkt, hread, hexact]
    simp only [frameSize, hdrEnd]
    omega
  -- the payload loop does not turn
  have hcollect : d.collectPayload = .ok d := by
    have hexit : PayloadLoop.guard
        { toDecoder := d, pld := d.pkt.numBytesRead - d.pkt.fullHdrLen, idx := d.currBuffIdx } =
        false := by
      simp only [PayloadLoop.guard, Bool.and_eq_false_imp, decide_eq_false_iff_not]
      omega
    rw [collectPayload, whileLoop_exit hexit]
    rfl
  have hremaining : i32 (d.pkt.pktLen - d.pkt.numBytesRead) = i32 (payloadField acc - 2 ^ 32) := by
    rw [hpkt, hread, hexact, frameSize]
    congr 1
    omega
  constructor
  · intro hlt
    have hpos : 0 < i32 (d.pkt.pktLen - d.pkt.numBytesRead) := by
      have := h.header_min
      rw [hremaining, i32_eq]
      simp only [frameSize, hdrEnd] at hbig
      omega
    have hnext : (d.pkt.buffNext : ℤ) ≤ d.pkt.buffTotalLen := by
      have := h.next_eq
      rw [h.total_eq]
      omega
    refine ⟨{ d with currBuffIdx := d.pkt.buffNext, pkt := d.pkt.setBuildPending true }, ?_,
      ⟨rfl, rfl⟩, h.decoding.congr rfl rfl rfl rfl rfl rfl, rfl, rfl⟩
    rw [hcollect, ok_bind, finish_of_pos hpos hnext]
  · intro hge
    have hneg : i32 (d.pkt.pktLen - d.pkt.numBytesRead) < 0 := by
      rw [hremaining, i32_eq]
      omega
    refine ⟨d, ?_, ⟨rfl, rfl⟩, h.decoding, h.index_eq⟩
    rw [hcollect, ok_bind, finish_of_neg hneg]

theorem withPktLen (n : ℤ) : Headed { d with pkt.pktLen := n } acc fresh total where
  decoding := h.decoding.congr rfl rfl rfl rfl rfl rfl
  total_eq := h.total_eq
  next_eq := h.next_eq
  holds := h.holds
  header_read := h.header_read
  header_min := h.header_min
  fields := ⟨h.fields.type, h.fields.charset, h.fields.encoding, h.fields.encryption,
    h.fields.compression, h.fields.hdr_len, h.fields.full_hdr_len, h.fields.payload_len⟩
  index_eq := h.index_eq
  allocated := h.allocated
  file_eq := h.file_eq

end Headed

theorem collectHeader_spec (h : Reading d acc fresh total) (hidx : d.currBuffIdx = d.pkt.buffNext)
    (hne : fresh ≠ []) (hlen : 3 ≤ (acc ++ fresh).length)
    (hwhole : acc = [] ∨ 3 ≤ acc.length) (hmark : acc = [] → fresh.head? = some 0xFF)
    (hmax : hdrField (acc ++ fresh) ≤ 65532) :
    ∃ d', d.collectHeader = .ok (d', d'.pkt.buffNext) ∧ SameShared d d' ∧
      Reading d' (acc ++ fresh.take (hdrEnd (acc ++ fresh) - acc.length))
        (fresh.drop (hdrEnd (acc ++ fresh) - acc.length)) total := by
  rcases hwhole with rfl | h3
  · match fresh, hlen with
    | v₀ :: v₁ :: v₂ :: rest, _ =>
      have hv : v₀ = 0xFF := Option.some.inj (hmark rfl)
      exact collectHeader_open h hidx hv hmax
  · rw [hdrEnd_append h3]
    exact collectHeader_header h hidx h3 hne

section Rebuild

theorem rebuild_of_error {e : Stop Decoder} (ha : d.pkt.attached = true)
    (h : d.updateLocalBuffInfo.headerReady = .error e) : d.rebuild = .error e := by
  simp only [rebuild, ha, ↓reduceIte, h, error_bind]

theorem rebuild_of_pending {d' : Decoder} (ha : d.pkt.attached = true)
    (h : d.updateLocalBuffInfo.headerReady = .ok (false, d')) : d.rebuild = .ok d' := by
  simp only [rebuild, ha, ↓reduceIte, h, ok_bind]
  rfl

theorem rebuild_of_ready {d' : Decoder} (ha : d.pkt.attached = true)
    (h : d.updateLocalBuffInfo.headerReady = .ok (true, d')) :
    d.rebuild = d'.rebuildHeader >>= fun d =>
      { d with pkt.pktLen := i32 (u32 (d.pkt.fullHdrLen + d.pkt.payloadLen)) }.collectPayload >>=
        finish := by
  simp only [rebuild, ha, ↓reduceIte, h, ok_bind]

end Rebuild

end Decoder

/-- How a call of `rebuild` ends: with the frame it completed, the bytes it keeps of an
unfinished frame, and the fresh bytes it leaves. -/
inductive Verdict
  | pending
  | complete (frame rest : List Byte)
  | rejected (msg : String) (kept rest : List Byte)
  | stuck (kept rest : List Byte)
  | fault (f : Fault)
  deriving DecidableEq, Repr

def bodyVerdict (s : List Byte) : Verdict :=
  if hdrField s = 0 then
    .rejected "Got a header length of zero or less\n" (s.take (hdrEnd s)) (s.drop (hdrEnd s))
  else if hdrField s < 9 then .fault .outOfBounds
  else if payloadField s = 0 then
    .rejected "Got a payload length of zero or less\n" (s.take (hdrEnd s)) (s.drop (hdrEnd s))
  else if frameSize s < 2 ^ 31 then
    if frameSize s ≤ s.length then .complete (s.take (frameSize s)) (s.drop (frameSize s))
    else .pending
  else if payloadField s < 2 ^ 31 then .stuck (s.take (hdrEnd s)) (s.drop (hdrEnd s))
  else .rejected "Something is wrong number of bytes remaining is negative\n"
    (s.take (hdrEnd s)) (s.drop (hdrEnd s))

/-- `acc` is there of the frame, `fresh` is new, and the buffer's content is `total` bytes long. -/
def verdict (acc fresh : List Byte) (total : ℕ) : Verdict :=
  let s := acc ++ fresh
  if acc.length < 3 ∧ fresh.head? ≠ some 0xFF ∧ 3 ≤ total then .fault .nullAccess
  else if s.length < 3 then .pending
  else if acc.length = 1 ∨ acc.length = 2 then .fault .uninitialised
  else if hdrField s = 65533 then
    .rejected "Got a header length of zero or less\n" (s.take 2) fresh
  else if 65533 < hdrField s then .fault .outOfBounds
  else if s.length ≤ hdrEnd s then .pending
  else bodyVerdict s

structure Entered (acc fresh : List Byte) : Prop where
  three : 3 ≤ (acc ++ fresh).length
  whole : acc.length ≠ 1 ∧ acc.length ≠ 2
  marked : acc = [] → fresh.head? = some 0xFF

/-- The verdicts, each with what it takes to come to it. -/
inductive Judged (acc fresh : List Byte) (total : ℕ) : Verdict → Prop
  | unmarked : acc.length < 3 → fresh.head? ≠ some 0xFF → 3 ≤ total →
      Judged acc fresh total (.fault .nullAccess)
  | short : (acc ++ fresh).length < 3 → (3 ≤ total → fresh.head? = some 0xFF) →
      Judged acc fresh total .pending
  | resumed : 3 ≤ (acc ++ fresh).length → acc.length = 1 ∨ acc.length = 2 →
      Judged acc fresh total (.fault .uninitialised)
  | wraps : Entered acc fresh → hdrField (acc ++ fresh) = 65533 →
      Judged acc fresh total (.rejected "Got a header length of zero or less\n"
        ((acc ++ fresh).take 2) fresh)
  | overflows : Entered acc fresh → 65533 < hdrField (acc ++ fresh) →
      Judged acc fresh total (.fault .outOfBounds)
  | inHeader : Entered acc fresh → hdrField (acc ++ fresh) ≤ 65532 →
      (acc ++ fresh).length ≤ hdrEnd (acc ++ fresh) → Judged acc fresh total .pending
  | noHeader : Entered acc fresh → hdrField (acc ++ fresh) = 0 →
      hdrEnd (acc ++ fresh) < (acc ++ fresh).length →
      Judged acc fresh total (.rejected "Got a header length of zero or less\n"
        ((acc ++ fresh).take (hdrEnd (acc ++ fresh))) ((acc ++ fresh).drop (hdrEnd (acc ++ fresh))))
  | shortHeader : Entered acc fresh → hdrField (acc ++ fresh) ≠ 0 → hdrField (acc ++ fresh) < 9 →
      hdrEnd (acc ++ fresh) < (acc ++ fresh).length →
      Judged acc fresh total (.fault .outOfBounds)
  | noPayload : Entered acc fresh → 9 ≤ hdrField (acc ++ fresh) →
      hdrField (acc ++ fresh) ≤ 65532 → payloadField (acc ++ fresh) = 0 →
      hdrEnd (acc ++ fresh) < (acc ++ fresh).length →
      Judged acc fresh total (.rejected "Got a payload length of zero or less\n"
        ((acc ++ fresh).take (hdrEnd (acc ++ fresh))) ((acc ++ fresh).drop (hdrEnd (acc ++ fresh))))
  | complete : Entered acc fresh → Usable (acc ++ fresh) →
      frameSize (acc ++ fresh) ≤ (acc ++ fresh).length →
      Judged acc fresh total (.complete ((acc ++ fresh).take (frameSize (acc ++ fresh)))
        ((acc ++ fresh).drop (frameSize (acc ++ fresh))))
  | inPayload : Entered acc fresh → Usable (acc ++ fresh) →
      hdrEnd (acc ++ fresh) < (acc ++ fresh).length →
      (acc ++ fresh).length < frameSize (acc ++ fresh) → Judged acc fresh total .pending
  | stuck : Entered acc fresh → 9 ≤ hdrField (acc ++ fresh) → hdrField (acc ++ fresh) ≤ 65532 →
      2 ^ 31 ≤ frameSize (acc ++ fresh) → payloadField (acc ++ fresh) < 2 ^ 31 →
      hdrEnd (acc ++ fresh) < (acc ++ fresh).length →
      Judged acc fresh total (.stuck ((acc ++ fresh).take (hdrEnd (acc ++ fresh)))
        ((acc ++ fresh).drop (hdrEnd (acc ++ fresh))))
  | negative : Entered acc fresh → 9 ≤ hdrField (acc ++ fresh) →
      hdrField (acc ++ fresh) ≤ 65532 → 2 ^ 31 ≤ payloadField (acc ++ fresh) →
      hdrEnd (acc ++ fresh) < (acc ++ fresh).length →
      Judged acc fresh total
        (.rejected "Something is wrong number of bytes remaining is negative\n"
          ((acc ++ fresh).take (hdrEnd (acc ++ fresh)))
          ((acc ++ fresh).drop (hdrEnd (acc ++ fresh))))

theorem judged_body {acc fresh : List Byte} (total : ℕ) (he : Entered acc fresh)
    (hmax : hdrField (acc ++ fresh) ≤ 65532)
    (hlen : hdrEnd (acc ++ fresh) < (acc ++ fresh).length) :
    Judged acc fresh total (bodyVerdict (acc ++ fresh)) := by
  unfold bodyVerdict
  by_cases hz : hdrField (acc ++ fresh) = 0
  · rw [if_pos hz]
    exact .noHeader he hz hlen
  rw [if_neg hz]
  by_cases hshort : hdrField (acc ++ fresh) < 9
  · rw [if_pos hshort]
    exact .shortHeader he hz hshort hlen
  rw [if_neg hshort]
  by_cases hn : payloadField (acc ++ fresh) = 0
  · rw [if_pos hn]
    exact .noPayload he (by omega) hmax hn hlen
  rw [if_neg hn]
  by_cases hlt : frameSize (acc ++ fresh) < 2 ^ 31
  · have hu : Usable (acc ++ fresh) := ⟨by omega, hmax, by omega, hlt⟩
    rw [if_pos hlt]
    by_cases hfits : frameSize (acc ++ fresh) ≤ (acc ++ fresh).length
    · rw [if_pos hfits]
      exact .complete he hu hfits
    · rw [if_neg hfits]
      exact .inPayload he hu hlen (by omega)
  rw [if_neg hlt]
  by_cases hpos : payloadField (acc ++ fresh) < 2 ^ 31
  · rw [if_pos hpos]
    exact .stuck he (by omega) hmax (by omega) hpos hlen
  · rw [if_neg hpos]
    exact .negative he (by omega) hmax (by omega) hlen

theorem judged (acc : List Byte) {fresh : List Byte} {total : ℕ} (htotal : fresh.length ≤ total) :
    Judged acc fresh total (verdict acc fresh total) := by
  unfold verdict
  by_cases hclear : acc.length < 3 ∧ fresh.head? ≠ some 0xFF ∧ 3 ≤ total
  · rw [if_pos hclear]
    exact .unmarked hclear.1 hclear.2.1 hclear.2.2
  rw [if_neg hclear]
  by_cases hfew : (acc ++ fresh).length < 3
  · rw [if_pos hfew]
    rw [List.length_append] at hfew
    refine .short (by rw [List.length_append]; omega) fun h3 => ?_
    by_contra hhead
    exact hclear ⟨by omega, hhead, h3⟩
  rw [if_neg hfew]
  by_cases hresume : acc.length = 1 ∨ acc.length = 2
  · rw [if_pos hresume]
    exact .resumed (by omega) hresume
  rw [if_neg hresume]
  have he : Entered acc fresh := by
    refine ⟨by omega, by omega, ?_⟩
    rintro rfl
    by_contra hhead
    rw [List.nil_append] at hfew
    exact hclear ⟨by simp, hhead, by omega⟩
  by_cases hzero : hdrField (acc ++ fresh) = 65533
  · rw [if_pos hzero]
    exact .wraps he hzero
  rw [if_neg hzero]
  by_cases hover : 65533 < hdrField (acc ++ fresh)
  · rw [if_pos hover]
    exact .overflows he hover
  rw [if_neg hover]
  by_cases hinside : (acc ++ fresh).length ≤ hdrEnd (acc ++ fresh)
  · rw [if_pos hinside]
    exact .inHeader he (by omega) hinside
  rw [if_neg hinside]
  exact judged_body total he (by omega) (by omega)

namespace Decoder

def Ends (d : Decoder) (s : List Byte) (total : ℕ) : Verdict → Prop
  | .pending => ∃ d', d.rebuild = .ok d' ∧ SameShared d d' ∧ Decoding d'.pkt s ∧
      d'.currBuffIdx = total ∧ d'.pkt.pktBuilt = false
  | .complete frame rest => ∃ d', d.rebuild = .ok d' ∧ d'.buffer = d.buffer ∧
      d'.outFile = d.outFile.written frame ∧ Carries d'.pkt frame ∧
      d'.pkt.hasFileAttachment = (d'.pkt.type == genericFile) ∧
      d'.currBuffIdx + rest.length = total
  | .rejected msg kept rest => ∃ d', d.rebuild = throwPacket msg d' ∧ SameShared d d' ∧
      Decoding d'.pkt kept ∧ d'.currBuffIdx + rest.length = total
  | .stuck kept rest => ∃ d', d.rebuild = .ok d' ∧ SameShared d d' ∧ Decoding d'.pkt kept ∧
      d'.currBuffIdx + rest.length = total ∧ d'.pkt.pktBuilt = false
  | .fault f => d.rebuild = .error (.halt (.fault f))

variable {d : Decoder} {acc fresh : List Byte} {total : ℕ}

theorem ends_of_headed {d₁ : Decoder} {s acc' fresh' : List Byte} (hshared : SameShared d d₁)
    (h : Headed d₁ acc' fresh' total)
    (hrebuild : d.rebuild = { d₁ with
      pkt.pktLen := i32 (u32 (d₁.pkt.fullHdrLen + d₁.pkt.payloadLen)) }.collectPayload >>= finish)
    (hs : s = acc' ++ fresh') (hpos : payloadField s ≠ 0)
    (hkeep : ¬ Usable s → s.take (hdrEnd s) = acc' ∧ s.drop (hdrEnd s) = fresh') :
    d.Ends s total (bodyVerdict s) := by
  have h3 := h.three_le
  have hmin := h.header_min
  have hfield : hdrField s = hdrField acc' := by rw [hs, hdrField_append h3]
  have hn : payloadField s = payloadField acc' := by rw [hs, payloadField_append h.twelve_le]
  have hsize : frameSize s = frameSize acc' := by rw [hs, frameSize_append h.twelve_le]
  have hlen : s.length = acc'.length + fresh'.length := by rw [hs, List.length_append]
  unfold bodyVerdict
  rw [if_neg (by omega), if_neg (by omega), if_neg hpos]
  by_cases hlt : frameSize s < 2 ^ 31
  · have hu : Usable acc' := ⟨hmin, h.decoding.header_max h3, by omega, by omega⟩
    have hheaded := h.withPktLen (frameSize acc')
    rw [h.pktLen_eq (by omega)] at hrebuild
    rw [if_pos hlt]
    by_cases hfits : frameSize s ≤ s.length
    · rw [if_pos hfits]
      obtain ⟨d', hd', hbuffer, hfile, hcarries, hflag, hend⟩ :=
        hheaded.finish_complete hu rfl (by omega)
      rw [← hsize, ← hs] at hfile hcarries hend
      refine ⟨d', hrebuild.trans hd', hbuffer.trans hshared.1, ?_, hcarries, hflag, hend⟩
      rw [hfile, ← hshared.2]
    · rw [if_neg hfits]
      obtain ⟨d', hd', hsame, hdec, hend, hbuilt⟩ := hheaded.finish_pending hu rfl (by omega)
      rw [← hs] at hdec
      exact ⟨d', hrebuild.trans hd', hshared.trans hsame, hdec, hend, hbuilt⟩
  rw [if_neg hlt]
  -- the length of the frame is negative as an `int`
  obtain ⟨hk, hr⟩ := hkeep fun hu => hlt hu.size_lt
  have hheaded := h.withPktLen (frameSize acc' - 2 ^ 32)
  rw [h.pktLen_overlong (by omega)] at hrebuild
  obtain ⟨hstuck, hreject⟩ := hheaded.finish_overlong (by omega) rfl
  have hnext := hheaded.next_eq
  by_cases hsmall : payloadField s < 2 ^ 31
  · obtain ⟨d', hd', hsame, hdec, hidx, hbuilt⟩ := hstuck (by omega)
    rw [if_pos hsmall, hk, hr]
    exact ⟨d', hrebuild.trans hd', hshared.trans hsame, hdec, by omega, hbuilt⟩
  · obtain ⟨d', hd', hsame, hdec, hidx⟩ := hreject (by omega)
    rw [if_neg hsmall, hk, hr]
    exact ⟨d', hrebuild.trans hd', hshared.trans hsame, hdec, by omega⟩

theorem ends_of_ready {d₁ : Decoder} {s acc' fresh' : List Byte} (ha : d.pkt.attached = true)
    (hready : d.updateLocalBuffInfo.headerReady = .ok (true, d₁)) (hshared : SameShared d d₁)
    (h : Reading d₁ acc' fresh' total) (hidx : d₁.currBuffIdx = d₁.pkt.buffNext)
    (hs : s = acc' ++ fresh') (h3 : 3 ≤ acc'.length) (hle : hdrEnd s ≤ acc'.length)
    (hmore : acc'.length = hdrEnd s ∨ Usable s) :
    d.Ends s total (bodyVerdict s) := by
  have hfield : hdrField s = hdrField acc' := by rw [hs, hdrField_append h3]
  have hend : hdrEnd s = hdrEnd acc' := by rw [hs, hdrEnd_append h3]
  have hle' : hdrEnd acc' ≤ acc'.length := by rwa [← hend]
  have hnext := h.next_eq
  have hrebuild := rebuild_of_ready ha hready
  -- unless the frame is usable, the header is all that is there of it
  have hkeep : ¬ Usable s → s.take (hdrEnd s) = acc' ∧ s.drop (hdrEnd s) = fresh' := by
    intro hu
    have hexact : acc'.length = hdrEnd s := hmore.resolve_right hu
    rw [← hexact, hs]
    exact ⟨List.take_left, List.drop_left⟩
  by_cases hz : hdrField s = 0
  · obtain ⟨hk, hr⟩ := hkeep fun hu => by have := hu.header_min; omega
    obtain ⟨d', hd', hsame, hdec, hpos⟩ := rebuildHeader_zero h h3 hle' (by omega)
    rw [bodyVerdict, if_pos hz, hk, hr]
    refine ⟨d', by rw [hrebuild, hd', throwPacket_bind], hshared.trans hsame, hdec, ?_⟩
    rw [hpos, hidx, hnext]
  by_cases hshort : hdrField s < 9
  · rw [bodyVerdict, if_neg hz, if_pos hshort]
    change d.rebuild = _
    rw [hrebuild, rebuildHeader_short h h3 hle' (by omega) (by omega), error_bind]
  have h12 : 12 ≤ acc'.length := by simp only [hdrEnd] at hle'; omega
  have hn : payloadField s = payloadField acc' := by rw [hs, payloadField_append h12]
  obtain ⟨hempty, hpayload⟩ := rebuildHeader_fields h h3 hle' (by omega)
  by_cases hnz : payloadField s = 0
  · obtain ⟨hk, hr⟩ := hkeep fun hu => by have := hu.payload_pos; omega
    obtain ⟨d', hd', hsame, hdec, hpos⟩ := hempty (by omega)
    rw [bodyVerdict, if_neg hz, if_neg hshort, if_pos hnz, hk, hr]
    refine ⟨d', by rw [hrebuild, hd', throwPacket_bind], hshared.trans hsame, hdec, ?_⟩
    rw [hpos, hidx, hnext]
  · obtain ⟨d₂, hd₂, hsame, hheaded⟩ := hpayload (by omega)
    simp only [hd₂, ok_bind] at hrebuild
    exact ends_of_headed (hshared.trans hsame) hheaded hrebuild hs hnz hkeep

theorem ends_of_cut {v : Byte} {rest : List Byte} (ha : d.pkt.attached = true)
    (h : Reading d.updateLocalBuffInfo acc (v :: rest) total) (hcut : acc.length < 3)
    (hclear : ¬ (acc.length < 3 ∧ (v :: rest).head? ≠ some 0xFF ∧ 3 ≤ total)) :
    ((acc ++ v :: rest).length < 3 → d.Ends (acc ++ v :: rest) total .pending) ∧
    (3 ≤ (acc ++ v :: rest).length → acc ≠ [] →
      d.Ends (acc ++ v :: rest) total (.fault .uninitialised)) := by
  have hidx : d.updateLocalBuffInfo.currBuffIdx = d.updateLocalBuffInfo.pkt.buffNext := rfl
  have hw : d.updateLocalBuffInfo.wantsHeader v = true := by
    rw [wantsHeader_cut h.decoding hcut h.total_eq]
    by_cases hv : v = 0xFF
    · simp [hv]
    · have : total < 3 := by
        by_contra htotal
        exact hclear ⟨hcut, by simpa using hv, by omega⟩
      simp [this]
  rw [List.length_append]
  constructor
  · intro hlen
    obtain ⟨d', hready, hrest⟩ := headerReady_cut h hidx hlen hw
    exact ⟨d', rebuild_of_pending ha hready, hrest⟩
  · intro hlen hne
    have hfault := collectHeader_uninit h hidx hcut hne hlen hw
    exact rebuild_of_error ha (by rw [headerReady, hfault, error_bind])

/-- The byte where a frame should begin is no marker, and the buffer holds three bytes. -/
theorem ends_of_unmarked (ha : d.pkt.attached = true)
    (h : Reading d.updateLocalBuffInfo acc fresh total) (hcut : acc.length < 3)
    (hhead : fresh.head? ≠ some 0xFF) (h3 : 3 ≤ total) (hne : fresh ≠ []) :
    d.Ends (acc ++ fresh) total (.fault .nullAccess) := by
  obtain ⟨v, rest, rfl⟩ := List.exists_cons_of_ne_nil hne
  have hidx : d.updateLocalBuffInfo.currBuffIdx = d.updateLocalBuffInfo.pkt.buffNext := rfl
  have hv : ¬ v = 0xFF := by simpa using hhead
  have hw : d.updateLocalBuffInfo.wantsHeader v = false := by
    rw [wantsHeader_cut h.decoding hcut h.total_eq]
    simp [hv, h3]
  have hready := headerReady_unmarked h hidx hcut hw
  obtain ⟨hnone, -, -⟩ := h.decoding.cut hcut
  change d.rebuild = _
  rw [rebuild_of_ready ha hready, rebuildHeader, hnone]
  rfl

/-- The third byte announces a header whose size is zero as a `uint16_t`. -/
theorem ends_of_wraps (ha : d.pkt.attached = true)
    (h : Reading d.updateLocalBuffInfo [] fresh total) (h3 : 3 ≤ fresh.length)
    (hmark : fresh.head? = some 0xFF) (hzero : hdrField fresh = 65533) :
    d.Ends fresh total
      (.rejected "Got a header length of zero or less\n" (fresh.take 2) fresh) := by
  obtain ⟨v₀, v₁, v₂, rest, rfl⟩ := exists_three h3
  have hv : v₀ = 0xFF := Option.some.inj hmark
  obtain ⟨d', hd', hsame, hdec, hpos⟩ := collectHeader_zero h rfl hv hzero
  have hready : d.updateLocalBuffInfo.headerReady =
      throwPacket "Got a header length of zero or less\n" d' := by
    rw [headerReady, hd', throwPacket_bind]
  refine ⟨d', rebuild_of_error ha hready, hsame, hdec, ?_⟩
  rw [hpos]
  exact h.next_eq

/-- The third byte announces a header whose size is 1 or 2 as a `uint16_t`. -/
theorem ends_of_overflows (ha : d.pkt.attached = true)
    (h : Reading d.updateLocalBuffInfo [] fresh total) (h3 : 3 ≤ fresh.length)
    (hmark : fresh.head? = some 0xFF) (hover : 65533 < hdrField fresh) :
    d.Ends fresh total (.fault .outOfBounds) := by
  obtain ⟨v₀, v₁, v₂, rest, rfl⟩ := exists_three h3
  have hv : v₀ = 0xFF := Option.some.inj hmark
  have hfault := collectHeader_overflow h rfl hv hover
  exact rebuild_of_error ha (by rw [headerReady, hfault, error_bind])

/-- The header is allocated, and takes the fresh bytes up to its end. -/
theorem ends_of_entered (ha : d.pkt.attached = true)
    (h : Reading d.updateLocalBuffInfo acc fresh total) (hne : fresh ≠ [])
    (hlen : 3 ≤ (acc ++ fresh).length) (hwhole : acc = [] ∨ 3 ≤ acc.length)
    (hmark : acc = [] → fresh.head? = some 0xFF) (hmax : hdrField (acc ++ fresh) ≤ 65532) :
    ((acc ++ fresh).length ≤ hdrEnd (acc ++ fresh) → d.Ends (acc ++ fresh) total .pending) ∧
    (hdrEnd (acc ++ fresh) < (acc ++ fresh).length →
      d.Ends (acc ++ fresh) total (bodyVerdict (acc ++ fresh))) := by
  obtain ⟨d₁, hcollect, hshared, hreading⟩ :=
    collectHeader_spec h rfl hne hlen hwhole hmark hmax
  have hsplit : acc ++ fresh = (acc ++ fresh.take (hdrEnd (acc ++ fresh) - acc.length)) ++
      fresh.drop (hdrEnd (acc ++ fresh) - acc.length) := by
    rw [List.append_assoc, List.take_append_drop]
  have h3 : 3 ≤ (acc ++ fresh.take (hdrEnd (acc ++ fresh) - acc.length)).length := by
    simp only [hdrEnd, List.length_append, List.length_take] at *
    omega
  rw [List.length_append]
  constructor
  · -- the header ends with the buffer's content, or later
    intro hinside
    rw [List.take_of_length_le (by omega)] at hreading h3
    rw [List.drop_of_length_le (by omega)] at hreading
    obtain ⟨d', hready, hsame, hrest⟩ := headerReady_pending hcollect hreading h3
    exact ⟨d', rebuild_of_pending ha hready, hshared.trans hsame, hrest⟩
  · intro hbehind
    have htaken : (acc ++ fresh.take (hdrEnd (acc ++ fresh) - acc.length)).length =
        max acc.length (hdrEnd (acc ++ fresh)) := by
      rw [List.length_append, List.length_take]
      omega
    have hend : hdrEnd (acc ++ fresh.take (hdrEnd (acc ++ fresh) - acc.length)) =
        hdrEnd (acc ++ fresh) := by
      rw [← hdrEnd_append h3 (fresh.drop (hdrEnd (acc ++ fresh) - acc.length)), ← hsplit]
    have hleft : fresh.drop (hdrEnd (acc ++ fresh) - acc.length) ≠ [] := by
      apply List.ne_nil_of_length_pos
      have hpos := List.length_pos_iff.mpr hne
      rw [List.length_drop]
      omega
    have hready := headerReady_ready hcollect hreading h3 (by omega) hleft
    apply ends_of_ready ha hready hshared ⟨hreading.decoding, hreading.total_eq, hreading.next_eq,
      hreading.holds⟩ rfl hsplit h3 (by omega)
    by_cases hpast : hdrEnd (acc ++ fresh) < acc.length
    · -- some of the payload had come before this call
      have h3' : 3 ≤ acc.length := by
        simp only [hdrEnd] at hpast
        omega
      have hu := (h.decoding.body h3' (by rwa [← hdrEnd_append h3' fresh])).1
      have hmin := hu.header_min
      rw [hdrEnd_append h3', hdrEnd] at hpast
      exact Or.inr ((usable_append (by omega) fresh).mpr hu)
    · exact Or.inl (by omega)

/-- A call of `rebuild` ends as its verdict says. -/
theorem rebuild_spec (hd : Decoding d.pkt acc) (htotal : d.pkt.buffTotalLen = total)
    (hnext : d.currBuffIdx + fresh.length = total) (hold : d.buffer.HoldsAt d.currBuffIdx fresh)
    (hne : fresh ≠ []) : d.Ends (acc ++ fresh) total (verdict acc fresh total) := by
  have ha := hd.attached
  have h : Reading d.updateLocalBuffInfo acc fresh total :=
    ⟨hd.congr rfl rfl rfl rfl rfl rfl, htotal, hnext, hold⟩
  unfold verdict
  by_cases hclear : acc.length < 3 ∧ fresh.head? ≠ some 0xFF ∧ 3 ≤ total
  · rw [if_pos hclear]
    exact ends_of_unmarked ha h hclear.1 hclear.2.1 hclear.2.2 hne
  rw [if_neg hclear]
  by_cases hfew : (acc ++ fresh).length < 3
  · obtain ⟨v, rest, rfl⟩ := List.exists_cons_of_ne_nil hne
    rw [if_pos hfew]
    exact (ends_of_cut ha h (by rw [List.length_append] at hfew; omega) hclear).1 hfew
  rw [if_neg hfew]
  by_cases hresume : acc.length = 1 ∨ acc.length = 2
  · obtain ⟨v, rest, rfl⟩ := List.exists_cons_of_ne_nil hne
    rw [if_pos hresume]
    exact (ends_of_cut ha h (by omega) hclear).2 (by omega) (by rintro rfl; simp at hresume)
  rw [if_neg hresume]
  have hwhole : acc = [] ∨ 3 ≤ acc.length := by
    rcases Nat.eq_zero_or_pos acc.length with hz | hpos
    · exact Or.inl (List.eq_nil_of_length_eq_zero hz)
    · exact Or.inr (by omega)
  have hmark : acc = [] → fresh.head? = some 0xFF := by
    rintro rfl
    by_contra hhead
    rw [List.nil_append] at hfew
    exact hclear ⟨by simp, hhead, by omega⟩
  -- an overlong header is found out when its third byte is read
  have hbegins : 65533 ≤ hdrField (acc ++ fresh) → acc = [] := by
    intro hbig
    refine hwhole.resolve_right fun h3 => ?_
    rw [hdrField_append h3] at hbig
    have := hd.header_max h3
    omega
  by_cases hzero : hdrField (acc ++ fresh) = 65533
  · obtain rfl := hbegins (by omega)
    rw [if_pos hzero]
    exact ends_of_wraps ha h (by simpa using hfew) (hmark rfl) hzero
  rw [if_neg hzero]
  by_cases hover : 65533 < hdrField (acc ++ fresh)
  · obtain rfl := hbegins (by omega)
    rw [if_pos hover]
    exact ends_of_overflows ha h (by simpa using hfew) (hmark rfl) hover
  rw [if_neg hover]
  obtain ⟨hpending, hbody⟩ := ends_of_entered ha h hne (by omega) hwhole hmark (by omega)
  by_cases hinside : (acc ++ fresh).length ≤ hdrEnd (acc ++ fresh)
  · rw [if_pos hinside]
    exact hpending hinside
  · rw [if_neg hinside]
    exact hbody (by omega)

end Decoder

end P2Purr
