import P2Purr.Wire

namespace P2Purr
open Memory Serializer Framing

structure Fields (p : Packet) (f : List Byte) : Prop where
  type : f[3]? = some p.type
  charset : f[4]? = some p.charset
  encoding : f[5]? = some p.encoding
  encryption : f[6]? = some p.encryption
  compression : f[7]? = some p.compression
  hdr_len : p.hdrLen = hdrField f
  full_hdr_len : p.fullHdrLen = hdrEnd f
  payload_len : p.payloadLen = payloadField f

/-- A finished packet, and the frame it stands for. -/
structure Carries (p : Packet) (f : List Byte) : Prop extends Fields p f where
  built : p.pktBuilt = true
  pkt_len : p.pktLen = f.length
  header : p.getHeader = .ok (f.take (hdrEnd f))
  payload : p.getPayload = .ok (f.drop (hdrEnd f))
  packet : p.getPacket = .ok f

namespace Packet

variable {p : Packet} {dst src hdr pld : Block} {bs cs hb pb : List Byte}

theorem copyFrom_spec (h : dst.HoldsAt 0 bs) (hs : src.HoldsAt 0 cs)
    (hfits : bs.length + cs.length ≤ dst.size) :
    ∃ b, copyFrom dst bs.length (some src) cs.length = .ok b ∧ b.size = dst.size ∧
      b.HoldsAt 0 (bs ++ cs) := by
  by_cases hcs : cs = []
  · refine ⟨dst, by simp [copyFrom, hcs], rfl, by simpa [hcs] using h⟩
  · have hlen : cs.length ≠ 0 := by simpa using hcs
    have hcopy := h.memcpy hs hfits
    simpa [copyFrom, hlen] using hcopy

/-- The built packet is the header followed by the payload.  At the largest
`int` the size of the block wraps, to one that is larger still. -/
theorem makePkt_spec (hhdr : p.header = some hdr) (hh : hdr.HoldsAt 0 hb)
    (hfull : p.fullHdrLen = hb.length) (hpld : p.payload = some pld) (hp : pld.HoldsAt 0 pb)
    (hlen : p.payloadLen = pb.length) (hpkt : p.pktLen = (hb ++ pb).length)
    (hlt : (hb ++ pb).length < 2 ^ 31) :
    ∃ built, p.makePkt = .ok { p with builtPkt := some built } ∧ built.HoldsAt 0 (hb ++ pb) := by
  have hsize : (hb ++ pb).length < sizeT (i32 ((hb ++ pb).length + 1)) := by
    rw [sizeT, i32_eq]
    omega
  obtain ⟨b, hb₀, hbsize⟩ := Block.store_of_lt
    (b := Block.malloc (sizeT (i32 ((hb ++ pb).length + 1)))) (by simpa using hsize) 0
  simp only [List.length_append, Block.malloc_size] at hsize hb₀ hbsize hpkt
  have hnil' : b.HoldsAt 0 [] := Block.holdsAt_nil (by omega)
  obtain ⟨b₁, hcopy₁, hsize₁, hold₁⟩ := copyFrom_spec hnil' hh (by simp; omega)
  obtain ⟨b₂, hcopy₂, -, hold₂⟩ := copyFrom_spec hold₁ hp (by simp; omega)
  refine ⟨b₂, ?_, hold₂⟩
  simp only [List.length_nil, List.nil_append] at hcopy₁ hcopy₂
  have hpos : (0 : ℤ) ≤ ↑(hb.length + pb.length) := by omega
  simp only [makePkt, hpkt, hpos, ↓reduceIte, Int.toNat_natCast, hb₀, ok_bind, hhdr, hfull, hpld,
    hlen, hcopy₁, hcopy₂, pure_eq_ok]

/-- What is made of the header and the payload of a frame is the frame. -/
theorem makePkt_carries {f : List Byte} (h : Fields p f) (hhdr : p.header = some hdr)
    (hh : hdr.HoldsAt 0 (f.take (hdrEnd f))) (hpld : p.payload = some pld)
    (hp : pld.HoldsAt 0 (f.drop (hdrEnd f))) (hlen : f.length = frameSize f)
    (hlt : f.length < 2 ^ 31) (hpkt : p.pktLen = f.length) :
    ∃ built, p.makePkt = .ok { p with builtPkt := some built } ∧
      Carries ({ p with builtPkt := some built }.setBuildPending false) f := by
  have hjoin := List.take_append_drop (hdrEnd f) f
  have htake : (f.take (hdrEnd f)).length = hdrEnd f := by
    rw [List.length_take, hlen, frameSize]
    omega
  have hdrop : (f.drop (hdrEnd f)).length = payloadField f := by
    rw [List.length_drop, hlen, frameSize]
    omega
  have hfull := h.full_hdr_len
  have hn := h.payload_len
  obtain ⟨built, hmake, hbuilt⟩ := makePkt_spec hhdr hh (hfull.trans htake.symm) hpld hp
    (hn.trans hdrop.symm) (by rw [hjoin, hpkt]) (by rwa [hjoin])
  have hload₁ := hh.loadAll_eq
  have hload₂ := hp.loadAll_eq
  have hload₃ := hbuilt.loadAll_eq
  rw [htake] at hload₁
  rw [hdrop] at hload₂
  rw [hjoin] at hload₃
  refine ⟨built, hmake, ⟨⟨h.type, h.charset, h.encoding, h.encryption, h.compression, h.hdr_len,
    hfull, hn⟩, rfl, hpkt, ?_, ?_, ?_⟩⟩
  · simpa only [getHeader, setBuildPending_false, hhdr, hfull, deref_some, ok_bind] using hload₁
  · simpa only [getPayload, setBuildPending_false, hpld, hn, deref_some, ok_bind] using hload₂
  · simpa only [getPacket, setBuildPending_false, hpkt, Int.toNat_natCast, deref_some, ok_bind]
      using hload₃

end Packet

/-- The bytes that a packet with these fields and this payload puts on the wire. -/
def frameOf (ct : PacketType) (cs : PacketCharSet) (enc : PacketEncoding) (encr : PacketEncryption)
    (compr : PacketCompression) (body : List Byte) : List Byte :=
  [0xFF, 0, 9, ct, cs, enc, encr, compr] ++ serializeInt32 (BitVec.ofNat 64 body.length) ++ body

section FrameOf

variable {ct : PacketType} {cs : PacketCharSet} {enc : PacketEncoding} {encr : PacketEncryption}
  {compr : PacketCompression} {body : List Byte}

theorem frameOf_eq (ct : PacketType) (cs : PacketCharSet) (enc : PacketEncoding)
    (encr : PacketEncryption) (compr : PacketCompression) (body : List Byte) :
    ∃ l₀ l₁ l₂ l₃ : Byte,
    serializeInt32 (BitVec.ofNat 64 body.length) = [l₀, l₁, l₂, l₃] ∧
    frameOf ct cs enc encr compr body =
      0xFF :: 0 :: 9 :: ct :: cs :: enc :: encr :: compr :: l₀ :: l₁ :: l₂ :: l₃ :: body :=
  ⟨_, _, _, _, rfl, rfl⟩

@[simp] theorem frameOf_length : (frameOf ct cs enc encr compr body).length = 12 + body.length := by
  obtain ⟨l₀, l₁, l₂, l₃, -, h⟩ := frameOf_eq ct cs enc encr compr body
  rw [h]
  simp only [List.length_cons]
  omega

theorem hdrField_frameOf : hdrField (frameOf ct cs enc encr compr body) = 9 := rfl

theorem hdrEnd_frameOf : hdrEnd (frameOf ct cs enc encr compr body) = 12 := rfl

theorem payloadField_frameOf (h : body.length < 2 ^ 32) :
    payloadField (frameOf ct cs enc encr compr body) = body.length :=
  beValue_serializeInt32 h

theorem frameSize_frameOf (h : body.length < 2 ^ 32) :
    frameSize (frameOf ct cs enc encr compr body) = 12 + body.length := by
  rw [frameSize, hdrEnd_frameOf, payloadField_frameOf h]

/-- A payload that is not empty, and leaves room for the header in an `int`, makes a frame. -/
theorem frameOf_isFrame (h₀ : body ≠ []) (h₁ : body.length < 2 ^ 31 - 12) :
    wire.IsFrame (frameOf ct cs enc encr compr body) := by
  have hpos := List.length_pos_iff.mpr h₀
  have hn : payloadField (frameOf ct cs enc encr compr body) = body.length :=
    payloadField_frameOf (by omega)
  have hsize : frameSize (frameOf ct cs enc encr compr body) = 12 + body.length :=
    frameSize_frameOf (by omega)
  refine wire_isFrame_iff.mpr ⟨rfl, ⟨?_, ?_, ?_, ?_⟩, ?_⟩
  · rw [hdrField_frameOf]
  · rw [hdrField_frameOf]
    omega
  · rw [hn]
    exact hpos
  · rw [hsize]
    omega
  · rw [hsize, frameOf_length]

end FrameOf

namespace Packet

variable {p p' q : Packet} {f : IFStream} {turns : ℕ} {src own : Block} {body : List Byte}

theorem build_eq (hnone : p.builtPkt = none) :
    p.build f turns =
      ((if p.hasFileAttachment then (p.setBuildPending true).processInputFile f turns
        else .ok (p.setBuildPending true)) >>= fun p =>
      access p.buildHeader >>= fun p =>
      access { p with pktLen := i32 (u32 (p.fullHdrLen + p.payloadLen)) }.makePkt >>= fun p =>
      .ok (p.setBuildPending false)) := by
  have hsame : (p.setBuildPending true).hasFileAttachment = p.hasFileAttachment := rfl
  unfold build
  rw [hnone]
  dsimp only
  rw [hsame]
  split
  · rfl
  · rfl

theorem build_inv (hnone : p.builtPkt = none) (h : p.build f turns = .ok q) :
    ∃ p' built, (if p.hasFileAttachment then (p.setBuildPending true).processInputFile f turns
        else .ok (p.setBuildPending true)) = .ok p' ∧
      q.payloadLen = p'.payloadLen ∧ q.pktLen = i32 (u32 ((12 : ℕ) + q.payloadLen)) ∧
      q.builtPkt = some built ∧ built.size = sizeT (i32 (q.pktLen + 1)) := by
  rw [build_eq hnone] at h
  obtain ⟨p', hload, h⟩ := bind_eq_ok.mp h
  obtain ⟨p₁, hheader, h⟩ := bind_eq_ok.mp h
  obtain ⟨p₂, hmake, h⟩ := bind_eq_ok.mp h
  obtain ⟨built, hp₂, hsize⟩ := makePkt_inv (access_eq_ok.mp hmake)
  obtain ⟨hdr, hp₁⟩ : ∃ hdr, p₁ = { p' with fullHdrLen := 12, hdrLen := 9, header := hdr } := by
    unfold buildHeader at hheader
    obtain ⟨hdr, -, hdr_eq⟩ := bind_eq_ok.mp (access_eq_ok.mp hheader)
    exact ⟨some hdr, (Except.ok.inj hdr_eq).symm⟩
  subst hp₂ hp₁
  rw [← Except.ok.inj h]
  dsimp only [setBuildPending_false] at hsize ⊢
  exact ⟨p', built, hload, rfl, rfl, rfl, hsize⟩

theorem buildHeader_spec (hlen : p.payloadLen = body.length) :
    ∃ hdr, p.buildHeader = .ok { p with fullHdrLen := 12, hdrLen := 9, header := some hdr } ∧
      hdr.HoldsAt 0
        ((frameOf p.type p.charset p.encoding p.encryption p.compression body).take 12) := by
  let p₁ : Packet := { p with fullHdrLen := 12, hdrLen := 9 }
  have hbytes : p₁.headerBytes =
      (frameOf p.type p.charset p.encoding p.encryption p.compression body).take 12 := by
    simp only [p₁, headerBytes, hlen]
    rfl
  have hnil : (Block.malloc 12).HoldsAt 0 [] := Block.holdsAt_nil (by simp)
  obtain ⟨hdr, hstore, -, hhdr⟩ := hnil.storeAll p₁.headerBytes (by simp [hbytes])
  simp only [List.length_nil, Nat.zero_add, List.nil_append] at hstore hhdr
  refine ⟨hdr, ?_, by rwa [← hbytes]⟩
  simp only [buildHeader]
  rw [hstore]
  rfl

theorem pktLen_of_small {n : ℕ} (h : n < 2 ^ 31 - 12) :
    i32 (u32 ((12 : ℕ) + (n : ℕ))) = (12 + n : ℕ) := by
  have hsmall := u32_of_small (n := 12 + n) (by omega)
  rw [← Nat.cast_add, hsmall, i32_of_small] <;> omega

theorem build_spec (hnone : p.builtPkt = none)
    (hload : (if p.hasFileAttachment then (p.setBuildPending true).processInputFile f turns
      else .ok (p.setBuildPending true)) = .ok p')
    (hpld : p'.payload = some own) (hold : own.HoldsAt 0 body) (hlen : p'.payloadLen = body.length)
    (hlt : body.length < 2 ^ 31 - 12) :
    ∃ q, p.build f turns = .ok q ∧ q.hasFileAttachment = p'.hasFileAttachment ∧
      Carries q
        (frameOf p'.type p'.charset p'.encoding p'.encryption p'.compression body) := by
  obtain ⟨frame, hframe⟩ : ∃ frame, frame =
    frameOf p'.type p'.charset p'.encoding p'.encryption p'.compression body := ⟨_, rfl⟩
  have hsum : frame.length = 12 + body.length := by rw [hframe, frameOf_length]
  obtain ⟨hdr, hheader, hhdr⟩ := buildHeader_spec hlen
  rw [← hframe] at hhdr
  have hlen' : i32 (u32 ((12 : ℕ) + p'.payloadLen)) = frame.length := by
    rw [hlen, pktLen_of_small hlt, hsum]
  let p₂ : Packet :=
    { p' with fullHdrLen := 12, hdrLen := 9, header := some hdr, pktLen := frame.length }
  have hfields : Fields p₂ frame := by
    rw [hframe]
    refine ⟨rfl, rfl, rfl, rfl, rfl, rfl, rfl, ?_⟩
    rw [payloadField_frameOf (by omega)]
    exact hlen
  have hend : hdrEnd frame = 12 := by rw [hframe, hdrEnd_frameOf]
  have hsize : frame.length = frameSize frame := by
    rw [hframe, frameSize_frameOf (by omega), frameOf_length]
  obtain ⟨built, hmake, hcarries⟩ := makePkt_carries hfields rfl (by rwa [hend]) hpld
    (by rw [hend, hframe]; exact hold) hsize (by omega) rfl
  refine ⟨{ p₂ with builtPkt := some built }.setBuildPending false, ?_, rfl, hframe ▸ hcarries⟩
  rw [build_eq hnone, hload, ok_bind, hheader, access_ok, ok_bind, hlen']
  change (access p₂.makePkt >>= _) = _
  rw [hmake, access_ok, ok_bind]

/-- The length does not fit in an `int`, and the terminating zero is written in front of the
block. -/
theorem build_faults (hnone : p.builtPkt = none)
    (hload : (if p.hasFileAttachment then (p.setBuildPending true).processInputFile f turns
      else .ok (p.setBuildPending true)) = .ok p')
    (hneg : i32 (u32 ((12 : ℕ) + p'.payloadLen)) < 0) :
    p.build f turns = .error (.halt (.fault .outOfBounds)) := by
  have hlen : p'.payloadLen = (List.replicate p'.payloadLen (0 : Byte)).length :=
    List.length_replicate.symm
  obtain ⟨hdr, hheader, -⟩ := buildHeader_spec hlen
  rw [build_eq hnone, hload, ok_bind, hheader, access_ok, ok_bind]
  simp only [makePkt, if_neg (Int.not_le.mpr hneg)]
  rfl

theorem ofPayload_eq (hold : src.HoldsAt 0 body) (hlt : body.length < 2 ^ 31)
    (ct : PacketType) (cs : PacketCharSet) (enc : PacketEncoding) (compr : PacketCompression)
    (encr : PacketEncryption) :
    ∃ own, own.HoldsAt 0 body ∧ ofPayload (some src) body.length ct cs enc compr encr =
      build
        { type := ct, charset := cs, encoding := enc, encryption := encr, compression := compr,
          payloadLen := body.length, payload := some own }
        { isOpen := false, device := fun _ => .short [] } 0 := by
  have hlen : u32 body.length = body.length := u32_of_small (by omega)
  have hlen' : u32 (body.length + 1 : ℕ) = body.length + 1 := u32_of_small (by omega)
  obtain ⟨own₀, hstore, hsize⟩ := Block.store_of_lt (b := Block.malloc (body.length + 1))
    (i := body.length) (by simp) 0
  rw [Block.malloc_size] at hsize
  have hnil : own₀.HoldsAt 0 [] := Block.holdsAt_nil (by omega)
  obtain ⟨own, hcopy, -, hown⟩ := copyFrom_spec hnil hold (by simp; omega)
  simp only [List.length_nil, List.nil_append] at hcopy hown
  refine ⟨own, hown, ?_⟩
  simp only [ofPayload, hlen]
  rw [Nat.cast_succ] at hlen'
  rw [hlen', hstore, access_ok, ok_bind, hcopy, access_ok, ok_bind]

/-- A packet made from a payload is one frame. -/
theorem ofPayload_spec (hold : src.HoldsAt 0 body)
    (hlt : body.length < 2 ^ 31 - 12)
    (ct : PacketType) (cs : PacketCharSet) (enc : PacketEncoding) (compr : PacketCompression)
    (encr : PacketEncryption) :
    ∃ q, ofPayload (some src) body.length ct cs enc compr encr = .ok q ∧
      q.hasFileAttachment = false ∧ Carries q (frameOf ct cs enc encr compr body) := by
  obtain ⟨own, hown, hbuild⟩ := ofPayload_eq hold (by omega) ct cs enc compr encr
  let p : Packet :=
    { type := ct, charset := cs, encoding := enc, encryption := encr, compression := compr,
      payloadLen := body.length, payload := some own }
  have hload : (if p.hasFileAttachment then (p.setBuildPending true).processInputFile
      { isOpen := false, device := fun _ => .short [] } 0 else .ok (p.setBuildPending true)) =
      .ok (p.setBuildPending true) := rfl
  obtain ⟨q, hq, hfile, hcarries⟩ := build_spec rfl hload rfl hown rfl hlt
  exact ⟨q, hbuild.trans hq, hfile, hcarries⟩

end Packet

end P2Purr
