import P2Purr.FileTransfer

namespace P2Purr
open Memory Serializer Framing

variable {p q : Packet} {body : List Byte} {r : Except (Stop Unit) Packet} {f : IFStream}
  {turns : ℕ}

/-- What the sending constructors do with these bytes, which come from memory or from a file. -/
inductive Construction (body : List Byte) : Except (Stop Unit) Packet → Prop
  | payload (src : Block) (ct : PacketType) (cs : PacketCharSet) (enc : PacketEncoding)
      (compr : PacketCompression) (encr : PacketEncryption) (hold : src.HoldsAt 0 body)
      (hint : body.length < 2 ^ 31) :
      Construction body (Packet.ofPayload (some src) body.length ct cs enc compr encr)
  | attachment (path : String) (turns : ℕ) (ct : PacketType) (cs : PacketCharSet)
      (enc : PacketEncoding) (compr : PacketCompression) (encr : PacketEncryption)
      (hpath : path ≠ "") (hturns : body.length / 1024 + 1 ≤ turns) :
      Construction body (Packet.ofAttachment path (fileStream body) turns ct cs enc compr encr)

structure Exact (p : Packet) (body : List Byte) : Prop where
  payload_len : p.payloadLen = body.length
  pkt_len : p.pktLen = 12 + body.length
  requested : ∃ built, p.builtPkt = some built ∧ built.size = 13 + body.length
  payload : p.getPayload = .ok body
  packet : ∃ hdr, p.getHeader = .ok hdr ∧ hdr.length = 12 ∧
    (deserializeInt32 (hdr.drop 8)).toInt = body.length ∧ p.getPacket = .ok (hdr ++ body)

/-- The construction comes back with exact lengths, or throws. -/
def ExactOrThrows (body : List Byte) (r : Except (Stop Unit) Packet) : Prop :=
  (∃ p, r = .ok p ∧ Exact p body) ∨ ∃ e left, r = .error (.raised e left)

namespace Packet

theorem neverThrows_readBlocks (turns : ℕ) (f : IFStream) : NeverThrows (readBlocks turns f) := by
  intro e left h
  unfold readBlocks at h
  -- no turn stops, and running out of turns is not an exception
  exact (Loop.whileLoop_keeps (fun _ => True) (fun stop => stop ≠ .raised e left)
    (fun _ _ _ _ _ => trivial) (fun _ _ _ _ hturn => by cases hturn) (by simp) trivial).2 _ h rfl

theorem neverThrows_processInputFile (p : Packet) (f : IFStream) (turns : ℕ) :
    NeverThrows (p.processInputFile f turns) := by
  unfold processInputFile
  split
  · refine (neverThrows_readBlocks turns f).bind fun s _ => ?_
    exact (neverThrows_access _).bind fun own _ => neverThrows_ok _
  · exact neverThrows_ok _

theorem neverThrows_build (p : Packet) (f : IFStream) (turns : ℕ) :
    NeverThrows (p.build f turns) := by
  cases hbuilt : p.builtPkt with
  | some built =>
    unfold build
    rw [hbuilt]
    exact neverThrows_ok _
  | none =>
    rw [build_eq hbuilt]
    refine NeverThrows.bind ?_ fun p₁ _ => ?_
    · split
      · exact neverThrows_processInputFile _ f turns
      · exact neverThrows_ok _
    · refine (neverThrows_access _).bind fun p₂ _ => ?_
      exact (neverThrows_access _).bind fun p₃ _ => neverThrows_ok _

end Packet

theorem Construction.neverThrows (h : Construction body r) : NeverThrows r := by
  cases h with
  | payload src ct cs enc compr encr hold hint =>
    refine (neverThrows_access _).bind fun own₀ _ => ?_
    exact (neverThrows_access _).bind fun own _ => Packet.neverThrows_build _ _ _
  | attachment path turns ct cs enc compr encr hpath hturns => exact Packet.neverThrows_build _ _ _

theorem Construction.lengths (h : Construction body r) (hr : r = .ok p) :
    p.pktLen = i32 (u32 ((12 : ℕ) + p.payloadLen)) ∧
      ∃ built, p.builtPkt = some built ∧ built.size = sizeT (i32 (p.pktLen + 1)) := by
  have hbuild : ∃ p₀ f turns, p₀.builtPkt = none ∧ Packet.build p₀ f turns = .ok p := by
    cases h with
    | payload src ct cs enc compr encr hold hint =>
      obtain ⟨own₀, -, hr⟩ := bind_eq_ok.mp hr
      obtain ⟨own, -, hr⟩ := bind_eq_ok.mp hr
      exact ⟨_, _, _, rfl, hr⟩
    | attachment path turns ct cs enc compr encr hpath hturns => exact ⟨_, _, _, rfl, hr⟩
  obtain ⟨p₀, f, turns, hnone, hbuild⟩ := hbuild
  obtain ⟨-, built, -, -, hpkt, hbuilt, hsize⟩ := Packet.build_inv hnone hbuild
  exact ⟨hpkt, built, hbuilt, hsize⟩

/-- The largest length whose packet, with a zero behind it, an `int` can count. -/
theorem Exact.length_le (h : Exact p body) (hsize : ∃ built, p.builtPkt = some built ∧
    built.size = sizeT (i32 (p.pktLen + 1)))
    (hpkt : p.pktLen = i32 (u32 ((12 : ℕ) + p.payloadLen))) :
    body.length ≤ 2 ^ 31 - 14 := by
  obtain ⟨built, hbuilt, hrequested⟩ := h.requested
  obtain ⟨built', hbuilt', hsize⟩ := hsize
  obtain rfl : built = built' := Option.some.inj (hbuilt.symm.trans hbuilt')
  have hlen := h.pkt_len
  rw [hlen, sizeT, i32_eq] at hsize
  rw [hlen, i32_eq] at hpkt
  omega

theorem Construction.carries (h : Construction body r) (hlt : body.length < 2 ^ 31 - 12) :
    ∃ p ct cs enc encr compr, r = .ok p ∧ Carries p (frameOf ct cs enc encr compr body) := by
  cases h with
  | payload src ct cs enc compr encr hold hint =>
    obtain ⟨q, hq, -, hcarries⟩ := Packet.ofPayload_spec hold hlt ct cs enc compr encr
    exact ⟨q, ct, cs, enc, encr, compr, hq, hcarries⟩
  | attachment path turns ct cs enc compr encr hpath hturns =>
    obtain ⟨q, hq, -, hcarries⟩ := Packet.ofAttachment_spec hpath hturns hlt ct cs enc compr encr
    exact ⟨q, ct, cs, enc, encr, compr, hq, hcarries⟩

theorem deserialize_frameOf {ct : PacketType} {cs : PacketCharSet} {enc : PacketEncoding}
    {encr : PacketEncryption} {compr : PacketCompression} (hlt : body.length < 2 ^ 31) :
    (deserializeInt32 (((frameOf ct cs enc encr compr body).take 12).drop 8)).toInt =
      body.length := by
  have hbytes : ((frameOf ct cs enc encr compr body).take 12).drop 8 =
      serializeInt32 (BitVec.ofNat 64 body.length) := by
    simp [frameOf, serializeInt32]
  have hnat : (deserializeInt32 (serializeInt32 (BitVec.ofNat 64 body.length))).toNat =
      body.length := by
    rw [deserializeInt32_toNat rfl, beValue_serializeInt32 (by omega)]
  rw [hbytes, BitVec.toInt_eq_toNat_of_lt (by omega), hnat]

theorem Exact.of_carries {ct : PacketType} {cs : PacketCharSet} {enc : PacketEncoding}
    {encr : PacketEncryption} {compr : PacketCompression}
    (h : Carries p (frameOf ct cs enc encr compr body)) (hle : body.length ≤ 2 ^ 31 - 14)
    (hsize : ∃ built, p.builtPkt = some built ∧ built.size = sizeT (i32 (p.pktLen + 1))) :
    Exact p body := by
  have hpkt : p.pktLen = 12 + body.length := by
    rw [h.pkt_len, frameOf_length]
    rfl
  obtain ⟨built, hbuilt, hsize⟩ := hsize
  refine ⟨?_, hpkt, ⟨built, hbuilt, ?_⟩, ?_, _, h.header, ?_, ?_, ?_⟩
  · rw [h.payload_len, payloadField_frameOf (by omega)]
  · rw [hsize, hpkt, sizeT, i32_eq]
    omega
  · rw [h.payload]
    rfl
  · simp [hdrEnd_frameOf]
  · exact deserialize_frameOf (by omega)
  · rw [h.packet]
    rfl

/-- The lengths are exact up to `2 ^ 31 - 14` bytes, and no longer payload is refused. -/
theorem exactOrThrows_iff (h : Construction body r) :
    ExactOrThrows body r ↔ body.length ≤ 2 ^ 31 - 14 := by
  constructor
  · intro hr
    cases hr with
    | inl hexact =>
      obtain ⟨p, hr, hexact⟩ := hexact
      obtain ⟨hpkt, hsize⟩ := h.lengths hr
      exact hexact.length_le hsize hpkt
    | inr hraised =>
      obtain ⟨e, left, hr⟩ := hraised
      exact absurd hr (h.neverThrows e left)
  · intro hle
    obtain ⟨p, ct, cs, enc, encr, compr, hr, hcarries⟩ := h.carries (by omega)
    exact Or.inl ⟨p, hr, .of_carries hcarries hle (h.lengths hr).2⟩

theorem exactOrThrows_letter :
    ExactOrThrows [0x61] (Packet.ofPayload (some (Block.ofList [0x61])) 1 1 2 1 1 0) ∧
      ExactOrThrows [] (Packet.ofAttachment "in.txt" (fileStream []) 1 17 2 1 1 0) :=
  ⟨(exactOrThrows_iff (.payload _ 1 2 1 1 0 (Block.holdsAt_ofList [0x61]) (by decide))).mpr
    (by decide),
    (exactOrThrows_iff (.attachment _ 1 17 2 1 1 0 (by decide) (by decide))).mpr (by decide)⟩

/-- With one byte more, `pkt_len + 1` is larger than any `int`. -/
theorem not_exactOrThrows :
    ∃ body : List Byte, body.length = 2 ^ 31 - 13 ∧
      ¬ ExactOrThrows body
        (Packet.ofPayload (some (Block.ofList body)) (2 ^ 31 - 13) 1 2 1 1 0) := by
  refine ⟨List.replicate (2 ^ 31 - 13) 0, List.length_replicate, ?_⟩
  have hlen : (List.replicate (2 ^ 31 - 13) (0 : Byte)).length = 2 ^ 31 - 13 :=
    List.length_replicate
  generalize List.replicate (2 ^ 31 - 13) (0 : Byte) = body at hlen ⊢
  have hmade : Construction body
      (Packet.ofPayload (some (Block.ofList body)) body.length 1 2 1 1 0) :=
    .payload _ 1 2 1 1 0 (Block.holdsAt_ofList body) (by omega)
  have hcast : ((body.length : ℕ) : ℤ) = 2 ^ 31 - 13 := by omega
  rw [hcast] at hmade
  rintro (⟨p, hr, hexact⟩ | ⟨e, left, hr⟩)
  · obtain ⟨hpkt, hsize⟩ := hmade.lengths hr
    have hle := hexact.length_le hsize hpkt
    omega
  · exact hmade.neverThrows e left hr

/-- Up to `2 ^ 32 - 13` bytes, `pkt_len` is negative. -/
theorem Construction.faults (h : Construction body r) (hmin : 2 ^ 31 - 12 ≤ body.length)
    (hmax : body.length < 2 ^ 32 - 12) : r = .error (.halt (.fault .outOfBounds)) := by
  have hneg : i32 (u32 ((12 : ℕ) + (body.length : ℕ))) < 0 := by
    rw [← Nat.cast_add, u32_of_small (by omega), i32_eq]
    omega
  cases h with
  | payload src ct cs enc compr encr hold hint =>
    obtain ⟨own, -, hbuild⟩ := Packet.ofPayload_eq hold hint ct cs enc compr encr
    rw [hbuild]
    exact Packet.build_faults rfl rfl hneg
  | attachment path turns ct cs enc compr encr hpath hturns =>
    have hfile : (path != "") = true := bne_iff_ne.mpr hpath
    obtain ⟨own, hload, -⟩ := Packet.processInputFile_spec hturns (Packet.setBuildPending
      { type := ct, charset := cs, encoding := enc, encryption := encr, compression := compr,
        attachmentFilePath := path, hasFileAttachment := path != "" } true)
    refine Packet.build_faults rfl (by rw [if_pos hfile]; exact hload) ?_
    rwa [u32_of_small (by omega)]

/-- Of a file of `2 ^ 32` bytes and some more, only these are sent. -/
theorem ofAttachment_cut {path : String} (hpath : path ≠ "")
    (hturns : body.length / 1024 + 1 ≤ turns) {m : ℕ} (hlen : body.length = 2 ^ 32 + m)
    (hm : m < 2 ^ 31 - 12) (ct : PacketType) (cs : PacketCharSet) (enc : PacketEncoding)
    (compr : PacketCompression) (encr : PacketEncryption) :
    ∃ q, Packet.ofAttachment path (fileStream body) turns ct cs enc compr encr = .ok q ∧
      Carries q (frameOf ct cs enc encr compr (body.take m)) := by
  have hcount : u32 body.length = m := by
    rw [hlen, u32]
    omega
  obtain ⟨q, hq, -, hcarries⟩ := Packet.ofAttachment_take hpath hturns (by rwa [hcount]) ct cs enc
    compr encr
  rw [hcount] at hcarries
  exact ⟨q, hq, hcarries⟩

end P2Purr
