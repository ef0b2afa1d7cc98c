import P2Purr.Attachments
import P2Purr.Reassembly

namespace P2Purr
open Memory Loop Framing

section FileDevice

variable {content : List Byte} {n turns : ℕ}

theorem fileDevice_full (h : 1024 * (n + 1) ≤ content.length) :
    fileDevice content n = .full ((content.drop (1024 * n)).take 1024) := by
  have hlen : 1024 ≤ (content.drop (1024 * n)).length := by
    rw [List.length_drop]
    omega
  rw [fileDevice]
  exact if_pos hlen

theorem fileDevice_short (h : content.length < 1024 * (n + 1)) :
    fileDevice content n = .short (content.drop (1024 * n)) := by
  have hlen : ¬ 1024 ≤ (content.drop (1024 * n)).length := by
    rw [List.length_drop]
    omega
  rw [fileDevice]
  exact if_neg hlen

theorem fileDevice_endsAt (content : List Byte) :
    EndsAt (fileDevice content) (content.length / 1024) :=
  ⟨fun i hi => ⟨_, fileDevice_full (by omega)⟩, _, fileDevice_short (by omega)⟩

theorem blocks_fileDevice (h : 1024 * n ≤ content.length) :
    blocks (fileDevice content) n = content.take (1024 * n) := by
  induction n with
  | zero => simp
  | succ n ih =>
    rw [blocks_succ, ih (by omega), fileDevice_full h, ReadResult.block, Nat.mul_succ,
      List.take_add]

theorem blocks_fileDevice_all (content : List Byte) :
    blocks (fileDevice content) (content.length / 1024 + 1) = content := by
  rw [blocks_succ, blocks_fileDevice (by omega), fileDevice_short (by omega), ReadResult.block,
    List.take_append_drop]

theorem readBlocks_spec (hn : content.length / 1024 + 1 ≤ turns) :
    ∃ f, readBlocks turns (fileStream content) = .ok (content, f) := by
  have hends := fileDevice_endsAt content
  obtain ⟨⟨buffer, f⟩, hread⟩ := readBlocks_of_endsAt hends hn
  obtain ⟨m, hends', hbuffer, -⟩ := readBlocks_ends hread
  obtain rfl := hends.unique hends'
  rw [blocks_fileDevice_all] at hbuffer
  subst hbuffer
  exact ⟨f, hread⟩

end FileDevice

namespace Packet

variable {p : Packet} {path : String} {content : List Byte} {turns : ℕ}

theorem processInputFile_spec (hn : content.length / 1024 + 1 ≤ turns) (p : Packet) :
    ∃ own, p.processInputFile (fileStream content) turns =
        .ok { p with payloadLen := u32 content.length, payload := some own } ∧
      own.HoldsAt 0 (content.take (u32 content.length)) := by
  obtain ⟨f, hread⟩ := readBlocks_spec hn
  exact processInputFile_of_read (f := fileStream content) rfl hread p

/-- A packet made from a file is the frame of what a `uint32_t` counts of the content. -/
theorem ofAttachment_take (hpath : path ≠ "") (hn : content.length / 1024 + 1 ≤ turns)
    (hlt : u32 content.length < 2 ^ 31 - 12) (ct : PacketType) (cs : PacketCharSet)
    (enc : PacketEncoding) (compr : PacketCompression) (encr : PacketEncryption) :
    ∃ q, ofAttachment path (fileStream content) turns ct cs enc compr encr = .ok q ∧
      q.hasFileAttachment = true ∧
      Carries q (frameOf ct cs enc encr compr (content.take (u32 content.length))) := by
  let p : Packet :=
    { type := ct, charset := cs, encoding := enc, encryption := encr, compression := compr,
      attachmentFilePath := path, hasFileAttachment := path != "" }
  have hfile : p.hasFileAttachment = true := bne_iff_ne.mpr hpath
  have hlen : (content.take (u32 content.length)).length = u32 content.length := by
    rw [List.length_take, Nat.min_eq_left (u32_le _)]
  obtain ⟨own, hload, hown⟩ := processInputFile_spec hn (p.setBuildPending true)
  obtain ⟨q, hq, hsame, hcarries⟩ := build_spec (p := p) rfl (by rw [if_pos hfile, hload]) rfl hown
    hlen.symm (by rwa [hlen])
  exact ⟨q, hq, hsame.trans hfile, hcarries⟩

/-- A packet made from a file is the frame of the file's content. -/
theorem ofAttachment_spec (hpath : path ≠ "") (hn : content.length / 1024 + 1 ≤ turns)
    (hlt : content.length < 2 ^ 31 - 12) (ct : PacketType) (cs : PacketCharSet)
    (enc : PacketEncoding) (compr : PacketCompression) (encr : PacketEncryption) :
    ∃ q, ofAttachment path (fileStream content) turns ct cs enc compr encr = .ok q ∧
      q.hasFileAttachment = true ∧ Carries q (frameOf ct cs enc encr compr content) := by
  have hlen : u32 content.length = content.length := u32_of_small (by omega)
  have htake := ofAttachment_take hpath hn (by rwa [hlen]) ct cs enc compr encr
  rwa [hlen, List.take_length] at htake

end Packet

/-- What the receive buffer holds, from its beginning on, when `rebuild` is called. -/
structure Chunk where
  bytes : List Byte
  buffer : Block
  holds : buffer.HoldsAt 0 bytes
  nonempty : bytes ≠ []

def chunkOf (bs : List Byte) (hne : bs ≠ []) : Chunk :=
  ⟨bs, Block.ofList bs, Block.holdsAt_ofList bs, hne⟩

/-- One call of `rebuild` for each chunk, with the index reset to the beginning of the buffer. -/
def rebuildAll : Packet → OutFile → List Chunk → Except (Stop Decoder) (Packet × OutFile)
  | p, o, [] => .ok (p, o)
  | p, o, c :: cs => do
    let d ← Decoder.rebuild
      { pkt := { p with buffTotalLen := c.bytes.length }
        buffer := c.buffer, currBuffIdx := 0, outFile := o }
    rebuildAll d.pkt d.outFile cs

def bytesOf (cs : List Chunk) : List Byte := (cs.map Chunk.bytes).flatten

variable {p : Packet} {o : OutFile} {acc f : List Byte} {c : Chunk} {cs : List Chunk}

theorem rebuildAll_pending (hd : Decoding p acc) (hwhole : acc.length ≠ 1 ∧ acc.length ≠ 2)
    {t : List Byte} (ht : t ≠ []) (hf : wire.IsFrame (acc ++ c.bytes ++ t)) (o : OutFile)
    (cs : List Chunk) :
    ∃ q, rebuildAll p o (c :: cs) = rebuildAll q o cs ∧ Decoding q (acc ++ c.bytes) := by
  have hspec := Decoder.rebuild_spec (d :=
      { pkt := { p with buffTotalLen := c.bytes.length }, buffer := c.buffer, currBuffIdx := 0
        outFile := o })
    (hd.congr rfl rfl rfl rfl rfl rfl) rfl (Nat.zero_add _) c.holds c.nonempty
  rw [verdict_of_begun hd.isPartial hwhole le_rfl c.nonempty ht hf] at hspec
  obtain ⟨d, hrebuild, ⟨-, hfile⟩, hdec, -⟩ := hspec
  refine ⟨d.pkt, ?_, hdec⟩
  rw [rebuildAll, hrebuild, ok_bind, hfile]

theorem rebuildAll_complete (hd : Decoding p acc) (hwhole : acc.length ≠ 1 ∧ acc.length ≠ 2)
    (hf : wire.IsFrame (acc ++ c.bytes)) :
    ∃ q, rebuildAll p o [c] = .ok (q, o.written (acc ++ c.bytes)) ∧ Carries q (acc ++ c.bytes) ∧
      q.hasFileAttachment = (q.type == genericFile) := by
  have hspec := Decoder.rebuild_spec (d :=
      { pkt := { p with buffTotalLen := c.bytes.length }, buffer := c.buffer, currBuffIdx := 0
        outFile := o })
    (hd.congr rfl rfl rfl rfl rfl rfl) rfl (Nat.zero_add _) c.holds c.nonempty
  rw [verdict_of_frame hwhole le_rfl hf le_rfl, List.take_length] at hspec
  obtain ⟨d, hrebuild, -, hfile, hcarries, hattached, -⟩ := hspec
  refine ⟨d.pkt, ?_, hcarries, hattached⟩
  rw [rebuildAll, hrebuild, ok_bind, rebuildAll, hfile]

/-- A frame that comes in chunks, by induction on them; only its first three bytes have to
come together. -/
theorem rebuildAll_spec (hd : Decoding p acc) (hwhole : acc.length ≠ 1 ∧ acc.length ≠ 2)
    (hne : cs ≠ []) (hfirst : acc = [] → ∀ c ∈ cs.head?, 3 ≤ c.bytes.length)
    (hf : wire.IsFrame (acc ++ bytesOf cs)) (o : OutFile) :
    ∃ q, rebuildAll p o cs = .ok (q, o.written (acc ++ bytesOf cs)) ∧
      Carries q (acc ++ bytesOf cs) ∧ q.hasFileAttachment = (q.type == genericFile) := by
  induction cs generalizing p acc with
  | nil => exact absurd rfl hne
  | cons c cs ih =>
    rw [bytesOf, List.map_cons, List.flatten_cons, ← bytesOf] at hf ⊢
    by_cases hlast : cs = []
    · subst hlast
      rw [bytesOf, List.map_nil, List.flatten_nil, List.append_nil] at hf ⊢
      exact rebuildAll_complete hd hwhole hf
    · have hrest : bytesOf cs ≠ [] := by
        obtain ⟨c', cs', rfl⟩ := List.exists_cons_of_ne_nil hlast
        simp [bytesOf, c'.nonempty]
      rw [← List.append_assoc] at hf ⊢
      obtain ⟨q, hstep, hdec⟩ := rebuildAll_pending hd hwhole hrest hf o cs
      have hthree : 3 ≤ (acc ++ c.bytes).length := by
        rw [List.length_append]
        by_cases hnil : acc = []
        · have := hfirst hnil c (by simp)
          omega
        · have := List.length_pos_iff.mpr hnil
          omega
      rw [hstep]
      refine ih hdec (by omega) hlast ?_ hf
      intro hnil
      rw [hnil] at hthree
      simp at hthree

inductive MadeFrom (ct : PacketType) (body : List Byte) (p : Packet) : Prop
  | file (path : String) (turns : ℕ) (cs : PacketCharSet) (enc : PacketEncoding)
      (compr : PacketCompression) (encr : PacketEncryption) (hpath : path ≠ "")
      (hturns : body.length / 1024 + 1 ≤ turns)
      (h : Packet.ofAttachment path (fileStream body) turns ct cs enc compr encr = .ok p)
  | payload (src : Block) (cs : PacketCharSet) (enc : PacketEncoding) (compr : PacketCompression)
      (encr : PacketEncryption) (hold : src.HoldsAt 0 body)
      (h : Packet.ofPayload (some src) body.length ct cs enc compr encr = .ok p)

theorem MadeFrom.getPacket {ct : PacketType} {body : List Byte} (h : MadeFrom ct body p)
    (hlt : body.length < 2 ^ 31 - 12) :
    ∃ cs enc compr encr, p.getPacket = .ok (frameOf ct cs enc encr compr body) := by
  cases h with
  | file path turns cs enc compr encr hpath hturns h =>
    obtain ⟨q, hq, -, hcarries⟩ := Packet.ofAttachment_spec hpath hturns hlt ct cs enc compr encr
    obtain rfl : q = p := Except.ok.inj (hq.symm.trans h)
    exact ⟨cs, enc, compr, encr, hcarries.packet⟩
  | payload src cs enc compr encr hold h =>
    obtain ⟨q, hq, -, hcarries⟩ := Packet.ofPayload_spec hold hlt ct cs enc compr encr
    obtain rfl : q = p := Except.ok.inj (hq.symm.trans h)
    exact ⟨cs, enc, compr, encr, hcarries.packet⟩

theorem written_frameOf (o : OutFile) (ct : PacketType) (cs : PacketCharSet) (enc : PacketEncoding)
    (encr : PacketEncryption) (compr : PacketCompression) (body : List Byte) :
    o.written (frameOf ct cs enc encr compr body) =
      if ct = genericFile ∧ o.opens = true then { o with content := some body } else o := by
  obtain ⟨l₀, l₁, l₂, l₃, -, hframe⟩ := frameOf_eq ct cs enc encr compr body
  unfold OutFile.written
  rw [hdrEnd_frameOf, hframe]
  simp

/-- Only the type decides: the content of a `generic_file` comes out again, and a packet of
another type leaves the file alone. -/
theorem rebuilds_file {ct : PacketType} {body : List Byte} (hmade : MadeFrom ct body p)
    (hpos : 1 ≤ body.length) (hle : body.length ≤ 2 ^ 31 - 14)
    (hbytes : p.getPacket = .ok (bytesOf cs)) (hfirst : ∀ c ∈ cs.head?, 3 ≤ c.bytes.length)
    (total : ℤ) (o : OutFile) :
    ∃ q o', rebuildAll (Decoder.newPacket 0 total) o cs = .ok (q, o') ∧ q.pktBuilt = true ∧
      q.hasFileAttachment = (ct == genericFile) ∧
      o' = if ct = genericFile ∧ o.opens = true then { o with content := some body } else o := by
  obtain ⟨cset, enc, compr, encr, hpacket⟩ := hmade.getPacket (by omega)
  have hjoin : bytesOf cs = frameOf ct cset enc encr compr body :=
    Except.ok.inj (hbytes.symm.trans hpacket)
  have hframe : wire.IsFrame (bytesOf cs) := by
    rw [hjoin]
    exact frameOf_isFrame (List.length_pos_iff.mp hpos) (by omega)
  have hne : cs ≠ [] := by
    rintro rfl
    have := (wire_size_eq_some.mp hframe).1
    simp [bytesOf] at this
  obtain ⟨q, hq, hcarries, hattached⟩ := rebuildAll_spec (decoding_newPacket 0 total) (by simp) hne
    (fun _ => hfirst) (by rwa [List.nil_append]) o
  rw [List.nil_append, hjoin] at hq hcarries
  have htype : q.type = ct := (Option.some.inj hcarries.type).symm
  refine ⟨q, _, hq, hcarries.built, by rw [hattached, htype], ?_⟩
  rw [written_frameOf]

/-- A one-letter packet of this type in two chunks, the first of which ends behind the type. -/
def letterPieces (ct : PacketType) : List Chunk :=
  [chunkOf [0xFF, 0, 9, ct] (List.cons_ne_nil _ _),
    chunkOf [2, 1, 0, 1, 0, 0, 0, 1, 0x61] (List.cons_ne_nil _ _)]

theorem bytesOf_letterPieces (ct : PacketType) :
    bytesOf (letterPieces ct) = frameOf ct 2 1 0 1 [0x61] := rfl

theorem exists_letter_file (ct : PacketType) :
    ∃ p, Packet.ofAttachment "in.txt" (fileStream [0x61]) 1 ct 2 1 1 0 = .ok p ∧
      p.hasFileAttachment = true ∧ p.getPacket = .ok (bytesOf (letterPieces ct)) := by
  have hpath : "in.txt" ≠ "" := by decide
  have hturns : ([0x61] : List Byte).length / 1024 + 1 ≤ 1 := by decide
  obtain ⟨p, hp, hfile, hcarries⟩ :=
    Packet.ofAttachment_spec hpath hturns (by decide) ct 2 1 1 0
  exact ⟨p, hp, hfile, hcarries.packet⟩

theorem rebuilds_letter_file :
    ∃ p q, Packet.ofAttachment "in.txt" (fileStream [0x61]) 1 genericFile 2 1 1 0 = .ok p ∧
      p.getPacket = .ok (bytesOf (letterPieces genericFile)) ∧
      rebuildAll (Decoder.newPacket 0 4) {} (letterPieces genericFile) =
        .ok (q, { opens := true, content := some [0x61] }) := by
  obtain ⟨p, hp, -, hbytes⟩ := exists_letter_file genericFile
  obtain ⟨q, o', hq, -, -, rfl⟩ := rebuilds_file
    (.file "in.txt" 1 2 1 1 0 (by decide) (by decide) hp) (by decide) (by decide) hbytes
    (by simp [letterPieces, chunkOf]) 4 {}
  exact ⟨p, q, hp, hbytes, hq⟩

theorem rebuildAll_letter (ct : PacketType) :
    ∃ q, rebuildAll (Decoder.newPacket 0 4) {} (letterPieces ct) =
        .ok (q, if ct = genericFile then { content := some [0x61] } else {}) ∧
      q.hasFileAttachment = (ct == genericFile) := by
  have hframe : wire.IsFrame ([] ++ bytesOf (letterPieces ct)) := by
    rw [List.nil_append, bytesOf_letterPieces]
    exact frameOf_isFrame (by simp) (by decide)
  obtain ⟨q, hq, hcarries, hattached⟩ := rebuildAll_spec (decoding_newPacket 0 4) (by simp)
    (by simp [letterPieces]) (by simp [letterPieces, chunkOf]) hframe {}
  rw [List.nil_append, bytesOf_letterPieces] at hq hcarries
  have htype : q.type = ct := (Option.some.inj hcarries.type).symm
  refine ⟨q, ?_, by rw [hattached, htype]⟩
  rw [hq, written_frameOf]
  simp

/-- A file sent as `text_plain` is received as a payload only; a payload sent as `generic_file` is
written to the output file. -/
theorem attached_by_type :
    (∃ p q, Packet.ofAttachment "in.txt" (fileStream [0x61]) 1 1 2 1 1 0 = .ok p ∧
      p.hasFileAttachment = true ∧ p.getPacket = .ok (bytesOf (letterPieces 1)) ∧
      rebuildAll (Decoder.newPacket 0 4) {} (letterPieces 1) =
        .ok (q, { opens := true, content := none }) ∧ q.hasFileAttachment = false) ∧
    ∃ p q, Packet.ofPayload (some (Block.ofList [0x61])) 1 genericFile 2 1 1 0 = .ok p ∧
      p.hasFileAttachment = false ∧ p.getPacket = .ok (bytesOf (letterPieces genericFile)) ∧
      rebuildAll (Decoder.newPacket 0 4) {} (letterPieces genericFile) =
        .ok (q, { opens := true, content := some [0x61] }) ∧ q.hasFileAttachment = true := by
  constructor
  · obtain ⟨p, hp, hfile, hbytes⟩ := exists_letter_file 1
    obtain ⟨q, hq, hattached⟩ := rebuildAll_letter 1
    exact ⟨p, q, hp, hfile, hbytes, hq, hattached⟩
  · obtain ⟨p, hp, hfile, hcarries⟩ := Packet.ofPayload_spec (Block.holdsAt_ofList [0x61])
      (by decide) genericFile 2 1 1 0
    obtain ⟨q, hq, hattached⟩ := rebuildAll_letter genericFile
    exact ⟨p, q, hp, hfile, hcarries.packet, hq, hattached⟩

end P2Purr
