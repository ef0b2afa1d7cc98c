import P2Purr.Building

namespace P2Purr
open Memory Loop Framing

def ReadResult.block : ReadResult → List Byte
  | full block => block
  | short block => block
  | error block => block

def ReadResult.isError : ReadResult → Bool
  | error _ => true
  | _ => false

def IFStream.opened (device : ℕ → ReadResult) : IFStream := { isOpen := true, device := device }

def FullUpTo (device : ℕ → ReadResult) (n : ℕ) : Prop := ∀ i < n, ∃ block, device i = .full block

structure EndsAt (device : ℕ → ReadResult) (n : ℕ) : Prop where
  full : FullUpTo device n
  short : ∃ block, device n = .short block

def blocks (device : ℕ → ReadResult) (n : ℕ) : List Byte :=
  (List.range n).flatMap fun i => (device i).block

variable {device : ℕ → ReadResult} {n k turns : ℕ} {block : List Byte}

@[simp] theorem blocks_zero (device : ℕ → ReadResult) : blocks device 0 = [] := rfl

theorem blocks_succ (device : ℕ → ReadResult) (n : ℕ) :
    blocks device (n + 1) = blocks device n ++ (device n).block := by
  simp [blocks, List.range_succ]

theorem FullUpTo.succ (h : FullUpTo device n) (hn : device n = .full block) :
    FullUpTo device (n + 1) := by
  intro i hi
  rcases Nat.lt_succ_iff_lt_or_eq.mp hi with hlt | rfl
  · exact h i hlt
  · exact ⟨block, hn⟩

theorem EndsAt.le_of_full (h : EndsAt device n) (hk : FullUpTo device k) : k ≤ n := by
  by_contra hlt
  obtain ⟨full, hfull⟩ := hk n (by omega)
  obtain ⟨short, hshort⟩ := h.short
  simp [hshort] at hfull

theorem EndsAt.unique (h : EndsAt device n) (h' : EndsAt device k) : k = n :=
  le_antisymm (h.le_of_full h'.full) (h'.le_of_full h.full)

theorem EndsAt.isError_eq_false (h : EndsAt device n) (hk : k < n + 1) :
    (device k).isError = false := by
  rcases Nat.lt_succ_iff_lt_or_eq.mp hk with hlt | rfl
  · obtain ⟨block, hfull⟩ := h.full k hlt
    rw [hfull]
    rfl
  · obtain ⟨block, hshort⟩ := h.short
    rw [hshort]
    rfl

/-- The buffer and the stream at the head of the loop: full blocks so far, a read that failed, or
the short block. -/
inductive BlocksRead (device : ℕ → ReadResult) : List Byte × IFStream → Prop
  | going (n : ℕ) (full : FullUpTo device n) :
      BlocksRead device (blocks device n, { IFStream.opened device with nextRead := n })
  | failed (n : ℕ) (full : FullUpTo device n) (failed : (device n).isError = true) :
      BlocksRead device
        (blocks device (n + 1), { IFStream.opened device with nextRead := n + 1, badbit := true })
  | ended (n : ℕ) (ends : EndsAt device n) :
      BlocksRead device
        (blocks device (n + 1), { IFStream.opened device with nextRead := n + 1, eofbit := true })

variable {s : List Byte × IFStream}

def readBlock (s : List Byte × IFStream) : List Byte × IFStream := (s.1 ++ s.2.read.1, s.2.read.2)

/-- A turn reads one block more, or, after a read that failed, changes nothing. -/
theorem BlocksRead.turn (h : BlocksRead device s) (heof : s.2.eofbit = false) :
    BlocksRead device (readBlock s) ∧
      (s.2.badbit = false → (readBlock s).2.nextRead = s.2.nextRead + 1) := by
  cases h with
  | ended n ends => simp at heof
  | failed n full failed =>
    have hsame : readBlock (blocks device (n + 1),
        { IFStream.opened device with nextRead := n + 1, badbit := true }) =
        (blocks device (n + 1),
          { IFStream.opened device with nextRead := n + 1, badbit := true }) := by
      simp [readBlock, IFStream.read, IFStream.opened]
    rw [hsame]
    exact ⟨.failed n full failed, by simp⟩
  | going n full =>
    cases hread : device n with
    | full block =>
      have hnext : readBlock (blocks device n, { IFStream.opened device with nextRead := n }) =
          (blocks device (n + 1), { IFStream.opened device with nextRead := n + 1 }) := by
        simp [readBlock, IFStream.read, IFStream.opened, hread, blocks_succ, ReadResult.block]
      rw [hnext]
      exact ⟨.going (n + 1) (full.succ hread), fun _ => rfl⟩
    | short block =>
      have hnext : readBlock (blocks device n, { IFStream.opened device with nextRead := n }) =
          (blocks device (n + 1),
            { IFStream.opened device with nextRead := n + 1, eofbit := true }) := by
        simp [readBlock, IFStream.read, IFStream.opened, hread, blocks_succ, ReadResult.block]
      rw [hnext]
      exact ⟨.ended n ⟨full, block, hread⟩, fun _ => rfl⟩
    | error block =>
      have hnext : readBlock (blocks device n, { IFStream.opened device with nextRead := n }) =
          (blocks device (n + 1),
            { IFStream.opened device with nextRead := n + 1, badbit := true }) := by
        simp [readBlock, IFStream.read, IFStream.opened, hread, blocks_succ, ReadResult.block]
      rw [hnext]
      exact ⟨.failed n full (by rw [hread]; rfl), fun _ => rfl⟩

theorem blocksRead_opened (device : ℕ → ReadResult) :
    BlocksRead device ([], IFStream.opened device) :=
  .going 0 fun _ hi => absurd hi (Nat.not_lt_zero _)

theorem readBlocks_ends (h : readBlocks turns (IFStream.opened device) = .ok s) :
    ∃ n, EndsAt device n ∧ s.1 = blocks device (n + 1) ∧ s.2.nextRead = n + 1 := by
  unfold readBlocks at h
  have heof : s.2.eofbit = true := by simpa using whileLoop_exited h
  have hstate : BlocksRead device s := by
    refine whileLoop_invariant (BlocksRead device) (fun t t' ht hg hbody => ?_)
      (blocksRead_opened device) h
    obtain rfl : readBlock t = t' := Except.ok.inj hbody
    exact (ht.turn (by simpa using hg)).1
  cases hstate with
  | going n full => simp [IFStream.opened] at heof
  | failed n full failed => simp [IFStream.opened] at heof
  | ended n ends => exact ⟨n, ends, rfl, rfl⟩

theorem readBlocks_of_endsAt (h : EndsAt device n) (hn : n + 1 ≤ turns) :
    ∃ s, readBlocks turns (IFStream.opened device) = .ok s := by
  have hloop : ∃ s, readBlocks turns (IFStream.opened device) = .ok s ∧ BlocksRead device s ∧
      (!s.2.eofbit) = false := by
    unfold readBlocks
    refine whileLoop_total (BlocksRead device) (fun s => n + 1 - s.2.nextRead) (fun s hs hg => ?_)
      (blocksRead_opened device) hn
    obtain ⟨hturn, hnext⟩ := hs.turn (by simpa using hg)
    refine ⟨readBlock s, rfl, hturn, ?_⟩
    cases hs with
    | going k full =>
      have hle := h.le_of_full full
      rw [hnext rfl]
      simp only
      omega
    | failed k full failed =>
      have hle := h.le_of_full full
      rw [h.isError_eq_false (by omega)] at failed
      cases failed
    | ended k ends => simp at hg
  obtain ⟨s, hs, -⟩ := hloop
  exact ⟨s, hs⟩

/-- Without a short block after full ones, the loop never ends. -/
theorem readBlocks_hangs (h : ¬ ∃ n, EndsAt device n) (turns : ℕ) :
    readBlocks turns (IFStream.opened device) = .error (.halt .hang) := by
  unfold readBlocks
  refine whileLoop_diverges (BlocksRead device) (fun s hs => ?_) (blocksRead_opened device) turns
  have heof : s.2.eofbit = false := by
    cases hs with
    | going n full => rfl
    | failed n full failed => rfl
    | ended n ends => exact absurd ⟨n, ends⟩ h
  exact ⟨by simp [heof], readBlock s, rfl, (hs.turn heof).1⟩

namespace Packet

variable {p q : Packet} {f : IFStream}

/-- What was read becomes the payload, as far as a `uint32_t` counts it. -/
theorem processInputFile_of_read (hopen : f.isOpen = true) (hread : readBlocks turns f = .ok s)
    (p : Packet) :
    ∃ own, p.processInputFile f turns =
        .ok { p with payloadLen := u32 s.1.length, payload := some own } ∧
      own.HoldsAt 0 (s.1.take (u32 s.1.length)) := by
  have htake : (s.1.take (u32 s.1.length)).length = u32 s.1.length := by
    rw [List.length_take, Nat.min_eq_left (u32_le _)]
  have hnil : (Block.malloc (u32 s.1.length)).HoldsAt 0 [] := Block.holdsAt_nil (Nat.zero_le _)
  obtain ⟨own, hcopy, -, hown⟩ := copyFrom_spec hnil
    ((Block.holdsAt_ofList s.1).take (u32 s.1.length)) (by simp [htake])
  rw [htake] at hcopy
  simp only [List.length_nil, List.nil_append] at hcopy hown
  refine ⟨own, ?_, hown⟩
  unfold processInputFile
  rw [if_pos hopen, hread, ok_bind]
  simp only [hcopy, access_ok, ok_bind, pure_eq_ok]

theorem processInputFile_ends (h : p.processInputFile f turns = .ok q) :
    q = p ∨ ∃ own body, own.HoldsAt 0 body ∧
      q = { p with payloadLen := body.length, payload := some own } := by
  cases hopen : f.isOpen with
  | false =>
    unfold processInputFile at h
    rw [hopen, if_neg Bool.false_ne_true] at h
    exact Or.inl (Except.ok.inj h).symm
  | true =>
    have hread := h
    unfold processInputFile at hread
    rw [if_pos hopen] at hread
    obtain ⟨s, hs, -⟩ := bind_eq_ok.mp hread
    obtain ⟨own, hload, hown⟩ := processInputFile_of_read hopen hs p
    have hlen : (s.1.take (u32 s.1.length)).length = u32 s.1.length := by
      rw [List.length_take, Nat.min_eq_left (u32_le _)]
    refine Or.inr ⟨own, _, hown, ?_⟩
    rw [hlen]
    exact Except.ok.inj (h.symm.trans hload)

end Packet

/-- The loop ends, and unless a read failed the payload is what the reads gave. -/
def ReadsToEnd (p : Packet) (device : ℕ → ReadResult) : Prop :=
  (∃ turns s, readBlocks turns (IFStream.opened device) = .ok s) ∧
  ∀ turns s, readBlocks turns (IFStream.opened device) = .ok s →
    (∀ i < s.2.nextRead, (device i).isError = false) →
      ∃ q, p.processInputFile (IFStream.opened device) turns = .ok q ∧
        q.getPayload = .ok (blocks device s.2.nextRead)

/-- The file must come to its end before any read fails, and its length must fit in a
`uint32_t`. -/
theorem readsToEnd_iff (p : Packet) (device : ℕ → ReadResult) :
    ReadsToEnd p device ↔ ∃ n, EndsAt device n ∧ (blocks device (n + 1)).length < 2 ^ 32 := by
  constructor
  · rintro ⟨⟨turns, s, hs⟩, hpayload⟩
    obtain ⟨n, hends, hbuffer, hnext⟩ := readBlocks_ends hs
    refine ⟨n, hends, ?_⟩
    obtain ⟨q, hq, hget⟩ := hpayload turns s hs fun i hi => hends.isError_eq_false (by omega)
    obtain ⟨own, hload, hown⟩ := Packet.processInputFile_of_read rfl hs p
    obtain rfl := Except.ok.inj (hq.symm.trans hload)
    have hlen := (Block.holdsAt_of_loadAll (Nat.zero_le _) hget).2
    rw [hbuffer, hnext] at hlen
    exact hlen.trans_lt (u32_lt (blocks device (n + 1)).length)
  · rintro ⟨n, hends, hlt⟩
    refine ⟨⟨n + 1, readBlocks_of_endsAt hends le_rfl⟩, fun turns s hs _ => ?_⟩
    obtain ⟨m, hends', hbuffer, hnext⟩ := readBlocks_ends hs
    obtain rfl := hends.unique hends'
    obtain ⟨own, hload, hown⟩ := Packet.processInputFile_of_read rfl hs p
    refine ⟨_, hload, ?_⟩
    rw [hbuffer, u32_of_small hlt, List.take_length] at hown
    have hall := hown.loadAll_eq
    simpa only [Packet.getPayload, deref_some, ok_bind, hbuffer, hnext, u32_of_small hlt] using hall

/-- A directory opens, and every read of it fails. -/
theorem not_readsToEnd_directory :
    ¬ ReadsToEnd {} (fun _ => .error []) ∧
      ∀ turns, readBlocks turns (IFStream.opened fun _ => .error []) = .error (.halt .hang) := by
  have hends : ¬ ∃ n, EndsAt (fun _ => .error []) n := by
    rintro ⟨n, hends⟩
    obtain ⟨block, hshort⟩ := hends.short
    cases hshort
  have hhangs := readBlocks_hangs hends
  refine ⟨?_, hhangs⟩
  rintro ⟨⟨turns, s, hs⟩, -⟩
  rw [hhangs] at hs
  cases hs

theorem Packet.ofAttachment_hangs {path : String} (hpath : path ≠ "")
    (h : ¬ ∃ n, EndsAt device n) (turns : ℕ) (ct : PacketType) (cs : PacketCharSet)
    (enc : PacketEncoding) (compr : PacketCompression) (encr : PacketEncryption) :
    ofAttachment path (IFStream.opened device) turns ct cs enc compr encr =
      .error (.halt .hang) := by
  have hfile : (path != "") = true := bne_iff_ne.mpr hpath
  unfold ofAttachment
  rw [build_eq rfl, if_pos hfile, processInputFile, if_pos (show (IFStream.opened device).isOpen =
    true from rfl), readBlocks_hangs h turns]
  rfl

namespace Packet

variable {p p' q : Packet} {f : IFStream} {turns : ℕ} {hdr : Block} {hb : List Byte}

theorem copyFrom_zero (dst : Block) (off : ℕ) (src : Option Block) :
    copyFrom dst off src 0 = .ok dst := rfl

theorem makePkt_empty (hhdr : p.header = some hdr) (hh : hdr.HoldsAt 0 hb)
    (hfull : p.fullHdrLen = hb.length) (hlen : p.payloadLen = 0) (hpkt : p.pktLen = hb.length)
    (hlt : hb.length < 2 ^ 31) :
    ∃ built, p.makePkt = .ok { p with builtPkt := some built } ∧ built.HoldsAt 0 hb := by
  have hnil : (Block.malloc 0).HoldsAt 0 [] := Block.holdsAt_nil le_rfl
  obtain ⟨built, hmake, hbuilt⟩ := makePkt_spec (p := { p with payload := some (Block.malloc 0) })
    hhdr hh hfull rfl hnil hlen (by simpa using hpkt) (by simpa using hlt)
  rw [List.append_nil] at hbuilt
  refine ⟨built, ?_, hbuilt⟩
  have hpos : 0 ≤ p.pktLen := by omega
  simp only [makePkt, hlen, copyFrom_zero, hpos, ↓reduceIte] at hmake ⊢
  obtain ⟨b₁, hstore, hmake⟩ := bind_eq_ok.mp hmake
  obtain ⟨b₂, hcopy, hmake⟩ := bind_eq_ok.mp hmake
  have hb₂ : b₂ = built := Option.some.inj (congrArg Packet.builtPkt (Except.ok.inj hmake))
  rw [hstore, ok_bind, hcopy, ok_bind, hb₂]
  rfl

theorem build_empty (hnone : p.builtPkt = none)
    (hload : (if p.hasFileAttachment then (p.setBuildPending true).processInputFile f turns
      else .ok (p.setBuildPending true)) = .ok p') (hlen : p'.payloadLen = 0) :
    ∃ q, p.build f turns = .ok q ∧ q.payloadLen = 0 ∧ q.pktLen = 12 ∧ q.getPacket =
      .ok (frameOf p'.type p'.charset p'.encoding p'.encryption p'.compression []) := by
  have hnil : p'.payloadLen = ([] : List Byte).length := hlen
  obtain ⟨hdr, hheader, hhdr⟩ := buildHeader_spec hnil
  have hwhole : (frameOf p'.type p'.charset p'.encoding p'.encryption p'.compression []).take 12 =
      frameOf p'.type p'.charset p'.encoding p'.encryption p'.compression [] :=
    List.take_of_length_le (by simp)
  rw [hwhole] at hhdr
  have hpkt : i32 (u32 ((12 : ℕ) + p'.payloadLen)) = (12 : ℕ) := by
    rw [hlen]
    exact pktLen_of_small (n := 0) (by norm_num)
  let p₂ : Packet :=
    { p' with fullHdrLen := 12, hdrLen := 9, header := some hdr, pktLen := (12 : ℕ) }
  obtain ⟨built, hmake, hbuilt⟩ := makePkt_empty (p := p₂) rfl hhdr (by simp [p₂]) hlen
    (by simp [p₂]) (by simp)
  refine ⟨{ p₂ with builtPkt := some built }.setBuildPending false, ?_, hlen, rfl, ?_⟩
  · rw [build_eq hnone, hload, ok_bind, hheader, access_ok, ok_bind]
    simp only
    rw [hpkt]
    change (access p₂.makePkt >>= _) = _
    rw [hmake, access_ok, ok_bind]
  · have hloadAll := hbuilt.loadAll_eq
    rw [frameOf_length] at hloadAll
    exact hloadAll

end Packet

/-- What the sending constructors build without throwing, with at most `2^31 - 14` bytes of
payload; the attachment is any file, whether or not it can be opened. -/
inductive Emitted (p : Packet) : Prop
  | payload (src : Block) (body : List Byte) (ct : PacketType) (cs : PacketCharSet)
      (enc : PacketEncoding) (compr : PacketCompression) (encr : PacketEncryption)
      (hold : src.HoldsAt 0 body) (hle : body.length ≤ 2 ^ 31 - 14)
      (h : Packet.ofPayload (some src) body.length ct cs enc compr encr = .ok p)
  | attachment (path : String) (f : IFStream) (turns : ℕ) (ct : PacketType) (cs : PacketCharSet)
      (enc : PacketEncoding) (compr : PacketCompression) (encr : PacketEncryption)
      (hle : p.payloadLen ≤ 2 ^ 31 - 14)
      (h : Packet.ofAttachment path f turns ct cs enc compr encr = .ok p)

/-- The packet puts these bytes on the wire, and stands for them unless its payload is empty. -/
structure Emits (p : Packet) (ct : PacketType) (cs : PacketCharSet) (enc : PacketEncoding)
    (encr : PacketEncryption) (compr : PacketCompression) (body : List Byte) : Prop where
  bytes : p.getPacket = .ok (frameOf ct cs enc encr compr body)
  payload_len : p.payloadLen = body.length
  pkt_len : p.pktLen = 12 + body.length
  length_le : body.length ≤ 2 ^ 31 - 14
  carries : body ≠ [] → Carries p (frameOf ct cs enc encr compr body)

theorem Emits.of_carries {p : Packet} {ct : PacketType} {cs : PacketCharSet} {enc : PacketEncoding}
    {encr : PacketEncryption} {compr : PacketCompression} {body : List Byte}
    (h : Carries p (frameOf ct cs enc encr compr body)) (hle : body.length ≤ 2 ^ 31 - 14) :
    Emits p ct cs enc encr compr body := by
  refine ⟨h.packet, ?_, ?_, hle, fun _ => h⟩
  · rw [h.payload_len, payloadField_frameOf (by omega)]
  · rw [h.pkt_len, frameOf_length]
    rfl

theorem Emitted.emits {p : Packet} (h : Emitted p) :
    ∃ ct cs enc encr compr body, Emits p ct cs enc encr compr body := by
  cases h with
  | payload src body ct cs enc compr encr hold hle h =>
    obtain ⟨q, hq, -, hcarries⟩ := Packet.ofPayload_spec hold (by omega) ct cs enc compr encr
    obtain rfl : q = p := Except.ok.inj (hq.symm.trans h)
    exact ⟨ct, cs, enc, encr, compr, body, .of_carries hcarries hle⟩
  | attachment path f turns ct cs enc compr encr hle h =>
    unfold Packet.ofAttachment at h
    obtain ⟨p', -, hload, hlen, -⟩ := Packet.build_inv rfl h
    -- no file, or one that cannot be opened
    have hempty : p'.payloadLen = 0 → ∃ ct cs enc encr compr, Emits p ct cs enc encr compr [] := by
      intro hzero
      obtain ⟨q, hq, hnone, hpkt, hbytes⟩ := Packet.build_empty rfl hload hzero
      obtain rfl : q = p := Except.ok.inj (hq.symm.trans h)
      exact ⟨_, _, _, _, _, hbytes, hnone, hpkt, by simp, fun hne => absurd rfl hne⟩
    by_cases hpath : (path != "") = true
    · have hread := hload
      rw [if_pos hpath] at hread
      rcases Packet.processInputFile_ends hread with rfl | ⟨own, body, hown, rfl⟩
      · obtain ⟨ct, cs, enc, encr, compr, hemits⟩ := hempty rfl
        exact ⟨ct, cs, enc, encr, compr, [], hemits⟩
      · have hbody : p.payloadLen = body.length := hlen
        obtain ⟨q, hq, -, hcarries⟩ := Packet.build_spec rfl hload rfl hown rfl (by omega)
        obtain rfl : q = p := Except.ok.inj (hq.symm.trans h)
        exact ⟨_, _, _, _, _, body, .of_carries hcarries (by omega)⟩
    · have hread := hload
      rw [if_neg hpath] at hread
      obtain ⟨ct, cs, enc, encr, compr, hemits⟩ := hempty (by rw [← Except.ok.inj hread]; rfl)
      exact ⟨ct, cs, enc, encr, compr, [], hemits⟩

end P2Purr
