import P2Purr.Rebuild
import P2Purr.Wire

namespace P2Purr
open Memory Loop Serializer

namespace HeaderLoop

def advance (s : HeaderLoop) (j : ℕ) (hdr : Block) : HeaderLoop :=
  { s with
    pkt.numBytesRead := s.pkt.numBytesRead + j, pkt.buffNext := s.pkt.buffNext + j
    pkt.header := some hdr, hdrPtr := .header (s.pkt.numBytesRead + j), idx := s.idx + j }

variable {s : HeaderLoop} {hdr : Block} {v : Byte} {fresh acc : List Byte}

theorem advance_zero (hptr : s.hdrPtr = .header s.pkt.numBytesRead)
    (hhdr : s.pkt.header = some hdr) : s.advance 0 hdr = s := by
  simp [advance, ← hhdr, ← hptr]

/-- The header loop once the header block is there: it takes the fresh bytes up
to the end of the header or of the buffer's content. -/
theorem loop_header (hptr : s.hdrPtr = .header acc.length) (hhdr : s.pkt.header = some hdr)
    (hread : s.pkt.numBytesRead = acc.length) (h3 : 3 ≤ acc.length)
    (hsize : s.pkt.fullHdrLen = hdr.size) (hacc : hdr.HoldsAt 0 acc)
    (hfresh : s.buffer.HoldsAt s.pkt.buffNext fresh)
    (htotal : s.pkt.buffTotalLen = s.idx + fresh.length) {n : ℕ} (hn : fresh.length ≤ n) :
    ∃ hdr', hdr'.size = hdr.size ∧
      hdr'.HoldsAt 0 (acc ++ fresh.take (min fresh.length (hdr.size - acc.length))) ∧
      whileLoop guard turn (.halt .hang) n s =
        .ok (s.advance (min fresh.length (hdr.size - acc.length)) hdr') := by
  have hfits : acc.length ≤ hdr.size := by simpa using hacc.fits
  have hguard : ∀ j b, guard (s.advance j b) =
      decide (j < min fresh.length (hdr.size - acc.length)) := by
    intro j b
    simp only [guard, advance, hsize, hread, htotal, ← Bool.decide_and]
    congr 1
    apply propext
    omega
  have hturn : ∀ j b b' (hj : j < fresh.length), b.store (acc.length + j) fresh[j] = .ok b' →
      turn (s.advance j b) = .ok (s.advance (j + 1) b') := by
    intro j b b' hj hstore
    have hload := hfresh.load_eq (List.getElem?_eq_getElem hj)
    simp [turn, advance, put, hload, hread, hstore, show acc.length + j ≠ 2 by omega, Nat.add_assoc]
  have hcopy := Block.whileLoop_copy (.halt .hang) s.advance hacc
    (min_le_left _ _) (by omega) hguard hturn (n := n) (by omega)
  rwa [advance_zero (by rw [hptr, hread]) hhdr] at hcopy

def collect (s : HeaderLoop) (j : ℕ) (tmp : Block) : HeaderLoop :=
  { s with
    pkt.numBytesRead := s.pkt.numBytesRead + j, pkt.buffNext := s.pkt.buffNext + j
    tmpHeader := tmp, hdrPtr := .tmp j, idx := s.idx + j }

theorem collect_zero (hptr : s.hdrPtr = .tmp 0) : s.collect 0 s.tmpHeader = s := by
  simp [collect, ← hptr]

theorem loop_tmp (s : HeaderLoop) (fresh : List Byte) (hptr : s.hdrPtr = .tmp 0)
    (htmp : s.tmpHeader = Block.malloc 3)
    (hfull : s.pkt.fullHdrLen = 3) (hfresh : s.buffer.HoldsAt s.pkt.buffNext fresh)
    (htotal : s.pkt.buffTotalLen = s.idx + fresh.length) {r : ℕ} (hr : r ≤ fresh.length)
    (hread : s.pkt.numBytesRead + r ≤ 2) (n : ℕ) :
    ∃ tmp, tmp.size = 3 ∧ tmp.HoldsAt 0 (fresh.take r) ∧ (∀ i, r ≤ i → tmp.cell i = none) ∧
      whileLoop guard turn (.halt .hang) (n + r) s =
        whileLoop guard turn (.halt .hang) n (s.collect r tmp) := by
  have hguard : ∀ j b, j < r → guard (s.collect j b) = true := by
    intro j b hj
    simp only [guard, collect, hfull, htotal, Bool.and_eq_true, decide_eq_true_eq]
    omega
  have hturn : ∀ j b b' (hj : j < fresh.length), j < r →
      b.store (([] : List Byte).length + j) fresh[j] = .ok b' →
      turn (s.collect j b) = .ok (s.collect (j + 1) b') := by
    intro j b b' hj hjr hstore
    rw [List.length_nil, Nat.zero_add] at hstore
    have hload := hfresh.load_eq (List.getElem?_eq_getElem hj)
    simp [turn, collect, put, hload, hstore, show s.pkt.numBytesRead + j ≠ 2 by omega,
      Nat.add_assoc]
  have hnil : s.tmpHeader.HoldsAt 0 [] := Block.holdsAt_nil (by simp)
  obtain ⟨tmp, hsize, hold, hcell, hloop⟩ := Block.whileLoop_copy_turns (.halt .hang) s.collect hnil
    hr (by rw [htmp]; simp; omega) hguard hturn n
  rw [collect_zero hptr] at hloop
  refine ⟨tmp, by rw [hsize, htmp, Block.malloc_size], by simpa using hold, fun i hi => ?_, hloop⟩
  rw [hcell i (by simpa using hi), htmp]
  rfl

theorem u16_shift (b₁ b₂ : Byte) : u16 ((b₁.toNat <<< 8) ||| b₂.toNat) = beValue [b₁, b₂] := by
  have h₁ := b₁.toNat_lt
  have h₂ := b₂.toNat_lt
  rw [← Nat.shiftLeft_add_eq_or_of_lt (by omega : b₂.toNat < 2 ^ 8), Nat.shiftLeft_eq, beValue_pair,
    u16]
  omega

section ThirdByte

variable {v₀ v₁ v₂ : Byte} (hold : s.tmpHeader.HoldsAt 0 [v₀, v₁, v₂])

include hold

theorem openHeader_ok (hmax : hdrField [v₀, v₁, v₂] ≤ 65532) :
    ∃ hdr, hdr.size = hdrEnd [v₀, v₁, v₂] ∧ hdr.HoldsAt 0 [v₀, v₁, v₂] ∧
      s.openHeader = .ok { s with
        pkt.hdrLen := hdrField [v₀, v₁, v₂], pkt.fullHdrLen := hdrEnd [v₀, v₁, v₂]
        pkt.header := some hdr, hdrPtr := .header (s.pkt.numBytesRead + 1) } := by
  have h₁ := hold.load_eq (i := 1) rfl
  have h₂ := hold.load_eq (i := 2) rfl
  have hlen : beValue [v₁, v₂] = hdrField [v₀, v₁, v₂] := rfl
  have hfull : u16 (hdrField [v₀, v₁, v₂] + 3) = hdrEnd [v₀, v₁, v₂] := by
    simp only [u16, hdrEnd]
    omega
  have hnil : (Block.malloc (hdrEnd [v₀, v₁, v₂])).HoldsAt 0 [] := Block.holdsAt_nil (by simp)
  obtain ⟨hdr, hcopy, hsize, hold'⟩ := hnil.memcpy hold (by simp [hdrEnd])
  refine ⟨hdr, by rw [hsize, Block.malloc_size], hold', ?_⟩
  simp only [List.length_nil, List.length_cons, Nat.zero_add, Nat.reduceAdd] at hcopy h₁ h₂
  simp [openHeader, h₁, h₂, u16_shift, hlen, hfull, hcopy,
    show hdrEnd [v₀, v₁, v₂] ≠ 0 by simp [hdrEnd]]

theorem openHeader_zero (hmax : hdrField [v₀, v₁, v₂] = 65533) :
    s.openHeader = throwPacket "Got a header length of zero or less\n"
      { s with pkt.hdrLen := 65533, pkt.fullHdrLen := 0 }.toDecoder := by
  have h₁ := hold.load_eq (i := 1) rfl
  have h₂ := hold.load_eq (i := 2) rfl
  have hlen : beValue [v₁, v₂] = 65533 := hmax
  have hfull : u16 (65533 + 3) = 0 := rfl
  simp only [Nat.zero_add] at h₁ h₂
  simp [openHeader, h₁, h₂, u16_shift, hlen, hfull]

theorem openHeader_overflow (hmax : 65533 < hdrField [v₀, v₁, v₂]) :
    s.openHeader = .error (.halt (.fault .outOfBounds)) := by
  have h₁ := hold.load_eq (i := 1) rfl
  have h₂ := hold.load_eq (i := 2) rfl
  have hlt := hdrField_lt [v₀, v₁, v₂]
  have hlen : beValue [v₁, v₂] = hdrField [v₀, v₁, v₂] := rfl
  have hfull : u16 (hdrField [v₀, v₁, v₂] + 3) = hdrField [v₀, v₁, v₂] - 65533 := by
    simp only [u16]
    omega
  simp only [Nat.zero_add] at h₁ h₂
  have hshort : ¬ 3 ≤ hdrField [v₀, v₁, v₂] - 65533 := by omega
  simp [openHeader, h₁, h₂, u16_shift, hlen, hfull, Block.memcpy, hshort,
    show hdrField [v₀, v₁, v₂] - 65533 ≠ 0 by omega]

end ThirdByte

end HeaderLoop

namespace PayloadLoop

def advance (s : PayloadLoop) (j : ℕ) (pld : Block) : PayloadLoop :=
  { s with
    pkt.numBytesRead := s.pkt.numBytesRead + j, pkt.buffNext := s.pkt.buffNext + j
    pkt.payload := some pld, pld := s.pld + j, idx := s.idx + j }

variable {s : PayloadLoop} {pld : Block} {fresh body : List Byte}

theorem advance_zero (hpld : s.pkt.payload = some pld) : s.advance 0 pld = s := by
  simp [advance, ← hpld]

/-- The payload loop of a frame whose length is an `int`: it takes the fresh
bytes up to the end of the frame or of the buffer's content. -/
theorem loop_payload (hptr : s.pld = body.length) (hpld : s.pkt.payload = some pld)
    (hlen : s.pkt.pktLen = s.pkt.numBytesRead + (pld.size - body.length : ℕ))
    (hbody : pld.HoldsAt 0 body) (hfresh : s.buffer.HoldsAt s.pkt.buffNext fresh)
    (htotal : s.pkt.buffTotalLen = s.idx + fresh.length) {n : ℕ} (hn : fresh.length ≤ n) :
    ∃ pld', pld'.size = pld.size ∧
      pld'.HoldsAt 0 (body ++ fresh.take (min fresh.length (pld.size - body.length))) ∧
      whileLoop guard turn (.halt .hang) n s =
        .ok (s.advance (min fresh.length (pld.size - body.length)) pld') := by
  have hfits : body.length ≤ pld.size := by simpa using hbody.fits
  have hguard : ∀ j b, guard (s.advance j b) =
      decide (j < min fresh.length (pld.size - body.length)) := by
    intro j b
    simp only [guard, advance, hlen, htotal, ← Bool.decide_and]
    congr 1
    apply propext
    omega
  have hturn : ∀ j b b' (hj : j < fresh.length), b.store (body.length + j) fresh[j] = .ok b' →
      turn (s.advance j b) = .ok (s.advance (j + 1) b') := by
    intro j b b' hj hstore
    have hload := hfresh.load_eq (List.getElem?_eq_getElem hj)
    simp [turn, advance, hload, hptr, hstore, Nat.add_assoc]
  have hcopy := Block.whileLoop_copy (.halt .hang) s.advance hbody
    (min_le_left _ _) (by omega) hguard hturn (n := n) (by omega)
  rwa [advance_zero hpld] at hcopy

end PayloadLoop

/-- The packet after the bytes `acc` of its frame.  The first three bytes are
collected in a local of `header_ready`, so a packet with fewer than three bytes
only knows how many there were. -/
structure Decoding (p : Packet) (acc : List Byte) : Prop where
  attached : p.attached = true
  read : p.numBytesRead = acc.length
  cut : acc.length < 3 → p.header = none ∧ p.fullHdrLen = 0 ∧ p.payload = none
  marker : 3 ≤ acc.length → acc.head? = some 0xFF
  header_max : 3 ≤ acc.length → hdrField acc ≤ 65532
  header : 3 ≤ acc.length → ∃ hdr, p.header = some hdr ∧ hdr.size = hdrEnd acc ∧
    hdr.HoldsAt 0 (acc.take (hdrEnd acc))
  full : 3 ≤ acc.length → p.fullHdrLen = hdrEnd acc ∨ p.fullHdrLen = 0 ∧ hdrField acc = 0
  payload : ∀ pld, p.payload = some pld → hdrEnd acc ≤ acc.length ∧ 9 ≤ hdrField acc ∧
    pld.size = payloadField acc ∧ pld.HoldsAt 0 (acc.drop (hdrEnd acc))
  body : 3 ≤ acc.length → hdrEnd acc < acc.length →
    Usable acc ∧ acc.length < frameSize acc ∧ ∃ pld, p.payload = some pld
  file : p.hasFileAttachment = true →
    hdrEnd acc ≤ acc.length ∧ 9 ≤ hdrField acc ∧ acc[3]? = some genericFile

structure Reading (d : Decoder) (acc fresh : List Byte) (total : ℕ) : Prop where
  decoding : Decoding d.pkt acc
  total_eq : d.pkt.buffTotalLen = total
  next_eq : d.pkt.buffNext + fresh.length = total
  holds : d.buffer.HoldsAt d.pkt.buffNext fresh

def SameShared (d d' : Decoder) : Prop := d'.buffer = d.buffer ∧ d'.outFile = d.outFile

theorem SameShared.trans {d d' d'' : Decoder} (h : SameShared d d') (h' : SameShared d' d'') :
    SameShared d d'' := ⟨h'.1.trans h.1, h'.2.trans h.2⟩

theorem decoding_newPacket (idx : ℕ) (total : ℤ) : Decoding (Decoder.newPacket idx total) [] := by
  refine ⟨rfl, rfl, fun _ => ⟨rfl, rfl, rfl⟩, ?_, ?_, ?_, ?_, ?_, ?_, ?_⟩ <;>
    simp [Decoder.newPacket]

namespace Decoding

variable {p : Packet} {acc c : List Byte}

/-- The fields that no byte of the frame has a say in do not matter. -/
theorem congr (h : Decoding p acc) {q : Packet} (hattached : q.attached = p.attached)
    (hread : q.numBytesRead = p.numBytesRead) (hhdr : q.header = p.header)
    (hfull : q.fullHdrLen = p.fullHdrLen) (hpld : q.payload = p.payload)
    (hfile : q.hasFileAttachment = p.hasFileAttachment) : Decoding q acc where
  attached := hattached.trans h.attached
  read := hread.trans h.read
  cut := fun h' => by rw [hhdr, hfull, hpld]; exact h.cut h'
  marker := h.marker
  header_max := h.header_max
  header := fun h' => by rw [hhdr]; exact h.header h'
  full := fun h' => by rw [hfull]; exact h.full h'
  payload := fun pld h' => h.payload pld (hpld ▸ h')
  body := fun h₁ h₂ => by rw [hpld]; exact h.body h₁ h₂
  file := fun h' => h.file (hfile ▸ h')

theorem more_header (h : Decoding p acc) (h3 : 3 ≤ acc.length)
    (hc : acc.length + c.length ≤ hdrEnd acc) (hlt : acc.length < hdrEnd acc) {hdr : Block}
    (hsize : hdr.size = hdrEnd acc) (hold : hdr.HoldsAt 0 (acc ++ c)) (next : ℕ) :
    Decoding { p with numBytesRead := p.numBytesRead + c.length, buffNext := next,
                      header := some hdr } (acc ++ c) where
  attached := h.attached
  read := by simp [h.read]
  cut := fun h' => by simp at h'; omega
  marker := fun _ => by rw [List.head?_append, h.marker h3]; rfl
  header_max := fun _ => by rw [hdrField_append h3]; exact h.header_max h3
  header := fun _ => ⟨hdr, rfl, by rw [hdrEnd_append h3, hsize],
    by rwa [List.take_of_length_le (by rw [hdrEnd_append h3]; simpa using hc)]⟩
  full := fun _ => by rw [hdrEnd_append h3, hdrField_append h3]; exact h.full h3
  payload := fun pld hpld => by have := (h.payload pld hpld).1; omega
  body := fun _ h' => by rw [hdrEnd_append h3, List.length_append] at h'; omega
  file := fun h' => by have := (h.file h').1; omega

end Decoding

namespace Decoder

variable {d : Decoder} {acc fresh : List Byte} {total : ℕ}

theorem startHeader_fullHdrLen (h : Decoding d.pkt acc) (h3 : 3 ≤ acc.length) :
    d.startHeader.pkt.fullHdrLen = hdrEnd acc := by
  rcases h.full h3 with hf | ⟨hf, hz⟩
  · have : ¬ hdrEnd acc = 0 := by simp [hdrEnd]
    simp [startHeader, hf, this]
  · simp [startHeader, hf, hdrEnd, hz]

theorem collectHeader_of_loop {v : Byte} {s : HeaderLoop}
    (hload : d.buffer.load d.pkt.buffNext = .ok v) (hw : d.wantsHeader v = true)
    (hloop : whileLoop HeaderLoop.guard HeaderLoop.turn (.halt .hang)
      (d.pkt.buffTotalLen - d.currBuffIdx).toNat d.startHeader = .ok s) :
    d.collectHeader = .ok (s.toDecoder, s.idx) := by
  simp only [collectHeader, hload, access_ok, ok_bind, hw, ↓reduceIte, hloop, pure_eq_ok]

theorem collectHeader_of_stop {v : Byte} {e : Stop Decoder}
    (hload : d.buffer.load d.pkt.buffNext = .ok v) (hw : d.wantsHeader v = true)
    (hloop : whileLoop HeaderLoop.guard HeaderLoop.turn (.halt .hang)
      (d.pkt.buffTotalLen - d.currBuffIdx).toNat d.startHeader = .error e) :
    d.collectHeader = .error e := by
  simp only [collectHeader, hload, access_ok, ok_bind, hw, ↓reduceIte, hloop, error_bind]

/-- From the third byte on, the header loop takes what is missing of the header. -/
theorem loop_reading {s : HeaderLoop} (h : Reading s.toDecoder acc fresh total)
    (hidx : s.idx = s.pkt.buffNext) (hptr : s.hdrPtr = .header acc.length)
    (h3 : 3 ≤ acc.length) (hle : acc.length ≤ hdrEnd acc) (hfull : s.pkt.fullHdrLen = hdrEnd acc)
    {n : ℕ} (hn : fresh.length ≤ n) :
    ∃ s', whileLoop HeaderLoop.guard HeaderLoop.turn (.halt .hang) n s = .ok s' ∧
      s'.idx = s'.pkt.buffNext ∧ SameShared s.toDecoder s'.toDecoder ∧
      Reading s'.toDecoder (acc ++ fresh.take (hdrEnd acc - acc.length))
        (fresh.drop (hdrEnd acc - acc.length)) total := by
  have hread := h.decoding.read
  -- either the header is complete already, or there is a block to fill
  rcases Nat.eq_or_lt_of_le hle with heq | hlt
  · refine ⟨s, whileLoop_exit ?_, hidx, ⟨rfl, rfl⟩, by simpa [← heq] using h⟩
    simp [HeaderLoop.guard, hread, hfull, heq]
  · obtain ⟨hdr, hhdr, hsize, hold⟩ := h.decoding.header h3
    rw [List.take_of_length_le hle] at hold
    obtain ⟨hdr', hsize', hold', hloop⟩ := HeaderLoop.loop_header hptr hhdr hread h3
      (by rw [hfull, hsize]) hold h.holds (by rw [h.total_eq, hidx, ← h.next_eq]; simp) hn
    rw [hsize, min_comm, ← List.take_take, List.take_length] at hold'
    have hlen : (fresh.take (hdrEnd acc - acc.length)).length =
        min fresh.length (hdrEnd acc - acc.length) := by
      rw [List.length_take, min_comm]
    refine ⟨_, hloop, by simp [HeaderLoop.advance, hidx], ⟨rfl, rfl⟩, ?_, h.total_eq, ?_, ?_⟩
    · have := h.decoding.more_header (c := fresh.take (hdrEnd acc - acc.length)) h3
        (by rw [hlen]; omega) hlt (hsize'.trans hsize) hold'
        (s.pkt.buffNext + min fresh.length (hdrEnd acc - acc.length))
      rw [hlen] at this
      simpa only [HeaderLoop.advance, hsize] using this
    · have := h.next_eq
      simp only [HeaderLoop.advance, hsize, List.length_drop]
      omega
    · have := h.holds
      rw [← List.take_append_drop (hdrEnd acc - acc.length) fresh] at this
      have := this.right
      rw [hlen] at this
      simpa only [HeaderLoop.advance, hsize] using this

/-- With the header block there, the header branch takes what is missing of the header. -/
theorem collectHeader_more (h : Reading d acc fresh total) (hidx : d.currBuffIdx = d.pkt.buffNext)
    (h3 : 3 ≤ acc.length) (hlt : acc.length < hdrEnd acc) (hne : fresh ≠ []) :
    ∃ d', d.collectHeader = .ok (d', d'.pkt.buffNext) ∧ SameShared d d' ∧
      Reading d' (acc ++ fresh.take (hdrEnd acc - acc.length))
        (fresh.drop (hdrEnd acc - acc.length)) total := by
  obtain ⟨v, rest, rfl⟩ := List.exists_cons_of_ne_nil hne
  obtain ⟨hdr, hhdr, -, -⟩ := h.decoding.header h3
  have hread := h.decoding.read
  have hfull : d.pkt.fullHdrLen = hdrEnd acc := by
    rcases h.decoding.full h3 with hf | ⟨-, hz⟩
    · exact hf
    · simp only [hdrEnd, hz] at hlt
      omega
  have hstart : d.startHeader =
      { toDecoder := d, tmpHeader := Block.malloc 3, hdrPtr := .header d.pkt.numBytesRead,
        idx := d.currBuffIdx } := by
    have : ¬ hdrEnd acc = 0 := by simp [hdrEnd]
    simp [startHeader, hfull, this, hhdr]
  obtain ⟨s', hloop, hidx', hshared, hreading⟩ := loop_reading (s := d.startHeader)
    (n := (d.pkt.buffTotalLen - d.currBuffIdx).toNat) (by rw [hstart]; exact h)
    (by rw [hstart]; exact hidx) (by rw [hstart, hread]) h3 hlt.le (by rw [hstart]; exact hfull)
    (by rw [h.total_eq, hidx, ← h.next_eq]; simp)
  have hwants : d.wantsHeader v = true := by simp [wantsHeader, hfull, hread, hlt]
  refine ⟨s'.toDecoder, ?_, by rwa [hstart] at hshared, hreading⟩
  rw [collectHeader_of_loop h.holds.load_head hwants hloop, hidx']

theorem collectHeader_none (h : Reading d acc fresh total) (hidx : d.currBuffIdx = d.pkt.buffNext)
    (h3 : 3 ≤ acc.length) (hle : hdrEnd acc ≤ acc.length) (hne : fresh ≠ []) :
    ∃ d', d.collectHeader = .ok (d', d'.pkt.buffNext) ∧ SameShared d d' ∧
      Reading d' acc fresh total := by
  obtain ⟨v, rest, rfl⟩ := List.exists_cons_of_ne_nil hne
  have hread := h.decoding.read
  cases hw : d.wantsHeader v with
  | false =>
    refine ⟨d, ?_, ⟨rfl, rfl⟩, h⟩
    simp [collectHeader, h.holds.load_head, hw, hidx]
  | true =>
    have hfull := startHeader_fullHdrLen h.decoding h3
    have hpkt : d.startHeader.pkt = { d.pkt with fullHdrLen := hdrEnd acc } := by
      rw [← hfull]
      unfold startHeader
      split <;> rfl
    have hshared : d.startHeader.buffer = d.buffer ∧ d.startHeader.outFile = d.outFile ∧
        d.startHeader.idx = d.currBuffIdx := by
      unfold startHeader
      split <;> simp
    have hexit : HeaderLoop.guard d.startHeader = false := by
      simp [HeaderLoop.guard, hpkt, hread, hle]
    refine ⟨d.startHeader.toDecoder, ?_, ⟨hshared.1, hshared.2.1⟩, ?_, ?_, ?_, ?_⟩
    · simp [collectHeader, h.holds.load_head, hw, whileLoop_exit hexit, hshared.2.2, hidx, hpkt]
    · rw [hpkt]
      have hd := h.decoding
      exact ⟨hd.attached, hd.read, fun h' => by omega, hd.marker, hd.header_max, hd.header,
        fun _ => Or.inl rfl, hd.payload, hd.body, hd.file⟩
    · simpa [hpkt] using h.total_eq
    · simpa [hpkt] using h.next_eq
    · simpa [hpkt, hshared.1] using h.holds

theorem collectHeader_header (h : Reading d acc fresh total)
    (hidx : d.currBuffIdx = d.pkt.buffNext) (h3 : 3 ≤ acc.length) (hne : fresh ≠ []) :
    ∃ d', d.collectHeader = .ok (d', d'.pkt.buffNext) ∧ SameShared d d' ∧
      Reading d' (acc ++ fresh.take (hdrEnd acc - acc.length))
        (fresh.drop (hdrEnd acc - acc.length)) total := by
  by_cases hlt : acc.length < hdrEnd acc
  · exact collectHeader_more h hidx h3 hlt hne
  · have := collectHeader_none h hidx h3 (by omega) hne
    simpa [show hdrEnd acc - acc.length = 0 by omega] using this

section Opening

variable {v₀ v₁ v₂ : Byte} {rest : List Byte}

def atThird (d : Decoder) : Decoder :=
  { d with pkt.fullHdrLen := 3, pkt.numBytesRead := 2, pkt.buffNext := d.pkt.buffNext + 3 }

/-- The first three bytes are collected, and the third one opens the header. -/
theorem loop_opening (h : Reading d [] (v₀ :: v₁ :: v₂ :: rest) total)
    (hidx : d.currBuffIdx = d.pkt.buffNext) (n : ℕ) :
    ∃ s : HeaderLoop, s.tmpHeader.HoldsAt 0 [v₀, v₁, v₂] ∧ s.toDecoder = d.atThird ∧
      s.idx = d.pkt.buffNext + 2 ∧
      whileLoop HeaderLoop.guard HeaderLoop.turn (.halt .hang) (n + 1 + 2) d.startHeader =
        match s.openHeader with
        | .ok s' => whileLoop HeaderLoop.guard HeaderLoop.turn (.halt .hang) n
            { s' with pkt.numBytesRead := s'.pkt.numBytesRead + 1, idx := s'.idx + 1 }
        | .error e => .error e := by
  obtain ⟨hhdr, hfull, hpld⟩ := h.decoding.cut (by simp)
  have hread : d.pkt.numBytesRead = 0 := h.decoding.read
  have hstart : d.startHeader =
      { toDecoder := { d with pkt.fullHdrLen := 3 }, tmpHeader := Block.malloc 3,
        hdrPtr := .tmp 0, idx := d.currBuffIdx } := by
    simp [startHeader, hfull, hhdr]
  have htotal : d.pkt.buffTotalLen = d.pkt.buffNext + (v₀ :: v₁ :: v₂ :: rest).length := by
    rw [h.total_eq, ← h.next_eq, Nat.cast_add]
  -- two turns fill `tmp_header` up to the third byte
  obtain ⟨tmp, hsize, hold, -, hloop⟩ := HeaderLoop.loop_tmp d.startHeader
    (v₀ :: v₁ :: v₂ :: rest) (r := 2) (by rw [hstart]) (by rw [hstart]) (by rw [hstart])
    (by rw [hstart]; exact h.holds) (by rw [hstart]; simpa only [hidx] using htotal)
    (by simp) (by rw [hstart]; simp [hread]) (n + 1)
  obtain ⟨tmp', hstore, -, hold'⟩ := hold.store_snoc (by simp [hsize]) v₂
  have hload := h.holds.load_eq (i := 2) rfl
  let s : HeaderLoop :=
    { toDecoder := d.atThird, tmpHeader := tmp', hdrPtr := .tmp 3, idx := d.pkt.buffNext + 2 }
  refine ⟨s, hold', rfl, rfl, ?_⟩
  have hguard : HeaderLoop.guard (d.startHeader.collect 2 tmp) = true := by
    simp only [HeaderLoop.guard, HeaderLoop.collect, hstart, hread, htotal, hidx]
    simp
    omega
  have hturn : HeaderLoop.turn (d.startHeader.collect 2 tmp) =
      s.openHeader.map fun s' =>
        { s' with pkt.numBytesRead := s'.pkt.numBytesRead + 1, idx := s'.idx + 1 } := by
    simp only [List.take_succ_cons, List.take_zero, List.length_cons, List.length_nil,
      Nat.zero_add, Nat.reduceAdd] at hstore
    simp [HeaderLoop.turn, HeaderLoop.collect, HeaderLoop.put, hstart, hload, hstore, hread, hidx,
      s, atThird]
    cases HeaderLoop.openHeader _ <;> rfl
  rw [hloop]
  cases hopen : s.openHeader with
  | ok s' => rw [whileLoop_turn hguard (hturn.trans (by rw [hopen]; rfl))]
  | error e => rw [whileLoop_stop hguard (hturn.trans (by rw [hopen]; rfl))]

theorem turns_opening (h : Reading d [] (v₀ :: v₁ :: v₂ :: rest) total)
    (hidx : d.currBuffIdx = d.pkt.buffNext) :
    (d.pkt.buffTotalLen - d.currBuffIdx).toNat = rest.length + 1 + 2 := by
  have := h.next_eq
  rw [h.total_eq, hidx]
  simp only [List.length_cons] at this
  omega

theorem not_file_of_nil (h : Decoding d.pkt []) : d.pkt.hasFileAttachment = false := by
  cases hf : d.pkt.hasFileAttachment with
  | false => rfl
  | true => simpa [hdrEnd] using (h.file hf).1

/-- A new packet with a header length that leaves room for the three prefix bytes. -/
theorem collectHeader_open (h : Reading d [] (v₀ :: v₁ :: v₂ :: rest) total)
    (hidx : d.currBuffIdx = d.pkt.buffNext) (hv : v₀ = 0xFF)
    (hmax : hdrField (v₀ :: v₁ :: v₂ :: rest) ≤ 65532) :
    ∃ d', d.collectHeader = .ok (d', d'.pkt.buffNext) ∧ SameShared d d' ∧
      Reading d' ((v₀ :: v₁ :: v₂ :: rest).take (hdrEnd (v₀ :: v₁ :: v₂ :: rest)))
        ((v₀ :: v₁ :: v₂ :: rest).drop (hdrEnd (v₀ :: v₁ :: v₂ :: rest))) total := by
  obtain ⟨hhdr, hfull, hpld⟩ := h.decoding.cut (by simp)
  obtain ⟨s, hold, hdec, hsidx, hloop⟩ := loop_opening h hidx rest.length
  obtain ⟨hdr, hsize, hold', hopen⟩ := HeaderLoop.openHeader_ok hold hmax
  rw [hopen] at hloop
  let s' : HeaderLoop := { s with
    pkt.hdrLen := hdrField [v₀, v₁, v₂], pkt.fullHdrLen := hdrEnd [v₀, v₁, v₂]
    pkt.header := some hdr, hdrPtr := .header (s.pkt.numBytesRead + 1)
    pkt.numBytesRead := s.pkt.numBytesRead + 1, idx := s.idx + 1 }
  have hpkt : s.pkt = d.atThird.pkt := by rw [hdec]
  have hbuffer : s.buffer = d.buffer := by rw [hdec]; rfl
  have hfile : s.outFile = d.outFile := by rw [hdec]; rfl
  have hreading : Reading s'.toDecoder [v₀, v₁, v₂] rest total := by
    refine ⟨⟨?_, ?_, by simp, ?_, fun _ => hmax, fun _ => ⟨hdr, rfl, hsize, ?_⟩,
      fun _ => Or.inl rfl, ?_, ?_, ?_⟩, ?_, ?_, ?_⟩
    · simpa [s', hpkt, atThird] using h.decoding.attached
    · simp [s', hpkt, atThird]
    · simp [hv]
    · rwa [List.take_of_length_le (by simp [hdrEnd])]
    · simp [s', hpkt, atThird, hpld]
    · simp [hdrEnd]
    · simp [s', hpkt, atThird, not_file_of_nil h.decoding]
    · simpa [s', hpkt, atThird] using h.total_eq
    · have := h.next_eq
      simp only [List.length_cons] at this
      simp only [s', hpkt, atThird]
      omega
    · have := h.holds.tail.tail.tail
      simpa [s', hpkt, hbuffer, atThird, Nat.add_assoc] using this
  -- the loop goes on in the header block
  obtain ⟨t, ht, htidx, hshared, hmore⟩ := loop_reading (s := s') (n := rest.length) hreading
    (by simp [s', hsidx, hpkt, atThird]) (by simp [s', hpkt, atThird]) (by simp)
    (by simp [hdrEnd]) rfl le_rfl
  have hwants : d.wantsHeader v₀ = true := by simp [wantsHeader, hv]
  refine ⟨t.toDecoder, ?_, ?_, ?_⟩
  · rw [← htidx]
    exact collectHeader_of_loop h.holds.load_head hwants (by
      rw [turns_opening h hidx, hloop]
      exact ht)
  · exact ⟨hshared.1.trans hbuffer, hshared.2.trans hfile⟩
  · have hcons : ∀ k, [v₀, v₁, v₂] ++ rest.take (k + 3 - 3) =
        (v₀ :: v₁ :: v₂ :: rest).take (k + 3) :=
      fun k => by simp
    exact hcons _ ▸ hmore

/-- A new packet whose announced header length and its prefix wrap to zero. -/
theorem collectHeader_zero (h : Reading d [] (v₀ :: v₁ :: v₂ :: rest) total)
    (hidx : d.currBuffIdx = d.pkt.buffNext) (hv : v₀ = 0xFF)
    (hmax : hdrField (v₀ :: v₁ :: v₂ :: rest) = 65533) :
    ∃ d', d.collectHeader = throwPacket "Got a header length of zero or less\n" d' ∧
      SameShared d d' ∧ Decoding d'.pkt [v₀, v₁] ∧ d'.currBuffIdx = d.currBuffIdx := by
  obtain ⟨hhdr, hfull, hpld⟩ := h.decoding.cut (by simp)
  obtain ⟨s, hold, hdec, hsidx, hloop⟩ := loop_opening h hidx rest.length
  rw [HeaderLoop.openHeader_zero hold hmax] at hloop
  have hwants : d.wantsHeader v₀ = true := by simp [wantsHeader, hv]
  have hpkt : s.pkt = d.atThird.pkt := by rw [hdec]
  have hbuffer : s.buffer = d.buffer := by rw [hdec]; rfl
  have hfile : s.outFile = d.outFile := by rw [hdec]; rfl
  have hpos : s.currBuffIdx = d.currBuffIdx := by rw [hdec]; rfl
  refine ⟨{ s with pkt.hdrLen := 65533, pkt.fullHdrLen := 0 }.toDecoder,
    collectHeader_of_stop h.holds.load_head hwants (by
      rw [turns_opening h hidx, hloop]
      rfl), ⟨hbuffer, hfile⟩, ?_, hpos⟩
  refine ⟨?_, ?_, fun _ => ?_, ?_, ?_, ?_, ?_, ?_, ?_, ?_⟩ <;>
    simp [hpkt, atThird, hhdr, hpld, not_file_of_nil h.decoding, h.decoding.attached]

/-- A new packet whose announced header length and its prefix wrap to one or two. -/
theorem collectHeader_overflow (h : Reading d [] (v₀ :: v₁ :: v₂ :: rest) total)
    (hidx : d.currBuffIdx = d.pkt.buffNext) (hv : v₀ = 0xFF)
    (hmax : 65533 < hdrField (v₀ :: v₁ :: v₂ :: rest)) :
    d.collectHeader = .error (.halt (.fault .outOfBounds)) := by
  obtain ⟨s, hold, hdec, hsidx, hloop⟩ := loop_opening h hidx rest.length
  rw [HeaderLoop.openHeader_overflow hold hmax] at hloop
  have hwants : d.wantsHeader v₀ = true := by simp [wantsHeader, hv]
  exact collectHeader_of_stop h.holds.load_head hwants (by rw [turns_opening h hidx, hloop])

end Opening

/-- Before the third byte the header branch is entered on the marker, or when the
buffer holds fewer than three bytes. -/
theorem wantsHeader_cut (h : Decoding d.pkt acc) (hcut : acc.length < 3)
    (htotal : d.pkt.buffTotalLen = total) (v : Byte) :
    d.wantsHeader v = (v == 0xFF || decide (total < 3)) := by
  obtain ⟨-, hfull, -⟩ := h.cut hcut
  have h3 : ((total : ℤ) < 3) = (total < 3) := propext (by omega)
  simp [wantsHeader, hfull, h.read, htotal, hcut, h3]

theorem startHeader_cut (h : Decoding d.pkt acc) (hcut : acc.length < 3) :
    d.startHeader = { toDecoder := { d with pkt.fullHdrLen := 3 }, tmpHeader := Block.malloc 3,
                      hdrPtr := .tmp 0, idx := d.currBuffIdx } := by
  obtain ⟨hhdr, hfull, -⟩ := h.cut hcut
  simp [startHeader, hfull, hhdr]

theorem collectHeader_cut {v : Byte} {rest : List Byte} (h : Reading d acc (v :: rest) total)
    (hidx : d.currBuffIdx = d.pkt.buffNext) (hcut : acc.length + (v :: rest).length < 3)
    (hw : d.wantsHeader v = true) :
    d.collectHeader = .ok ({ d with
      pkt.fullHdrLen := 3, pkt.numBytesRead := acc.length + (v :: rest).length
      pkt.buffNext := total }, total) := by
  have hstart := startHeader_cut h.decoding (by omega)
  have hnext := h.next_eq
  have hread := h.decoding.read
  obtain ⟨tmp, -, -, -, hloop⟩ := HeaderLoop.loop_tmp d.startHeader
    (v :: rest) (by rw [hstart]) (by rw [hstart]) (by rw [hstart])
    (by rw [hstart]; exact h.holds)
    (by rw [hstart]; simp only [h.total_eq, hidx, ← hnext, Nat.cast_add])
    le_rfl (by rw [hstart]; simp only [hread]; omega) 0
  have hexit : HeaderLoop.guard (d.startHeader.collect (v :: rest).length tmp) = false := by
    simp only [HeaderLoop.guard, HeaderLoop.collect, hstart, h.total_eq, hidx, ← hnext]
    simp
  rw [whileLoop_exit hexit, Nat.zero_add] at hloop
  have hturns : (d.pkt.buffTotalLen - d.currBuffIdx).toNat = (v :: rest).length := by
    rw [h.total_eq, hidx]
    omega
  rw [collectHeader_of_loop h.holds.load_head hw (by rw [hturns, hloop])]
  simp only [HeaderLoop.collect, hstart, hread, hidx, hnext]

/-- Resuming after one or two bytes, the third byte finds `tmp_header` unwritten. -/
theorem collectHeader_uninit {v : Byte} {rest : List Byte} (h : Reading d acc (v :: rest) total)
    (hidx : d.currBuffIdx = d.pkt.buffNext) (hcut : acc.length < 3) (hne : acc ≠ [])
    (h3 : 3 ≤ acc.length + (v :: rest).length) (hw : d.wantsHeader v = true) :
    d.collectHeader = .error (.halt (.fault .uninitialised)) := by
  have hpos := List.length_pos_iff.mpr hne
  have hstart := startHeader_cut h.decoding hcut
  have hnext := h.next_eq
  have hread := h.decoding.read
  obtain ⟨tmp, hsize, hold, hcell, hloop⟩ := HeaderLoop.loop_tmp d.startHeader
    (v :: rest) (r := 2 - acc.length) (by rw [hstart]) (by rw [hstart]) (by rw [hstart])
    (by rw [hstart]; exact h.holds)
    (by rw [hstart]; simp only [h.total_eq, hidx, ← hnext, Nat.cast_add])
    (by omega) (by rw [hstart]; simp only [hread]; omega)
    ((v :: rest).length - (2 - acc.length) - 1 + 1)
  have hlt : 2 - acc.length < (v :: rest).length := by omega
  have hload := h.holds.load_eq (List.getElem?_eq_getElem hlt)
  have hlen : ((v :: rest).take (2 - acc.length)).length = 2 - acc.length := by
    rw [List.length_take]
    omega
  obtain ⟨tmp', hstore, hsize', hold'⟩ := hold.store_snoc (by omega) ((v :: rest)[2 - acc.length])
  rw [hlen, Nat.zero_add] at hstore
  have hguard : HeaderLoop.guard (d.startHeader.collect (2 - acc.length) tmp) = true := by
    simp only [HeaderLoop.guard, HeaderLoop.collect, hstart, h.total_eq, hidx, ← hnext, hread,
      Bool.and_eq_true, decide_eq_true_eq]
    omega
  -- the bytes of the earlier call went to its own `tmp_header`
  have hnone : tmp'.cell 2 = none := by
    rw [Block.store_cell_of_ne hstore (by omega)]
    exact hcell 2 (by omega)
  have hopen : ∀ s : HeaderLoop, s.tmpHeader = tmp' →
      s.openHeader = .error (.halt (.fault .uninitialised)) := by
    intro s hs
    cases h₁ : tmp'.cell 1 <;>
      simp [HeaderLoop.openHeader, hs, Block.load, hsize', hsize, hnone, h₁]
  have hturn : HeaderLoop.turn (d.startHeader.collect (2 - acc.length) tmp) =
      .error (.halt (.fault .uninitialised)) := by
    have htwo : acc.length + (2 - acc.length) = 2 := by omega
    simp only [HeaderLoop.turn, HeaderLoop.collect, hstart, hload, access_ok, ok_bind,
      HeaderLoop.put, hstore, hread, pure_eq_ok, htwo, ↓reduceIte, hopen, error_bind]
  rw [whileLoop_stop hguard hturn] at hloop
  apply collectHeader_of_stop h.holds.load_head hw
  rw [← hloop]
  congr 1
  rw [h.total_eq, hidx]
  omega

theorem updateBuffIdx_eq (h : (d.pkt.buffNext : ℤ) ≤ d.pkt.buffTotalLen) :
    d.updateBuffIdx = .ok { d with currBuffIdx := d.pkt.buffNext } :=
  if_neg (by simpa using h)

theorem headerReady_pending {d' : Decoder} (hc : d.collectHeader = .ok (d', d'.pkt.buffNext))
    (h : Reading d' acc [] total) (h3 : 3 ≤ acc.length) :
    ∃ d'', d.headerReady = .ok (false, d'') ∧ SameShared d' d'' ∧ Decoding d''.pkt acc ∧
      d''.currBuffIdx = total ∧ d''.pkt.pktBuilt = false := by
  have hnext : d'.pkt.buffNext = total := h.next_eq
  have hd := h.decoding
  let d₁ : Decoder := if d'.pkt.fullHdrLen ≤ 3 then { d' with pkt.fullHdrLen := 0 } else d'
  have hdec : Decoding d₁.pkt acc := by
    by_cases hf : d'.pkt.fullHdrLen ≤ 3
    · have hz : hdrField acc = 0 := by
        rcases hd.full h3 with hf' | ⟨-, hz⟩
        · simp only [hdrEnd] at hf'
          omega
        · exact hz
      simp only [d₁, hf, ↓reduceIte]
      exact ⟨hd.attached, hd.read, fun h' => by omega, hd.marker, hd.header_max, hd.header,
        fun _ => Or.inr ⟨rfl, hz⟩, hd.payload, hd.body, hd.file⟩
    · simpa only [d₁, hf, ↓reduceIte] using hd
  have hsame : d₁.pkt.buffNext = total ∧ d₁.pkt.buffTotalLen = total ∧ SameShared d' d₁ := by
    simp only [d₁]
    split <;> exact ⟨hnext, h.total_eq, rfl, rfl⟩
  have hupd : d₁.updateBuffIdx = .ok { d₁ with currBuffIdx := d₁.pkt.buffNext } :=
    updateBuffIdx_eq (by rw [hsame.1, hsame.2.1])
  refine ⟨{ d₁ with currBuffIdx := d₁.pkt.buffNext, pkt := d₁.pkt.setBuildPending true },
    ?_, hsame.2.2, ?_, hsame.1, rfl⟩
  · have hend : d'.pkt.buffTotalLen ≤ (d'.pkt.buffNext : ℤ) ∨
        d'.pkt.numBytesRead < d'.pkt.fullHdrLen := Or.inl (by rw [h.total_eq, hnext])
    simp only [headerReady, hc, ok_bind, if_pos hend]
    change (d₁.updateBuffIdx >>= _) = _
    rw [hupd]
    rfl
  · exact hdec.congr rfl rfl rfl rfl rfl rfl

theorem headerReady_ready {d' : Decoder} (hc : d.collectHeader = .ok (d', d'.pkt.buffNext))
    (h : Reading d' acc fresh total) (h3 : 3 ≤ acc.length) (hle : hdrEnd acc ≤ acc.length)
    (hne : fresh ≠ []) :
    d.headerReady = .ok (true, { d' with currBuffIdx := d'.pkt.buffNext }) := by
  have hpos := List.length_pos_iff.mpr hne
  have hnext := h.next_eq
  have hfull : d'.pkt.fullHdrLen ≤ d'.pkt.numBytesRead := by
    rw [h.decoding.read]
    rcases h.decoding.full h3 with hf | ⟨hf, -⟩ <;> omega
  have hmore : ¬ ((total : ℤ) ≤ d'.pkt.buffNext ∨ d'.pkt.numBytesRead < d'.pkt.fullHdrLen) := by
    omega
  simp only [headerReady, hc, ok_bind, h.total_eq, hmore, ↓reduceIte, hfull, decide_true,
    pure_eq_ok]

theorem headerReady_cut {v : Byte} {rest : List Byte} (h : Reading d acc (v :: rest) total)
    (hidx : d.currBuffIdx = d.pkt.buffNext) (hcut : acc.length + (v :: rest).length < 3)
    (hw : d.wantsHeader v = true) :
    ∃ d', d.headerReady = .ok (false, d') ∧ SameShared d d' ∧ Decoding d'.pkt (acc ++ v :: rest) ∧
      d'.currBuffIdx = total ∧ d'.pkt.pktBuilt = false := by
  have hd := h.decoding
  obtain ⟨hhdr, hfull, hpld⟩ := hd.cut (by omega)
  have hcoll := collectHeader_cut h hidx hcut hw
  let d₁ : Decoder := { d with
    pkt.fullHdrLen := 0, pkt.numBytesRead := acc.length + (v :: rest).length
    pkt.buffNext := total }
  have hupd : d₁.updateBuffIdx = .ok { d₁ with currBuffIdx := total } :=
    updateBuffIdx_eq (by simp [d₁, h.total_eq])
  refine ⟨{ d₁ with currBuffIdx := total, pkt := d₁.pkt.setBuildPending true },
    ?_, ⟨rfl, rfl⟩, ?_, rfl, rfl⟩
  · have hend : ∀ q : Prop, d.pkt.buffTotalLen ≤ (total : ℤ) ∨ q := fun q => Or.inl h.total_eq.le
    simp only [headerReady, hcoll, ok_bind, if_pos (hend _), le_refl, ↓reduceIte]
    change (d₁.updateBuffIdx >>= _) = _
    rw [hupd]
    rfl
  · have hlt : (acc ++ v :: rest).length < 3 := by simpa using hcut
    have hnofile : d.pkt.hasFileAttachment = false := by
      cases hf : d.pkt.hasFileAttachment with
      | false => rfl
      | true =>
        have := (hd.file hf).1
        simp only [hdrEnd] at this
        omega
    refine ⟨hd.attached, by simp [d₁, Packet.setBuildPending], fun _ => ⟨hhdr, rfl, hpld⟩,
      fun h' => by omega, fun h' => by omega, fun h' => by omega, fun h' => by omega,
      fun pld h' => ?_, fun h' => by omega, fun h' => ?_⟩
    · simp [d₁, Packet.setBuildPending, hpld] at h'
    · simp [d₁, Packet.setBuildPending, hnofile] at h'

/-- The first fresh byte is taken neither for a marker nor for a part of the prefix. -/
theorem headerReady_unmarked {v : Byte} {rest : List Byte} (h : Reading d acc (v :: rest) total)
    (hidx : d.currBuffIdx = d.pkt.buffNext) (hcut : acc.length < 3)
    (hw : d.wantsHeader v = false) :
    d.headerReady = .ok (true, d) := by
  obtain ⟨-, hfull, -⟩ := h.decoding.cut hcut
  have hnext := h.next_eq
  have hcoll : d.collectHeader = .ok (d, d.currBuffIdx) := by
    simp [collectHeader, h.holds.load_head, hw]
  have hmore : ¬ ((total : ℤ) ≤ d.currBuffIdx ∨ d.pkt.numBytesRead < 0) := by
    simp only [List.length_cons] at hnext
    omega
  simp only [headerReady, hcoll, ok_bind, h.total_eq, hfull, hmore, ↓reduceIte, Nat.zero_le,
    decide_true, pure_eq_ok]

end Decoder

end P2Purr
