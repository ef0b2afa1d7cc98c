import P2Purr.Rebuild

namespace P2Purr
open Memory Loop

/-- The cursors of a packet, `idx` bytes into a buffer with `total` bytes of content, in a call
that found the shared index at `start` with `before` bytes of the packet read. -/
structure Cursors (start before : ℕ) (total : ℤ) (p : Packet) (idx : ℕ) : Prop where
  next : p.buffNext = idx
  count : idx + before = start + p.numBytesRead
  total_eq : p.buffTotalLen = total
  start_le : start ≤ idx
  le_total : start ≤ total → idx ≤ total

variable {start before idx : ℕ} {total : ℤ}

theorem Cursors.congr {p q : Packet} (h : Cursors start before total p idx)
    (hnext : q.buffNext = p.buffNext) (hread : q.numBytesRead = p.numBytesRead)
    (htotal : q.buffTotalLen = p.buffTotalLen) : Cursors start before total q idx where
  next := hnext.trans h.next
  count := by rw [hread]; exact h.count
  total_eq := htotal.trans h.total_eq
  start_le := h.start_le
  le_total := h.le_total

theorem Cursors.withPktLen {p : Packet} (h : Cursors start before total p idx) (n : ℤ) :
    Cursors start before total { p with pktLen := n } idx := h.congr rfl rfl rfl

theorem Cursors.step {p q : Packet} (h : Cursors start before total p idx)
    (hlt : (idx : ℤ) < p.buffTotalLen) (hnext : q.buffNext = p.buffNext + 1)
    (hread : q.numBytesRead = p.numBytesRead + 1) (htotal : q.buffTotalLen = p.buffTotalLen) :
    Cursors start before total q (idx + 1) where
  next := by rw [hnext, h.next]
  count := by have := h.count; omega
  total_eq := htotal.trans h.total_eq
  start_le := by have := h.start_le; omega
  le_total := fun _ => by have := h.total_eq; omega

namespace HeaderLoop

variable {s s' : HeaderLoop} {v : Byte}

theorem put_ok (h : s.put v = .ok s') : ∃ hdr tmp ptr,
    s' = { s with pkt.header := hdr, tmpHeader := tmp, hdrPtr := ptr } := by
  unfold put at h
  cases hptr : s.hdrPtr with
  | tmp i =>
    simp only [hptr] at h
    obtain ⟨tmp, -, h⟩ := bind_eq_ok.mp h
    exact ⟨s.pkt.header, tmp, .tmp (i + 1), (Except.ok.inj h).symm⟩
  | header i =>
    simp only [hptr] at h
    obtain ⟨hdr, -, h⟩ := bind_eq_ok.mp h
    obtain ⟨hdr', -, h⟩ := bind_eq_ok.mp h
    exact ⟨some hdr', s.tmpHeader, .header (i + 1), (Except.ok.inj h).symm⟩

theorem openHeader_ends (h : s.openHeader = .ok s') : ∃ hdrLen fullHdrLen hdr ptr,
    s' = { s with
      pkt.hdrLen := hdrLen, pkt.fullHdrLen := fullHdrLen, pkt.header := hdr, hdrPtr := ptr } := by
  unfold openHeader at h
  obtain ⟨b₁, -, h⟩ := bind_eq_ok.mp h
  obtain ⟨b₂, -, h⟩ := bind_eq_ok.mp h
  dsimp only at h
  split at h
  · exact absurd h throwPacket_ne_ok
  · obtain ⟨hdr, -, h⟩ := bind_eq_ok.mp h
    exact ⟨_, _, some hdr, _, (Except.ok.inj h).symm⟩

theorem turn_cursors (h : Cursors start before total s.pkt s.idx) (hguard : s.guard = true)
    (hturn : s.turn = .ok s') : Cursors start before total s'.pkt s'.idx := by
  have hlt : (s.idx : ℤ) < s.pkt.buffTotalLen := by
    simp only [guard, Bool.and_eq_true, decide_eq_true_eq] at hguard
    exact hguard.1
  unfold turn at hturn
  obtain ⟨v, -, hturn⟩ := bind_eq_ok.mp hturn
  obtain ⟨s₁, hput, hturn⟩ := bind_eq_ok.mp hturn
  obtain ⟨hdr, tmp, ptr, rfl⟩ := put_ok (access_eq_ok.mp hput)
  dsimp only at hturn
  split at hturn
  · obtain ⟨s₂, hopen, hturn⟩ := bind_eq_ok.mp hturn
    obtain ⟨hdrLen, fullHdrLen, hdr', ptr', rfl⟩ := openHeader_ends hopen
    rw [← Except.ok.inj hturn]
    exact h.step hlt rfl rfl rfl
  · rw [pure_eq_ok, ok_bind] at hturn
    rw [← Except.ok.inj hturn]
    exact h.step hlt rfl rfl rfl

end HeaderLoop

namespace PayloadLoop

variable {s s' : PayloadLoop}

theorem turn_cursors (h : Cursors start before total s.pkt s.idx) (hguard : s.guard = true)
    (hturn : s.turn = .ok s') : Cursors start before total s'.pkt s'.idx := by
  have hlt : (s.idx : ℤ) < s.pkt.buffTotalLen := by
    simp only [guard, Bool.and_eq_true, decide_eq_true_eq] at hguard
    exact hguard.1
  unfold turn at hturn
  obtain ⟨v, -, hturn⟩ := bind_eq_ok.mp hturn
  obtain ⟨payload, -, hturn⟩ := bind_eq_ok.mp hturn
  rw [← Except.ok.inj hturn]
  exact h.step hlt rfl rfl rfl

end PayloadLoop

namespace Decoder

variable {d d' : Decoder}

abbrev At (start before : ℕ) (total : ℤ) (d : Decoder) : Prop :=
  Cursors start before total d.pkt d.currBuffIdx

theorem startHeader_cursors (h : At start before total d) :
    Cursors start before total d.startHeader.pkt d.startHeader.idx := by
  unfold startHeader
  dsimp only
  split
  · exact h.congr rfl rfl rfl
  · exact h

theorem updateBuffIdx_ends (hd : d.updateBuffIdx = .ok d') :
    d' = { d with currBuffIdx := d.pkt.buffNext } := by
  unfold updateBuffIdx at hd
  dsimp only at hd
  split at hd
  · exact absurd hd throwPacket_ne_ok
  · exact (Except.ok.inj hd).symm

theorem updateBuffIdx_cursors (hd : d.updateBuffIdx = .ok d')
    (h : Cursors start before total d.pkt idx) : At start before total d' := by
  rw [updateBuffIdx_ends hd, At]
  dsimp only
  rwa [h.next]

theorem collectHeader_cursors (h : At start before total d)
    (hd : d.collectHeader = .ok (d', idx)) : Cursors start before total d'.pkt idx := by
  unfold collectHeader at hd
  obtain ⟨v, -, hd⟩ := bind_eq_ok.mp hd
  split at hd
  · obtain ⟨s, hloop, hd⟩ := bind_eq_ok.mp hd
    obtain ⟨rfl, rfl⟩ := Prod.mk.inj (Except.ok.inj hd)
    exact whileLoop_invariant (fun s : HeaderLoop => Cursors start before total s.pkt s.idx)
      (fun _ _ hs hguard hturn => HeaderLoop.turn_cursors hs hguard hturn) (startHeader_cursors h)
      hloop
  · obtain ⟨rfl, rfl⟩ := Prod.mk.inj (Except.ok.inj hd)
    exact h

/-- A header that is not complete is waited for, at the place the header loop got to. -/
theorem headerReady_cursors {ready : Bool} (h : At start before total d)
    (hd : d.headerReady = .ok (ready, d')) :
    At start before total d' ∧
      (ready = false → d'.pkt.pktBuilt = false ∧ d'.pkt.pktRebuilding = true) := by
  unfold headerReady at hd
  obtain ⟨⟨d₁, idx⟩, hcollect, hd⟩ := bind_eq_ok.mp hd
  have h₁ := collectHeader_cursors h hcollect
  dsimp only at hd
  split at hd
  · obtain ⟨d₂, hupdate, hd⟩ := bind_eq_ok.mp hd
    obtain ⟨rfl, rfl⟩ := Prod.mk.inj (Except.ok.inj hd)
    have h₂ : Cursors start before total
        (if d₁.pkt.fullHdrLen ≤ 3 then { d₁ with pkt.fullHdrLen := 0 } else d₁).pkt idx := by
      split
      · exact h₁.congr rfl rfl rfl
      · exact h₁
    exact ⟨(updateBuffIdx_cursors hupdate h₂).congr rfl rfl rfl, fun _ => ⟨rfl, rfl⟩⟩
  · obtain ⟨rfl, rfl⟩ := Prod.mk.inj (Except.ok.inj hd)
    refine ⟨h₁, fun hready => ?_⟩
    have := of_decide_eq_false hready
    omega

theorem rebuildHeader_cursors (h : At start before total d) (hd : d.rebuildHeader = .ok d') :
    At start before total d' := by
  unfold rebuildHeader at hd
  obtain ⟨hdr, -, hd⟩ := bind_eq_ok.mp hd
  obtain ⟨b₁, -, hd⟩ := bind_eq_ok.mp hd
  obtain ⟨b₂, -, hd⟩ := bind_eq_ok.mp hd
  dsimp only at hd
  split at hd
  · exact absurd hd throwPacket_ne_ok
  obtain ⟨type, -, hd⟩ := bind_eq_ok.mp hd
  obtain ⟨charset, -, hd⟩ := bind_eq_ok.mp hd
  obtain ⟨encoding, -, hd⟩ := bind_eq_ok.mp hd
  obtain ⟨encryption, -, hd⟩ := bind_eq_ok.mp hd
  obtain ⟨compression, -, hd⟩ := bind_eq_ok.mp hd
  obtain ⟨len, -, hd⟩ := bind_eq_ok.mp hd
  split at hd
  · exact absurd hd throwPacket_ne_ok
  split at hd
  · obtain ⟨payload, -, hd⟩ := bind_eq_ok.mp hd
    exact updateBuffIdx_cursors hd (h.congr rfl rfl rfl)
  · rw [pure_eq_ok, ok_bind] at hd
    exact updateBuffIdx_cursors hd (h.congr rfl rfl rfl)

theorem collectPayload_cursors (hd : d.collectPayload = .ok d') (h : At start before total d) :
    At start before total d' := by
  unfold collectPayload at hd
  obtain ⟨s, hloop, hd⟩ := bind_eq_ok.mp hd
  rw [← Except.ok.inj hd]
  exact whileLoop_invariant (fun s : PayloadLoop => Cursors start before total s.pkt s.idx)
    (fun _ _ hs hguard hturn => PayloadLoop.turn_cursors hs hguard hturn) h hloop

theorem outputToFile_pkt (hd : d.outputToFile = .ok d') : d'.pkt = d.pkt := by
  unfold outputToFile at hd
  split at hd
  · obtain ⟨data, -, hd⟩ := bind_eq_ok.mp hd
    rw [← Except.ok.inj hd]
  · rw [← Except.ok.inj hd]

theorem finish_cursors (h : At start before total d) (hd : d.finish = .ok d') :
    d'.currBuffIdx = d.currBuffIdx ∧ d'.pkt.numBytesRead = d.pkt.numBytesRead ∧
      d'.pkt.pktRebuilding = !d'.pkt.pktBuilt := by
  unfold finish at hd
  dsimp only at hd
  split at hd
  · obtain ⟨d₁, hupdate, hd⟩ := bind_eq_ok.mp hd
    rw [← Except.ok.inj hd, updateBuffIdx_ends hupdate]
    exact ⟨h.next, rfl, rfl⟩
  split at hd
  · obtain ⟨d₁, houtput, hd⟩ := bind_eq_ok.mp hd
    obtain ⟨pkt, hmake, hd⟩ := bind_eq_ok.mp hd
    obtain ⟨d₂, hupdate, hd⟩ := bind_eq_ok.mp hd
    have hpkt : d₁.pkt = d.pkt := by
      split at houtput
      · exact outputToFile_pkt (access_eq_ok.mp houtput)
      · rw [← Except.ok.inj (access_eq_ok.mp houtput)]
    obtain ⟨built, hbuilt, -⟩ := Packet.makePkt_inv (access_eq_ok.mp hmake)
    rw [← Except.ok.inj hd, updateBuffIdx_ends hupdate, hbuilt, hpkt]
    exact ⟨h.next, rfl, rfl⟩
  · exact absurd hd throwPacket_ne_ok

theorem rebuild_cursors (hd : d.rebuild = .ok d') :
    d'.currBuffIdx + d.pkt.numBytesRead = d.currBuffIdx + d'.pkt.numBytesRead ∧
      d.currBuffIdx ≤ d'.currBuffIdx ∧
      (d.currBuffIdx ≤ d.pkt.buffTotalLen → d'.currBuffIdx ≤ d.pkt.buffTotalLen) ∧
      d'.pkt.pktRebuilding = !d'.pkt.pktBuilt := by
  have h : At d.currBuffIdx d.pkt.numBytesRead d.pkt.buffTotalLen d.updateLocalBuffInfo :=
    ⟨rfl, rfl, rfl, le_rfl, id⟩
  unfold rebuild at hd
  split at hd
  · obtain ⟨⟨ready, d₁⟩, hready, hd⟩ := bind_eq_ok.mp hd
    obtain ⟨h₁, hflags⟩ := headerReady_cursors h hready
    dsimp only at hd
    split at hd
    · obtain ⟨d₂, hheader, hd⟩ := bind_eq_ok.mp hd
      obtain ⟨d₃, hpayload, hd⟩ := bind_eq_ok.mp hd
      have h₂ := (rebuildHeader_cursors h₁ hheader).withPktLen
      have h₃ := collectPayload_cursors hpayload (h₂ _)
      obtain ⟨hidx, hread, hdone⟩ := finish_cursors h₃ hd
      rw [hidx, hread]
      exact ⟨h₃.count, h₃.start_le, h₃.le_total, hdone⟩
    next hpending =>
      rw [← Except.ok.inj hd]
      obtain ⟨hbuilt, hrebuilding⟩ := hflags (by simpa using hpending)
      exact ⟨h₁.count, h₁.start_le, h₁.le_total, by rw [hbuilt, hrebuilding]; rfl⟩
  · cases hd

end Decoder

end P2Purr
