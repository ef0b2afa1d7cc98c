import P2Purr.Hostile

namespace P2Purr
open Memory Framing Serializer

section Canonical

variable {f : List Byte} {p : Packet}

def rebuiltFrame (p : Packet) (f : List Byte) : List Byte :=
  frameOf p.type p.charset p.encoding p.encryption p.compression (f.drop (hdrEnd f))

theorem payload_length (hf : wire.IsFrame f) :
    (f.drop (hdrEnd f)).length = payloadField f := by
  obtain ⟨-, -, hlen⟩ := wire_isFrame_iff.mp hf
  rw [List.length_drop, hlen, frameSize]
  omega

/-- Nine header bytes hold the five fields and the payload length, and nothing else. -/
theorem rebuiltFrame_eq_iff (hf : wire.IsFrame f) (hp : Fields p f) :
    rebuiltFrame p f = f ↔ hdrField f = 9 := by
  constructor
  · intro heq
    rw [← heq]
    exact hdrField_frameOf
  · intro hnine
    obtain ⟨hmark, husable, hlen⟩ := wire_isFrame_iff.mp hf
    have hend : hdrEnd f = 12 := by rw [hdrEnd, hnine]
    have hbody := payload_length hf
    have hlong : 12 ≤ f.length := by
      rw [hlen, frameSize, hend]
      omega
    unfold rebuiltFrame
    rw [hend] at hbody ⊢
    obtain ⟨v₀, v₁, v₂, v₃, v₄, v₅, v₆, v₇, v₈, v₉, v₁₀, v₁₁, body, hcells⟩ := exists_twelve hlong
    rw [hcells] at hp hmark hnine hbody ⊢
    have hmarked : v₀ = 0xFF := Option.some.inj hmark
    have hcells₁₂ : [v₁, v₂] = [0, 9] := beValue_inj rfl hnine
    -- the four bytes of the length are what `serialize_int32` makes of it
    have hlength : serializeInt32 (BitVec.ofNat 64 body.length) = [v₈, v₉, v₁₀, v₁₁] := by
      apply beValue_inj (serializeLoop_length 4 _)
      rw [beValue_serializeInt32 (hbody ▸ payloadField_lt _)]
      exact hbody
    obtain ⟨h₁, h₂⟩ := List.cons.inj hcells₁₂
    obtain ⟨h₂, -⟩ := List.cons.inj h₂
    have htype : v₃ = p.type := Option.some.inj hp.type
    have hcharset : v₄ = p.charset := Option.some.inj hp.charset
    have hencoding : v₅ = p.encoding := Option.some.inj hp.encoding
    have hencryption : v₆ = p.encryption := Option.some.inj hp.encryption
    have hcompression : v₇ = p.compression := Option.some.inj hp.compression
    change frameOf p.type p.charset p.encoding p.encryption p.compression body = _
    rw [frameOf, hlength, hmarked, h₁, h₂, htype, hcharset, hencoding, hencryption, hcompression]
    rfl

end Canonical

namespace RecvState

variable {rs : List RecvResult} {s : RecvState} {p : Packet}

theorem Reached.frames (h : Reached rs s) :
    ∃ fs, fs <+: (wire.split (bytesReceived rs)).1 ∧ List.Forall₂ Carries s.completedPkts fs := by
  obtain ⟨s₀, calls, hfresh, hfits, hrun⟩ := h
  have hfed := (Fed.reading hfresh.hasRead).run hfits hrun
  simpa using hfed.frames

/-- Each packet that was received stands for the frame in its place of the stream. -/
theorem Reached.carries (h : Reached rs s) {i : ℕ} (hi : s.completedPkts[i]? = some p) :
    ∃ f, (wire.split (bytesReceived rs)).1[i]? = some f ∧ wire.IsFrame f ∧ Carries p f := by
  obtain ⟨fs, hfs, hcarry⟩ := h.frames
  obtain ⟨hlt, hp⟩ := List.getElem?_eq_some_iff.mp hi
  have hlt' : i < fs.length := by rw [← hcarry.length_eq]; exact hlt
  have hget : (wire.split (bytesReceived rs)).1[i]? = some fs[i] :=
    List.prefix_iff_getElem?.mp hfs i hlt'
  refine ⟨fs[i], hget, Framer.split_isFrame _ _ (List.mem_of_getElem? hget), ?_⟩
  rw [← hp]
  exact hcarry.get hlt hlt'

theorem exists_reached_letters :
    ∃ s p q, Reached (letterChunks.map .data) s ∧ s.completedPkts = [p, q] := by
  obtain ⟨hfits, s, calls, hrun, -, hgrew, -⟩ := letterChunks_run
  obtain ⟨p, q, hboth⟩ := List.length_eq_two.mp hgrew.length
  exact ⟨s, p, q, ⟨_, calls, idle_fresh _ _ _, hfits, hrun⟩, hboth⟩

/-- A received packet is sent on byte for byte, as it stood in the stream: what the kernel takes of
it goes out behind what was sent before, and `send_pkt` catches something unless that is all. -/
theorem sends_on (h : Reached rs s) {i : ℕ} (hi : s.completedPkts[i]? = some p) (k : Kernel)
    (sent : Sent) :
    ∃ f n calls, (wire.split (bytesReceived rs)).1[i]? = some f ∧ n ≤ f.length ∧
      PeerConnHandler.sendPkt k p sent =
        .ok ({ bytes := sent.bytes ++ f.take n, calls := calls },
          if n = f.length then none else some { cls := .send }) := by
  obtain ⟨f, hf, -, hcarries⟩ := h.carries hi
  exact ⟨f, _, _, hf, k.takesAux_le f.length sent.calls f.length,
    PeerConnHandler.sendPkt_spec hcarries k sent⟩

theorem sends_on_letter :
    ∃ s p n calls, Reached (letterChunks.map .data) s ∧ s.completedPkts[1]? = some p ∧
      PeerConnHandler.sendPkt PeerConnHandler.eager p {} =
        .ok ({ bytes := (frameOf 1 2 1 0 1 [0x62]).take n, calls := calls },
          if n = 13 then none else some { cls := .send }) := by
  obtain ⟨s, p, q, hreached, hboth⟩ := exists_reached_letters
  have hsecond : s.completedPkts[1]? = some q := by rw [hboth]; rfl
  obtain ⟨f, n, calls, hf, -, hsend⟩ := sends_on hreached hsecond PeerConnHandler.eager {}
  have hframe : f = frameOf 1 2 1 0 1 [0x62] := Option.some.inj (hf.symm.trans (by decide))
  rw [hframe] at hsend
  exact ⟨s, q, n, calls, hreached, hsecond, hsend⟩

/-- The constructor gives a packet with the same contents again, and the same bytes exactly if the
header has no more than its nine bytes. -/
theorem reencodes_iff (h : Reached rs s) (hp : p ∈ s.completedPkts) :
    ∃ q, Packet.ofPayload p.payload p.payloadLen p.type p.charset p.encoding p.compression
        p.encryption = .ok q ∧
      (q.type = p.type ∧ q.charset = p.charset ∧ q.encoding = p.encoding ∧
        q.encryption = p.encryption ∧ q.compression = p.compression ∧
        q.getPayload = p.getPayload) ∧
      (q.getPacket = p.getPacket ↔ p.hdrLen = 9) := by
  obtain ⟨i, hi⟩ := List.getElem?_of_mem hp
  obtain ⟨f, -, hf, hcarries⟩ := h.carries hi
  obtain ⟨-, husable, -⟩ := wire_isFrame_iff.mp hf
  -- the payload block holds what stands behind the header
  have hpayload := hcarries.payload
  unfold Packet.getPayload at hpayload
  obtain ⟨src, hsrc, hload⟩ := bind_eq_ok.mp hpayload
  have hblock : p.payload = some src := by
    cases hnone : p.payload with
    | none => simp [hnone] at hsrc
    | some b => rw [← Except.ok.inj (hnone ▸ hsrc : deref (some b) = .ok src)]
  obtain ⟨hold, hlen⟩ := Block.holdsAt_of_loadAll (Nat.zero_le src.size) hload
  have hlt : (f.drop (hdrEnd f)).length < 2 ^ 31 - 12 := by
    have hsize := husable.size_lt
    have hmin := husable.header_min
    rw [payload_length hf]
    rw [frameSize, hdrEnd] at hsize
    omega
  obtain ⟨q, hq, -, hcarries'⟩ := Packet.ofPayload_spec hold hlt p.type p.charset p.encoding
    p.compression p.encryption
  refine ⟨q, by rw [hblock, ← hlen]; exact hq, ⟨?_, ?_, ?_, ?_, ?_, ?_⟩, ?_⟩
  · exact (Option.some.inj hcarries'.type).symm
  · exact (Option.some.inj hcarries'.charset).symm
  · exact (Option.some.inj hcarries'.encoding).symm
  · exact (Option.some.inj hcarries'.encryption).symm
  · exact (Option.some.inj hcarries'.compression).symm
  · rw [hcarries'.payload, hcarries.payload]
    rfl
  · rw [hcarries'.packet, hcarries.packet, hcarries.hdr_len, Except.ok.injEq]
    exact rebuiltFrame_eq_iff hf hcarries.toFields

theorem reencodes_iff_letter :
    ∃ s p, Reached (letterChunks.map .data) s ∧ p ∈ s.completedPkts ∧
      ∃ q, Packet.ofPayload p.payload p.payloadLen p.type p.charset p.encoding p.compression
          p.encryption = .ok q ∧ (q.getPacket = p.getPacket ↔ p.hdrLen = 9) := by
  obtain ⟨s, p, p', hreached, hboth⟩ := exists_reached_letters
  have hmem : p ∈ s.completedPkts := by simp [hboth]
  obtain ⟨q, hq, -, hiff⟩ := reencodes_iff hreached hmem
  exact ⟨s, p, hreached, hmem, q, hq, hiff⟩

end RecvState

end P2Purr
