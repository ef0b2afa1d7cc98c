import P2Purr.Grammar

namespace P2Purr
open Memory Loop Framing

/-- The packet's own bytes, alone in a buffer of their length, make one call of `rebuild` finish
with the same packet. -/
def Decodes (p : Packet) : Prop :=
  ∃ bytes, p.getPacket = .ok bytes ∧
    ∀ (buffer : Block) (o : OutFile), buffer.HoldsAt 0 bytes →
      ∃ d, parse buffer bytes.length o = .ok d ∧ d.pkt.pktBuilt = true ∧
        d.pkt.payloadLen = p.payloadLen ∧ RecvState.Same p d.pkt

section Decodes

variable {p : Packet} {ct : PacketType} {cs : PacketCharSet} {enc : PacketEncoding}
  {encr : PacketEncryption} {compr : PacketCompression} {body : List Byte}

theorem Emits.decodes (h : Emits p ct cs enc encr compr body) (hne : body ≠ []) : Decodes p := by
  have hle := h.length_le
  have hcarries := h.carries hne
  have hframe : wire.IsFrame (frameOf ct cs enc encr compr body) := frameOf_isFrame hne (by omega)
  refine ⟨_, h.bytes, fun buffer o hold => ?_⟩
  generalize frameOf ct cs enc encr compr body = f at *
  have hf : f ≠ [] := by
    rintro rfl
    have := (wire_size_eq_some.mp hframe).1
    simp at this
  have hspec := Decoder.rebuild_spec (d :=
      { pkt := Decoder.newPacket 0 f.length, buffer := buffer, currBuffIdx := 0, outFile := o })
    (decoding_newPacket 0 f.length) rfl (Nat.zero_add _) hold hf
  have hnew : ([] : List Byte).length ≠ 1 ∧ ([] : List Byte).length ≠ 2 := by simp
  rw [verdict_of_frame hnew le_rfl hframe le_rfl] at hspec
  obtain ⟨d, hd, -, -, hcarries', -⟩ := hspec
  rw [List.nil_append, List.take_length] at hcarries'
  exact ⟨d, hd, hcarries'.built, by rw [hcarries'.payload_len, hcarries.payload_len],
    RecvState.same_of_carries hcarries hcarries'⟩

/-- Twelve bytes of header and nothing behind them are a header that is not complete. -/
theorem Emits.not_decodes (h : Emits p ct cs enc encr compr []) : ¬ Decodes p := by
  rintro ⟨bytes, hbytes, hall⟩
  obtain rfl : frameOf ct cs enc encr compr [] = bytes := Except.ok.inj (h.bytes.symm.trans hbytes)
  obtain ⟨d, hd, hbuilt, -⟩ := hall _ {} (Block.holdsAt_ofList _)
  have hpending := outcome_parse (Block.holdsAt_ofList (frameOf ct cs enc encr compr []))
    (by simp [frameOf]) {}
  have hverdict : verdict [] (frameOf ct cs enc encr compr [])
      (frameOf ct cs enc encr compr []).length = .pending := rfl
  rw [hd, outcome, hbuilt, hverdict] at hpending
  cases hpending

/-- The decoder takes what the constructors emit, unless there is no payload. -/
theorem decodes_iff (h : Emitted p) : Decodes p ↔ 1 ≤ p.payloadLen := by
  obtain ⟨ct, cs, enc, encr, compr, body, hemits⟩ := h.emits
  rw [hemits.payload_len]
  constructor
  · intro hdecodes
    by_contra hzero
    obtain rfl : body = [] := List.eq_nil_of_length_eq_zero (by omega)
    exact hemits.not_decodes hdecodes
  · intro hpos
    exact hemits.decodes (List.length_pos_iff.mp hpos)

theorem exists_emitted (body : List Byte) (hle : body.length ≤ 2 ^ 31 - 14) :
    ∃ p, Packet.ofPayload (some (Block.ofList body)) body.length 1 2 1 1 0 = .ok p ∧ Emitted p ∧
      Emits p 1 2 1 0 1 body := by
  obtain ⟨p, hp, -, hcarries⟩ := Packet.ofPayload_spec (Block.holdsAt_ofList body) (by omega)
    (1 : Byte) (2 : Byte) (1 : Byte) (1 : Byte) (0 : Byte)
  exact ⟨p, hp, .payload _ body 1 2 1 1 0 (Block.holdsAt_ofList body) hle hp,
    .of_carries hcarries hle⟩

theorem decodes_letter :
    ∃ p, Packet.ofPayload (some (Block.ofList [0x61])) 1 1 2 1 1 0 = .ok p ∧ Decodes p := by
  obtain ⟨p, hp, hemitted, hemits⟩ := exists_emitted [0x61] (by norm_num)
  exact ⟨p, hp, (decodes_iff hemitted).mpr (by rw [hemits.payload_len]; exact le_rfl)⟩

theorem not_decodes_empty :
    ∃ p, Packet.ofPayload (some (Block.ofList [])) 0 1 2 1 1 0 = .ok p ∧ Emitted p ∧
      ¬ Decodes p := by
  obtain ⟨p, hp, hemitted, hemits⟩ := exists_emitted [] (by norm_num)
  exact ⟨p, hp, hemitted, hemits.not_decodes⟩

end Decodes

end P2Purr
