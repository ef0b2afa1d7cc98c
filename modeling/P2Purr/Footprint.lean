import P2Purr.Rebuild

namespace P2Purr
open Memory Loop

def Decoder.onBuffer (b : Block) (d : Decoder) : Decoder := { d with buffer := b }

namespace HeaderLoop

variable {s t : HeaderLoop} {b : Block}

def onBuffer (b : Block) (s : HeaderLoop) : HeaderLoop := { s with buffer := b }

theorem openHeader_onBuffer {s' : HeaderLoop} (h : s' = s.onBuffer b) :
    s'.openHeader = transfer (Decoder.onBuffer b) (onBuffer b) s.openHeader := by
  subst h
  unfold openHeader
  refine transfer_access_bind fun b₁ => transfer_access_bind fun b₂ => ?_
  dsimp only
  split
  · rfl
  · exact transfer_access_bind fun hdr => rfl

theorem put_onBuffer (s : HeaderLoop) (b : Block) (v : Byte) :
    (s.onBuffer b).put v = (s.put v).map (onBuffer b) := by
  obtain ⟨d, tmp, ptr, idx⟩ := s
  cases ptr with
  | tmp i => cases hs : tmp.store i v <;> simp [put, onBuffer, hs, Except.map]
  | header i =>
    cases hp : d.pkt.header with
    | none => simp [put, onBuffer, hp, Except.map]
    | some hdr => cases hs : hdr.store i v <;> simp [put, onBuffer, hp, hs, Except.map]

theorem turn_onBuffer (h : b.load s.pkt.buffNext = s.buffer.load s.pkt.buffNext) :
    (s.onBuffer b).turn = transfer (Decoder.onBuffer b) (onBuffer b) s.turn := by
  unfold turn
  have hsame : (s.onBuffer b).buffer.load (s.onBuffer b).pkt.buffNext =
      s.buffer.load s.pkt.buffNext := h
  rw [hsame]
  refine transfer_access_bind fun v => ?_
  rw [put_onBuffer]
  cases s.put v with
  | error e => rfl
  | ok s =>
    simp only [Except.map, access_ok, ok_bind]
    refine transfer_ite Iff.rfl (fun _ => ?_) (fun _ => rfl)
    exact transfer_bind (openHeader_onBuffer rfl) fun s _ => rfl

theorem buffer_of_turns (h : Turns guard turn s t) : t.buffer = s.buffer := by
  refine h.keeps (fun t => t.buffer = s.buffer) (fun t t' ht _ hturn => ?_) rfl
  -- on its own buffer
  have hsame : t.turn = transfer (Decoder.onBuffer t.buffer) (onBuffer t.buffer) t.turn :=
    turn_onBuffer rfl
  rw [hturn, transfer_ok, Except.ok.injEq] at hsame
  rw [hsame]
  exact ht

end HeaderLoop

namespace PayloadLoop

variable {s t : PayloadLoop} {b : Block}

def onBuffer (b : Block) (s : PayloadLoop) : PayloadLoop := { s with buffer := b }

theorem turn_onBuffer (h : b.load s.pkt.buffNext = s.buffer.load s.pkt.buffNext) :
    (s.onBuffer b).turn = transfer (Decoder.onBuffer b) (onBuffer b) s.turn := by
  unfold turn
  have hsame : (s.onBuffer b).buffer.load (s.onBuffer b).pkt.buffNext =
      s.buffer.load s.pkt.buffNext := h
  rw [hsame]
  refine transfer_access_bind fun v => ?_
  exact transfer_access_bind fun payload => rfl

theorem buffer_of_turns (h : Turns guard turn s t) : t.buffer = s.buffer := by
  refine h.keeps (fun t => t.buffer = s.buffer) (fun t t' ht _ hturn => ?_) rfl
  have hsame : t.turn = transfer (Decoder.onBuffer t.buffer) (onBuffer t.buffer) t.turn :=
    turn_onBuffer rfl
  rw [hturn, transfer_ok, Except.ok.injEq] at hsame
  rw [hsame]
  exact ht

end PayloadLoop

namespace Decoder

variable {d d' : Decoder} {b : Block}

theorem updateBuffIdx_onBuffer (h : d' = d.onBuffer b) :
    d'.updateBuffIdx = transfer (onBuffer b) (onBuffer b) d.updateBuffIdx := by
  subst h
  unfold updateBuffIdx
  exact transfer_ite Iff.rfl (fun _ => rfl) (fun _ => rfl)

theorem rebuildHeader_onBuffer (d : Decoder) (b : Block) :
    (d.onBuffer b).rebuildHeader = transfer (onBuffer b) (onBuffer b) d.rebuildHeader := by
  unfold rebuildHeader
  refine transfer_access_bind fun hdr => ?_
  refine transfer_access_bind fun b₁ => ?_
  refine transfer_access_bind fun b₂ => ?_
  refine transfer_ite Iff.rfl (fun _ => rfl) (fun _ => ?_)
  refine transfer_access_bind fun type => ?_
  refine transfer_access_bind fun charset => ?_
  refine transfer_access_bind fun encoding => ?_
  refine transfer_access_bind fun encryption => ?_
  refine transfer_access_bind fun compression => ?_
  refine transfer_access_bind fun len => ?_
  refine transfer_ite Iff.rfl (fun _ => rfl) (fun _ => ?_)
  have hsame : (d.onBuffer b).pkt.payload = d.pkt.payload := rfl
  cases hpld : d.pkt.payload with
  | none =>
    simp only [hsame, hpld]
    exact transfer_access_bind fun payload => updateBuffIdx_onBuffer rfl
  | some payload =>
    simp only [hsame, hpld]
    exact updateBuffIdx_onBuffer rfl

theorem outputToFile_onBuffer (d : Decoder) (b : Block) :
    (d.onBuffer b).outputToFile = d.outputToFile.map (onBuffer b) := by
  unfold outputToFile
  split
  · rw [if_pos (by assumption)]
    cases hp : d.pkt.getPayload with
    | ok data => rw [show (d.onBuffer b).pkt.getPayload = .ok data from hp]; rfl
    | error f => rw [show (d.onBuffer b).pkt.getPayload = .error f from hp]; rfl
  · rw [if_neg (by assumption)]
    rfl

theorem finish_onBuffer (d : Decoder) (b : Block) :
    (d.onBuffer b).finish = transfer (onBuffer b) (onBuffer b) d.finish := by
  unfold finish
  refine transfer_ite Iff.rfl (fun _ => ?_) (fun _ => ?_)
  · exact transfer_bind (updateBuffIdx_onBuffer rfl) fun d _ => rfl
  refine transfer_ite Iff.rfl (fun _ => ?_) (fun _ => rfl)
  have hfile :
      (if d.pkt.hasFileAttachment then (d.onBuffer b).outputToFile else pure (d.onBuffer b)) =
        (if d.pkt.hasFileAttachment then d.outputToFile else pure d).map (onBuffer b) := by
    rw [outputToFile_onBuffer]
    split <;> rfl
  refine Eq.trans (congrArg (fun x => access x >>= _) hfile) ?_
  cases (if d.pkt.hasFileAttachment then d.outputToFile else pure d) with
  | error f => rfl
  | ok d =>
    simp only [Except.map, access_ok, ok_bind]
    refine transfer_access_bind fun pkt => ?_
    exact transfer_bind (updateBuffIdx_onBuffer rfl) fun d _ => rfl

theorem startHeader_onBuffer (d : Decoder) (b : Block) :
    (d.onBuffer b).startHeader = d.startHeader.onBuffer b := by
  unfold startHeader
  dsimp only
  split
  · rw [if_pos (by assumption)]; rfl
  · rw [if_neg (by assumption)]; rfl

theorem startHeader_buffer (d : Decoder) : d.startHeader.buffer = d.buffer := by
  unfold startHeader
  dsimp only
  split <;> rfl

theorem collectHeader_onBuffer
    (hlook : b.load d.pkt.buffNext = d.buffer.load d.pkt.buffNext)
    (hheader : ∀ first s, d.buffer.load d.pkt.buffNext = .ok first → d.wantsHeader first = true →
      Turns HeaderLoop.guard HeaderLoop.turn d.startHeader s → s.guard = true →
      b.load s.pkt.buffNext = d.buffer.load s.pkt.buffNext) :
    (d.onBuffer b).collectHeader =
      transfer (onBuffer b) (fun r => (r.1.onBuffer b, r.2)) d.collectHeader := by
  unfold collectHeader
  have hsame : (d.onBuffer b).buffer.load (d.onBuffer b).pkt.buffNext =
    d.buffer.load d.pkt.buffNext := hlook
  rw [hsame]
  cases hfirst : d.buffer.load d.pkt.buffNext with
  | error f => rfl
  | ok first =>
    simp only [access_ok, ok_bind]
    refine transfer_ite Iff.rfl (fun hwants => ?_) (fun _ => rfl)
    refine transfer_bind (f := HeaderLoop.onBuffer b) ?_ fun s _ => rfl
    rw [startHeader_onBuffer]
    have hturn : ∀ s, Turns HeaderLoop.guard HeaderLoop.turn d.startHeader s → s.guard = true →
        (s.onBuffer b).turn = transfer (onBuffer b) (HeaderLoop.onBuffer b) s.turn := by
      intro s hturns hguard
      apply HeaderLoop.turn_onBuffer
      rw [HeaderLoop.buffer_of_turns hturns, startHeader_buffer]
      exact hheader first s hfirst hwants hturns hguard
    have hguard : ∀ s : HeaderLoop, (s.onBuffer b).guard = s.guard := fun _ => rfl
    exact transfer_whileLoop hguard hturn _

theorem headerReady_onBuffer
    (h : (d.onBuffer b).collectHeader =
      transfer (onBuffer b) (fun r => (r.1.onBuffer b, r.2)) d.collectHeader) :
    (d.onBuffer b).headerReady =
      transfer (onBuffer b) (fun r => (r.1, r.2.onBuffer b)) d.headerReady := by
  unfold headerReady
  refine transfer_bind h fun r _ => ?_
  obtain ⟨d, idx⟩ := r
  refine transfer_ite Iff.rfl (fun _ => ?_) (fun _ => rfl)
  refine transfer_bind (updateBuffIdx_onBuffer ?_) fun d _ => rfl
  by_cases h3 : d.pkt.fullHdrLen ≤ 3
  · rw [if_pos h3]
    exact if_pos h3
  · rw [if_neg h3]
    exact if_neg h3

theorem collectPayload_onBuffer {d' : Decoder} (hd : d' = d.onBuffer b)
    (h : ∀ s, Turns PayloadLoop.guard PayloadLoop.turn
      { toDecoder := d, pld := d.pkt.numBytesRead - d.pkt.fullHdrLen, idx := d.currBuffIdx } s →
      s.guard = true → b.load s.pkt.buffNext = d.buffer.load s.pkt.buffNext) :
    d'.collectPayload = transfer (onBuffer b) (onBuffer b) d.collectPayload := by
  subst hd
  unfold collectPayload
  refine transfer_bind (f := PayloadLoop.onBuffer b) ?_ fun s _ => rfl
  have hturn : ∀ s, Turns PayloadLoop.guard PayloadLoop.turn
      { toDecoder := d, pld := d.pkt.numBytesRead - d.pkt.fullHdrLen, idx := d.currBuffIdx } s →
      s.guard = true →
      (s.onBuffer b).turn = transfer (onBuffer b) (PayloadLoop.onBuffer b) s.turn := by
    intro s hturns hguard
    apply PayloadLoop.turn_onBuffer
    rw [PayloadLoop.buffer_of_turns hturns]
    exact h s hturns hguard
  have hguard : ∀ s : PayloadLoop, (s.onBuffer b).guard = s.guard := fun _ => rfl
  exact transfer_whileLoop hguard hturn _

theorem headerReady_buffer {ready : Bool} (h : d.headerReady = .ok (ready, d')) :
    d'.buffer = d.buffer := by
  have hsame : d.headerReady = transfer (onBuffer d.buffer) (fun r => (r.1, r.2.onBuffer d.buffer))
      d.headerReady :=
    headerReady_onBuffer (collectHeader_onBuffer rfl fun _ _ _ _ _ _ => rfl)
  rw [h, transfer_ok, Except.ok.injEq] at hsame
  exact congrArg (fun r : Bool × Decoder => r.2.buffer) hsame

theorem rebuildHeader_buffer (h : d.rebuildHeader = .ok d') : d'.buffer = d.buffer := by
  have hsame : d.rebuildHeader =
      transfer (onBuffer d.buffer) (onBuffer d.buffer) d.rebuildHeader :=
    rebuildHeader_onBuffer d d.buffer
  rw [h, transfer_ok, Except.ok.injEq] at hsame
  rw [hsame]
  rfl

/-- The indices at which a call of `rebuild` reads the receive buffer: the look at `*buff_next`
that decides on the header branch, and one byte in each turn of the two loops. -/
inductive Reads (d : Decoder) : ℕ → Prop
  | look : Reads d d.updateLocalBuffInfo.pkt.buffNext
  | header {first : Byte} {s : HeaderLoop} :
      d.updateLocalBuffInfo.buffer.load d.updateLocalBuffInfo.pkt.buffNext = .ok first →
      d.updateLocalBuffInfo.wantsHeader first = true →
      Turns HeaderLoop.guard HeaderLoop.turn d.updateLocalBuffInfo.startHeader s →
      s.guard = true → Reads d s.pkt.buffNext
  | payload {d₁ d₂ d₃ : Decoder} {s : PayloadLoop} :
      d.updateLocalBuffInfo.headerReady = .ok (true, d₁) → d₁.rebuildHeader = .ok d₂ →
      d₃ = { d₂ with pkt.pktLen := i32 (u32 (d₂.pkt.fullHdrLen + d₂.pkt.payloadLen)) } →
      Turns PayloadLoop.guard PayloadLoop.turn
        { toDecoder := d₃, pld := d₃.pkt.numBytesRead - d₃.pkt.fullHdrLen, idx := d₃.currBuffIdx }
        s →
      s.guard = true → Reads d s.pkt.buffNext

/-- The bytes at these indices are all that a call looks at in the buffer. -/
theorem rebuild_onBuffer (h : ∀ i, d.Reads i → b.load i = d.buffer.load i) :
    (d.onBuffer b).rebuild = transfer (onBuffer b) (onBuffer b) d.rebuild := by
  unfold rebuild
  refine transfer_ite Iff.rfl (fun _ => ?_) (fun _ => rfl)
  have hready := headerReady_onBuffer (d := d.updateLocalBuffInfo)
    (collectHeader_onBuffer (h _ .look) fun first s hfirst hwants hturns hguard =>
      h _ (.header hfirst hwants hturns hguard))
  refine transfer_bind hready fun r hr => ?_
  obtain ⟨ready, d₁⟩ := r
  refine transfer_ite Iff.rfl (fun htrue => ?_) (fun _ => rfl)
  rw [htrue] at hr
  refine transfer_bind (rebuildHeader_onBuffer d₁ b) fun d₂ hd₂ => ?_
  refine transfer_bind (collectPayload_onBuffer rfl fun s hturns hguard => ?_) fun d₃ _ =>
    finish_onBuffer d₃ b
  have hbuffer : d₂.buffer = d.buffer :=
    (rebuildHeader_buffer hd₂).trans (headerReady_buffer (d := d.updateLocalBuffInfo) hr)
  exact (h _ (.payload hr hd₂ rfl hturns hguard)).trans (by rw [← hbuffer])

end Decoder
end P2Purr
