import P2Purr.Conservation
import P2Purr.Footprint

namespace P2Purr
open Memory Loop Framing

namespace Decoder

variable {d d' : Decoder} {i : ℕ}

/-- A call reads from the shared index on, and before the end of the buffer's content. -/
theorem Reads.bounds (h : d.Reads i) (hlt : (d.currBuffIdx : ℤ) < d.pkt.buffTotalLen) :
    d.currBuffIdx ≤ i ∧ (i : ℤ) < d.pkt.buffTotalLen := by
  have hat : At d.currBuffIdx d.pkt.numBytesRead d.pkt.buffTotalLen d.updateLocalBuffInfo :=
    ⟨rfl, rfl, rfl, le_rfl, id⟩
  cases h with
  | look => exact ⟨le_rfl, hlt⟩
  | @header first s _ _ hturns hguard =>
    have hs := hturns.keeps (fun s : HeaderLoop =>
        Cursors d.currBuffIdx d.pkt.numBytesRead d.pkt.buffTotalLen s.pkt s.idx)
      (fun _ _ hs hg hb => HeaderLoop.turn_cursors hs hg hb) (startHeader_cursors hat)
    simp only [HeaderLoop.guard, Bool.and_eq_true, decide_eq_true_eq] at hguard
    rw [hs.next, ← hs.total_eq]
    exact ⟨hs.start_le, hguard.1⟩
  | @payload d₁ d₂ d₃ s hready hheader hlen hturns hguard =>
    have h₂ := rebuildHeader_cursors (headerReady_cursors hat hready).1 hheader
    subst hlen
    have hs := hturns.keeps (fun s : PayloadLoop =>
        Cursors d.currBuffIdx d.pkt.numBytesRead d.pkt.buffTotalLen s.pkt s.idx)
      (fun _ _ hs hg hb => PayloadLoop.turn_cursors hs hg hb) (h₂.withPktLen _)
    simp only [PayloadLoop.guard, Bool.and_eq_true, decide_eq_true_eq] at hguard
    rw [hs.next, ← hs.total_eq]
    exact ⟨hs.start_le, hguard.1⟩

end Decoder

namespace RecvState

variable {s t : RecvState} {c : Conn} {acc fresh bs : List Byte} {total : ℕ}
  {rs : List RecvResult}

def onBuffer (b : Block) (s : RecvState) : RecvState := { s with recvBuffer := b }

variable {b : Block} {recvLen : ℤ}

theorem turn_onBuffer (h : ∀ i, (s.decoder recvLen).Reads i → b.load i = s.recvBuffer.load i) :
    (s.onBuffer b).turn recvLen = transfer (onBuffer b) (onBuffer b) (s.turn recvLen) := by
  have hsame : ((s.onBuffer b).decoder recvLen).rebuild =
      transfer (Decoder.onBuffer b) (Decoder.onBuffer b) (s.decoder recvLen).rebuild :=
    Decoder.rebuild_onBuffer h
  unfold turn
  rw [hsame]
  cases (s.decoder recvLen).rebuild with
  | ok d => exact transfer_ite Iff.rfl (fun _ => rfl) (fun _ => rfl)
  | error stop => cases stop <;> rfl

theorem turn_index_le (h : s.turn recvLen = .ok t) :
    t.recvBuffer = s.recvBuffer ∧ s.currBuffIdx ≤ t.currBuffIdx := by
  constructor
  · have hsame : s.turn recvLen = transfer (onBuffer s.recvBuffer) (onBuffer s.recvBuffer)
        (s.turn recvLen) := turn_onBuffer fun _ _ => rfl
    rw [h, transfer_ok, Except.ok.injEq] at hsame
    rw [hsame]
    rfl
  · unfold turn at h
    cases hd : (s.decoder recvLen).rebuild with
    | error stop => cases stop <;> simp [hd] at h
    | ok d =>
      have hforward := (Decoder.rebuild_cursors hd).2.1
      simp only [hd] at h
      split at h
      · rw [← Except.ok.inj h]
        exact hforward
      · rw [← Except.ok.inj h]
        exact hforward

/-- The loop looks at no byte of the buffer outside the range from the index to the count. -/
theorem recvLoop_onBuffer
    (h : ∀ i, s.currBuffIdx ≤ i → (i : ℤ) < recvLen → b.load i = s.recvBuffer.load i) (n : ℕ) :
    (s.onBuffer b).recvLoop recvLen n =
      transfer (onBuffer b) (onBuffer b) (s.recvLoop recvLen n) := by
  have hguard : ∀ t : RecvState, guard recvLen (t.onBuffer b) = guard recvLen t := fun _ => rfl
  refine transfer_whileLoop hguard (fun t hturns hg => turn_onBuffer fun i hi => ?_) n
  have ht := hturns.keeps
    (fun t => t.recvBuffer = s.recvBuffer ∧ s.currBuffIdx ≤ t.currBuffIdx)
    (fun _ _ ht _ hturn => ⟨(turn_index_le hturn).1.trans ht.1, ht.2.trans (turn_index_le hturn).2⟩)
    ⟨rfl, le_rfl⟩
  have hbounds := hi.bounds (of_decide_eq_true hg)
  rw [ht.1]
  exact h i (ht.2.trans hbounds.1) hbounds.2

/-- Where a call looks at all that it receives, it accounts for all of it; elsewhere there are
calls that drop bytes without a word. -/
theorem looksAtAll_iff_held (h : Holds s c) (hopen : s.sockHelper.isSockOpen = true) :
    LooksAtAll s ↔ ∀ bs s' call, s.Accepts (.data bs) → s.recvPkt (.data bs) = .ok (s', call) →
      call.caught = none → bytesHeld s' = bytesHeld s + bs.length := by
  constructor
  · intro hall bs s' call ha hcall hcaught
    have hpos := eq_zero_of_looksAtAll h hopen hall
    obtain ⟨kept, pos⟩ := c
    obtain rfl : pos = 0 := h.index.symm.trans hpos
    exact recvPkt_bytesHeld h ha hcall (by simp [hcaught])
  · intro hheld
    apply looksAtAll_of_zero
    by_contra hpos
    have hroom := h.room
    have hidx := h.index
    have ha : s.Accepts (.data [0]) := ⟨hopen, by simp, by simp; omega⟩
    -- one byte, which the loop does not get to
    obtain ⟨buffer, hrecv, -, -⟩ := h.receive ha
    have hcons : consume { s with recvBuffer := buffer } ([0] : List Byte).length =
        .ok { s with recvBuffer := buffer } :=
      consume_of_le (by simp only [List.length_singleton]; omega)
    have hsame := hheld [0] _ _ ha (recvPkt_of_ok hrecv hcons) rfl
    simp [bytesHeld, currentRead] at hsame

def rejections : List String :=
  ["Got a header length of zero or less\n", "Got a payload length of zero or less\n",
    "Something is wrong number of bytes remaining is negative\n"]

theorem rejected_message (htotal : fresh.length ≤ total) {msg : String} {kept rest : List Byte}
    (h : verdict acc fresh total = .rejected msg kept rest) : msg ∈ rejections := by
  have hj := judged acc htotal
  rw [h] at hj
  cases hj with
  | wraps => simp [rejections]
  | noHeader => simp [rejections]
  | noPayload => simp [rejections]
  | negative => simp [rejections]

theorem turn_message (h : Filled s acc fresh total) (hne : fresh ≠ []) {e : GenericException}
    {d : Decoder} (hd : (s.decoder total).rebuild = .error (.raised e d)) :
    e.message ∈ rejections := by
  have htotal : fresh.length ≤ total := by have := h.index; omega
  have hends := Decoder.rebuild_spec (d := s.decoder total) (h.tracks.decoding _) rfl h.index
    h.holds hne
  cases hv : verdict acc fresh total with
  | rejected msg kept rest =>
    have hmsg := rejected_message htotal hv
    rw [hv] at hends
    obtain ⟨d', hd', -⟩ := hends
    rw [hd', throwPacket, Except.error.injEq, Stop.raised.injEq] at hd
    rwa [← hd.1]
  | fault f =>
    rw [hv] at hends
    have hfault : (s.decoder total).rebuild = .error (.halt (.fault f)) := hends
    simp [hfault] at hd
  | pending =>
    rw [hv] at hends
    obtain ⟨d', hd', -⟩ := hends
    simp [hd'] at hd
  | stuck kept rest =>
    rw [hv] at hends
    obtain ⟨d', hd', -⟩ := hends
    simp [hd'] at hd
  | complete frame rest =>
    rw [hv] at hends
    obtain ⟨d', hd', -⟩ := hends
    simp [hd'] at hd

theorem loop_filled (h : Holds s c) (ha : s.Accepts (.data bs)) {s₁ : RecvState} {recvLen : ℤ}
    (hr : Receives s bs s₁ recvLen) (hruns : Relation.ReflTransGen (TurnsTo recvLen) s₁ t)
    (hguard : guard recvLen t = true) :
    recvLen = bs.length ∧ ∃ acc fresh, Filled t acc fresh bs.length ∧ fresh ≠ [] := by
  obtain ⟨rfl, hfilled, hpos⟩ := hr.filled h ha
  refine ⟨rfl, ?_⟩
  have hlt : c.pos < bs.length := by
    have henters : guard bs.length s₁ = true := by
      rcases hruns.cases_head with rfl | ⟨s₂, hfirst, -⟩
      · exact hguard
      · exact hfirst.1
    rw [guard, decide_eq_true_eq, hpos] at henters
    omega
  obtain ⟨acc, fresh, hfilled'⟩ := inLoop_filled (hfilled hlt) hruns
  exact ⟨acc, fresh, hfilled', (guard_iff hfilled').mp hguard⟩

/-- After any calls there is room for a byte, and what `recv` is asked for fits into the buffer;
in the loop of the next call, only received bytes are read, and `update_buff_idx` does not throw. -/
theorem buffer_bounds (h : Reached rs s) :
    s.currBuffIdx + 1 ≤ s.buffSize ∧ s.recvBuffer.size = s.buffSize ∧
      (∀ bs : List Byte, (bs.length : ℤ) ≤ s.buffSize - s.currBuffIdx →
        ∃ buffer, s.recvBuffer.storeAll s.currBuffIdx bs = .ok buffer ∧
          buffer.size = s.recvBuffer.size) ∧
      ∀ bs s₁ recvLen t, s.Accepts (.data bs) → Receives s bs s₁ recvLen →
        Relation.ReflTransGen (TurnsTo recvLen) s₁ t → guard recvLen t = true →
        recvLen ≤ s.buffSize ∧ (∀ i, (t.decoder recvLen).Reads i → (i : ℤ) < recvLen) ∧
          (∀ b, (∀ i : ℕ, (i : ℤ) < recvLen → b.load i = t.recvBuffer.load i) →
            (t.onBuffer b).turn recvLen = transfer (onBuffer b) (onBuffer b) (t.turn recvLen)) ∧
          ∀ e d, (t.decoder recvLen).rebuild = .error (.raised e d) →
            e.message ≠ "Buffer index  is over the maximum buffer size of \n" := by
  have hholds := h.holds
  have hroom := hholds.room
  have hidx := hholds.index
  have hsize := hholds.size
  refine ⟨by omega, hsize, ?_, ?_⟩
  · intro bs hfits
    have hnil : s.recvBuffer.HoldsAt s.currBuffIdx [] := Block.holdsAt_nil (by omega)
    obtain ⟨buffer, hstore, hbsize, -⟩ := hnil.storeAll bs
      (by simp only [List.length_nil, Nat.add_zero]; omega)
    exact ⟨buffer, hstore, hbsize⟩
  · intro bs s₁ recvLen t ha hr hruns hguard
    obtain ⟨rfl, acc, fresh, hfilled, hne⟩ := loop_filled hholds ha hr hruns hguard
    have hfits := ha.2.2
    have hreads := fun i (hi : (t.decoder bs.length).Reads i) =>
      (hi.bounds (of_decide_eq_true hguard)).2
    refine ⟨by omega, hreads, fun b hb => ?_, fun e d hd hmsg => ?_⟩
    · exact turn_onBuffer fun i hi => hb i (hreads i hi)
    · have hmem := turn_message hfilled hne hd
      rw [hmsg] at hmem
      simp [rejections] at hmem

/-- After a header length of zero, whose exception was swallowed with the index at 3. -/
theorem buffer_bounds_no_header :
    ∃ s s₁, Reached [.data [0xFF, 0, 0, 1]] s ∧ s.currBuffIdx = 3 ∧ 3 + 1 ≤ s.buffSize ∧
      s.recvBuffer.size = s.buffSize ∧
      (∃ buffer, s.recvBuffer.storeAll 3 [0, 9, 1, 2, 1] = .ok buffer) ∧
      Receives s [0, 9, 1, 2, 1] s₁ 5 ∧ guard 5 s₁ = true ∧ (s₁.decoder 5).Reads 3 ∧
      (∀ i, (s₁.decoder 5).Reads i → (i : ℤ) < 5) ∧
      (∀ b, (∀ i : ℕ, (i : ℤ) < 5 → b.load i = s₁.recvBuffer.load i) →
        (s₁.onBuffer b).turn 5 = transfer (onBuffer b) (onBuffer b) (s₁.turn 5)) ∧
      ∀ e d, (s₁.decoder 5).rebuild = .error (.raised e d) →
        e.message ≠ "Buffer index  is over the maximum buffer size of \n" := by
  obtain ⟨s, call, e, hcall, -, -, hholds, ha⟩ := recvPkt_no_header
  have hidx : s.currBuffIdx = 3 := hholds.index
  have hfits : (idle "127.0.0.1" 8000 5).Fits [.data [0xFF, 0, 0, 1]] :=
    ⟨⟨rfl, by simp, by decide⟩, fun _ _ _ => trivial⟩
  have hreached : Reached [.data [0xFF, 0, 0, 1]] s :=
    ⟨_, [call], idle_fresh _ _ _, hfits, by rw [recvAll_cons_ok hcall]; rfl⟩
  have hroom : s.currBuffIdx + 5 ≤ s.buffSize := by
    have hfit := ha.2.2
    rw [frameOf_length] at hfit
    simp only [List.length_singleton] at hfit
    omega
  have ha : s.Accepts (.data [0, 9, 1, 2, 1]) := ⟨ha.1, by simp, hroom⟩
  obtain ⟨hroom', hsize, hwrites, hloop⟩ := buffer_bounds hreached
  obtain ⟨buffer, hbuffer, -⟩ := hwrites [0, 9, 1, 2, 1] (by simp; omega)
  rw [hidx] at hbuffer hroom'
  obtain ⟨buffer', hrecv, -, -⟩ := hholds.receive ha
  have hr : Receives s [0, 9, 1, 2, 1] { s with recvBuffer := buffer' } 5 := ⟨hrecv, rfl⟩
  have hguard : guard 5 { s with recvBuffer := buffer' } = true := by
    simp [guard, hidx]
  obtain ⟨-, hreads, hsame, hmessage⟩ := hloop _ _ _ _ ha hr Relation.ReflTransGen.refl hguard
  have hlook : ∀ i, s.currBuffIdx = i →
      (decoder { s with recvBuffer := buffer' } 5).Reads i := fun i hi => hi ▸ .look
  exact ⟨s, _, hreached, hidx, hroom', hsize, ⟨buffer, hbuffer⟩, hr, hguard, hlook 3 hidx, hreads,
    hsame, hmessage⟩

end RecvState

end P2Purr
