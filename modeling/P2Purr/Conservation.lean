import P2Purr.Cursors
import P2Purr.Delivery
import P2Purr.Robustness

namespace P2Purr
open Memory Loop Framing

/-- As far as its blocks reach: the header is read into a block of its announced size, and so is
the payload; before there is a header block, only its first two bytes can have been read. -/
def WithinBlocks (p : Packet) : Prop :=
  match p.header, p.payload with
  | none, _ => p.numBytesRead < 3
  | some hdr, none => p.numBytesRead ≤ hdr.size
  | some hdr, some pld => p.numBytesRead ≤ hdr.size + pld.size

theorem Decoding.withinBlocks {p : Packet} {acc : List Byte} (h : Decoding p acc) :
    WithinBlocks p := by
  have hread := h.read
  unfold WithinBlocks
  by_cases h3 : 3 ≤ acc.length
  · obtain ⟨hdr, hhdr, hsize, -⟩ := h.header h3
    rw [hhdr]
    cases hpld : p.payload with
    | none =>
      -- what is behind the header goes into a payload block
      have hle : ¬ hdrEnd acc < acc.length := by
        intro hlt
        obtain ⟨-, -, pld, hsome⟩ := h.body h3 hlt
        rw [hpld] at hsome
        cases hsome
      simp only
      omega
    | some pld =>
      obtain ⟨-, -, hpldsize, -⟩ := h.payload pld hpld
      have hsum : frameSize acc = hdrEnd acc + payloadField acc := rfl
      simp only
      by_cases hlt : hdrEnd acc < acc.length
      · have := (h.body h3 hlt).2.1
        omega
      · omega
  · obtain ⟨hnone, -⟩ := h.cut (by omega)
    rw [hnone]
    simp only
    omega

/-- One call moves the index and the count of the packet by the same number of bytes, not past
the end of the chunk and not past the end of the packet. -/
structure Moves (d d' : Decoder) (recvLen : ℤ) : Prop where
  same : d'.currBuffIdx + d.pkt.numBytesRead = d.currBuffIdx + d'.pkt.numBytesRead
  forward : d.currBuffIdx ≤ d'.currBuffIdx
  in_chunk : d'.currBuffIdx ≤ recvLen
  in_packet : if d'.pkt.pktBuilt then (d'.pkt.numBytesRead : ℤ) = d'.pkt.pktLen
    else WithinBlocks d'.pkt

namespace RecvState

def currentRead (s : RecvState) : ℕ :=
  match s.currentPkt with
  | none => 0
  | some p => p.numBytesRead

/-- The bytes in the completed packets and in the current one. -/
def bytesHeld (s : RecvState) : ℤ := (s.completedPkts.map Packet.pktLen).sum + s.currentRead

def AllRead (s : RecvState) : Prop := ∀ p ∈ s.completedPkts, (p.numBytesRead : ℤ) = p.pktLen

def received (rs : List RecvResult) : ℕ := (rs.map fun r => r.bytes.length).sum

variable {s s' s₀ t : RecvState} {c : Conn} {acc fresh bs : List Byte} {total : ℕ} {d : Decoder}
  {rs : List RecvResult} {call : RecvCall} {calls : List RecvCall}

theorem Tracks.currentRead_eq (h : Tracks s acc) : s.currentRead = acc.length := by
  unfold Tracks at h
  unfold currentRead
  split at h
  · simp_all
  · simp_all [h.2.read]

theorem turn_moves (h : Filled s acc fresh total) (hne : fresh ≠ [])
    (hd : (s.decoder total).rebuild = .ok d) : Moves (s.decoder total) d total := by
  obtain ⟨hsame, hforward, hchunk, -⟩ := Decoder.rebuild_cursors hd
  have hidx := h.index
  have htotal : fresh.length ≤ total := by omega
  have hstart : (s.decoder total).currBuffIdx = s.currBuffIdx := rfl
  refine ⟨hsame, hforward, hchunk (by simp only [hstart]; change (_ : ℤ) ≤ (total : ℤ); omega), ?_⟩
  have hends := Decoder.rebuild_spec (d := s.decoder total) (h.tracks.decoding _) rfl h.index
    h.holds hne
  cases hv : verdict acc fresh total with
  | pending =>
    rw [hv] at hends
    obtain ⟨d', hd', -, hdec, -, hbuilt⟩ := hends
    obtain rfl : d' = d := Except.ok.inj (hd'.symm.trans hd)
    rw [hbuilt]
    exact hdec.withinBlocks
  | stuck kept rest =>
    rw [hv] at hends
    obtain ⟨d', hd', -, hdec, -, hbuilt⟩ := hends
    obtain rfl : d' = d := Except.ok.inj (hd'.symm.trans hd)
    rw [hbuilt]
    exact hdec.withinBlocks
  | complete frame rest =>
    rw [hv] at hends
    obtain ⟨d', hd', -, -, hcarries, -, hend⟩ := hends
    obtain rfl : d' = d := Except.ok.inj (hd'.symm.trans hd)
    obtain ⟨-, L, -, hle, rfl, rfl⟩ := frame_of_verdict h.tracks.isPartial htotal hv
    have hread := (h.tracks.decoding (total : ℤ)).read
    have hlen := hcarries.pkt_len
    rw [List.length_take] at hlen
    rw [List.length_drop] at hend
    rw [List.length_append] at hlen hend hle
    rw [if_pos hcarries.built, hlen]
    omega
  | rejected msg kept rest =>
    rw [hv] at hends
    obtain ⟨d', hd', -⟩ := hends
    rw [hd'] at hd
    exact absurd hd throwPacket_ne_ok
  | fault f =>
    rw [hv] at hends
    have hfault : (s.decoder total).rebuild = .error (.halt (.fault f)) := hends
    rw [hfault] at hd
    cases hd

theorem turn_filled (h : Filled s acc fresh total) (hne : fresh ≠ [])
    (hturn : turn total s = .ok s') : ∃ acc' fresh', Filled s' acc' fresh' total := by
  have hspec := turn_spec h hne
  cases hv : verdict acc fresh total with
  | pending =>
    rw [hv] at hspec
    obtain ⟨s'', hs'', -, hfilled⟩ := hspec
    obtain rfl : s'' = s' := Except.ok.inj (hs''.symm.trans hturn)
    exact ⟨_, _, hfilled⟩
  | stuck kept rest =>
    rw [hv] at hspec
    obtain ⟨s'', hs'', -, hfilled⟩ := hspec
    obtain rfl : s'' = s' := Except.ok.inj (hs''.symm.trans hturn)
    exact ⟨_, _, hfilled⟩
  | complete frame rest =>
    rw [hv] at hspec
    obtain ⟨s'', hs'', -, hfilled⟩ := hspec
    obtain rfl : s'' = s' := Except.ok.inj (hs''.symm.trans hturn)
    exact ⟨_, _, hfilled⟩
  | rejected msg kept rest =>
    rw [hv] at hspec
    obtain ⟨s'', hs'', -⟩ := hspec
    rw [hs''] at hturn
    exact absurd hturn throwPacket_ne_ok
  | fault f =>
    rw [hv] at hspec
    have hfault : turn total s = .error (.halt (.fault f)) := hspec
    rw [hfault] at hturn
    cases hturn

theorem turn_allRead (h : Filled s acc fresh total) (hne : fresh ≠ [])
    (hturn : turn total s = .ok s') (hall : AllRead s) : AllRead s' := by
  unfold turn at hturn
  cases hd : (s.decoder total).rebuild with
  | error stop => cases stop <;> simp [hd] at hturn
  | ok d =>
    have hmoves := turn_moves h hne hd
    simp only [hd] at hturn
    split at hturn
    next hbuilt =>
      have hin := hmoves.in_packet
      rw [if_pos hbuilt] at hin
      rw [← Except.ok.inj hturn]
      intro p hp
      rcases List.mem_append.mp hp with hp | hp
      · exact hall p hp
      · rw [List.mem_singleton.mp hp]
        exact hin
    next =>
      rw [← Except.ok.inj hturn]
      exact hall

def InLoop (total : ℕ) (s : RecvState) : Prop :=
  (∃ acc fresh, Filled s acc fresh total) ∧ AllRead s

theorem InLoop.turn (h : InLoop total s) (hguard : guard total s = true)
    (hturn : turn total s = .ok s') : InLoop total s' := by
  obtain ⟨⟨acc, fresh, hfilled⟩, hall⟩ := h
  have hne := (guard_iff hfilled).mp hguard
  exact ⟨turn_filled hfilled hne hturn, turn_allRead hfilled hne hturn hall⟩

theorem consume_allRead (h : Filled s acc fresh total) (hall : AllRead s)
    (hrun : s.consume total = .ok s') : AllRead s' := by
  unfold consume at hrun
  split at hrun
  · obtain ⟨t, hloop, hrun⟩ := bind_eq_ok.mp hrun
    have ht := whileLoop_invariant (InLoop total) (fun _ _ ht hguard hturn => ht.turn hguard hturn)
      ⟨⟨acc, fresh, h⟩, hall⟩ hloop
    split at hrun
    · unfold clear PeerConnHandler.clearBuff at hrun
      obtain ⟨cleared, hclear, hrun⟩ := bind_eq_ok.mp hrun
      obtain ⟨buffer, -, hbuffer⟩ := bind_eq_ok.mp (access_eq_ok.mp hclear)
      rw [← Except.ok.inj hrun, ← Except.ok.inj hbuffer]
      exact ht.2
    · rw [← Except.ok.inj hrun]
      exact ht.2
  · rw [← Except.ok.inj hrun]
    exact hall

theorem recvPkt_caught (h : Holds s c) (ha : s.Accepts (.data bs))
    (hcall : s.recvPkt (.data bs) = .ok (s', call)) {e : GenericException}
    (he : call.caught = some e) : e.cls = .packet := by
  obtain ⟨_, -, -, ⟨-, rfl⟩ | ⟨msg, -, rfl⟩⟩ := recvPkt_data_ok h ha hcall
  · cases he
  · rw [← Option.some.inj he]

theorem recvPkt_allRead (h : Holds s ⟨acc, 0⟩) {r : RecvResult} (ha : s.Accepts r)
    (hcall : s.recvPkt r = .ok (s', call))
    (hcaught : ∀ e, call.caught = some e → e.cls ≠ .packet) (hall : AllRead s) : AllRead s' := by
  by_cases hr : ∀ bs, r ≠ .data bs
  · obtain ⟨s'', call', hq, -, hsame, -⟩ := recvPkt_quiet h ha hr
    obtain ⟨rfl, -⟩ : s'' = s' ∧ call' = call := by simpa [hq] using hcall
    unfold AllRead
    rwa [hsame]
  · obtain ⟨bs, rfl⟩ : ∃ bs, r = .data bs := by simpa using hr
    obtain ⟨buffer, hrecv, -, hold⟩ := h.receive ha
    have hfilled := h.filled hold (List.length_pos_iff.mpr ha.2.1)
    cases hcons : RecvState.consume { s with recvBuffer := buffer } bs.length with
    | ok t =>
      obtain ⟨rfl, -⟩ : t = s' ∧ _ = call := by simpa [recvPkt_of_ok hrecv hcons] using hcall
      exact consume_allRead hfilled hall hcons
    | error stop =>
      cases stop with
      | halt k => simp [recvPkt_of_halt hrecv hcons] at hcall
      | raised e t =>
        have hraised := recvPkt_of_raised hrecv hcons
        rw [hraised, Except.ok.injEq, Prod.mk.injEq] at hcall
        exact absurd (recvPkt_caught h ha hraised rfl) (hcaught e (by rw [← hcall.2]))

theorem pktLen_sum {ps : List Packet} {fs : List (List Byte)} (h : List.Forall₂ Carries ps fs) :
    (ps.map Packet.pktLen).sum = (fs.flatten.length : ℤ) := by
  induction h with
  | nil => rfl
  | cons hp _ ih => simp [hp.pkt_len, ih]

theorem recvPkt_bytesHeld {kept : List Byte} (h : Holds s ⟨kept, 0⟩) {r : RecvResult}
    (ha : s.Accepts r) (hcall : s.recvPkt r = .ok (s', call))
    (hcaught : ∀ e, call.caught = some e → e.cls ≠ .packet) :
    bytesHeld s' = bytesHeld s + r.bytes.length := by
  have hread := h.tracks.currentRead_eq
  have hquiet : r.bytes = [] → (∀ bs, r ≠ .data bs) →
      bytesHeld s' = bytesHeld s + r.bytes.length := by
    intro hbytes hr
    obtain ⟨s'', call', hq, hholds, hsame, -⟩ := recvPkt_quiet h ha hr
    obtain ⟨rfl, -⟩ : s'' = s' ∧ call' = call := by simpa [hq] using hcall
    rw [bytesHeld, bytesHeld, hsame, hholds.tracks.currentRead_eq, hread, hbytes]
    simp
  cases r with
  | closed k => exact hquiet rfl (by simp)
  | failed => exact hquiet rfl (by simp)
  | data bs =>
    obtain ⟨frames, hgrew, hholds, ⟨hwaits, -⟩ | ⟨msg, -, rfl⟩⟩ := recvPkt_data_ok h ha hcall
    · obtain ⟨rfl, hnext⟩ := Conn.intake_of_waits h.isPartial rfl ha.2.1 hwaits
      rw [hnext] at hholds
      obtain ⟨ps, hps, hcarry⟩ := hgrew.completed
      -- the frames and the open rest are all of what was kept and what came
      have hjoin := congrArg List.length (wire.split_join (kept ++ bs))
      rw [List.length_append, List.length_append] at hjoin
      rw [bytesHeld, bytesHeld, hps, hholds.tracks.currentRead_eq, hread, List.map_append,
        List.sum_append, pktLen_sum hcarry]
      simp only [RecvResult.bytes]
      omega
    · exact absurd rfl (hcaught _ rfl)

/-- By induction on the calls, on a buffer that each of them leaves clear. -/
theorem recvAll_conserves {kept : List Byte} (h : Holds s ⟨kept, 0⟩) (hf : s.Fits rs)
    (hrun : s.recvAll rs = .ok (s', calls))
    (hquiet : ∀ call ∈ calls, ∀ e, call.caught = some e → e.cls ≠ .packet) (hall : AllRead s) :
    bytesHeld s' = bytesHeld s + received rs ∧ AllRead s' ∧ ∃ kept', Holds s' ⟨kept', 0⟩ := by
  induction rs generalizing s kept calls with
  | nil =>
    obtain ⟨rfl, -⟩ : s = s' ∧ [] = calls := by simpa using hrun
    exact ⟨by simp [received], hall, kept, h⟩
  | cons r rs ih =>
    obtain ⟨s₁, call, calls', hcall, hrest, rfl⟩ := recvAll_cons_inv hrun
    have hcaught := hquiet call (by simp)
    have hstep := recvPkt_step h hf.1 hcall hcaught
    obtain ⟨hheld, hall', hholds⟩ := ih hstep.1 (hf.2 s₁ call hcall) hrest
      (fun call' hc => hquiet call' (by simp [hc])) (recvPkt_allRead h hf.1 hcall hcaught hall)
    refine ⟨?_, hall', hholds⟩
    rw [hheld, recvPkt_bytesHeld h hf.1 hcall hcaught, received, received, List.map_cons,
      List.sum_cons]
    push_cast
    ring

/-- Wherever the loop of a call gets to, the buffer holds what is left of the chunk. -/
theorem inLoop_filled {s₁ : RecvState} (h : Filled s₁ acc fresh total)
    (hruns : Relation.ReflTransGen (TurnsTo total) s₁ t) :
    ∃ acc' fresh', Filled t acc' fresh' total := by
  induction hruns with
  | refl => exact ⟨acc, fresh, h⟩
  | tail _ hstep ih =>
    obtain ⟨acc', fresh', hfilled⟩ := ih
    exact turn_filled hfilled ((guard_iff hfilled).mp hstep.1) hstep.2

/-- No byte is lost and none is counted twice, before the first exception; and in the loop of the
next call, each call of `rebuild` that returns moves as far in the packet as in the chunk. -/
theorem conserves (hs : Fresh s₀) (hf : s₀.Fits rs) (hrun : s₀.recvAll rs = .ok (s, calls))
    (hquiet : ∀ call ∈ calls, ∀ e, call.caught = some e → e.cls ≠ .packet) :
    bytesHeld s = received rs ∧ (∀ p ∈ s.completedPkts, (p.numBytesRead : ℤ) = p.pktLen) ∧
      ∀ bs s₁ recvLen t d, s.Accepts (.data bs) → Receives s bs s₁ recvLen →
        Relation.ReflTransGen (TurnsTo recvLen) s₁ t → guard recvLen t = true →
        (t.decoder recvLen).rebuild = .ok d → Moves (t.decoder recvLen) d recvLen := by
  have hinit := hs.init
  have hall : AllRead s₀ := by
    unfold AllRead
    simp [hinit.1]
  obtain ⟨hheld, hall', kept, hholds⟩ := recvAll_conserves hs.holds hf hrun hquiet hall
  have hzero : bytesHeld s₀ = 0 := by simp [bytesHeld, currentRead, hinit.1, hinit.2.1]
  refine ⟨by rw [hheld, hzero, zero_add], hall', ?_⟩
  intro bs s₁ recvLen t d ha hr hruns hguard hd
  obtain ⟨rfl, hfilled, -⟩ := hr.filled hholds ha
  obtain ⟨acc, fresh, hfilled'⟩ := inLoop_filled (hfilled (List.length_pos_iff.mpr ha.2.1)) hruns
  exact turn_moves hfilled' ((guard_iff hfilled').mp hguard) hd

/-- After one whole packet and four bytes of the next, before the call that receives the rest. -/
theorem conserves_letters :
    ∃ s calls, (idle "127.0.0.1" 8000 5).recvAll ((letterChunks.take 2).map .data) =
        .ok (s, calls) ∧ (s.completedPkts.map Packet.pktLen).sum = 13 ∧ currentRead s = 4 ∧
      bytesHeld s = 17 ∧
      (∀ p ∈ s.completedPkts, (p.numBytesRead : ℤ) = p.pktLen) ∧
      ∃ bs, letterChunks = letterChunks.take 2 ++ [bs] ∧ s.Accepts (.data bs) ∧
        ∀ s₁ recvLen t d, Receives s bs s₁ recvLen →
          Relation.ReflTransGen (TurnsTo recvLen) s₁ t → guard recvLen t = true →
          (t.decoder recvLen).rebuild = .ok d → Moves (t.decoder recvLen) d recvLen := by
  have hsplit : letterChunks.map RecvResult.data =
      (letterChunks.take 2).map .data ++ [.data [2, 1, 0, 1, 0, 0, 0, 1, 0x62]] := rfl
  obtain ⟨hfits, s', calls', hrun, hcaught, -⟩ := letterChunks_run
  rw [hsplit] at hfits hrun
  obtain ⟨s, calls, lastCall, hpre, -, hcalls⟩ := recvAll_append_ok hrun
  have haccepts := (hfits.right hpre).1
  have hquiet : ∀ call ∈ calls, ∀ e, call.caught = some e → e.cls ≠ .packet := by
    intro call hcall e he
    rw [hcaught call (hcalls ▸ List.mem_append_left _ hcall)] at he
    cases he
  obtain ⟨hheld, hread, hmoves⟩ := conserves (idle_fresh _ _ _) hfits.left hpre hquiet
  have hholds := (idle_fresh "127.0.0.1" 8000 5).holds.recvAll hfits.left hpre
  have hafter : Conn.after {} ((letterChunks.take 2).map .data) = ⟨[0xFF, 0, 9, 1], 0⟩ := by decide
  rw [hafter] at hholds
  have hcurrent : currentRead s = 4 := hholds.tracks.currentRead_eq
  have hcompleted : (s.completedPkts.map Packet.pktLen).sum = 13 := by
    have hreceived : received ((letterChunks.take 2).map .data) = 17 := by decide
    rw [bytesHeld, hcurrent, hreceived] at hheld
    push_cast at hheld
    omega
  exact ⟨s, calls, hpre, hcompleted, hcurrent, hheld, hread, _, rfl, haccepts,
    fun s₁ recvLen t d => hmoves _ s₁ recvLen t d haccepts⟩

end RecvState

end P2Purr
