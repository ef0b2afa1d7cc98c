import P2Purr.Reception

namespace P2Purr
open Memory Loop Framing

/-- What a connection has kept of the bytes it was given, and where its buffer index stands. -/
structure Conn where
  kept : List Byte := []
  pos : ℕ := 0
  deriving DecidableEq, Repr

inductive Intake
  | waits (c : Conn)
  | throws (msg : String) (c : Conn)
  | hangs
  | faults (f : Fault)
  deriving DecidableEq, Repr

namespace Conn

/-- The received bytes that the loop gets to see: the count of all of them is taken
for the end of the buffer's content, which begins at the index. -/
def fresh (c : Conn) (bs : List Byte) : List Byte := bs.take (bs.length - c.pos)

def ending (c : Conn) (bs : List Byte) : Verdict → Intake
  | .pending => .waits ⟨(wire.split (c.kept ++ c.fresh bs)).2, 0⟩
  | .complete _ _ => .waits c
  | .rejected msg kept rest => .throws msg ⟨kept, bs.length - rest.length⟩
  | .stuck _ _ => .hangs
  | .fault f => .faults f

/-- One call of `recv_pkt` that receives `bs`: the frames that complete, and its end. -/
def intake (c : Conn) (bs : List Byte) : List (List Byte) × Intake :=
  if bs.length ≤ c.pos then ([], .waits c)
  else
    let result := digest c.kept (c.fresh bs) bs.length
    (result.1, c.ending bs result.2)

def next (c : Conn) : RecvResult → Conn
  | .data bs =>
    match (c.intake bs).2 with
    | .waits c' => c'
    | .throws _ c' => c'
    | .hangs => c
    | .faults _ => c
  | .closed _ => c
  | .failed => c

def after (c : Conn) (rs : List RecvResult) : Conn := rs.foldl next c

theorem fresh_length (c : Conn) (bs : List Byte) : (c.fresh bs).length = bs.length - c.pos := by
  rw [fresh, List.length_take]
  omega

theorem fresh_of_pos {c : Conn} (h : c.pos = 0) (bs : List Byte) : c.fresh bs = bs := by
  rw [fresh, h, Nat.sub_zero, List.take_length]

/-- The frame that is not complete when the loop stops: what was kept of it, and what is fresh. -/
def last (c : Conn) (bs : List Byte) : List Byte × List Byte := unfinished c.kept (c.fresh bs)

def IsSound (c : Conn) (bs : List Byte) : Prop :=
  c.pos < bs.length → (c.last bs).2 ≠ [] → Sound (c.last bs).1 (c.last bs).2 bs.length

def IsOverlong (c : Conn) (bs : List Byte) : Prop :=
  c.pos < bs.length ∧ Overlong (c.last bs).1 (c.last bs).2

def IsRejected (c : Conn) (bs : List Byte) : Prop :=
  c.pos < bs.length ∧ Rejected (c.last bs).1 (c.last bs).2

section Intake

variable {c : Conn} {bs : List Byte}

theorem last_length_le (h : Partial c.kept) (bs : List Byte) :
    (c.last bs).2.length ≤ bs.length := by
  have hle := unfinished_length_le h (c.fresh bs)
  rw [c.fresh_length] at hle
  simp only [last]
  omega

/-- The loop does not stop in front of a whole frame. -/
theorem last_ne_complete (h : Partial c.kept) (bs frame rest : List Byte) :
    verdict (c.last bs).1 (c.last bs).2 bs.length ≠ .complete frame rest := by
  intro hv
  have hpart : Partial (c.last bs).1 := unfinished_isPartial h
  obtain ⟨hwhole, L, hL, hle, -⟩ := frame_of_verdict hpart (last_length_le h bs) hv
  have hnot : ¬ wire.IsOpen ((c.last bs).1 ++ (c.last bs).2) := by
    intro hopen
    have := hopen L hL
    omega
  unfold last at hwhole hnot
  by_cases hkept : wire.IsOpen (c.kept ++ c.fresh bs) ∨ c.kept.length = 1 ∨ c.kept.length = 2
  · rw [(unfinished_kept hkept).1] at hwhole hnot
    rcases hkept with hopen | hcut
    · exact hnot hopen
    · exact hcut.elim hwhole.1 hwhole.2
  · rw [(unfinished_new (fun h => hkept (Or.inl h)) (by omega)).1, List.nil_append] at hnot
    exact hnot (wire.split_rest_isOpen _)

theorem intake_skips (hle : bs.length ≤ c.pos) : c.intake bs = ([], .waits c) := if_pos hle

/-- A call, by the verdict on the last frame it looks at. -/
theorem intake_eq (h : Partial c.kept) (hlt : c.pos < bs.length) :
    c.intake bs = (finished c.kept (c.fresh bs), c.ending bs (if (c.last bs).2 = [] then .pending
      else verdict (c.last bs).1 (c.last bs).2 bs.length)) := by
  have hlen : (c.fresh bs).length ≤ bs.length := by
    rw [c.fresh_length]
    omega
  rw [intake, if_neg (by omega), digest_eq h hlen]
  rfl

theorem intake_of_nil (h : Partial c.kept) (hlt : c.pos < bs.length) (hnil : (c.last bs).2 = []) :
    (c.intake bs).2 = c.ending bs .pending := by
  rw [intake_eq h hlt, if_pos hnil]

theorem intake_of_ne_nil (h : Partial c.kept) (hlt : c.pos < bs.length)
    (hne : (c.last bs).2 ≠ []) :
    (c.intake bs).2 = c.ending bs (verdict (c.last bs).1 (c.last bs).2 bs.length) := by
  rw [intake_eq h hlt, if_neg hne]

theorem intake_faults_iff (h : Partial c.kept) :
    (∃ f, (c.intake bs).2 = .faults f) ↔ ¬ c.IsSound bs := by
  by_cases hlt : c.pos < bs.length
  · by_cases hnil : (c.last bs).2 = []
    · simp [intake_of_nil h hlt hnil, ending, IsSound, hnil]
    · have hfault := verdict_fault_iff (c.last bs).1 (last_length_le h bs)
      simp only [IsSound, hlt, hnil, ne_eq, not_false_eq_true, forall_const]
      rw [intake_of_ne_nil h hlt hnil, ← hfault]
      cases verdict (c.last bs).1 (c.last bs).2 bs.length <;> simp [ending]
  · simp [intake_skips (Nat.le_of_not_lt hlt), IsSound, hlt]

theorem intake_hangs_iff (h : Partial c.kept) : (c.intake bs).2 = .hangs ↔ c.IsOverlong bs := by
  by_cases hlt : c.pos < bs.length
  · by_cases hnil : (c.last bs).2 = []
    · have hno : ¬ Overlong (c.last bs).1 (c.last bs).2 := fun ho =>
        ho.ne_nil (unfinished_isPartial h) hnil
      simp [intake_of_nil h hlt hnil, ending, IsOverlong, hno]
    · have hstuck := verdict_stuck_iff (c.last bs).1 (last_length_le h bs)
      simp only [IsOverlong, hlt, true_and]
      rw [intake_of_ne_nil h hlt hnil, ← hstuck]
      cases verdict (c.last bs).1 (c.last bs).2 bs.length <;> simp [ending]
  · simp [intake_skips (Nat.le_of_not_lt hlt), IsOverlong, hlt]

theorem intake_throws_iff (h : Partial c.kept) :
    (∃ msg c', (c.intake bs).2 = .throws msg c') ↔ c.IsRejected bs := by
  by_cases hlt : c.pos < bs.length
  · by_cases hnil : (c.last bs).2 = []
    · have hno : ¬ Rejected (c.last bs).1 (c.last bs).2 := fun hr =>
        hr.ne_nil (unfinished_isPartial h) hnil
      simp [intake_of_nil h hlt hnil, ending, IsRejected, hno]
    · have hrej := verdict_rejected_iff (c.last bs).1 (last_length_le h bs)
      simp only [IsRejected, hlt, true_and]
      rw [intake_of_ne_nil h hlt hnil, ← hrej]
      cases verdict (c.last bs).1 (c.last bs).2 bs.length <;> simp [ending]
  · simp [intake_skips (Nat.le_of_not_lt hlt), IsRejected, hlt]

/-- A call on a clear buffer that waits for more has cut the stream into frames. -/
theorem intake_of_waits (h : Partial c.kept) (hpos : c.pos = 0) (hne : bs ≠ [])
    {frames : List (List Byte)} {c' : Conn} (hwaits : c.intake bs = (frames, .waits c')) :
    frames = (wire.split (c.kept ++ bs)).1 ∧ c' = ⟨(wire.split (c.kept ++ bs)).2, 0⟩ := by
  have hlen := List.length_pos_iff.mpr hne
  have hlt : c.pos < bs.length := by omega
  have hsound : c.IsSound bs := by
    by_contra hbad
    obtain ⟨f, hf⟩ := (intake_faults_iff h).mpr hbad
    rw [hwaits] at hf
    cases hf
  rw [intake_eq h hlt, Prod.mk.injEq] at hwaits
  obtain ⟨rfl, hending⟩ := hwaits
  constructor
  · -- the first three bytes of a frame that came in two parts are not complete yet
    rw [finished, c.fresh_of_pos hpos]
    split
    · rename_i hcut
      have hlast : c.last bs = (c.kept, bs) := by
        rw [last, c.fresh_of_pos hpos]
        exact (unfinished_kept (Or.inr hcut)).1
      have hwhole := (hsound hlt (by rwa [hlast])).whole
      simp only [hlast] at hwhole
      rw [Framer.split_open (wire_isOpen_iff.mpr fun h12 => by have := hwhole (by omega); omega)]
    · rfl
  · split at hending
    · rw [ending, c.fresh_of_pos hpos, Intake.waits.injEq] at hending
      exact hending.symm
    · cases hv : verdict (c.last bs).1 (c.last bs).2 bs.length with
      | pending =>
        rw [hv, ending, c.fresh_of_pos hpos, Intake.waits.injEq] at hending
        exact hending.symm
      | complete frame rest => exact absurd hv (last_ne_complete h bs frame rest)
      | _ => simp [hv, ending] at hending

end Intake

end Conn

namespace RecvState

structure Holds (s : RecvState) (c : Conn) : Prop where
  tracks : Tracks s c.kept
  index : s.currBuffIdx = c.pos
  size : s.recvBuffer.size = s.buffSize
  room : c.pos < s.buffSize

/-- What `recv` can give: bytes that fit behind the index; on a closed socket it is not called. -/
def Accepts (s : RecvState) : RecvResult → Prop
  | .data bs => s.sockHelper.isSockOpen = true ∧ bs ≠ [] ∧ s.currBuffIdx + bs.length ≤ s.buffSize
  | .failed => s.sockHelper.isSockOpen = true
  | .closed _ => True

/-- A handler as its constructor leaves it, with its socket open. -/
structure Fresh (s : RecvState) : Prop where
  made : ∃ host port sock helper,
    PeerConnHandler.ofSocket host port sock helper = .ok s.toPeerConnHandler
  isOpen : s.sockHelper.isSockOpen = true

variable {s s' : RecvState} {c : Conn} {bs : List Byte}

theorem Fresh.init (h : Fresh s) : s.completedPkts = [] ∧ s.currentPkt = none ∧
    s.currBuffIdx = 0 ∧ s.buffSize = 1500 ∧ s.recvBuffer.size = 1500 := by
  obtain ⟨host, port, sock, helper, hmade⟩ := h.made
  simp only [PeerConnHandler.ofSocket, PeerConnHandler.clearBuff, Block.memset, Block.malloc_size,
    le_refl, ↓reduceIte, ok_bind, pure_eq_ok, Except.ok.injEq] at hmade
  rw [← hmade]
  exact ⟨rfl, rfl, rfl, rfl, rfl⟩

theorem Fresh.holds (h : Fresh s) : Holds s {} := by
  obtain ⟨-, hnone, hidx, hbuff, hsize⟩ := h.init
  refine ⟨?_, hidx, by rw [hsize, hbuff], by rw [hbuff]; decide⟩
  simp only [Tracks, hnone]

def idle (host : String) (port : UInt16) (sock : ℤ) : RecvState :=
  { host := host, port := port
    sockHelper := { sock := sock, host := host, port := port, isSockOpen := true }
    recvBuffer := { size := 1500, cell := fun i => if i < 1500 then some 0 else none }
    clientConn := sock != -1, serverConn := sock == -1 }

theorem idle_fresh (host : String) (port : UInt16) (sock : ℤ) : Fresh (idle host port sock) :=
  ⟨⟨host, port, sock, { sock := sock, host := host, port := port, isSockOpen := true }, rfl⟩, rfl⟩

theorem Holds.isPartial (h : Holds s c) : Partial c.kept := h.tracks.isPartial

theorem consume_of_le {n : ℤ} (h : n ≤ s.currBuffIdx) : s.consume n = .ok s := by
  rw [consume, if_neg (by omega)]
  rfl

theorem clear_spec (hsize : s.recvBuffer.size = s.buffSize) :
    ∃ s', s.clear = .ok s' ∧ Grew s s' [] ∧ s'.currentPkt = s.currentPkt ∧ s'.currBuffIdx = 0 := by
  obtain ⟨buffer, hset, hbsize⟩ := Block.memset_of_le hsize.ge 0
  refine ⟨{ s with recvBuffer := buffer, currBuffIdx := 0 }, ?_,
    ⟨rfl, rfl, hbsize, ⟨[], by simp, .nil⟩, rfl⟩, rfl, rfl⟩
  simp only [clear, PeerConnHandler.clearBuff, hset, ok_bind, pure_eq_ok, access_ok]

section Consume

variable {r : RecvResult} {recvLen : ℤ} {helper : SocketHelper} {buffer : Block}

theorem recvPkt_of_ok (hrecv : s.sockHelper.receive s.recvBuffer s.currBuffIdx
      (s.buffSize - s.currBuffIdx) r = .ok (recvLen, helper, buffer))
    (h : consume { s with sockHelper := helper, recvBuffer := buffer } recvLen = .ok s') :
    s.recvPkt r = .ok (s', { returned := s'.latest }) := by
  simp only [recvPkt, hrecv, h]

theorem recvPkt_of_raised (hrecv : s.sockHelper.receive s.recvBuffer s.currBuffIdx
      (s.buffSize - s.currBuffIdx) r = .ok (recvLen, helper, buffer)) {e : GenericException}
    (h : consume { s with sockHelper := helper, recvBuffer := buffer } recvLen =
      .error (.raised e s')) :
    s.recvPkt r = .ok (s', { caught := some e }) := by
  simp only [recvPkt, hrecv, h]

theorem recvPkt_of_halt (hrecv : s.sockHelper.receive s.recvBuffer s.currBuffIdx
      (s.buffSize - s.currBuffIdx) r = .ok (recvLen, helper, buffer)) {e : Halt}
    (h : consume { s with sockHelper := helper, recvBuffer := buffer } recvLen =
      .error (.halt e)) :
    s.recvPkt r = .error e := by
  simp only [recvPkt, hrecv, h]

end Consume

theorem Holds.receive (h : Holds s c) (ha : s.Accepts (.data bs)) :
    ∃ buffer, s.sockHelper.receive s.recvBuffer s.currBuffIdx (s.buffSize - s.currBuffIdx)
        (.data bs) = .ok (bs.length, s.sockHelper, buffer) ∧
      buffer.size = s.recvBuffer.size ∧ buffer.HoldsAt s.currBuffIdx bs := by
  obtain ⟨hopen, hne, hfits⟩ := ha
  have hsize := h.size
  have hnil : s.recvBuffer.HoldsAt s.currBuffIdx [] := Block.holdsAt_nil (by omega)
  obtain ⟨buffer, hstore, hbsize, hold⟩ := hnil.storeAll bs (by simp; omega)
  simp only [List.length_nil, Nat.add_zero, List.nil_append] at hstore hold
  exact ⟨buffer, SocketHelper.receive_data hopen hne (by omega) hstore, hbsize, hold⟩

theorem Holds.filled (h : Holds s c) {buffer : Block} (hold : buffer.HoldsAt s.currBuffIdx bs)
    (hpos : c.pos < bs.length) :
    Filled { s with recvBuffer := buffer } c.kept (c.fresh bs) bs.length := by
  refine ⟨h.tracks, ?_, hold.take _⟩
  have hidx : s.currBuffIdx = c.pos := h.index
  rw [c.fresh_length]
  simp only [hidx]
  omega

theorem consume_spec {acc fresh : List Byte} {total : ℕ} (h : Filled s acc fresh total)
    (hne : fresh ≠ []) (hsize : s.recvBuffer.size = s.buffSize) :
    match digest acc fresh total with
    | (frames, .pending) => ∃ s', s.consume total = .ok s' ∧ Grew s s' frames ∧
        Tracks s' (wire.split (acc ++ fresh)).2 ∧ s'.currBuffIdx = 0
    | (frames, .rejected msg kept rest) => ∃ s', s.consume total = throwPacket msg s' ∧
        Grew s s' frames ∧ Tracks s' kept ∧ s'.currBuffIdx + rest.length = total
    | (_, .fault f) => s.consume total = .error (.halt (.fault f))
    | (_, .stuck _ _) => s.consume total = .error (.halt .hang)
    | (_, .complete _ _) => False := by
  have hidx := h.index
  have hpos := List.length_pos_iff.mpr hne
  have hconsume : s.consume total = s.recvLoop total (total : ℤ).toNat >>= fun s =>
      if (total : ℤ) ≤ s.currBuffIdx then s.clear else pure s := by
    rw [consume, if_pos (by omega)]
  have hloop := recvLoop_spec h (n := (total : ℤ).toNat) (by omega)
  generalize digest acc fresh total = result at hloop
  obtain ⟨frames, last⟩ := result
  cases last with
  | pending =>
    obtain ⟨s₁, hs₁, hgrew, htracks, hidx₁⟩ := hloop
    obtain ⟨s₂, hs₂, hcleared, hpkt, hidx₂⟩ := clear_spec (s := s₁)
      (by rw [hgrew.size, hgrew.buffSize, hsize])
    have hall := hgrew.trans hcleared
    rw [List.append_nil] at hall
    refine ⟨s₂, ?_, hall, ?_, hidx₂⟩
    · rw [hconsume, hs₁, ok_bind, if_pos (by omega), hs₂]
    · unfold Tracks at htracks ⊢
      rwa [hpkt]
  | rejected msg kept rest =>
    obtain ⟨s₁, hs₁, hgrew, htracks, hidx₁⟩ := hloop
    refine ⟨s₁, ?_, hgrew, htracks, hidx₁⟩
    rw [hconsume, hs₁, throwPacket_bind]
  | stuck kept rest =>
    show s.consume total = _
    rw [hconsume, hloop, error_bind]
  | fault f =>
    show s.consume total = _
    rw [hconsume, hloop, error_bind]
  | complete frame rest => exact hloop.elim

/-- A call of `recv_pkt` that receives bytes goes as `intake` says. -/
theorem recvPkt_data (h : Holds s c) (ha : s.Accepts (.data bs)) :
    match c.intake bs with
    | (frames, .waits c') => ∃ s', s.recvPkt (.data bs) = .ok (s', { returned := s'.latest }) ∧
        Grew s s' frames ∧ Holds s' c'
    | (frames, .throws msg c') => ∃ s', s.recvPkt (.data bs) =
          .ok (s', { caught := some { cls := .packet, message := msg } }) ∧
        Grew s s' frames ∧ Holds s' c'
    | (_, .hangs) => s.recvPkt (.data bs) = .error .hang
    | (_, .faults f) => s.recvPkt (.data bs) = .error (.fault f) := by
  obtain ⟨buffer, hrecv, hbsize, hold⟩ := h.receive ha
  have hidx : s.currBuffIdx = c.pos := h.index
  let s₁ : RecvState := { s with recvBuffer := buffer }
  have hgrew : Grew s s₁ [] := ⟨rfl, rfl, hbsize, ⟨[], by simp [s₁], .nil⟩, rfl⟩
  have hsize₁ : s₁.recvBuffer.size = s₁.buffSize := hbsize.trans h.size
  have hroom := h.room
  unfold Conn.intake
  by_cases hskip : bs.length ≤ c.pos
  · -- the index is past the count, so nothing is looked at
    have hconsume : s₁.consume bs.length = .ok s₁ := by
      apply consume_of_le
      have : s₁.currBuffIdx = c.pos := hidx
      omega
    rw [if_pos hskip]
    exact ⟨s₁, recvPkt_of_ok hrecv hconsume, hgrew, h.tracks, hidx, hsize₁, hroom⟩
  · have hlength := c.fresh_length bs
    have hne : c.fresh bs ≠ [] := by
      apply List.ne_nil_of_length_pos
      omega
    have hconsume := consume_spec (h.filled hold (by omega)) hne hsize₁
    have hleft := @digest_rest_ne_nil c.kept (c.fresh bs) bs.length h.isPartial (by omega)
    rw [if_neg hskip]
    simp only
    generalize digest c.kept (c.fresh bs) bs.length = result at hconsume hleft
    obtain ⟨frames, last⟩ := result
    cases last with
    | pending =>
      obtain ⟨s₂, hs₂, hgrew₂, htracks, hidx₂⟩ := hconsume
      have hall : Grew s s₂ frames := hgrew.trans hgrew₂
      refine ⟨s₂, recvPkt_of_ok hrecv hs₂, hall, htracks, hidx₂,
        by rw [hall.size, hall.buffSize, h.size], ?_⟩
      rw [hall.buffSize]
      simp only
      omega
    | rejected msg kept rest =>
      obtain ⟨s₂, hs₂, hgrew₂, htracks, hidx₂⟩ := hconsume
      have hall : Grew s s₂ frames := hgrew.trans hgrew₂
      have hrest := List.length_pos_iff.mpr (hleft rfl)
      have hfits := ha.2.2
      refine ⟨s₂, recvPkt_of_raised hrecv hs₂, hall, htracks, by simp only; omega,
        by rw [hall.size, hall.buffSize, h.size], ?_⟩
      rw [hall.buffSize]
      simp only
      omega
    | stuck kept rest => exact recvPkt_of_halt hrecv hconsume
    | fault f => exact recvPkt_of_halt hrecv hconsume
    | complete frame rest => exact hconsume.elim

theorem Holds.maxMsgLen_pos (h : Holds s c) : 0 < (s.buffSize - s.currBuffIdx : ℤ) := by
  have hroom := h.room
  rw [h.index]
  omega

theorem recvPkt_of_not_open (hopen : s.sockHelper.isSockOpen = false) (r : RecvResult) :
    s.recvPkt r = .ok (s, { returned := s.latest }) := by
  simp only [recvPkt, SocketHelper.receive_of_closed hopen]
  rw [consume_of_le (by simp)]

theorem recvPkt_closed (h : Holds s c) (hopen : s.sockHelper.isSockOpen = true) (k : CloseResult) :
    s.recvPkt (.closed k) =
      .ok ({ s with sockHelper := (s.sockHelper.closeSock k).2 }, { returned := s.latest }) := by
  simp only [recvPkt, SocketHelper.receive_closed hopen h.maxMsgLen_pos]
  rw [consume_of_le (by simp)]
  rfl

theorem recvPkt_failed (h : Holds s c) (hopen : s.sockHelper.isSockOpen = true) :
    s.recvPkt .failed = .ok (s, { caught := some receiveError }) := by
  simp only [recvPkt, SocketHelper.receive_failed hopen h.maxMsgLen_pos]

/-- A call that receives no bytes changes nothing but the socket. -/
theorem recvPkt_quiet (h : Holds s c) {r : RecvResult} (ha : s.Accepts r)
    (hr : ∀ bs, r ≠ .data bs) :
    ∃ s' call, s.recvPkt r = .ok (s', call) ∧ Holds s' c ∧ s'.completedPkts = s.completedPkts ∧
      s'.outFile = s.outFile ∧
      (call.caught = none → call.returned = s'.latest) ∧
      (call.caught ≠ none → r = .failed ∧ call.returned = none) := by
  cases r with
  | data bs => exact absurd rfl (hr bs)
  | failed =>
    exact ⟨s, _, recvPkt_failed h ha, h, rfl, rfl, by simp, fun _ => ⟨rfl, rfl⟩⟩
  | closed k =>
    cases hopen : s.sockHelper.isSockOpen with
    | false => exact ⟨s, _, recvPkt_of_not_open hopen _, h, rfl, rfl, fun _ => rfl, by simp⟩
    | true =>
      exact ⟨_, _, recvPkt_closed h hopen k, ⟨h.tracks, h.index, h.size, h.room⟩, rfl, rfl,
        fun _ => rfl, by simp⟩

section Ends

variable {r : RecvResult} {call : RecvCall}

/-- A call that receives bytes and comes back returns the last packet, or it has caught a
`PacketException`. -/
theorem recvPkt_data_ok (h : Holds s c) (ha : s.Accepts (.data bs))
    (hcall : s.recvPkt (.data bs) = .ok (s', call)) :
    ∃ frames, Grew s s' frames ∧ Holds s' (c.next (.data bs)) ∧
      (c.intake bs = (frames, .waits (c.next (.data bs))) ∧ call = { returned := s'.latest } ∨
        ∃ msg, c.intake bs = (frames, .throws msg (c.next (.data bs))) ∧
          call = { caught := some { cls := .packet, message := msg } }) := by
  have hdata := recvPkt_data h ha
  simp only [Conn.next]
  generalize c.intake bs = result at hdata
  obtain ⟨frames, last⟩ := result
  cases last with
  | waits c' =>
    obtain ⟨t, ht, hgrew, hholds⟩ := hdata
    obtain ⟨rfl, rfl⟩ : t = s' ∧ _ = call := by simpa [ht] using hcall
    exact ⟨frames, hgrew, hholds, Or.inl ⟨rfl, rfl⟩⟩
  | throws msg c' =>
    obtain ⟨t, ht, hgrew, hholds⟩ := hdata
    obtain ⟨rfl, rfl⟩ : t = s' ∧ _ = call := by simpa [ht] using hcall
    exact ⟨frames, hgrew, hholds, Or.inr ⟨msg, rfl, rfl⟩⟩
  | hangs => simp [hdata] at hcall
  | faults f => simp [hdata] at hcall

theorem recvPkt_data_error_iff (h : Holds s c) (ha : s.Accepts (.data bs)) {e : Halt} :
    s.recvPkt (.data bs) = .error e ↔
      (c.intake bs).2 = .hangs ∧ e = .hang ∨ ∃ f, (c.intake bs).2 = .faults f ∧ e = .fault f := by
  have hdata := recvPkt_data h ha
  generalize c.intake bs = result at hdata
  obtain ⟨frames, last⟩ := result
  cases last with
  | waits c' =>
    obtain ⟨t, ht, -⟩ := hdata
    simp [ht]
  | throws msg c' =>
    obtain ⟨t, ht, -⟩ := hdata
    simp [ht]
  | hangs => simp [hdata, eq_comm]
  | faults f => simp [hdata, eq_comm]

theorem recvPkt_next (h : Holds s c) (ha : s.Accepts r)
    (hcall : s.recvPkt r = .ok (s', call)) : Holds s' (c.next r) := by
  by_cases hr : ∀ bs, r ≠ .data bs
  · obtain ⟨s'', call', hq, hholds, -⟩ := recvPkt_quiet h ha hr
    obtain ⟨rfl, rfl⟩ : s'' = s' ∧ call' = call := by simpa [hq] using hcall
    cases r with
    | data bs => exact absurd rfl (hr bs)
    | closed k => exact hholds
    | failed => exact hholds
  · obtain ⟨bs, rfl⟩ : ∃ bs, r = .data bs := by simpa using hr
    obtain ⟨frames, -, hholds, -⟩ := recvPkt_data_ok h ha hcall
    exact hholds

theorem recvPkt_grew (h : Holds s c) (ha : s.Accepts (.data bs))
    (hcall : s.recvPkt (.data bs) = .ok (s', call)) : Grew s s' (c.intake bs).1 := by
  obtain ⟨frames, hgrew, -, ⟨hintake, -⟩ | ⟨msg, hintake, -⟩⟩ := recvPkt_data_ok h ha hcall
  · rwa [hintake]
  · rwa [hintake]

/-- A call comes back, or hangs on an overlong frame, or makes a wrong access. -/
theorem recvPkt_ends (h : Holds s c) (ha : s.Accepts r) :
    (s.recvPkt r = .error .hang ↔ ∃ bs, r = .data bs ∧ c.IsOverlong bs) ∧
      ((∃ f, s.recvPkt r = .error (.fault f)) ↔ ∃ bs, r = .data bs ∧ ¬ c.IsSound bs) ∧
      s.recvPkt r ≠ .error .exit := by
  by_cases hr : ∀ bs, r ≠ .data bs
  · obtain ⟨s', call, hq, -⟩ := recvPkt_quiet h ha hr
    simp [hq, hr]
  · obtain ⟨bs, rfl⟩ : ∃ bs, r = .data bs := by simpa using hr
    simp only [RecvResult.data.injEq, exists_eq_left', ne_eq, recvPkt_data_error_iff h ha]
    rw [← Conn.intake_hangs_iff h.isPartial, ← Conn.intake_faults_iff h.isPartial]
    simp

theorem recvPkt_fault_iff (h : Holds s c) (ha : s.Accepts r) :
    (∃ f, s.recvPkt r = .error (.fault f)) ↔ ∃ bs, r = .data bs ∧ ¬ c.IsSound bs :=
  (recvPkt_ends h ha).2.1

theorem recvPkt_throws (h : Holds s c) (ha : s.Accepts r) {e : GenericException}
    (hcall : s.recvPkt r = .ok (s', call)) (he : call.caught = some e) (hcls : e.cls = .packet) :
    ∃ bs frames msg, r = .data bs ∧ c.intake bs = (frames, .throws msg (c.next r)) := by
  by_cases hr : ∀ bs, r ≠ .data bs
  · exfalso
    cases r with
    | data bs => exact hr bs rfl
    | failed =>
      obtain ⟨-, rfl⟩ : s = s' ∧ _ = call := by simpa [recvPkt_failed h ha] using hcall
      obtain rfl := Option.some.inj he
      cases hcls
    | closed k =>
      obtain ⟨s'', call', hq, -, -, -, hnone, hsome⟩ := recvPkt_quiet h ha hr
      obtain ⟨rfl, rfl⟩ : s'' = s' ∧ call' = call := by simpa [hq] using hcall
      simpa using (hsome (by simp [he])).1
  · obtain ⟨bs, rfl⟩ : ∃ bs, r = .data bs := by simpa using hr
    obtain ⟨frames, -, -, ⟨-, rfl⟩ | ⟨msg, hthrows, -⟩⟩ := recvPkt_data_ok h ha hcall
    · cases he
    · exact ⟨bs, frames, msg, rfl, hthrows⟩

end Ends

def Fits : RecvState → List RecvResult → Prop
  | _, [] => True
  | s, r :: rs => s.Accepts r ∧ ∀ s' call, s.recvPkt r = .ok (s', call) → s'.Fits rs

/-- The state of a handler that has come back from the calls with these results. -/
def Reached (rs : List RecvResult) (s : RecvState) : Prop :=
  ∃ s₀ calls, Fresh s₀ ∧ s₀.Fits rs ∧ s₀.recvAll rs = .ok (s, calls)

variable {r : RecvResult} {rs ts : List RecvResult} {call : RecvCall} {calls : List RecvCall}

@[simp] theorem recvAll_nil : s.recvAll [] = .ok (s, []) := rfl

theorem recvAll_cons_ok (h : s.recvPkt r = .ok (s', call)) :
    s.recvAll (r :: rs) = s'.recvAll rs >>= fun p => .ok (p.1, call :: p.2) := by
  rw [recvAll, h, ok_bind]
  rfl

theorem recvAll_cons_error {h : Halt} (hr : s.recvPkt r = .error h) :
    s.recvAll (r :: rs) = .error h := by
  rw [recvAll, hr, error_bind]

theorem recvAll_cons_inv (h : s.recvAll (r :: rs) = .ok (s', calls)) :
    ∃ s₁ call calls', s.recvPkt r = .ok (s₁, call) ∧ s₁.recvAll rs = .ok (s', calls') ∧
      calls = call :: calls' := by
  cases hr : s.recvPkt r with
  | error e => simp [recvAll_cons_error hr] at h
  | ok p =>
    obtain ⟨s₁, call⟩ := p
    rw [recvAll_cons_ok hr] at h
    cases hrest : s₁.recvAll rs with
    | error e => simp [hrest] at h
    | ok q =>
      obtain ⟨s₂, calls'⟩ := q
      rw [hrest, ok_bind] at h
      obtain ⟨rfl, rfl⟩ : s₂ = s' ∧ call :: calls' = calls := by simpa using h
      exact ⟨s₁, call, calls', rfl, hrest, rfl⟩

theorem recvAll_append (h : s.recvAll rs = .ok (s', calls)) :
    s.recvAll (rs ++ ts) = s'.recvAll ts >>= fun p => .ok (p.1, calls ++ p.2) := by
  induction rs generalizing s calls with
  | nil =>
    obtain ⟨rfl, rfl⟩ : s = s' ∧ [] = calls := by simpa using h
    rw [List.nil_append]
    cases s.recvAll ts <;> rfl
  | cons r rs ih =>
    obtain ⟨s₁, call, calls', hcall, hrest, rfl⟩ := recvAll_cons_inv h
    rw [List.cons_append, recvAll_cons_ok hcall, ih hrest]
    cases s'.recvAll ts <;> rfl

theorem recvAll_append_ok (h : s.recvAll (rs ++ ts) = .ok (s', calls)) :
    ∃ s₁ calls₁ calls₂, s.recvAll rs = .ok (s₁, calls₁) ∧ s₁.recvAll ts = .ok (s', calls₂) ∧
      calls = calls₁ ++ calls₂ := by
  induction rs generalizing s calls with
  | nil => exact ⟨s, [], calls, rfl, h, rfl⟩
  | cons r rs ih =>
    obtain ⟨s₁, call, calls', hcall, hrest, rfl⟩ := recvAll_cons_inv h
    obtain ⟨s₂, calls₁, calls₂, h₁, h₂, rfl⟩ := ih hrest
    exact ⟨s₂, call :: calls₁, calls₂, by rw [recvAll_cons_ok hcall, h₁]; rfl, h₂, rfl⟩

theorem Fits.right (hf : s.Fits (rs ++ ts)) (h : s.recvAll rs = .ok (s', calls)) : s'.Fits ts := by
  induction rs generalizing s calls with
  | nil =>
    obtain ⟨rfl, -⟩ : s = s' ∧ [] = calls := by simpa using h
    exact hf
  | cons r rs ih =>
    obtain ⟨s₁, call, calls', hcall, hrest, rfl⟩ := recvAll_cons_inv h
    exact ih (hf.2 s₁ call hcall) hrest

theorem Fits.left (hf : s.Fits (rs ++ ts)) : s.Fits rs := by
  induction rs generalizing s with
  | nil => trivial
  | cons r rs ih => exact ⟨hf.1, fun s' call hr => ih (hf.2 s' call hr)⟩

theorem Holds.recvAll (h : Holds s c) (hf : s.Fits rs) (hrun : s.recvAll rs = .ok (s', calls)) :
    Holds s' (c.after rs) := by
  induction rs generalizing s c calls with
  | nil =>
    obtain ⟨rfl, -⟩ : s = s' ∧ [] = calls := by simpa using hrun
    exact h
  | cons r rs ih =>
    obtain ⟨s₁, call, calls', hcall, hrest, rfl⟩ := recvAll_cons_inv hrun
    exact ih (recvPkt_next h hf.1 hcall) (hf.2 s₁ call hcall) hrest

/-- What a reached handler is like is known from the results alone. -/
theorem Reached.holds (h : Reached rs s) : Holds s (Conn.after {} rs) := by
  obtain ⟨s₀, calls, hfresh, hfits, hrun⟩ := h
  exact hfresh.holds.recvAll hfits hrun

end RecvState

end P2Purr
