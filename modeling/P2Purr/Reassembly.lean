import P2Purr.Connection

namespace P2Purr
open Memory Framing

section Verdicts

variable {acc fresh t : List Byte} {total : ℕ}

/-- A proper part of a frame is waited for, if the frame's first three bytes came together. -/
theorem verdict_of_begun (hacc : Partial acc) (hwhole : acc.length ≠ 1 ∧ acc.length ≠ 2)
    (htotal : fresh.length ≤ total) (hne : fresh ≠ []) (ht : t ≠ [])
    (hf : wire.IsFrame (acc ++ fresh ++ t)) : verdict acc fresh total = .pending := by
  obtain ⟨hhead, hu, -⟩ := wire_isFrame_iff.mp hf
  have hopen := Framer.isOpen_of_append hf ht
  have hend : hdrEnd (acc ++ fresh) = hdrField (acc ++ fresh) + 3 := rfl
  have hfield : 3 ≤ (acc ++ fresh).length →
      9 ≤ hdrField (acc ++ fresh) ∧ hdrField (acc ++ fresh) ≤ 65532 := by
    intro h3
    rw [← hdrField_append h3 t]
    exact ⟨hu.header_min, hu.header_max⟩
  have hbody : hdrEnd (acc ++ fresh) < (acc ++ fresh).length → Usable (acc ++ fresh) := by
    intro hlt
    have hmin := (hfield (by omega)).1
    exact (usable_append (by omega) t).mp hu
  have hsound : Sound acc fresh total := by
    refine ⟨fun hcut _ => ?_, fun _ => hwhole, fun h3 => ?_, fun hlt => Or.inr ?_⟩
    · obtain rfl : acc = [] := List.eq_nil_of_length_eq_zero (by omega)
      rw [List.nil_append] at hhead
      rwa [List.head?_append_of_ne_nil _ hne] at hhead
    · have := (hfield h3).2
      omega
    · exact (hfield (by omega)).1
  -- a begun frame has a usable header, so that only `pending` and `complete` are left
  have hover : ¬ Overlong acc fresh := by
    intro ho
    have := (hbody ho.begun).size_lt
    have := ho.size_ge
    omega
  have hrej : ¬ Rejected acc fresh := by
    intro hr
    have hthree := hr.entered.three
    have hmax := hfield hthree
    rcases hr.lengths with hw | ⟨hlt, hlengths⟩
    · omega
    · have hpos := (hbody hlt).payload_pos
      have hsize := (hbody hlt).size_lt
      unfold frameSize at hsize
      omega
  cases hv : verdict acc fresh total with
  | pending => rfl
  | complete frame rest =>
    obtain ⟨-, L, hL, hle, -⟩ := frame_of_verdict hacc htotal hv
    have := hopen L hL
    omega
  | rejected msg kept rest => exact absurd ((verdict_rejected_iff acc htotal).mp ⟨_, _, _, hv⟩) hrej
  | stuck kept rest => exact absurd ((verdict_stuck_iff acc htotal).mp ⟨_, _, hv⟩) hover
  | fault f => exact absurd hsound ((verdict_fault_iff acc htotal).mp ⟨_, hv⟩)

end Verdicts

namespace Conn

variable {c c' : Conn} {bs : List Byte} {frames : List (List Byte)}

theorem intake_of_begun (h : Partial c.kept) (hpos : c.pos = 0)
    (hwhole : c.kept.length ≠ 1 ∧ c.kept.length ≠ 2) (hne : bs ≠ [])
    (hbegun : (wire.split (c.kept ++ bs)).2 ≠ [] →
      ∃ t, t ≠ [] ∧ wire.IsFrame ((wire.split (c.kept ++ bs)).2 ++ t)) :
    c.intake bs = ((wire.split (c.kept ++ bs)).1, .waits ⟨(wire.split (c.kept ++ bs)).2, 0⟩) := by
  have hlen := List.length_pos_iff.mpr hne
  have hcut : ¬ (c.kept.length = 1 ∨ c.kept.length = 2) := by omega
  rw [intake_eq h (by omega), finished, if_neg hcut, c.fresh_of_pos hpos]
  suffices hlast : (if (c.last bs).2 = [] then .pending
      else verdict (c.last bs).1 (c.last bs).2 bs.length) = .pending by
    rw [hlast, ending, c.fresh_of_pos hpos]
  split
  · rfl
  · rename_i hnil
    rw [last, c.fresh_of_pos hpos] at hnil ⊢
    by_cases hopen : wire.IsOpen (c.kept ++ bs)
    · rw [(unfinished_kept (Or.inl hopen)).1]
      rw [Framer.split_open hopen] at hbegun
      obtain ⟨t, ht, hf⟩ := hbegun (by simp [hne])
      exact verdict_of_begun h hwhole le_rfl hne ht hf
    · have hsuffix := unfinished_suffix h bs
      rw [(unfinished_new hopen hwhole).1] at hnil hsuffix ⊢
      obtain ⟨t, ht, hf⟩ := hbegun hnil
      exact verdict_of_begun partial_nil (by simp) hsuffix.length_le hnil ht hf

/-- Once a chunk has ended inside the first three bytes of a frame, no frame completes, and
waiting for more goes on inside the first three bytes. -/
theorem intake_of_cut (h : Partial c.kept) (hpos : c.pos = 0)
    (hcut : c.kept.length = 1 ∨ c.kept.length = 2) (hne : bs ≠ [])
    (hwaits : c.intake bs = (frames, .waits c')) :
    frames = [] ∧ c'.pos = 0 ∧ (c'.kept.length = 1 ∨ c'.kept.length = 2) := by
  have hlen := List.length_pos_iff.mpr hne
  have hlast : c.last bs = (c.kept, bs) := by
    rw [last, c.fresh_of_pos hpos]
    exact (unfinished_kept (Or.inr hcut)).1
  have hshort : (c.kept ++ bs).length < 3 := by
    by_contra h3
    have hbad : ¬ c.IsSound bs := by
      intro hs
      have hwhole := (hs (by omega) (by rwa [hlast])).whole
      simp only [hlast] at hwhole
      have := hwhole (by omega)
      omega
    obtain ⟨f, hf⟩ := (intake_faults_iff h).mpr hbad
    rw [hwaits] at hf
    cases hf
  obtain ⟨rfl, rfl⟩ := intake_of_waits h hpos hne hwaits
  rw [Framer.split_open (wire_isOpen_iff.mpr fun h12 => by omega)]
  simp only [List.length_append] at hshort ⊢
  exact ⟨trivial, trivial, by omega⟩

end Conn

namespace RecvState

structure Ready (s : RecvState) (kept : List Byte) : Prop where
  holds : Holds s ⟨kept, 0⟩
  isOpen : s.sockHelper.isSockOpen = true
  buffSize : s.buffSize = 1500

/-- No chunk ends one or two bytes behind the beginning of a frame. -/
def Whole (kept : List Byte) (cs : List (List Byte)) : Prop :=
  ∀ pre post, cs = pre ++ post →
    (wire.split (kept ++ pre.flatten)).2.length ≠ 1 ∧
      (wire.split (kept ++ pre.flatten)).2.length ≠ 2

variable {s s' s₀ : RecvState} {kept bs : List Byte} {cs gs : List (List Byte)}
  {call : RecvCall} {calls : List RecvCall}

theorem Fresh.ready (h : Fresh s) : Ready s [] := ⟨h.holds, h.isOpen, h.init.2.2.2.1⟩

theorem Ready.accepts (h : Ready s kept) (hbs : bs ≠ [] ∧ bs.length ≤ 1500) :
    s.Accepts (.data bs) := by
  have hidx := h.holds.index
  have hsize := h.buffSize
  simp only at hidx
  exact ⟨h.isOpen, hbs.1, by omega⟩

theorem Ready.grew (h : Ready s kept) {kept' : List Byte} {frames : List (List Byte)}
    (hgrew : Grew s s' frames) (hholds : Holds s' ⟨kept', 0⟩) : Ready s' kept' :=
  ⟨hholds, by rw [hgrew.sockHelper]; exact h.isOpen, by rw [hgrew.buffSize]; exact h.buffSize⟩

/-- The first chunk may end in what was kept already. -/
theorem Whole.start (h : Whole kept cs) (hopen : wire.IsOpen kept) :
    kept.length ≠ 1 ∧ kept.length ≠ 2 := by
  have hnil := h [] cs rfl
  rwa [List.flatten_nil, List.append_nil, Framer.split_open hopen] at hnil

theorem split_rest_append (s t : List Byte) :
    (wire.split ((wire.split s).2 ++ t)).2 = (wire.split (s ++ t)).2 := by
  rw [wire.split_append s t]

theorem Whole.tail (h : Whole kept (bs :: cs)) : Whole (wire.split (kept ++ bs)).2 cs := by
  rintro pre post rfl
  have hcons := h (bs :: pre) post rfl
  rwa [List.flatten_cons, ← List.append_assoc, ← split_rest_append] at hcons

theorem whole_nil : Whole [] [] := by
  intro pre post hsplit
  obtain ⟨rfl, -⟩ := List.append_eq_nil_iff.mp hsplit.symm
  simp

theorem Whole.cons (hkept : wire.IsOpen kept) (hwhole : kept.length ≠ 1 ∧ kept.length ≠ 2)
    (h : Whole (wire.split (kept ++ bs)).2 cs) : Whole kept (bs :: cs) := by
  intro pre post hsplit
  cases pre with
  | nil =>
    rw [List.flatten_nil, List.append_nil, Framer.split_open hkept]
    exact hwhole
  | cons b pre =>
    obtain ⟨rfl, rfl⟩ : bs = b ∧ cs = pre ++ post := by simpa using hsplit
    rw [List.flatten_cons, ← List.append_assoc, ← split_rest_append]
    exact h pre post rfl

theorem recvPkt_of_begun (h : Ready s kept) (hwhole : kept.length ≠ 1 ∧ kept.length ≠ 2)
    (hbs : bs ≠ [] ∧ bs.length ≤ 1500)
    (hbegun : (wire.split (kept ++ bs)).2 ≠ [] →
      ∃ t, t ≠ [] ∧ wire.IsFrame ((wire.split (kept ++ bs)).2 ++ t)) :
    ∃ s', s.recvPkt (.data bs) = .ok (s', { returned := s'.latest }) ∧
      Grew s s' (wire.split (kept ++ bs)).1 ∧ Ready s' (wire.split (kept ++ bs)).2 := by
  have hdata := recvPkt_data h.holds (h.accepts hbs)
  rw [Conn.intake_of_begun h.holds.isPartial rfl hwhole hbs.1 hbegun] at hdata
  obtain ⟨s', hs', hgrew, hholds⟩ := hdata
  exact ⟨s', hs', hgrew, h.grew hgrew hholds⟩

/-- A stream of frames, by induction on its chunks: what is kept and what is to come are
a stream of frames again. -/
theorem recvAll_of_whole (h : Ready s kept) (hopen : wire.IsOpen kept)
    (hgs : ∀ g ∈ gs, wire.IsFrame g) (hstream : kept ++ cs.flatten = gs.flatten)
    (hcs : ∀ bs ∈ cs, bs ≠ [] ∧ bs.length ≤ 1500) (hwhole : Whole kept cs) :
    s.Fits (cs.map .data) ∧ ∃ s' calls, s.recvAll (cs.map .data) = .ok (s', calls) ∧
      (∀ call ∈ calls, call.caught = none) ∧ Grew s s' gs ∧ Ready s' [] := by
  induction cs generalizing s kept gs with
  | nil =>
    have hboth := Framer.split_flatten hgs
    rw [← hstream, List.flatten_nil, List.append_nil, Framer.split_open hopen] at hboth
    obtain ⟨rfl, rfl⟩ : [] = gs ∧ kept = [] := by simpa using hboth
    exact ⟨trivial, s, [], rfl, by simp, Grew.refl s, h⟩
  | cons bs cs ih =>
    rw [List.flatten_cons, ← List.append_assoc] at hstream
    obtain ⟨hs, rfl, hrest, hframes, hbegun⟩ := Framer.split_of_flatten hgs hstream
    obtain ⟨s₁, hcall, hgrew, hready⟩ :=
      recvPkt_of_begun h (hwhole.start hopen) (hcs bs (by simp)) hbegun
    obtain ⟨hfits, s', calls, hrun, hcaught, hgrew', hready'⟩ :=
      ih hready (wire.split_rest_isOpen _) hframes hrest (fun b hb => hcs b (by simp [hb]))
        hwhole.tail
    refine ⟨⟨h.accepts (hcs bs (by simp)), ?_⟩, s', { returned := s₁.latest } :: calls, ?_, ?_,
      hgrew.trans hgrew', hready'⟩
    · intro s₂ call hcall₂
      obtain ⟨rfl, -⟩ : s₁ = s₂ ∧ _ = call := by simpa [hcall] using hcall₂
      exact hfits
    · rw [List.map_cons, recvAll_cons_ok hcall, hrun]
      rfl
    · intro call hcall
      rcases List.mem_cons.mp hcall with rfl | hmem
      · rfl
      · exact hcaught call hmem

theorem recvPkt_of_cut (h : Ready s kept) (hcut : kept.length = 1 ∨ kept.length = 2)
    (hbs : bs ≠ [] ∧ bs.length ≤ 1500) (hcall : s.recvPkt (.data bs) = .ok (s', call))
    (hcaught : call.caught = none) :
    s'.completedPkts = s.completedPkts ∧
      ∃ kept', Ready s' kept' ∧ (kept'.length = 1 ∨ kept'.length = 2) := by
  obtain ⟨frames, hgrew, hholds, ⟨hwaits, -⟩ | ⟨msg, -, rfl⟩⟩ :=
    recvPkt_data_ok h.holds (h.accepts hbs) hcall
  · obtain ⟨rfl, hpos, hlen⟩ :=
      Conn.intake_of_cut h.holds.isPartial rfl hcut hbs.1 hwaits
    obtain ⟨ps, hps, hcarry⟩ := hgrew.completed
    obtain rfl : ps = [] := List.forall₂_nil_right_iff.mp hcarry
    generalize Conn.next ⟨kept, 0⟩ (.data bs) = c' at hholds hpos hlen
    obtain ⟨kept', pos⟩ := c'
    obtain rfl : pos = 0 := hpos
    exact ⟨by rw [hps, List.append_nil], kept', h.grew hgrew hholds, hlen⟩
  · cases hcaught

theorem recvAll_of_cut (h : Ready s kept) (hcut : kept.length = 1 ∨ kept.length = 2)
    (hcs : ∀ bs ∈ cs, bs ≠ [] ∧ bs.length ≤ 1500)
    (hrun : s.recvAll (cs.map .data) = .ok (s', calls))
    (hcaught : ∀ call ∈ calls, call.caught = none) : s'.completedPkts = s.completedPkts := by
  induction cs generalizing s kept calls with
  | nil =>
    obtain ⟨rfl, -⟩ : s = s' ∧ [] = calls := by simpa using hrun
    rfl
  | cons bs cs ih =>
    obtain ⟨s₁, call, calls', hcall, hrest, rfl⟩ := recvAll_cons_inv hrun
    obtain ⟨hsame, kept', hready, hcut'⟩ :=
      recvPkt_of_cut h hcut (hcs bs (by simp)) hcall (hcaught call (by simp))
    rw [ih hready hcut' (fun b hb => hcs b (by simp [hb])) hrest
      (fun c hc => hcaught c (by simp [hc])), hsame]

theorem Grew.length {frames : List (List Byte)} (h : Grew s s' frames) :
    s'.completedPkts.length = s.completedPkts.length + frames.length := by
  obtain ⟨ps, hps, hcarry⟩ := h.completed
  rw [hps, List.length_append, hcarry.length_eq]

/-- Only an uncut stream completes as many packets as it has frames. -/
theorem whole_of_completed (h : Ready s kept) (hopen : wire.IsOpen kept)
    (hgs : ∀ g ∈ gs, wire.IsFrame g) (hstream : kept ++ cs.flatten = gs.flatten)
    (hcs : ∀ bs ∈ cs, bs ≠ [] ∧ bs.length ≤ 1500)
    (hrun : s.recvAll (cs.map .data) = .ok (s', calls))
    (hcaught : ∀ call ∈ calls, call.caught = none)
    (hall : s'.completedPkts.length = s.completedPkts.length + gs.length) : Whole kept cs := by
  induction cs generalizing s kept gs calls with
  | nil =>
    have hboth := Framer.split_flatten hgs
    rw [← hstream, List.flatten_nil, List.append_nil, Framer.split_open hopen] at hboth
    obtain ⟨-, rfl⟩ : [] = gs ∧ kept = [] := by simpa using hboth
    intro pre post hsplit
    obtain ⟨rfl, -⟩ := List.append_eq_nil_iff.mp hsplit.symm
    simp
  | cons bs cs ih =>
    by_cases hcut : kept.length = 1 ∨ kept.length = 2
    · have hsame := recvAll_of_cut h hcut hcs hrun hcaught
      obtain rfl : gs = [] := List.eq_nil_of_length_eq_zero (by rw [hsame] at hall; omega)
      have hkept : kept = [] := (List.append_eq_nil_iff.mp hstream).1
      simp [hkept] at hcut
    · have hwhole : kept.length ≠ 1 ∧ kept.length ≠ 2 := by omega
      obtain ⟨s₁, call, calls', hcall, hrest, rfl⟩ := recvAll_cons_inv hrun
      rw [List.flatten_cons, ← List.append_assoc] at hstream
      obtain ⟨hs, rfl, hstream', hframes, hbegun⟩ := Framer.split_of_flatten hgs hstream
      obtain ⟨s₂, hcall₂, hgrew, hready⟩ := recvPkt_of_begun h hwhole (hcs bs (by simp)) hbegun
      obtain ⟨rfl, -⟩ : s₂ = s₁ ∧ _ = call := by simpa [hcall₂] using hcall
      have hlen := hgrew.length
      rw [List.length_append] at hall
      exact Whole.cons hopen hwhole (ih hready (wire.split_rest_isOpen _) hframes hstream'
        (fun b hb => hcs b (by simp [hb])) hrest (fun c hc => hcaught c (by simp [hc]))
        (by omega))

/-- A packet that the payload constructor makes of at most `2^31 - 14` bytes. -/
def Made (p : Packet) : Prop :=
  ∃ src body ct cs enc compr encr, src.HoldsAt 0 body ∧ 1 ≤ body.length ∧
    body.length ≤ 2 ^ 31 - 14 ∧
    Packet.ofPayload (some src) body.length ct cs enc compr encr = .ok p

structure Same (p q : Packet) : Prop where
  type : q.type = p.type
  charset : q.charset = p.charset
  encoding : q.encoding = p.encoding
  encryption : q.encryption = p.encryption
  compression : q.compression = p.compression
  header : q.getHeader = p.getHeader
  payload : q.getPayload = p.getPayload

/-- One call for each chunk, without an exception, gives the packets back. -/
def Reassembles (s : RecvState) (ps : List Packet) (cs : List (List Byte)) : Prop :=
  ∃ s' calls, s.recvAll (cs.map .data) = .ok (s', calls) ∧
    (∀ call ∈ calls, call.caught = none) ∧ List.Forall₂ Same ps s'.completedPkts ∧
    s'.currentPkt = none ∧ s'.currBuffIdx = 0

/-- Some chunk ends one or two bytes behind the beginning of a packet. -/
def CutsPrefix (fs cs : List (List Byte)) : Prop :=
  ∃ pre post fs₁ f fs₂, cs = pre ++ post ∧ fs = fs₁ ++ f :: fs₂ ∧
    (pre.flatten.length = fs₁.flatten.length + 1 ∨ pre.flatten.length = fs₁.flatten.length + 2)

variable {p q : Packet} {f : List Byte} {ps qs : List Packet} {fs : List (List Byte)}

theorem Made.carries (h : Made p) (hbytes : p.getPacket = .ok f) :
    wire.IsFrame f ∧ Carries p f := by
  obtain ⟨src, body, ct, cs, enc, compr, encr, hold, hpos, hle, hmake⟩ := h
  have hne : body ≠ [] := List.length_pos_iff.mp hpos
  obtain ⟨q, hq, -, hcarries⟩ := Packet.ofPayload_spec hold (by omega) ct cs enc compr encr
  obtain rfl : q = p := by simpa [hq] using hmake
  obtain rfl : frameOf ct cs enc encr compr body = f := by
    simpa [hcarries.packet] using hbytes
  exact ⟨frameOf_isFrame hne (by omega), hcarries⟩

theorem same_of_carries (hp : Carries p f) (hq : Carries q f) : Same p q where
  type := Option.some.inj (hq.type.symm.trans hp.type)
  charset := Option.some.inj (hq.charset.symm.trans hp.charset)
  encoding := Option.some.inj (hq.encoding.symm.trans hp.encoding)
  encryption := Option.some.inj (hq.encryption.symm.trans hp.encryption)
  compression := Option.some.inj (hq.compression.symm.trans hp.compression)
  header := hq.header.trans hp.header.symm
  payload := hq.payload.trans hp.payload.symm

theorem same_of_forall₂ (hps : List.Forall₂ Carries ps fs) (hqs : List.Forall₂ Carries qs fs) :
    List.Forall₂ Same ps qs := by
  induction hps generalizing qs with
  | nil =>
    obtain rfl : qs = [] := List.forall₂_nil_right_iff.mp hqs
    exact .nil
  | cons hp _ ih =>
    cases hqs with
    | cons hq hqs => exact .cons (same_of_carries hp hq) (ih hqs)

theorem made_frames (hps : ∀ p ∈ ps, Made p)
    (hbytes : List.Forall₂ (fun p f => p.getPacket = .ok f) ps fs) :
    (∀ f ∈ fs, wire.IsFrame f) ∧ List.Forall₂ Carries ps fs := by
  induction hbytes with
  | nil => exact ⟨by simp, .nil⟩
  | cons hf _ ih =>
    obtain ⟨hframe, hcarries⟩ := (hps _ (by simp)).carries hf
    obtain ⟨hframes, hall⟩ := ih fun p hp => hps p (by simp [hp])
    exact ⟨by simpa using ⟨hframe, hframes⟩, .cons hcarries hall⟩

/-- Where the rest of the stream so far is one or two bytes long, a packet has just begun. -/
theorem whole_iff_not_cutsPrefix (hfs : ∀ f ∈ fs, wire.IsFrame f)
    (hstream : cs.flatten = fs.flatten) :
    Whole [] cs ↔ ¬ CutsPrefix fs cs := by
  constructor
  · rintro hwhole ⟨pre, post, fs₁, f, fs₂, hcs, rfl, hlen⟩
    have hnot := hwhole pre post hcs
    rw [List.nil_append] at hnot
    have hf := hfs f (by simp)
    have hlarge : 12 ≤ f.length := (wire_size_eq_some.mp hf).1
    have hfs₁ : ∀ g ∈ fs₁, wire.IsFrame g := fun g hg => hfs g (by simp [hg])
    rw [hcs, List.flatten_append, List.flatten_append, List.flatten_cons] at hstream
    -- the chunks so far are the frames before `f` and the first bytes of `f`
    obtain ⟨k, hk⟩ : ∃ k, k = pre.flatten.length - fs₁.flatten.length := ⟨_, rfl⟩
    have hpre : pre.flatten = fs₁.flatten ++ f.take k := by
      have htake := congrArg (List.take (fs₁.flatten.length + k)) hstream
      rw [List.take_append_of_le_length (by omega), List.take_of_length_le (by omega),
        List.take_length_add_append, List.take_append_of_le_length (by omega)] at htake
      exact htake
    have hopen : wire.IsOpen (f.take k) := by
      apply Framer.isOpen_of_append (q := f.drop k) (by rwa [List.take_append_drop])
      intro hnil
      have := congrArg List.length hnil
      rw [List.length_drop, List.length_nil] at this
      omega
    rw [hpre, Framer.split_flatten_append hfs₁, Framer.split_open hopen, List.length_take] at hnot
    omega
  · intro hno pre post hcs
    rw [List.nil_append]
    by_contra hcut
    apply hno
    rw [hcs, List.flatten_append] at hstream
    obtain ⟨hs, rfl, hrest, -, -⟩ := Framer.split_of_flatten hfs hstream
    have hjoin := congrArg List.length (wire.split_join pre.flatten)
    rw [List.length_append] at hjoin
    -- the rest of the stream is the beginning of a frame that the next chunk goes on with
    cases hs with
    | nil =>
      have hnil := List.append_eq_nil_iff.mp hrest
      rw [hnil.1] at hcut
      simp at hcut
    | cons f fs₂ => exact ⟨pre, post, _, f, fs₂, hcs, rfl, by omega⟩

/-- A stream of made packets is reassembled exactly when it is not cut inside the first three
bytes of a packet. -/
theorem reassembles_iff (hs : Fresh s₀) (hps : ∀ p ∈ ps, Made p)
    (hbytes : List.Forall₂ (fun p f => p.getPacket = .ok f) ps fs)
    (hcs : ∀ bs ∈ cs, bs ≠ [] ∧ bs.length ≤ 1500) (hstream : cs.flatten = fs.flatten) :
    Reassembles s₀ ps cs ↔ ¬ CutsPrefix fs cs := by
  obtain ⟨hframes, hcarry⟩ := made_frames hps hbytes
  have hnone : s₀.completedPkts = [] := hs.init.1
  rw [← whole_iff_not_cutsPrefix hframes hstream]
  constructor
  · rintro ⟨s', calls, hrun, hcaught, hsame, -, -⟩
    have hall : s'.completedPkts.length = s₀.completedPkts.length + fs.length := by
      rw [hnone, ← hsame.length_eq, hcarry.length_eq]
      simp
    exact whole_of_completed hs.ready Framer.isOpen_nil hframes hstream hcs hrun hcaught hall
  · intro hwhole
    obtain ⟨-, s', calls, hrun, hcaught, hgrew, hready⟩ :=
      recvAll_of_whole hs.ready Framer.isOpen_nil hframes hstream hcs hwhole
    obtain ⟨qs, hqs, hcarry'⟩ := hgrew.completed
    rw [hnone, List.nil_append] at hqs
    refine ⟨s', calls, hrun, hcaught, ?_, ?_, hready.holds.index⟩
    · rw [hqs]
      exact same_of_forall₂ hcarry hcarry'
    · have htracks := hready.holds.tracks
      unfold Tracks at htracks
      split at htracks
      · assumption
      · exact absurd rfl htracks.1

theorem exists_letter (b : Byte) :
    ∃ p, Packet.ofPayload (some (Block.ofList [b])) 1 1 2 1 1 0 = .ok p ∧ Made p ∧
      p.getPacket = .ok (frameOf 1 2 1 0 1 [b]) := by
  have hold := Block.holdsAt_ofList [b]
  obtain ⟨p, hp, -, hcarries⟩ :=
    Packet.ofPayload_spec hold (by simp) (1 : Byte) (2 : Byte) (1 : Byte) (1 : Byte)
      (0 : Byte)
  exact ⟨p, hp, ⟨_, _, _, _, _, _, _, hold, by simp, by simp, hp⟩, hcarries.packet⟩

/-- Two packets of one letter in three chunks: the second chunk ends one packet, and has the first
four bytes of the next. -/
def letterChunks : List (List Byte) :=
  [[0xFF, 0, 9, 1, 2], [1, 0, 1, 0, 0, 0, 1, 0x61, 0xFF, 0, 9, 1], [2, 1, 0, 1, 0, 0, 0, 1, 0x62]]

theorem letterChunks_fit : ∀ bs ∈ letterChunks, bs ≠ [] ∧ bs.length ≤ 1500 := by decide

theorem letterChunks_whole : Whole [] letterChunks := by
  have hfirst : (wire.split ([] ++ [0xFF, 0, 9, 1, 2])).2 = [0xFF, 0, 9, 1, 2] := by decide
  have hsecond : (wire.split ([0xFF, 0, 9, 1, 2] ++
      [1, 0, 1, 0, 0, 0, 1, 0x61, 0xFF, 0, 9, 1])).2 = [0xFF, 0, 9, 1] := by decide
  have hthird : (wire.split ([0xFF, 0, 9, 1] ++ [2, 1, 0, 1, 0, 0, 0, 1, 0x62])).2 = [] := by decide
  apply Whole.cons Framer.isOpen_nil (by simp)
  rw [hfirst]
  apply Whole.cons (hfirst ▸ wire.split_rest_isOpen _) (by simp)
  rw [hsecond]
  apply Whole.cons (hsecond ▸ wire.split_rest_isOpen _) (by simp)
  rw [hthird]
  exact whole_nil

theorem letters_isFrame :
    ∀ g ∈ [frameOf 1 2 1 0 1 [0x61], frameOf 1 2 1 0 1 [0x62]], wire.IsFrame g := by
  intro g hg
  rcases List.mem_pair.mp hg with rfl | rfl
  · exact frameOf_isFrame (by simp) (by simp)
  · exact frameOf_isFrame (by simp) (by simp)

theorem letterChunks_run :
    (idle "127.0.0.1" 8000 5).Fits (letterChunks.map .data) ∧
      ∃ s calls, (idle "127.0.0.1" 8000 5).recvAll (letterChunks.map .data) = .ok (s, calls) ∧
        (∀ call ∈ calls, call.caught = none) ∧
        Grew (idle "127.0.0.1" 8000 5) s
          [frameOf 1 2 1 0 1 [0x61], frameOf 1 2 1 0 1 [0x62]] ∧ Ready s [] :=
  recvAll_of_whole (idle_fresh _ _ _).ready Framer.isOpen_nil letters_isFrame (by decide)
    letterChunks_fit letterChunks_whole

theorem reassembles_letters :
    ∃ p q, Packet.ofPayload (some (Block.ofList [0x61])) 1 1 2 1 1 0 = .ok p ∧
      Packet.ofPayload (some (Block.ofList [0x62])) 1 1 2 1 1 0 = .ok q ∧
      Reassembles (idle "127.0.0.1" 8000 5) [p, q] letterChunks := by
  obtain ⟨p, hp, hmade, hbytes⟩ := exists_letter 0x61
  obtain ⟨q, hq, hmade', hbytes'⟩ := exists_letter 0x62
  have hps : ∀ r ∈ [p, q], Made r := by simpa using ⟨hmade, hmade'⟩
  have hall : List.Forall₂ (fun r f => r.getPacket = .ok f) [p, q]
      [frameOf 1 2 1 0 1 [0x61], frameOf 1 2 1 0 1 [0x62]] := .cons hbytes (.cons hbytes' .nil)
  have hstream : letterChunks.flatten =
      [frameOf 1 2 1 0 1 [0x61], frameOf 1 2 1 0 1 [0x62]].flatten := by decide
  refine ⟨p, q, hp, hq,
    (reassembles_iff (idle_fresh _ _ _) hps hall letterChunks_fit hstream).mpr ?_⟩
  rw [← whole_iff_not_cutsPrefix (made_frames hps hall).1 hstream]
  exact letterChunks_whole

/-- A cut after the second byte: the second chunk does not begin with the marker, so that the
header branch is skipped and `rebuild_header` reads through the null header. -/
theorem not_reassembles_letter :
    ∃ p, Packet.ofPayload (some (Block.ofList [0x61])) 1 1 2 1 1 0 = .ok p ∧ Made p ∧
      p.getPacket = .ok ([[0xFF, 0], [9, 1, 2, 1, 0, 1, 0, 0, 0, 1, 0x61]].flatten) ∧
      ¬ Reassembles (idle "127.0.0.1" 8000 5) [p]
        [[0xFF, 0], [9, 1, 2, 1, 0, 1, 0, 0, 0, 1, 0x61]] := by
  obtain ⟨p, hp, hmade, hbytes⟩ := exists_letter 0x61
  refine ⟨p, hp, hmade, hbytes, ?_⟩
  rintro ⟨s', calls, hrun, hcaught, hsame, -, -⟩
  have hframe := (hmade.carries hbytes).1
  have hframes : ∀ f ∈ [([[0xFF, 0], [9, 1, 2, 1, 0, 1, 0, 0, 0, 1, 0x61]] :
      List (List Byte)).flatten], wire.IsFrame f := List.forall_mem_singleton.mpr hframe
  have hwhole := whole_of_completed (idle_fresh _ _ _).ready Framer.isOpen_nil hframes rfl
    (by decide) hrun hcaught (by simpa [idle] using hsame.length_eq.symm)
  exact absurd (hwhole [[0xFF, 0]] _ rfl) (by decide)

end RecvState

end P2Purr
