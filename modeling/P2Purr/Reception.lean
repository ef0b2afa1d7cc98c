import P2Purr.Verdict
import P2Purr.PeerConnHandler
import Mathlib.Data.List.Forall2

namespace P2Purr
open Memory Loop Framing

structure Partial (acc : List Byte) : Prop where
  marker : 3 ≤ acc.length → acc.head? = some 0xFF
  header_max : 3 ≤ acc.length → hdrField acc ≤ 65532
  body : hdrEnd acc < acc.length → Usable acc ∧ acc.length < frameSize acc

theorem Decoding.isPartial {p : Packet} {acc : List Byte} (h : Decoding p acc) : Partial acc where
  marker := h.marker
  header_max := h.header_max
  body := by
    intro hlt
    have h3 : 3 ≤ acc.length := by simp only [hdrEnd] at hlt; omega
    have hb := h.body h3 hlt
    exact ⟨hb.1, hb.2.1⟩

theorem partial_nil : Partial [] := ⟨by simp, by simp, by simp⟩

section Verdicts

variable {acc fresh s t : List Byte} {total L : ℕ}

theorem Partial.isOpen (h : Partial acc) : wire.IsOpen acc := by
  rw [wire_isOpen_iff]
  intro h12 _ hu
  by_cases hlt : hdrEnd acc < acc.length
  · exact (h.body hlt).2
  · have := hu.payload_pos
    simp only [frameSize]
    omega

/-- A frame is seen to be complete, unless its first three bytes came in two parts. -/
theorem verdict_of_frame (hwhole : acc.length ≠ 1 ∧ acc.length ≠ 2) (htotal : fresh.length ≤ total)
    (hL : wire.size (acc ++ fresh) = some L) (hle : L ≤ (acc ++ fresh).length) :
    verdict acc fresh total = .complete ((acc ++ fresh).take L) ((acc ++ fresh).drop L) := by
  obtain ⟨h12, hhead, hu, rfl⟩ := wire_size_eq_some.mp hL
  have hmin := hu.header_min
  have hmax := hu.header_max
  have hpos := hu.payload_pos
  have hsize := hu.size_lt
  have hframe : frameSize (acc ++ fresh) =
    hdrEnd (acc ++ fresh) + payloadField (acc ++ fresh) := rfl
  have hj := judged acc htotal
  generalize verdict acc fresh total = v at hj
  cases hj with
  | complete => rfl
  | unmarked hcut hne =>
    obtain rfl : acc = [] := List.eq_nil_of_length_eq_zero (by omega)
    exact absurd hhead hne
  | short => omega
  | resumed => omega
  | wraps => omega
  | overflows => omega
  | inHeader => omega
  | noHeader => omega
  | shortHeader => omega
  | noPayload => omega
  | inPayload => omega
  | stuck => omega
  | negative => omega

theorem frame_of_verdict (hacc : Partial acc) (htotal : fresh.length ≤ total)
    {frame rest : List Byte} (h : verdict acc fresh total = .complete frame rest) :
    (acc.length ≠ 1 ∧ acc.length ≠ 2) ∧ ∃ L, wire.size (acc ++ fresh) = some L ∧
      L ≤ (acc ++ fresh).length ∧ frame = (acc ++ fresh).take L ∧ rest = (acc ++ fresh).drop L := by
  have hj := judged acc htotal
  rw [h] at hj
  cases hj with
  | complete he hu hfits =>
    have hmin := hu.header_min
    refine ⟨he.whole, _, wire_size_eq_some.mpr ⟨?_, ?_, hu, rfl⟩, hfits, rfl, rfl⟩
    · simp only [frameSize, hdrEnd] at hfits
      omega
    · by_cases hnil : acc = []
      · subst hnil
        exact he.marked rfl
      · have := List.length_pos_iff.mpr hnil
        have := he.whole
        rw [List.head?_append, hacc.marker (by omega)]
        rfl

theorem Partial.length_le (hacc : Partial acc) (fresh : List Byte)
    (hwhole : acc.length ≠ 1 ∧ acc.length ≠ 2) :
    acc.length ≤ hdrEnd (acc ++ fresh) ∨
      Usable (acc ++ fresh) ∧ acc.length < frameSize (acc ++ fresh) := by
  by_cases hlt : hdrEnd acc < acc.length
  · obtain ⟨hu, hopen⟩ := hacc.body hlt
    have hmin := hu.header_min
    have h12 : 12 ≤ acc.length := by simp only [hdrEnd] at hlt; omega
    rw [usable_append h12, frameSize_append h12]
    exact Or.inr ⟨hu, hopen⟩
  · by_cases h3 : 3 ≤ acc.length
    · rw [hdrEnd_append h3]
      exact Or.inl (by omega)
    · exact Or.inl (by omega)

theorem drop_suffix_right {n : ℕ} (h : acc.length ≤ n) : (acc ++ fresh).drop n <:+ fresh := by
  rw [List.drop_append, List.drop_of_length_le h, List.nil_append]
  exact List.drop_suffix _ _

theorem rest_suffix (hacc : Partial acc) (htotal : fresh.length ≤ total) :
    match verdict acc fresh total with
    | .complete _ rest => rest <:+ fresh
    | .rejected _ _ rest => rest <:+ fresh
    | .stuck _ rest => rest <:+ fresh
    | _ => True := by
  have hj := judged acc htotal
  generalize verdict acc fresh total = v at hj
  have hsize : frameSize (acc ++ fresh) = hdrEnd (acc ++ fresh) + payloadField (acc ++ fresh) := rfl
  cases hj with
  | wraps => exact List.suffix_refl _
  | complete he =>
    apply drop_suffix_right
    rcases hacc.length_le fresh he.whole with h | h <;> omega
  | noHeader he hz =>
    apply drop_suffix_right
    refine (hacc.length_le fresh he.whole).resolve_right fun h => ?_
    have := h.1.header_min
    omega
  | noPayload he _ _ hn =>
    apply drop_suffix_right
    refine (hacc.length_le fresh he.whole).resolve_right fun h => ?_
    have := h.1.payload_pos
    omega
  | stuck he _ _ hbig =>
    apply drop_suffix_right
    refine (hacc.length_le fresh he.whole).resolve_right fun h => ?_
    have := h.1.size_lt
    omega
  | negative he _ _ hbig =>
    apply drop_suffix_right
    refine (hacc.length_le fresh he.whole).resolve_right fun h => ?_
    have := h.1.size_lt
    omega
  | _ => trivial

theorem rest_length_lt (hacc : Partial acc) (htotal : fresh.length ≤ total)
    {frame rest : List Byte} (h : verdict acc fresh total = .complete frame rest) :
    rest.length < fresh.length := by
  obtain ⟨hwhole, L, hL, hle, -, rfl⟩ := frame_of_verdict hacc htotal h
  obtain ⟨-, -, hu, rfl⟩ := wire_size_eq_some.mp hL
  have hpos := hu.payload_pos
  have hsize : frameSize (acc ++ fresh) = hdrEnd (acc ++ fresh) + payloadField (acc ++ fresh) := rfl
  rw [List.length_append] at hle
  rw [List.length_drop, List.length_append]
  rcases hacc.length_le fresh hwhole with h | h <;> omega

theorem kept_ne_nil (msg : String) {kept rest : List Byte} (htotal : fresh.length ≤ total)
    (h : verdict acc fresh total = .rejected msg kept rest ∨
      verdict acc fresh total = .stuck kept rest) : kept ≠ [] := by
  have hj := judged acc htotal
  have htake : ∀ s : List Byte, 3 ≤ s.length → ∀ n, s.take (n + 2) ≠ [] := by
    intro s hs n hnil
    have := congrArg List.length hnil
    rw [List.length_take, List.length_nil] at this
    omega
  rcases h with h | h
  · rw [h] at hj
    cases hj with
    | wraps he => exact htake _ he.three 0
    | noHeader he => exact htake _ he.three _
    | noPayload he => exact htake _ he.three _
    | negative he => exact htake _ he.three _
  · rw [h] at hj
    cases hj with
    | stuck he => exact htake _ he.three _

end Verdicts

namespace RecvState

def Tracks (s : RecvState) (acc : List Byte) : Prop :=
  match s.currentPkt with
  | none => acc = []
  | some p => acc ≠ [] ∧ Decoding p acc

/-- What receiving adds to a handler: packets with these frames, and their files. -/
structure Grew (s s' : RecvState) (frames : List (List Byte)) : Prop where
  sockHelper : s'.sockHelper = s.sockHelper
  buffSize : s'.buffSize = s.buffSize
  size : s'.recvBuffer.size = s.recvBuffer.size
  completed : ∃ ps, s'.completedPkts = s.completedPkts ++ ps ∧ List.Forall₂ Carries ps frames
  outFile : s'.outFile = frames.foldl OutFile.written s.outFile

theorem Grew.refl (s : RecvState) : Grew s s [] :=
  ⟨rfl, rfl, rfl, ⟨[], by simp, .nil⟩, rfl⟩

theorem Grew.trans {s s' s'' : RecvState} {fs gs : List (List Byte)} (h : Grew s s' fs)
    (h' : Grew s' s'' gs) : Grew s s'' (fs ++ gs) where
  sockHelper := h'.sockHelper.trans h.sockHelper
  buffSize := h'.buffSize.trans h.buffSize
  size := h'.size.trans h.size
  completed := by
    obtain ⟨ps, hps, hcarry⟩ := h.completed
    obtain ⟨qs, hqs, hcarry'⟩ := h'.completed
    exact ⟨ps ++ qs, by rw [hqs, hps, List.append_assoc], List.rel_append hcarry hcarry'⟩
  outFile := by rw [h'.outFile, h.outFile, List.foldl_append]

structure Filled (s : RecvState) (acc fresh : List Byte) (total : ℕ) : Prop where
  tracks : Tracks s acc
  index : s.currBuffIdx + fresh.length = total
  holds : s.recvBuffer.HoldsAt s.currBuffIdx fresh

variable {s s' : RecvState} {acc fresh : List Byte} {total : ℕ}

theorem Tracks.isPartial (h : Tracks s acc) : Partial acc := by
  unfold Tracks at h
  split at h
  · rw [h]
    exact partial_nil
  · exact h.2.isPartial

theorem Tracks.decoding (h : Tracks s acc) (total : ℤ) :
    Decoding (s.decoder total).pkt acc := by
  unfold Tracks at h
  unfold decoder
  cases hpkt : s.currentPkt with
  | none =>
    rw [hpkt] at h
    rw [h]
    exact decoding_newPacket _ _
  | some p =>
    rw [hpkt] at h
    exact h.2.congr rfl rfl rfl rfl rfl rfl

/-- One turn, in terms of the verdict. -/
theorem turn_spec (h : Filled s acc fresh total) (hne : fresh ≠ []) :
    match verdict acc fresh total with
    | .pending => ∃ s', turn total s = .ok s' ∧ Grew s s' [] ∧ Filled s' (acc ++ fresh) [] total
    | .complete frame rest => ∃ s', turn total s = .ok s' ∧ Grew s s' [frame] ∧
        Filled s' [] rest total
    | .rejected msg kept rest => ∃ s', turn total s = throwPacket msg s' ∧ Grew s s' [] ∧
        Tracks s' kept ∧ s'.currBuffIdx + rest.length = total
    | .stuck kept rest => ∃ s', turn total s = .ok s' ∧ Grew s s' [] ∧ Filled s' kept rest total
    | .fault f => turn total s = .error (.halt (.fault f)) := by
  have htotal : fresh.length ≤ total := by have := h.index; omega
  have hends := Decoder.rebuild_spec (d := s.decoder total) (h.tracks.decoding _) rfl h.index
    h.holds hne
  have hkept := @kept_ne_nil acc fresh total
  have hsuffix := rest_suffix h.tracks.isPartial htotal
  have hmove : ∀ (d : Decoder) (rest : List Byte), d.buffer = s.recvBuffer →
      d.currBuffIdx + rest.length = total → rest <:+ fresh →
      d.buffer.HoldsAt d.currBuffIdx rest := by
    intro d rest hbuffer hidx hrest
    rw [hbuffer]
    exact h.holds.suffix hrest (by rw [hidx, h.index])
  cases hv : verdict acc fresh total with
  | pending =>
    rw [hv] at hends
    obtain ⟨d', hd', ⟨hbuffer, hfile⟩, hdec, hidx, hbuilt⟩ := hends
    refine ⟨s.resume d', by simp [turn, hd', hbuilt],
      ⟨rfl, rfl, congrArg Block.size hbuffer, ⟨[], by simp [resume], .nil⟩, hfile⟩,
      ⟨by simp [hne], hdec⟩, hidx, Block.holdsAt_nil ?_⟩
    have hfits := h.holds.fits
    have hidx' : (s.resume d').currBuffIdx = total := hidx
    have hsize : (s.resume d').recvBuffer.size = s.recvBuffer.size := congrArg Block.size hbuffer
    have := h.index
    omega
  | complete frame rest =>
    rw [hv] at hends hsuffix
    obtain ⟨d', hd', hbuffer, hfile, hcarries, -, hidx⟩ := hends
    refine ⟨{ s.resume d' with completedPkts := s.completedPkts ++ [d'.pkt], currentPkt := none },
      by simp [turn, hd', hcarries.built],
      ⟨rfl, rfl, congrArg Block.size hbuffer, ⟨[d'.pkt], rfl, .cons hcarries .nil⟩, hfile⟩,
      rfl, hidx, hmove d' rest hbuffer hidx hsuffix⟩
  | rejected msg kept rest =>
    rw [hv] at hends
    obtain ⟨d', hd', ⟨hbuffer, hfile⟩, hdec, hidx⟩ := hends
    exact ⟨s.resume d', by simp [turn, hd', throwPacket],
      ⟨rfl, rfl, congrArg Block.size hbuffer, ⟨[], by simp [resume], .nil⟩, hfile⟩,
      ⟨hkept msg htotal (Or.inl hv), hdec⟩, hidx⟩
  | stuck kept rest =>
    rw [hv] at hends hsuffix
    obtain ⟨d', hd', ⟨hbuffer, hfile⟩, hdec, hidx, hbuilt⟩ := hends
    exact ⟨s.resume d', by simp [turn, hd', hbuilt],
      ⟨rfl, rfl, congrArg Block.size hbuffer, ⟨[], by simp [resume], .nil⟩, hfile⟩,
      ⟨hkept "" htotal (Or.inr hv), hdec⟩, hidx, hmove d' rest hbuffer hidx hsuffix⟩
  | fault f =>
    rw [hv] at hends
    change (s.decoder total).rebuild = _ at hends
    simp only [turn, hends]

end RecvState

def digest (acc fresh : List Byte) (total : ℕ) : List (List Byte) × Verdict :=
  if fresh = [] then ([], .pending)
  else
    match verdict acc fresh total with
    | .complete _ _ =>
      let p := wire.split (acc ++ fresh)
      (p.1, if p.2 = [] then .pending else verdict [] p.2 total)
    | v => ([], v)

section Digest

variable {acc fresh : List Byte} {total L : ℕ}

theorem digest_nil : digest acc [] total = ([], .pending) := by
  simp [digest]

theorem digest_of_verdict (hne : fresh ≠ [])
    (h : ∀ frame rest, verdict acc fresh total ≠ .complete frame rest) :
    digest acc fresh total = ([], verdict acc fresh total) := by
  unfold digest
  rw [if_neg hne]
  split
  next frame rest hv => exact absurd hv (h frame rest)
  next => rfl

theorem digest_complete (hne : fresh ≠ []) {frame rest : List Byte}
    (h : verdict acc fresh total = .complete frame rest) :
    digest acc fresh total = ((wire.split (acc ++ fresh)).1,
      if (wire.split (acc ++ fresh)).2 = [] then .pending
      else verdict [] (wire.split (acc ++ fresh)).2 total) := by
  unfold digest
  rw [if_neg hne, h]

theorem isOpen_of_verdict (hwhole : acc.length ≠ 1 ∧ acc.length ≠ 2)
    (htotal : fresh.length ≤ total)
    (h : ∀ frame rest, verdict acc fresh total ≠ .complete frame rest) :
    wire.IsOpen (acc ++ fresh) := by
  rcases wire.isOpen_or_complete (acc ++ fresh) with ho | ⟨L, hL, hle⟩
  · exact ho
  · exact absurd (verdict_of_frame hwhole htotal hL hle) (h _ _)

theorem digest_cons (hacc : Partial acc) (htotal : fresh.length ≤ total) (hne : fresh ≠ [])
    {frame rest : List Byte} (h : verdict acc fresh total = .complete frame rest) :
    digest acc fresh total = (frame :: (digest [] rest total).1, (digest [] rest total).2) := by
  obtain ⟨-, L, hL, hle, rfl, rfl⟩ := frame_of_verdict hacc htotal h
  have hrest : ((acc ++ fresh).drop L).length ≤ total := by
    have hsuffix := rest_suffix hacc htotal
    rw [h] at hsuffix
    exact hsuffix.length_le.trans htotal
  rw [digest_complete hne h, Framer.split_complete hL hle]
  simp only
  by_cases hnil : (acc ++ fresh).drop L = []
  · rw [hnil, digest_nil, Framer.split_nil, if_pos rfl]
  by_cases hv : ∃ frame' rest', verdict [] ((acc ++ fresh).drop L) total = .complete frame' rest'
  · obtain ⟨frame', rest', hv⟩ := hv
    rw [digest_complete hnil hv, List.nil_append]
  · have hv' : ∀ frame' rest', verdict [] ((acc ++ fresh).drop L) total ≠ .complete frame' rest' :=
      fun frame' rest' hv' => hv ⟨frame', rest', hv'⟩
    have hopen := isOpen_of_verdict (by simp) hrest hv'
    rw [List.nil_append] at hopen
    rw [digest_of_verdict hnil hv', Framer.split_open hopen, if_neg hnil]

/-- The unfinished frame that a buffer ends with: what was kept of it, and what is fresh. -/
def unfinished (acc fresh : List Byte) : List Byte × List Byte :=
  if (wire.split (acc ++ fresh)).1 = [] ∨ acc.length = 1 ∨ acc.length = 2 then (acc, fresh)
  else ([], (wire.split (acc ++ fresh)).2)

/-- The frames that complete; none do when a frame's first three bytes came in two parts. -/
def finished (acc fresh : List Byte) : List (List Byte) :=
  if acc.length = 1 ∨ acc.length = 2 then [] else (wire.split (acc ++ fresh)).1

theorem unfinished_kept (h : wire.IsOpen (acc ++ fresh) ∨ acc.length = 1 ∨ acc.length = 2) :
    unfinished acc fresh = (acc, fresh) ∧ finished acc fresh = [] := by
  rw [← Framer.split_eq_nil_iff] at h
  refine ⟨if_pos h, ?_⟩
  unfold finished
  by_cases hcut : acc.length = 1 ∨ acc.length = 2
  · rw [if_pos hcut]
  · rw [if_neg hcut]
    exact h.resolve_right hcut

theorem unfinished_new (hopen : ¬ wire.IsOpen (acc ++ fresh))
    (hwhole : acc.length ≠ 1 ∧ acc.length ≠ 2) :
    unfinished acc fresh = ([], (wire.split (acc ++ fresh)).2) ∧
      finished acc fresh = (wire.split (acc ++ fresh)).1 := by
  rw [← Framer.split_eq_nil_iff] at hopen
  refine ⟨if_neg ?_, if_neg (by omega)⟩
  rintro (h | h)
  · exact hopen h
  · omega

theorem digest_eq (hacc : Partial acc) (htotal : fresh.length ≤ total) :
    digest acc fresh total = (finished acc fresh,
      if (unfinished acc fresh).2 = [] then .pending
      else verdict (unfinished acc fresh).1 (unfinished acc fresh).2 total) := by
  by_cases hne : fresh = []
  · subst hne
    have hopen : wire.IsOpen (acc ++ []) := by
      rw [List.append_nil]
      exact hacc.isOpen
    obtain ⟨hu, hf⟩ := unfinished_kept (Or.inl hopen)
    rw [digest_nil, hu, hf, if_pos rfl]
  by_cases hkept : wire.IsOpen (acc ++ fresh) ∨ acc.length = 1 ∨ acc.length = 2
  · have hv : ∀ frame rest, verdict acc fresh total ≠ .complete frame rest := by
      intro frame rest hv
      obtain ⟨hwhole, L, hL, hle, -⟩ := frame_of_verdict hacc htotal hv
      rcases hkept with hopen | hcut
      · have := hopen L hL
        omega
      · omega
    obtain ⟨hu, hf⟩ := unfinished_kept hkept
    rw [digest_of_verdict hne hv, hu, hf, if_neg hne]
  · have hopen : ¬ wire.IsOpen (acc ++ fresh) := fun h => hkept (Or.inl h)
    have hwhole : acc.length ≠ 1 ∧ acc.length ≠ 2 := by omega
    obtain ⟨L, hL, hle⟩ := (wire.isOpen_or_complete (acc ++ fresh)).resolve_left hopen
    obtain ⟨hu, hf⟩ := unfinished_new hopen hwhole
    rw [digest_complete hne (verdict_of_frame hwhole htotal hL hle), hu, hf]

theorem unfinished_isPartial (hacc : Partial acc) : Partial (unfinished acc fresh).1 := by
  unfold unfinished
  split
  · exact hacc
  · exact partial_nil

theorem unfinished_suffix (hacc : Partial acc) (fresh : List Byte) :
    (unfinished acc fresh).2 <:+ fresh := by
  by_cases hkept : wire.IsOpen (acc ++ fresh) ∨ acc.length = 1 ∨ acc.length = 2
  · simp [(unfinished_kept hkept).1]
  · -- some frame completes, and it is not part of what was kept
    have hopen : ¬ wire.IsOpen (acc ++ fresh) := fun h => hkept (Or.inl h)
    have hwhole : acc.length ≠ 1 ∧ acc.length ≠ 2 := by omega
    obtain ⟨L, hL, hle⟩ := (wire.isOpen_or_complete (acc ++ fresh)).resolve_left hopen
    have hrest := rest_suffix hacc (le_refl fresh.length)
    rw [verdict_of_frame hwhole le_rfl hL hle] at hrest
    rw [(unfinished_new hopen hwhole).1, Framer.split_complete hL hle]
    exact (Framer.split_rest_suffix _).trans hrest

theorem unfinished_length_le (hacc : Partial acc) (fresh : List Byte) :
    (unfinished acc fresh).2.length ≤ fresh.length := (unfinished_suffix hacc fresh).length_le

/-- Bytes that no access of the decoder goes wrong on. -/
structure Sound (acc fresh : List Byte) (total : ℕ) : Prop where
  marked : acc.length < 3 → 3 ≤ total → fresh.head? = some 0xFF
  whole : 3 ≤ (acc ++ fresh).length → acc.length ≠ 1 ∧ acc.length ≠ 2
  header_max : 3 ≤ (acc ++ fresh).length → hdrField (acc ++ fresh) ≤ 65533
  header_min : hdrEnd (acc ++ fresh) < (acc ++ fresh).length →
    hdrField (acc ++ fresh) = 0 ∨ 9 ≤ hdrField (acc ++ fresh)

theorem verdict_fault_iff (acc : List Byte) (htotal : fresh.length ≤ total) :
    (∃ f, verdict acc fresh total = .fault f) ↔ ¬ Sound acc fresh total := by
  have hj := judged acc htotal
  generalize verdict acc fresh total = v at hj
  have hmarked : Entered acc fresh → acc.length < 3 → 3 ≤ total → fresh.head? = some 0xFF := by
    intro he hcut _
    have := he.whole
    exact he.marked (List.eq_nil_of_length_eq_zero (by omega))
  -- the marker is there whenever the header branch is entered
  have hsound : Entered acc fresh → hdrField (acc ++ fresh) ≤ 65533 →
      (hdrEnd (acc ++ fresh) < (acc ++ fresh).length →
        hdrField (acc ++ fresh) = 0 ∨ 9 ≤ hdrField (acc ++ fresh)) → ¬ ¬ Sound acc fresh total :=
    fun he hmax hmin => not_not.mpr ⟨hmarked he, fun _ => he.whole, fun _ => hmax, hmin⟩
  cases hj with
  | unmarked hcut hhead h3 => exact iff_of_true ⟨_, rfl⟩ fun h => hhead (h.marked hcut h3)
  | resumed h3 hcut =>
    refine iff_of_true ⟨_, rfl⟩ fun h => ?_
    have := h.whole h3
    omega
  | overflows he hover =>
    refine iff_of_true ⟨_, rfl⟩ fun h => ?_
    have := h.header_max he.three
    omega
  | shortHeader he hz hlt hlen =>
    refine iff_of_true ⟨_, rfl⟩ fun h => ?_
    have := h.header_min hlen
    omega
  | short hlt hhead =>
    refine iff_of_false (by simp) (not_not.mpr ⟨fun _ => hhead, by omega, by omega, fun h => ?_⟩)
    simp only [hdrEnd] at h
    omega
  | wraps he hw => exact iff_of_false (by simp) (hsound he (by omega) fun _ => Or.inr (by omega))
  | inHeader he hmax hle => exact iff_of_false (by simp) (hsound he (by omega) fun _ => by omega)
  | noHeader he hz => exact iff_of_false (by simp) (hsound he (by omega) fun _ => Or.inl hz)
  | noPayload he hmin => exact iff_of_false (by simp) (hsound he (by omega) fun _ => Or.inr hmin)
  | complete he hu =>
    have := hu.header_max
    exact iff_of_false (by simp) (hsound he (by omega) fun _ => Or.inr hu.header_min)
  | inPayload he hu =>
    have := hu.header_max
    exact iff_of_false (by simp) (hsound he (by omega) fun _ => Or.inr hu.header_min)
  | stuck he hmin => exact iff_of_false (by simp) (hsound he (by omega) fun _ => Or.inr hmin)
  | negative he hmin => exact iff_of_false (by simp) (hsound he (by omega) fun _ => Or.inr hmin)

/-- An announced length that makes the frame's length no `int`, while the payload's still is one. -/
structure Overlong (acc fresh : List Byte) : Prop where
  entered : Entered acc fresh
  header_min : 9 ≤ hdrField (acc ++ fresh)
  header_max : hdrField (acc ++ fresh) ≤ 65532
  size_ge : 2 ^ 31 ≤ frameSize (acc ++ fresh)
  payload_lt : payloadField (acc ++ fresh) < 2 ^ 31
  begun : hdrEnd (acc ++ fresh) < (acc ++ fresh).length

theorem Overlong.ne_nil (h : Overlong acc fresh) (hacc : Partial acc) : fresh ≠ [] := by
  rintro rfl
  have hbegun := h.begun
  have hsize := h.size_ge
  rw [List.append_nil] at hbegun hsize
  have := (hacc.body hbegun).1.size_lt
  omega

theorem verdict_stuck_iff (acc : List Byte) (htotal : fresh.length ≤ total) :
    (∃ kept rest, verdict acc fresh total = .stuck kept rest) ↔ Overlong acc fresh := by
  have hj := judged acc htotal
  generalize verdict acc fresh total = v at hj
  have hsize : frameSize (acc ++ fresh) = hdrEnd (acc ++ fresh) + payloadField (acc ++ fresh) := rfl
  have hend : hdrEnd (acc ++ fresh) = hdrField (acc ++ fresh) + 3 := rfl
  cases hj with
  | stuck he hmin hmax hbig hn hlen =>
    exact iff_of_true ⟨_, _, rfl⟩ ⟨he, hmin, hmax, hbig, hn, hlen⟩
  | unmarked hcut hhead h3 =>
    refine iff_of_false (by simp) (fun h => hhead (h.entered.marked ?_))
    have := h.entered.whole
    exact List.eq_nil_of_length_eq_zero (by omega)
  | short hlt => exact iff_of_false (by simp) (fun h => by have := h.entered.three; omega)
  | resumed _ hcut => exact iff_of_false (by simp) (fun h => by have := h.entered.whole; omega)
  | wraps _ hw => exact iff_of_false (by simp) (fun h => by have := h.header_max; omega)
  | overflows _ hw => exact iff_of_false (by simp) (fun h => by have := h.header_max; omega)
  | inHeader _ _ hle => exact iff_of_false (by simp) (fun h => by have := h.begun; omega)
  | noHeader _ hz => exact iff_of_false (by simp) (fun h => by have := h.header_min; omega)
  | shortHeader _ _ hlt => exact iff_of_false (by simp) (fun h => by have := h.header_min; omega)
  | noPayload _ _ _ hn => exact iff_of_false (by simp) (fun h => by have := h.size_ge; omega)
  | complete _ hu =>
    exact iff_of_false (by simp) (fun h => by have := h.size_ge; have := hu.size_lt; omega)
  | inPayload _ hu =>
    exact iff_of_false (by simp) (fun h => by have := h.size_ge; have := hu.size_lt; omega)
  | negative _ _ _ hneg => exact iff_of_false (by simp) (fun h => by have := h.payload_lt; omega)

/-- Announced lengths that make `rebuild` throw: of a header with which the three bytes before
it wrap to nothing, or, once more than the header is there, of no header, of no payload, or of a
payload that is negative as an `int`. -/
structure Rejected (acc fresh : List Byte) : Prop where
  entered : Entered acc fresh
  lengths : hdrField (acc ++ fresh) = 65533 ∨
    hdrEnd (acc ++ fresh) < (acc ++ fresh).length ∧ (hdrField (acc ++ fresh) = 0 ∨
      9 ≤ hdrField (acc ++ fresh) ∧ hdrField (acc ++ fresh) ≤ 65532 ∧
        (payloadField (acc ++ fresh) = 0 ∨ 2 ^ 31 ≤ payloadField (acc ++ fresh)))

theorem Rejected.ne_nil (h : Rejected acc fresh) (hacc : Partial acc) : fresh ≠ [] := by
  rintro rfl
  have hthree := h.entered.three
  have hlengths := h.lengths
  rw [List.append_nil] at hthree hlengths
  have hmax := hacc.header_max hthree
  rcases hlengths with hw | ⟨hbegun, hlengths⟩
  · omega
  · have hu := (hacc.body hbegun).1
    have := hu.header_min
    have := hu.payload_pos
    have := hu.size_lt
    have hsize : frameSize acc = hdrEnd acc + payloadField acc := rfl
    omega

theorem verdict_rejected_iff (acc : List Byte) (htotal : fresh.length ≤ total) :
    (∃ msg kept rest, verdict acc fresh total = .rejected msg kept rest) ↔ Rejected acc fresh := by
  have hj := judged acc htotal
  generalize verdict acc fresh total = v at hj
  have hsize : frameSize (acc ++ fresh) = hdrEnd (acc ++ fresh) + payloadField (acc ++ fresh) := rfl
  have hend : hdrEnd (acc ++ fresh) = hdrField (acc ++ fresh) + 3 := rfl
  cases hj with
  | wraps he hw => exact iff_of_true ⟨_, _, _, rfl⟩ ⟨he, Or.inl hw⟩
  | noHeader he hz hlen => exact iff_of_true ⟨_, _, _, rfl⟩ ⟨he, Or.inr ⟨hlen, Or.inl hz⟩⟩
  | noPayload he hmin hmax hn hlen =>
    exact iff_of_true ⟨_, _, _, rfl⟩ ⟨he, Or.inr ⟨hlen, Or.inr ⟨hmin, hmax, Or.inl hn⟩⟩⟩
  | negative he hmin hmax hn hlen =>
    exact iff_of_true ⟨_, _, _, rfl⟩ ⟨he, Or.inr ⟨hlen, Or.inr ⟨hmin, hmax, Or.inr hn⟩⟩⟩
  | unmarked hcut hhead h3 =>
    refine iff_of_false (by simp) (fun h => hhead (h.entered.marked ?_))
    have := h.entered.whole
    exact List.eq_nil_of_length_eq_zero (by omega)
  | short hlt => exact iff_of_false (by simp) (fun h => by have := h.entered.three; omega)
  | resumed _ hcut => exact iff_of_false (by simp) (fun h => by have := h.entered.whole; omega)
  | overflows _ hw => exact iff_of_false (by simp) (fun h => by have := h.lengths; omega)
  | inHeader _ _ hle => exact iff_of_false (by simp) (fun h => by have := h.lengths; omega)
  | shortHeader _ _ hlt => exact iff_of_false (by simp) (fun h => by have := h.lengths; omega)
  | complete _ hu =>
    refine iff_of_false (by simp) (fun h => ?_)
    have := h.lengths
    have := hu.header_min
    have := hu.header_max
    have := hu.payload_pos
    have := hu.size_lt
    omega
  | inPayload _ hu =>
    refine iff_of_false (by simp) (fun h => ?_)
    have := h.lengths
    have := hu.header_min
    have := hu.header_max
    have := hu.payload_pos
    have := hu.size_lt
    omega
  | stuck _ _ _ hbig hn => exact iff_of_false (by simp) (fun h => by have := h.lengths; omega)

theorem rejected_rest_ne_nil (htotal : fresh.length ≤ total) (hne : fresh ≠ []) {msg : String}
    {kept rest : List Byte} (h : verdict acc fresh total = .rejected msg kept rest) :
    rest ≠ [] := by
  have hj := judged acc htotal
  rw [h] at hj
  have hdrop : ∀ n, n < (acc ++ fresh).length → (acc ++ fresh).drop n ≠ [] := by
    intro n hn hnil
    have := congrArg List.length hnil
    rw [List.length_drop, List.length_nil] at this
    omega
  cases hj with
  | wraps => exact hne
  | noHeader _ _ hlen => exact hdrop _ hlen
  | noPayload _ _ _ _ hlen => exact hdrop _ hlen
  | negative _ _ _ _ hlen => exact hdrop _ hlen

theorem stuck_rest_ne_nil (htotal : fresh.length ≤ total) {kept rest : List Byte}
    (h : verdict acc fresh total = .stuck kept rest) : rest ≠ [] := by
  have hj := judged acc htotal
  rw [h] at hj
  cases hj with
  | stuck _ _ _ _ _ hlen =>
    apply List.ne_nil_of_length_pos
    rw [List.length_drop]
    omega

theorem digest_rest_ne_nil (hacc : Partial acc) (htotal : fresh.length ≤ total) {msg : String}
    {kept rest : List Byte} (h : (digest acc fresh total).2 = .rejected msg kept rest) :
    rest ≠ [] := by
  have hlen := unfinished_length_le hacc fresh
  rw [digest_eq hacc htotal] at h
  by_cases hnil : (unfinished acc fresh).2 = []
  · simp [hnil] at h
  · simp only [hnil, ↓reduceIte] at h
    exact rejected_rest_ne_nil (hlen.trans htotal) hnil h

/-- Kept bytes that no more bytes make a frame of. -/
def Dead (kept : List Byte) : Prop := kept.length = 2 ∨ ∀ t, ¬ Usable (kept ++ t)

theorem dead_of_rejected (htotal : fresh.length ≤ total) {msg : String} {kept rest : List Byte}
    (h : verdict acc fresh total = .rejected msg kept rest) : Dead kept := by
  have hj := judged acc htotal
  rw [h] at hj
  have htake : ∀ n, n < (acc ++ fresh).length → ((acc ++ fresh).take n).length = n := by
    intro n hn
    rw [List.length_take]
    omega
  have hend : hdrEnd (acc ++ fresh) = hdrField (acc ++ fresh) + 3 := rfl
  have hpayload : 9 ≤ hdrField (acc ++ fresh) → hdrEnd (acc ++ fresh) < (acc ++ fresh).length →
      ∀ t, payloadField ((acc ++ fresh).take (hdrEnd (acc ++ fresh)) ++ t) =
        payloadField (acc ++ fresh) := by
    intro hmin hlen t
    rw [payloadField_append (by rw [htake _ hlen]; omega), payloadField_take (by omega) hlen.le]
  cases hj with
  | wraps he =>
    have := he.three
    exact Or.inl (htake 2 (by omega))
  | noHeader he hz hlen =>
    refine Or.inr fun t hu => ?_
    have hmin := hu.header_min
    rw [hdrField_append (by rw [htake _ hlen]; omega), hdrField_take (by omega) hlen.le] at hmin
    omega
  | noPayload he hmin hmax hn hlen =>
    refine Or.inr fun t hu => ?_
    have hpos := hu.payload_pos
    rw [hpayload hmin hlen] at hpos
    omega
  | negative he hmin hmax hn hlen =>
    refine Or.inr fun t hu => ?_
    have hlt := hu.size_lt
    rw [frameSize, hpayload hmin hlen] at hlt
    omega

/-- Nothing completes behind dead bytes. -/
theorem finished_of_dead (h : Dead acc) : finished acc fresh = [] := by
  rcases h with h | h
  · exact if_pos (Or.inr h)
  · have hopen : wire.IsOpen (acc ++ fresh) := wire_isOpen_iff.mpr fun _ _ hu => absurd hu (h fresh)
    exact (unfinished_kept (Or.inl hopen)).2

end Digest

namespace RecvState

variable {s s' : RecvState} {acc fresh : List Byte} {total : ℕ}

theorem guard_iff (h : Filled s acc fresh total) : guard total s = true ↔ fresh ≠ [] := by
  have := h.index
  rw [guard, decide_eq_true_eq, ← List.length_pos_iff]
  omega

theorem recvLoop_of_nil (h : Filled s acc [] total) (n : ℕ) : s.recvLoop total n = .ok s := by
  apply whileLoop_exit
  rw [Bool.eq_false_iff, ne_eq, guard_iff h]
  simp

theorem turn_complete (h : Filled s acc fresh total) (hne : fresh ≠ []) {frame rest : List Byte}
    (hv : verdict acc fresh total = .complete frame rest) :
    ∃ s', turn total s = .ok s' ∧ Grew s s' [frame] ∧ Filled s' [] rest total := by
  have hturn := turn_spec h hne
  rwa [hv] at hturn

/-- A stuck packet stays as it is, and the index with it. -/
theorem verdict_stuck_again (hacc : Partial acc) (htotal : fresh.length ≤ total)
    {kept rest : List Byte} (hv : verdict acc fresh total = .stuck kept rest) :
    verdict kept rest total = .stuck kept rest := by
  have hj := judged acc htotal
  have hsuffix := rest_suffix hacc htotal
  rw [hv] at hj hsuffix
  cases hj with
  | stuck he hmin hmax hbig hn hlen =>
    have hjoin := List.take_append_drop (hdrEnd (acc ++ fresh)) (acc ++ fresh)
    have htake : ((acc ++ fresh).take (hdrEnd (acc ++ fresh))).length = hdrEnd (acc ++ fresh) := by
      rw [List.length_take]
      omega
    have hend : 12 ≤ hdrEnd (acc ++ fresh) := by simp only [hdrEnd]; omega
    have hj' := judged ((acc ++ fresh).take (hdrEnd (acc ++ fresh)))
      (hsuffix.length_le.trans htotal)
    generalize hv' : verdict ((acc ++ fresh).take (hdrEnd (acc ++ fresh)))
      ((acc ++ fresh).drop (hdrEnd (acc ++ fresh))) total = v at hj'
    cases hj' with
    | stuck => simp only [hjoin]
    | unmarked => omega
    | short hlt => rw [hjoin] at hlt; omega
    | resumed => omega
    | wraps _ hw => rw [hjoin] at hw; omega
    | overflows _ hw => rw [hjoin] at hw; omega
    | inHeader _ _ hle => rw [hjoin] at hle; omega
    | noHeader _ hz => rw [hjoin] at hz; omega
    | shortHeader _ _ hz => rw [hjoin] at hz; omega
    | noPayload _ _ _ hz =>
      rw [hjoin] at hz
      simp only [frameSize, hdrEnd] at hbig
      omega
    | complete _ hu => have := hu.size_lt; rw [hjoin] at this; omega
    | inPayload _ hu => have := hu.size_lt; rw [hjoin] at this; omega
    | negative _ _ _ hneg => rw [hjoin] at hneg; omega

/-- Once a packet is stuck, the loop never ends. -/
theorem recvLoop_stuck (h : Filled s acc fresh total) {kept rest : List Byte}
    (hv : verdict acc fresh total = .stuck kept rest) (hne : rest ≠ []) (n : ℕ) :
    s.recvLoop total n = .error (.halt .hang) := by
  have htotal : fresh.length ≤ total := by have := h.index; omega
  have hsuffix := rest_suffix h.tracks.isPartial htotal
  rw [hv] at hsuffix
  have hfresh : fresh ≠ [] := fun hnil => hne (List.suffix_nil.mp (hnil ▸ hsuffix))
  have hagain := verdict_stuck_again h.tracks.isPartial htotal hv
  cases n with
  | zero => simp [recvLoop, whileLoop, (guard_iff h).mpr hfresh]
  | succ n =>
    have hturn := turn_spec h hfresh
    rw [hv] at hturn
    obtain ⟨s₁, hs₁, -, hfilled₁⟩ := hturn
    rw [recvLoop, whileLoop_turn ((guard_iff h).mpr hfresh) hs₁]
    -- every further turn finds the same bytes and stops at the same one
    apply whileLoop_diverges (fun s => Filled s kept rest total)
    · intro s hs
      have hturn' := turn_spec hs hne
      rw [hagain] at hturn'
      obtain ⟨s₂, hs₂, -, hfilled₂⟩ := hturn'
      exact ⟨(guard_iff hs).mpr hne, s₂, hs₂, hfilled₂⟩
    · exact hfilled₁

/-- What the loop does, when it is allowed a turn for every fresh byte. -/
theorem recvLoop_spec (h : Filled s acc fresh total) {n : ℕ} (hn : fresh.length ≤ n) :
    match digest acc fresh total with
    | (frames, .pending) => ∃ s', s.recvLoop total n = .ok s' ∧ Grew s s' frames ∧
        Tracks s' (wire.split (acc ++ fresh)).2 ∧ s'.currBuffIdx = total
    | (frames, .rejected msg kept rest) => ∃ s', s.recvLoop total n = throwPacket msg s' ∧
        Grew s s' frames ∧ Tracks s' kept ∧ s'.currBuffIdx + rest.length = total
    | (_, .fault f) => s.recvLoop total n = .error (.halt (.fault f))
    | (_, .stuck _ _) => ∀ m, s.recvLoop total m = .error (.halt .hang)
    | (_, .complete _ _) => False := by
  -- by induction on the fresh bytes, of which a complete frame takes some
  induction hlen : fresh.length using Nat.strongRecOn generalizing acc fresh s n with
  | ind len ih =>
  have hacc := h.tracks.isPartial
  have htotal : fresh.length ≤ total := by have := h.index; omega
  by_cases hne : fresh = []
  · subst hne
    rw [digest_nil]
    refine ⟨s, recvLoop_of_nil h n, Grew.refl s, ?_, by simpa using h.index⟩
    rw [List.append_nil, Framer.split_open hacc.isOpen]
    exact h.tracks
  obtain ⟨n, rfl⟩ : ∃ k, n = k + 1 := ⟨n - 1, by have := List.length_pos_iff.mpr hne; omega⟩
  have hguard := (guard_iff h).mpr hne
  have hturn := turn_spec h hne
  cases hv : verdict acc fresh total with
  | complete frame rest =>
    obtain ⟨s₁, hs₁, hgrew₁, hfilled₁⟩ := turn_complete h hne hv
    have hlt := rest_length_lt hacc htotal hv
    have hstep : ∀ m, s.recvLoop total (m + 1) = s₁.recvLoop total m :=
      fun m => whileLoop_turn hguard hs₁
    -- the packet is done, and the loop goes on with fewer bytes
    have hrest := ih rest.length (by omega) hfilled₁ (n := n) (by omega) rfl
    have hsplit : (wire.split (acc ++ fresh)).2 = (wire.split ([] ++ rest)).2 := by
      obtain ⟨-, L, hL, hle, -, rfl⟩ := frame_of_verdict hacc htotal hv
      rw [Framer.split_complete hL hle, List.nil_append]
    rw [digest_cons hacc htotal hne hv, hsplit]
    generalize digest [] rest total = result at hrest
    obtain ⟨frames, last⟩ := result
    cases last with
    | pending =>
      obtain ⟨s', hs', hgrew, htracks, hidx⟩ := hrest
      exact ⟨s', (hstep n).trans hs', hgrew₁.trans hgrew, htracks, hidx⟩
    | rejected msg kept left =>
      obtain ⟨s', hs', hgrew, htracks, hidx⟩ := hrest
      exact ⟨s', (hstep n).trans hs', hgrew₁.trans hgrew, htracks, hidx⟩
    | stuck kept left =>
      intro m
      cases m with
      | zero => simp [recvLoop, whileLoop, hguard]
      | succ m => exact (hstep m).trans (hrest m)
    | fault f => exact (hstep n).trans hrest
    | complete frame' rest' => exact hrest
  | pending =>
    rw [hv] at hturn
    obtain ⟨s₁, hs₁, hgrew, hfilled⟩ := hturn
    have hopen := hfilled.tracks.isPartial.isOpen
    rw [digest_of_verdict hne (by simp [hv]), hv]
    refine ⟨s₁, ?_, hgrew, ?_, by simpa using hfilled.index⟩
    · rw [recvLoop, whileLoop_turn hguard hs₁]
      exact recvLoop_of_nil hfilled n
    · rw [Framer.split_open hopen]
      exact hfilled.tracks
  | rejected msg kept rest =>
    rw [hv] at hturn
    obtain ⟨s₁, hs₁, hgrew, htracks, hidx⟩ := hturn
    rw [digest_of_verdict hne (by simp [hv]), hv]
    exact ⟨s₁, whileLoop_stop hguard hs₁, hgrew, htracks, hidx⟩
  | stuck kept rest =>
    rw [digest_of_verdict hne (by simp [hv]), hv]
    exact recvLoop_stuck h hv (stuck_rest_ne_nil htotal hv)
  | fault f =>
    rw [hv] at hturn
    rw [digest_of_verdict hne (by simp [hv]), hv]
    exact whileLoop_stop hguard hturn

end RecvState

end P2Purr
