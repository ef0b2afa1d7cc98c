import P2Purr.Reassembly
import Mathlib.Data.List.Induction
import Mathlib.Logic.Relation

namespace P2Purr
open Memory Loop Framing

namespace RecvState

variable {s s' s₀ : RecvState} {c : Conn} {acc fresh bs : List Byte} {total : ℕ}
  {rs : List RecvResult}

/-- A run goes wrong in the first call that receives bytes it is not sound on. -/
theorem recvAll_fault_iff (h : Holds s c) (hf : s.Fits rs) :
    (∃ f, s.recvAll rs = .error (.fault f)) ↔
      ∃ pre bs post s' calls, rs = pre ++ .data bs :: post ∧ s.recvAll pre = .ok (s', calls) ∧
        ¬ (c.after pre).IsSound bs := by
  induction rs generalizing s c with
  | nil => simp
  | cons r rs ih =>
    have hcall := recvPkt_fault_iff h hf.1
    constructor
    · rintro ⟨f, hrun⟩
      cases hr : s.recvPkt r with
      | error e =>
        rw [recvAll_cons_error hr] at hrun
        obtain rfl : e = .fault f := by simpa using hrun
        obtain ⟨bs, rfl, hbad⟩ := hcall.mp ⟨f, hr⟩
        exact ⟨[], bs, rs, s, [], rfl, rfl, hbad⟩
      | ok p =>
        obtain ⟨s₁, call⟩ := p
        have hrest : ∃ f, s₁.recvAll rs = .error (.fault f) := by
          rw [recvAll_cons_ok hr] at hrun
          cases hq : s₁.recvAll rs with
          | ok q => simp [hq] at hrun
          | error e => exact ⟨f, by simpa [hq] using hrun⟩
        obtain ⟨pre, bs, post, s', calls, rfl, hpre, hbad⟩ :=
          (ih (recvPkt_next h hf.1 hr) (hf.2 s₁ call hr)).mp hrest
        refine ⟨r :: pre, bs, post, s', call :: calls, rfl, ?_, hbad⟩
        rw [recvAll_cons_ok hr, hpre]
        rfl
    · rintro ⟨pre, bs, post, s', calls, hsplit, hpre, hbad⟩
      cases pre with
      | nil =>
        obtain ⟨rfl, rfl⟩ : r = .data bs ∧ rs = post := by simpa using hsplit
        obtain ⟨f, hr⟩ := hcall.mpr ⟨bs, rfl, hbad⟩
        exact ⟨f, recvAll_cons_error hr⟩
      | cons r' pre =>
        obtain ⟨rfl, rfl⟩ : r = r' ∧ rs = pre ++ .data bs :: post := by simpa using hsplit
        obtain ⟨s₁, call, calls', hr, hq, -⟩ := recvAll_cons_inv hpre
        obtain ⟨f, hrest⟩ := (ih (recvPkt_next h hf.1 hr) (hf.2 s₁ call hr)).mpr
          ⟨pre, bs, post, s', calls', rfl, hq, hbad⟩
        exact ⟨f, by rw [recvAll_cons_ok hr, hrest, error_bind]⟩

/-- Over a whole run, every access is valid exactly when every call is sound on what it receives. -/
theorem accesses_valid_iff (hs : Fresh s₀) (hf : s₀.Fits rs) :
    (∀ f, s₀.recvAll rs ≠ .error (.fault f)) ↔
      ∀ pre bs post s calls, rs = pre ++ .data bs :: post → s₀.recvAll pre = .ok (s, calls) →
        (Conn.after {} pre).IsSound bs := by
  have hfault := recvAll_fault_iff hs.holds hf
  constructor
  · intro hok pre bs post s calls hsplit hpre
    by_contra hbad
    obtain ⟨f, hrun⟩ := hfault.mpr ⟨pre, bs, post, s, calls, hsplit, hpre, hbad⟩
    exact hok f hrun
  · intro hsound f hrun
    obtain ⟨pre, bs, post, s, calls, hsplit, hpre, hbad⟩ := hfault.mp ⟨f, hrun⟩
    exact hbad (hsound pre bs post s calls hsplit hpre)

theorem accesses_valid_letters :
    (idle "127.0.0.1" 8000 5).Fits (letterChunks.map .data) ∧
      ∀ f, (idle "127.0.0.1" 8000 5).recvAll (letterChunks.map .data) ≠ .error (.fault f) := by
  have hfits := letterChunks_run.1
  refine ⟨hfits, (accesses_valid_iff (idle_fresh _ _ _) hfits).mpr ?_⟩
  intro pre bs post s calls hsplit _
  rcases pre with _ | ⟨r₁, _ | ⟨r₂, _ | ⟨r₃, pre⟩⟩⟩
  · obtain ⟨rfl, -⟩ : [0xFF, 0, 9, 1, 2] = bs ∧ _ := by simpa [letterChunks] using hsplit
    have hlast : (Conn.after {} []).last [0xFF, 0, 9, 1, 2] = ([], [0xFF, 0, 9, 1, 2]) := by decide
    intro _ _
    rw [hlast]
    exact ⟨fun _ _ => rfl, fun _ => by decide, fun _ => by decide, fun _ => by decide⟩
  · obtain ⟨rfl, rfl, -⟩ : .data [0xFF, 0, 9, 1, 2] = r₁ ∧
        [1, 0, 1, 0, 0, 0, 1, 0x61, 0xFF, 0, 9, 1] = bs ∧ _ := by
      simpa [letterChunks] using hsplit
    have hlast : (Conn.after {} [.data [0xFF, 0, 9, 1, 2]]).last
        [1, 0, 1, 0, 0, 0, 1, 0x61, 0xFF, 0, 9, 1] = ([], [0xFF, 0, 9, 1]) := by decide
    intro _ _
    rw [hlast]
    exact ⟨fun _ _ => rfl, fun _ => by decide, fun _ => by decide, fun _ => by decide⟩
  · obtain ⟨rfl, rfl, rfl, -⟩ : .data [0xFF, 0, 9, 1, 2] = r₁ ∧
        .data [1, 0, 1, 0, 0, 0, 1, 0x61, 0xFF, 0, 9, 1] = r₂ ∧
        [2, 1, 0, 1, 0, 0, 0, 1, 0x62] = bs ∧ _ := by
      simpa [letterChunks] using hsplit
    -- nothing is left in the end
    have hlast : ((Conn.after {} [.data [0xFF, 0, 9, 1, 2],
        .data [1, 0, 1, 0, 0, 0, 1, 0x61, 0xFF, 0, 9, 1]]).last
        [2, 1, 0, 1, 0, 0, 0, 1, 0x62]).2 = [] := by decide
    exact fun _ hne => absurd hlast hne
  · simp [letterChunks] at hsplit

/-- Three bytes, the first of which is no marker: the header is read through a null pointer. -/
theorem accesses_not_valid :
    (idle "127.0.0.1" 8000 5).Fits [.data [0, 0, 0]] ∧
      (idle "127.0.0.1" 8000 5).recvAll [.data [0, 0, 0]] = .error (.fault .nullAccess) := by
  refine ⟨⟨⟨rfl, by simp, by decide⟩, fun _ _ _ => trivial⟩, ?_⟩
  rfl

def TurnsTo (recvLen : ℤ) (s s' : RecvState) : Prop :=
  guard recvLen s = true ∧ turn recvLen s = .ok s'

def Receives (s : RecvState) (bs : List Byte) (s₁ : RecvState) (recvLen : ℤ) : Prop :=
  s.sockHelper.receive s.recvBuffer s.currBuffIdx (s.buffSize - s.currBuffIdx) (.data bs) =
    .ok (recvLen, s₁.sockHelper, s₁.recvBuffer) ∧
  s₁ = { s with sockHelper := s₁.sockHelper, recvBuffer := s₁.recvBuffer }

def LoopEnds (s : RecvState) (bs : List Byte) : Prop :=
  ∀ s₁ recvLen, Receives s bs s₁ recvLen →
    ∃ turns, s₁.recvLoop recvLen turns ≠ .error (.halt .hang)

/-- Every turn after which the loop goes on moves the index. -/
def LoopProgresses (s : RecvState) (bs : List Byte) : Prop :=
  ∀ s₁ recvLen, Receives s bs s₁ recvLen → ∀ s' s'', Relation.ReflTransGen (TurnsTo recvLen) s₁ s' →
    TurnsTo recvLen s' s'' → s'.currBuffIdx < s''.currBuffIdx

theorem Receives.filled (h : Holds s c) (ha : s.Accepts (.data bs)) {s₁ : RecvState} {recvLen : ℤ}
    (hr : Receives s bs s₁ recvLen) : recvLen = bs.length ∧
      (c.pos < bs.length → Filled s₁ c.kept (c.fresh bs) bs.length) ∧
      s₁.currBuffIdx = c.pos := by
  obtain ⟨hrecv, hs₁⟩ := hr
  obtain ⟨buffer, hwritten, -, hold⟩ := h.receive ha
  obtain ⟨-, -, hfits⟩ := ha
  have hidx := h.index
  rw [hwritten] at hrecv
  simp only [Except.ok.injEq, Prod.mk.injEq] at hrecv
  obtain ⟨rfl, -, hbuffer⟩ := hrecv
  have hpos : s₁.currBuffIdx = c.pos := by
    rw [hs₁]
    exact hidx
  refine ⟨rfl, fun hlt => ⟨?_, ?_, ?_⟩, hpos⟩
  · rw [hs₁]
    exact h.tracks
  · rw [hpos, c.fresh_length]
    omega
  · rw [← hbuffer, hpos, ← hidx]
    exact hold.take _

theorem recvLoop_hangs (h : Filled s acc fresh total) {kept rest : List Byte}
    (hd : (digest acc fresh total).2 = .stuck kept rest) (n : ℕ) :
    s.recvLoop total n = .error (.halt .hang) := by
  have hloop := recvLoop_spec h le_rfl
  rcases hdigest : digest acc fresh total with ⟨frames, last⟩
  rw [hdigest] at hloop hd
  obtain rfl : last = .stuck kept rest := hd
  exact hloop n

theorem recvLoop_ends (h : Filled s acc fresh total)
    (hd : ∀ kept rest, (digest acc fresh total).2 ≠ .stuck kept rest) :
    s.recvLoop total fresh.length ≠ .error (.halt .hang) := by
  have hloop := recvLoop_spec h le_rfl
  rcases hdigest : digest acc fresh total with ⟨frames, last⟩
  rw [hdigest] at hloop hd
  cases last with
  | pending =>
    obtain ⟨s', hs', -⟩ := hloop
    simp [hs']
  | rejected msg kept rest =>
    obtain ⟨s', hs', -⟩ := hloop
    simp [hs', throwPacket]
  | fault f =>
    have hs' : s.recvLoop total fresh.length = .error (.halt (.fault f)) := hloop
    simp [hs']
  | stuck kept rest => exact absurd rfl (hd kept rest)
  | complete frame rest => exact hloop.elim

theorem recvLoop_ends_iff (h : Filled s acc fresh total) :
    (∃ n, s.recvLoop total n ≠ .error (.halt .hang)) ↔
      ∀ kept rest, (digest acc fresh total).2 ≠ .stuck kept rest := by
  constructor
  · rintro ⟨n, hn⟩ kept rest hd
    exact hn (recvLoop_hangs h hd n)
  · intro hd
    exact ⟨_, recvLoop_ends h hd⟩

/-- A turn for every fresh byte is enough: with more turns the loop ends in the same way. -/
theorem recvLoop_turns (h : Filled s acc fresh total) {n : ℕ} (hn : fresh.length ≤ n) :
    s.recvLoop total n = s.recvLoop total fresh.length := by
  by_cases hd : ∃ kept rest, (digest acc fresh total).2 = .stuck kept rest
  · obtain ⟨kept, rest, hd⟩ := hd
    rw [recvLoop_hangs h hd, recvLoop_hangs h hd]
  · apply whileLoop_mono (recvLoop_ends h ?_) hn
    intro kept rest hd'
    exact hd ⟨kept, rest, hd'⟩

/-- A turn moves the index, and leaves the end of the loop as it was. -/
theorem turnsTo_spec (h : Filled s acc fresh total)
    (hd : ∀ kept rest, (digest acc fresh total).2 ≠ .stuck kept rest) (ht : TurnsTo total s s') :
    s.currBuffIdx < s'.currBuffIdx ∧ ∃ acc' fresh', Filled s' acc' fresh' total ∧
      ∀ kept rest, (digest acc' fresh' total).2 ≠ .stuck kept rest := by
  obtain ⟨hguard, hturn⟩ := ht
  have hne := (guard_iff h).mp hguard
  have hpos := List.length_pos_iff.mpr hne
  have htotal : fresh.length ≤ total := by have := h.index; omega
  have hidx := h.index
  have hspec := turn_spec h hne
  cases hv : verdict acc fresh total with
  | pending =>
    rw [hv] at hspec
    obtain ⟨s'', hs'', -, hfilled⟩ := hspec
    obtain rfl : s'' = s' := by simpa [hs''] using hturn
    have := hfilled.index
    refine ⟨by simp only [List.length_nil] at this; omega, _, _, hfilled, ?_⟩
    simp [digest_nil]
  | complete frame rest =>
    obtain ⟨s'', hs'', -, hfilled⟩ := turn_complete h hne hv
    obtain rfl : s'' = s' := by simpa [hs''] using hturn
    have hlt := rest_length_lt h.tracks.isPartial htotal hv
    have := hfilled.index
    refine ⟨by omega, _, _, hfilled, ?_⟩
    rwa [digest_cons h.tracks.isPartial htotal hne hv] at hd
  | rejected msg kept rest =>
    rw [hv] at hspec
    obtain ⟨s'', hs'', -⟩ := hspec
    simp [hs'', throwPacket] at hturn
  | stuck kept rest =>
    rw [digest_of_verdict hne (by simp [hv]), hv] at hd
    exact absurd rfl (hd kept rest)
  | fault f =>
    rw [hv] at hspec
    have hs'' : turn total s = .error (.halt (.fault f)) := hspec
    simp [hs''] at hturn

theorem turns_filled {s₁ : RecvState} (h : Filled s₁ acc fresh total)
    (hd : ∀ kept rest, (digest acc fresh total).2 ≠ .stuck kept rest)
    (hruns : Relation.ReflTransGen (TurnsTo total) s₁ s') :
    ∃ acc' fresh', Filled s' acc' fresh' total ∧
      ∀ kept rest, (digest acc' fresh' total).2 ≠ .stuck kept rest := by
  induction hruns with
  | refl => exact ⟨acc, fresh, h, hd⟩
  | tail _ hstep ih =>
    obtain ⟨acc', fresh', hfilled, hd'⟩ := ih
    exact (turnsTo_spec hfilled hd' hstep).2

theorem exists_receives (h : Holds s c) (ha : s.Accepts (.data bs)) :
    ∃ s₁ recvLen, Receives s bs s₁ recvLen := by
  obtain ⟨buffer, hrecv, -, -⟩ := h.receive ha
  exact ⟨{ s with recvBuffer := buffer }, bs.length, hrecv, rfl⟩

theorem digest_stuck_iff (h : Holds s c) (hlt : c.pos < bs.length) :
    (∃ kept rest, (digest c.kept (c.fresh bs) bs.length).2 = .stuck kept rest) ↔
      c.IsOverlong bs := by
  rw [← Conn.intake_hangs_iff h.isPartial, Conn.intake, if_neg (by omega)]
  simp only
  cases (digest c.kept (c.fresh bs) bs.length).2 <;> simp [Conn.ending]

theorem not_loopEnds (h : Holds s c) (ha : s.Accepts (.data bs)) (hover : c.IsOverlong bs) :
    ¬ LoopEnds s bs := by
  intro hends
  obtain ⟨s₁, recvLen, hr⟩ := exists_receives h ha
  obtain ⟨rfl, hfilled, -⟩ := hr.filled h ha
  obtain ⟨kept, rest, hd⟩ := (digest_stuck_iff h hover.1).mpr hover
  exact (recvLoop_ends_iff (hfilled hover.1)).mp (hends s₁ _ hr) kept rest hd

/-- The loop of a call ends, in turns that each move the index, unless it gets to a frame that is
overlong. -/
theorem loop_ends_of_holds (h : Holds s c) (ha : s.Accepts (.data bs)) :
    LoopEnds s bs ∧ LoopProgresses s bs ↔ ¬ c.IsOverlong bs := by
  by_cases hlt : c.pos < bs.length
  · have hstuck := digest_stuck_iff h hlt
    constructor
    · intro hends hover
      exact not_loopEnds h ha hover hends.1
    · intro hover
      have hd : ∀ kept rest, (digest c.kept (c.fresh bs) bs.length).2 ≠ .stuck kept rest :=
        fun kept rest hd => hover (hstuck.mp ⟨kept, rest, hd⟩)
      constructor
      · intro s₁ recvLen hr
        obtain ⟨rfl, hfilled, -⟩ := hr.filled h ha
        exact (recvLoop_ends_iff (hfilled hlt)).mpr hd
      · intro s₁ recvLen hr s' s'' hruns ht
        obtain ⟨rfl, hfilled, -⟩ := hr.filled h ha
        obtain ⟨acc', fresh', hfilled', hd'⟩ := turns_filled (hfilled hlt) hd hruns
        exact (turnsTo_spec hfilled' hd' ht).1
  · -- the loop is not entered
    have hno : ∀ s₁ recvLen, Receives s bs s₁ recvLen → guard recvLen s₁ = false := by
      intro s₁ recvLen hr
      obtain ⟨rfl, -, hpos⟩ := hr.filled h ha
      simp only [guard, decide_eq_false_iff_not]
      omega
    refine ⟨fun _ hover => hlt hover.1, fun _ => ⟨?_, ?_⟩⟩
    · intro s₁ recvLen hr
      exact ⟨0, by simp [recvLoop, whileLoop, hno s₁ recvLen hr]⟩
    · intro s₁ recvLen hr s' s'' hruns ht
      have hexit := hno s₁ recvLen hr
      rcases hruns.cases_head with rfl | ⟨s₂, hfirst, -⟩
      · rw [ht.1] at hexit
        cases hexit
      · rw [hfirst.1] at hexit
        cases hexit

theorem loop_ends_iff (h : Reached rs s) (ha : s.Accepts (.data bs)) :
    LoopEnds s bs ∧ LoopProgresses s bs ↔ ¬ (Conn.after {} rs).IsOverlong bs :=
  loop_ends_of_holds h.holds ha

theorem reached_idle (host : String) (port : UInt16) (sock : ℤ) :
    Reached [] (idle host port sock) :=
  ⟨idle host port sock, [], idle_fresh host port sock, trivial, rfl⟩

theorem loop_ends_letters :
    ∃ s bs, Reached ((letterChunks.take 2).map .data) s ∧ letterChunks.getLast? = some bs ∧
      s.Accepts (.data bs) ∧ LoopEnds s bs ∧ LoopProgresses s bs := by
  have hsplit : letterChunks.map RecvResult.data =
      (letterChunks.take 2).map .data ++ [.data [2, 1, 0, 1, 0, 0, 0, 1, 0x62]] := rfl
  obtain ⟨hfits, s', calls', hrun, -⟩ := letterChunks_run
  rw [hsplit] at hfits hrun
  obtain ⟨s, calls, lastCall, hpre, -⟩ := recvAll_append_ok hrun
  have haccepts := (hfits.right hpre).1
  have hreached : Reached ((letterChunks.take 2).map .data) s :=
    ⟨_, calls, idle_fresh _ _ _, hfits.left, hpre⟩
  refine ⟨s, _, hreached, rfl, haccepts, (loop_ends_iff hreached haccepts).mpr ?_⟩
  rintro ⟨-, hover⟩
  have hlast : (Conn.after {} ((letterChunks.take 2).map .data)).last
      [2, 1, 0, 1, 0, 0, 0, 1, 0x62] = ([], []) := by decide
  rw [hlast] at hover
  exact absurd hover.begun (by decide)

/-- Nine header bytes, a payload of 2147483636 bytes, and one byte of it: the frame would be
`2^31` bytes long. -/
theorem loop_does_not_end :
    ¬ LoopEnds (idle "127.0.0.1" 8000 5)
      [0xFF, 0, 9, 1, 2, 1, 0, 1, 0x7F, 0xFF, 0xFF, 0xF4, 0x61] := by
  refine not_loopEnds (idle_fresh _ _ _).holds ⟨rfl, by simp, by decide⟩ ⟨by decide, ?_⟩
  have hlast : ({} : Conn).last [0xFF, 0, 9, 1, 2, 1, 0, 1, 0x7F, 0xFF, 0xFF, 0xF4, 0x61] =
      ([], [0xFF, 0, 9, 1, 2, 1, 0, 1, 0x7F, 0xFF, 0xFF, 0xF4, 0x61]) := by decide
  rw [hlast]
  exact ⟨⟨by decide, by decide, fun _ => rfl⟩, by decide, by decide, by decide, by decide,
    by decide⟩

/-- The next call receives the frame `f`, completes its packet and returns it. -/
def Completes (s : RecvState) (f : List Byte) : Prop :=
  ∃ s' p, s.recvPkt (.data f) = .ok (s', { returned := some ⟨s.completedPkts.length, p⟩ }) ∧
    Carries p f

/-- A connection that keeps dead bytes completes no packet any more. -/
theorem not_completes_of_dead (h : Holds s c) (hdead : Dead c.kept) {f : List Byte}
    (ha : s.Accepts (.data f)) : ¬ Completes s f := by
  rintro ⟨s', p, hcall, -⟩
  have hnone : (c.intake f).1 = [] := by
    by_cases hlt : c.pos < f.length
    · rw [Conn.intake_eq h.isPartial hlt]
      exact finished_of_dead hdead
    · rw [Conn.intake_skips (Nat.le_of_not_lt hlt)]
  obtain ⟨frames, hgrew, -, ⟨hwaits, hlatest⟩ | ⟨msg, -, hcaught⟩⟩ := recvPkt_data_ok h ha hcall
  · obtain rfl : frames = [] := by simpa [hwaits] using hnone
    obtain ⟨ps, hps, hcarry⟩ := hgrew.completed
    obtain rfl : ps = [] := List.forall₂_nil_right_iff.mp hcarry
    rw [List.append_nil] at hps
    -- the last packet of an unchanged list has a smaller index
    simp only [RecvCall.mk.injEq, latest, hps, eq_comm (a := some _), Option.map_eq_some_iff,
      PacketRef.mk.injEq] at hlatest
    obtain ⟨⟨q, hq, hindex, -⟩, -⟩ := hlatest
    have hpos := List.length_pos_iff.mpr (List.ne_nil_of_mem (List.mem_of_getLast? hq))
    omega
  · cases hcaught

theorem dead_of_throws (h : Partial c.kept) {frames : List (List Byte)} {msg : String} {c' : Conn}
    (hintake : c.intake bs = (frames, .throws msg c')) : Dead c'.kept := by
  have hthrows : (c.intake bs).2 = .throws msg c' := by rw [hintake]
  by_cases hlt : c.pos < bs.length
  · by_cases hnil : (c.last bs).2 = []
    · rw [Conn.intake_of_nil h hlt hnil] at hthrows
      cases hthrows
    · rw [Conn.intake_of_ne_nil h hlt hnil] at hthrows
      cases hv : verdict (c.last bs).1 (c.last bs).2 bs.length with
      | rejected msg' kept rest =>
        rw [hv, Conn.ending, Intake.throws.injEq] at hthrows
        rw [← hthrows.2]
        exact dead_of_rejected (Conn.last_length_le h bs) hv
      | _ => simp [hv, Conn.ending] at hthrows
  · simp [Conn.intake_skips (Nat.le_of_not_lt hlt)] at hthrows

theorem dead_after_exception (h : Holds s c) (ha : s.Accepts (.data bs)) {call : RecvCall}
    {e : GenericException} (hcall : s.recvPkt (.data bs) = .ok (s', call))
    (he : call.caught = some e) (hcls : e.cls = .packet) : Dead (c.next (.data bs)).kept := by
  obtain ⟨bs', frames, msg, hbs, hintake⟩ := recvPkt_throws h ha hcall he hcls
  obtain rfl : bs = bs' := by simpa using hbs
  exact dead_of_throws h.isPartial hintake

/-- After a swallowed `PacketException`, whatever the next call receives is not completed by it. -/
theorem not_completes_after_exception (h : Reached rs s) (ha : s.Accepts (.data bs))
    {call : RecvCall} {e : GenericException} (hcall : s.recvPkt (.data bs) = .ok (s', call))
    (he : call.caught = some e) (hcls : e.cls = .packet) {f : List Byte}
    (ha' : s'.Accepts (.data f)) : ¬ Completes s' f :=
  not_completes_of_dead (recvPkt_next h.holds ha hcall)
    (dead_after_exception h.holds ha hcall he hcls) ha'

/-- A header length of zero: the call throws, and the index stays behind the header. -/
theorem recvPkt_no_header :
    ∃ s' call e, (idle "127.0.0.1" 8000 5).recvPkt (.data [0xFF, 0, 0, 1]) = .ok (s', call) ∧
      call.caught = some e ∧ e.cls = .packet ∧ Holds s' ⟨[0xFF, 0, 0], 3⟩ ∧
      s'.Accepts (.data (frameOf 1 2 1 0 1 [0x61])) := by
  have hfresh := idle_fresh "127.0.0.1" 8000 5
  have ha : (idle "127.0.0.1" 8000 5).Accepts (.data [0xFF, 0, 0, 1]) := ⟨rfl, by simp, by decide⟩
  have hdata := recvPkt_data hfresh.holds ha
  have hintake : ({} : Conn).intake [0xFF, 0, 0, 1] =
      ([], .throws "Got a header length of zero or less\n" ⟨[0xFF, 0, 0], 3⟩) := by decide
  rw [hintake] at hdata
  obtain ⟨s', hs', hgrew, hholds⟩ := hdata
  refine ⟨s', _, _, hs', rfl, rfl, hholds, ?_, by simp [frameOf], ?_⟩
  · rw [hgrew.sockHelper]
    rfl
  · rw [hholds.index, hgrew.buffSize, frameOf_length]
    decide

theorem not_completes_after_no_header :
    ∃ s' call, (idle "127.0.0.1" 8000 5).recvPkt (.data [0xFF, 0, 0, 1]) = .ok (s', call) ∧
      ¬ Completes s' (frameOf 1 2 1 0 1 [0x61]) := by
  obtain ⟨s', call, e, hcall, he, hcls, -, ha'⟩ := recvPkt_no_header
  exact ⟨s', call, hcall, not_completes_after_exception (reached_idle _ _ _)
    ⟨rfl, by simp, by decide⟩ hcall he hcls ha'⟩

/-- One bad packet, and a good one after it that is not completed. -/
theorem exception_poisons :
    wire.IsFrame (frameOf 1 2 1 0 1 [0x61]) ∧
      ∃ s' call e, (idle "127.0.0.1" 8000 5).recvPkt (.data [0xFF, 0, 0, 1]) = .ok (s', call) ∧
        call.caught = some e ∧ e.cls = .packet ∧
        s'.Accepts (.data (frameOf 1 2 1 0 1 [0x61])) ∧
        ¬ Completes s' (frameOf 1 2 1 0 1 [0x61]) := by
  have hholds := (idle_fresh "127.0.0.1" 8000 5).holds
  have ha : (idle "127.0.0.1" 8000 5).Accepts (.data [0xFF, 0, 0, 1]) := ⟨rfl, by simp, by decide⟩
  obtain ⟨s', call, e, hcall, he, hcls, -, ha'⟩ := recvPkt_no_header
  exact ⟨frameOf_isFrame (by simp) (by decide), s', call, e, hcall, he, hcls, ha',
    not_completes_of_dead (recvPkt_next hholds ha hcall)
      (dead_after_exception hholds ha hcall he hcls) ha'⟩

/-- The loop of the next call consumes the range that `receive` has just written. -/
def LooksAtAll (s : RecvState) : Prop :=
  ∀ r recvLen helper buffer, s.Accepts r →
    s.sockHelper.receive s.recvBuffer s.currBuffIdx (s.buffSize - s.currBuffIdx) r =
      .ok (recvLen, helper, buffer) →
    ∀ i : ℤ, (s.currBuffIdx ≤ i ∧ i < recvLen) ↔
      (s.currBuffIdx ≤ i ∧ i < s.currBuffIdx + recvLen)

theorem looksAtAll_of_zero (h : s.currBuffIdx = 0) : LooksAtAll s := by
  intro r recvLen helper buffer _ _ i
  rw [h]
  simp

theorem eq_zero_of_looksAtAll (h : Holds s c) (hopen : s.sockHelper.isSockOpen = true)
    (hall : LooksAtAll s) : s.currBuffIdx = 0 := by
  have hroom := h.room
  have hidx := h.index
  have ha : s.Accepts (.data [0]) := ⟨hopen, by simp, by simp; omega⟩
  obtain ⟨buffer, hrecv, -, -⟩ := h.receive ha
  have hrange := hall (.data [0]) _ _ _ ha hrecv
  -- the byte just written is in the one range, so it is in the other
  have hmem := (hrange s.currBuffIdx).mpr ⟨le_rfl, by simp⟩
  rw [List.length_singleton] at hmem
  omega

end RecvState

namespace Conn

variable {c c' : Conn} {bs : List Byte} {msg : String}

/-- The frame that is rejected is all that the call looks at, and before the call its header was
complete, or its header length is 65533. -/
def RejectsAtStart (c : Conn) (bs : List Byte) : Prop :=
  (c.last bs).2 = bs ∧ (hdrField ((c.last bs).1 ++ (c.last bs).2) = 65533 ∨
    hdrEnd ((c.last bs).1 ++ (c.last bs).2) = (c.last bs).1.length)

theorem last_suffix (h : Partial c.kept) (bs : List Byte) : (c.last bs).2 <:+ c.fresh bs :=
  unfinished_suffix h _

theorem last_eq_iff (h : Partial c.kept) (hlt : c.pos < bs.length) :
    (c.last bs).2 = bs ↔ (c.last bs).2.length = bs.length := by
  constructor
  · intro heq
    rw [heq]
  · intro heq
    have hsuffix := last_suffix h bs
    have hle := hsuffix.length_le
    have hpos : c.pos = 0 := by
      rw [c.fresh_length] at hle
      omega
    rw [c.fresh_of_pos hpos] at hsuffix
    exact hsuffix.eq_of_length heq

/-- Only such a rejection leaves the index at zero. -/
theorem throws_pos_iff (h : Partial c.kept) (hthrows : (c.intake bs).2 = .throws msg c') :
    c'.pos = 0 ↔ c.RejectsAtStart bs := by
  have hlt : c.pos < bs.length := by
    by_contra hge
    simp [intake_skips (Nat.le_of_not_lt hge)] at hthrows
  have hne : (c.last bs).2 ≠ [] := by
    intro hnil
    rw [intake_of_nil h hlt hnil] at hthrows
    cases hthrows
  rw [intake_of_ne_nil h hlt hne] at hthrows
  have hlen := last_length_le h bs
  have hfull := last_eq_iff h hlt
  have hkept : Partial (c.last bs).1 := unfinished_isPartial h
  have hnonempty := List.length_pos_iff.mpr hne
  have hj := judged (c.last bs).1 hlen
  rw [RejectsAtStart, hfull]
  generalize (c.last bs).1 = acc at hj hthrows hkept
  generalize (c.last bs).2 = fresh at hj hthrows hlen hnonempty
  -- what was kept of a frame that is not usable is part of its header
  have hle : Entered acc fresh → ¬ Usable (acc ++ fresh) → acc.length ≤ hdrEnd (acc ++ fresh) :=
    fun he hu => (hkept.length_le fresh he.whole).resolve_right fun h => hu h.1
  have hdrop : ((acc ++ fresh).drop (hdrEnd (acc ++ fresh))).length =
      acc.length + fresh.length - hdrEnd (acc ++ fresh) := by
    rw [List.length_drop, List.length_append]
  have hsum : (acc ++ fresh).length = acc.length + fresh.length := List.length_append
  cases hv : verdict acc fresh bs.length with
  | rejected msg' kept rest =>
    rw [hv] at hj hthrows
    rw [ending, Intake.throws.injEq] at hthrows
    obtain ⟨-, rfl⟩ := hthrows
    simp only
    cases hj with
    | wraps he hw => omega
    | noHeader he hz hbegun =>
      have := hle he fun hu => by have := hu.header_min; omega
      omega
    | noPayload he hmin hmax hn hbegun =>
      have := hle he fun hu => by have := hu.payload_pos; omega
      omega
    | negative he hmin hmax hn hbegun =>
      have hsize : frameSize (acc ++ fresh) =
        hdrEnd (acc ++ fresh) + payloadField (acc ++ fresh) := rfl
      have := hle he fun hu => by have := hu.size_lt; omega
      omega
  | _ => simp [hv, ending] at hthrows

theorem next_pos (h : Partial c.kept) (hpos : c.pos = 0) (r : RecvResult) :
    (c.next r).pos = 0 ∨ ∃ bs, r = .data bs ∧ c.IsRejected bs ∧ ¬ c.RejectsAtStart bs := by
  cases r with
  | closed k => exact Or.inl hpos
  | failed => exact Or.inl hpos
  | data bs =>
    rcases hintake : c.intake bs with ⟨frames, last⟩
    have hlast : (c.intake bs).2 = last := by rw [hintake]
    cases last with
    | throws msg c' =>
      by_cases hstart : c.RejectsAtStart bs
      · left
        rw [next, hlast]
        exact (throws_pos_iff h hlast).mpr hstart
      · exact Or.inr ⟨bs, rfl, (intake_throws_iff h).mp ⟨msg, c', hlast⟩, hstart⟩
    | hangs =>
      left
      rw [next, hlast]
      exact hpos
    | faults f =>
      left
      rw [next, hlast]
      exact hpos
    | waits c' =>
      left
      rw [next, hlast]
      by_cases hlt : c.pos < bs.length
      · by_cases hnil : (c.last bs).2 = []
        · rw [intake_of_nil h hlt hnil, ending, Intake.waits.injEq] at hlast
          rw [← hlast]
        · rw [intake_of_ne_nil h hlt hnil] at hlast
          cases hv : verdict (c.last bs).1 (c.last bs).2 bs.length with
          | pending =>
            rw [hv, ending, Intake.waits.injEq] at hlast
            rw [← hlast]
          | complete frame rest =>
            rw [hv, ending, Intake.waits.injEq] at hlast
            rw [← hlast]
            exact hpos
          | _ => simp [hv, ending] at hlast
      · rw [intake_skips (Nat.le_of_not_lt hlt), Intake.waits.injEq] at hlast
        rw [← hlast]
        exact hpos

end Conn

namespace RecvState

variable {s s' s₀ : RecvState} {c : Conn} {bs : List Byte} {rs : List RecvResult}

theorem recvPkt_rejected (h : Holds s c) (ha : s.Accepts (.data bs)) (hr : c.IsRejected bs) :
    ∃ s' call, s.recvPkt (.data bs) = .ok (s', call) ∧ s'.sockHelper.isSockOpen = true ∧
      ∃ msg, (c.intake bs).2 = .throws msg (c.next (.data bs)) := by
  obtain ⟨msg, c', hthrows⟩ := (Conn.intake_throws_iff h.isPartial).mpr hr
  cases hcall : s.recvPkt (.data bs) with
  | error e =>
    rcases (recvPkt_data_error_iff h ha).mp hcall with ⟨hhangs, -⟩ | ⟨f, hfaults, -⟩
    · rw [hthrows] at hhangs
      cases hhangs
    · rw [hthrows] at hfaults
      cases hfaults
  | ok r =>
    obtain ⟨s', call⟩ := r
    have hopen : s'.sockHelper.isSockOpen = true := by
      rw [(recvPkt_grew h ha hcall).sockHelper]
      exact ha.1
    refine ⟨s', call, rfl, hopen, msg, ?_⟩
    rw [Conn.next, hthrows]

theorem after_append_singleton (c : Conn) (pre : List RecvResult) (r : RecvResult) :
    c.after (pre ++ [r]) = (c.after pre).next r := by
  simp [Conn.after]

/-- Over a whole run, every received byte is looked at exactly when every exception is raised
before the call has moved the index. -/
theorem looksAtAll_iff (hs : Fresh s₀) (hf : s₀.Fits rs) :
    (∀ pre post s calls, rs = pre ++ post → s₀.recvAll pre = .ok (s, calls) → LooksAtAll s) ↔
      ∀ pre bs post s calls, rs = pre ++ .data bs :: post → s₀.recvAll pre = .ok (s, calls) →
        (Conn.after {} pre).IsRejected bs → (Conn.after {} pre).RejectsAtStart bs := by
  constructor
  · rintro hall pre bs post s calls rfl hpre hr
    have hholds := hs.holds.recvAll hf.left hpre
    have hfits := hf.right hpre
    obtain ⟨s', call, hcall, hopen, msg, hthrows⟩ := recvPkt_rejected hholds hfits.1 hr
    have hrun : s₀.recvAll (pre ++ [.data bs]) = .ok (s', calls ++ [call]) := by
      rw [recvAll_append hpre, recvAll_cons_ok hcall]
      rfl
    have hlooks := hall (pre ++ [.data bs]) post s' _ (by simp) hrun
    -- the run with one call more, after which the index is zero again
    have hnext := recvPkt_next hholds hfits.1 hcall
    have hzero := eq_zero_of_looksAtAll hnext hopen hlooks
    rw [hnext.index] at hzero
    exact (Conn.throws_pos_iff hholds.isPartial hthrows).mp hzero
  · intro hstart pre post s calls hsplit hpre
    subst hsplit
    have hholds := hs.holds.recvAll hf.left hpre
    apply looksAtAll_of_zero
    rw [hholds.index]
    clear hholds
    -- by induction on the run so far, from its end
    induction pre using List.reverseRecOn generalizing post s calls with
    | nil => rfl
    | append_singleton pre r ih =>
      obtain ⟨s₁, calls₁, calls₂, hpre₁, -, -⟩ := recvAll_append_ok hpre
      rw [List.append_assoc] at hf hstart
      have hholds := hs.holds.recvAll hf.left hpre₁
      have hzero := ih ([r] ++ post) s₁ calls₁ hpre₁ hf hstart
      rw [after_append_singleton]
      rcases Conn.next_pos hholds.isPartial hzero r with h | ⟨bs, rfl, hr, hno⟩
      · exact h
      · exact absurd (hstart pre bs post s₁ calls₁ rfl hpre₁ hr) hno

/-- A packet and the header of another, which says that there is no payload; and a byte of it. -/
def letterThenNone : List RecvResult :=
  [.data (frameOf 1 2 1 0 1 [0x61] ++ frameOf 1 2 1 0 1 []), .data [0x61]]

theorem letterThenNone_run :
    (idle "127.0.0.1" 8000 5).Fits letterThenNone ∧ ∃ s calls e,
      (idle "127.0.0.1" 8000 5).recvAll letterThenNone = .ok (s, calls) ∧
        calls.map RecvCall.caught = [none, some e] ∧ e.cls = .packet := by
  have hready := (idle_fresh "127.0.0.1" 8000 5).ready
  have ha : (idle "127.0.0.1" 8000 5).Accepts
      (.data (frameOf 1 2 1 0 1 [0x61] ++ frameOf 1 2 1 0 1 [])) := hready.accepts (by decide)
  have hdata := recvPkt_data hready.holds ha
  have hintake : Conn.intake ⟨[], 0⟩ (frameOf 1 2 1 0 1 [0x61] ++ frameOf 1 2 1 0 1 []) =
      ([frameOf 1 2 1 0 1 [0x61]], .waits ⟨frameOf 1 2 1 0 1 [], 0⟩) := by decide
  rw [hintake] at hdata
  obtain ⟨s₁, hs₁, hgrew, hholds⟩ := hdata
  have hready₁ := hready.grew hgrew hholds
  have ha₁ : s₁.Accepts (.data [0x61]) := hready₁.accepts (by decide)
  have hdata₁ := recvPkt_data hholds ha₁
  have hintake₁ : Conn.intake ⟨frameOf 1 2 1 0 1 [], 0⟩ [0x61] =
      ([], .throws "Got a payload length of zero or less\n" ⟨frameOf 1 2 1 0 1 [], 0⟩) := by decide
  rw [hintake₁] at hdata₁
  obtain ⟨s₂, hs₂, -, -⟩ := hdata₁
  have hfits : (idle "127.0.0.1" 8000 5).Fits letterThenNone := by
    refine ⟨ha, fun s' call hcall => ?_⟩
    obtain ⟨rfl, -⟩ : s₁ = s' ∧ _ = call := by simpa [hs₁] using hcall
    exact ⟨ha₁, fun _ _ _ => trivial⟩
  have hrun : (idle "127.0.0.1" 8000 5).recvAll letterThenNone = .ok (s₂, [
      { returned := s₁.latest },
      { caught := some
          { cls := .packet, message := "Got a payload length of zero or less\n" } }]) := by
    rw [letterThenNone, recvAll_cons_ok hs₁, recvAll_cons_ok hs₂]
    rfl
  exact ⟨hfits, s₂, _, _, hrun, rfl, rfl⟩

/-- The exception of the second call is raised before the index has moved. -/
theorem looksAtAll_rejected :
    (∃ s calls e, (idle "127.0.0.1" 8000 5).recvAll letterThenNone = .ok (s, calls) ∧
        calls.map RecvCall.caught = [none, some e] ∧ e.cls = .packet) ∧
      ∀ pre post s calls, letterThenNone = pre ++ post →
        (idle "127.0.0.1" 8000 5).recvAll pre = .ok (s, calls) → LooksAtAll s := by
  obtain ⟨hfits, hrun⟩ := letterThenNone_run
  refine ⟨hrun, (looksAtAll_iff (idle_fresh _ _ _) hfits).mpr ?_⟩
  intro pre bs post s calls hsplit _ hr
  rcases pre with _ | ⟨r₁, _ | ⟨r₂, pre⟩⟩
  · obtain ⟨rfl, -⟩ : frameOf 1 2 1 0 1 [0x61] ++ frameOf 1 2 1 0 1 [] = bs ∧ _ := by
      simpa [letterThenNone] using hsplit
    have hlast : (Conn.after {} []).last (frameOf 1 2 1 0 1 [0x61] ++ frameOf 1 2 1 0 1 []) =
        ([], frameOf 1 2 1 0 1 []) := by decide
    have hlengths := hr.2.lengths
    rw [hlast] at hlengths
    exact absurd hlengths (by decide)
  · obtain ⟨rfl, rfl, -⟩ : .data (frameOf 1 2 1 0 1 [0x61] ++ frameOf 1 2 1 0 1 []) = r₁ ∧
        [0x61] = bs ∧ _ := by
      simpa [letterThenNone] using hsplit
    have hlast : (Conn.after {} [.data (frameOf 1 2 1 0 1 [0x61] ++ frameOf 1 2 1 0 1 [])]).last
        [0x61] = (frameOf 1 2 1 0 1 [], [0x61]) := by decide
    unfold Conn.RejectsAtStart
    rw [hlast]
    exact ⟨rfl, Or.inr (by decide)⟩
  · simp [letterThenNone] at hsplit

/-- After a header length of zero, the count of what arrives is no end of it any more. -/
theorem not_looksAtAll :
    ∃ s call, (idle "127.0.0.1" 8000 5).recvPkt (.data [0xFF, 0, 0, 1]) = .ok (s, call) ∧
      ¬ LooksAtAll s := by
  obtain ⟨s, call, e, hcall, -, -, hholds, ha⟩ := recvPkt_no_header
  refine ⟨s, call, hcall, fun hall => ?_⟩
  have hzero := eq_zero_of_looksAtAll hholds ha.1 hall
  rw [hholds.index] at hzero
  cases hzero

end RecvState

end P2Purr
