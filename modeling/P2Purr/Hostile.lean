import P2Purr.Isolation
import P2Purr.Robustness

namespace P2Purr
open Memory Framing

def bytesReceived (rs : List RecvResult) : List Byte := rs.flatMap RecvResult.bytes

@[simp] theorem bytesReceived_nil : bytesReceived [] = [] := rfl

@[simp] theorem bytesReceived_cons (r : RecvResult) (rs : List RecvResult) :
    bytesReceived (r :: rs) = r.bytes ++ bytesReceived rs := List.flatMap_cons

namespace Conn

variable {c c' : Conn} {bs : List Byte} {frames : List (List Byte)}

theorem intake_frames (h : Partial c.kept) (hpos : c.pos = 0) :
    (c.intake bs).1 <+: (wire.split (c.kept ++ bs)).1 := by
  by_cases hlt : c.pos < bs.length
  · rw [intake_eq h hlt, c.fresh_of_pos hpos]
    unfold finished
    split
    · exact List.nil_prefix
    · exact List.prefix_refl _
  · rw [intake_skips (Nat.le_of_not_lt hlt)]
    exact List.nil_prefix

theorem intake_of_dead (h : Partial c.kept) (hdead : Dead c.kept) : (c.intake bs).1 = [] := by
  by_cases hlt : c.pos < bs.length
  · rw [intake_eq h hlt]
    exact finished_of_dead hdead
  · rw [intake_skips (Nat.le_of_not_lt hlt)]

/-- A connection that keeps dead bytes goes on keeping dead bytes. -/
theorem dead_of_waits (h : Partial c.kept) (hdead : Dead c.kept)
    (hwaits : (c.intake bs).2 = .waits c') : Dead c'.kept := by
  by_cases hlt : c.pos < bs.length
  · have hfresh : c.fresh bs ≠ [] := by
      apply List.ne_nil_of_length_pos
      rw [c.fresh_length]
      omega
    have hsound : c.IsSound bs := by
      by_contra hbad
      obtain ⟨f, hf⟩ := (intake_faults_iff h).mpr hbad
      rw [hwaits] at hf
      cases hf
    have hopen : wire.IsOpen (c.kept ++ c.fresh bs) ∨ c.kept.length = 1 ∨ c.kept.length = 2 := by
      rw [← Framer.split_eq_nil_iff]
      have hnone := @finished_of_dead c.kept (c.fresh bs) hdead
      unfold finished at hnone
      split at hnone
      · rename_i hcut
        exact Or.inr hcut
      · exact Or.inl hnone
    have hlast : c.last bs = (c.kept, c.fresh bs) := (unfinished_kept hopen).1
    cases hdead with
    | inl htwo =>
      -- the third byte of a prefix that came in two parts: the header is not there
      have hwhole := (hsound hlt (by rwa [hlast])).whole
      simp only [hlast, List.length_append] at hwhole
      have hpos := List.length_pos_iff.mpr hfresh
      have hcut := hwhole (by omega)
      omega
    | inr hno =>
      have hall : wire.IsOpen (c.kept ++ c.fresh bs) :=
        wire_isOpen_iff.mpr fun _ _ hu => absurd hu (hno (c.fresh bs))
      have hkept : c'.kept = c.kept ++ c.fresh bs := by
        rw [intake_of_ne_nil h hlt (by rwa [hlast])] at hwaits
        cases hv : verdict (c.last bs).1 (c.last bs).2 bs.length with
        | pending =>
          rw [hv, ending, Intake.waits.injEq, Framer.split_open hall] at hwaits
          rw [← hwaits]
        | complete frame rest => exact absurd hv (last_ne_complete h bs frame rest)
        | rejected msg kept rest => simp [hv, ending] at hwaits
        | stuck kept rest => simp [hv, ending] at hwaits
        | fault f => simp [hv, ending] at hwaits
      refine Or.inr fun t => ?_
      rw [hkept, List.append_assoc]
      exact hno (c.fresh bs ++ t)
  · rw [intake_skips (Nat.le_of_not_lt hlt), Intake.waits.injEq] at hwaits
    rwa [← hwaits]

end Conn

namespace RecvState

variable {s s' s₀ s₁ s₂ : RecvState} {t : List Byte} {r : RecvResult} {rs rs₁ rs₂ : List RecvResult}
  {call : RecvCall} {calls calls₁ calls₂ : List RecvCall}

/-- The handler has received `t`, and still reads it, or keeps bytes that nothing comes of. -/
inductive Fed (s : RecvState) (t : List Byte) : Prop
  | reading (h : HasRead s t)
  | dead {c : Conn} {fs : List (List Byte)} (h : Holds s c) (hdead : Dead c.kept)
      (hfs : fs <+: (wire.split t).1) (hcarry : List.Forall₂ Carries s.completedPkts fs)

theorem Fed.holds (h : Fed s t) : ∃ c, Holds s c := by
  cases h with
  | reading h => exact ⟨_, h.holds⟩
  | dead h => exact ⟨_, h⟩

theorem Fed.frames (h : Fed s t) :
    ∃ fs, fs <+: (wire.split t).1 ∧ List.Forall₂ Carries s.completedPkts fs := by
  cases h with
  | reading h => exact ⟨_, List.prefix_refl _, h.completed⟩
  | dead _ _ hfs hcarry => exact ⟨_, hfs, hcarry⟩

theorem Fed.quiet (h : Fed s t) (ha : s.Accepts r) (hr : ∀ bs, r ≠ .data bs)
    (hcall : s.recvPkt r = .ok (s', call)) : Fed s' t := by
  have hsame : ∀ c, Holds s c → Holds s' c ∧ s'.completedPkts = s.completedPkts := by
    intro c hc
    obtain ⟨s'', call', hq, hholds, hcompleted, -⟩ := recvPkt_quiet hc ha hr
    rw [hcall] at hq
    rw [(Prod.mk.inj (Except.ok.inj hq)).1]
    exact ⟨hholds, hcompleted⟩
  cases h with
  | reading h =>
    obtain ⟨hholds, hcompleted⟩ := hsame _ h.holds
    exact Fed.reading ⟨hholds, hcompleted ▸ h.completed⟩
  | dead h hdead hfs hcarry =>
    obtain ⟨hholds, hcompleted⟩ := hsame _ h
    exact Fed.dead hholds hdead hfs (hcompleted ▸ hcarry)

/-- A handler that still reads the stream goes on reading it, unless it throws. -/
theorem HasRead.fed {bs : List Byte} (h : HasRead s t) (ha : s.Accepts (.data bs))
    (hcall : s.recvPkt (.data bs) = .ok (s', call)) :
    Fed s' (t ++ bs) ∧
      ((∀ e, call.caught = some e → e.cls ≠ .packet) → HasRead s' (t ++ bs)) := by
  have hprefix := @Conn.intake_frames ⟨(wire.split t).2, 0⟩ bs h.holds.isPartial rfl
  obtain ⟨frames, hgrew, hholds, ⟨hwaits, -⟩ | ⟨msg, hthrows, rfl⟩⟩ :=
    recvPkt_data_ok h.holds ha hcall
  · obtain ⟨hframes, hnext⟩ := Conn.intake_of_waits h.holds.isPartial rfl ha.2.1 hwaits
    obtain ⟨ps, hps, hcarry⟩ := hgrew.completed
    have hread : HasRead s' (t ++ bs) := by
      refine ⟨?_, ?_⟩
      · rw [wire.split_append, ← hnext]
        exact hholds
      · rw [wire.split_append, hps, ← hframes]
        exact List.rel_append h.completed hcarry
    exact ⟨Fed.reading hread, fun _ => hread⟩
  · obtain ⟨ps, hps, hcarry⟩ := hgrew.completed
    have hdead := dead_of_throws h.holds.isPartial hthrows
    refine ⟨?_, fun hquiet => absurd rfl (hquiet _ rfl)⟩
    rw [hthrows] at hprefix
    have hfs : (wire.split t).1 ++ frames <+: (wire.split (t ++ bs)).1 := by
      rw [wire.split_append]
      exact List.prefix_append_right_inj _ |>.mpr hprefix
    apply Fed.dead hholds hdead hfs
    rw [hps]
    exact List.rel_append h.completed hcarry

theorem dead_data {c : Conn} {bs : List Byte} (h : Holds s c) (hdead : Dead c.kept)
    (ha : s.Accepts (.data bs)) (hcall : s.recvPkt (.data bs) = .ok (s', call)) :
    s'.completedPkts = s.completedPkts ∧ ∃ c', Holds s' c' ∧ Dead c'.kept := by
  have hgrew := recvPkt_grew h ha hcall
  rw [Conn.intake_of_dead h.isPartial hdead] at hgrew
  obtain ⟨ps, hps, hcarry⟩ := hgrew.completed
  rw [List.forall₂_nil_right_iff.mp hcarry, List.append_nil] at hps
  refine ⟨hps, c.next (.data bs), recvPkt_next h ha hcall, ?_⟩
  simp only [Conn.next]
  rcases hintake : c.intake bs with ⟨frames, last⟩
  cases last with
  | waits c' => exact Conn.dead_of_waits h.isPartial hdead (by rw [hintake])
  | throws msg c' => exact dead_of_throws h.isPartial hintake
  | hangs => exact hdead
  | faults f => exact hdead

theorem Fed.step (h : Fed s t) (ha : s.Accepts r) (hcall : s.recvPkt r = .ok (s', call)) :
    Fed s' (t ++ r.bytes) := by
  cases r with
  | closed k =>
    rw [RecvResult.bytes, List.append_nil]
    exact h.quiet ha (by simp) hcall
  | failed =>
    rw [RecvResult.bytes, List.append_nil]
    exact h.quiet ha (by simp) hcall
  | data bs =>
    cases h with
    | reading h => exact (h.fed ha hcall).1
    | dead h hdead hfs hcarry =>
      obtain ⟨hsame, c', hholds, hdead'⟩ := dead_data h hdead ha hcall
      have hfirst := wire.split_mono (List.prefix_append t bs)
      exact Fed.dead hholds hdead' (hfs.trans hfirst) (hsame ▸ hcarry)

theorem Fed.run (h : Fed s t) (hf : s.Fits rs) (hrun : s.recvAll rs = .ok (s', calls)) :
    Fed s' (t ++ bytesReceived rs) := by
  induction rs generalizing s t calls with
  | nil =>
    rw [← (Prod.mk.inj (Except.ok.inj hrun)).1, bytesReceived_nil, List.append_nil]
    exact h
  | cons r rs ih =>
    obtain ⟨s₁, call, calls', hcall, hrest, -⟩ := recvAll_cons_inv hrun
    rw [bytesReceived_cons, ← List.append_assoc]
    exact ih (h.step hf.1 hcall) (hf.2 s₁ call hcall) hrest

theorem HasRead.quiet_step (h : HasRead s t) (ha : s.Accepts r)
    (hcall : s.recvPkt r = .ok (s', call))
    (hcaught : ∀ e, call.caught = some e → e.cls ≠ .packet) : HasRead s' (t ++ r.bytes) := by
  by_cases hr : ∀ bs, r ≠ .data bs
  · obtain ⟨s'', call', hq, hholds, hcompleted, -⟩ := recvPkt_quiet h.holds ha hr
    rw [hcall] at hq
    have hbytes : r.bytes = [] := by
      cases r with
      | data bs => exact absurd rfl (hr bs)
      | closed k => rfl
      | failed => rfl
    rw [(Prod.mk.inj (Except.ok.inj hq)).1, hbytes, List.append_nil]
    exact ⟨hholds, hcompleted ▸ h.completed⟩
  · obtain ⟨bs, rfl⟩ : ∃ bs, r = .data bs := by simpa using hr
    exact (h.fed ha hcall).2 hcaught

theorem HasRead.quiet_run (h : HasRead s t) (hf : s.Fits rs)
    (hrun : s.recvAll rs = .ok (s', calls))
    (hcaught : ∀ call ∈ calls, ∀ e, call.caught = some e → e.cls ≠ .packet) :
    HasRead s' (t ++ bytesReceived rs) := by
  induction rs generalizing s t calls with
  | nil =>
    rw [← (Prod.mk.inj (Except.ok.inj hrun)).1, bytesReceived_nil, List.append_nil]
    exact h
  | cons r rs ih =>
    obtain ⟨s₁, call, calls', hcall, hrest, hcalls⟩ := recvAll_cons_inv hrun
    rw [hcalls] at hcaught
    rw [bytesReceived_cons, ← List.append_assoc]
    exact ih (h.quiet_step hf.1 hcall (hcaught call List.mem_cons_self)) (hf.2 s₁ call hcall) hrest
      fun call' hmem => hcaught call' (List.mem_cons_of_mem call hmem)

/-- Whatever bytes a peer sends, the packets of a run that comes back are those of the first frames
of the stream, and of all its frames if no packet exception was swallowed. -/
theorem completes_frames (hs : Fresh s₀) (hf : s₀.Fits rs)
    (hrun : s₀.recvAll rs = .ok (s', calls)) :
    (∃ fs, fs <+: (wire.split (bytesReceived rs)).1 ∧ List.Forall₂ Carries s'.completedPkts fs) ∧
      ((∀ call ∈ calls, ∀ e, call.caught = some e → e.cls ≠ .packet) →
        List.Forall₂ Carries s'.completedPkts (wire.split (bytesReceived rs)).1) := by
  have hfed := (Fed.reading hs.hasRead).run hf hrun
  refine ⟨by simpa using hfed.frames, ?_⟩
  intro hcaught
  have hread := hs.hasRead.quiet_run hf hrun hcaught
  simpa using hread.completed

theorem completes_frames_letters :
    ∃ s calls, (idle "127.0.0.1" 8000 5).recvAll (letterChunks.map .data) = .ok (s, calls) ∧
      (∀ call ∈ calls, call.caught = none) ∧
      List.Forall₂ Carries s.completedPkts
        [frameOf 1 2 1 0 1 [0x61], frameOf 1 2 1 0 1 [0x62]] := by
  obtain ⟨hfits, s, calls, hrun, hcaught, -⟩ := letterChunks_run
  have hsplit : (wire.split (bytesReceived (letterChunks.map .data))).1 =
      [frameOf 1 2 1 0 1 [0x61], frameOf 1 2 1 0 1 [0x62]] := by decide
  refine ⟨s, calls, hrun, hcaught, ?_⟩
  rw [← hsplit]
  refine (completes_frames (idle_fresh _ _ _) hfits hrun).2 fun call hcall e he => ?_
  rw [hcaught call hcall] at he
  cases he

theorem same_of_first_frames {ps qs : List Packet} {fs gs : List (List Byte)}
    (hps : List.Forall₂ Carries ps fs) (hqs : List.Forall₂ Carries qs gs) (h : fs <+: gs) :
    ∃ rs, rs <+: qs ∧ List.Forall₂ Same ps rs := by
  obtain ⟨rest, hrest⟩ := h
  rw [← hrest] at hqs
  exact ⟨qs.take fs.length, List.take_prefix _ _,
    same_of_forall₂ hps (List.forall₂_take_append qs fs rest hqs)⟩

/-- However the bytes are cut up: two runs on the same bytes complete the same packets, as far as
both go, and without a packet exception they leave the same connection, so that nothing that is
received later tells them apart. -/
theorem cuts_agree (hs₁ : Fresh s₁) (hf₁ : s₁.Fits rs₁) {t₁ t₂ : RecvState}
    (hrun₁ : s₁.recvAll rs₁ = .ok (t₁, calls₁)) (hs₂ : Fresh s₂) (hf₂ : s₂.Fits rs₂)
    (hrun₂ : s₂.recvAll rs₂ = .ok (t₂, calls₂)) (hbytes : bytesReceived rs₁ = bytesReceived rs₂) :
    ((∃ qs, qs <+: t₂.completedPkts ∧ List.Forall₂ Same t₁.completedPkts qs) ∨
        ∃ qs, qs <+: t₁.completedPkts ∧ List.Forall₂ Same t₂.completedPkts qs) ∧
      ((∀ call ∈ calls₁ ++ calls₂, ∀ e, call.caught = some e → e.cls ≠ .packet) →
        List.Forall₂ Same t₁.completedPkts t₂.completedPkts ∧ ∃ c, Holds t₁ c ∧ Holds t₂ c) := by
  have hfed₁ := (Fed.reading hs₁.hasRead).run hf₁ hrun₁
  have hfed₂ := (Fed.reading hs₂.hasRead).run hf₂ hrun₂
  rw [List.nil_append] at hfed₁ hfed₂
  rw [← hbytes] at hfed₂
  constructor
  · obtain ⟨fs₁, hfs₁, hcarry₁⟩ := hfed₁.frames
    obtain ⟨fs₂, hfs₂, hcarry₂⟩ := hfed₂.frames
    cases List.prefix_or_prefix_of_prefix hfs₁ hfs₂ with
    | inl hle => exact Or.inl (same_of_first_frames hcarry₁ hcarry₂ hle)
    | inr hle => exact Or.inr (same_of_first_frames hcarry₂ hcarry₁ hle)
  · intro hcaught
    have hread₁ := hs₁.hasRead.quiet_run hf₁ hrun₁
      fun call hmem => hcaught call (List.mem_append_left _ hmem)
    have hread₂ := hs₂.hasRead.quiet_run hf₂ hrun₂
      fun call hmem => hcaught call (List.mem_append_right _ hmem)
    rw [← hbytes] at hread₂
    exact ⟨same_of_forall₂ hread₁.completed hread₂.completed, _, hread₁.holds, hread₂.holds⟩

/-- Two packets in three chunks, and in one. -/
theorem cuts_agree_letters :
    ∃ t₁ t₂ calls₁ calls₂,
      (idle "127.0.0.1" 8000 5).recvAll (letterChunks.map .data) = .ok (t₁, calls₁) ∧
      (idle "127.0.0.1" 8000 5).recvAll [.data letterChunks.flatten] = .ok (t₂, calls₂) ∧
      t₁.completedPkts.length = 2 ∧ List.Forall₂ Same t₁.completedPkts t₂.completedPkts := by
  obtain ⟨hfits₁, t₁, calls₁, hrun₁, hcaught₁, hgrew, -⟩ := letterChunks_run
  have hrest : (wire.split ([] ++ letterChunks.flatten)).2 = [] := by decide
  have hwhole : Whole [] [letterChunks.flatten] := by
    apply Whole.cons Framer.isOpen_nil (by simp)
    rw [hrest]
    exact whole_nil
  obtain ⟨hfits₂, t₂, calls₂, hrun₂, hcaught₂, -⟩ :=
    recvAll_of_whole (idle_fresh "127.0.0.1" 8000 5).ready Framer.isOpen_nil letters_isFrame
      (by decide) (by decide) hwhole
  refine ⟨t₁, t₂, calls₁, calls₂, hrun₁, hrun₂, hgrew.length, ((cuts_agree (idle_fresh _ _ _) hfits₁
    hrun₁ (idle_fresh _ _ _) hfits₂ hrun₂ (by decide)).2 fun call hcall e he => ?_).1⟩
  rw [(List.mem_append.mp hcall).elim (hcaught₁ call) (hcaught₂ call)] at he
  cases he

end RecvState

end P2Purr
