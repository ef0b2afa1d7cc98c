import P2Purr.Delivery
import P2Purr.Sending
import P2Purr.HangUp
import P2Purr.Pipe

namespace P2Purr
open Memory Framing Runs

/-- A chunk that ends a frame's first three bytes which an earlier chunk has begun. -/
def Torn (kept bs : List Byte) : Prop :=
  (kept.length = 1 ∨ kept.length = 2) ∧ 3 ≤ kept.length + bs.length

instance (kept bs : List Byte) : Decidable (Torn kept bs) := instDecidableAnd

namespace Conn

variable {c : Conn} {bs : List Byte}

theorem last_of_cut (hpos : c.pos = 0) (hcut : c.kept.length = 1 ∨ c.kept.length = 2) :
    c.last bs = (c.kept, bs) := by
  rw [last, c.fresh_of_pos hpos]
  exact (unfinished_kept (Or.inr hcut)).1

theorem intake_of_two (h : Partial c.kept) (hpos : c.pos = 0) (hne : bs ≠ [])
    (hcut : c.kept.length = 1 ∨ c.kept.length = 2) (hshort : c.kept.length + bs.length < 3) :
    c.intake bs =
      ((wire.split (c.kept ++ bs)).1, .waits ⟨(wire.split (c.kept ++ bs)).2, 0⟩) := by
  have hlast := @last_of_cut c bs hpos hcut
  have hentered : ¬ Entered c.kept bs := by
    intro he
    have := he.three
    rw [List.length_append] at this
    omega
  have hsound : Sound c.kept bs bs.length := by
    refine ⟨by omega, fun h3 => ?_, fun h3 => ?_, fun hlt => ?_⟩
    · rw [List.length_append] at h3
      omega
    · rw [List.length_append] at h3
      omega
    · rw [List.length_append, hdrEnd] at hlt
      omega
  cases hend : (c.intake bs).2 with
  | waits c' =>
    have hpair : c.intake bs = ((c.intake bs).1, .waits c') := by rw [← hend]
    obtain ⟨hframes, hc'⟩ := intake_of_waits h hpos hne hpair
    rw [hpair, hframes, hc']
  | throws msg c' =>
    have hrejected := ((intake_throws_iff h).mp ⟨msg, c', hend⟩).2
    rw [hlast] at hrejected
    exact absurd hrejected.entered hentered
  | hangs =>
    have hoverlong := ((intake_hangs_iff h).mp hend).2
    rw [hlast] at hoverlong
    exact absurd hoverlong.entered hentered
  | faults f =>
    apply absurd _ ((intake_faults_iff h).mp ⟨f, hend⟩)
    intro _ _
    rwa [hlast]

/-- A call on a stream of frames, whichever way it is cut. -/
theorem intake_of_start (h : Partial c.kept) (hpos : c.pos = 0) (hne : bs ≠ [])
    (hstart : wire.IsStart (c.kept ++ bs)) :
    if Torn c.kept bs then ∃ f, (c.intake bs).2 = .faults f
    else c.intake bs =
      ((wire.split (c.kept ++ bs)).1, .waits ⟨(wire.split (c.kept ++ bs)).2, 0⟩) := by
  have hlen := List.length_pos_iff.mpr hne
  by_cases hcut : c.kept.length = 1 ∨ c.kept.length = 2
  · have hlast := @last_of_cut c bs hpos hcut
    split
    · rename_i htorn
      apply (intake_faults_iff h).mpr
      intro hs
      have hwhole := (hs (by omega) (by rwa [hlast])).whole
      simp only [hlast, List.length_append] at hwhole
      have := hwhole htorn.2
      omega
    · rename_i htorn
      have hshort : c.kept.length + bs.length < 3 := by
        by_contra h3
        exact htorn ⟨hcut, Nat.le_of_not_lt h3⟩
      exact intake_of_two h hpos hne hcut hshort
  · have hwhole : c.kept.length ≠ 1 ∧ c.kept.length ≠ 2 := not_or.mp hcut
    rw [if_neg fun htorn => hcut htorn.1]
    exact intake_of_begun h hpos hwhole hne hstart.begun

end Conn

namespace RecvState

structure HasRead (s : RecvState) (bytes : List Byte) : Prop where
  holds : Holds s ⟨(wire.split bytes).2, 0⟩
  completed : List.Forall₂ Carries s.completedPkts (wire.split bytes).1

variable {s s' : RecvState} {bytes bs : List Byte} {r : RecvResult} {call : RecvCall}

theorem Fresh.hasRead (h : Fresh s) : HasRead s [] := by
  refine ⟨by simpa using h.holds, ?_⟩
  rw [h.init.1, Framer.split_nil]
  exact .nil

theorem HasRead.withOutFile (h : HasRead s bytes) (o : OutFile) :
    HasRead { s with outFile := o } bytes := ⟨h.holds.withOutFile o, h.completed⟩

/-- One call that receives more of the stream: a torn prefix aside, it comes back with the frames
that have become complete, and catches nothing. -/
theorem HasRead.data (h : HasRead s bytes) (ha : s.Accepts (.data bs))
    (hstart : wire.IsStart (bytes ++ bs)) :
    if Torn (wire.split bytes).2 bs then ∃ f, s.recvPkt (.data bs) = .error (.fault f)
    else ∃ s', s.recvPkt (.data bs) = .ok (s', { returned := s'.latest }) ∧
      HasRead s' (bytes ++ bs) := by
  have hrest : wire.IsStart ((wire.split bytes).2 ++ bs) := hstart.rest
  have hintake := Conn.intake_of_start (c := ⟨(wire.split bytes).2, 0⟩) h.holds.isPartial rfl
    ha.2.1 hrest
  split at hintake
  · rename_i htorn
    obtain ⟨f, hf⟩ := hintake
    rw [if_pos htorn]
    exact ⟨f, (recvPkt_data_error_iff h.holds ha).mpr (Or.inr ⟨f, hf, rfl⟩)⟩
  · rename_i htorn
    rw [if_neg htorn]
    have hdata := recvPkt_data h.holds ha
    rw [hintake] at hdata
    obtain ⟨s', hs', hgrew, hholds⟩ := hdata
    obtain ⟨ps, hps, hcarry⟩ := hgrew.completed
    refine ⟨s', hs', ?_, ?_⟩
    · rw [wire.split_append]
      exact hholds
    · rw [wire.split_append, hps]
      exact List.rel_append h.completed hcarry

/-- What a call takes off the wire: of a socket that is closed nothing is received. -/
def taken (s : RecvState) (r : RecvResult) : List Byte :=
  if s.sockHelper.isSockOpen then r.bytes else []

theorem HasRead.step (h : HasRead s bytes) (hstart : wire.IsStart (bytes ++ s.taken r))
    (hcall : s.recvPkt r = .ok (s', call)) :
    HasRead s' (bytes ++ s.taken r) ∧ (r ≠ .failed → call.caught = none) ∧
      (call.returned = none ∨ call.returned = s'.latest) := by
  cases hopen : s.sockHelper.isSockOpen with
  | false =>
    rw [recvPkt_of_not_open hopen] at hcall
    obtain ⟨hs, hc⟩ := Prod.mk.inj (Except.ok.inj hcall)
    rw [← hs, ← hc, taken, hopen]
    exact ⟨by simpa using h, fun _ => rfl, Or.inr rfl⟩
  | true =>
    rw [taken, hopen] at hstart ⊢
    cases r with
    | data bs =>
      have ha := accepts_of_ok h.holds hopen hcall
      have hdata := h.data ha hstart
      split at hdata
      · obtain ⟨f, hf⟩ := hdata
        rw [hf] at hcall
        cases hcall
      · obtain ⟨s₁, hs₁, hread⟩ := hdata
        rw [hs₁] at hcall
        obtain ⟨hs, hc⟩ := Prod.mk.inj (Except.ok.inj hcall)
        rw [← hs, ← hc]
        exact ⟨hread, fun _ => rfl, Or.inr rfl⟩
    | closed k =>
      rw [recvPkt_closed h.holds hopen] at hcall
      obtain ⟨hs, hc⟩ := Prod.mk.inj (Except.ok.inj hcall)
      rw [← hs, ← hc]
      refine ⟨?_, fun _ => rfl, Or.inr rfl⟩
      rw [RecvResult.bytes, if_pos rfl, List.append_nil]
      have hsame := h.holds
      exact ⟨⟨hsame.tracks, hsame.index, hsame.size, hsame.room⟩, h.completed⟩
    | failed =>
      rw [recvPkt_failed h.holds hopen] at hcall
      obtain ⟨hs, hc⟩ := Prod.mk.inj (Except.ok.inj hcall)
      rw [← hs, ← hc]
      exact ⟨by simpa [RecvResult.bytes] using h, fun hne => absurd rfl hne, Or.inl rfl⟩

theorem latest_eq_some {ref : PacketRef} (h : s.latest = some ref) :
    s.completedPkts[ref.index]? = some ref.pkt := by
  obtain ⟨pkt, hpkt, href⟩ := Option.map_eq_some_iff.mp h
  rw [← href, ← List.getLast?_eq_getElem?, hpkt]

/-- The receiver has completed the first ones of the packets that went out whole, and all of them
once it has read everything. -/
theorem HasRead.delivers {p : Pipe Byte} {o : Outbox wire} {ps : List Packet}
    (h : HasRead s p.read) (hwritten : p.written = o.bytes)
    (hcarry : List.Forall₂ Carries ps o.frames) :
    (∃ qs, qs <+: ps ∧ List.Forall₂ Same qs s.completedPkts) ∧
      (p.underWay = [] → List.Forall₂ Same ps s.completedPkts) := by
  obtain ⟨hfirst, hall⟩ := Outbox.arrived hwritten
  constructor
  · refine ⟨ps.take (wire.split p.read).1.length, List.take_prefix _ _, ?_⟩
    have htake := List.forall₂_take (wire.split p.read).1.length hcarry
    rw [← List.prefix_iff_eq_take.mp hfirst] at htake
    exact same_of_forall₂ htake h.completed
  · intro hnone
    have hcompleted := h.completed
    rw [hall hnone] at hcompleted
    exact same_of_forall₂ hcarry hcompleted

end RecvState

namespace PeerConnHandler

variable {k : Kernel} {p : Packet} {f : List Byte} {sent sent' : Sent}
  {caught : Option GenericException} {o : Outbox wire}

/-- As long as nothing went out in part before it, a packet goes out whole, in part, or not at
all. -/
theorem sendPkt_outbox (hbytes : sent.bytes = o.bytes) (hf : wire.IsFrame f) (hp : Carries p f)
    (hcall : sendPkt k p sent = .ok (sent', caught))
    (hclear : sent'.bytes ≠ sent.bytes → o.part = []) :
    sent.bytes <+: sent'.bytes ∧ ∃ o' : Outbox wire, sent'.bytes = o'.bytes ∧
      o'.frames = o.frames ++ if caught.isNone then [f] else [] := by
  have hpos := wire.size_pos hf
  have hle := k.takesAux_le f.length sent.calls f.length
  rw [sendPkt_spec hp] at hcall
  obtain ⟨hsent, hcaught⟩ := Prod.mk.inj (Except.ok.inj hcall)
  unfold Kernel.takes at hsent hcaught
  generalize (k.takesAux f.length sent.calls f.length).1 = n at hle hsent hcaught
  rw [← hsent]
  refine ⟨List.prefix_append _ _, ?_⟩
  have hpart : 0 < n → o.part = [] := by
    intro hn
    apply hclear
    rw [← hsent]
    intro hsame
    have hlen := congrArg List.length hsame
    rw [List.length_append, List.length_take] at hlen
    omega
  by_cases hall : n = f.length
  · rw [if_pos hall] at hcaught
    refine ⟨o.push hf, ?_, by rw [← hcaught]; rfl⟩
    rw [Outbox.push_bytes hf (hpart (by omega)), hall, List.take_length, hbytes]
  · rw [if_neg hall] at hcaught
    have hkept : ∀ fs : List (List Byte), fs = fs ++ if caught.isNone then [f] else [] := by
      intro fs
      rw [← hcaught]
      simp
    by_cases hnone : n = 0
    · exact ⟨o, by simp [hnone, hbytes], hkept o.frames⟩
    · have hlt : n < f.length := by omega
      refine ⟨o.pushPart hf hlt, ?_, hkept o.frames⟩
      rw [Outbox.pushPart_bytes hf hlt (hpart (by omega)), hbytes]

end PeerConnHandler

structure Link where
  sent : Sent := {}
  pipe : Pipe Byte := {}
  receiver : RecvState

namespace Link

inductive Event
  | sendPkt (p : Packet) (caught : Option GenericException)
  | recvPkt (r : RecvResult) (call : RecvCall)

inductive Step (k : Kernel) (l : Link) : Event → Link → Prop
  | sendPkt {p sent caught} (h : PeerConnHandler.sendPkt k p l.sent = .ok (sent, caught)) :
      Step k l (.sendPkt p caught)
        { l with sent := sent, pipe := l.pipe.write (sent.bytes.drop l.sent.bytes.length) }
  | recvPkt {r rest receiver call} (hwire : l.pipe.underWay = l.receiver.taken r ++ rest)
      (h : l.receiver.recvPkt r = .ok (receiver, call)) :
      Step k l (.recvPkt r call)
        { l with pipe := l.pipe.take (l.receiver.taken r) rest, receiver := receiver }

def accepted (ts : List (Transition Link Event)) : List Packet :=
  ts.filterMap fun t =>
    match t.event with
    | .sendPkt p none => some p
    | _ => none

/-- A packet that is sent has a frame, and if any of it goes out, then behind whole packets. -/
def Orderly (t : Transition Link Event) : Prop :=
  match t.event with
  | .sendPkt p _ => (∃ f, wire.IsFrame f ∧ Carries p f) ∧
      (t.after.sent.bytes ≠ t.before.sent.bytes → (wire.split t.before.sent.bytes).2 = [])
  | .recvPkt _ _ => True

/-- What has been sent, when these packets went out whole, and what of it has been read. -/
structure Connects (ps : List Packet) (l : Link) : Prop where
  outbox : ∃ o : Outbox wire, l.sent.bytes = o.bytes ∧ List.Forall₂ Carries ps o.frames
  written : l.pipe.written = l.sent.bytes
  hasRead : l.receiver.HasRead l.pipe.read

variable {k : Kernel} {l l' : Link} {ps : List Packet} {e : Event} {r₀ : RecvState}
  {ts : List (Transition Link Event)} {bs : List Byte}

theorem accepted_snoc (t : Transition Link Event) :
    accepted (ts ++ [t]) = accepted ts ++ accepted [t] := List.filterMap_append

theorem Connects.isStart (h : Connects ps l) (hbs : bs <+: l.pipe.underWay) :
    wire.IsStart (l.pipe.read ++ bs) := by
  obtain ⟨o, hbytes, -⟩ := h.outbox
  apply o.isStart.of_prefix
  rw [← hbytes, ← h.written]
  exact (List.prefix_append_right_inj _).mpr hbs

theorem Connects.step (h : Connects ps l) (hstep : Step k l e l') (ho : Orderly ⟨l, e, l'⟩) :
    Connects (ps ++ accepted [⟨l, e, l'⟩]) l' := by
  cases hstep with
  | @sendPkt p sent caught hcall =>
    obtain ⟨⟨f, hf, hp⟩, hclear⟩ := ho
    obtain ⟨o, hbytes, hcarry⟩ := h.outbox
    have hpart : sent.bytes ≠ l.sent.bytes → o.part = [] := by
      intro hne
      have hnil := hclear hne
      rwa [hbytes, o.split_bytes] at hnil
    obtain ⟨⟨t, ht⟩, o', hbytes', hframes⟩ :=
      PeerConnHandler.sendPkt_outbox hbytes hf hp hcall hpart
    refine ⟨⟨o', hbytes', ?_⟩, ?_, h.hasRead⟩
    · rw [hframes]
      apply List.rel_append hcarry
      cases caught with
      | none => exact .cons hp .nil
      | some e => exact .nil
    · rw [Pipe.write_written, h.written, ← ht, List.drop_left]
  | @recvPkt r rest receiver call hwire hcall =>
    have hstart := h.isStart ⟨rest, hwire.symm⟩
    refine ⟨by simpa [accepted] using h.outbox, ?_, (h.hasRead.step hstart hcall).1⟩
    rw [Pipe.take_written hwire]
    exact h.written

theorem connects_start (h₀ : r₀.Fresh) : Connects [] { receiver := r₀ } :=
  ⟨⟨Outbox.empty wire, rfl, .nil⟩, rfl, h₀.hasRead⟩

theorem connects (h₀ : r₀.Fresh) (hrun : Run (Step k) { receiver := r₀ } ts l)
    (horder : ∀ t ∈ ts, Orderly t) : Connects (accepted ts) l := by
  apply hrun.traces (fun ts l => Connects (accepted ts) l) Orderly _ _ horder
  · exact connects_start h₀
  · intro ts l e l' h hstep ho
    rw [accepted_snoc]
    exact h.step hstep ho

/-- Nothing is lost, doubled, swapped or altered between the two ends, whichever way the calls
interleave and the stream is cut: the receiver has the first ones of the packets whose `send_pkt`
caught nothing, and all of them once nothing is under way.  It catches nothing while it receives. -/
theorem delivers_accepted (h₀ : r₀.Fresh) (hrun : Run (Step k) { receiver := r₀ } ts l)
    (horder : ∀ t ∈ ts, Orderly t) :
    (∃ qs, qs <+: accepted ts ∧ List.Forall₂ RecvState.Same qs l.receiver.completedPkts) ∧
      (l.pipe.underWay = [] →
        List.Forall₂ RecvState.Same (accepted ts) l.receiver.completedPkts) ∧
      ∀ t ∈ ts, ∀ bs call, t.event = .recvPkt (.data bs) call → call.caught = none := by
  have hconn := connects h₀ hrun horder
  obtain ⟨o, hbytes, hcarry⟩ := hconn.outbox
  obtain ⟨hfirst, hall⟩ := hconn.hasRead.delivers (hconn.written.trans hbytes) hcarry
  refine ⟨hfirst, hall, ?_⟩
  have hevery := (hrun.keeps (fun l => ∃ ps, Connects ps l) Orderly
    ⟨[], connects_start h₀⟩
    (fun l e l' hl hstep ho => hl.elim fun ps h => ⟨_, h.step hstep ho⟩) horder).2
  intro t ht bs call hevent
  obtain ⟨⟨ps, hbefore⟩, hstep⟩ := hevery t ht
  rw [hevent] at hstep
  generalize t.after = after at hstep
  cases hstep with
  | recvPkt hwire hcall =>
    have hstart := hbefore.isStart ⟨_, hwire.symm⟩
    exact (hbefore.hasRead.step hstart hcall).2.1 (by simp)

/-- At any time, a chunk of what is under way is taken exactly if it does not complete a prefix of
three bytes that an earlier chunk has begun; one that does makes a wrong access. -/
theorem recvPkt_iff (h₀ : r₀.Fresh) (hrun : Run (Step k) { receiver := r₀ } ts l)
    (horder : ∀ t ∈ ts, Orderly t) (hwire : bs <+: l.pipe.underWay)
    (ha : l.receiver.Accepts (.data bs)) :
    ((∃ call l', Step k l (.recvPkt (.data bs) call) l') ↔
        ¬ Torn (wire.split l.pipe.read).2 bs) ∧
      (Torn (wire.split l.pipe.read).2 bs →
        ∃ f, l.receiver.recvPkt (.data bs) = .error (.fault f)) := by
  have hconn := connects h₀ hrun horder
  have hdata := hconn.hasRead.data ha (hconn.isStart hwire)
  have htaken : l.receiver.taken (.data bs) = bs := if_pos ha.1
  obtain ⟨rest, hrest⟩ := hwire
  split at hdata
  · rename_i htorn
    obtain ⟨f, hf⟩ := hdata
    refine ⟨iff_of_false ?_ (not_not.mpr htorn), fun _ => ⟨f, hf⟩⟩
    intro hcalls
    obtain ⟨call, l', hstep⟩ := hcalls
    cases hstep with
    | recvPkt _ hcall =>
      rw [hf] at hcall
      cases hcall
  · rename_i htorn
    obtain ⟨s', hs', -⟩ := hdata
    refine ⟨iff_of_true ⟨_, _, @Step.recvPkt k l _ rest _ _ ?_ hs'⟩ htorn, fun h => absurd h htorn⟩
    rw [htaken, hrest]

theorem orderly_recvPkt (h : ∀ t ∈ ts, Orderly t) {r : RecvResult} {call : RecvCall} :
    ∀ t ∈ ts ++ [⟨l, .recvPkt r call, l'⟩], Orderly t := by
  intro t ht
  rcases List.mem_append.mp ht with hmem | hmem
  · exact h t hmem
  · rw [List.mem_singleton.mp hmem]
    trivial

theorem exists_sent_letter :
    ∃ p l, Run (Step PeerConnHandler.eager) { receiver := RecvState.idle "127.0.0.1" 8000 5 }
        [⟨{ receiver := RecvState.idle "127.0.0.1" 8000 5 }, .sendPkt p none, l⟩] l ∧
      (∀ t ∈ [(⟨{ receiver := RecvState.idle "127.0.0.1" 8000 5 }, .sendPkt p none, l⟩ :
        Transition Link Event)], Orderly t) ∧
      l.receiver = RecvState.idle "127.0.0.1" 8000 5 ∧
      l.pipe = { underWay := [0xFF, 0, 9, 1, 2, 1, 0, 1, 0, 0, 0, 1, 0x61] } := by
  obtain ⟨p, -, hmade, hbytes⟩ := RecvState.exists_letter 0x61
  obtain ⟨hframe, hcarries⟩ := hmade.carries hbytes
  have hsend := PeerConnHandler.sendPkt_spec hcarries PeerConnHandler.eager {}
  have htakes : (PeerConnHandler.eager.takes 0 13).1 = 13 := by decide
  simp only [frameOf_length, List.length_singleton, Nat.reduceAdd, htakes, ↓reduceIte] at hsend
  have hnil : Run (Step PeerConnHandler.eager) { receiver := RecvState.idle "127.0.0.1" 8000 5 }
    [] { receiver := RecvState.idle "127.0.0.1" 8000 5 } := Run.nil
  refine ⟨p, _, hnil.snoc (Step.sendPkt hsend), ?_, rfl, rfl⟩
  intro t ht
  rw [List.mem_singleton.mp ht]
  exact ⟨⟨_, hframe, hcarries⟩, fun _ => by simp⟩

theorem delivers_accepted_letter :
    ∃ p ts l, Run (Step PeerConnHandler.eager)
        { receiver := RecvState.idle "127.0.0.1" 8000 5 } ts l ∧
      accepted ts = [p] ∧ List.Forall₂ RecvState.Same [p] l.receiver.completedPkts := by
  obtain ⟨p, l, hrun, horder, hreceiver, hpipe⟩ := exists_sent_letter
  have hconn := connects (RecvState.idle_fresh "127.0.0.1" 8000 5) hrun horder
  have ha : l.receiver.Accepts (.data [0xFF, 0, 9, 1, 2, 1, 0, 1, 0, 0, 0, 1, 0x61]) := by
    rw [hreceiver]
    exact (RecvState.idle_fresh _ _ _).ready.accepts (by decide)
  have hdata := hconn.hasRead.data ha (hconn.isStart (hpipe ▸ List.prefix_refl _))
  rw [hpipe, Framer.split_nil, if_neg (by decide)] at hdata
  obtain ⟨s', hs', -⟩ := hdata
  have hwire : l.pipe.underWay =
      l.receiver.taken (.data [0xFF, 0, 9, 1, 2, 1, 0, 1, 0, 0, 0, 1, 0x61]) ++ [] := by
    rw [hpipe, hreceiver]
    rfl
  have hrun' := hrun.snoc (Step.recvPkt hwire hs')
  exact ⟨p, _, _, hrun', rfl,
    (delivers_accepted (RecvState.idle_fresh _ _ _) hrun' (orderly_recvPkt horder)).2.1 rfl⟩

/-- The frame's first byte is taken, and then the chunk that ends its first three faults. -/
theorem recvPkt_iff_letter :
    ∃ ts l call l' f, Run (Step PeerConnHandler.eager)
        { receiver := RecvState.idle "127.0.0.1" 8000 5 } ts l ∧
      l.pipe.underWay = frameOf 1 2 1 0 1 [0x61] ∧
      Step PeerConnHandler.eager l (.recvPkt (.data [0xFF]) call) l' ∧
      l'.receiver.recvPkt (.data [0, 9]) = .error (.fault f) := by
  have hfresh := RecvState.idle_fresh "127.0.0.1" 8000 5
  obtain ⟨p, l, hrun, horder, hreceiver, hpipe⟩ := exists_sent_letter
  have ha : l.receiver.Accepts (.data [0xFF]) := by
    rw [hreceiver]
    exact hfresh.ready.accepts (by decide)
  have hwire : [0xFF] <+: l.pipe.underWay := by
    rw [hpipe]
    exact ⟨[0, 9, 1, 2, 1, 0, 1, 0, 0, 0, 1, 0x61], rfl⟩
  have hreads : ∃ call l', Step PeerConnHandler.eager l (.recvPkt (.data [0xFF]) call) l' := by
    refine (recvPkt_iff hfresh hrun horder hwire ha).1.mpr ?_
    rw [hpipe, Framer.split_nil]
    decide
  obtain ⟨call, l', hstep⟩ := hreads
  have hrun' := hrun.snoc hstep
  obtain ⟨hread, hwire', ha'⟩ : l'.pipe.read = [0xFF] ∧
      [0, 9] <+: l'.pipe.underWay ∧ l'.receiver.Accepts (.data [0, 9]) := by
    cases hstep with
    | @recvPkt _ rest receiver _ htaken hcall =>
      have htake : l.receiver.taken (.data [0xFF]) = [0xFF] := if_pos ha.1
      have hholds : RecvState.Holds l.receiver {} := hreceiver ▸ hfresh.holds
      obtain ⟨frames, hgrew, hnext, -⟩ := RecvState.recvPkt_data_ok hholds ha hcall
      rw [htake, hpipe] at htaken
      refine ⟨by rw [Pipe.take_read, htake, hpipe]; rfl, ?_, ?_, by simp, ?_⟩
      · obtain rfl := (List.cons.inj htaken).2
        exact ⟨[1, 2, 1, 0, 1, 0, 0, 0, 1, 0x61], rfl⟩
      · rw [hgrew.sockHelper]
        exact ha.1
      · have hidx : receiver.currBuffIdx = 0 := by rw [hnext.index]; decide
        rw [hgrew.buffSize, hreceiver, hidx]
        decide
  have htorn : Torn (wire.split l'.pipe.read).2 [0, 9] := by
    rw [hread]
    decide
  obtain ⟨f, hf⟩ := (recvPkt_iff hfresh hrun' (orderly_recvPkt horder) hwire' ha').2 htorn
  exact ⟨_, l, call, l', f, hrun, by rw [hpipe]; rfl, hstep, hf⟩

end Link

end P2Purr
