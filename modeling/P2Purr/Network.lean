import P2Purr.Isolation

namespace P2Purr
open Memory Framing Runs

namespace Process

def taken (s : Process) (fd : ℤ) (r : RecvResult) : List Byte :=
  match s.sockToPeerMap.lookup fd with
  | none => []
  | some peer => RecvState.taken { toPeerConnHandler := peer } r

theorem taken_eq {s : Process} {fd : ℤ} {peer : PeerConnHandler} {r : RecvResult} {o : OutFile}
    (h : s.sockToPeerMap.lookup fd = some peer) :
    s.taken fd r = RecvState.taken { toPeerConnHandler := peer, outFile := o } r := by
  rw [taken, h]
  rfl

def entered (s : Process) (made : Option (ℤ × PeerConnHandler)) : Option ℤ :=
  made.bind fun e => if e.1 ∈ s.keys then none else some e.1

end Process

namespace RecvState

/-- What holds at the start, and after every call that comes back, whatever it has received. -/
structure Lasts (R : RecvState → List Byte → Prop) : Prop where
  begins : ∀ {s}, HasRead s [] → R s []
  step : ∀ {s t r s' call}, R s t → s.recvPkt r = .ok (s', call) → R s' (t ++ s.taken r)
  withOutFile : ∀ {s t}, R s t → ∀ o : OutFile, R { s with outFile := o } t

theorem lasts_hasRead : Lasts fun s t => wire.IsStart t → HasRead s t where
  begins h _ := h
  step h hcall hstart := ((h (hstart.of_prefix (List.prefix_append _ _))).step hstart hcall).1
  withOutFile h o hstart := (h hstart).withOutFile o

theorem returned_latest {s s' : RecvState} {r : RecvResult} {call : RecvCall}
    (hcall : s.recvPkt r = .ok (s', call)) : call.returned = none ∨ call.returned = s'.latest := by
  unfold recvPkt at hcall
  split at hcall
  · cases hcall
  · rw [← (Prod.mk.inj (Except.ok.inj hcall)).2]
    exact Or.inl rfl
  · split at hcall
    · cases hcall
    · rw [← (Prod.mk.inj (Except.ok.inj hcall)).2]
      exact Or.inl rfl
    · obtain ⟨hs, hc⟩ := Prod.mk.inj (Except.ok.inj hcall)
      rw [← hs, ← hc]
      exact Or.inr rfl

end RecvState

/-- By the descriptor, what the other end has written. -/
structure Network where
  server : Process
  pipe : ℤ → Pipe Byte := fun _ => {}

namespace Network

inductive Event
  | write (fd : ℤ) (bs : List Byte)
  | handle (fd : ℤ) (r : RecvResult) (passed : Option (String × UInt16 × PacketRef))
  | serve (e : Process.Event)

inductive Step (n : Network) : Event → Network → Prop
  | write (fd : ℤ) (bs : List Byte) :
      Step n (.write fd bs)
        { n with pipe := Function.update n.pipe fd ((n.pipe fd).write bs) }
  | handle {fd r rest s' passed} (hwire : (n.pipe fd).underWay = n.server.taken fd r ++ rest)
      (h : n.server.handleClientCommunications fd r = .ok (s', passed)) :
      Step n (.handle fd r passed)
        { server := s'
          pipe := Function.update n.pipe fd ((n.pipe fd).take (n.server.taken fd r) rest) }
  | serve {e s'} (h : Process.Step n.server e s')
      (hop : ∀ fd r, e.op ≠ .handleClientCommunications fd r) :
      Step n (.serve e)
        { server := s'
          pipe :=
            match n.server.entered e.made with
            | none => n.pipe
            | some fd => Function.update n.pipe fd {} }

structure Along (R : RecvState → List Byte → Prop) (n : Network) : Prop where
  sane : n.server.Sane
  reads : ∀ fd peer, (fd, peer) ∈ n.server.sockToPeerMap →
    R { toPeerConnHandler := peer } (n.pipe fd).read

variable {R : RecvState → List Byte → Prop} {n n' : Network} {fd : ℤ} {peer : PeerConnHandler}
  {e : Event}

theorem Along.write (h : Along R n) (fd : ℤ) (bs : List Byte) :
    Along R { n with pipe := Function.update n.pipe fd ((n.pipe fd).write bs) } := by
  refine ⟨h.sane, ?_⟩
  intro x p hp
  simp only at hp ⊢
  by_cases hx : x = fd
  · rw [hx, Function.update_self, Pipe.write_read, ← hx]
    exact h.reads x p hp
  · rw [Function.update_of_ne hx]
    exact h.reads x p hp

theorem Along.handle (hlasts : RecvState.Lasts R) (h : Along R n) {r : RecvResult}
    {rest : List Byte} {s' : Process} {passed : Option (String × UInt16 × PacketRef)}
    (hcall : n.server.handleClientCommunications fd r = .ok (s', passed)) :
    Along R {
      server := s'
      pipe := Function.update n.pipe fd ((n.pipe fd).take (n.server.taken fd r) rest) } := by
  have hstep : Process.Step n.server ⟨.handleClientCommunications fd r, none⟩ s' :=
    Process.Step.handleClientCommunications hcall
  refine ⟨h.sane.step hstep, ?_⟩
  intro x p hp
  simp only at hp ⊢
  cases hfound : n.server.sockToPeerMap.lookup fd with
  | none =>
    have htaken : n.server.taken fd r = [] := by rw [Process.taken, hfound]
    rw [Process.handleClientCommunications_of_none hfound] at hcall
    rw [← (Prod.mk.inj (Except.ok.inj hcall)).1] at hp
    by_cases hx : x = fd
    · rw [hx, Function.update_self, Pipe.take_read, htaken, List.append_nil, ← hx]
      exact h.reads x p hp
    · rw [Function.update_of_ne hx]
      exact h.reads x p hp
  | some old =>
    rw [Process.handleClientCommunications_of_lookup hfound] at hcall
    obtain ⟨⟨t, call⟩, hrecv, hs'⟩ := bind_eq_ok.mp hcall
    rw [← (Prod.mk.inj (Except.ok.inj hs')).1, Process.released_toP2PurrServer] at hp
    cases Process.mem_replacePeer hp with
    | inl hsame =>
      -- the handler itself: it has read what it took
      rw [hsame.1, Function.update_self, Pipe.take_read, Process.taken_eq hfound, hsame.2]
      have hold := h.reads fd old (Process.mem_of_lookup hfound)
      exact hlasts.withOutFile (hlasts.step (hlasts.withOutFile hold n.server.outFile) hrecv) {}
    | inr hother =>
      rw [Function.update_of_ne hother.1]
      exact h.reads x p hother.2

theorem Along.opened (h : Along R n) {s' : Process} {made : Option (ℤ × PeerConnHandler)}
    (hsane : s'.Sane) (hopened : Process.Opened n.server fd made s')
    (hbegins : ∀ peer, made = some (fd, peer) → R { toPeerConnHandler := peer } []) :
    Along R { server := s'
              pipe := match n.server.entered made with
                | none => n.pipe
                | some fd => Function.update n.pipe fd {} } := by
  refine ⟨hsane, ?_⟩
  cases hopened with
  | nothing hserver _ =>
    intro x p hp
    rw [hserver] at hp
    exact h.reads x p hp
  | @entered peer k hown =>
    cases hfound : n.server.sockToPeerMap.lookup fd with
    | none =>
      have hnew : fd ∉ n.server.keys := Process.not_mem_of_lookup hfound
      rw [Process.enter_of_none (by exact hfound)]
      intro x p hp
      simp only [Process.entered, Option.bind_some, if_neg hnew]
      rcases List.mem_cons.mp hp with hsame | hother
      · rw [(Prod.mk.inj hsame).1, (Prod.mk.inj hsame).2, Function.update_self]
        exact hbegins peer rfl
      · have hne : x ≠ fd := by
          intro hx
          exact hnew (hx ▸ Process.mem_keys hother)
        rw [Function.update_of_ne hne]
        exact h.reads x p hother
    | some old =>
      have hkey : fd ∈ n.server.keys := Process.mem_keys (Process.mem_of_lookup hfound)
      rw [Process.enter_of_some (by exact hfound)]
      intro x p hp
      simp only [Process.entered, Option.bind_some, if_pos hkey]
      rw [Process.destroy_toP2PurrServer] at hp
      exact h.reads x p hp

theorem Along.step (hlasts : RecvState.Lasts R) (h : Along R n) (hstep : Step n e n') :
    Along R n' := by
  cases hstep with
  | write fd bs => exact h.write fd bs
  | handle _ hcall => exact h.handle hlasts hcall
  | @serve e s' hserve hop =>
    have hsane := h.sane.step hserve
    have hbegins : ∀ fd peer, e.made = some (fd, peer) → R { toPeerConnHandler := peer } [] :=
      fun _ _ hmade => hlasts.begins (hserve.made_hasRead hmade {})
    cases hserve with
    | handleNewClient _ hcall =>
      exact h.opened hsane (Process.handleNewClient_opened hcall) (hbegins _)
    | connectToPeer _ hcall =>
      exact h.opened hsane (Process.connectToPeer_opened hcall) (hbegins _)
    | handleClientCommunications _ => exact absurd rfl (hop _ _)
    | @removeDisconnectedPeers order horder =>
      refine ⟨hsane, ?_⟩
      intro x p hp
      have hmem := (Process.mem_removed h.sane.running horder).mp hp
      exact h.reads x p hmem.1

/-- What a handler keeps as it reads holds all along a run. -/
theorem along {s₀ : Process} {ts : List (Transition Network Event)} (hlasts : RecvState.Lasts R)
    (h₀ : s₀.Started) (hrun : Run Step { server := s₀ } ts n) :
    Along R n ∧ ∀ t ∈ ts, Along R t.before ∧ Step t.before t.event t.after := by
  refine hrun.invariant (Along R) ?_ fun _ _ _ h hstep => h.step hlasts hstep
  exact ⟨h₀.sane, by simp [h₀.start.2.2.1]⟩

theorem follows {s₀ : Process} {ts : List (Transition Network Event)} (h₀ : s₀.Started)
    (hrun : Run Step { server := s₀ } ts n) (hp : (fd, peer) ∈ n.server.sockToPeerMap)
    (hstart : wire.IsStart (n.pipe fd).read) :
    RecvState.HasRead { toPeerConnHandler := peer } (n.pipe fd).read :=
  (along RecvState.lasts_hasRead h₀ hrun).1.reads fd peer hp hstart

theorem handle_passed {s s' : Process} {r : RecvResult} {host : String} {port : UInt16}
    {ref : PacketRef}
    (hcall : s.handleClientCommunications fd r = .ok (s', some (host, port, ref))) :
    ∃ peer t call, s.sockToPeerMap.lookup fd = some peer ∧ peer.host = host ∧ peer.port = port ∧
      RecvState.recvPkt { toPeerConnHandler := peer, outFile := s.outFile } r = .ok (t, call) ∧
      call.returned = some ref := by
  cases hfound : s.sockToPeerMap.lookup fd with
  | none =>
    rw [Process.handleClientCommunications_of_none hfound] at hcall
    cases (Prod.mk.inj (Except.ok.inj hcall)).2
  | some peer =>
    rw [Process.handleClientCommunications_of_lookup hfound] at hcall
    obtain ⟨⟨t, call⟩, hrecv, hs'⟩ := bind_eq_ok.mp hcall
    obtain ⟨ref', hret, hpassed⟩ := Option.map_eq_some_iff.mp (Prod.mk.inj (Except.ok.inj hs')).2
    obtain ⟨hhost, hport, href⟩ : peer.host = host ∧ peer.port = port ∧ ref' = ref := by
      simpa using hpassed
    exact ⟨peer, t, call, rfl, hhost, hport, hrecv, href ▸ hret⟩

/-- Whatever the other peers write, and whatever the server does in between: of the packets that a
peer in the table was sent since it was entered, it has completed the first ones, as they were sent,
and all of them once nothing is under way. -/
theorem completes {s₀ : Process} {ts : List (Transition Network Event)} {ps : List Packet}
    {o : Outbox wire} (h₀ : s₀.Started) (hrun : Run Step { server := s₀ } ts n)
    (hp : (fd, peer) ∈ n.server.sockToPeerMap) (hwritten : (n.pipe fd).written = o.bytes)
    (hcarry : List.Forall₂ Carries ps o.frames) :
    (∃ qs, qs <+: ps ∧ List.Forall₂ RecvState.Same qs peer.completedPkts) ∧
      ((n.pipe fd).underWay = [] → List.Forall₂ RecvState.Same ps peer.completedPkts) := by
  have hstart : wire.IsStart (n.pipe fd).read := by
    apply o.isStart.of_prefix
    rw [← hwritten]
    exact Pipe.read_prefix_written
  exact (follows h₀ hrun hp hstart).delivers hwritten hcarry

/-- What is passed to the application comes with the host and the port of the peer whose connection
it was sent on, and its index tells which of the packets sent there it is. -/
theorem passes {s₀ : Process} {ts : List (Transition Network Event)} {ps : List Packet}
    {o : Outbox wire} {t : Transition Network Event} {r : RecvResult} {host : String}
    {port : UInt16} {ref : PacketRef} (h₀ : s₀.Started) (hrun : Run Step { server := s₀ } ts n)
    (ht : t ∈ ts) (hevent : t.event = .handle fd r (some (host, port, ref)))
    (hwritten : (t.before.pipe fd).written = o.bytes)
    (hcarry : List.Forall₂ Carries ps o.frames) :
    (∃ peer, t.before.server.sockToPeerMap.lookup fd = some peer ∧ peer.host = host ∧
        peer.port = port) ∧
      ∃ p, ps[ref.index]? = some p ∧ RecvState.Same p ref.pkt := by
  obtain ⟨hbefore, hstep⟩ := (along RecvState.lasts_hasRead h₀ hrun).2 t ht
  generalize t.before = before at hbefore hstep hwritten ⊢
  rw [hevent] at hstep
  generalize t.after = after at hstep
  cases hstep with
  | @handle _ _ rest s' _ hwire hcall =>
    obtain ⟨peer, s, call, hfound, hhost, hport, hrecv, hret⟩ := handle_passed hcall
    refine ⟨⟨peer, hfound, hhost, hport⟩, ?_⟩
    -- the peer has read a part of what was written, and the packet is the last one it completed
    let pipe := (before.pipe fd).take (before.server.taken fd r) rest
    have hpipe : pipe.written = o.bytes := (Pipe.take_written hwire).trans hwritten
    have hstarts : wire.IsStart pipe.read :=
      o.isStart.of_prefix (hpipe ▸ Pipe.read_prefix_written)
    have hread := (hbefore.reads fd peer (Process.mem_of_lookup hfound)
      (hstarts.of_prefix (List.prefix_append _ _))).withOutFile before.server.outFile
    have htaken := @Process.taken_eq before.server fd peer r before.server.outFile hfound
    simp only [pipe, Pipe.take_read, htaken] at hstarts
    obtain ⟨hread', -, -⟩ := hread.step hstarts hrecv
    have hlast := (RecvState.returned_latest hrecv).resolve_left (by simp [hret])
    rw [hret] at hlast
    rw [← htaken] at hread'
    obtain ⟨qs, hqs, hsame⟩ := (hread'.delivers hpipe hcarry).1
    obtain ⟨hlt, hpkt⟩ := List.getElem?_eq_some_iff.mp (RecvState.latest_eq_some hlast.symm)
    have hle := hsame.length_eq
    refine ⟨qs[ref.index], List.prefix_iff_getElem?.mp hqs ref.index (by omega), ?_⟩
    rw [← hpkt]
    exact hsame.get (by omega) hlt

/-- Two clients have been accepted, and have not sent anything yet. -/
theorem exists_joined : ∃ ts, Run Step { server := Process.listener } ts
    { server := (Process.listener.joined 4).joined 6 } := by
  have hnil : Run Step { server := Process.listener } [] { server := Process.listener } := Run.nil
  have hfour := hnil.snoc (Step.serve
    (Process.step_joined 4 ⟨by decide, by decide⟩ (by decide)) (by simp))
  have hsix := hfour.snoc (Step.serve
    (Process.step_joined 6 ⟨by decide, by decide⟩ (by decide)) (by simp))
  -- a new connection has an empty pipe, as there was before
  have hpipe : Function.update (Function.update (fun _ => {}) (4 : ℤ) {}) 6 {} =
      fun _ : ℤ => ({} : Pipe Byte) :=
    (Function.update_eq_self 6 _).trans (Function.update_eq_self (4 : ℤ) _)
  refine ⟨_, Eq.mp (congrArg (Run Step _ _) ?_) hsix⟩
  exact congrArg (Network.mk _) hpipe

/-- The one has sent a frame, which has been handled; what the other has sent is no frame, and still
under way. -/
theorem exists_handled {f : List Byte} (hf : wire.IsFrame f) (hlen : f.length ≤ 1500) :
    ∃ q before n ts peer, Run Step { server := Process.listener }
        (ts ++ [⟨before, .handle 4 (.data f) (some ("127.0.0.1", 0, ⟨0, q⟩)), n⟩]) n ∧
      Carries q f ∧ n.server.outFile = Process.listener.outFile.writtenBy q ∧
      before.pipe 4 = { underWay := f } ∧ n.pipe 4 = { read := f } ∧
      n.pipe 6 = { underWay := [0, 0, 0] } ∧
      (4, peer) ∈ n.server.sockToPeerMap ∧ peer.completedPkts = [q] := by
  obtain ⟨ts, hjoined⟩ := exists_joined
  have hwritten := (hjoined.snoc (Step.write 4 f)).snoc (Step.write 6 [0, 0, 0])
  have hfound : ((Process.listener.joined 4).joined 6).sockToPeerMap.lookup 4 =
      some (Process.newcomer 4) := rfl
  obtain ⟨s', q, peer, hcall, hcarries, hfile, hafter, hq, -⟩ := Process.handle_frame hf hlen hfound
  have hrun := hwritten.snoc (@Step.handle _ 4 (.data f) [] _ _ (List.append_nil f).symm hcall)
  exact ⟨q, _, _, _, peer, hrun, hcarries, hfile, rfl, rfl, rfl, Process.mem_of_lookup hafter, hq⟩

theorem completes_letter :
    ∃ p ts n peer, p.getPacket = .ok (frameOf 1 2 1 0 1 [0x61]) ∧
      Run Step { server := Process.listener } ts n ∧
      (n.pipe 4).written = frameOf 1 2 1 0 1 [0x61] ∧ (n.pipe 6).written = [0, 0, 0] ∧
      (4, peer) ∈ n.server.sockToPeerMap ∧ List.Forall₂ RecvState.Same [p] peer.completedPkts := by
  obtain ⟨p, -, hmade, hbytes⟩ := RecvState.exists_letter 0x61
  obtain ⟨hframe, hcarries⟩ := hmade.carries hbytes
  obtain ⟨q, before, n, ts, peer, hrun, -, -, -, hfour, hsix, hp, -⟩ :=
    exists_handled hframe (by decide)
  have hall := (completes (o := (Outbox.empty wire).push hframe) Process.listener_started hrun hp
    (by rw [hfour]; rfl) (.cons hcarries .nil)).2 (by rw [hfour])
  exact ⟨p, _, n, peer, hbytes, hrun, by rw [hfour]; rfl, by rw [hsix]; rfl, hp, hall⟩

theorem passes_letter :
    ∃ p ts n t ref, p.getPacket = .ok (frameOf 1 2 1 0 1 [0x61]) ∧
      Run Step { server := Process.listener } ts n ∧ t ∈ ts ∧
      t.event = .handle 4 (.data (frameOf 1 2 1 0 1 [0x61])) (some ("127.0.0.1", 0, ref)) ∧
      (∃ peer, t.before.server.sockToPeerMap.lookup 4 = some peer ∧ peer.host = "127.0.0.1" ∧
        peer.port = 0) ∧
      ∃ q, [p][ref.index]? = some q ∧ RecvState.Same q ref.pkt := by
  obtain ⟨p, -, hmade, hbytes⟩ := RecvState.exists_letter 0x61
  obtain ⟨hframe, hcarries⟩ := hmade.carries hbytes
  obtain ⟨q, before, n, ts, peer, hrun, -, -, hbefore, -⟩ := exists_handled hframe (by decide)
  have hlast := List.mem_append_right ts (List.mem_singleton_self (⟨before, .handle 4
    (.data (frameOf 1 2 1 0 1 [0x61])) (some ("127.0.0.1", 0, ⟨0, q⟩)), n⟩ :
      Transition Network Event))
  exact ⟨p, _, n, _, ⟨0, q⟩, hbytes, hrun, hlast, rfl,
    passes (o := (Outbox.empty wire).push hframe) Process.listener_started hrun hlast rfl
      (by simp only [hbefore]; rfl) (.cons hcarries .nil)⟩

end Network

end P2Purr
