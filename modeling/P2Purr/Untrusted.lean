import P2Purr.Hostile
import P2Purr.Network

namespace P2Purr
open Memory Framing Runs

namespace RecvState

variable {s s' : RecvState} {t : List Byte} {r : RecvResult} {call : RecvCall}

theorem Fed.recvPkt (h : Fed s t) (hcall : s.recvPkt r = .ok (s', call)) :
    Fed s' (t ++ s.taken r) := by
  cases hopen : s.sockHelper.isSockOpen with
  | false =>
    rw [recvPkt_of_not_open hopen] at hcall
    rw [← (Prod.mk.inj (Except.ok.inj hcall)).1, taken, hopen]
    simpa using h
  | true =>
    obtain ⟨c, hc⟩ := h.holds
    rw [taken, hopen, if_pos rfl]
    exact h.step (accepts_of_ok hc hopen hcall) hcall

theorem Fed.withOutFile (h : Fed s t) (o : OutFile) : Fed { s with outFile := o } t := by
  cases h with
  | reading h => exact Fed.reading (h.withOutFile o)
  | dead h hdead hfs hcarry => exact Fed.dead (h.withOutFile o) hdead hfs hcarry

theorem lasts_fed : Lasts Fed where
  begins h := Fed.reading h
  step h hcall := h.recvPkt hcall
  withOutFile h o := h.withOutFile o

end RecvState

namespace Process

variable {t : Transition Process Event} {p : Packet}

theorem mem_completions (h : p ∈ completions t) :
    ∃ fd r peer, t.event.op = .handleClientCommunications fd r ∧
      t.after.sockToPeerMap.lookup fd = some peer ∧ p ∈ peer.completedPkts := by
  unfold completions at h
  split at h
  · rename_i fd r hop
    split at h
    · rename_i old peer hold hnew
      exact ⟨fd, r, peer, hop, hnew, List.mem_of_mem_drop h⟩
    · cases h
  · cases h

end Process

namespace Network

variable {n n' : Network} {fd : ℤ} {peer : PeerConnHandler} {e : Event} {s₀ : Process}
  {ts : List (Transition Network Event)}

/-- The packets that a peer has completed are those of the first frames of what has been read from
it, whatever that is, and whatever the other peers write. -/
theorem completes_read (h₀ : s₀.Started) (hrun : Run Step { server := s₀ } ts n)
    (hp : (fd, peer) ∈ n.server.sockToPeerMap) :
    ∃ fs, fs <+: (wire.split (n.pipe fd).read).1 ∧
      List.Forall₂ Carries peer.completedPkts fs :=
  ((along RecvState.lasts_fed h₀ hrun).1.reads fd peer hp).frames

/-- What is passed to the application is the packet of a frame that the peer with this host and port
has sent, in its place. -/
theorem passes_read {t : Transition Network Event} {r : RecvResult} {host : String} {port : UInt16}
    {ref : PacketRef} (h₀ : s₀.Started) (hrun : Run Step { server := s₀ } ts n)
    (ht : t ∈ ts) (hevent : t.event = .handle fd r (some (host, port, ref))) :
    (∃ peer, t.before.server.sockToPeerMap.lookup fd = some peer ∧ peer.host = host ∧
        peer.port = port) ∧
      ∃ f, (wire.split (t.after.pipe fd).read).1[ref.index]? = some f ∧ Carries ref.pkt f := by
  obtain ⟨hbefore, hstep⟩ := (along RecvState.lasts_fed h₀ hrun).2 t ht
  generalize t.before = before at hbefore hstep ⊢
  rw [hevent] at hstep
  generalize t.after = after at hstep ⊢
  cases hstep with
  | handle hwire hcall =>
    obtain ⟨peer, s, call, hfound, hhost, hport, hrecv, hret⟩ := handle_passed hcall
    refine ⟨⟨peer, hfound, hhost, hport⟩, ?_⟩
    have hfed := (hbefore.reads fd peer (Process.mem_of_lookup hfound)).withOutFile
      before.server.outFile
    obtain ⟨fs, hfs, hcarry⟩ := (hfed.recvPkt hrecv).frames
    have hlast := (RecvState.returned_latest hrecv).resolve_left (by simp [hret])
    rw [hret] at hlast
    obtain ⟨hlt, hpkt⟩ := List.getElem?_eq_some_iff.mp (RecvState.latest_eq_some hlast.symm)
    have hlt' : ref.index < fs.length := by rw [← hcarry.length_eq]; exact hlt
    refine ⟨fs[ref.index], ?_, ?_⟩
    · simp only [Function.update_self, Pipe.take_read]
      rw [Process.taken_eq hfound]
      exact List.prefix_iff_getElem?.mp hfs ref.index hlt'
    · rw [← hpkt]
      exact hcarry.get hlt hlt'

theorem completes_read_letter :
    ∃ ts n peer fs, Run Step { server := Process.listener } ts n ∧
      (n.pipe 4).read = frameOf 1 2 1 0 1 [0x61] ∧ (n.pipe 6).written = [0, 0, 0] ∧
      (4, peer) ∈ n.server.sockToPeerMap ∧ peer.completedPkts.length = 1 ∧
      fs <+: (wire.split (n.pipe 4).read).1 ∧ List.Forall₂ Carries peer.completedPkts fs := by
  have hframe : wire.IsFrame (frameOf 1 2 1 0 1 [0x61]) := frameOf_isFrame (by simp) (by simp)
  obtain ⟨q, before, n, ts, peer, hrun, -, -, -, hfour, hsix, hp, hq⟩ :=
    exists_handled hframe (by decide)
  obtain ⟨fs, hfs, hcarry⟩ := completes_read Process.listener_started hrun hp
  exact ⟨_, n, peer, fs, hrun, by rw [hfour], by rw [hsix]; rfl, hp, by rw [hq]; rfl, hfs, hcarry⟩

theorem passes_read_letter :
    ∃ ts n t ref, Run Step { server := Process.listener } ts n ∧ t ∈ ts ∧
      t.event = .handle 4 (.data (frameOf 1 2 1 0 1 [0x61])) (some ("127.0.0.1", 0, ref)) ∧
      (∃ peer, t.before.server.sockToPeerMap.lookup 4 = some peer ∧ peer.host = "127.0.0.1" ∧
        peer.port = 0) ∧
      ∃ f, (wire.split (t.after.pipe 4).read).1[ref.index]? = some f ∧ Carries ref.pkt f := by
  have hframe : wire.IsFrame (frameOf 1 2 1 0 1 [0x61]) := frameOf_isFrame (by simp) (by simp)
  obtain ⟨q, before, n, ts, peer, hrun, -⟩ := exists_handled hframe (by decide)
  have hlast := List.mem_append_right ts (List.mem_singleton_self (⟨before, .handle 4
    (.data (frameOf 1 2 1 0 1 [0x61])) (some ("127.0.0.1", 0, ⟨0, q⟩)), n⟩ :
      Transition Network Event))
  exact ⟨_, n, _, ⟨0, q⟩, hrun, hlast, rfl, passes_read Process.listener_started hrun hlast rfl⟩

theorem Along.allReady (h : Along RecvState.Fed n) : n.server.AllReady :=
  fun e he => (h.reads e.1 e.2 he).holds

/-- An operation of the server leaves the output file alone, or writes what a frame holds that it
has read from the peer it handles. -/
theorem Along.outFile {pe : Process.Event} (h : Along RecvState.Fed n)
    (h' : Along RecvState.Fed n') (hstep : Process.Step n.server pe n'.server) :
    n'.server.outFile.content = n.server.outFile.content ∨
      ∃ fd r f, pe.op = .handleClientCommunications fd r ∧
        f ∈ (wire.split (n'.pipe fd).read).1 ∧ f[3]? = some genericFile ∧
        n'.server.outFile.content = some (f.drop (hdrEnd f)) := by
  rw [hstep.outFile h.allReady, (OutFile.foldl_content _ _).2]
  split
  · cases hlast : ((Process.completions ⟨n.server, pe, n'.server⟩).filter
        fun p => p.type == genericFile).getLast? with
    | none => exact Or.inl rfl
    | some p =>
      obtain ⟨hmem, htype⟩ := List.mem_filter.mp (List.mem_of_getLast? hlast)
      have htype : p.type = genericFile := by simpa using htype
      obtain ⟨fd, r, peer, hop, hfound, hp⟩ := Process.mem_completions hmem
      obtain ⟨fs, hfs, hcarry⟩ := (h'.reads fd peer (Process.mem_of_lookup hfound)).frames
      obtain ⟨i, hlt, hget⟩ := List.getElem_of_mem hp
      have hlt' : i < fs.length := by rw [← hcarry.length_eq]; exact hlt
      have hcarries : Carries p fs[i] := hget ▸ hcarry.get hlt hlt'
      refine Or.inr ⟨fd, r, fs[i], hop, hfs.subset (List.getElem_mem hlt'), ?_, ?_⟩
      · rw [hcarries.type, htype]
      · rw [Option.map_some, Option.getD_some, hcarries.payload]
        rfl
  · exact Or.inl rfl

theorem Step.outFile (h : Along RecvState.Fed n) (h' : Along RecvState.Fed n')
    (hstep : Step n e n') :
    n'.server.outFile.content = n.server.outFile.content ∨
      ∃ fd r passed f, e = .handle fd r passed ∧ f ∈ (wire.split (n'.pipe fd).read).1 ∧
        f[3]? = some genericFile ∧ n'.server.outFile.content = some (f.drop (hdrEnd f)) := by
  cases hstep with
  | write => exact Or.inl rfl
  | @handle fd r rest s' passed _ hcall =>
    cases h.outFile h' (Process.Step.handleClientCommunications hcall) with
    | inl hsame => exact Or.inl hsame
    | inr hwrites =>
      obtain ⟨fd', r', f, hop, hf, htype, hcontent⟩ := hwrites
      obtain ⟨hfd, -⟩ := Process.Op.handleClientCommunications.inj hop
      rw [← hfd] at hf
      exact Or.inr ⟨fd, r, passed, f, rfl, hf, htype, hcontent⟩
  | serve hserve hop =>
    apply (h.outFile h' hserve).imp_right
    rintro ⟨fd, r, f, hhandles, -⟩
    exact absurd hhandles (hop fd r)

/-- The peers share one output file, and still it holds the payload of one whole frame that one of
them has sent, if anything has been written: files never mix, and nothing that is cut short or
rejected leaves a trace. -/
theorem outFile_read (h₀ : s₀.Started) (hrun : Run Step { server := s₀ } ts n) :
    n.server.outFile.content = s₀.outFile.content ∨
      ∃ t ∈ ts, ∃ fd r passed f, t.event = .handle fd r passed ∧
        f ∈ (wire.split (t.after.pipe fd).read).1 ∧ f[3]? = some genericFile ∧
        n.server.outFile.content = some (f.drop (hdrEnd f)) := by
  have hstart : Along RecvState.Fed { server := s₀ } :=
    (along RecvState.lasts_fed h₀ Run.nil).1
  refine (hrun.traces (fun ts n => Along RecvState.Fed n ∧
    (n.server.outFile.content = s₀.outFile.content ∨
      ∃ t ∈ ts, ∃ fd r passed f, t.event = .handle fd r passed ∧
        f ∈ (wire.split (t.after.pipe fd).read).1 ∧ f[3]? = some genericFile ∧
        n.server.outFile.content = some (f.drop (hdrEnd f)))) (fun _ => True)
    ⟨hstart, Or.inl rfl⟩ ?_ fun _ _ => trivial).2
  intro ts n e n' hn hstep _
  have hn' := hn.1.step RecvState.lasts_fed hstep
  refine ⟨hn', ?_⟩
  cases hstep.outFile hn.1 hn' with
  | inr hwrites =>
    obtain ⟨fd, r, passed, f, hevent, hf, htype, hcontent⟩ := hwrites
    exact Or.inr ⟨_, List.mem_append_right ts (List.mem_singleton_self _), fd, r, passed, f, hevent,
      hf, htype, hcontent⟩
  | inl hsame =>
    rw [hsame]
    apply hn.2.imp_right
    rintro ⟨t, ht, hrest⟩
    exact ⟨t, List.mem_append_left _ ht, hrest⟩

theorem outFile_read_letter :
    ∃ ts n, Run Step { server := Process.listener } ts n ∧
      n.server.outFile.content = some [0x61] ∧
      ∃ t ∈ ts, ∃ fd r passed f, t.event = .handle fd r passed ∧
        f ∈ (wire.split (t.after.pipe fd).read).1 ∧ f[3]? = some genericFile ∧
        n.server.outFile.content = some (f.drop (hdrEnd f)) := by
  have hframe : wire.IsFrame (frameOf genericFile 2 1 0 1 [0x61]) :=
    frameOf_isFrame (by simp) (by simp)
  obtain ⟨q, before, n, ts, peer, hrun, hcarries, hfile, -⟩ := exists_handled hframe (by decide)
  have htype : q.type = genericFile := (Option.some.inj hcarries.type).symm
  have hcontent : n.server.outFile.content = some [0x61] := by
    rw [hfile, OutFile.writtenBy, if_pos ⟨htype, rfl⟩, hcarries.payload]
    decide
  refine ⟨_, n, hrun, hcontent, (outFile_read Process.listener_started hrun).resolve_left ?_⟩
  rw [hcontent]
  exact Option.some_ne_none _

end Network

end P2Purr
