import Mathlib.Data.List.Induction
import P2Purr.Link

namespace P2Purr
open Memory Framing Runs

structure Endpoint where
  helper : SocketHelper
  conn : Conn := {}
  frames : List (List Byte) := []
  deriving DecidableEq, Repr

/-- What the server does that concerns a descriptor: a new connection has it, `recv` is called for
it, or the connections that are closed are dropped. -/
inductive Signal
  | joined (helper : SocketHelper)
  | heard (r : RecvResult)
  | swept
  deriving DecidableEq, Repr

namespace Endpoint

def hear (e : Endpoint) (r : RecvResult) : Endpoint :=
  if !e.helper.isSockOpen then e
  else
    match r with
    | .data bs => { e with conn := e.conn.next r, frames := e.frames ++ (e.conn.intake bs).1 }
    | .closed k => { e with helper := (e.helper.closeSock k).2 }
    | .failed => e

/-- The place of a descriptor in the table; a connection that is there already stays. -/
def next (place : Option Endpoint) : Signal → Option Endpoint
  | .joined helper => some (place.getD { helper := helper })
  | .heard r => place.map fun e => e.hear r
  | .swept => place.filter fun e => e.helper.isSockOpen

def after (signals : List Signal) : Option Endpoint := signals.foldl next none

structure Stands (peer : PeerConnHandler) (e : Endpoint) : Prop where
  helper : peer.sockHelper = e.helper
  holds : RecvState.Holds { toPeerConnHandler := peer } e.conn
  completed : List.Forall₂ Carries peer.completedPkts e.frames

variable {peer peer' : PeerConnHandler} {e : Endpoint} {o : OutFile} {t : RecvState}
  {r : RecvResult} {call : RecvCall}

theorem Stands.hear (h : Stands peer e)
    (hcall : RecvState.recvPkt { toPeerConnHandler := peer, outFile := o } r = .ok (t, call)) :
    Stands t.toPeerConnHandler (e.hear r) := by
  have hholds : RecvState.Holds { toPeerConnHandler := peer, outFile := o } e.conn :=
    h.holds.withOutFile o
  unfold Endpoint.hear
  rw [← h.helper]
  cases hopen : peer.sockHelper.isSockOpen with
  | false =>
    rw [RecvState.recvPkt_of_not_open hopen] at hcall
    rw [← (Prod.mk.inj (Except.ok.inj hcall)).1]
    exact h
  | true =>
    simp only [Bool.not_true, Bool.false_eq_true, ↓reduceIte]
    cases r with
    | closed k =>
      rw [RecvState.recvPkt_closed hholds hopen] at hcall
      rw [← (Prod.mk.inj (Except.ok.inj hcall)).1]
      exact ⟨rfl, ⟨h.holds.tracks, h.holds.index, h.holds.size, h.holds.room⟩, h.completed⟩
    | failed =>
      rw [RecvState.recvPkt_failed hholds hopen] at hcall
      rw [← (Prod.mk.inj (Except.ok.inj hcall)).1]
      exact h
    | data bs =>
      have ha := RecvState.accepts_of_ok hholds hopen hcall
      have hnext := (RecvState.recvPkt_next hholds ha hcall).withOutFile {}
      have hgrew := RecvState.recvPkt_grew hholds ha hcall
      obtain ⟨ps, hps, hcarry⟩ := hgrew.completed
      refine ⟨hgrew.sockHelper, hnext, ?_⟩
      rw [hps]
      exact List.rel_append h.completed hcarry

end Endpoint

theorem PeerConnHandler.create_hasRead {host : String} {port : UInt16} {sock : ℤ} {a : Setup}
    {peer : PeerConnHandler} (h : create host port sock a = .ok peer) (o : OutFile) :
    RecvState.HasRead { toPeerConnHandler := peer, outFile := o } [] := by
  unfold create at h
  cases hhelper : SocketHelper.create host port sock a with
  | error k => simp [hhelper] at h
  | ok helper =>
    simp only [hhelper] at h
    split at h
    · cases h
    · split at h
      · cases h
      · have hmade := access_eq_ok.mp h
        have hopen := (SocketHelper.create_ok hhelper).2
        rw [← ofSocket_sockHelper hmade] at hopen
        exact RecvState.Fresh.hasRead ⟨⟨host, port, sock, helper, hmade⟩, hopen⟩

theorem PeerConnHandler.connect_hasRead {peer peer' : PeerConnHandler} {c : Connecting}
    {o : OutFile} (h : RecvState.HasRead { toPeerConnHandler := peer, outFile := o } [])
    (hconn : peer.connect c = .ok peer') :
    RecvState.HasRead { toPeerConnHandler := peer', outFile := o } [] := by
  obtain ⟨helper, -, hpeer'⟩ := bind_eq_ok.mp hconn
  rw [← Except.ok.inj hpeer']
  have hsame := h.holds
  exact ⟨⟨hsame.tracks, hsame.index, hsame.size, hsame.room⟩, h.completed⟩

def OutFile.writtenBy (o : OutFile) (p : Packet) : OutFile :=
  if p.type = genericFile ∧ o.opens = true then { o with content := p.getPayload.toOption } else o

theorem OutFile.writtenBy_eq {p : Packet} {f : List Byte} (h : Carries p f) (o : OutFile) :
    o.writtenBy p = o.written f := by
  have htype := h.type
  unfold OutFile.writtenBy OutFile.written
  rw [htype, h.payload]
  simp only [Option.some.injEq]
  rfl

theorem OutFile.foldl_writtenBy {ps : List Packet} {fs : List (List Byte)}
    (h : List.Forall₂ Carries ps fs) (o : OutFile) :
    ps.foldl OutFile.writtenBy o = fs.foldl OutFile.written o := by
  induction h generalizing o with
  | nil => rfl
  | cons hp _ ih =>
    rw [List.foldl_cons, List.foldl_cons, OutFile.writtenBy_eq hp]
    exact ih _

/-- What is left of all the packets is what the last file among them has left. -/
theorem OutFile.foldl_content (ps : List Packet) (o : OutFile) :
    (ps.foldl OutFile.writtenBy o).opens = o.opens ∧
      (ps.foldl OutFile.writtenBy o).content =
        if o.opens = true then
          ((ps.filter fun p => p.type == genericFile).getLast?.map
            fun p => p.getPayload.toOption).getD o.content
        else o.content := by
  induction ps using List.reverseRecOn with
  | nil => simp
  | append_singleton ps p ih =>
    obtain ⟨hopens, hcontent⟩ := ih
    rw [List.foldl_append, List.foldl_cons, List.foldl_nil]
    generalize ps.foldl OutFile.writtenBy o = o' at hopens hcontent
    unfold OutFile.writtenBy
    rw [List.filter_append, hopens]
    by_cases hp : p.type = genericFile
    · cases hopen : o.opens with
      | true => simp [hp]
      | false =>
        rw [hopen] at hcontent
        simp [hopens, hopen, hcontent]
    · simp [hp, hopens, hcontent]

theorem RecvState.recvPkt_written {s s' : RecvState} {c : Conn} {r : RecvResult} {call : RecvCall}
    (h : Holds s c) (hcall : s.recvPkt r = .ok (s', call)) :
    ∃ ps frames, s'.completedPkts = s.completedPkts ++ ps ∧ List.Forall₂ Carries ps frames ∧
      s'.outFile = frames.foldl OutFile.written s.outFile := by
  cases hopen : s.sockHelper.isSockOpen with
  | false =>
    rw [recvPkt_of_not_open hopen] at hcall
    rw [← (Prod.mk.inj (Except.ok.inj hcall)).1]
    exact ⟨[], [], by simp, .nil, rfl⟩
  | true =>
    have ha := accepts_of_ok h hopen hcall
    by_cases hr : ∀ bs, r ≠ .data bs
    · obtain ⟨t, call', hq, -, hsame, hfile, -⟩ := recvPkt_quiet h ha hr
      rw [hq] at hcall
      rw [← (Prod.mk.inj (Except.ok.inj hcall)).1]
      exact ⟨[], [], by simp [hsame], .nil, hfile⟩
    · obtain ⟨bs, rfl⟩ : ∃ bs, r = .data bs := by simpa using hr
      have hgrew := recvPkt_grew h ha hcall
      obtain ⟨ps, hps, hcarry⟩ := hgrew.completed
      exact ⟨ps, _, hps, hcarry, hgrew.outFile⟩

namespace Process

open Endpoint

variable {s s' : Process} {fd : ℤ} {made : Option (ℤ × PeerConnHandler)} {e : Event}

theorem Step.made_hasRead {peer : PeerConnHandler} (h : Step s e s')
    (hmade : e.made = some (fd, peer)) (o : OutFile) :
    RecvState.HasRead { toPeerConnHandler := peer, outFile := o } [] := by
  cases h with
  | handleNewClient _ hcall =>
    obtain ⟨-, -, p, hp, hends⟩ := handleNewClient_ok hcall
    cases hends with
    | inl hrefused => simp [hrefused.2.1] at hmade
    | inr hentered =>
      simp only [hentered.2.1, Option.some.injEq, Prod.mk.injEq] at hmade
      rw [← hmade.2]
      exact PeerConnHandler.create_hasRead hp o
  | connectToPeer _ hcall =>
    obtain hrefused | ⟨-, -, hnone, -⟩ | ⟨-, p, connected, hp, hconn, hsome, -⟩ :=
      connectToPeer_ok hcall
    · simp [hrefused.1] at hmade
    · simp [hnone] at hmade
    · simp only [hsome, Option.some.injEq, Prod.mk.injEq] at hmade
      rw [← hmade.2]
      exact PeerConnHandler.connect_hasRead (PeerConnHandler.create_hasRead hp o) hconn
  | handleClientCommunications => cases hmade
  | removeDisconnectedPeers => cases hmade

def Event.signal (fd : ℤ) (e : Event) : Option Signal :=
  match e.made, e.op with
  | some (x, peer), _ => if x = fd then some (.joined peer.sockHelper) else none
  | none, .handleClientCommunications x r => if x = fd then some (.heard r) else none
  | none, .removeDisconnectedPeers _ => some .swept
  | none, _ => none

def signals (fd : ℤ) (ts : List (Transition Process Event)) : List Signal :=
  ts.filterMap fun t => t.event.signal fd

theorem Opened.lookup {x : ℤ} (h : Opened s x made s') (fd : ℤ) :
    s'.sockToPeerMap.lookup fd =
      match s.sockToPeerMap.lookup fd with
      | some peer => some peer
      | none => made.bind fun e => if e.1 = fd then some e.2 else none := by
  cases h with
  | nothing hserver _ =>
    rw [hserver]
    cases s.sockToPeerMap.lookup fd <;> rfl
  | @entered peer k hown =>
    cases hx : s.sockToPeerMap.lookup x with
    | none =>
      rw [enter_of_none (by exact hx)]
      by_cases hfd : x = fd
      · rw [← hfd, hx, List.lookup_cons_self]
        simp
      · have hne : (fd == x) = false := by simpa using Ne.symm hfd
        rw [List.lookup_cons, hne]
        simp only [Option.bind_some, if_neg hfd]
        cases s.sockToPeerMap.lookup fd <;> rfl
    | some old =>
      rw [enter_of_some (by exact hx), destroy_toP2PurrServer]
      by_cases hfd : x = fd
      · rw [← hfd]
        simp [addFdToWatchList, hx]
      · simp only [addFdToWatchList, Option.bind_some, if_neg hfd]
        cases s.sockToPeerMap.lookup fd <;> rfl

theorem lookup_replacePeer_of_ne {x : ℤ} (hne : x ≠ fd) (peer : PeerConnHandler)
    (l : List (ℤ × PeerConnHandler)) : (replacePeer x peer l).lookup fd = l.lookup fd := by
  induction l with
  | nil => rfl
  | cons e l ih =>
    have ih : (l.map fun e => if e.1 = x then (x, peer) else e).lookup fd = l.lookup fd := ih
    obtain ⟨y, p⟩ := e
    rw [replacePeer, List.map_cons]
    by_cases hy : y = x
    · have hno : (fd == x) = false := by simpa using Ne.symm hne
      rw [if_pos hy, List.lookup_cons, hno, ih, List.lookup_cons, hy, hno]
    · rw [if_neg hy, List.lookup_cons, List.lookup_cons, ih]

theorem Sane.lookup_eq_some (h : Sane s) {peer : PeerConnHandler} :
    s.sockToPeerMap.lookup fd = some peer ↔ (fd, peer) ∈ s.sockToPeerMap :=
  ⟨mem_of_lookup, h.lookup⟩

theorem lookup_removed (h : Sane s) {order : List (ℤ × PeerConnHandler)}
    (horder : order.Perm s.sockToPeerMap) :
    (s.removeDisconnectedPeers order).sockToPeerMap.lookup fd =
      (s.sockToPeerMap.lookup fd).filter fun peer => peer.connActive := by
  have hsane := h.step (Step.removeDisconnectedPeers horder)
  apply Option.ext
  intro peer
  rw [hsane.lookup_eq_some, mem_removed h.running horder, Option.filter_eq_some_iff,
    h.lookup_eq_some]

theorem stands_of_hasRead {peer : PeerConnHandler}
    (h : RecvState.HasRead { toPeerConnHandler := peer } []) :
    Stands peer { helper := peer.sockHelper } := by
  obtain ⟨hholds, hcompleted⟩ := h
  rw [Framer.split_nil] at hholds hcompleted
  exact ⟨rfl, hholds, hcompleted⟩

theorem Opened.follows {x : ℤ} {op : Op} {place : Option Endpoint} (hopened : Opened s x made s')
    (hfresh : ∀ peer, made = some (x, peer) →
      RecvState.HasRead { toPeerConnHandler := peer } [])
    (hplace : Option.Rel Stands (s.sockToPeerMap.lookup fd) place)
    (hnone : Event.signal fd ⟨op, none⟩ = none) :
    Option.Rel Stands (s'.sockToPeerMap.lookup fd)
      ((Event.signal fd ⟨op, made⟩).toList.foldl next place) := by
  have hlookup := hopened.lookup fd
  cases hopened with
  | nothing hserver _ =>
    rw [hnone, hserver]
    exact hplace
  | @entered peer k hown =>
    have hread := hfresh peer rfl
    rw [hlookup]
    generalize s.sockToPeerMap.lookup fd = old at hplace
    unfold Event.signal
    by_cases hx : x = fd
    · simp only [hx, ↓reduceIte, Option.toList_some, List.foldl_cons, List.foldl_nil, next,
        Option.bind_some]
      cases hplace with
      | none => exact .some (stands_of_hasRead hread)
      | some hstands => exact .some hstands
    · simp only [hx, ↓reduceIte, Option.toList_none, List.foldl_nil, Option.bind_some]
      cases hplace with
      | none => exact .none
      | some hstands => exact .some hstands

theorem Step.follows {place : Option Endpoint} (h : Sane s) (hstep : Step s e s')
    (hplace : Option.Rel Stands (s.sockToPeerMap.lookup fd) place) :
    Option.Rel Stands (s'.sockToPeerMap.lookup fd) ((e.signal fd).toList.foldl next place) := by
  have hfresh : ∀ x peer, e.made = some (x, peer) →
      RecvState.HasRead { toPeerConnHandler := peer } [] :=
    fun _ _ hmade => hstep.made_hasRead hmade {}
  cases hstep with
  | handleNewClient _ hcall =>
    exact (handleNewClient_opened hcall).follows (hfresh _) hplace rfl
  | connectToPeer _ hcall =>
    exact (connectToPeer_opened hcall).follows (hfresh _) hplace rfl
  | removeDisconnectedPeers horder =>
    rw [lookup_removed h horder]
    generalize s.sockToPeerMap.lookup fd = old at hplace
    cases hplace with
    | none => exact .none
    | @some peer e hstands =>
      simp only [Event.signal, Option.toList_some, List.foldl_cons, List.foldl_nil, next,
        Option.filter_some, ← hstands.helper, PeerConnHandler.connActive]
      split
      · exact .some hstands
      · exact .none
  | @handleClientCommunications x r s' call hcall =>
    have hsignal : Event.signal fd ⟨.handleClientCommunications x r, none⟩ =
        if x = fd then some (.heard r) else none := rfl
    rw [hsignal]
    cases hfound : s.sockToPeerMap.lookup x with
    | none =>
      rw [handleClientCommunications_of_none hfound] at hcall
      rw [← (Prod.mk.inj (Except.ok.inj hcall)).1]
      by_cases hx : x = fd
      · rw [hx] at hfound
        rw [hfound] at hplace ⊢
        cases hplace
        rw [if_pos hx]
        exact .none
      · rwa [if_neg hx]
    | some peer =>
      rw [handleClientCommunications_of_lookup hfound] at hcall
      obtain ⟨⟨t, result⟩, hrecv, hs'⟩ := bind_eq_ok.mp hcall
      rw [← (Prod.mk.inj (Except.ok.inj hs')).1, released_toP2PurrServer]
      by_cases hx : x = fd
      · rw [hx] at hfound ⊢
        rw [hfound] at hplace
        rw [if_pos rfl, lookup_replacePeer hfound]
        cases hplace with
        | some hstands => exact .some (hstands.hear hrecv)
      · rw [if_neg hx, lookup_replacePeer_of_ne hx]
        exact hplace

theorem sane_and_stands {s₀ : Process} {ts : List (Transition Process Event)} (h₀ : Started s₀)
    (hrun : Run Step s₀ ts s) (fd : ℤ) :
    Sane s ∧ Option.Rel Stands (s.sockToPeerMap.lookup fd) (Endpoint.after (signals fd ts)) := by
  refine hrun.traces (fun ts s => Sane s ∧
      Option.Rel Stands (s.sockToPeerMap.lookup fd) (Endpoint.after (signals fd ts)))
    (fun _ => True) ?_ ?_ (fun _ _ => trivial)
  · refine ⟨h₀.sane, ?_⟩
    rw [h₀.start.2.2.1]
    exact .none
  · intro ts s e s' hs hstep _
    refine ⟨hs.1.step hstep, ?_⟩
    have hnext := hstep.follows hs.1 hs.2
    unfold Endpoint.after signals at hnext ⊢
    rw [List.filterMap_append, List.foldl_append]
    cases hsignal : e.signal fd with
    | none => simpa [hsignal] using hnext
    | some signal => simpa [hsignal] using hnext

/-- The table is known, descriptor by descriptor, from the signals for each. -/
theorem follows_signals {s₀ : Process} {ts : List (Transition Process Event)} (h₀ : Started s₀)
    (hrun : Run Step s₀ ts s) (fd : ℤ) :
    Option.Rel Stands (s.sockToPeerMap.lookup fd) (Endpoint.after (signals fd ts)) :=
  (sane_and_stands h₀ hrun fd).2

@[simp] theorem released_outFile (s : Process) (before after : SocketHelper) :
    (s.released before after).outFile = s.outFile := by
  unfold released
  split <;> rfl

/-- A client that has just joined sends a whole frame, which is read in one call. -/
theorem handle_frame {f : List Byte} (hf : wire.IsFrame f) (hlen : f.length ≤ 1500)
    (hfound : s.sockToPeerMap.lookup fd = some (newcomer fd)) :
    ∃ s' q peer,
      s.handleClientCommunications fd (.data f) = .ok (s', some ("127.0.0.1", 0, ⟨0, q⟩)) ∧
        Carries q f ∧ s'.outFile = s.outFile.writtenBy q ∧
        s'.sockToPeerMap.lookup fd = some peer ∧ peer.completedPkts = [q] ∧
        ∀ x, fd ≠ x → s'.sockToPeerMap.lookup x = s.sockToPeerMap.lookup x := by
  have hfresh : RecvState.Fresh { toPeerConnHandler := newcomer fd, outFile := s.outFile } :=
    ⟨(RecvState.idle_fresh "127.0.0.1" 0 fd).made, rfl⟩
  have hframes : ∀ g ∈ [f], wire.IsFrame g := List.forall_mem_singleton.mpr hf
  have hne : f ≠ [] := by
    rintro rfl
    exact absurd (wire_size_eq_some.mp hf).1 (by simp)
  have hdata := hfresh.hasRead.data (hfresh.ready.accepts ⟨hne, hlen⟩) ⟨[f], [], hframes, by simp⟩
  rw [Framer.split_nil, if_neg (by simp [Torn])] at hdata
  obtain ⟨t, ht, hread⟩ := hdata
  -- one packet, which is the one that is returned
  have hsplit : wire.split ([] ++ f) = ([f], []) := by
    simpa using Framer.split_flatten hframes
  have hcompleted := hread.completed
  rw [hsplit] at hcompleted
  obtain ⟨q, hq⟩ := List.length_eq_one_iff.mp hcompleted.length_eq
  rw [hq] at hcompleted
  have hlatest : t.latest = some ⟨0, q⟩ := by simp [RecvState.latest, hq]
  obtain ⟨ps, frames, hps, hcarry, hfile⟩ := RecvState.recvPkt_written hfresh.holds ht
  obtain rfl : [q] = ps := hq.symm.trans (hps.trans (List.nil_append _))
  rw [← OutFile.foldl_writtenBy hcarry] at hfile
  have hcall := handleClientCommunications_of_lookup hfound (.data f)
  rw [ht, hlatest, ok_bind] at hcall
  refine ⟨_, q, t.toPeerConnHandler, hcall, by simpa using hcompleted, ?_, ?_, hq, ?_⟩
  · rw [released_outFile]
    exact hfile
  · rw [released_toP2PurrServer]
    exact lookup_replacePeer hfound
  · intro x hx
    rw [released_toP2PurrServer]
    exact lookup_replacePeer_of_ne hx _ _

theorem exists_two_clients :
    ∃ ts s, Run Step listener ts s ∧
      signals 4 ts = [.joined (newcomer 4).sockHelper, .heard (.data (frameOf 1 2 1 0 1 [0x61]))] ∧
      signals 6 ts =
        [.joined (newcomer 6).sockHelper, .heard (.data (frameOf 1 2 1 0 1 [0x62]))] := by
  have hnil : Run Step listener [] listener := Run.nil
  have hjoin₄ := hnil.snoc (step_joined 4 ⟨by decide, by decide⟩ (by decide))
  have hjoin₆ := hjoin₄.snoc (step_joined 6 ⟨by decide, by decide⟩ (by decide))
  have hframe : ∀ b : Byte, wire.IsFrame (frameOf 1 2 1 0 1 [b]) := fun b =>
    frameOf_isFrame (by simp) (by simp)
  have hfound₄ : ((listener.joined 4).joined 6).sockToPeerMap.lookup 4 = some (newcomer 4) := rfl
  obtain ⟨s₁, p, -, hcall₁, -, -, -, -, hsame⟩ := handle_frame (hframe 0x61) (by decide) hfound₄
  have hfound₆ : s₁.sockToPeerMap.lookup 6 = some (newcomer 6) := hsame 6 (by decide)
  obtain ⟨s₂, q, -, hcall₂, -⟩ := handle_frame (hframe 0x62) (by decide) hfound₆
  exact ⟨_, s₂, (hjoin₆.snoc (Step.handleClientCommunications hcall₁)).snoc
    (Step.handleClientCommunications hcall₂), rfl, rfl⟩

theorem follows_signals_two_clients :
    ∃ ts s, Run Step listener ts s ∧
      Option.Rel Stands (s.sockToPeerMap.lookup 4) (Endpoint.after
        [.joined (newcomer 4).sockHelper, .heard (.data (frameOf 1 2 1 0 1 [0x61]))]) ∧
      Option.Rel Stands (s.sockToPeerMap.lookup 6) (Endpoint.after
        [.joined (newcomer 6).sockHelper, .heard (.data (frameOf 1 2 1 0 1 [0x62]))]) := by
  obtain ⟨ts, s, hrun, hfour, hsix⟩ := exists_two_clients
  have hall := follows_signals listener_started hrun
  exact ⟨ts, s, hrun, hfour ▸ hall 4, hsix ▸ hall 6⟩

/-- Two handlers that no further result of `recv` tells apart. -/
structure Alike (peer peer' : PeerConnHandler) : Prop where
  helper : peer.sockHelper = peer'.sockHelper
  completed : List.Forall₂ RecvState.Same peer.completedPkts peer'.completedPkts
  holds : ∃ c, RecvState.Holds { toPeerConnHandler := peer } c ∧
    RecvState.Holds { toPeerConnHandler := peer' } c

/-- Whatever else two servers have done, and whatever their other peers have sent: with the same
signals for a descriptor, they have the same connection there, or none. -/
theorem isolated {s₀ s₁ : Process} {ts us : List (Transition Process Event)} (h₀ : Started s₀)
    (h₁ : Started s₁) (hrun₀ : Run Step s₀ ts s) (hrun₁ : Run Step s₁ us s')
    (hsame : signals fd ts = signals fd us) :
    Option.Rel Alike (s.sockToPeerMap.lookup fd) (s'.sockToPeerMap.lookup fd) := by
  have hs := (sane_and_stands h₀ hrun₀ fd).2
  have hs' := (sane_and_stands h₁ hrun₁ fd).2
  rw [← hsame] at hs'
  generalize s.sockToPeerMap.lookup fd = found at hs ⊢
  generalize s'.sockToPeerMap.lookup fd = found' at hs' ⊢
  generalize Endpoint.after (signals fd ts) = place at hs hs'
  cases hs with
  | none =>
    cases hs'
    exact .none
  | some hstands =>
    cases hs' with
    | some hstands' =>
      refine .some ⟨hstands.helper.trans hstands'.helper.symm, ?_, _, hstands.holds, hstands'.holds⟩
      exact RecvState.same_of_forall₂ hstands.completed hstands'.completed

/-- With another client that sends a packet, or without it. -/
theorem isolated_two_clients :
    ∃ ts us s s', Run Step listener ts s ∧ Run Step listener us s' ∧
      signals 6 ts ≠ [] ∧ signals 6 us = [] ∧
      signals 4 ts = [.joined (newcomer 4).sockHelper, .heard (.data (frameOf 1 2 1 0 1 [0x61]))] ∧
      Option.Rel Alike (s.sockToPeerMap.lookup 4) (s'.sockToPeerMap.lookup 4) := by
  obtain ⟨ts, s, hrun, hfour, hsix⟩ := exists_two_clients
  have hnil : Run Step listener [] listener := Run.nil
  have hjoin := hnil.snoc (step_joined 4 ⟨by decide, by decide⟩ (by decide))
  have hframe : wire.IsFrame (frameOf 1 2 1 0 1 [0x61]) := frameOf_isFrame (by simp) (by simp)
  have hfound : (listener.joined 4).sockToPeerMap.lookup 4 = some (newcomer 4) := rfl
  obtain ⟨s', q, -, hcall, -⟩ := handle_frame hframe (by decide) hfound
  have hrun' := hjoin.snoc (Step.handleClientCommunications hcall)
  refine ⟨ts, _, s, s', hrun, hrun', by simp [hsix], rfl, hfour, ?_⟩
  exact isolated listener_started listener_started hrun hrun' (hfour.trans rfl)

theorem handleClientCommunications_error {peer : PeerConnHandler} {r : RecvResult} {k : Halt}
    (h : s.sockToPeerMap.lookup fd = some peer) :
    s.handleClientCommunications fd r = .error k ↔
      RecvState.recvPkt { toPeerConnHandler := peer, outFile := s.outFile } r = .error k := by
  rw [handleClientCommunications_of_lookup h]
  cases RecvState.recvPkt { toPeerConnHandler := peer, outFile := s.outFile } r with
  | error k' => simp
  | ok result => simp

/-- How the call ends that handles a connection is decided by the signals for its descriptor alone:
it comes back, unless it hangs on a frame that has become overlong, or an access goes wrong. -/
theorem handle_ends_iff {s₀ : Process} {ts : List (Transition Process Event)} {r : RecvResult}
    (h₀ : Started s₀) (hrun : Run Step s₀ ts s)
    (hgives : ∀ peer, s.sockToPeerMap.lookup fd = some peer → peer.connActive = true →
      RecvState.Accepts { toPeerConnHandler := peer } r) :
    (s.handleClientCommunications fd r = .error .hang ↔
      ∃ e bs, Endpoint.after (signals fd ts) = some e ∧ e.helper.isSockOpen = true ∧
        r = .data bs ∧ e.conn.IsOverlong bs) ∧
    ((∃ f, s.handleClientCommunications fd r = .error (.fault f)) ↔
      ∃ e bs, Endpoint.after (signals fd ts) = some e ∧ e.helper.isSockOpen = true ∧
        r = .data bs ∧ ¬ e.conn.IsSound bs) ∧
    s.handleClientCommunications fd r ≠ .error .exit := by
  have hstands := (sane_and_stands h₀ hrun fd).2
  generalize Endpoint.after (signals fd ts) = place at hstands
  cases hfound : s.sockToPeerMap.lookup fd with
  | none =>
    rw [hfound] at hstands
    cases hstands
    simp [handleClientCommunications_of_none hfound]
  | some peer =>
    rw [hfound] at hstands
    cases hstands with
    | @some _ e hstands =>
      have hhelper : e.helper.isSockOpen = peer.sockHelper.isSockOpen := by rw [hstands.helper]
      simp only [Ne, handleClientCommunications_error hfound, Option.some.injEq, exists_and_left,
        exists_eq_left', hhelper]
      cases hopen : peer.sockHelper.isSockOpen with
      | false =>
        rw [RecvState.recvPkt_of_not_open (by exact hopen)]
        simp
      | true =>
        simpa using RecvState.recvPkt_ends (hstands.holds.withOutFile s.outFile)
          (hgives peer hfound hopen)

theorem handle_ends_unmarked : ∃ ts f, Run Step listener ts (listener.joined 4) ∧
    (listener.joined 4).handleClientCommunications 4 (.data [0, 0, 0]) = .error (.fault f) := by
  have hnil : Run Step listener [] listener := Run.nil
  have hrun := hnil.snoc (step_joined 4 ⟨by decide, by decide⟩ (by decide))
  have hgives : ∀ peer, (listener.joined 4).sockToPeerMap.lookup 4 = some peer →
      peer.connActive = true →
        RecvState.Accepts { toPeerConnHandler := peer } (.data [0, 0, 0]) := by
    intro peer hfound _
    rw [← Option.some.inj hfound]
    exact ⟨rfl, by simp, by decide⟩
  have hunsound : ¬ ({} : Conn).IsSound [0, 0, 0] := by
    intro hsound
    have hmarked := (hsound (by decide) (by decide)).marked (by decide) (by decide)
    exact absurd hmarked (by decide)
  obtain ⟨f, hfault⟩ := (handle_ends_iff listener_started hrun hgives).2.1.mpr
    ⟨{ helper := (newcomer 4).sockHelper }, [0, 0, 0], rfl, rfl, rfl, hunsound⟩
  exact ⟨_, f, hrun, hfault⟩

end Process

namespace Process

variable {s s' : Process} {e : Event}

def completions (t : Transition Process Event) : List Packet :=
  match t.event.op with
  | .handleClientCommunications fd _ =>
    match t.before.sockToPeerMap.lookup fd, t.after.sockToPeerMap.lookup fd with
    | some peer, some peer' => peer'.completedPkts.drop peer.completedPkts.length
    | _, _ => []
  | _ => []

@[simp] theorem destroy_outFile (s : Process) (helper : SocketHelper) (k : CloseResult) :
    (s.destroy helper k).outFile = s.outFile := released_outFile s helper _

@[simp] theorem enter_outFile (s : Process) (fd : ℤ) (peer : PeerConnHandler) (k : CloseResult) :
    (s.enter fd peer k).outFile = s.outFile := by
  cases hfound : s.sockToPeerMap.lookup fd with
  | none => rw [enter_of_none hfound]; rfl
  | some old => rw [enter_of_some hfound, destroy_outFile]; rfl

theorem Step.outFile (h : AllReady s) (hstep : Step s e s') :
    s'.outFile = (completions ⟨s, e, s'⟩).foldl OutFile.writtenBy s.outFile := by
  cases hstep with
  | handleNewClient _ hcall =>
    obtain ⟨-, -, peer, -, hends⟩ := handleNewClient_ok hcall
    cases hends with
    | inl hrefused => simp [hrefused.2.2, completions]
    | inr hentered => simp [hentered.2.2, completions]
  | connectToPeer _ hcall =>
    obtain hrefused | ⟨-, helper, -, -, hs'⟩ | ⟨-, -, connected, -, -, -, hs'⟩ :=
      connectToPeer_ok hcall
    · simp [hrefused.2, completions]
    · simp [hs', completions]
    · simp [hs', completions]
  | removeDisconnectedPeers _ =>
    rw [Process.removeDisconnectedPeers]
    split <;> rfl
  | @handleClientCommunications fd r s' call hcall =>
    cases hfound : s.sockToPeerMap.lookup fd with
    | none =>
      rw [handleClientCommunications_of_none hfound] at hcall
      rw [← (Prod.mk.inj (Except.ok.inj hcall)).1]
      simp [completions, hfound]
    | some peer =>
      rw [handleClientCommunications_of_lookup hfound] at hcall
      obtain ⟨⟨t, result⟩, hrecv, hs'⟩ := bind_eq_ok.mp hcall
      obtain ⟨c, hc⟩ := h _ (mem_of_lookup hfound)
      obtain ⟨ps, frames, hps, hcarry, hfile⟩ :=
        RecvState.recvPkt_written (hc.withOutFile s.outFile) hrecv
      rw [← (Prod.mk.inj (Except.ok.inj hs')).1, released_outFile]
      simp only [completions, hfound, released_toP2PurrServer, lookup_replacePeer hfound, hps,
        List.drop_left, OutFile.foldl_writtenBy hcarry, hfile]

/-- All connections write to one file: it holds what the last file packet has left there, on
whichever connection it came, and if there was none, what was there before. -/
theorem outFile_content {s₀ : Process} {ts : List (Transition Process Event)} (h₀ : Started s₀)
    (hrun : Run Step s₀ ts s) :
    s.outFile.content = if s₀.outFile.opens = true then
      (((ts.flatMap completions).filter fun p => p.type == genericFile).getLast?.map
        fun p => p.getPayload.toOption).getD s₀.outFile.content
      else s₀.outFile.content := by
  have hall := hrun.traces
    (fun ts s => (Sane s ∧ AllReady s) ∧
      s.outFile = (ts.flatMap completions).foldl OutFile.writtenBy s₀.outFile)
    (fun _ => True) ?_ ?_ (fun _ _ => trivial)
  · rw [hall.2]
    exact (OutFile.foldl_content _ _).2
  · exact ⟨(Serving.started h₀).invariant, rfl⟩
  · intro ts s e s' hs hstep _
    refine ⟨⟨hs.1.1.step hstep, hs.1.2.step hs.1.1.running hstep⟩, ?_⟩
    rw [List.flatMap_append, List.foldl_append, ← hs.2, hstep.outFile hs.1.2]
    simp

/-- A client sends a file of one letter. -/
theorem outFile_content_letter :
    ∃ ts s, Run Step listener ts s ∧ s.outFile.content = some [0x61] := by
  have hnil : Run Step listener [] listener := Run.nil
  have hfound : (listener.joined 4).sockToPeerMap.lookup 4 = some (newcomer 4) := rfl
  have hframe : wire.IsFrame (frameOf genericFile 2 1 0 1 [0x61]) :=
    frameOf_isFrame (by simp) (by simp)
  obtain ⟨s, q, peer, hcall, hcarries, -, hafter, hq, -⟩ := handle_frame hframe (by decide) hfound
  have htype : q.type = genericFile := (Option.some.inj hcarries.type).symm
  have hrun := (hnil.snoc (step_joined 4 ⟨by decide, by decide⟩ (by decide))).snoc
    (Step.handleClientCommunications hcall)
  refine ⟨_, s, hrun, (outFile_content listener_started hrun).trans ?_⟩
  have hempty : (newcomer 4).completedPkts = [] := rfl
  simp [completions, hfound, hafter, hq, htype, hempty, hcarries.payload]
  decide

end Process

end P2Purr
