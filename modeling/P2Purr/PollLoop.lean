import P2Purr.HangUp

namespace P2Purr
open Memory Loop Runs

/-- The kernel's answers in one turn, by the place in the poll list.  The entry of a client that is
accepted meanwhile has not been polled, and its `revents` was never set. -/
structure PollAnswers where
  ready : ℕ → Bool
  accept : ℕ → Accepting
  recv : ℕ → RecvResult

structure PollLoop where
  process : Process
  pollIt : ℕ := 0

namespace PollLoop

def guard (l : PollLoop) : Bool :=
  decide (l.pollIt < l.process.pollfdList.length) && l.process.isLocalServerRunning

def fd (l : PollLoop) : ℤ := l.process.pollfdList.getD l.pollIt (-1)

def turn (a : PollAnswers) (l : PollLoop) : Except (Stop Process) PollLoop :=
  if !a.ready l.pollIt then .ok { l with pollIt := l.pollIt + 1 }
  else if l.fd = l.process.serverSockHelper.sock then do
    let (s, _) ← l.process.handleNewClient (a.accept l.pollIt)
    -- set back to the beginning, and past the listening descriptor
    pure { process := s, pollIt := 1 }
  else
    match l.process.handleClientCommunications l.fd (a.recv l.pollIt) with
    | .error h => .error (.halt h)
    | .ok (s, _) => .ok { process := s, pollIt := l.pollIt + 1 }

end PollLoop

namespace Process

def pollPass (s : Process) (a : PollAnswers)
    (order : List (ℤ × PeerConnHandler) → List (ℤ × PeerConnHandler)) :
    Except (Stop Process) Process := do
  let l ← whileLoop PollLoop.guard (PollLoop.turn a) (.halt .hang) (s.pollfdList.length + 1)
    { process := s }
  pure (l.process.removeDisconnectedPeers (order l.process.sockToPeerMap))

end Process

namespace RecvState

variable {s s' : RecvState} {c : Conn} {r : RecvResult} {call : RecvCall} {bs : List Byte}

/-- A call comes back, unless the loop hangs on an overlong frame, or an access is wrong. -/
theorem recvPkt_outcome (h : Holds s c) (hr : r ≠ .data [])
    (hshort : ∀ bs, r = .data bs → s.sockHelper.isSockOpen = true → ¬ c.IsOverlong bs) :
    (∃ s' call, s.recvPkt r = .ok (s', call)) ∨ ∃ f, s.recvPkt r = .error (.fault f) := by
  cases hopen : s.sockHelper.isSockOpen with
  | false => exact Or.inl ⟨s, _, recvPkt_of_not_open hopen r⟩
  | true =>
    cases r with
    | closed k => exact Or.inl ⟨_, _, recvPkt_closed h hopen k⟩
    | failed => exact Or.inl ⟨_, _, recvPkt_failed h hopen⟩
    | data bs =>
      by_cases ha : s.Accepts (.data bs)
      · obtain ⟨hhangs, -, hexit⟩ := recvPkt_ends h ha
        cases hcall : s.recvPkt (.data bs) with
        | ok p => exact Or.inl ⟨p.1, p.2, rfl⟩
        | error e =>
          cases e with
          | hang =>
            obtain ⟨bs', heq, hover⟩ := hhangs.mp hcall
            exact absurd hover (hshort bs' heq hopen)
          | fault f => exact Or.inr ⟨f, rfl⟩
          | exit => exact absurd hcall hexit
      · have hstops := recvPkt_of_not_accepts h hopen ha
        rw [if_neg (by simpa using hr)] at hstops
        exact Or.inr hstops

theorem not_overlong_of_ok (h : Holds s c) (hopen : s.sockHelper.isSockOpen = true)
    (hcall : s.recvPkt (.data bs) = .ok (s', call)) : ¬ c.IsOverlong bs := by
  intro hover
  have hhangs := (recvPkt_ends h (accepts_of_ok h hopen hcall)).1.mpr ⟨bs, rfl, hover⟩
  rw [hhangs] at hcall
  cases hcall

theorem recvPkt_stays (h : Holds s c) (hr : ∀ k, r ≠ .closed k)
    (hcall : s.recvPkt r = .ok (s', call)) : s'.sockHelper = s.sockHelper := by
  cases hopen : s.sockHelper.isSockOpen with
  | false =>
    rw [recvPkt_of_not_open hopen] at hcall
    rw [← (Prod.mk.inj (Except.ok.inj hcall)).1]
  | true =>
    cases r with
    | closed k => exact absurd rfl (hr k)
    | failed =>
      rw [recvPkt_failed h hopen] at hcall
      rw [← (Prod.mk.inj (Except.ok.inj hcall)).1]
    | data bs =>
      exact (recvPkt_grew h (accepts_of_ok h hopen hcall) hcall).sockHelper

end RecvState

structure Accepting.Succeeds (a : Accepting) : Prop where
  sock : a.sock ≠ -1
  address : a.address = true
  addrinfo : a.setup.addrinfo = true
  options : a.setup.options = true
  nonblocking : a.setup.nonblocking = true

namespace Process

variable {s s' s₀ : Process} {a : Accepting} {fd : ℤ} {peer : PeerConnHandler}

/-- `handle_new_client` comes back exactly when nothing fails, also where the client is refused. -/
theorem handleNewClient_ok_iff : (∃ p, s.handleNewClient a = .ok p) ↔ a.Succeeds := by
  constructor
  · intro ⟨p, hp⟩
    obtain ⟨hsock, haddress, peer, hpeer, -⟩ := handleNewClient_ok hp
    obtain ⟨-, ⟨haddrinfo, hoptions, hblocking⟩, -⟩ := PeerConnHandler.create_inv hpeer
    exact ⟨hsock, haddress, haddrinfo, hoptions, hblocking⟩
  · intro h
    have hspec := @PeerConnHandler.create_spec a.host a.port _ _ _ (if_neg h.sock) h.sock h.addrinfo
    rw [if_pos ⟨h.options, h.nonblocking⟩] at hspec
    obtain ⟨peer, hpeer, -⟩ := hspec
    simp only [handleNewClient, if_neg h.sock, h.address, hpeer, Bool.not_true, Bool.false_eq_true,
      ↓reduceIte]
    split <;> exact ⟨_, rfl⟩

/-- The listening descriptor is polled in the first place, or nowhere. -/
def Listed (s : Process) : Prop := s.serverSockHelper.sock ∉ s.pollfdList.tail

theorem scanAll_sublist (fds polled : List ℤ) : (scanAll fds [] polled).Sublist polled := by
  cases fds with
  | nil => exact List.Sublist.refl polled
  | cons fd fds =>
    rw [scanAll_cons]
    exact List.filter_sublist

theorem Listed.step {e : Event} (hsane : Sane s) (h : Listed s) (hstep : Step s e s') :
    Listed s' := by
  obtain ⟨hstay, hchange⟩ := hstep.change hsane.running
  unfold Listed at h ⊢
  rw [hstay.listening]
  -- a new descriptor is none that is open
  have hopened : ∀ fd, s.Free fd → s.serverSockHelper.sock ∉ (s.pollfdList ++ [fd]).tail := by
    intro fd hfree
    cases hpoll : s.pollfdList with
    | nil => simp
    | cons x rest =>
      rw [hpoll] at h
      rw [List.cons_append, List.tail_cons, List.mem_append, List.mem_singleton, not_or]
      refine ⟨h, ?_⟩
      intro hfd
      exact hfree.2 (hfd ▸ hsane.listening)
  cases hchange with
  | nothing _ hpoll _ => rwa [hpoll]
  | entered hfree _ _ _ hpoll _ =>
    rw [hpoll]
    exact hopened _ hfree
  | met hfree _ _ _ hpoll _ =>
    rw [hpoll]
    exact hopened _ hfree
  | handled _ _ hpoll _ _ => rwa [hpoll]
  | removed _ _ hpoll _ =>
    rw [hpoll]
    intro hmem
    exact h ((scanAll_sublist _ _).tail.subset hmem)

theorem Serving.listed (h : Serving s) : Listed s := by
  induction h with
  | started h₀ => simp [Listed, h₀.start.2.2.2.1]
  | step h hstep ih => exact ih.step h.invariant.1 hstep
  | stopped h hstop ih => simp [Listed, (stop_failed h.invariant.1 hstop).2.2]

end Process

namespace PollLoop

open Process

variable {s s' : Process} {a : PollAnswers} {l l' : PollLoop} {fd : ℤ} {peer : PeerConnHandler}

inductive Turned (a : PollAnswers) (l : PollLoop) : PollLoop → Prop
  | idle (hready : a.ready l.pollIt = false) : Turned a l { l with pollIt := l.pollIt + 1 }
  | accepted {s' : Process} {made : Option (ℤ × PeerConnHandler)}
      (hready : a.ready l.pollIt = true) (hfd : l.fd = l.process.serverSockHelper.sock)
      (h : l.process.handleNewClient (a.accept l.pollIt) = .ok (s', made)) :
      Turned a l { process := s', pollIt := 1 }
  | handled {s' : Process} {call : Option (String × UInt16 × PacketRef)}
      (hready : a.ready l.pollIt = true) (hfd : l.fd ≠ l.process.serverSockHelper.sock)
      (h : l.process.handleClientCommunications l.fd (a.recv l.pollIt) = .ok (s', call)) :
      Turned a l { process := s', pollIt := l.pollIt + 1 }

theorem turned (h : turn a l = .ok l') : Turned a l l' := by
  unfold turn at h
  cases hready : a.ready l.pollIt with
  | false =>
    simp only [hready, Bool.not_false, ↓reduceIte] at h
    rw [← Except.ok.inj h]
    exact Turned.idle hready
  | true =>
    simp only [hready, Bool.not_true, Bool.false_eq_true, ↓reduceIte] at h
    split at h
    · rename_i hfd
      obtain ⟨p, hp, hl'⟩ := bind_eq_ok.mp h
      rw [← Except.ok.inj hl']
      exact Turned.accepted hready hfd hp
    · rename_i hfd
      cases hcall : l.process.handleClientCommunications l.fd (a.recv l.pollIt) with
      | error e => simp [hcall] at h
      | ok p =>
        simp only [hcall] at h
        rw [← Except.ok.inj h]
        exact Turned.handled hready hfd hcall

structure Passing (s : Process) (a : PollAnswers) (l : PollLoop) : Prop where
  turns : Turns guard (turn a) { process := s } l
  sane : Sane l.process
  ready : AllReady l.process
  listed : Listed l.process
  start : l.pollIt = 0 → l.process = s
  grown : ∃ new, l.process.pollfdList = s.pollfdList ++ new ∧ ∀ x ∈ new, x ∉ s.openFds

def remaining (l : PollLoop) : ℕ :=
  if l.pollIt = 0 then l.process.pollfdList.length + 1
  else l.process.pollfdList.length - l.pollIt

theorem guard_iff (hsane : Sane l.process) :
    guard l = true ↔ l.pollIt < l.process.pollfdList.length := by
  simp [guard, hsane.running]

theorem fd_of_lt (h : l.pollIt < l.process.pollfdList.length) :
    l.process.pollfdList[l.pollIt]? = some l.fd := by
  rw [fd, List.getD_eq_getElem?_getD, List.getElem?_eq_getElem h, Option.getD_some]

theorem Passing.pollIt_eq_zero (h : Passing s a l) (hlt : l.pollIt < l.process.pollfdList.length)
    (hfd : l.fd = l.process.serverSockHelper.sock) : l.pollIt = 0 := by
  have hget := fd_of_lt hlt
  cases hit : l.pollIt with
  | zero => rfl
  | succ n =>
    rw [hit, ← List.getElem?_tail, hfd] at hget
    exact absurd (List.mem_of_getElem? hget) h.listed

/-- A new descriptor goes to the end of the poll list, and the entries of the table stay. -/
theorem opened_grows {made : Option (ℤ × PeerConnHandler)} (h : Opened s fd made s') :
    (∀ e ∈ s.sockToPeerMap, e ∈ s'.sockToPeerMap) ∧
      ∃ new, s'.pollfdList = s.pollfdList ++ new ∧ new.length ≤ 1 ∧ ∀ x ∈ new, x = fd := by
  cases h with
  | nothing hserver _ =>
    rw [hserver]
    exact ⟨fun e he => he, [], by simp, by simp, by simp⟩
  | @entered peer k hown =>
    cases hold : s.sockToPeerMap.lookup fd with
    | none =>
      rw [enter_of_none (by exact hold)]
      exact ⟨fun e he => List.mem_cons_of_mem _ he, [fd], rfl, le_rfl, by simp⟩
    | some old =>
      rw [enter_of_some (by exact hold), destroy_toP2PurrServer]
      exact ⟨fun e he => he, [fd], rfl, le_rfl, by simp⟩

theorem handleClientCommunications_polled {r : RecvResult} (hsane : Sane s)
    (hstep : Step s ⟨.handleClientCommunications fd r, none⟩ s') :
    s'.pollfdList = s.pollfdList := by
  cases (hstep.change hsane.running).2 with
  | nothing _ hpoll _ => exact hpoll
  | handled _ _ hpoll _ _ => exact hpoll

theorem Passing.accepts {made : Option (ℤ × PeerConnHandler)} (h : Passing s a l)
    (hlt : l.pollIt < l.process.pollfdList.length)
    (hkernel : (a.accept 0).sock = -1 ∨ s.Free (a.accept 0).sock)
    (hfd : l.fd = l.process.serverSockHelper.sock)
    (hcall : l.process.handleNewClient (a.accept l.pollIt) = .ok (s', made)) :
    l.pollIt = 0 ∧ l.process = s ∧ s.Free (a.accept 0).sock ∧
      s.handleNewClient (a.accept 0) = .ok (s', made) := by
  have hit := h.pollIt_eq_zero hlt hfd
  have hprocess := h.start hit
  rw [hprocess, hit] at hcall
  have hmade := handleNewClient_ok_iff.mp ⟨_, hcall⟩
  exact ⟨hit, hprocess, hkernel.resolve_left hmade.sock, hcall⟩

theorem Passing.turn (h : Passing s a l) (hlt : l.pollIt < l.process.pollfdList.length)
    (hkernel : (a.accept 0).sock = -1 ∨ s.Free (a.accept 0).sock) (hturn : turn a l = .ok l') :
    Passing s a l' ∧ l'.remaining < l.remaining := by
  have hguard := (guard_iff h.sane).mpr hlt
  have hturns : Turns guard (PollLoop.turn a) { process := s } l' :=
    h.turns.tail ⟨hguard, hturn⟩
  have hpos : l.process.pollfdList.length - (l.pollIt + 1) < l.remaining := by
    unfold remaining
    split <;> omega
  cases turned hturn with
  | idle hready => exact ⟨⟨hturns, h.sane, h.ready, h.listed, by simp, h.grown⟩, hpos⟩
  | @accepted s' made hready hfd hcall =>
    obtain ⟨hit, hprocess, hfree, hcall⟩ := h.accepts hlt hkernel hfd hcall
    have hstep := Step.handleNewClient hfree hcall
    have hsane := hprocess ▸ h.sane
    obtain ⟨-, new, hpoll, hone, hnew⟩ := opened_grows (handleNewClient_opened hcall)
    refine ⟨⟨hturns, hsane.step hstep, AllReady.step hsane.running (hprocess ▸ h.ready) hstep,
      Listed.step hsane (hprocess ▸ h.listed) hstep, by simp, new, hpoll, ?_⟩, ?_⟩
    · intro x hx
      rw [hnew x hx]
      exact hfree.2
    · simp only [remaining, hit, hprocess, hpoll, List.length_append, one_ne_zero, ↓reduceIte]
      omega
  | @handled s' call hready hfd hcall =>
    have hstep : Step l.process ⟨.handleClientCommunications l.fd (a.recv l.pollIt), none⟩ s' :=
      Step.handleClientCommunications hcall
    have hpoll := handleClientCommunications_polled h.sane hstep
    refine ⟨⟨hturns, h.sane.step hstep, AllReady.step h.sane.running h.ready hstep,
      Listed.step h.sane h.listed hstep, by simp, ?_⟩, ?_⟩
    · rw [hpoll]
      exact h.grown
    · simpa [remaining, hpoll] using hpos

/-- A peer that is connected is given bytes with which its frame becomes one that the loop of
`recv_pkt` does not end on. -/
def ReceivesOverlong (a : PollAnswers) (l : PollLoop) : Prop :=
  ∃ peer c bs, l.process.sockToPeerMap.lookup l.fd = some peer ∧ peer.connActive = true ∧
    RecvState.Holds { toPeerConnHandler := peer } c ∧ a.recv l.pollIt = .data bs ∧ c.IsOverlong bs

def AtTheDoor (s : Process) (a : PollAnswers) : Prop :=
  s.pollfdList.head? = some s.serverSockHelper.sock ∧ a.ready 0 = true

theorem Passing.outcome (h : Passing s a l) (hlt : l.pollIt < l.process.pollfdList.length)
    (haccept : AtTheDoor s a → (a.accept 0).Succeeds) (hrecv : ∀ i, a.recv i ≠ .data [])
    (hshort : a.ready l.pollIt = true → ¬ ReceivesOverlong a l) :
    (∃ l', PollLoop.turn a l = .ok l') ∨
      ∃ e, PollLoop.turn a l = .error e ∧ ∃ f, e = .halt (.fault f) := by
  cases hready : a.ready l.pollIt with
  | false => exact Or.inl ⟨{ l with pollIt := l.pollIt + 1 }, by simp [PollLoop.turn, hready]⟩
  | true =>
    by_cases hfd : l.fd = l.process.serverSockHelper.sock
    · have hit := h.pollIt_eq_zero hlt hfd
      have hdoor : AtTheDoor s a := by
        have hget := fd_of_lt hlt
        rw [hit, h.start hit, hfd, h.start hit] at hget
        exact ⟨by rw [List.head?_eq_getElem?, hget], hit ▸ hready⟩
      obtain ⟨p, hp⟩ := (@handleNewClient_ok_iff l.process _).mpr (haccept hdoor)
      rw [← hit] at hp
      exact Or.inl ⟨{ process := p.1, pollIt := 1 }, by simp [PollLoop.turn, hready, hfd, hp]⟩
    · cases hfound : l.process.sockToPeerMap.lookup l.fd with
      | none =>
        refine Or.inl ⟨{ l with pollIt := l.pollIt + 1 }, ?_⟩
        simp [PollLoop.turn, hready, hfd, handleClientCommunications, hfound]
      | some peer =>
        obtain ⟨c, hc⟩ := h.ready _ (mem_of_lookup hfound)
        have hends := RecvState.recvPkt_outcome (hc.withOutFile l.process.outFile) (hrecv l.pollIt)
          fun bs hbs hopen hover =>
            hshort hready ⟨peer, c, bs, hfound, hopen, hc, hbs, hover⟩
        have hcall := handleClientCommunications_of_lookup hfound (a.recv l.pollIt)
        cases hends with
        | inl hok =>
          obtain ⟨t, call, ht⟩ := hok
          rw [ht, ok_bind] at hcall
          exact Or.inl ⟨_, by simp only [PollLoop.turn, hready, hfd, hcall]; rfl⟩
        | inr hfault =>
          obtain ⟨f, hf⟩ := hfault
          rw [hf, error_bind] at hcall
          exact Or.inr ⟨_, by simp only [PollLoop.turn, hready, hfd, hcall]; rfl, f, rfl⟩

theorem Passing.not_overlong (h : Passing s a l) (hturn : PollLoop.turn a l = .ok l')
    (hready : a.ready l.pollIt = true) : ¬ ReceivesOverlong a l := by
  intro hover
  obtain ⟨peer, c, bs, hfound, hactive, hc, hbs, hover⟩ := hover
  cases turned hturn with
  | idle hidle => simp [hidle] at hready
  | accepted _ hfd _ =>
    rw [hfd] at hfound
    exact (h.sane.key _ (mem_keys (mem_of_lookup hfound))).2.1 rfl
  | handled _ _ hcall =>
    rw [handleClientCommunications_of_lookup hfound, hbs] at hcall
    obtain ⟨⟨t, call⟩, ht, -⟩ := bind_eq_ok.mp hcall
    exact RecvState.not_overlong_of_ok (hc.withOutFile l.process.outFile) hactive ht hover

def Connected (fd : ℤ) (s : Process) : Prop :=
  ∃ peer, (fd, peer) ∈ s.sockToPeerMap ∧ peer.connActive = true

def StaysOpen (s : Process) (a : PollAnswers) (fd : ℤ) : Prop :=
  ∀ i k, s.pollfdList[i]? = some fd → a.ready i = true → a.recv i ≠ .closed k

theorem connected_handled {r : RecvResult} {call : Option (String × UInt16 × PacketRef)} {x : ℤ}
    (hsane : Sane s) (hready : AllReady s) (h : Connected fd s)
    (hr : x = fd → ∀ k, r ≠ .closed k)
    (hcall : s.handleClientCommunications x r = .ok (s', call)) : Connected fd s' := by
  obtain ⟨peer, hmem, hactive⟩ := h
  cases hfound : s.sockToPeerMap.lookup x with
  | none =>
    rw [handleClientCommunications_of_none hfound] at hcall
    rw [← (Prod.mk.inj (Except.ok.inj hcall)).1]
    exact ⟨peer, hmem, hactive⟩
  | some old =>
    rw [handleClientCommunications_of_lookup hfound] at hcall
    obtain ⟨⟨t, result⟩, hrecv, hs'⟩ := bind_eq_ok.mp hcall
    rw [← (Prod.mk.inj (Except.ok.inj hs')).1]
    unfold Connected
    rw [released_toP2PurrServer]
    by_cases hx : x = fd
    · -- its own turn: `recv` gives bytes or fails, and the socket stays as it is
      have hold : (fd, old) ∈ s.sockToPeerMap := hx ▸ mem_of_lookup hfound
      rw [hsane.unique hmem hold] at hactive
      obtain ⟨c, hc⟩ := hready _ hold
      have hsock := RecvState.recvPkt_stays (hc.withOutFile s.outFile) (hr hx) hrecv
      refine ⟨t.toPeerConnHandler, ?_, ?_⟩
      · rw [hx]
        exact mem_replacePeer_self hold
      · rw [PeerConnHandler.connActive, hsock]
        exact hactive
    · exact ⟨peer, mem_replacePeer_of_ne hmem (Ne.symm hx), hactive⟩

theorem Passing.connected (h : Passing s a l) (hlt : l.pollIt < l.process.pollfdList.length)
    (hkernel : (a.accept 0).sock = -1 ∨ s.Free (a.accept 0).sock) (hopen : fd ∈ s.openFds)
    (hstays : StaysOpen s a fd) (hconn : Connected fd l.process)
    (hturn : PollLoop.turn a l = .ok l') : Connected fd l'.process := by
  cases turned hturn with
  | idle _ => exact hconn
  | accepted _ hfd hcall =>
    obtain ⟨-, hprocess, hfree, hcall⟩ := h.accepts hlt hkernel hfd hcall
    obtain ⟨peer, hmem, hactive⟩ := hconn
    exact ⟨peer, (opened_grows (handleNewClient_opened hcall)).1 _ (hprocess ▸ hmem), hactive⟩
  | handled hready _ hcall =>
    apply connected_handled h.sane h.ready hconn _ hcall
    intro hfd k
    obtain ⟨new, hpoll, hnew⟩ := h.grown
    have hget := fd_of_lt hlt
    rw [hfd, hpoll] at hget
    by_cases hi : l.pollIt < s.pollfdList.length
    · rw [List.getElem?_append_left hi] at hget
      exact hstays l.pollIt k hget hready
    · -- the descriptor of a new client was not open before
      rw [List.getElem?_append_right (by omega)] at hget
      exact absurd hopen (hnew fd (List.mem_of_getElem? hget))

variable {order : List (ℤ × PeerConnHandler) → List (ℤ × PeerConnHandler)}

/-- Every connected peer that does not hang up in this pass is still in the table. -/
def Survive (s : Process) (a : PollAnswers) (s' : Process) : Prop :=
  ∀ fd, Connected fd s → StaysOpen s a fd → fd ∈ s'.keys

theorem passing_start (h : Serving s) : Passing s a { process := s } :=
  ⟨Relation.ReflTransGen.refl, h.invariant.1, h.invariant.2, h.listed, fun _ => rfl, [], by simp,
    by simp⟩

theorem Passing.of_turns (h : Passing s a { process := s })
    (hkernel : (a.accept 0).sock = -1 ∨ s.Free (a.accept 0).sock)
    (hturns : Turns guard (PollLoop.turn a) { process := s } l) : Passing s a l := by
  apply hturns.keeps (Passing s a) _ h
  intro l l' hl hguard hturn
  exact (hl.turn ((guard_iff hl.sane).mp hguard) hkernel hturn).1

/-- The loop ends, or an access of the decoder is wrong. -/
theorem Passing.loop_ends (h : Passing s a { process := s })
    (hkernel : (a.accept 0).sock = -1 ∨ s.Free (a.accept 0).sock)
    (hrecv : ∀ i, a.recv i ≠ .data []) (haccept : AtTheDoor s a → (a.accept 0).Succeeds)
    (hshort : ∀ l, Turns guard (PollLoop.turn a) { process := s } l → guard l = true →
      a.ready l.pollIt = true → ¬ ReceivesOverlong a l) :
    (∃ l, whileLoop guard (PollLoop.turn a) (.halt .hang) (s.pollfdList.length + 1)
        { process := s } = .ok l ∧
      (Passing s a l ∧ ∀ fd, Connected fd s → StaysOpen s a fd → Connected fd l.process) ∧
      guard l = false) ∨
    ∃ e, whileLoop guard (PollLoop.turn a) (.halt .hang) (s.pollfdList.length + 1)
      { process := s } = .error e ∧ ∃ f, e = .halt (.fault f) := by
  apply whileLoop_ends
    (fun l => Passing s a l ∧ ∀ fd, Connected fd s → StaysOpen s a fd → Connected fd l.process)
    remaining
  · intro l hl hguard
    have hlt := (guard_iff hl.1.sane).mp hguard
    unfold remaining
    split <;> omega
  · intro l hl hguard
    have hlt := (guard_iff hl.1.sane).mp hguard
    apply (hl.1.outcome hlt haccept hrecv (hshort l hl.1.turns hguard)).imp_left
    intro hok
    obtain ⟨l', hturn⟩ := hok
    obtain ⟨hnext, hless⟩ := hl.1.turn hlt hkernel hturn
    refine ⟨l', hturn, ⟨hnext, ?_⟩, hless⟩
    intro fd hconn hstays
    have hopen : fd ∈ s.openFds := by
      obtain ⟨peer, hmem, hactive⟩ := hconn
      exact (h.sane.active fd peer hmem hactive).2
    exact hl.1.connected hlt hkernel hopen hstays (hl.2 fd hconn hstays) hturn
  · exact ⟨h, fun fd hconn _ => hconn⟩
  · exact le_rfl

theorem first_turn (hdoor : AtTheDoor s a) (hturn : PollLoop.turn a { process := s } = .ok l') :
    (a.accept 0).Succeeds := by
  obtain ⟨rest, hpoll⟩ := List.head?_eq_some_iff.mp hdoor.1
  have hfd : fd { process := s } = s.serverSockHelper.sock := by
    simp only [fd, hpoll]
    rfl
  cases turned hturn with
  | idle hidle => exact absurd (hidle.symm.trans hdoor.2) Bool.false_ne_true
  | accepted _ _ hcall => exact handleNewClient_ok_iff.mp ⟨_, hcall⟩
  | handled _ hne _ => exact absurd hfd hne

end PollLoop

namespace Process

open PollLoop

variable {s : Process} {a : PollAnswers}
  {order : List (ℤ × PeerConnHandler) → List (ℤ × PeerConnHandler)}

/-- A pass ends normally, and keeps the peers, exactly when the client at the door is accepted
without a failure and no peer's frame becomes overlong. -/
theorem pollPass_ends_iff (h : Serving s) (horder : ∀ l, (order l).Perm l)
    (hkernel : (a.accept 0).sock = -1 ∨ s.Free (a.accept 0).sock)
    (hrecv : ∀ i, a.recv i ≠ .data [])
    (hdecodes : ∀ f, s.pollPass a order ≠ .error (.halt (.fault f))) :
    (∃ s', s.pollPass a order = .ok s' ∧ Survive s a s') ↔
      (AtTheDoor s a → (a.accept 0).Succeeds) ∧
        ∀ l, Turns guard (turn a) { process := s } l → guard l = true →
          a.ready l.pollIt = true → ¬ ReceivesOverlong a l := by
  have hstart : Passing s a { process := s } := passing_start h
  constructor
  · intro hends
    obtain ⟨s', hpass, -⟩ := hends
    obtain ⟨last, hloop, -⟩ := bind_eq_ok.mp hpass
    constructor
    · intro hdoor
      have hguard : guard { process := s } = true := by
        obtain ⟨rest, hpoll⟩ := List.head?_eq_some_iff.mp hdoor.1
        rw [guard_iff hstart.sane, hpoll]
        exact Nat.succ_pos _
      obtain ⟨l', hturn⟩ := Turns.comes_back Relation.ReflTransGen.refl hloop hguard
      exact first_turn hdoor hturn
    · intro l hl hguard hready
      obtain ⟨l', hturn⟩ := hl.comes_back hloop hguard
      exact (hstart.of_turns hkernel hl).not_overlong hturn hready
  · intro hcond
    cases hstart.loop_ends hkernel hrecv hcond.1 hcond.2 with
    | inl hok =>
      obtain ⟨l, hloop, ⟨hl, hstand⟩, -⟩ := hok
      refine ⟨l.process.removeDisconnectedPeers (order l.process.sockToPeerMap), ?_, ?_⟩
      · rw [pollPass, hloop]
        rfl
      · intro fd hconn hstays
        obtain ⟨peer, hmem, hactive⟩ := hstand fd hconn hstays
        exact mem_keys ((mem_removed hl.sane.running (horder _)).mpr ⟨hmem, hactive⟩)
    | inr hfault =>
      obtain ⟨e, hloop, f, he⟩ := hfault
      apply absurd _ (hdecodes f)
      rw [pollPass, hloop, he, error_bind]

def oneFails (sock : ℤ) : PollAnswers where
  ready := fun _ => true
  accept := fun _ => { sock := sock }
  recv := fun _ => .failed

theorem serving_joined : Serving (listener.joined 4) :=
  Serving.step (Serving.started listener_started)
    (step_joined 4 ⟨by decide, by decide⟩ (by decide))

theorem pollPass_ends_accepted :
    ∃ s', (listener.joined 4).pollPass (oneFails 5) id = .ok s' ∧
      Survive (listener.joined 4) (oneFails 5) s' := by
  have hpass : ∃ s', (listener.joined 4).pollPass (oneFails 5) id = .ok s' := ⟨_, rfl⟩
  apply (pollPass_ends_iff serving_joined (fun l => List.Perm.refl (id l))
    (Or.inr ⟨by decide, by decide⟩) (fun i => by simp [oneFails]) ?_).mpr
  · refine ⟨fun _ => ⟨by decide, rfl, rfl, rfl, rfl⟩, ?_⟩
    intro l _ _ _ hover
    obtain ⟨peer, c, bs, -, -, -, hbs, -⟩ := hover
    cases hbs
  · intro f hfault
    obtain ⟨s', hs'⟩ := hpass
    rw [hs'] at hfault
    cases hfault

/-- The client has gone again before it is accepted: the exception leaves the poll loop. -/
theorem not_pollPass_ends :
    Serving (listener.joined 4) ∧
      (∃ left, (listener.joined 4).pollPass (oneFails (-1)) id =
        .error (.raised { cls := .accept } left)) ∧
      ¬ ∃ s', (listener.joined 4).pollPass (oneFails (-1)) id = .ok s' ∧
        Survive (listener.joined 4) (oneFails (-1)) s' := by
  have hpass : ∃ left, (listener.joined 4).pollPass (oneFails (-1)) id =
      .error (.raised { cls := .accept } left) := ⟨_, rfl⟩
  refine ⟨serving_joined, hpass, ?_⟩
  intro hends
  obtain ⟨left, hleft⟩ := hpass
  obtain ⟨s', hs', -⟩ := hends
  rw [hleft] at hs'
  cases hs'

end Process

end P2Purr
