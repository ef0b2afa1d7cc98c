import P2Purr.Isolation
import P2Purr.PollLoop

namespace P2Purr
open Memory Loop Runs

namespace Process

open PollLoop

def handleReady (a : PollAnswers) : ℕ → List ℤ → Process → Except (Stop Process) Process
  | _, [], s => .ok s
  | i, fd :: fds, s =>
    if !a.ready i then handleReady a (i + 1) fds s
    else
      match s.handleClientCommunications fd (a.recv i) with
      | .error h => .error (.halt h)
      | .ok (s', _) => handleReady a (i + 1) fds s'

instance (s : Process) (a : PollAnswers) : Decidable (AtTheDoor s a) :=
  inferInstanceAs (Decidable (_ ∧ _))

/-- What a pass does to the connections, without an iterator. -/
def serveReady (s : Process) (a : PollAnswers) : Except (Stop Process) Process :=
  if AtTheDoor s a then do
    let (s', _) ← s.handleNewClient (a.accept 0)
    handleReady a 1 s'.pollfdList.tail s'
  else handleReady a 0 s.pollfdList s

def plainPass (s : Process) (a : PollAnswers)
    (order : List (ℤ × PeerConnHandler) → List (ℤ × PeerConnHandler)) :
    Except (Stop Process) Process := do
  let s' ← s.serveReady a
  pure (s'.removeDisconnectedPeers (order s'.sockToPeerMap))

end Process

namespace PollLoop

open Process

variable {s s' : Process} {a : PollAnswers} {l l' : PollLoop} {n : ℕ}

theorem fd_ne_listening (hlisted : Listed l.process)
    (hget : l.process.pollfdList[l.pollIt]? = some l.fd) (hready : a.ready l.pollIt = true)
    (hdoor : l.pollIt = 0 → ¬ AtTheDoor l.process a) :
    l.fd ≠ l.process.serverSockHelper.sock := by
  intro hfd
  rw [hfd] at hget
  cases hit : l.pollIt with
  | zero =>
    apply hdoor hit
    rw [hit] at hget hready
    exact ⟨by rw [List.head?_eq_getElem?, hget], hready⟩
  | succ i =>
    rw [hit, ← List.getElem?_tail] at hget
    exact hlisted (List.mem_of_getElem? hget)

/-- The loop, where the listening descriptor is behind the iterator or is not ready. -/
theorem loop_eq_handleReady (hsane : Sane l.process) (hlisted : Listed l.process)
    (hdoor : l.pollIt = 0 → ¬ AtTheDoor l.process a)
    (hn : l.process.pollfdList.length - l.pollIt ≤ n) :
    (do let l' ← whileLoop guard (PollLoop.turn a) (.halt .hang) n l; pure l'.process) =
      handleReady a l.pollIt (l.process.pollfdList.drop l.pollIt) l.process := by
  induction n generalizing l with
  | zero =>
    have hend : l.process.pollfdList.length ≤ l.pollIt := by omega
    have hguard : guard l = false := by
      rw [Bool.eq_false_iff, Ne, guard_iff hsane]
      omega
    rw [whileLoop_exit hguard, List.drop_eq_nil_of_le hend]
    rfl
  | succ n ih =>
    by_cases hlt : l.pollIt < l.process.pollfdList.length
    · have hguard := (guard_iff hsane).mpr hlt
      have hget := fd_of_lt hlt
      have hcons : l.process.pollfdList.drop l.pollIt =
          l.fd :: l.process.pollfdList.drop (l.pollIt + 1) := by
        rw [List.drop_eq_getElem_cons hlt, (List.getElem?_eq_some_iff.mp hget).2]
      rw [hcons, handleReady]
      cases hready : a.ready l.pollIt with
      | false =>
        have hturn : PollLoop.turn a l = .ok { l with pollIt := l.pollIt + 1 } := by
          simp [PollLoop.turn, hready]
        rw [whileLoop_turn hguard hturn]
        exact ih hsane hlisted (by simp) (by simp only; omega)
      | true =>
        have hfd := fd_ne_listening hlisted hget hready hdoor
        simp only [Bool.not_true, Bool.false_eq_true, ↓reduceIte]
        cases hcall : l.process.handleClientCommunications l.fd (a.recv l.pollIt) with
        | error h =>
          have hturn : PollLoop.turn a l = .error (.halt h) := by
            simp [PollLoop.turn, hready, hfd, hcall]
          rw [whileLoop_stop hguard hturn]
          rfl
        | ok p =>
          have hturn : PollLoop.turn a l = .ok { process := p.1, pollIt := l.pollIt + 1 } := by
            simp [PollLoop.turn, hready, hfd, hcall]
          have hstep : Step l.process
              ⟨.handleClientCommunications l.fd (a.recv l.pollIt), none⟩ p.1 :=
            Step.handleClientCommunications hcall
          have hpoll := handleClientCommunications_polled hsane hstep
          rw [whileLoop_turn hguard hturn,
            ih (hsane.step hstep) (hlisted.step hsane hstep) (by simp)
              (by simp only [hpoll]; omega)]
          simp only [hpoll]
    · have hguard : guard l = false := by
        rw [Bool.eq_false_iff, Ne, guard_iff hsane]
        exact hlt
      rw [whileLoop_exit hguard, List.drop_eq_nil_of_le (by omega)]
      rfl

end PollLoop

namespace Process

open PollLoop

variable {s s' : Process} {a : PollAnswers}
  {order : List (ℤ × PeerConnHandler) → List (ℤ × PeerConnHandler)}

/-- The loop accepts the client at the door, and then handles every entry that is ready once, in the
order of the list. -/
theorem loop_eq_serveReady (hsane : Sane s) (hlisted : Listed s)
    (hkernel : (a.accept 0).sock = -1 ∨ s.Free (a.accept 0).sock) :
    (do
      let l ← whileLoop guard (PollLoop.turn a) (.halt .hang) (s.pollfdList.length + 1)
        { process := s }
      pure l.process) = s.serveReady a := by
  unfold serveReady
  by_cases hdoor : AtTheDoor s a
  · rw [if_pos hdoor]
    obtain ⟨rest, hpoll⟩ := List.head?_eq_some_iff.mp hdoor.1
    have hfd : fd { process := s } = s.serverSockHelper.sock := by
      simp only [fd, hpoll]
      rfl
    have hguard : guard { process := s } = true := by
      rw [guard_iff hsane, hpoll]
      exact Nat.succ_pos _
    cases hcall : s.handleNewClient (a.accept 0) with
    | error e =>
      have hturn : PollLoop.turn a { process := s } = .error e := by
        simp [PollLoop.turn, hdoor.2, hfd, hcall]
      rw [whileLoop_stop hguard hturn]
      rfl
    | ok p =>
      obtain ⟨s₁, made⟩ := p
      have hturn : PollLoop.turn a { process := s } = .ok { process := s₁, pollIt := 1 } := by
        simp [PollLoop.turn, hdoor.2, hfd, hcall]
      have hmade := handleNewClient_ok_iff.mp ⟨_, hcall⟩
      have hstep : Step s ⟨.handleNewClient (a.accept 0), made⟩ s₁ :=
        Step.handleNewClient (hkernel.resolve_left hmade.sock) hcall
      obtain ⟨-, new, hgrown, hone, -⟩ := opened_grows (handleNewClient_opened hcall)
      have hlen := congrArg List.length hgrown
      rw [List.length_append] at hlen
      rw [whileLoop_turn hguard hturn, ok_bind]
      simp only
      rw [← List.drop_one]
      exact loop_eq_handleReady (l := { process := s₁, pollIt := 1 }) (hsane.step hstep)
        (hlisted.step hsane hstep) (by simp) (by simp only; omega)
  · rw [if_neg hdoor]
    exact loop_eq_handleReady (l := { process := s }) hsane hlisted (fun _ => hdoor)
      (by simp only; omega)

theorem pollPass_of_serveReady (hsane : Sane s) (hlisted : Listed s)
    (hkernel : (a.accept 0).sock = -1 ∨ s.Free (a.accept 0).sock) :
    s.pollPass a order = s.plainPass a order := by
  rw [plainPass, ← loop_eq_serveReady hsane hlisted hkernel, pollPass]
  cases whileLoop guard (PollLoop.turn a) (.halt .hang) (s.pollfdList.length + 1) { process := s }
    <;> rfl

/-- A pass of the poll loop is a plain pass, and an error on the way is the error of both. -/
theorem pollPass_eq_plainPass (h : Serving s)
    (hkernel : (a.accept 0).sock = -1 ∨ s.Free (a.accept 0).sock) :
    s.pollPass a order = s.plainPass a order :=
  pollPass_of_serveReady h.invariant.1 h.listed hkernel

theorem pollPass_eq_plainPass_joined :
    (listener.joined 4).pollPass (oneFails 5) id = (listener.joined 4).plainPass (oneFails 5) id :=
  pollPass_eq_plainPass serving_joined (Or.inr ⟨by decide, by decide⟩)

def accepted (s : Process) (a : PollAnswers) : Option (ℤ × PeerConnHandler) :=
  if AtTheDoor s a then
    match s.handleNewClient (a.accept 0) with
    | .ok (_, made) => made
    | .error _ => none
  else none

def heardIn (a : PollAnswers) (fd : ℤ) : ℕ → List ℤ → List Signal
  | _, [] => []
  | i, x :: fds =>
    if x = fd ∧ a.ready i = true then .heard (a.recv i) :: heardIn a fd (i + 1) fds
    else heardIn a fd (i + 1) fds

/-- What a pass is to the descriptor `fd`. -/
def passSignals (s : Process) (a : PollAnswers) (fd : ℤ) : List Signal :=
  ((s.accepted a).toList.filterMap fun e =>
      if e.1 = fd then some (.joined e.2.sockHelper) else none) ++
    heardIn a fd 0 (s.pollfdList ++ (s.accepted a).toList.map Prod.fst) ++ [.swept]

/-- The poll thread makes a pass, or the user's thread calls `connect_to_peer`. -/
inductive ThreadEvent
  | pass (a : PollAnswers)
  | connect (host : String) (port : UInt16) (a : Dialling) (made : Option (ℤ × PeerConnHandler))

inductive ThreadStep (s : Process) : ThreadEvent → Process → Prop
  | pass {a : PollAnswers} {order : List (ℤ × PeerConnHandler) → List (ℤ × PeerConnHandler)}
      {s' : Process} (hkernel : (a.accept 0).sock = -1 ∨ s.Free (a.accept 0).sock)
      (horder : ∀ l, (order l).Perm l) (h : s.pollPass a order = .ok s') :
      ThreadStep s (.pass a) s'
  | connect {host : String} {port : UInt16} {a : Dialling}
      {made : Option (ℤ × PeerConnHandler)} {s' : Process} (hfree : s.Free a.setup.sock)
      (h : s.connectToPeer host port a = .ok (s', made)) :
      ThreadStep s (.connect host port a made) s'

def threadSignals (fd : ℤ) (t : Transition Process ThreadEvent) : List Signal :=
  match t.event with
  | .pass a => t.before.passSignals a fd
  | .connect host port a made => (Event.signal fd ⟨.connectToPeer host port a, made⟩).toList

structure Seen (fd : ℤ) (s : Process) (place : Option Endpoint) : Prop where
  sane : Sane s
  listed : Listed s
  place : Option.Rel Endpoint.Stands (s.sockToPeerMap.lookup fd) place

variable {fd : ℤ} {place : Option Endpoint} {e : Event}

theorem seen_nowhere (hsane : Sane s) (hlisted : Listed s) : Seen (-1) s none := by
  refine ⟨hsane, hlisted, ?_⟩
  cases hlookup : s.sockToPeerMap.lookup (-1) with
  | none => exact .none
  | some peer =>
    have hkey := (hsane.key (-1) (mem_keys (mem_of_lookup hlookup))).1
    omega

theorem Seen.step (h : Seen fd s place) (hstep : Step s e s') :
    Seen fd s' ((e.signal fd).toList.foldl Endpoint.next place) :=
  ⟨h.sane.step hstep, h.listed.step h.sane hstep, hstep.follows h.sane h.place⟩

theorem Seen.handleReady {i : ℕ} {fds : List ℤ} (h : Seen fd s place)
    (hcall : s.handleReady a i fds = .ok s') :
    Seen fd s' ((heardIn a fd i fds).foldl Endpoint.next place) := by
  induction fds generalizing i s place with
  | nil =>
    rw [← Except.ok.inj hcall]
    exact h
  | cons x fds ih =>
    unfold Process.handleReady at hcall
    unfold heardIn
    cases hready : a.ready i with
    | false =>
      simp only [hready, Bool.not_false, ↓reduceIte] at hcall
      simpa using ih h hcall
    | true =>
      simp only [hready, Bool.not_true, Bool.false_eq_true, ↓reduceIte] at hcall
      cases hone : s.handleClientCommunications x (a.recv i) with
      | error k => simp [hone] at hcall
      | ok p =>
        simp only [hone] at hcall
        have hnext := ih (h.step (Step.handleClientCommunications hone)) hcall
        by_cases hx : x = fd
        · simpa [Event.signal, hx] using hnext
        · simpa [Event.signal, hx] using hnext

theorem foldl_heardIn_none (a : PollAnswers) (fd : ℤ) (i : ℕ) (fds : List ℤ) :
    (heardIn a fd i fds).foldl Endpoint.next none = none := by
  induction fds generalizing i with
  | nil => rfl
  | cons x fds ih =>
    unfold heardIn
    split
    · exact ih (i + 1)
    · exact ih (i + 1)

/-- The list of a server that has accepted a client begins with the listening descriptor, which no
connection has. -/
theorem Seen.skip (h : Seen fd s place) {rest : List ℤ}
    (hpoll : s.pollfdList = s.serverSockHelper.sock :: rest) :
    (heardIn a fd 0 s.pollfdList).foldl Endpoint.next place =
      (heardIn a fd 1 rest).foldl Endpoint.next place := by
  rw [hpoll]
  by_cases hfd : s.serverSockHelper.sock = fd
  · -- the listening descriptor is no key of the table
    have hnone : s.sockToPeerMap.lookup fd = none := by
      cases hlookup : s.sockToPeerMap.lookup fd with
      | none => rfl
      | some peer =>
        exact absurd hfd.symm (h.sane.key fd (mem_keys (mem_of_lookup hlookup))).2.1
    have hplace := h.place
    rw [hnone] at hplace
    cases hplace
    rw [foldl_heardIn_none, foldl_heardIn_none]
  · rw [heardIn, if_neg (fun h => hfd h.1)]

theorem Opened.pollfdList {x : ℤ} {made : Option (ℤ × PeerConnHandler)} (h : Opened s x made s') :
    s'.pollfdList = s.pollfdList ++ made.toList.map Prod.fst := by
  cases h with
  | nothing hserver _ =>
    rw [hserver]
    simp
  | @entered peer k hown =>
    cases hold : s.sockToPeerMap.lookup x with
    | none => rw [enter_of_none (by exact hold)]; rfl
    | some old => rw [enter_of_some (by exact hold), destroy_toP2PurrServer]; rfl

theorem Seen.pass (h : Seen fd s place)
    (hkernel : (a.accept 0).sock = -1 ∨ s.Free (a.accept 0).sock)
    (horder : ∀ l, (order l).Perm l) (hpass : s.pollPass a order = .ok s') :
    Seen fd s' ((s.passSignals a fd).foldl Endpoint.next place) := by
  rw [pollPass_of_serveReady h.sane h.listed hkernel] at hpass
  obtain ⟨s₂, hserve, hs'⟩ := bind_eq_ok.mp hpass
  rw [← Except.ok.inj hs', passSignals, List.foldl_append]
  apply Seen.step (e := ⟨.removeDisconnectedPeers (order s₂.sockToPeerMap), none⟩) _
    (Step.removeDisconnectedPeers (horder _))
  unfold serveReady at hserve
  by_cases hdoor : AtTheDoor s a
  · rw [if_pos hdoor] at hserve
    obtain ⟨⟨s₁, made⟩, hcall, hready⟩ := bind_eq_ok.mp hserve
    have hmade := handleNewClient_ok_iff.mp ⟨_, hcall⟩
    have hstep : Step s ⟨.handleNewClient (a.accept 0), made⟩ s₁ :=
      Step.handleNewClient (hkernel.resolve_left hmade.sock) hcall
    have haccepted : s.accepted a = made := by simp [accepted, hdoor, hcall]
    have hpoll := (handleNewClient_opened hcall).pollfdList
    obtain ⟨rest, hhead⟩ := List.head?_eq_some_iff.mp hdoor.1
    have hlistening := (hstep.change h.sane.running).1.listening
    have hjoined := h.step hstep
    have hnext := hjoined.handleReady hready
    have hlist : s₁.pollfdList =
        s₁.serverSockHelper.sock :: (rest ++ made.toList.map Prod.fst) := by
      rw [hpoll, hhead, hlistening]
      rfl
    have hskip := hjoined.skip (a := a) hlist
    rw [hpoll] at hskip
    rw [hpoll, hhead, List.cons_append, List.tail_cons, ← hskip] at hnext
    rw [haccepted, List.foldl_append]
    cases made with
    | none => exact hnext
    | some e =>
      obtain ⟨x, peer⟩ := e
      by_cases hx : x = fd
      · simpa [Event.signal, hx] using hnext
      · simpa [Event.signal, hx] using hnext
  · rw [if_neg hdoor] at hserve
    have haccepted : s.accepted a = none := by simp [accepted, hdoor]
    rw [haccepted]
    simpa using h.handleReady hserve

/-- Between the passes of the poll thread and the calls of the user's thread, a connection is known
from what is read for its own entries of the poll list. -/
theorem follows_passes {s₀ : Process} {ts : List (Transition Process ThreadEvent)}
    (h₀ : Started s₀) (hrun : Run ThreadStep s₀ ts s) (fd : ℤ) :
    Option.Rel Endpoint.Stands (s.sockToPeerMap.lookup fd)
      (Endpoint.after (ts.flatMap (threadSignals fd))) := by
  have hall := hrun.traces
    (fun ts s => Seen fd s (Endpoint.after (ts.flatMap (threadSignals fd))))
    (fun _ => True) ?_ ?_ (fun _ _ => trivial)
  · exact hall.place
  · refine ⟨h₀.sane, (Serving.started h₀).listed, ?_⟩
    rw [h₀.start.2.2.1]
    exact .none
  · intro ts s e s' hs hstep _
    unfold Endpoint.after at hs ⊢
    rw [List.flatMap_append, List.flatMap_singleton, List.foldl_append]
    cases hstep with
    | pass hkernel horder hpass => exact hs.pass hkernel horder hpass
    | connect hfree hcall => exact hs.step (Step.connectToPeer hfree hcall)

/-- A client is accepted, nothing can be read from it yet, and it is still there when in the next
pass another one is accepted. -/
theorem follows_passes_accepted :
    ∃ ts s, Run ThreadStep listener ts s ∧ ts.flatMap (threadSignals 4) =
        [.joined (newcomer 4).sockHelper, .heard .failed, .swept, .heard .failed, .swept] ∧
      Option.Rel Endpoint.Stands (s.sockToPeerMap.lookup 4)
        (Endpoint.after (ts.flatMap (threadSignals 4))) := by
  have hpasses : ∃ s s', listener.pollPass (oneFails 4) id = .ok s ∧ s.Free 5 ∧
      s.pollPass (oneFails 5) id = .ok s' ∧
      s.passSignals (oneFails 5) 4 = [.heard .failed, .swept] :=
    ⟨_, _, rfl, ⟨by decide, by decide⟩, rfl, rfl⟩
  obtain ⟨s, s', hs, hfree, hs', hsignals⟩ := hpasses
  have hnil : Run ThreadStep listener [] listener := Run.nil
  have hrun := (hnil.snoc (ThreadStep.pass (Or.inr ⟨by decide, by decide⟩)
    (fun l => List.Perm.refl (id l)) hs)).snoc
      (ThreadStep.pass (Or.inr hfree) (fun l => List.Perm.refl (id l)) hs')
  refine ⟨_, s', hrun, ?_, follows_passes listener_started hrun 4⟩
  rw [List.flatMap_append, List.flatMap_singleton]
  exact congrArg ([.joined (newcomer 4).sockHelper, .heard .failed, .swept] ++ ·) hsignals

/-- What one call of `poll` gives, if it does not fail, and the order of the table in the pass that
follows. -/
structure PollCall where
  answers : Option PollAnswers
  order : List (ℤ × PeerConnHandler) → List (ℤ × PeerConnHandler) := id

def pollError : GenericException := { cls := .poll }

def startAsyncPoll : List PollCall → Process → Except (Stop Process) Process
  | [], s => .ok s
  | c :: calls, s =>
    if !s.isLocalServerRunning then .ok s
    else
      match c.answers with
      | none => .error (.raised pollError s)
      | some a => do
        let s' ← s.pollPass a c.order
        startAsyncPoll calls s'

theorem handleReady_neverThrows (a : PollAnswers) (i : ℕ) (fds : List ℤ) (s : Process) :
    NeverThrows (s.handleReady a i fds) := by
  induction fds generalizing i s with
  | nil => exact neverThrows_ok s
  | cons x fds ih =>
    unfold handleReady
    split
    · exact ih (i + 1) s
    · split
      · exact neverThrows_halt _
      · exact ih (i + 1) _

/-- What is thrown for a client leaves the table and the poll list as they were. -/
theorem handleNewClient_raised {b : Accepting} {e : GenericException} {left : Process}
    (h : s.handleNewClient b = .error (.raised e left)) :
    left.toP2PurrServer = s.toP2PurrServer := by
  unfold handleNewClient at h
  split at h
  · rw [← (Stop.raised.inj (Except.error.inj h)).2]
  · dsimp only at h
    split at h
    · rw [← (Stop.raised.inj (Except.error.inj h)).2]
    · cases hpeer : PeerConnHandler.create b.host b.port b.sock b.setup with
      | error stop =>
        cases stop with
        | halt k => simp [hpeer] at h
        | raised e' helper =>
          simp only [hpeer] at h
          rw [← (Stop.raised.inj (Except.error.inj h)).2, destroy_toP2PurrServer]
      | ok peer =>
        simp only [hpeer] at h
        split at h <;> cases h

/-- No peer makes a pass throw: only the client at the door does. -/
theorem pollPass_raised_iff {e : GenericException} {left : Process} (hsane : Sane s)
    (hlisted : Listed s) (hkernel : (a.accept 0).sock = -1 ∨ s.Free (a.accept 0).sock) :
    s.pollPass a order = .error (.raised e left) ↔
      AtTheDoor s a ∧ s.handleNewClient (a.accept 0) = .error (.raised e left) := by
  rw [pollPass_of_serveReady hsane hlisted hkernel, plainPass, serveReady]
  by_cases hdoor : AtTheDoor s a
  · rw [if_pos hdoor]
    cases hcall : s.handleNewClient (a.accept 0) with
    | error stop => simp [hdoor]
    | ok p =>
      have hthrows := handleReady_neverThrows a 1 p.1.pollfdList.tail p.1
      simpa [hdoor] using hthrows.bind (fun s' _ => neverThrows_ok
        (s'.removeDisconnectedPeers (order s'.sockToPeerMap))) e left
  · rw [if_neg hdoor]
    have hthrows := handleReady_neverThrows a 0 s.pollfdList s
    simpa [hdoor] using hthrows.bind (fun s' _ => neverThrows_ok
      (s'.removeDisconnectedPeers (order s'.sockToPeerMap))) e left

theorem startAsyncPoll_failed {c : PollCall} (hrun : s.isLocalServerRunning = true)
    (ha : c.answers = none) (calls : List PollCall) :
    startAsyncPoll (c :: calls) s = .error (.raised pollError s) := by
  simp [startAsyncPoll, hrun, ha]

theorem startAsyncPoll_turn {c : PollCall} (hrun : s.isLocalServerRunning = true)
    (ha : c.answers = some a) (calls : List PollCall) :
    startAsyncPoll (c :: calls) s = s.pollPass a c.order >>= startAsyncPoll calls := by
  simp only [startAsyncPoll, hrun, ha, Bool.not_true, Bool.false_eq_true, ↓reduceIte]

def KernelGivesFree (calls : List PollCall) (s : Process) : Prop :=
  ∀ pre c post s₁ a, calls = pre ++ c :: post → startAsyncPoll pre s = .ok s₁ →
    c.answers = some a → (a.accept 0).sock = -1 ∨ s₁.Free (a.accept 0).sock

theorem KernelGivesFree.tail {c : PollCall} {calls : List PollCall}
    (h : KernelGivesFree (c :: calls) s) (hrun : s.isLocalServerRunning = true)
    (ha : c.answers = some a) (hpass : s.pollPass a c.order = .ok s') :
    KernelGivesFree calls s' := by
  intro pre c' post s₁ b hcalls hpre hb
  apply h (c :: pre) c' post s₁ b (by rw [hcalls, List.cons_append]) _ hb
  rw [startAsyncPoll_turn hrun ha, hpass]
  exact hpre

def Throws (c : PollCall) (s : Process) (e : GenericException) (left : Process) : Prop :=
  c.answers = none ∧ e = pollError ∧ left = s ∨
    ∃ a, c.answers = some a ∧ AtTheDoor s a ∧
      s.handleNewClient (a.accept 0) = .error (.raised e left)

theorem throws_cons_iff {c : PollCall} {calls : List PollCall} {e : GenericException}
    {left : Process} (hrun : s.isLocalServerRunning = true) :
    (∃ pre c' post s₁, c :: calls = pre ++ c' :: post ∧ startAsyncPoll pre s = .ok s₁ ∧
        Throws c' s₁ e left) ↔
      Throws c s e left ∨ ∃ a s', c.answers = some a ∧ s.pollPass a c.order = .ok s' ∧
        ∃ pre c' post s₁, calls = pre ++ c' :: post ∧ startAsyncPoll pre s' = .ok s₁ ∧
          Throws c' s₁ e left := by
  constructor
  · intro ⟨pre, c', post, s₁, hcalls, hpre, hthrows⟩
    cases pre with
    | nil =>
      rw [List.nil_append, List.cons.injEq] at hcalls
      rw [hcalls.1, Except.ok.inj hpre]
      exact Or.inl hthrows
    | cons c₁ pre =>
      rw [List.cons_append, List.cons.injEq] at hcalls
      rw [← hcalls.1] at hpre
      cases ha : c.answers with
      | none => simp [startAsyncPoll_failed hrun ha] at hpre
      | some a =>
        rw [startAsyncPoll_turn hrun ha] at hpre
        obtain ⟨s', hpass, hpre⟩ := bind_eq_ok.mp hpre
        exact Or.inr ⟨a, s', rfl, hpass, pre, c', post, s₁, hcalls.2, hpre, hthrows⟩
  · intro h
    cases h with
    | inl hthrows => exact ⟨[], c, calls, s, rfl, rfl, hthrows⟩
    | inr h =>
      obtain ⟨a, s', ha, hpass, pre, c', post, s₁, hcalls, hpre, hthrows⟩ := h
      refine ⟨c :: pre, c', post, s₁, by rw [hcalls, List.cons_append], ?_, hthrows⟩
      rw [startAsyncPoll_turn hrun ha, hpass]
      exact hpre

theorem startAsyncPoll_throws_iff {calls : List PollCall} {e : GenericException} {left : Process}
    (hsane : Sane s) (hlisted : Listed s) (horder : ∀ c ∈ calls, ∀ l, (c.order l).Perm l)
    (hkernel : KernelGivesFree calls s) :
    startAsyncPoll calls s = .error (.raised e left) ↔
      ∃ pre c post s₁, calls = pre ++ c :: post ∧ startAsyncPoll pre s = .ok s₁ ∧
        Throws c s₁ e left := by
  induction calls generalizing s with
  | nil => simp [startAsyncPoll]
  | cons c calls ih =>
    have hrun := hsane.running
    rw [throws_cons_iff hrun]
    cases ha : c.answers with
    | none =>
      rw [startAsyncPoll_failed hrun ha]
      simp only [Throws, ha, Except.error.injEq, Stop.raised.injEq, reduceCtorEq, false_and,
        exists_false, or_false, true_and]
      exact ⟨fun h => ⟨h.1.symm, h.2.symm⟩, fun h => ⟨h.1.symm, h.2.symm⟩⟩
    | some a =>
      rw [startAsyncPoll_turn hrun ha]
      have hfree := hkernel [] c calls s a rfl rfl ha
      have hraised := @pollPass_raised_iff s a c.order e left hsane hlisted hfree
      cases hpass : s.pollPass a c.order with
      | error stop =>
        rw [hpass] at hraised
        simp [Throws, ha, hraised, hpass]
      | ok s' =>
        have hseen := (seen_nowhere hsane hlisted).pass hfree (horder c (by simp)) hpass
        have hrest := ih hseen.sane hseen.listed
          (fun c' hc' => horder c' (List.mem_cons_of_mem c hc')) (hkernel.tail hrun ha hpass)
        rw [hpass] at hraised
        simp [Throws, ha, ← hraised, hpass, hrest]

/-- An exception ends the thread exactly where `poll` fails or the client at the door is not
accepted, and it leaves the connections as they were; what a peer sends, or that it hangs up, never
ends it. -/
theorem startAsyncPoll_raises_iff {calls : List PollCall} {e : GenericException} {left : Process}
    (h : Serving s) (horder : ∀ c ∈ calls, ∀ l, (c.order l).Perm l)
    (hkernel : KernelGivesFree calls s) :
    startAsyncPoll calls s = .error (.raised e left) ↔
      ∃ pre c post s₁, calls = pre ++ c :: post ∧ startAsyncPoll pre s = .ok s₁ ∧
        Throws c s₁ e left ∧ left.toP2PurrServer = s₁.toP2PurrServer := by
  rw [startAsyncPoll_throws_iff h.invariant.1 h.listed horder hkernel]
  constructor
  · intro ⟨pre, c, post, s₁, hcalls, hpre, hthrows⟩
    refine ⟨pre, c, post, s₁, hcalls, hpre, hthrows, ?_⟩
    cases hthrows with
    | inl hfailed => rw [hfailed.2.2]
    | inr hclient =>
      obtain ⟨a, -, -, hraised⟩ := hclient
      exact handleNewClient_raised hraised
  · intro ⟨pre, c, post, s₁, hcalls, hpre, hthrows, _⟩
    exact ⟨pre, c, post, s₁, hcalls, hpre, hthrows⟩

/-- A client is accepted, and then `poll` fails. -/
theorem startAsyncPoll_raises_failed :
    ∃ s left, startAsyncPoll [{ answers := some (oneFails 4) }] listener = .ok s ∧
      Throws { answers := none } s pollError left ∧ left.toP2PurrServer = s.toP2PurrServer := by
  have hone : ∃ s, startAsyncPoll [{ answers := some (oneFails 4) }] listener = .ok s := ⟨_, rfl⟩
  have htwo : ∃ left, startAsyncPoll [{ answers := some (oneFails 4) }, { answers := none }]
      listener = .error (.raised pollError left) := ⟨_, rfl⟩
  obtain ⟨left, hleft⟩ := htwo
  have hkernel : KernelGivesFree [{ answers := some (oneFails 4) }, { answers := none }]
      listener := by
    intro pre c post s₁ a hcalls hpre ha
    cases pre with
    | nil =>
      simp only [List.nil_append, List.cons.injEq] at hcalls
      rw [← hcalls.1] at ha
      rw [← Except.ok.inj hpre, ← Option.some.inj ha]
      exact Or.inr ⟨by decide, by decide⟩
    | cons c₁ pre =>
      cases pre with
      | nil =>
        simp only [List.cons_append, List.nil_append, List.cons.injEq] at hcalls
        rw [← hcalls.2.1] at ha
        cases ha
      | cons c₂ pre => simp at hcalls
  obtain ⟨pre, c, post, s₁, hcalls, hpre, hthrows, hkept⟩ :=
    (startAsyncPoll_raises_iff (Serving.started listener_started) (by simp) hkernel).mp hleft
  cases pre with
  | nil =>
    simp only [List.nil_append, List.cons.injEq] at hcalls
    rw [← Except.ok.inj hpre, ← hcalls.1] at hthrows
    cases hthrows with
    | inl hfailed => cases hfailed.1
    | inr hclient =>
      obtain ⟨a, ha, -, hraised⟩ := hclient
      rw [← Option.some.inj ha] at hraised
      cases hraised
  | cons c₁ pre =>
    cases pre with
    | nil =>
      simp only [List.cons_append, List.nil_append, List.cons.injEq] at hcalls
      rw [← hcalls.1] at hpre
      rw [← hcalls.2.1] at hthrows
      exact ⟨s₁, left, hpre, hthrows, hkept⟩
    | cons c₂ pre => simp at hcalls

end Process

end P2Purr
