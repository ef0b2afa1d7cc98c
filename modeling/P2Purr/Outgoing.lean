import P2Purr.ServerRuns

namespace P2Purr
open Memory

namespace PeerConnHandler

variable {peer : PeerConnHandler} {c : Connecting}

theorem connect_ne_halt (k : Halt) : peer.connect c ≠ .error (.halt k) := by
  unfold connect SocketHelper.connectToHost
  cases c with
  | mk blocking connected nonblocking =>
    by_cases hsock : peer.sockHelper.sock ≤ -1
    · simp [hsock]
    · cases blocking <;> cases connected <;> cases nonblocking <;> simp [hsock]

end PeerConnHandler

namespace Process

variable {s s' : Process} {host : String} {port : UInt16} {a : Dialling} {k : CloseResult} {fd : ℤ}

def Fails (s : Process) (host : String) (port : UInt16) (a : Dialling) : Prop :=
  ∀ s' made, s.connectToPeer host port a ≠ .ok (s', some made)

/-- The table, the poll list, and the descriptors that are open. -/
structure Unchanged (s s' : Process) : Prop where
  table : s'.sockToPeerMap = s.sockToPeerMap
  polled : s'.pollfdList = s.pollfdList
  openFds : s'.openFds = s.openFds

theorem destroy_fresh (hfree : s.Free fd) :
    Unchanged s ({ s with openFds := fd :: s.openFds }.destroy (.fresh host port fd) k) ↔
      k.close = true := by
  cases hclose : k.close with
  | true =>
    simp only [iff_true]
    refine ⟨by simp, by simp, ?_⟩
    have hkept : s.openFds.filter (fun x => x != fd) = s.openFds := by
      apply List.filter_eq_self.mpr
      intro x hx
      have hne : x ≠ fd := by
        intro heq
        exact hfree.2 (heq ▸ hx)
      simpa using hne
    simp [destroy, released, SocketHelper.closeSock, SocketHelper.fresh, hclose, hkept]
  | false =>
    simp only [Bool.false_eq_true, iff_false]
    intro h
    have hopen := h.openFds
    simp [destroy, released, SocketHelper.closeSock, SocketHelper.fresh, hclose] at hopen

/-- Once its socket is made, an attempt that fails ends in one way: caught, and the socket
destroyed. -/
theorem connectToPeer_of_fails (hfails : s.Fails host port a)
    (hroom : s.sockToPeerMap.length < s.maxOutboundConnections) (hsock : a.setup.sock ≠ -1)
    (haddr : a.setup.addrinfo = true) :
    s.connectToPeer host port a = .ok ({ s with openFds := a.setup.sock :: s.openFds }.destroy
      (.fresh host port a.setup.sock) a.destroy, none) := by
  have hcreate := @PeerConnHandler.create_spec host port (-1) a.setup _ (if_pos rfl) hsock haddr
  unfold Fails connectToPeer at hfails
  unfold connectToPeer
  rw [if_neg (by omega)] at hfails ⊢
  dsimp only at hfails ⊢
  split at hcreate
  · obtain ⟨peer, hpeer, hhelper⟩ := hcreate
    simp only [hpeer] at hfails ⊢
    cases hconn : peer.connect a.connecting with
    | ok connected =>
      simp only [hconn] at hfails
      exact absurd rfl (hfails _ _)
    | error stop =>
      cases stop with
      | halt k => exact absurd hconn (PeerConnHandler.connect_ne_halt k)
      | raised e helper =>
        simp only
        rw [PeerConnHandler.connect_raised hconn, hhelper]
  · obtain ⟨e, hraised⟩ := hcreate
    simp only [hraised]

/-- A failed attempt changes nothing exactly when it is refused for lack of room, or its socket is
made, the address found, and `close` succeeds. -/
theorem connectToPeer_unchanged_iff (hkernel : a.setup.sock = -1 ∨ s.Free a.setup.sock)
    (hfails : s.Fails host port a) :
    (∃ s', s.connectToPeer host port a = .ok (s', none) ∧ Unchanged s s') ↔
      s.maxOutboundConnections ≤ s.sockToPeerMap.length ∨
        a.setup.sock ≠ -1 ∧ a.setup.addrinfo = true ∧ a.destroy.close = true := by
  by_cases hroom : s.maxOutboundConnections ≤ s.sockToPeerMap.length
  · refine iff_of_true ⟨s, ?_, ⟨rfl, rfl, rfl⟩⟩ (Or.inl hroom)
    rw [connectToPeer, if_pos hroom]
  · by_cases hexit : a.setup.sock = -1 ∨ a.setup.addrinfo = false
    · -- the process ends
      have hcall : s.connectToPeer host port a = .error .exit := by
        have hcreate := @PeerConnHandler.create_exit host port (-1) a.setup _ (if_pos rfl) hexit
        simp only [connectToPeer, if_neg hroom, hcreate]
      refine iff_of_false ?_ ?_
      · intro h
        obtain ⟨s', hs', -⟩ := h
        rw [hcall] at hs'
        cases hs'
      · intro h
        have hmade := h.resolve_left hroom
        cases hexit with
        | inl hsock => exact hmade.1 hsock
        | inr haddr => simp [haddr] at hmade
    · obtain ⟨hsock, haddr⟩ := not_or.mp hexit
      have haddr : a.setup.addrinfo = true := by simpa using haddr
      have hfree := hkernel.resolve_left hsock
      have hclosed := @destroy_fresh s host port a.destroy _ hfree
      rw [connectToPeer_of_fails hfails (by omega) hsock haddr]
      simp [hroom, hsock, haddr, hclosed]

theorem fails_refused : (listener.joined 4).Fails "127.0.0.1" 9000
    { setup := { sock := 5 }, connecting := { connected := false } } := by
  have hcall : ∃ s', (listener.joined 4).connectToPeer "127.0.0.1" 9000
      { setup := { sock := 5 }, connecting := { connected := false } } = .ok (s', none) := ⟨_, rfl⟩
  obtain ⟨s', hs'⟩ := hcall
  intro s'' made h
  rw [hs'] at h
  cases h

theorem connectToPeer_unchanged_refused :
    ∃ s', (listener.joined 4).connectToPeer "127.0.0.1" 9000
        { setup := { sock := 5 }, connecting := { connected := false } } = .ok (s', none) ∧
      Unchanged (listener.joined 4) s' :=
  (connectToPeer_unchanged_iff (Or.inr ⟨by decide, by decide⟩) fails_refused).mpr
    (Or.inr ⟨by decide, rfl, rfl⟩)

/-- A host whose name is not resolved ends the process. -/
theorem not_connectToPeer_unchanged :
    (listener.joined 4).Fails "no.such.host" 9000 { setup := { sock := 5, addrinfo := false } } ∧
      ¬ ∃ s', (listener.joined 4).connectToPeer "no.such.host" 9000
        { setup := { sock := 5, addrinfo := false } } = .ok (s', none) ∧
          Unchanged (listener.joined 4) s' := by
  have hcall : (listener.joined 4).connectToPeer "no.such.host" 9000
      { setup := { sock := 5, addrinfo := false } } = .error .exit := rfl
  refine ⟨?_, ?_⟩
  · intro s' made h
    rw [hcall] at h
    cases h
  · intro h
    obtain ⟨s', hs', -⟩ := h
    rw [hcall] at hs'
    cases hs'

end Process

end P2Purr
