import P2Purr.ServerRuns

namespace P2Purr
open Memory

namespace Process

variable {s : Process}

def closePeer (s : Process) (e : ℤ × PeerConnHandler) (k : CloseResult) : Process :=
  let peer := (e.2.close k).2
  { s with sockToPeerMap := replacePeer e.1 peer s.sockToPeerMap }.released e.2.sockHelper
    peer.sockHelper

/-- `clear` destroys the handlers, so that a socket that could not be closed is closed once more.
Answers are given by the descriptor, so that the order of the entries is of no account. -/
def closeAllConnections (s : Process) (close destroy : ℤ → CloseResult) : Process :=
  let s := s.sockToPeerMap.foldl (fun s e => s.closePeer e (close e.1)) s
  let s := s.sockToPeerMap.foldl (fun s e => s.destroy e.2.sockHelper (destroy e.1)) s
  { s with sockToPeerMap := [], pollfdList := [] }

/-- The poll thread was detached, so that there is none to join. -/
def stop (s : Process) (close destroy : ℤ → CloseResult) (k : CloseResult) : Bool × Process :=
  let s := { s with isLocalServerRunning := false }.closeAllConnections close destroy
  let (closed, helper) := s.serverSockHelper.closeSock k
  let s := { s with serverSockHelper := helper }.released s.serverSockHelper helper
  -- only the flag is set back
  if closed then (true, s) else (false, { s with isLocalServerRunning := true })

structure Stopped (s : Process) : Prop where
  running : s.isLocalServerRunning = false
  listening : s.serverSockHelper.isSockOpen = false
  table : s.sockToPeerMap = []
  polled : s.pollfdList = []

structure Untouched (s s' : Process) : Prop where
  running : s'.isLocalServerRunning = s.isLocalServerRunning
  table : s'.sockToPeerMap = s.sockToPeerMap
  polled : s'.pollfdList = s.pollfdList
  listening : s'.serverSockHelper.sock ∈ s'.pollfdList
  sockets : ∀ e ∈ s.sockToPeerMap,
    e.2.sockHelper.sock ∈ s'.openFds ↔ e.2.sockHelper.sock ∈ s.openFds

def AllOrNothing (s : Process) : Bool × Process → Prop
  | (true, s') => Stopped s'
  | (false, s') => Untouched s s'

theorem closePeers_server (close : ℤ → CloseResult) (l : List (ℤ × PeerConnHandler))
    (s : Process) :
    ∃ table, (l.foldl (fun s e => s.closePeer e (close e.1)) s).toP2PurrServer =
      { s.toP2PurrServer with sockToPeerMap := table } := by
  induction l generalizing s with
  | nil => exact ⟨s.sockToPeerMap, rfl⟩
  | cons e l ih =>
    obtain ⟨table, htable⟩ := ih (s.closePeer e (close e.1))
    refine ⟨table, ?_⟩
    simpa [closePeer] using htable

theorem destroyPeers_server (destroy : ℤ → CloseResult) (l : List (ℤ × PeerConnHandler))
    (s : Process) :
    (l.foldl (fun s e => s.destroy e.2.sockHelper (destroy e.1)) s).toP2PurrServer =
      s.toP2PurrServer := by
  induction l generalizing s with
  | nil => rfl
  | cons e l ih => exact (ih _).trans (destroy_toP2PurrServer s e.2.sockHelper (destroy e.1))

theorem closeAllConnections_server (s : Process) (close destroy : ℤ → CloseResult) :
    (s.closeAllConnections close destroy).toP2PurrServer =
      { s.toP2PurrServer with sockToPeerMap := [], pollfdList := [] } := by
  obtain ⟨table, htable⟩ := closePeers_server close s.sockToPeerMap s
  unfold closeAllConnections
  dsimp only
  rw [destroyPeers_server, htable]

/-- Whatever becomes of the listening socket, the table and the poll list are gone. -/
theorem stop_spec (s : Process) (close destroy : ℤ → CloseResult) (k : CloseResult) :
    (s.stop close destroy k).1 = (s.serverSockHelper.closeSock k).1 ∧
      (s.stop close destroy k).2.toP2PurrServer =
        { s.toP2PurrServer with
          serverSockHelper := (s.serverSockHelper.closeSock k).2
          isLocalServerRunning := !(s.serverSockHelper.closeSock k).1
          sockToPeerMap := []
          pollfdList := [] } := by
  have hserver := closeAllConnections_server { s with isLocalServerRunning := false } close destroy
  have hsock := congrArg P2PurrServer.serverSockHelper hserver
  unfold stop
  dsimp only at hsock ⊢
  rw [hsock]
  cases hclosed : s.serverSockHelper.closeSock k with
  | mk closed helper =>
    cases closed with
    | true => simp [hserver]
    | false => simp [hserver]

/-- `stop` is all or nothing exactly when it succeeds: the listening socket is closed already, or
both kernel calls on it come off. -/
theorem stop_allOrNothing_iff (s : Process) (close destroy : ℤ → CloseResult) (k : CloseResult) :
    AllOrNothing s (s.stop close destroy k) ↔
      s.serverSockHelper.isSockOpen = false ∨
        (s.serverSockHelper.isSockInit = false ∨ k.shutdown = true) ∧ k.close = true := by
  obtain ⟨hfst, hserver⟩ := stop_spec s close destroy k
  have hresult := @SocketHelper.closeSock_result s.serverSockHelper k
  have hclosed : (s.serverSockHelper.closeSock k).1 = true ↔
      s.serverSockHelper.isSockOpen = false ∨
        (s.serverSockHelper.isSockInit = false ∨ k.shutdown = true) ∧ k.close = true := by
    cases hopen : s.serverSockHelper.isSockOpen with
    | false => simp [SocketHelper.closeSock, hopen]
    | true => rw [hresult, SocketHelper.closeSock_iff hopen]; simp
  rw [← hclosed]
  generalize s.stop close destroy k = result at hfst hserver
  obtain ⟨stopped, s'⟩ := result
  cases stopped with
  | true =>
    refine iff_of_true ?_ hfst.symm
    exact ⟨by rw [hserver, ← hfst]; rfl, by rw [hserver]; exact hresult.mp hfst.symm,
      by rw [hserver], by rw [hserver]⟩
  | false =>
    -- the poll list has lost the listening descriptor
    refine iff_of_false ?_ (by rw [← hfst]; exact Bool.false_ne_true)
    intro huntouched
    have hpoll := huntouched.listening
    rw [hserver] at hpoll
    exact List.not_mem_nil hpoll

/-- `close` fails on the listening socket: the server goes on without its peer, polling nothing. -/
theorem not_stop_allOrNothing :
    ((listener.joined 4).stop (fun _ => {}) (fun _ => {}) { close := false }).1 = false ∧
      ¬ AllOrNothing (listener.joined 4)
        ((listener.joined 4).stop (fun _ => {}) (fun _ => {}) { close := false }) := by
  refine ⟨rfl, ?_⟩
  intro huntouched
  exact absurd huntouched.polled (by decide)

def Avoids (x : ℤ) (e : ℤ × PeerConnHandler) : Prop :=
  e.2.connActive = true → e.2.sockHelper.sock ≠ x

variable {x : ℤ} {e : ℤ × PeerConnHandler} {k : CloseResult} {close destroy : ℤ → CloseResult}
  {l : List (ℤ × PeerConnHandler)} {s' : Process}

theorem closePeer_keeps (he : Avoids x e) (hs : ∀ e' ∈ s.sockToPeerMap, Avoids x e')
    (hx : x ∈ s.openFds) :
    x ∈ (s.closePeer e k).openFds ∧ ∀ e' ∈ (s.closePeer e k).sockToPeerMap, Avoids x e' := by
  constructor
  · apply (mem_released (by exact hx)).resolve_right
    intro hclosed
    exact he hclosed.2.1 hclosed.1.symm
  · intro e' he' hactive
    simp only [closePeer, released_toP2PurrServer] at he'
    cases mem_replacePeer he' with
    | inl hsame =>
      rw [hsame.2] at hactive ⊢
      -- a socket that is still open is the same one
      have hsock := SocketHelper.closeSock_sock hactive
      have hne := he hsock.2
      rwa [← hsock.1] at hne
    | inr hother => exact hs e' hother.2 hactive

theorem closePeers_keeps (hl : ∀ e ∈ l, Avoids x e) (hs : ∀ e ∈ s.sockToPeerMap, Avoids x e)
    (hx : x ∈ s.openFds) :
    x ∈ (l.foldl (fun s e => s.closePeer e (close e.1)) s).openFds ∧
      ∀ e ∈ (l.foldl (fun s e => s.closePeer e (close e.1)) s).sockToPeerMap, Avoids x e := by
  induction l generalizing s with
  | nil => exact ⟨hx, hs⟩
  | cons e l ih =>
    have hnext := @closePeer_keeps s x e (close e.1) (hl e List.mem_cons_self) hs hx
    exact ih (fun e' he' => hl e' (List.mem_cons_of_mem e he')) hnext.2 hnext.1

theorem destroyPeers_keeps (hl : ∀ e ∈ l, Avoids x e) (hx : x ∈ s.openFds) :
    x ∈ (l.foldl (fun s e => s.destroy e.2.sockHelper (destroy e.1)) s).openFds := by
  induction l generalizing s with
  | nil => exact hx
  | cons e l ih =>
    apply ih fun e' he' => hl e' (List.mem_cons_of_mem e he')
    apply (mem_released hx).resolve_right
    intro hclosed
    exact hl e List.mem_cons_self hclosed.2.1 hclosed.1.symm

theorem closeAllConnections_keeps (hs : ∀ e ∈ s.sockToPeerMap, Avoids x e) (hx : x ∈ s.openFds) :
    x ∈ (s.closeAllConnections close destroy).openFds := by
  obtain ⟨hopen, havoids⟩ := @closePeers_keeps s x close _ hs hs hx
  exact destroyPeers_keeps havoids hopen

theorem stop_openFds (h : (s.serverSockHelper.closeSock k).2.isSockOpen = true) :
    (s.stop close destroy k).2.openFds =
      ({ s with isLocalServerRunning := false }.closeAllConnections close destroy).openFds := by
  have hserver := closeAllConnections_server { s with isLocalServerRunning := false } close destroy
  have hsock := congrArg P2PurrServer.serverSockHelper hserver
  unfold stop
  dsimp only at hsock ⊢
  rw [hsock]
  generalize s.serverSockHelper.closeSock k = result at h
  obtain ⟨closed, helper⟩ := result
  have hhelper : helper.isSockOpen = true := h
  cases closed <;> simp [released, hhelper]

/-- A server whose `stop` failed says that it is running, and has nothing to serve. -/
theorem stop_failed (h : Sane s) (hstop : s.stop close destroy k = (false, s')) :
    Sane s' ∧ s'.sockToPeerMap = [] ∧ s'.pollfdList = [] := by
  obtain ⟨hfst, hserver⟩ := stop_spec s close destroy k
  rw [hstop] at hfst hserver
  have hopen : (s.serverSockHelper.closeSock k).2.isSockOpen = true := by
    rw [← Bool.not_eq_false, ← SocketHelper.closeSock_result, ← hfst]
    exact Bool.false_ne_true
  have hsock := SocketHelper.closeSock_sock hopen
  have htable : s'.sockToPeerMap = [] := by rw [hserver]
  have hkeys : s'.keys = [] := congrArg (List.map Prod.fst) htable
  have hlistening : s'.serverSockHelper.sock = s.serverSockHelper.sock := by
    rw [hserver]
    exact hsock.1
  have havoids : ∀ e ∈ s.sockToPeerMap, Avoids s.serverSockHelper.sock e := by
    intro e he hactive
    rw [(h.active e.1 e.2 he hactive).1.sock]
    exact (h.key e.1 (mem_keys he)).2.1
  refine ⟨⟨?_, ?_, ?_, ?_, ?_, ?_⟩, htable, by rw [hserver]⟩
  · rw [hserver, ← hfst]
    rfl
  · rw [hlistening]
    exact h.nonneg
  · rw [hlistening, ← show (s.stop close destroy k).2 = s' by rw [hstop], stop_openFds hopen]
    exact @closeAllConnections_keeps { s with isLocalServerRunning := false } _ close destroy
      havoids h.listening
  · simp [hkeys]
  · simp [hkeys]
  · simp [htable]

end Process

end P2Purr
