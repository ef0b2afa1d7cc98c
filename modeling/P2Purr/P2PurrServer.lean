import P2Purr.PeerConnHandler

namespace P2Purr
open Memory

/-- Answers while a socket is made: the descriptor `socket` gives, and whether the address is
found, the options are set, and the socket is made non-blocking. -/
structure Setup where
  sock : ℤ := -1
  addrinfo : Bool := true
  options : Bool := true
  nonblocking : Bool := true
  deriving DecidableEq, Repr

structure Connecting where
  blocking : Bool := true
  connected : Bool := true
  nonblocking : Bool := true
  deriving DecidableEq, Repr

/-- Answers while a client is accepted; `close` and `destroy` are for the two times that its
socket may be closed. -/
structure Accepting where
  sock : ℤ
  host : String := "127.0.0.1"
  port : UInt16 := 0
  address : Bool := true
  setup : Setup := {}
  close : CloseResult := {}
  destroy : CloseResult := {}
  deriving DecidableEq, Repr

structure Dialling where
  setup : Setup
  connecting : Connecting := {}
  destroy : CloseResult := {}
  deriving DecidableEq, Repr

namespace SocketHelper

/-- `SocketHelper(host, port, sock)`; it does not come back from a failure. -/
def create (host : String) (port : UInt16) (sock : ℤ) (a : Setup) : Except Halt SocketHelper :=
  let sock := if sock = -1 then a.sock else sock
  if sock = -1 then .error .exit
  else if !a.addrinfo then .error .exit
  else .ok { sock := sock, host := host, port := port, isSockOpen := true }

def initServer (s : SocketHelper) (bound listening : Bool) : Except Halt SocketHelper :=
  if !bound then .error .exit
  else if !listening then .error .exit
  else .ok { s with isSockInit := true }

def connectToHost (s : SocketHelper) (a : Connecting) : Except (Stop SocketHelper) SocketHelper :=
  if s.sock ≤ -1 then
    .error (.raised
      { cls := .socket, message := "Cannot connect to host, no valid socket" } s)
  else if !a.blocking then .error (.raised { cls := .fctrl } s)
  else if !a.connected then .error (.raised { cls := .connect } s)
  else if !a.nonblocking then .error (.raised { cls := .fctrl } s)
  else .ok { s with isSockInit := true }

end SocketHelper

namespace PeerConnHandler

def create (host : String) (port : UInt16) (sock : ℤ) (a : Setup) :
    Except (Stop SocketHelper) PeerConnHandler :=
  match SocketHelper.create host port sock a with
  | .error h => .error (.halt h)
  | .ok helper =>
    if !a.options then .error (.raised { cls := .socketOptions } helper)
    else if !a.nonblocking then .error (.raised { cls := .fctrl } helper)
    else access (ofSocket host port sock helper)

def connect (h : PeerConnHandler) (a : Connecting) :
    Except (Stop SocketHelper) PeerConnHandler := do
  let helper ← h.sockHelper.connectToHost a
  pure { h with sockHelper := helper, clientConn := true }

end PeerConnHandler

/-- The table is a list of entries with different keys. -/
structure P2PurrServer where
  serverSockHelper : SocketHelper
  isLocalServerRunning : Bool := false
  maxInboundConnections : ℕ := 1000
  maxOutboundConnections : ℕ := 1000
  sockToPeerMap : List (ℤ × PeerConnHandler) := []
  pollfdList : List ℤ := []

structure Process extends P2PurrServer where
  openFds : List ℤ
  outFile : OutFile := {}

namespace Process

def addFdToWatchList (s : Process) (fd : ℤ) : Process :=
  { s with pollfdList := s.pollfdList ++ [fd] }

def create (host : String) (port : UInt16) (a : Setup) (openFds : List ℤ) :
    Except (Stop SocketHelper) Process :=
  match SocketHelper.create host port (-1) a with
  | .error h => .error (.halt h)
  | .ok helper =>
    if !a.nonblocking then .error (.raised { cls := .fctrl } helper)
    else if !a.options then .error (.raised { cls := .socketOptions } helper)
    else
      let s : Process := { serverSockHelper := helper, openFds := a.sock :: openFds }
      .ok (s.addFdToWatchList helper.sock)

/-- The poll thread is not part of it. -/
def start (s : Process) (bound listening : Bool) : Except Halt Process := do
  let helper ← s.serverSockHelper.initServer bound listening
  pure { s with serverSockHelper := helper, isLocalServerRunning := true }

/-- A call may have closed the socket of a handler. -/
def released (s : Process) (before after : SocketHelper) : Process :=
  if before.isSockOpen && !after.isSockOpen then
    { s with openFds := s.openFds.filter fun fd => fd != before.sock }
  else s

def destroy (s : Process) (helper : SocketHelper) (k : CloseResult) : Process :=
  s.released helper (helper.closeSock k).2

/-- Enters the new peer into the table, unless its descriptor is there already; then the new
peer is destroyed as the operation returns. -/
def enter (s : Process) (fd : ℤ) (peer : PeerConnHandler) (k : CloseResult) : Process :=
  let s := s.addFdToWatchList fd
  match s.sockToPeerMap.lookup fd with
  -- `insert` leaves an entry that is there as it is
  | none => { s with sockToPeerMap := (fd, peer) :: s.sockToPeerMap }
  | some _ => s.destroy peer.sockHelper k

/-- With the process comes the client that was accepted. -/
def handleNewClient (s : Process) (a : Accepting) :
    Except (Stop Process) (Process × Option (ℤ × PeerConnHandler)) :=
  if a.sock = -1 then .error (.raised { cls := .accept } s)
  else
    let s := { s with openFds := a.sock :: s.openFds }
    if !a.address then
      -- no handler owns the descriptor yet, so that it stays open
      .error (.raised { cls := .generic, message := "'inet_ntop()' was not succesful\n" } s)
    else
      match PeerConnHandler.create a.host a.port a.sock a.setup with
      | .error (.halt h) => .error (.halt h)
      | .error (.raised e helper) => .error (.raised e (s.destroy helper a.destroy))
      | .ok peer =>
        if s.maxInboundConnections < s.sockToPeerMap.length then
          -- closed by hand, and once more by the destructor if that failed
          let closed := (peer.close a.close).2
          .ok ((s.destroy peer.sockHelper a.close).destroy closed.sockHelper a.destroy, none)
        else .ok (s.enter a.sock peer a.destroy, some (a.sock, peer))

def connectToPeer (s : Process) (host : String) (port : UInt16) (a : Dialling) :
    Except Halt (Process × Option (ℤ × PeerConnHandler)) :=
  if s.maxOutboundConnections ≤ s.sockToPeerMap.length then .ok (s, none)
  else
    let s := { s with openFds := a.setup.sock :: s.openFds }
    match PeerConnHandler.create host port (-1) a.setup with
    | .error (.halt h) => .error h
    -- caught here, unlike in `handle_new_client`
    | .error (.raised _ helper) => .ok (s.destroy helper a.destroy, none)
    | .ok peer =>
      match peer.connect a.connecting with
      | .error (.halt h) => .error h
      | .error (.raised _ helper) => .ok (s.destroy helper a.destroy, none)
      | .ok peer =>
        let fd := peer.sockHelper.sock
        .ok (s.enter fd peer a.destroy, some (fd, peer))

def replacePeer (fd : ℤ) (peer : PeerConnHandler) :
    List (ℤ × PeerConnHandler) → List (ℤ × PeerConnHandler) :=
  List.map fun e => if e.1 = fd then (fd, peer) else e

/-- With the process comes what is passed to `on_packet_received`. -/
def handleClientCommunications (s : Process) (fd : ℤ) (r : RecvResult) :
    Except Halt (Process × Option (String × UInt16 × PacketRef)) :=
  match s.sockToPeerMap.lookup fd with
  | none => .ok (s, none)
  | some peer => do
    let (s', call) ← RecvState.recvPkt { toPeerConnHandler := peer, outFile := s.outFile } r
    let peer' := s'.toPeerConnHandler
    let s := { s with
      outFile := s'.outFile, sockToPeerMap := replacePeer fd peer' s.sockToPeerMap }
    pure (s.released peer.sockHelper peer'.sockHelper,
      call.returned.map fun pkt => (peer.host, peer.port, pkt))

/-- The first loop of `remove_disconnected_peers`: the descriptors to remove, and the entries
that stay. -/
def sweep : List (ℤ × PeerConnHandler) → List ℤ × List (ℤ × PeerConnHandler)
  | [] => ([], [])
  | e :: rest =>
    if !e.2.connActive then (e.1 :: (sweep rest).1, (sweep rest).2)
    else ((sweep rest).1, e :: (sweep rest).2)

/-- `while (poll_it != end())`, with what the iterator has passed, and what is ahead of it. -/
def scan (fd : ℤ) : List ℤ → List ℤ → List ℤ × List ℤ
  | passed, [] => (passed, [])
  | passed, x :: ahead =>
    -- `erase` moves the iterator on by itself
    if x = fd ∨ x = -1 then scan fd passed ahead else scan fd (passed ++ [x]) ahead

/-- The second loop: the iterator is not set back for the next descriptor. -/
def scanAll : List ℤ → List ℤ → List ℤ → List ℤ
  | [], passed, ahead => passed ++ ahead
  | fd :: fds, passed, ahead => scanAll fds (scan fd passed ahead).1 (scan fd passed ahead).2

/-- `order` is the table in the order of its iterator. -/
def removeDisconnectedPeers (s : Process) (order : List (ℤ × PeerConnHandler)) : Process :=
  if !s.isLocalServerRunning then s
  else
    { s with
      sockToPeerMap := (sweep order).2
      pollfdList := scanAll (sweep order).1 [] s.pollfdList }

theorem sweep_eq (order : List (ℤ × PeerConnHandler)) :
    sweep order = ((order.filter fun e => !e.2.connActive).map Prod.fst,
      order.filter fun e => e.2.connActive) := by
  induction order with
  | nil => rfl
  | cons e rest ih =>
    unfold sweep
    rw [ih]
    cases hactive : e.2.connActive <;> simp [hactive]

theorem scan_eq (fd : ℤ) (passed ahead : List ℤ) :
    scan fd passed ahead = (passed ++ ahead.filter fun x => decide (x ≠ fd ∧ x ≠ -1), []) := by
  induction ahead generalizing passed with
  | nil => simp [scan]
  | cons x ahead ih =>
    unfold scan
    by_cases hx : x = fd ∨ x = -1
    · have hdrop : ¬ (x ≠ fd ∧ x ≠ -1) := by
        simpa [or_iff_not_imp_left] using hx
      rw [if_pos hx, ih, List.filter_cons, if_neg (by simpa using hdrop)]
    · have hkeep : x ≠ fd ∧ x ≠ -1 := not_or.mp hx
      rw [if_neg hx, ih, List.filter_cons, if_pos (by simpa using hkeep), List.append_assoc,
        List.singleton_append]

theorem scanAll_ahead_nil (fds passed : List ℤ) : scanAll fds passed [] = passed := by
  induction fds generalizing passed with
  | nil => exact List.append_nil passed
  | cons fd fds ih => exact ih passed

/-- The iterator stays at the end of the list after the first descriptor, so only this one is
removed. -/
theorem scanAll_cons (fd : ℤ) (fds polled : List ℤ) :
    scanAll (fd :: fds) [] polled = polled.filter fun x => decide (x ≠ fd ∧ x ≠ -1) := by
  unfold scanAll
  rw [scan_eq, scanAll_ahead_nil]
  rfl

variable {s : Process} {fd : ℤ} {peer : PeerConnHandler}

theorem enter_of_none (h : s.sockToPeerMap.lookup fd = none) (k : CloseResult) :
    s.enter fd peer k =
      { s.addFdToWatchList fd with sockToPeerMap := (fd, peer) :: s.sockToPeerMap } := by
  simp [enter, addFdToWatchList, h]

theorem enter_of_some {old : PeerConnHandler} (h : s.sockToPeerMap.lookup fd = some old)
    (k : CloseResult) : s.enter fd peer k = (s.addFdToWatchList fd).destroy peer.sockHelper k := by
  simp [enter, addFdToWatchList, h]

@[simp] theorem released_toP2PurrServer (s : Process) (before after : SocketHelper) :
    (s.released before after).toP2PurrServer = s.toP2PurrServer := by
  unfold released
  split <;> rfl

@[simp] theorem destroy_toP2PurrServer (s : Process) (helper : SocketHelper) (k : CloseResult) :
    (s.destroy helper k).toP2PurrServer = s.toP2PurrServer :=
  released_toP2PurrServer s helper _

theorem mem_released {before after : SocketHelper} (h : fd ∈ s.openFds) :
    fd ∈ (s.released before after).openFds ∨
      fd = before.sock ∧ before.isSockOpen = true ∧ after.isSockOpen = false := by
  unfold released
  split
  · rename_i hclosed
    by_cases hfd : fd = before.sock
    · exact Or.inr ⟨hfd, by simpa using hclosed⟩
    · exact Or.inl (List.mem_filter.mpr ⟨h, by simpa using hfd⟩)
  · exact Or.inl h

theorem mem_destroy {helper : SocketHelper} {k : CloseResult} (h : fd ∈ s.openFds)
    (hne : fd ≠ helper.sock) : fd ∈ (s.destroy helper k).openFds :=
  (mem_released h).resolve_right fun hclosed => hne hclosed.1

section Operations

variable {s' : Process} {host : String} {port : UInt16} {made : Option (ℤ × PeerConnHandler)}

/-- A client gets a handler, and is closed for lack of room or entered. -/
theorem handleNewClient_ok {a : Accepting} (h : s.handleNewClient a = .ok (s', made)) :
    a.sock ≠ -1 ∧ a.address = true ∧
      ∃ peer, PeerConnHandler.create a.host a.port a.sock a.setup = .ok peer ∧
      (s.maxInboundConnections < s.sockToPeerMap.length ∧ made = none ∧
          s' = ({ s with openFds := a.sock :: s.openFds }.destroy peer.sockHelper
            a.close).destroy (peer.close a.close).2.sockHelper a.destroy ∨
        s.sockToPeerMap.length ≤ s.maxInboundConnections ∧ made = some (a.sock, peer) ∧
          s' = { s with openFds := a.sock :: s.openFds }.enter a.sock peer a.destroy) := by
  unfold handleNewClient at h
  by_cases hsock : a.sock = -1
  · simp [hsock] at h
  · refine ⟨hsock, ?_⟩
    rw [if_neg hsock] at h
    dsimp only at h
    split at h
    · cases h
    · rename_i haddress
      refine ⟨by simpa using haddress, ?_⟩
      cases hpeer : PeerConnHandler.create a.host a.port a.sock a.setup with
      | error stop => cases stop <;> simp [hpeer] at h
      | ok peer =>
        refine ⟨peer, rfl, ?_⟩
        simp only [hpeer] at h
        split at h
        · rename_i hfull
          obtain ⟨hs, hmade⟩ := Prod.mk.inj (Except.ok.inj h)
          exact Or.inl ⟨hfull, hmade.symm, hs.symm⟩
        · rename_i hroom
          obtain ⟨hs, hmade⟩ := Prod.mk.inj (Except.ok.inj h)
          exact Or.inr ⟨Nat.not_lt.mp hroom, hmade.symm, hs.symm⟩

/-- An attempt to connect is refused, fails and has its socket destroyed, or enters a peer. -/
theorem connectToPeer_ok {a : Dialling} (h : s.connectToPeer host port a = .ok (s', made)) :
    made = none ∧ s' = s ∨
    (∃ e helper, made = none ∧
      (PeerConnHandler.create host port (-1) a.setup = .error (.raised e helper) ∨
        ∃ peer, PeerConnHandler.create host port (-1) a.setup = .ok peer ∧
          peer.connect a.connecting = .error (.raised e helper)) ∧
      s' = { s with openFds := a.setup.sock :: s.openFds }.destroy helper a.destroy) ∨
    s.sockToPeerMap.length < s.maxOutboundConnections ∧
      ∃ peer connected, PeerConnHandler.create host port (-1) a.setup = .ok peer ∧
      peer.connect a.connecting = .ok connected ∧
      made = some (connected.sockHelper.sock, connected) ∧
      s' = { s with openFds := a.setup.sock :: s.openFds }.enter connected.sockHelper.sock connected
        a.destroy := by
  unfold connectToPeer at h
  split at h
  · obtain ⟨hs, hmade⟩ := Prod.mk.inj (Except.ok.inj h)
    exact Or.inl ⟨hmade.symm, hs.symm⟩
  · rename_i hroom
    dsimp only at h
    apply Or.inr
    cases hpeer : PeerConnHandler.create host port (-1) a.setup with
    | error stop =>
      cases stop with
      | halt k => simp [hpeer] at h
      | raised e helper =>
        simp only [hpeer] at h
        obtain ⟨hs, hmade⟩ := Prod.mk.inj (Except.ok.inj h)
        exact Or.inl ⟨e, helper, hmade.symm, Or.inl rfl, hs.symm⟩
    | ok peer =>
      simp only [hpeer] at h
      cases hconn : peer.connect a.connecting with
      | error stop =>
        cases stop with
        | halt k => simp [hconn] at h
        | raised e helper =>
          simp only [hconn] at h
          obtain ⟨hs, hmade⟩ := Prod.mk.inj (Except.ok.inj h)
          exact Or.inl ⟨e, helper, hmade.symm, Or.inr ⟨peer, rfl, hconn⟩, hs.symm⟩
      | ok connected =>
        simp only [hconn] at h
        obtain ⟨hs, hmade⟩ := Prod.mk.inj (Except.ok.inj h)
        exact Or.inr ⟨Nat.not_le.mp hroom, peer, connected, rfl, hconn, hmade.symm, hs.symm⟩

theorem handleClientCommunications_of_none (h : s.sockToPeerMap.lookup fd = none)
    (r : RecvResult) : s.handleClientCommunications fd r = .ok (s, none) := by
  simp only [handleClientCommunications, h]

theorem handleClientCommunications_of_lookup (h : s.sockToPeerMap.lookup fd = some peer)
    (r : RecvResult) : s.handleClientCommunications fd r = (do
      let (t, call) ← RecvState.recvPkt { toPeerConnHandler := peer, outFile := s.outFile } r
      let s' : Process := { s with
        outFile := t.outFile
        sockToPeerMap := replacePeer fd t.toPeerConnHandler s.sockToPeerMap }
      pure (s'.released peer.sockHelper t.sockHelper,
        call.returned.map fun pkt => (peer.host, peer.port, pkt))) := by
  simp only [handleClientCommunications, h]

end Operations

end Process

namespace SocketHelper

variable {host : String} {port : UInt16} {sock : ℤ} {a : Setup} {helper : SocketHelper}

theorem create_ok (h : create host port sock a = .ok helper) :
    helper.sock = (if sock = -1 then a.sock else sock) ∧ helper.isSockOpen = true := by
  unfold create at h
  dsimp only at h
  generalize (if sock = -1 then a.sock else sock) = n at h ⊢
  split at h
  · cases h
  · split at h
    · cases h
    · rw [← Except.ok.inj h]
      exact ⟨rfl, rfl⟩

def fresh (host : String) (port : UInt16) (fd : ℤ) : SocketHelper :=
  { sock := fd, host := host, port := port, isSockOpen := true }

theorem create_eq : create host port sock a =
    if (if sock = -1 then a.sock else sock) = -1 ∨ a.addrinfo = false then .error .exit
    else .ok (fresh host port (if sock = -1 then a.sock else sock)) := by
  unfold create
  dsimp only
  generalize (if sock = -1 then a.sock else sock) = n
  by_cases hn : n = -1
  · simp [hn]
  · cases haddr : a.addrinfo <;> simp [hn, fresh]

theorem connectToHost_ok {s s' : SocketHelper} {c : Connecting} (h : s.connectToHost c = .ok s') :
    s' = { s with isSockInit := true } := by
  unfold connectToHost at h
  split at h
  · cases h
  · split at h
    · cases h
    · split at h
      · cases h
      · split at h
        · cases h
        · exact (Except.ok.inj h).symm

theorem connectToHost_raised {s left : SocketHelper} {c : Connecting} {e : GenericException}
    (h : s.connectToHost c = .error (.raised e left)) : left = s := by
  unfold connectToHost at h
  split at h
  · exact ((Stop.raised.inj (Except.error.inj h)).2).symm
  · split at h
    · exact ((Stop.raised.inj (Except.error.inj h)).2).symm
    · split at h
      · exact ((Stop.raised.inj (Except.error.inj h)).2).symm
      · split at h
        · exact ((Stop.raised.inj (Except.error.inj h)).2).symm
        · cases h

end SocketHelper

namespace PeerConnHandler

variable {host : String} {port : UInt16} {sock : ℤ} {a : Setup} {peer peer' : PeerConnHandler}
  {c : Connecting} {e : GenericException} {helper : SocketHelper}

structure Owns (peer : PeerConnHandler) (fd : ℤ) : Prop where
  sock : peer.sockHelper.sock = fd
  active : peer.connActive = true

theorem ofSocket_sockHelper (h : ofSocket host port sock helper = .ok peer) :
    peer.sockHelper = helper := by
  simp only [ofSocket, clearBuff, Block.memset, Block.malloc_size, le_refl, ↓reduceIte, ok_bind,
    pure_eq_ok, Except.ok.injEq] at h
  rw [← h]

theorem create_exit {fd : ℤ} (hfd : (if sock = -1 then a.sock else sock) = fd)
    (h : fd = -1 ∨ a.addrinfo = false) : create host port sock a = .error (.halt .exit) := by
  simp only [create, SocketHelper.create_eq, hfd, if_pos h]

theorem create_spec {fd : ℤ} (hfd : (if sock = -1 then a.sock else sock) = fd) (hsock : fd ≠ -1)
    (haddr : a.addrinfo = true) :
    if a.options = true ∧ a.nonblocking = true then
      ∃ peer, create host port sock a = .ok peer ∧ peer.sockHelper = SocketHelper.fresh host port fd
    else ∃ e, create host port sock a = .error (.raised e (SocketHelper.fresh host port fd)) := by
  have hmade : ¬ (fd = -1 ∨ a.addrinfo = false) := by simp [hsock, haddr]
  simp only [create, SocketHelper.create_eq, hfd, if_neg hmade]
  generalize SocketHelper.fresh host port fd = helper
  cases hopt : a.options with
  | false => simp
  | true =>
    cases hblock : a.nonblocking with
    | false => simp
    | true =>
      simp only [and_self, ↓reduceIte, Bool.not_true, Bool.false_eq_true]
      cases hpeer : ofSocket host port sock helper with
      | ok peer => exact ⟨peer, rfl, ofSocket_sockHelper hpeer⟩
      | error f => simp [ofSocket, clearBuff, Block.memset] at hpeer

theorem create_inv (h : create host port sock a = .ok peer) :
    (if sock = -1 then a.sock else sock) ≠ -1 ∧
      (a.addrinfo = true ∧ a.options = true ∧ a.nonblocking = true) ∧
      peer.sockHelper = SocketHelper.fresh host port (if sock = -1 then a.sock else sock) := by
  by_cases hexit : (if sock = -1 then a.sock else sock) = -1 ∨ a.addrinfo = false
  · rw [create_exit rfl hexit] at h
    cases h
  · obtain ⟨hsock, haddr⟩ := not_or.mp hexit
    have haddr := (Bool.not_eq_false _).mp haddr
    have hspec := @create_spec host port _ a _ rfl hsock haddr
    split at hspec
    · rename_i hset
      obtain ⟨peer', hpeer, hhelper⟩ := hspec
      rw [h] at hpeer
      rw [Except.ok.inj hpeer]
      exact ⟨hsock, ⟨haddr, hset⟩, hhelper⟩
    · obtain ⟨e, hraised⟩ := hspec
      rw [h] at hraised
      cases hraised

theorem create_ok (h : create host port sock a = .ok peer) :
    peer.Owns (if sock = -1 then a.sock else sock) := by
  obtain ⟨-, -, hhelper⟩ := create_inv h
  exact ⟨by rw [hhelper, SocketHelper.fresh], by rw [connActive, hhelper, SocketHelper.fresh]⟩

theorem create_raised (h : create host port sock a = .error (.raised e helper)) :
    helper.sock = if sock = -1 then a.sock else sock := by
  by_cases hexit : (if sock = -1 then a.sock else sock) = -1 ∨ a.addrinfo = false
  · rw [create_exit rfl hexit] at h
    cases h
  · obtain ⟨hsock, haddr⟩ := not_or.mp hexit
    have hspec := @create_spec host port _ a _ rfl hsock ((Bool.not_eq_false _).mp haddr)
    split at hspec
    · obtain ⟨peer, hpeer, -⟩ := hspec
      rw [h] at hpeer
      cases hpeer
    · obtain ⟨e', hraised⟩ := hspec
      rw [h] at hraised
      rw [(Stop.raised.inj (Except.error.inj hraised)).2, SocketHelper.fresh]

theorem connect_ok {fd : ℤ} (hown : peer.Owns fd) (h : peer.connect c = .ok peer') :
    peer'.Owns fd := by
  unfold connect at h
  cases hconn : peer.sockHelper.connectToHost c with
  | error stop => simp [hconn] at h
  | ok made =>
    rw [hconn, ok_bind] at h
    rw [← Except.ok.inj h, SocketHelper.connectToHost_ok hconn]
    exact ⟨hown.sock, hown.active⟩

theorem connect_raised (h : peer.connect c = .error (.raised e helper)) :
    helper = peer.sockHelper := by
  unfold connect at h
  cases hconn : peer.sockHelper.connectToHost c with
  | error stop =>
    rw [hconn, error_bind] at h
    rw [Except.error.inj h] at hconn
    exact SocketHelper.connectToHost_raised hconn
  | ok made => simp [hconn] at h

end PeerConnHandler

end P2Purr
