import Mathlib.Data.List.Nodup
import P2Purr.Connection
import P2Purr.P2PurrServer
import P2Purr.Runs

namespace P2Purr
open Memory Runs

namespace Process

def Free (s : Process) (fd : ℤ) : Prop := 0 ≤ fd ∧ fd ∉ s.openFds

inductive Op
  | handleNewClient (a : Accepting)
  | connectToPeer (host : String) (port : UInt16) (a : Dialling)
  | handleClientCommunications (fd : ℤ) (r : RecvResult)
  | removeDisconnectedPeers (order : List (ℤ × PeerConnHandler))

def Op.IsRemoval : Op → Prop
  | .removeDisconnectedPeers _ => True
  | _ => False

structure Event where
  op : Op
  made : Option (ℤ × PeerConnHandler) := none

inductive Step (s : Process) : Event → Process → Prop
  | handleNewClient {a s' made} (hfree : s.Free a.sock)
      (h : s.handleNewClient a = .ok (s', made)) : Step s ⟨.handleNewClient a, made⟩ s'
  | connectToPeer {host port a s' made} (hfree : s.Free a.setup.sock)
      (h : s.connectToPeer host port a = .ok (s', made)) :
      Step s ⟨.connectToPeer host port a, made⟩ s'
  | handleClientCommunications {fd r s' call}
      (h : s.handleClientCommunications fd r = .ok (s', call)) :
      Step s ⟨.handleClientCommunications fd r, none⟩ s'
  | removeDisconnectedPeers {order} (horder : order.Perm s.sockToPeerMap) :
      Step s ⟨.removeDisconnectedPeers order, none⟩ (s.removeDisconnectedPeers order)

def Started (s : Process) : Prop :=
  ∃ host port a openFds s₁, 0 ≤ a.sock ∧ a.sock ∉ openFds ∧
    create host port a openFds = .ok s₁ ∧ s₁.start true true = .ok s

def keys (s : Process) : List ℤ := s.sockToPeerMap.map Prod.fst

def disconnected (s : Process) : List ℤ :=
  (s.sockToPeerMap.filter fun e => !e.2.connActive).map Prod.fst

variable {s s' : Process} {fd : ℤ} {peer : PeerConnHandler} {made : Option (ℤ × PeerConnHandler)}

/-- What comes of the descriptor `fd`: nothing, or a new peer that is entered. -/
inductive Opened (s : Process) (fd : ℤ) : Option (ℤ × PeerConnHandler) → Process → Prop
  | nothing {s' : Process} (hserver : s'.toP2PurrServer = s.toP2PurrServer)
      (hopen : ∀ x ∈ s.openFds, x ≠ fd → x ∈ s'.openFds) : Opened s fd none s'
  | entered {peer : PeerConnHandler} {k : CloseResult} (hown : peer.Owns fd) :
      Opened s fd (some (fd, peer)) ({ s with openFds := fd :: s.openFds }.enter fd peer k)

theorem mem_destroy_opened {helper : SocketHelper} {k : CloseResult} (hsock : helper.sock = fd) :
    ∀ x ∈ s.openFds, x ≠ fd →
      x ∈ ({ s with openFds := fd :: s.openFds }.destroy helper k).openFds := by
  intro x hx hne
  exact mem_destroy (List.mem_cons_of_mem fd hx) (by rwa [hsock])

theorem handleNewClient_opened {a : Accepting}
    (h : s.handleNewClient a = .ok (s', made)) : Opened s a.sock made s' := by
  obtain ⟨hsock, -, peer, hpeer, hends⟩ := handleNewClient_ok h
  have hown := PeerConnHandler.create_ok hpeer
  rw [if_neg hsock] at hown
  cases hends with
  | inl hrefused =>
    -- the client is refused: its socket is closed, and closed again if that failed
    rw [hrefused.2.1, hrefused.2.2]
    apply Opened.nothing (by simp)
    intro x hx hne
    have hmem := mem_destroy_opened (k := a.close) hown.sock x hx hne
    apply (mem_released hmem).resolve_right
    intro hclosed
    apply hne
    rw [hclosed.1]
    exact (SocketHelper.closeSock_sock hclosed.2.1).1.trans hown.sock
  | inr hentered =>
    rw [hentered.2.1, hentered.2.2]
    exact Opened.entered hown

theorem connectToPeer_opened {host : String} {port : UInt16} {a : Dialling}
    (h : s.connectToPeer host port a = .ok (s', made)) : Opened s a.setup.sock made s' := by
  obtain hrefused | ⟨e, helper, hmade, hraised, hs'⟩ |
    ⟨-, peer, connected, hpeer, hconn, hmade, hs'⟩ := connectToPeer_ok h
  · rw [hrefused.1, hrefused.2]
    exact Opened.nothing rfl fun x hx _ => hx
  · have hsock : helper.sock = a.setup.sock := by
      cases hraised with
      | inl hcreate => exact PeerConnHandler.create_raised hcreate
      | inr hconnect =>
        obtain ⟨peer, hpeer, hconn⟩ := hconnect
        rw [PeerConnHandler.connect_raised hconn]
        exact (PeerConnHandler.create_ok hpeer).sock
    rw [hmade, hs']
    exact Opened.nothing (by simp) (mem_destroy_opened hsock)
  · have hown := PeerConnHandler.connect_ok (PeerConnHandler.create_ok hpeer) hconn
    rw [hmade, hs', hown.sock]
    exact Opened.entered hown

/-- What a step does to the table, the poll list and the open descriptors. -/
inductive Change (s s' : Process) : Event → Prop
  | nothing {op : Op} (hmap : s'.sockToPeerMap = s.sockToPeerMap)
      (hpoll : s'.pollfdList = s.pollfdList) (hopen : ∀ x ∈ s.openFds, x ∈ s'.openFds) :
      Change s s' ⟨op, none⟩
  | entered {op : Op} {fd : ℤ} {peer : PeerConnHandler} (hfree : s.Free fd) (hown : peer.Owns fd)
      (hnew : fd ∉ s.keys) (hmap : s'.sockToPeerMap = (fd, peer) :: s.sockToPeerMap)
      (hpoll : s'.pollfdList = s.pollfdList ++ [fd])
      (hopen : ∀ x, x = fd ∨ x ∈ s.openFds → x ∈ s'.openFds) : Change s s' ⟨op, some (fd, peer)⟩
  | met {op : Op} {fd : ℤ} {peer : PeerConnHandler} (hfree : s.Free fd) (hown : peer.Owns fd)
      (hkey : fd ∈ s.keys) (hmap : s'.sockToPeerMap = s.sockToPeerMap)
      (hpoll : s'.pollfdList = s.pollfdList ++ [fd])
      (hopen : ∀ x ∈ s.openFds, x ∈ s'.openFds) : Change s s' ⟨op, some (fd, peer)⟩
  | handled {op : Op} {fd : ℤ} {peer peer' : PeerConnHandler} (hold : (fd, peer) ∈ s.sockToPeerMap)
      (hmap : s'.sockToPeerMap = replacePeer fd peer' s.sockToPeerMap)
      (hpoll : s'.pollfdList = s.pollfdList) (hown : ∀ x, peer'.Owns x → peer.Owns x)
      (hopen : ∀ x ∈ s.openFds, x ∈ s'.openFds ∨ peer.Owns x ∧ peer'.connActive = false) :
      Change s s' ⟨op, none⟩
  | removed {order : List (ℤ × PeerConnHandler)} (horder : order.Perm s.sockToPeerMap)
      (hmap : s'.sockToPeerMap = order.filter fun e => e.2.connActive)
      (hpoll : s'.pollfdList = scanAll ((order.filter fun e => !e.2.connActive).map Prod.fst) []
        s.pollfdList)
      (hopen : s'.openFds = s.openFds) : Change s s' ⟨.removeDisconnectedPeers order, none⟩

structure Stays (s s' : Process) : Prop where
  running : s'.isLocalServerRunning = s.isLocalServerRunning
  listening : s'.serverSockHelper = s.serverSockHelper

theorem mem_of_lookup {α : Type} {k : ℤ} {v : α} {l : List (ℤ × α)} (h : l.lookup k = some v) :
    (k, v) ∈ l := by
  obtain ⟨l₁, l₂, hl, -⟩ := List.lookup_eq_some_iff.mp h
  rw [hl]
  simp

theorem not_mem_of_lookup {α : Type} {k : ℤ} {l : List (ℤ × α)} (h : l.lookup k = none) :
    k ∉ l.map Prod.fst := by
  intro hmem
  obtain ⟨e, he, hk⟩ := List.mem_map.mp hmem
  have hne := List.lookup_eq_none_iff.mp h e he
  simp [hk] at hne

theorem Opened.change (hfree : s.Free fd) (h : Opened s fd made s') (op : Op) :
    Stays s s' ∧ Change s s' ⟨op, made⟩ := by
  have hopened : ∀ x ∈ s.openFds, x ≠ fd := by
    intro x hx hfd
    exact hfree.2 (hfd ▸ hx)
  -- the kernel hands out a descriptor that is not open, so that no other one is touched
  cases h with
  | nothing hserver hopen =>
    exact ⟨⟨congrArg P2PurrServer.isLocalServerRunning hserver,
        congrArg P2PurrServer.serverSockHelper hserver⟩,
      Change.nothing (congrArg P2PurrServer.sockToPeerMap hserver)
        (congrArg P2PurrServer.pollfdList hserver) fun x hx => hopen x hx (hopened x hx)⟩
  | @entered peer k hown =>
    cases hold : s.sockToPeerMap.lookup fd with
    | none =>
      rw [enter_of_none (by exact hold)]
      exact ⟨⟨rfl, rfl⟩, Change.entered hfree hown (not_mem_of_lookup hold) rfl rfl
        fun x hx => List.mem_cons.mpr hx⟩
    | some old =>
      rw [enter_of_some (by exact hold)]
      refine ⟨⟨by simp [addFdToWatchList], by simp [addFdToWatchList]⟩,
        Change.met hfree hown (List.mem_map_of_mem (mem_of_lookup hold)) ?_ ?_ ?_⟩
      · simp [addFdToWatchList]
      · simp [addFdToWatchList]
      · intro x hx
        exact mem_destroy (List.mem_cons_of_mem fd hx) (by rw [hown.sock]; exact hopened x hx)

theorem recvPkt_owns {t t' : RecvState} {r : RecvResult} {call : RecvCall}
    (h : t.recvPkt r = .ok (t', call)) (x : ℤ) (hown : t'.toPeerConnHandler.Owns x) :
    t.toPeerConnHandler.Owns x := by
  cases RecvState.recvPkt_sockHelper h with
  | inl hsame =>
    refine ⟨by rw [← hsame, hown.sock], ?_⟩
    rw [PeerConnHandler.connActive, ← hsame]
    exact hown.active
  | inr hclosed =>
    obtain ⟨k, hk⟩ := hclosed
    have hactive : (t.sockHelper.closeSock k).2.isSockOpen = true := by
      rw [← hk]
      exact hown.active
    have hsock := SocketHelper.closeSock_sock hactive
    exact ⟨by rw [← hsock.1, ← hk, hown.sock], hsock.2⟩

theorem handleClientCommunications_change {r : RecvResult}
    {call : Option (String × UInt16 × PacketRef)}
    (h : s.handleClientCommunications fd r = .ok (s', call)) (op : Op) :
    Stays s s' ∧ Change s s' ⟨op, none⟩ := by
  cases hold : s.sockToPeerMap.lookup fd with
  | none =>
    rw [handleClientCommunications_of_none hold] at h
    rw [← (Prod.mk.inj (Except.ok.inj h)).1]
    exact ⟨⟨rfl, rfl⟩, Change.nothing rfl rfl fun x hx => hx⟩
  | some peer =>
    rw [handleClientCommunications_of_lookup hold] at h
    obtain ⟨⟨t, pkt⟩, hrecv, hs'⟩ := bind_eq_ok.mp h
    rw [← (Prod.mk.inj (Except.ok.inj hs')).1]
    refine ⟨⟨by simp, by simp⟩, Change.handled (mem_of_lookup hold)
      (show _ = replacePeer fd t.toPeerConnHandler s.sockToPeerMap by simp) (by simp)
      (recvPkt_owns hrecv) ?_⟩
    intro x hx
    apply (mem_released (by exact hx)).imp_right
    intro hclosed
    exact ⟨⟨hclosed.1.symm, hclosed.2.1⟩, hclosed.2.2⟩

theorem removeDisconnectedPeers_change (hrun : s.isLocalServerRunning = true)
    {order : List (ℤ × PeerConnHandler)} (horder : order.Perm s.sockToPeerMap) :
    Stays s (s.removeDisconnectedPeers order) ∧
      Change s (s.removeDisconnectedPeers order) ⟨.removeDisconnectedPeers order, none⟩ := by
  unfold removeDisconnectedPeers
  rw [hrun, sweep_eq]
  exact ⟨⟨hrun.symm, rfl⟩, Change.removed horder rfl rfl rfl⟩

theorem Step.change {e : Event} (hrun : s.isLocalServerRunning = true) (h : Step s e s') :
    Stays s s' ∧ Change s s' e := by
  cases h with
  | handleNewClient hfree h => exact (handleNewClient_opened h).change hfree _
  | connectToPeer hfree h => exact (connectToPeer_opened h).change hfree _
  | handleClientCommunications h => exact handleClientCommunications_change h _
  | removeDisconnectedPeers horder => exact removeDisconnectedPeers_change hrun horder

/-- Every key is a descriptor that is polled, and a peer that is connected owns its key. -/
structure Sane (s : Process) : Prop where
  running : s.isLocalServerRunning = true
  nonneg : 0 ≤ s.serverSockHelper.sock
  listening : s.serverSockHelper.sock ∈ s.openFds
  nodup : s.keys.Nodup
  key : ∀ fd ∈ s.keys, 0 ≤ fd ∧ fd ≠ s.serverSockHelper.sock ∧ fd ∈ s.pollfdList
  active : ∀ fd peer, (fd, peer) ∈ s.sockToPeerMap → peer.connActive = true →
    peer.Owns fd ∧ fd ∈ s.openFds

theorem mem_keys (h : (fd, peer) ∈ s.sockToPeerMap) : fd ∈ s.keys := List.mem_map_of_mem h

theorem mem_disconnected :
    fd ∈ s.disconnected ↔ ∃ peer, (fd, peer) ∈ s.sockToPeerMap ∧ peer.connActive = false := by
  simp [disconnected]

theorem Sane.unique (h : Sane s) {peer' : PeerConnHandler} (hp : (fd, peer) ∈ s.sockToPeerMap)
    (hp' : (fd, peer') ∈ s.sockToPeerMap) : peer = peer' :=
  (Prod.mk.inj (List.inj_on_of_nodup_map h.nodup hp hp' rfl)).2

theorem map_fst_replacePeer (fd : ℤ) (peer : PeerConnHandler) (l : List (ℤ × PeerConnHandler)) :
    (replacePeer fd peer l).map Prod.fst = l.map Prod.fst := by
  unfold replacePeer
  rw [List.map_map]
  apply List.map_congr_left
  intro e _
  by_cases he : e.1 = fd <;> simp [he]

theorem mem_replacePeer {x : ℤ} {p : PeerConnHandler} {l : List (ℤ × PeerConnHandler)}
    (h : (x, p) ∈ replacePeer fd peer l) : x = fd ∧ p = peer ∨ x ≠ fd ∧ (x, p) ∈ l := by
  obtain ⟨e, he, heq⟩ := List.mem_map.mp h
  by_cases hfd : e.1 = fd
  · rw [if_pos hfd] at heq
    have hpair := Prod.mk.inj heq
    exact Or.inl ⟨hpair.1.symm, hpair.2.symm⟩
  · rw [if_neg hfd] at heq
    rw [heq] at he hfd
    exact Or.inr ⟨hfd, he⟩

theorem mem_replacePeer_self {old : PeerConnHandler} {l : List (ℤ × PeerConnHandler)}
    (h : (fd, old) ∈ l) : (fd, peer) ∈ replacePeer fd peer l :=
  List.mem_map.mpr ⟨(fd, old), h, by simp⟩

theorem mem_replacePeer_of_ne {x : ℤ} {p : PeerConnHandler} {l : List (ℤ × PeerConnHandler)}
    (h : (x, p) ∈ l) (hne : x ≠ fd) : (x, p) ∈ replacePeer fd peer l :=
  List.mem_map.mpr ⟨(x, p), h, by simp [hne]⟩

/-- What the second loop leaves of a table whose keys differ. -/
theorem mem_scanAll_of_active {order : List (ℤ × PeerConnHandler)} {polled : List ℤ}
    (hnodup : (order.map Prod.fst).Nodup) (hp : (fd, peer) ∈ order)
    (hactive : peer.connActive = true)
    (hfd : fd ∈ polled) (hne : fd ≠ -1) :
    fd ∈ scanAll ((order.filter fun e => !e.2.connActive).map Prod.fst) [] polled := by
  cases hgone : order.filter fun e => !e.2.connActive with
  | nil => exact hfd
  | cons e rest =>
    have he : e ∈ order.filter fun e => !e.2.connActive := by simp [hgone]
    rw [List.map_cons, scanAll_cons, List.mem_filter]
    refine ⟨hfd, ?_⟩
    have hdiff : fd ≠ e.1 := by
      intro heq
      have hsame := List.inj_on_of_nodup_map hnodup hp (List.mem_filter.mp he).1 heq
      rw [← hsame] at he
      simp [hactive] at he
    simp [hdiff, hne]

theorem Sane.of_same (h : Sane s) (hstay : Stays s s') (hmap : s'.sockToPeerMap = s.sockToPeerMap)
    (hpoll : ∀ x ∈ s.pollfdList, x ∈ s'.pollfdList) (hopen : ∀ x ∈ s.openFds, x ∈ s'.openFds) :
    Sane s' := by
  have hkeys : s'.keys = s.keys := congrArg (List.map Prod.fst) hmap
  refine ⟨hstay.running.trans h.running, by rw [hstay.listening]; exact h.nonneg, ?_,
    by rw [hkeys]; exact h.nodup, ?_, ?_⟩
  · rw [hstay.listening]
    exact hopen _ h.listening
  · rw [hkeys, hstay.listening]
    intro x hx
    have hkey := h.key x hx
    exact ⟨hkey.1, hkey.2.1, hpoll x hkey.2.2⟩
  · rw [hmap]
    intro x p hp hactive
    have hown := h.active x p hp hactive
    exact ⟨hown.1, hopen x hown.2⟩

theorem Sane.entered (h : Sane s) (hstay : Stays s s') (hfree : s.Free fd) (hown : peer.Owns fd)
    (hnew : fd ∉ s.keys) (hmap : s'.sockToPeerMap = (fd, peer) :: s.sockToPeerMap)
    (hpoll : s'.pollfdList = s.pollfdList ++ [fd])
    (hopen : ∀ x, x = fd ∨ x ∈ s.openFds → x ∈ s'.openFds) : Sane s' := by
  have hkeys : s'.keys = fd :: s.keys := congrArg (List.map Prod.fst) hmap
  refine ⟨hstay.running.trans h.running, by rw [hstay.listening]; exact h.nonneg, ?_, ?_, ?_, ?_⟩
  · rw [hstay.listening]
    exact hopen _ (Or.inr h.listening)
  · rw [hkeys]
    exact List.nodup_cons.mpr ⟨hnew, h.nodup⟩
  · rw [hkeys, hpoll, hstay.listening]
    intro x hx
    cases List.mem_cons.mp hx with
    | inl heq =>
      rw [heq]
      exact ⟨hfree.1, fun hl => hfree.2 (hl ▸ h.listening), by simp⟩
    | inr hx =>
      have hkey := h.key x hx
      exact ⟨hkey.1, hkey.2.1, List.mem_append_left _ hkey.2.2⟩
  · rw [hmap]
    intro x p hp hactive
    cases List.mem_cons.mp hp with
    | inl heq =>
      rw [(Prod.mk.inj heq).1, (Prod.mk.inj heq).2]
      exact ⟨hown, hopen fd (Or.inl rfl)⟩
    | inr hp =>
      have hown' := h.active x p hp hactive
      exact ⟨hown'.1, hopen x (Or.inr hown'.2)⟩

theorem Sane.handled (h : Sane s) (hstay : Stays s s') {peer' : PeerConnHandler}
    (hold : (fd, peer) ∈ s.sockToPeerMap)
    (hmap : s'.sockToPeerMap = replacePeer fd peer' s.sockToPeerMap)
    (hpoll : s'.pollfdList = s.pollfdList) (hown : ∀ x, peer'.Owns x → peer.Owns x)
    (hopen : ∀ x ∈ s.openFds, x ∈ s'.openFds ∨ peer.Owns x ∧ peer'.connActive = false) :
    Sane s' := by
  have hkeys : s'.keys = s.keys := by
    unfold keys
    rw [hmap, map_fst_replacePeer]
  -- the only descriptor that may be closed is the one of the peer itself
  have hkept : ∀ x ∈ s.openFds, x ≠ fd ∨ peer'.connActive = true → x ∈ s'.openFds := by
    intro x hx hcase
    apply (hopen x hx).resolve_right
    intro hclosed
    have hfd := (h.active fd peer hold hclosed.1.active).1.sock
    cases hcase with
    | inl hne => exact hne (hclosed.1.sock.symm.trans hfd)
    | inr hactive => simp [hactive] at hclosed
  refine ⟨hstay.running.trans h.running, by rw [hstay.listening]; exact h.nonneg, ?_,
    by rw [hkeys]; exact h.nodup, ?_, ?_⟩
  · rw [hstay.listening]
    exact hkept _ h.listening (Or.inl (h.key fd (mem_keys hold)).2.1.symm)
  · rw [hkeys, hpoll, hstay.listening]
    exact h.key
  · rw [hmap]
    intro x p hp hactive
    cases mem_replacePeer hp with
    | inl hsame =>
      rw [hsame.2] at hactive
      rw [hsame.1, hsame.2]
      have hpeer := hown _ ⟨rfl, hactive⟩
      have hown' := h.active fd peer hold hpeer.active
      refine ⟨⟨?_, hactive⟩, hkept fd hown'.2 (Or.inr hactive)⟩
      rw [← hpeer.sock, hown'.1.sock]
    | inr hother =>
      have hown' := h.active x p hother.2 hactive
      exact ⟨hown'.1, hkept x hown'.2 (Or.inl hother.1)⟩

theorem Sane.removed (h : Sane s) (hstay : Stays s s') {order : List (ℤ × PeerConnHandler)}
    (horder : order.Perm s.sockToPeerMap)
    (hmap : s'.sockToPeerMap = order.filter fun e => e.2.connActive)
    (hpoll : s'.pollfdList = scanAll ((order.filter fun e => !e.2.connActive).map Prod.fst) []
      s.pollfdList)
    (hopen : s'.openFds = s.openFds) : Sane s' := by
  have hnodup : (order.map Prod.fst).Nodup := (horder.map Prod.fst).nodup_iff.mpr h.nodup
  refine ⟨hstay.running.trans h.running, by rw [hstay.listening]; exact h.nonneg, ?_, ?_, ?_, ?_⟩
  · rw [hstay.listening, hopen]
    exact h.listening
  · unfold keys
    rw [hmap]
    exact hnodup.sublist (List.filter_sublist.map Prod.fst)
  · unfold keys
    rw [hmap, hpoll, hstay.listening]
    intro x hx
    obtain ⟨e, he, hfst⟩ := List.mem_map.mp hx
    obtain ⟨hmem, hactive⟩ := List.mem_filter.mp he
    rw [← hfst]
    have hkey := h.key e.1 (mem_keys (horder.mem_iff.mp hmem))
    exact ⟨hkey.1, hkey.2.1, mem_scanAll_of_active hnodup hmem hactive hkey.2.2 (by omega)⟩
  · rw [hmap, hopen]
    intro x p hp hactive
    exact h.active x p (horder.mem_iff.mp (List.mem_filter.mp hp).1) hactive

theorem Sane.step {e : Event} (h : Sane s) (hstep : Step s e s') : Sane s' := by
  obtain ⟨hstay, hchange⟩ := hstep.change h.running
  cases hchange with
  | nothing hmap hpoll hopen => exact h.of_same hstay hmap (by simp [hpoll]) hopen
  | entered hfree hown hnew hmap hpoll hopen =>
    exact h.entered hstay hfree hown hnew hmap hpoll hopen
  | met _ _ _ hmap hpoll hopen =>
    exact h.of_same hstay hmap (fun x hx => by simp [hpoll, hx]) hopen
  | handled hold hmap hpoll hown hopen => exact h.handled hstay hold hmap hpoll hown hopen
  | removed horder hmap hpoll hopen => exact h.removed hstay horder hmap hpoll hopen

theorem Started.start (h : Started s) :
    s.isLocalServerRunning = true ∧ 0 ≤ s.serverSockHelper.sock ∧ s.sockToPeerMap = [] ∧
      s.pollfdList = [s.serverSockHelper.sock] ∧ s.serverSockHelper.sock ∈ s.openFds := by
  obtain ⟨host, port, a, openFds, s₁, hnonneg, -, hcreate, hstart⟩ := h
  unfold create at hcreate
  cases hhelper : SocketHelper.create host port (-1) a with
  | error k => simp [hhelper] at hcreate
  | ok helper =>
    have hsock : helper.sock = a.sock := (SocketHelper.create_ok hhelper).1
    simp only [hhelper] at hcreate
    split at hcreate
    · cases hcreate
    · split at hcreate
      · cases hcreate
      · rw [← Except.ok.inj hcreate] at hstart
        rw [← Except.ok.inj hstart]
        exact ⟨rfl, hsock ▸ hnonneg, rfl, rfl, by simp [addFdToWatchList, hsock]⟩

theorem Started.sane (h : Started s) : Sane s := by
  obtain ⟨hrun, hnonneg, hmap, -, hopen⟩ := h.start
  have hkeys : s.keys = [] := congrArg (List.map Prod.fst) hmap
  exact ⟨hrun, hnonneg, hopen, by simp [hkeys], by simp [hkeys], by simp [hmap]⟩

def listener : Process where
  serverSockHelper :=
    { sock := 3, host := "127.0.0.1", port := 8000, isSockOpen := true, isSockInit := true }
  isLocalServerRunning := true
  pollfdList := [3]
  openFds := [3]

theorem listener_started : Started listener :=
  ⟨"127.0.0.1", 8000, { sock := 3 }, [], _, by decide, by simp, rfl, rfl⟩

def newcomer (fd : ℤ) : PeerConnHandler := (RecvState.idle "127.0.0.1" 0 fd).toPeerConnHandler

def joined (s : Process) (fd : ℤ) : Process :=
  { s with openFds := fd :: s.openFds }.enter fd (newcomer fd) {}

def left (s : Process) (fd : ℤ) : Process :=
  let peer := newcomer fd
  let gone := { peer with sockHelper := (peer.sockHelper.closeSock {}).2 }
  { s with sockToPeerMap := replacePeer fd gone s.sockToPeerMap }.released peer.sockHelper
    gone.sockHelper

theorem step_joined (fd : ℤ) (hfree : s.Free fd)
    (hlen : s.sockToPeerMap.length ≤ s.maxInboundConnections) :
    Step s ⟨.handleNewClient { sock := fd }, some (fd, newcomer fd)⟩ (s.joined fd) := by
  have hsock : fd ≠ -1 := by
    have hle := hfree.1
    omega
  have hcreate : PeerConnHandler.create "127.0.0.1" 0 fd {} = .ok (newcomer fd) := by
    simp only [PeerConnHandler.create, SocketHelper.create, if_neg hsock]
    rfl
  apply Step.handleNewClient hfree
  unfold handleNewClient
  rw [if_neg hsock]
  simp only [hcreate, if_neg (Nat.not_lt.mpr hlen)]
  rfl

theorem step_left (fd : ℤ) (hpeer : s.sockToPeerMap.lookup fd = some (newcomer fd)) :
    Step s ⟨.handleClientCommunications fd (.closed {}), none⟩ (s.left fd) := by
  have hfresh : RecvState.Fresh { toPeerConnHandler := newcomer fd, outFile := s.outFile } :=
    ⟨(RecvState.idle_fresh "127.0.0.1" 0 fd).made, rfl⟩
  refine @Step.handleClientCommunications s fd (.closed {}) (s.left fd) none ?_
  rw [handleClientCommunications_of_lookup hpeer,
    RecvState.recvPkt_closed hfresh.holds hfresh.isOpen]
  rfl

end Process

end P2Purr
