import P2Purr.Outgoing
import P2Purr.PollLoop

namespace P2Purr
open Memory Runs

structure CloseResult.Succeeds (k : CloseResult) : Prop where
  shutdown : k.shutdown = true
  close : k.close = true

theorem CloseResult.succeeds_default : CloseResult.Succeeds {} := ⟨rfl, rfl⟩

theorem SocketHelper.closeSock_of_succeeds {s : SocketHelper} {k : CloseResult}
    (hk : k.Succeeds) : (s.closeSock k).2.isSockOpen = false := by
  cases hopen : s.isSockOpen with
  | false => simp [closeSock, hopen]
  | true => exact (closeSock_iff hopen).mpr ⟨Or.inr hk.shutdown, hk.close⟩

namespace Process

open PollLoop

variable {s s' s₀ : Process} {fd x : ℤ} {peer : PeerConnHandler} {k : CloseResult}
  {made : Option (ℤ × PeerConnHandler)} {e : Event}

/-- The destructor closes the socket of a handler that the operation does not keep. -/
def Event.Discards (e : Event) : Prop :=
  match e.op with
  | .handleNewClient a => a.destroy.Succeeds
  | .connectToPeer _ _ a => a.destroy.Succeeds
  | _ => True

theorem mem_released_iff {before after : SocketHelper} :
    x ∈ (s.released before after).openFds ↔
      x ∈ s.openFds ∧
        ¬ (x = before.sock ∧ before.isSockOpen = true ∧ after.isSockOpen = false) := by
  unfold released
  split
  · rename_i hclosed
    have hboth : before.isSockOpen = true ∧ after.isSockOpen = false := by simpa using hclosed
    simp [List.mem_filter, hboth]
  · rename_i hkept
    have hnot : ¬ (before.isSockOpen = true ∧ after.isSockOpen = false) := by simpa using hkept
    exact ⟨fun hx => ⟨hx, fun h => hnot h.2⟩, fun h => h.1⟩

theorem mem_destroy_iff {helper : SocketHelper} (hopen : helper.isSockOpen = true)
    (hk : k.Succeeds) : x ∈ (s.destroy helper k).openFds ↔ x ∈ s.openFds ∧ x ≠ helper.sock := by
  simp [destroy, mem_released_iff, hopen, SocketHelper.closeSock_of_succeeds hk]

inductive Admits (s : Process) (fd : ℤ) (s' : Process) : Prop
  | none (hmap : s'.sockToPeerMap = s.sockToPeerMap)
      (hopen : ∀ x, x ∈ s'.openFds ↔ x ∈ s.openFds)
  | one {peer : PeerConnHandler} (hown : peer.Owns fd)
      (hmap : s'.sockToPeerMap = (fd, peer) :: s.sockToPeerMap)
      (hopen : ∀ x, x ∈ s'.openFds ↔ x = fd ∨ x ∈ s.openFds)

theorem mem_discarded {helper : SocketHelper} (hfree : s.Free fd) (hsock : helper.sock = fd)
    (hopen : helper.isSockOpen = true) (hk : k.Succeeds) :
    x ∈ ({ s with openFds := fd :: s.openFds }.destroy helper k).openFds ↔ x ∈ s.openFds := by
  rw [mem_destroy_iff hopen hk, hsock, List.mem_cons]
  constructor
  · intro h
    exact h.1.resolve_left h.2
  · intro hx
    refine ⟨Or.inr hx, ?_⟩
    intro heq
    exact hfree.2 (heq ▸ hx)

theorem enter_admits (hfree : s.Free fd) (hown : peer.Owns fd) (hk : k.Succeeds) :
    Admits s fd ({ s with openFds := fd :: s.openFds }.enter fd peer k) := by
  cases hold : s.sockToPeerMap.lookup fd with
  | none =>
    rw [enter_of_none (by exact hold)]
    exact Admits.one hown rfl fun x => List.mem_cons
  | some old =>
    rw [enter_of_some (by exact hold)]
    apply Admits.none (by rw [destroy_toP2PurrServer]; rfl)
    intro x
    exact mem_discarded (s := s.addFdToWatchList fd) hfree hown.sock hown.active hk

/-- A client that is refused is closed by hand, or at the latest by the destructor. -/
theorem handleNewClient_admits {a : Accepting} (hfree : s.Free a.sock) (hk : a.destroy.Succeeds)
    (h : s.handleNewClient a = .ok (s', made)) : Admits s a.sock s' := by
  obtain ⟨hsock, -, peer, hpeer, hends⟩ := handleNewClient_ok h
  have hown := PeerConnHandler.create_ok hpeer
  rw [if_neg hsock] at hown
  cases hends with
  | inr hentered =>
    rw [hentered.2.2]
    exact enter_admits hfree hown hk
  | inl hrefused =>
    rw [hrefused.2.2]
    apply Admits.none (by simp)
    intro x
    have hactive : peer.sockHelper.isSockOpen = true := hown.active
    cases hclosed : (peer.close a.close).2.sockHelper.isSockOpen with
    | false =>
      have hclosed' : (peer.sockHelper.closeSock a.close).2.isSockOpen = false := hclosed
      rw [destroy, mem_released_iff, hclosed]
      simp only [Bool.false_eq_true, false_and, and_false, not_false_eq_true, and_true]
      rw [destroy, mem_released_iff, hactive, hclosed', hown.sock, List.mem_cons]
      constructor
      · intro hx
        exact hx.1.resolve_left fun heq => hx.2 ⟨heq, rfl, rfl⟩
      · intro hx
        refine ⟨Or.inr hx, ?_⟩
        intro heq
        exact hfree.2 (heq.1 ▸ hx)
    | true =>
      have hclosed' : (peer.sockHelper.closeSock a.close).2.isSockOpen = true := hclosed
      have hsame := SocketHelper.closeSock_sock hclosed'
      have hkept : { s with openFds := a.sock :: s.openFds }.destroy peer.sockHelper a.close =
          { s with openFds := a.sock :: s.openFds } := by
        simp [destroy, released, hclosed']
      rw [hkept]
      exact mem_discarded hfree (hsame.1.trans hown.sock) hclosed hk

theorem connectToPeer_admits {host : String} {port : UInt16} {a : Dialling}
    (hfree : s.Free a.setup.sock) (hk : a.destroy.Succeeds)
    (h : s.connectToPeer host port a = .ok (s', made)) : Admits s a.setup.sock s' := by
  have hsock : a.setup.sock ≠ -1 := by
    have hnonneg := hfree.1
    omega
  cases made with
  | some p =>
    obtain hrefused | ⟨-, -, hnone, -⟩ | ⟨-, peer, connected, hpeer, hconn, -, hs'⟩ :=
      connectToPeer_ok h
    · cases hrefused.1
    · cases hnone
    · have hown := PeerConnHandler.connect_ok (PeerConnHandler.create_ok hpeer) hconn
      rw [hs', hown.sock]
      exact enter_admits hfree hown hk
  | none =>
    have hfails : s.Fails host port a := by
      intro s'' made hmade
      rw [h] at hmade
      cases hmade
    by_cases hroom : s.sockToPeerMap.length < s.maxOutboundConnections
    · cases haddr : a.setup.addrinfo with
      | true =>
        rw [connectToPeer_of_fails hfails hroom hsock haddr] at h
        rw [← (Prod.mk.inj (Except.ok.inj h)).1]
        exact Admits.none (by simp) fun x => mem_discarded hfree rfl rfl hk
      | false =>
        have hcreate := @PeerConnHandler.create_exit host port (-1) a.setup _ (if_pos rfl)
          (Or.inr haddr)
        simp [connectToPeer, Nat.not_le.mpr hroom, hcreate] at h
    · rw [connectToPeer, if_pos (Nat.not_lt.mp hroom)] at h
      rw [← (Prod.mk.inj (Except.ok.inj h)).1]
      exact Admits.none rfl fun x => Iff.rfl

/-- Open are those of `base`, and those of the connected peers, which are others. -/
structure Accounts (base : List ℤ) (s : Process) : Prop where
  sane : Sane s
  openFds : ∀ x, x ∈ s.openFds ↔ x ∈ base ∨ Connected x s
  apart : ∀ x, Connected x s → x ∉ base

variable {base : List ℤ}

theorem Accounts.admits (h : Accounts base s) (hsane : Sane s') (hfree : s.Free fd)
    (hadmits : Admits s fd s') : Accounts base s' := by
  cases hadmits with
  | none hmap hopen =>
    have hconn : ∀ x, Connected x s' ↔ Connected x s := by
      intro x
      unfold Connected
      rw [hmap]
    refine ⟨hsane, fun x => ?_, fun x hx => h.apart x ((hconn x).mp hx)⟩
    rw [hopen, hconn, h.openFds]
  | @one peer hown hmap hopen =>
    have hconn : ∀ x, Connected x s' ↔ x = fd ∨ Connected x s := by
      intro x
      unfold Connected
      rw [hmap]
      constructor
      · intro ⟨p, hp, hactive⟩
        cases List.mem_cons.mp hp with
        | inl heq => exact Or.inl (Prod.mk.inj heq).1
        | inr hp => exact Or.inr ⟨p, hp, hactive⟩
      · intro hx
        cases hx with
        | inl heq => exact ⟨peer, by rw [heq]; exact List.mem_cons_self, hown.active⟩
        | inr hx =>
          obtain ⟨p, hp, hactive⟩ := hx
          exact ⟨p, List.mem_cons_of_mem _ hp, hactive⟩
    refine ⟨hsane, fun x => ?_, fun x hx => ?_⟩
    · rw [hopen, hconn, h.openFds]
      exact or_left_comm
    · cases (hconn x).mp hx with
      | inl heq =>
        rw [heq]
        exact fun hbase => hfree.2 ((h.openFds fd).mpr (Or.inl hbase))
      | inr hx => exact h.apart x hx

theorem connected_replaced {r : RecvResult} {t : RecvState} {result : RecvCall}
    (hpeer : (fd, peer) ∈ s.sockToPeerMap)
    (hrecv : RecvState.recvPkt { toPeerConnHandler := peer, outFile := s.outFile } r =
      .ok (t, result))
    (hmap : s'.sockToPeerMap = replacePeer fd t.toPeerConnHandler s.sockToPeerMap) :
    Connected x s' ↔ Connected x s ∧ ¬ (x = fd ∧ t.sockHelper.isSockOpen = false) := by
  unfold Connected
  rw [hmap]
  constructor
  · rintro ⟨p, hp, hactive⟩
    cases mem_replacePeer hp with
    | inl hsame =>
      rw [hsame.2] at hactive
      have hown := recvPkt_owns hrecv _ ⟨rfl, hactive⟩
      refine ⟨⟨peer, hsame.1 ▸ hpeer, hown.active⟩, ?_⟩
      intro hclosed
      rw [PeerConnHandler.connActive, hclosed.2] at hactive
      cases hactive
    | inr hother => exact ⟨⟨p, hother.2, hactive⟩, fun hclosed => hother.1 hclosed.1⟩
  · rintro ⟨⟨p, hp, hactive⟩, hkept⟩
    by_cases hx : x = fd
    · refine ⟨t.toPeerConnHandler, by rw [hx]; exact mem_replacePeer_self hpeer, ?_⟩
      cases hopen : t.sockHelper.isSockOpen with
      | true => exact hopen
      | false => exact absurd ⟨hx, hopen⟩ hkept
    · exact ⟨p, mem_replacePeer_of_ne hp hx, hactive⟩

/-- Handling a peer closes its descriptor if it closes the connection, and no other one. -/
theorem Accounts.handled (h : Accounts base s) {r : RecvResult}
    {call : Option (String × UInt16 × PacketRef)} (hsane : Sane s')
    (hcall : s.handleClientCommunications fd r = .ok (s', call)) : Accounts base s' := by
  cases hfound : s.sockToPeerMap.lookup fd with
  | none =>
    rw [handleClientCommunications_of_none hfound] at hcall
    rw [← (Prod.mk.inj (Except.ok.inj hcall)).1]
    exact h
  | some peer =>
    rw [handleClientCommunications_of_lookup hfound] at hcall
    obtain ⟨⟨t, result⟩, hrecv, hs'⟩ := bind_eq_ok.mp hcall
    have hs' := (Prod.mk.inj (Except.ok.inj hs')).1
    have hpeer := mem_of_lookup hfound
    have hconn : ∀ x, Connected x s' ↔
        Connected x s ∧ ¬ (x = fd ∧ t.sockHelper.isSockOpen = false) := by
      intro x
      apply connected_replaced hpeer hrecv
      rw [← hs', released_toP2PurrServer]
    have hopen : ∀ x, x ∈ s'.openFds ↔ x ∈ s.openFds ∧ ¬ (x = peer.sockHelper.sock ∧
        peer.sockHelper.isSockOpen = true ∧ t.sockHelper.isSockOpen = false) := by
      intro x
      rw [← hs', mem_released_iff]
    refine ⟨hsane, fun x => ?_, fun x hx => h.apart x ((hconn x).mp hx).1⟩
    rw [hopen, hconn, h.openFds]
    cases hactive : peer.sockHelper.isSockOpen with
    | false =>
      -- a closed handler stays closed
      have hnot : ¬ Connected fd s := by
        rintro ⟨p, hp, hp'⟩
        rw [← h.sane.unique hpeer hp, PeerConnHandler.connActive, hactive] at hp'
        cases hp'
      simp only [Bool.false_eq_true, false_and, and_false, not_false_eq_true, and_true]
      constructor
      · intro hx
        apply hx.imp_right
        intro hx
        exact ⟨hx, fun hclosed => hnot (hclosed.1 ▸ hx)⟩
      · intro hx
        exact hx.imp_right fun hx => hx.1
    | true =>
      have hown := (h.sane.active fd peer hpeer hactive).1
      have hnot : fd ∉ base := h.apart fd ⟨peer, hpeer, hactive⟩
      rw [hown.sock]
      constructor
      · rintro ⟨hx, hkept⟩
        apply hx.imp_right
        intro hx
        exact ⟨hx, fun hclosed => hkept ⟨hclosed.1, rfl, hclosed.2⟩⟩
      · intro hx
        cases hx with
        | inl hbase => exact ⟨Or.inl hbase, fun hclosed => hnot (hclosed.1 ▸ hbase)⟩
        | inr hx => exact ⟨Or.inr hx.1, fun hclosed => hx.2 ⟨hclosed.1, hclosed.2.2⟩⟩

theorem Accounts.step (h : Accounts base s) (hstep : Step s e s') (hdiscards : e.Discards) :
    Accounts base s' := by
  have hsane := h.sane.step hstep
  cases hstep with
  | handleNewClient hfree hcall =>
    exact h.admits hsane hfree (handleNewClient_admits hfree hdiscards hcall)
  | connectToPeer hfree hcall =>
    exact h.admits hsane hfree (connectToPeer_admits hfree hdiscards hcall)
  | handleClientCommunications hcall => exact h.handled hsane hcall
  | @removeDisconnectedPeers order horder =>
    have hconn : ∀ x, Connected x (s.removeDisconnectedPeers order) ↔ Connected x s := by
      intro x
      constructor
      · intro ⟨p, hp, hactive⟩
        exact ⟨p, ((mem_removed h.sane.running horder).mp hp).1, hactive⟩
      · intro ⟨p, hp, hactive⟩
        exact ⟨p, (mem_removed h.sane.running horder).mpr ⟨hp, hactive⟩, hactive⟩
    have hopen : (s.removeDisconnectedPeers order).openFds = s.openFds := by
      unfold removeDisconnectedPeers
      split <;> rfl
    refine ⟨hsane, fun x => ?_, fun x hx => h.apart x ((hconn x).mp hx)⟩
    rw [hopen, hconn, h.openFds]

theorem Started.accounts (h : Started s) : Accounts s.openFds s := by
  have hnone : ∀ x, ¬ Connected x s := by
    intro x ⟨p, hp, _⟩
    rw [h.start.2.2.1] at hp
    cases hp
  exact ⟨h.sane, fun x => by simp [hnone x], fun x hx => absurd hx (hnone x)⟩

theorem accounts {ts : List (Transition Process Event)} (h₀ : Started s₀)
    (hrun : Run Step s₀ ts s) (hdiscards : ∀ t ∈ ts, t.event.Discards) :
    Accounts s₀.openFds s :=
  (hrun.keeps (Accounts s₀.openFds) (fun t => t.event.Discards) h₀.accounts
    (fun _ _ _ hs hstep hd => hs.step hstep hd) hdiscards).1

/-- As long as the destructor closes the sockets that are not kept, a descriptor is open exactly
when it was open at the start or a connected peer has it: none is leaked, and none is closed that
belongs to someone else. -/
theorem open_iff {ts : List (Transition Process Event)} (h₀ : Started s₀)
    (hrun : Run Step s₀ ts s) (hdiscards : ∀ t ∈ ts, t.event.Discards) (x : ℤ) :
    x ∈ s.openFds ↔ x ∈ s₀.openFds ∨ Connected x s :=
  (accounts h₀ hrun hdiscards).openFds x

theorem run_left : Run Step listener
    [⟨listener, ⟨.handleNewClient { sock := 4 }, some (4, newcomer 4)⟩, listener.joined 4⟩,
      ⟨listener.joined 4, ⟨.handleClientCommunications 4 (.closed {}), none⟩,
        (listener.joined 4).left 4⟩] ((listener.joined 4).left 4) := by
  have hnil : Run Step listener [] listener := Run.nil
  exact (hnil.snoc (step_joined 4 ⟨by decide, by decide⟩ (by decide))).snoc (step_left 4 rfl)

theorem open_iff_left : 4 ∈ ((listener.joined 4).left 4).openFds ↔
    4 ∈ listener.openFds ∨ Connected 4 ((listener.joined 4).left 4) := by
  apply open_iff listener_started run_left
  simp [Event.Discards, CloseResult.succeeds_default]

variable {close destroy : ℤ → CloseResult} {l : List (ℤ × PeerConnHandler)}

def Held (x : ℤ) (s : Process) : Prop :=
  x ∉ s.openFds ∨ ∃ p, (x, p) ∈ s.sockToPeerMap ∧ p.Owns x

theorem closePeer_held {e : ℤ × PeerConnHandler} (he : e.1 = x → e.2.Owns x) (h : Held x s) :
    Held x (s.closePeer e k) := by
  unfold Held closePeer
  rw [mem_released_iff, released_toP2PurrServer]
  cases h with
  | inl hclosed => exact Or.inl fun hx => hclosed hx.1
  | inr hentry =>
    obtain ⟨p, hp, hown⟩ := hentry
    by_cases hx : e.1 = x
    · have hown := he hx
      cases hopen : (e.2.close k).2.sockHelper.isSockOpen with
      | false => exact Or.inl fun h => h.2 ⟨hown.sock.symm, hown.active, rfl⟩
      | true =>
        -- `close` has failed, and the handler is the same but for its flags
        refine Or.inr ⟨(e.2.close k).2, by rw [hx]; exact mem_replacePeer_self hp, ?_, hopen⟩
        exact (SocketHelper.closeSock_sock hopen).1.trans hown.sock
    · exact Or.inr ⟨p, mem_replacePeer_of_ne hp (Ne.symm hx), hown⟩

theorem closePeers_held (hl : ∀ e ∈ l, e.1 = x → e.2.Owns x) (h : Held x s) :
    Held x (l.foldl (fun s e => s.closePeer e (close e.1)) s) := by
  induction l generalizing s with
  | nil => exact h
  | cons e l ih =>
    exact ih (fun e' he' => hl e' (List.mem_cons_of_mem e he'))
      (closePeer_held (hl e List.mem_cons_self) h)

theorem closePeers_openFds (hx : x ∈ (l.foldl (fun s e => s.closePeer e (close e.1)) s).openFds) :
    x ∈ s.openFds := by
  induction l generalizing s with
  | nil => exact hx
  | cons e l ih => exact (mem_released_iff.mp (ih hx)).1

theorem keys_closePeers (close : ℤ → CloseResult) (l : List (ℤ × PeerConnHandler)) (s : Process) :
    (l.foldl (fun s e => s.closePeer e (close e.1)) s).keys = s.keys := by
  induction l generalizing s with
  | nil => rfl
  | cons e l ih =>
    rw [List.foldl_cons, ih]
    unfold keys closePeer
    rw [released_toP2PurrServer, map_fst_replacePeer]

theorem destroyPeers_openFds (hl : ∀ e ∈ l, (destroy e.1).Succeeds)
    (hx : x ∈ (l.foldl (fun s e => s.destroy e.2.sockHelper (destroy e.1)) s).openFds) :
    x ∈ s.openFds ∧ ∀ e ∈ l, ¬ e.2.Owns x := by
  induction l generalizing s with
  | nil => exact ⟨hx, by simp⟩
  | cons e l ih =>
    obtain ⟨hnext, hothers⟩ := ih (fun e' he' => hl e' (List.mem_cons_of_mem e he')) hx
    obtain ⟨hmem, hkept⟩ := mem_released_iff.mp hnext
    refine ⟨hmem, ?_⟩
    intro e' he'
    cases List.mem_cons.mp he' with
    | inl heq =>
      rw [heq]
      intro hown
      exact hkept ⟨hown.sock.symm, hown.active,
        SocketHelper.closeSock_of_succeeds (hl e List.mem_cons_self)⟩
    | inr he' => exact hothers e' he'

theorem closeAllConnections_openFds (h : Accounts base s)
    (hdestroy : ∀ fd ∈ s.keys, (destroy fd).Succeeds) :
    x ∈ ({ s with isLocalServerRunning := false }.closeAllConnections close destroy).openFds ↔
      x ∈ base := by
  constructor
  · intro hx
    have hsucceeds : ∀ e ∈ (s.sockToPeerMap.foldl (fun (s : Process) e =>
        s.closePeer e (close e.1))
        { s with isLocalServerRunning := false }).sockToPeerMap, (destroy e.1).Succeeds := by
      intro e he
      apply hdestroy
      have hkeys := keys_closePeers close s.sockToPeerMap
        { s with isLocalServerRunning := false }
      exact hkeys ▸ List.mem_map_of_mem he
    obtain ⟨hleft, hnone⟩ := destroyPeers_openFds hsucceeds hx
    have hbefore := closePeers_openFds (s := { s with isLocalServerRunning := false }) hleft
    apply ((h.openFds x).mp hbefore).resolve_right
    intro ⟨p, hp, hactive⟩
    -- the entry of a connected peer owns its descriptor until it is closed
    have howns : ∀ e ∈ s.sockToPeerMap, e.1 = x → e.2.Owns x := by
      intro e he hfst
      have hsame := h.sane.unique hp (hfst ▸ he : (x, e.2) ∈ s.sockToPeerMap)
      rw [← hsame]
      exact (h.sane.active x p hp hactive).1
    have hheld := @closePeers_held { s with isLocalServerRunning := false } x close _ howns
      (Or.inr ⟨p, hp, (h.sane.active x p hp hactive).1⟩)
    cases hheld with
    | inl hclosed => exact hclosed hleft
    | inr hentry =>
      obtain ⟨q, hq, hown⟩ := hentry
      exact hnone _ hq hown
  · intro hbase
    apply @closeAllConnections_keeps { s with isLocalServerRunning := false } _ _ _ _
      ((h.openFds x).mpr (Or.inl hbase))
    intro e he hactive heq
    have hown := h.sane.active e.1 e.2 he hactive
    rw [hown.1.sock] at heq
    exact h.apart x ⟨e.2, heq ▸ he, hactive⟩ hbase

theorem stop_closes (h : Accounts base s) (hopen : s.serverSockHelper.isSockOpen = true)
    (hdestroy : ∀ fd ∈ s.keys, (destroy fd).Succeeds) (hk : k.Succeeds) :
    (s.stop close destroy k).1 = true ∧ ∀ x, x ∈ (s.stop close destroy k).2.openFds ↔
      x ∈ base ∧ x ≠ s.serverSockHelper.sock := by
  have hclosed := SocketHelper.closeSock_of_succeeds (s := s.serverSockHelper) hk
  have hresult := SocketHelper.closeSock_result.mpr hclosed
  obtain ⟨hfst, -⟩ := stop_spec s close destroy k
  refine ⟨hfst.trans hresult, ?_⟩
  intro x
  have hserver := closeAllConnections_server { s with isLocalServerRunning := false } close destroy
  have hsock := congrArg P2PurrServer.serverSockHelper hserver
  have hconns := @closeAllConnections_openFds s x base close destroy h hdestroy
  have hlistening : x ∈ (s.stop close destroy k).2.openFds ↔
      x ∈ base ∧ ¬ (x = s.serverSockHelper.sock ∧ s.serverSockHelper.isSockOpen = true ∧
        (s.serverSockHelper.closeSock k).2.isSockOpen = false) := by
    unfold stop
    dsimp only at hsock ⊢
    rw [hsock]
    generalize s.serverSockHelper.closeSock k = result at hresult
    obtain ⟨closed, helper⟩ := result
    have hclosed' : closed = true := hresult
    rw [hclosed']
    simp only [↓reduceIte]
    rw [mem_released_iff, ← hconns]
  rw [hlistening]
  simp [hopen, hclosed]

theorem started_listening {host : String} {port : UInt16} {a : Setup} {openFds : List ℤ}
    {s₁ : Process} (hcreate : create host port a openFds = .ok s₁)
    (hstart : s₁.start true true = .ok s) :
    s.serverSockHelper.sock = a.sock ∧ s.serverSockHelper.isSockOpen = true ∧
      s.openFds = a.sock :: openFds := by
  unfold create at hcreate
  cases hhelper : SocketHelper.create host port (-1) a with
  | error k => simp [hhelper] at hcreate
  | ok helper =>
    have hmade := SocketHelper.create_ok hhelper
    simp only [hhelper] at hcreate
    split at hcreate
    · cases hcreate
    · split at hcreate
      · cases hcreate
      · rw [← Except.ok.inj hcreate] at hstart
        rw [← Except.ok.inj hstart]
        exact ⟨hmade.1, hmade.2, rfl⟩

theorem listening_of_run {ts : List (Transition Process Event)} (h₀ : Sane s₀)
    (hrun : Run Step s₀ ts s) : s.serverSockHelper = s₀.serverSockHelper := by
  refine (hrun.invariant (fun s => Sane s ∧ s.serverSockHelper = s₀.serverSockHelper) ⟨h₀, rfl⟩
    ?_).1.2
  intro s e s' hs hstep
  exact ⟨hs.1.step hstep, (hstep.change hs.1.running).1.listening.trans hs.2⟩

/-- From the constructor to `stop`: whatever connections come and go in between, and however their
sockets are closed, in the end exactly those descriptors are open that were open before, as long as
the destructors and the listening socket come off. -/
theorem stop_restores {host : String} {port : UInt16} {a : Setup} {openFds : List ℤ}
    {s₁ : Process} {ts : List (Transition Process Event)} (hsock : 0 ≤ a.sock)
    (hfree : a.sock ∉ openFds) (hcreate : create host port a openFds = .ok s₁)
    (hstart : s₁.start true true = .ok s₀) (hrun : Run Step s₀ ts s)
    (hdiscards : ∀ t ∈ ts, t.event.Discards) (hdestroy : ∀ fd ∈ s.keys, (destroy fd).Succeeds)
    (hk : k.Succeeds) :
    (s.stop close destroy k).1 = true ∧
      ∀ x, x ∈ (s.stop close destroy k).2.openFds ↔ x ∈ openFds := by
  have h₀ : Started s₀ := ⟨host, port, a, openFds, s₁, hsock, hfree, hcreate, hstart⟩
  obtain ⟨hlistening, hopen, hopenFds⟩ := started_listening hcreate hstart
  have hsame := listening_of_run h₀.sane hrun
  have haccounts := accounts h₀ hrun hdiscards
  have hstillOpen : s.serverSockHelper.isSockOpen = true := by
    rw [hsame]
    exact hopen
  obtain ⟨hstopped, hclosed⟩ : (s.stop close destroy k).1 = true ∧ ∀ x,
      x ∈ (s.stop close destroy k).2.openFds ↔ x ∈ s₀.openFds ∧ x ≠ s.serverSockHelper.sock :=
    stop_closes haccounts hstillOpen hdestroy hk
  refine ⟨hstopped, ?_⟩
  intro x
  rw [hclosed, hsame, hlistening, hopenFds, List.mem_cons]
  constructor
  · intro h
    exact h.1.resolve_left h.2
  · intro hx
    refine ⟨Or.inr hx, ?_⟩
    intro heq
    exact hfree (heq ▸ hx)

/-- A client has joined, and its `shutdown` fails when it is closed. -/
theorem stop_restores_joined :
    ((listener.joined 4).stop (fun _ => { shutdown := false }) (fun _ => {}) {}).1 = true ∧
      ∀ x, x ∈ ((listener.joined 4).stop (fun _ => { shutdown := false }) (fun _ => {})
        {}).2.openFds ↔ x ∈ ([] : List ℤ) := by
  have hnil : Run Step listener [] listener := Run.nil
  have hrun := hnil.snoc (step_joined 4 ⟨by decide, by decide⟩ (by decide))
  exact @stop_restores _ _ _ _ _ "127.0.0.1" 8000 { sock := 3 } [] _ _ (by decide)
    (by simp) rfl rfl hrun (by simp [Event.Discards, CloseResult.succeeds_default])
    (fun _ _ => CloseResult.succeeds_default) CloseResult.succeeds_default

end Process

end P2Purr
