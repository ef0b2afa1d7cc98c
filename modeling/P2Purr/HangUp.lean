import P2Purr.Shutdown

namespace P2Purr
open Memory Runs

def PeerConnHandler.Ready (peer : PeerConnHandler) : Prop :=
  ∃ c, RecvState.Holds { toPeerConnHandler := peer } c

namespace RecvState

variable {s s' : RecvState} {c : Conn} {r : RecvResult} {call : RecvCall}

theorem Holds.withOutFile (h : Holds s c) (o : OutFile) : Holds { s with outFile := o } c :=
  ⟨h.tracks, h.index, h.size, h.room⟩

theorem ready_iff : s.toPeerConnHandler.Ready ↔ ∃ c, Holds s c :=
  exists_congr fun _ => ⟨fun h => h.withOutFile s.outFile, fun h => h.withOutFile {}⟩

/-- With bytes that `recv` cannot have given, the call does not come back. -/
theorem recvPkt_of_not_accepts {bs : List Byte} (h : Holds s c)
    (hopen : s.sockHelper.isSockOpen = true) (ha : ¬ s.Accepts (.data bs)) :
    if bs = [] then s.recvPkt (.data bs) = .error .hang
    else ∃ f, s.recvPkt (.data bs) = .error (.fault f) := by
  split
  · rename_i hnil
    rw [recvPkt, hnil, SocketHelper.receive_data_nil hopen h.maxMsgLen_pos]
  · rename_i hne
    have hlong : s.recvBuffer.size < s.currBuffIdx + bs.length := by
      rw [h.size]
      by_contra hfits
      exact ha ⟨hopen, hne, by omega⟩
    obtain ⟨f, hf⟩ := SocketHelper.receive_data_faults hopen h.maxMsgLen_pos hne hlong
    exact ⟨f, by rw [recvPkt, hf]⟩

theorem accepts_of_ok (h : Holds s c) (hopen : s.sockHelper.isSockOpen = true)
    (hcall : s.recvPkt r = .ok (s', call)) : s.Accepts r := by
  cases r with
  | closed k => trivial
  | failed => exact hopen
  | data bs =>
    by_contra ha
    have hstops := recvPkt_of_not_accepts h hopen ha
    split at hstops
    · simp [hstops] at hcall
    · obtain ⟨f, hf⟩ := hstops
      simp [hf] at hcall

theorem recvPkt_ready (h : s.toPeerConnHandler.Ready) (hcall : s.recvPkt r = .ok (s', call)) :
    s'.toPeerConnHandler.Ready := by
  obtain ⟨c, hc⟩ := ready_iff.mp h
  apply ready_iff.mpr
  cases hopen : s.sockHelper.isSockOpen with
  | false =>
    rw [recvPkt_of_not_open hopen] at hcall
    rw [← (Prod.mk.inj (Except.ok.inj hcall)).1]
    exact ⟨c, hc⟩
  | true => exact ⟨c.next r, recvPkt_next hc (accepts_of_ok hc hopen hcall) hcall⟩

end RecvState

namespace PeerConnHandler

variable {host : String} {port : UInt16} {sock : ℤ} {a : Setup} {c : Connecting}
  {peer peer' : PeerConnHandler}

theorem create_ready (h : create host port sock a = .ok peer) : peer.Ready := by
  unfold create at h
  cases hhelper : SocketHelper.create host port sock a with
  | error k => simp [hhelper] at h
  | ok helper =>
    simp only [hhelper] at h
    split at h
    · cases h
    · split at h
      · cases h
      · have hmade := access_eq_ok.mp h
        have hopen := (SocketHelper.create_ok hhelper).2
        rw [← ofSocket_sockHelper hmade] at hopen
        exact ⟨{}, RecvState.Fresh.holds ⟨⟨host, port, sock, helper, hmade⟩, hopen⟩⟩

theorem connect_ready (h : peer.Ready) (hconn : peer.connect c = .ok peer') : peer'.Ready := by
  obtain ⟨conn, hholds⟩ := h
  obtain ⟨helper, -, hpeer'⟩ := bind_eq_ok.mp hconn
  rw [← Except.ok.inj hpeer']
  exact ⟨conn, hholds.tracks, hholds.index, hholds.size, hholds.room⟩

end PeerConnHandler

namespace Process

variable {s s' : Process} {fd x : ℤ} {peer p : PeerConnHandler} {k : CloseResult}
  {made : Option (ℤ × PeerConnHandler)}

def AllReady (s : Process) : Prop := ∀ e ∈ s.sockToPeerMap, e.2.Ready

theorem mem_enter (h : (x, p) ∈ (s.enter fd peer k).sockToPeerMap) :
    p = peer ∨ (x, p) ∈ s.sockToPeerMap := by
  cases hold : s.sockToPeerMap.lookup fd with
  | none =>
    rw [enter_of_none hold] at h
    exact (List.mem_cons.mp h).imp_left fun heq => (Prod.mk.inj heq).2
  | some old =>
    rw [enter_of_some hold, destroy_toP2PurrServer] at h
    exact Or.inr h

theorem AllReady.enter (h : AllReady s) (hpeer : peer.Ready) : AllReady (s.enter fd peer k) := by
  intro e he
  cases mem_enter he with
  | inl heq => exact heq ▸ hpeer
  | inr hmem => exact h e hmem

theorem AllReady.handleNewClient {a : Accepting} (h : AllReady s)
    (hcall : s.handleNewClient a = .ok (s', made)) : AllReady s' := by
  obtain ⟨-, -, peer, hpeer, hends⟩ := handleNewClient_ok hcall
  cases hends with
  | inl hrefused =>
    rw [hrefused.2.2]
    simpa [AllReady] using h
  | inr hentered =>
    rw [hentered.2.2]
    exact AllReady.enter h (PeerConnHandler.create_ready hpeer)

theorem AllReady.connectToPeer {host : String} {port : UInt16} {a : Dialling} (h : AllReady s)
    (hcall : s.connectToPeer host port a = .ok (s', made)) : AllReady s' := by
  obtain hrefused | ⟨e, helper, -, -, hs'⟩ | ⟨-, peer, connected, hpeer, hconn, -, hs'⟩ :=
    connectToPeer_ok hcall
  · rw [hrefused.2]
    exact h
  · rw [hs']
    simpa [AllReady] using h
  · rw [hs']
    have hready := PeerConnHandler.connect_ready (PeerConnHandler.create_ready hpeer) hconn
    exact AllReady.enter h hready

theorem AllReady.handleClientCommunications {r : RecvResult}
    {call : Option (String × UInt16 × PacketRef)} (h : AllReady s)
    (hcall : s.handleClientCommunications fd r = .ok (s', call)) : AllReady s' := by
  cases hold : s.sockToPeerMap.lookup fd with
  | none =>
    rw [handleClientCommunications_of_none hold] at hcall
    rw [← (Prod.mk.inj (Except.ok.inj hcall)).1]
    exact h
  | some peer =>
    rw [handleClientCommunications_of_lookup hold] at hcall
    obtain ⟨⟨t, result⟩, hrecv, hs'⟩ := bind_eq_ok.mp hcall
    rw [← (Prod.mk.inj (Except.ok.inj hs')).1]
    intro e he
    rw [released_toP2PurrServer] at he
    cases mem_replacePeer he with
    | inl hsame =>
      rw [hsame.2]
      exact RecvState.recvPkt_ready (h (fd, peer) (mem_of_lookup hold)) hrecv
    | inr hother => exact h e hother.2

theorem AllReady.step {e : Event} (hrun : s.isLocalServerRunning = true) (h : AllReady s)
    (hstep : Step s e s') : AllReady s' := by
  cases hstep with
  | handleNewClient _ hcall => exact h.handleNewClient hcall
  | connectToPeer _ hcall => exact h.connectToPeer hcall
  | handleClientCommunications hcall => exact h.handleClientCommunications hcall
  | removeDisconnectedPeers horder =>
    intro e he
    simp only [removeDisconnectedPeers, hrun, sweep_eq, Bool.not_true, Bool.false_eq_true,
      ↓reduceIte] at he
    exact h e (horder.mem_iff.mp (List.mem_filter.mp he).1)

/-- A server that says it is running: as `start` left it, after an operation, or after a `stop` that
failed. -/
inductive Serving : Process → Prop
  | started {s : Process} (h : Started s) : Serving s
  | step {s s' : Process} {e : Event} (h : Serving s) (hstep : Step s e s') : Serving s'
  | stopped {s s' : Process} {close destroy : ℤ → CloseResult} {k : CloseResult} (h : Serving s)
      (hstop : s.stop close destroy k = (false, s')) : Serving s'

theorem Serving.invariant (h : Serving s) : Sane s ∧ AllReady s := by
  induction h with
  | started h₀ => exact ⟨h₀.sane, by simp [AllReady, h₀.start.2.2.1]⟩
  | step _ hstep ih => exact ⟨ih.1.step hstep, ih.2.step ih.1.running hstep⟩
  | stopped _ hstop ih =>
    have hfailed := stop_failed ih.1 hstop
    exact ⟨hfailed.1, by simp [AllReady, hfailed.2.1]⟩

/-- Only `remove_disconnected_peers` drops an entry, and no other operation revives one. -/
theorem disconnected_step {e : Event} (h : Sane s) (hgone : fd ∈ s.disconnected)
    (hstep : Step s e s') (hop : ¬ e.op.IsRemoval) : fd ∈ s'.disconnected := by
  obtain ⟨gone, hmem, hclosed⟩ := mem_disconnected.mp hgone
  apply mem_disconnected.mpr
  cases (hstep.change h.running).2 with
  | nothing hmap _ _ => exact ⟨gone, hmap ▸ hmem, hclosed⟩
  | entered _ _ _ hmap _ _ => exact ⟨gone, hmap ▸ List.mem_cons_of_mem _ hmem, hclosed⟩
  | met _ _ _ hmap _ _ => exact ⟨gone, hmap ▸ hmem, hclosed⟩
  | removed _ _ _ _ => exact absurd trivial hop
  | @handled op fd' peer peer' hold hmap _ hown _ =>
    by_cases hfd : fd = fd'
    · -- the handler of the entry itself: a closed socket is not opened again
      rw [← hfd] at hold hmap
      rw [h.unique hmem hold] at hclosed
      refine ⟨peer', ?_, ?_⟩
      · rw [hmap]
        exact mem_replacePeer_self hold
      · rw [← Bool.not_eq_true]
        intro hactive
        have howns := hown _ ⟨rfl, hactive⟩
        rw [howns.active] at hclosed
        cases hclosed
    · refine ⟨gone, ?_, hclosed⟩
      rw [hmap]
      exact mem_replacePeer_of_ne hmem hfd

/-- However many other steps come before it, `remove_disconnected_peers` drops the entry of `fd`,
and none of a connected peer. -/
def DroppedNext (fd : ℤ) (s : Process) : Prop :=
  ∀ ts s', Run Step s ts s' → (∀ t ∈ ts, ¬ t.event.op.IsRemoval) →
    ∀ order, order.Perm s'.sockToPeerMap →
      fd ∉ (s'.removeDisconnectedPeers order).keys ∧
      ∀ e ∈ s'.sockToPeerMap, e.2.connActive = true →
        e ∈ (s'.removeDisconnectedPeers order).sockToPeerMap

/-- The peer of `fd` is closed, and goes with the next `remove_disconnected_peers`. -/
def Forgotten (fd : ℤ) (s : Process) : Prop :=
  (∃ gone, s.sockToPeerMap.lookup fd = some gone ∧ gone.sockHelper.isSockOpen = false ∧
    gone.sockHelper.sock = -1) ∧ DroppedNext fd s

theorem mem_removed (hrun : s.isLocalServerRunning = true) {order : List (ℤ × PeerConnHandler)}
    {e : ℤ × PeerConnHandler} (horder : order.Perm s.sockToPeerMap) :
    e ∈ (s.removeDisconnectedPeers order).sockToPeerMap ↔
      e ∈ s.sockToPeerMap ∧ e.2.connActive = true := by
  simp [removeDisconnectedPeers, hrun, sweep_eq, horder.mem_iff]

theorem droppedNext_of_gone (h : Sane s) (hgone : fd ∈ s.disconnected) : DroppedNext fd s := by
  intro ts s' hrun hops order horder
  have hkept := (hrun.keeps (fun s => Sane s ∧ fd ∈ s.disconnected)
    (fun t => ¬ t.event.op.IsRemoval) ⟨h, hgone⟩
    (fun _ _ _ hs hstep hop => ⟨hs.1.step hstep, disconnected_step hs.1 hs.2 hstep hop⟩) hops).1
  obtain ⟨gone, hmem, hclosed⟩ := mem_disconnected.mp hkept.2
  refine ⟨?_, fun e he hactive => (mem_removed hkept.1.running horder).mpr ⟨he, hactive⟩⟩
  intro hkey
  obtain ⟨⟨x, p⟩, he, hfst⟩ := List.mem_map.mp hkey
  obtain ⟨hp, hactive⟩ := (mem_removed hkept.1.running horder).mp he
  rw [show x = fd from hfst] at hp
  rw [← hkept.1.unique hmem hp] at hactive
  rw [hclosed] at hactive
  cases hactive

theorem Sane.lookup (h : Sane s) (hp : (fd, peer) ∈ s.sockToPeerMap) :
    s.sockToPeerMap.lookup fd = some peer := by
  cases hfound : s.sockToPeerMap.lookup fd with
  | none => exact absurd (mem_keys hp) (not_mem_of_lookup hfound)
  | some p => rw [h.unique hp (mem_of_lookup hfound)]

theorem lookup_replacePeer {l : List (ℤ × PeerConnHandler)} {old : PeerConnHandler}
    (h : l.lookup fd = some old) : (replacePeer fd peer l).lookup fd = some peer := by
  obtain ⟨l₁, l₂, hl, hne⟩ := List.lookup_eq_some_iff.mp h
  apply List.lookup_eq_some_iff.mpr
  refine ⟨replacePeer fd peer l₁, replacePeer fd peer l₂, by simp [hl, replacePeer], ?_⟩
  intro e he
  obtain ⟨e', he', heq⟩ := List.mem_map.mp he
  have hfst : e'.1 ≠ fd := by
    intro hfd
    simpa [hfd] using hne e' he'
  rw [if_neg hfst] at heq
  rw [← heq]
  exact hne e' he'

theorem handle_closed (h : Sane s) (hready : AllReady s) (hp : (fd, peer) ∈ s.sockToPeerMap)
    (hactive : peer.connActive = true) (k : CloseResult) :
    ∃ s₁ call, s.handleClientCommunications fd (.closed k) = .ok (s₁, call) ∧
      s₁.sockToPeerMap.lookup fd =
        some { peer with sockHelper := (peer.sockHelper.closeSock k).2 } := by
  obtain ⟨c, hc⟩ := (@RecvState.ready_iff
    { toPeerConnHandler := peer, outFile := s.outFile }).mp (hready _ hp)
  have hfound := h.lookup hp
  rw [handleClientCommunications_of_lookup hfound, RecvState.recvPkt_closed hc hactive, ok_bind]
  exact ⟨_, _, rfl, by simpa using lookup_replacePeer hfound⟩

/-- Once `recv` has given 0 for a peer and its `close` succeeds, the peer is forgotten exactly when
its socket needs no `shutdown` any more or `shutdown` succeeds. -/
theorem forgotten_iff (h : Serving s) (hp : (fd, peer) ∈ s.sockToPeerMap)
    (hactive : peer.connActive = true) (hclose : k.close = true) :
    ∃ s₁ call, s.handleClientCommunications fd (.closed k) = .ok (s₁, call) ∧
      (Forgotten fd s₁ ↔ peer.sockHelper.isSockInit = false ∨ k.shutdown = true) := by
  obtain ⟨hsane, hready⟩ := h.invariant
  obtain ⟨s₁, call, hcall, hfound⟩ := handle_closed hsane hready hp hactive k
  have hstep : Step s ⟨.handleClientCommunications fd (.closed k), none⟩ s₁ :=
    Step.handleClientCommunications hcall
  have hclosed := @SocketHelper.closeSock_iff _ k hactive
  simp only [hclose, and_true] at hclosed
  refine ⟨s₁, call, hcall, ?_⟩
  rw [← hclosed]
  constructor
  · intro hforgot
    obtain ⟨gone, hgone, hopen, -⟩ := hforgot.1
    rw [hfound] at hgone
    rw [← Option.some.inj hgone] at hopen
    exact hopen
  · intro hopen
    refine ⟨⟨_, hfound, hopen, SocketHelper.closeSock_closed hactive hopen⟩, ?_⟩
    apply droppedNext_of_gone (hsane.step hstep)
    exact mem_disconnected.mpr ⟨_, mem_of_lookup hfound, hopen⟩

def outgoing (fd : ℤ) : PeerConnHandler where
  host := "127.0.0.1"
  port := 9000
  sockHelper :=
    { sock := fd, host := "127.0.0.1", port := 9000, isSockOpen := true, isSockInit := true }
  recvBuffer := (newcomer fd).recvBuffer
  clientConn := true
  serverConn := true

def dialled (s : Process) (fd : ℤ) : Process :=
  { s with openFds := fd :: s.openFds }.enter fd (outgoing fd) {}

theorem step_dialled (fd : ℤ) (hfree : s.Free fd)
    (hlen : s.sockToPeerMap.length < s.maxOutboundConnections) :
    Step s ⟨.connectToPeer "127.0.0.1" 9000 { setup := { sock := fd } }, some (fd, outgoing fd)⟩
      (s.dialled fd) := by
  have hnonneg := hfree.1
  have hcreate : PeerConnHandler.create "127.0.0.1" 9000 (-1) { sock := fd } =
      .ok { outgoing fd with
        sockHelper := { (outgoing fd).sockHelper with isSockInit := false }
        clientConn := false } := by
    simp only [PeerConnHandler.create, SocketHelper.create, ↓reduceIte,
      if_neg (show fd ≠ -1 by omega)]
    rfl
  apply Step.connectToPeer hfree
  simp only [connectToPeer, if_neg (Nat.not_le.mpr hlen), hcreate, PeerConnHandler.connect,
    SocketHelper.connectToHost, outgoing, if_neg (show ¬ fd ≤ -1 by omega)]
  rfl

theorem serving_dialled : Serving (listener.dialled 4) :=
  Serving.step (Serving.started listener_started)
    (step_dialled 4 ⟨by decide, by decide⟩ (by decide))

theorem mem_dialled : (4, outgoing 4) ∈ (listener.dialled 4).sockToPeerMap :=
  List.mem_singleton_self _

theorem forgotten_outgoing :
    ∃ s₁ call, (listener.dialled 4).handleClientCommunications 4 (.closed {}) = .ok (s₁, call) ∧
      Forgotten 4 s₁ := by
  obtain ⟨s₁, call, hcall, hiff⟩ :=
    forgotten_iff (k := {}) serving_dialled mem_dialled rfl rfl
  exact ⟨s₁, call, hcall, hiff.mpr (Or.inr rfl)⟩

/-- A peer that was connected to has hung up, and `shutdown` fails: its socket stays open. -/
theorem not_forgotten_shutdown :
    Serving (listener.dialled 4) ∧ ∃ s₁ call,
      (listener.dialled 4).handleClientCommunications 4 (.closed { shutdown := false }) =
        .ok (s₁, call) ∧ ¬ Forgotten 4 s₁ := by
  obtain ⟨hsane, hready⟩ := serving_dialled.invariant
  obtain ⟨s₁, call, hcall, hfound⟩ :=
    handle_closed hsane hready mem_dialled rfl { shutdown := false }
  refine ⟨serving_dialled, s₁, call, hcall, ?_⟩
  intro hforgot
  obtain ⟨gone, hgone, hopen, -⟩ := hforgot.1
  rw [hfound] at hgone
  rw [← Option.some.inj hgone] at hopen
  cases hopen

end Process

end P2Purr
