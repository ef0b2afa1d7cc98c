import P2Purr.Sending
import P2Purr.ServerRuns

namespace P2Purr
open Memory Runs

def PeerConnHandler.IsAt (host : String) (port : UInt16) (peer : PeerConnHandler) : Prop :=
  peer.host = host ∧ peer.port = port

instance (host : String) (port : UInt16) : DecidablePred (PeerConnHandler.IsAt host port) :=
  fun _ => instDecidableAnd

namespace Process

/-- The entries whose handler is asked to send, and how the call ends: what has gone out on each
descriptor. -/
structure RouteCall where
  offered : List (ℤ × PeerConnHandler) := []
  ended : Except Halt (ℤ → Sent)

/-- `for(auto& [fd, peer] : sock_to_peer_map)`, with the table in the order of its iterator. -/
def sendPktToPeer (k : ℤ → Kernel) (sent : ℤ → Sent) (pkt : Packet) (host : String)
    (port : UInt16) : List (ℤ × PeerConnHandler) → RouteCall
  | [] =>
    -- `msg`, which the exception points into, is gone when the handler prints `e.what()`
    { ended := .error (.fault .afterFree) }
  | e :: rest =>
    if e.2.IsAt host port then
      let fd := e.2.sockHelper.sock
      { offered := [e]
        ended := do
          -- `send_pkt` swallows its exception, so that none is seen here
          let (out, _) ← PeerConnHandler.sendPkt (k fd) pkt (sent fd)
          pure (Function.update sent fd out) }
    else sendPktToPeer k sent pkt host port rest

variable {s s₀ : Process} {k : ℤ → Kernel} {sent : ℤ → Sent} {pkt : Packet} {host : String}
  {port : UInt16} {order : List (ℤ × PeerConnHandler)} {e : ℤ × PeerConnHandler}

/-- The packet is offered to one peer, which is connected and has this host and port, and the call
does what `send_pkt` does on the descriptor of this peer. -/
def Routed (s : Process) (k : ℤ → Kernel) (sent : ℤ → Sent) (pkt : Packet) (host : String)
    (port : UInt16) (call : RouteCall) : Prop :=
  ∃ e ∈ s.sockToPeerMap, call.offered = [e] ∧ e.2.IsAt host port ∧ e.2.connActive = true ∧
    e.1 ∈ s.openFds ∧
    call.ended = PeerConnHandler.sendPkt (k e.1) pkt (sent e.1) >>=
      fun r => .ok (Function.update sent e.1 r.1)

theorem offered_eq (order : List (ℤ × PeerConnHandler)) :
    (sendPktToPeer k sent pkt host port order).offered =
      (order.find? fun e => decide (e.2.IsAt host port)).toList := by
  induction order with
  | nil => rfl
  | cons e rest ih =>
    unfold sendPktToPeer
    by_cases he : e.2.IsAt host port
    · simp [he]
    · simp [he, ih]

theorem ended_eq (hfind : order.find? (fun e => decide (e.2.IsAt host port)) = some e) :
    (sendPktToPeer k sent pkt host port order).ended =
      PeerConnHandler.sendPkt (k e.2.sockHelper.sock) pkt (sent e.2.sockHelper.sock) >>=
        fun r => .ok (Function.update sent e.2.sockHelper.sock r.1) := by
  induction order with
  | nil => cases hfind
  | cons x rest ih =>
    unfold sendPktToPeer
    by_cases hx : x.2.IsAt host port
    · rw [List.find?_cons_of_pos (by simpa using hx)] at hfind
      rw [if_pos hx, Option.some.inj hfind]
      rfl
    · rw [List.find?_cons_of_neg (by simpa using hx)] at hfind
      rw [if_neg hx]
      exact ih hfind

/-- Of a packet that can be read, the kernel is offered the bytes on the descriptor of the peer. -/
theorem Routed.goes_out {call : RouteCall} (h : Routed s k sent pkt host port call) {f : List Byte}
    (hpacket : pkt.getPacket = .ok f) (hlen : pkt.pktLen = f.length) :
    ∃ e ∈ s.sockToPeerMap, e.2.IsAt host port ∧ e.2.connActive = true ∧
      call.ended = .ok (Function.update sent e.1
        { bytes := (sent e.1).bytes ++ f.take ((k e.1).takes (sent e.1).calls f.length).1
          calls := (sent e.1).calls + ((k e.1).takes (sent e.1).calls f.length).2 }) := by
  obtain ⟨e, he, -, hat, hactive, -, hended⟩ := h
  refine ⟨e, he, hat, hactive, ?_⟩
  rw [hended, PeerConnHandler.sendPkt_of_packet hpacket hlen]
  rfl

/-- Where a search for `p` ends: at an element with `q`, if none without `q` comes before the first
one with it. -/
theorem find_first_iff {α : Type} {p q : α → Bool} {l : List α}
    (hex : ∃ x ∈ l, p x = true ∧ q x = true) :
    (∃ x, l.find? p = some x ∧ q x = true) ↔
      ∀ pre x post, l = pre ++ x :: post → p x = true → q x = false →
        ∃ y ∈ pre, p y = true ∧ q y = true := by
  induction l with
  | nil => simp at hex
  | cons a l ih =>
    by_cases ha : p a = true
    · rw [List.find?_cons_of_pos ha]
      constructor
      · intro h pre x post hsplit hp hq
        obtain ⟨y, hy, hqy⟩ := h
        rw [← Option.some.inj hy] at hqy
        cases pre with
        | nil =>
          rw [(List.cons.inj hsplit).1, hq] at hqy
          cases hqy
        | cons b pre =>
          refine ⟨a, ?_, ha, hqy⟩
          rw [(List.cons.inj hsplit).1]
          exact List.mem_cons_self
      · intro h
        refine ⟨a, rfl, ?_⟩
        rw [← Bool.not_eq_false]
        intro hq
        obtain ⟨y, hy, -⟩ := h [] a l rfl ha hq
        exact List.not_mem_nil hy
    · rw [List.find?_cons_of_neg ha]
      have hrest : ∃ x ∈ l, p x = true ∧ q x = true := by
        obtain ⟨x, hx, hpq⟩ := hex
        refine ⟨x, (List.mem_cons.mp hx).resolve_left ?_, hpq⟩
        intro heq
        exact ha (heq ▸ hpq.1)
      rw [ih hrest]
      constructor
      · intro h pre x post hsplit hp hq
        cases pre with
        | nil =>
          rw [(List.cons.inj hsplit).1] at ha
          exact absurd hp ha
        | cons b pre =>
          obtain ⟨y, hy, hpq⟩ := h pre x post (List.cons.inj hsplit).2 hp hq
          exact ⟨y, List.mem_cons_of_mem b hy, hpq⟩
      · intro h pre x post hsplit hp hq
        obtain ⟨y, hy, hpq⟩ := h (a :: pre) x post (by rw [hsplit]; rfl) hp hq
        refine ⟨y, (List.mem_cons.mp hy).resolve_left ?_, hpq⟩
        intro heq
        exact ha (heq ▸ hpq.1)

/-- The peer is found by its host and port alone, so that a connected one is found exactly if it
comes first. -/
theorem Sane.routed_iff (h : Sane s) (horder : order.Perm s.sockToPeerMap)
    (hex : ∃ e ∈ s.sockToPeerMap, e.2.IsAt host port ∧ e.2.connActive = true) :
    Routed s k sent pkt host port (sendPktToPeer k sent pkt host port order) ↔
      ∀ pre e post, order = pre ++ e :: post → e.2.IsAt host port → e.2.connActive = false →
        ∃ e' ∈ pre, e'.2.IsAt host port ∧ e'.2.connActive = true := by
  have hex' : ∃ e ∈ order, decide (e.2.IsAt host port) = true ∧ e.2.connActive = true := by
    obtain ⟨e, he, hat, hactive⟩ := hex
    exact ⟨e, horder.mem_iff.mpr he, by simpa using hat, hactive⟩
  have hfirst := find_first_iff hex'
  simp only [decide_eq_true_eq] at hfirst
  rw [← hfirst]
  constructor
  · intro hrouted
    obtain ⟨e, -, hoffered, -, hactive, -⟩ := hrouted
    rw [offered_eq] at hoffered
    exact ⟨e, by simpa using hoffered, hactive⟩
  · intro hfound
    obtain ⟨e, hfind, hactive⟩ := hfound
    have hmem := horder.mem_iff.mp (List.mem_of_find?_eq_some hfind)
    -- a connected peer owns the descriptor that it is entered under
    have hown := h.active e.1 e.2 hmem hactive
    refine ⟨e, hmem, ?_, ?_, hactive, hown.2, ?_⟩
    · rw [offered_eq, hfind]
      rfl
    · simpa using List.find?_some hfind
    · have hended := @ended_eq k sent pkt host port order e hfind
      rwa [hown.1.sock] at hended

theorem Sane.routed_every_order_iff (h : Sane s)
    (hex : ∃ e ∈ s.sockToPeerMap, e.2.IsAt host port ∧ e.2.connActive = true) :
    (∀ order, order.Perm s.sockToPeerMap →
      Routed s k sent pkt host port (sendPktToPeer k sent pkt host port order)) ↔
      ∀ e ∈ s.sockToPeerMap, e.2.IsAt host port → e.2.connActive = true := by
  constructor
  · intro hall e he hat
    rw [← Bool.not_eq_false]
    intro hgone
    obtain ⟨pre, post, hsplit⟩ := List.append_of_mem he
    have horder : (e :: (pre ++ post)).Perm s.sockToPeerMap := by
      rw [hsplit]
      exact List.perm_middle.symm
    obtain ⟨e', he', -⟩ :=
      (h.routed_iff horder hex).mp (hall _ horder) [] e (pre ++ post) rfl hat hgone
    exact List.not_mem_nil he'
  · intro hall order horder
    apply (h.routed_iff horder hex).mpr
    intro pre e post hsplit hat hgone
    have he : e ∈ s.sockToPeerMap := horder.mem_iff.mp (by simp [hsplit])
    rw [hall e he hat] at hgone
    cases hgone

/-- In a reachable state, with a connected peer at this host and port, routing picks a connected one
exactly when no disconnected peer at the same place comes before the first connected one. -/
theorem sendPktToPeer_routed_iff {ts : List (Transition Process Event)} (h₀ : Started s₀)
    (hrun : Run Step s₀ ts s) (horder : order.Perm s.sockToPeerMap)
    (hex : ∃ e ∈ s.sockToPeerMap, e.2.IsAt host port ∧ e.2.connActive = true) :
    Routed s k sent pkt host port (sendPktToPeer k sent pkt host port order) ↔
      ∀ pre e post, order = pre ++ e :: post → e.2.IsAt host port → e.2.connActive = false →
        ∃ e' ∈ pre, e'.2.IsAt host port ∧ e'.2.connActive = true :=
  (hrun.invariant Sane h₀.sane fun _ _ _ => Sane.step).1.routed_iff horder hex

def reconnected : Process := ((listener.joined 4).left 4).joined 5

theorem run_reconnected : ∃ ts, Run Step listener ts reconnected := by
  have hnil : Run Step listener [] listener := Run.nil
  exact ⟨_, ((hnil.snoc (step_joined 4 ⟨by decide, by decide⟩ (by decide))).snoc
    (step_left 4 rfl)).snoc (step_joined 5 ⟨by decide, by decide⟩ (by decide))⟩

/-- The client that is connected comes first, and all bytes of the packet go out to it. -/
theorem sendPktToPeer_routed_reconnected :
    ∃ ts pkt, Run Step listener ts reconnected ∧
      Packet.ofPayload (some (Block.ofList [0x61])) 1 1 2 1 1 0 = .ok pkt ∧
      Routed reconnected (fun _ => PeerConnHandler.eager) (fun _ => {}) pkt "127.0.0.1" 0
        (sendPktToPeer (fun _ => PeerConnHandler.eager) (fun _ => {}) pkt "127.0.0.1" 0
          reconnected.sockToPeerMap) ∧
      (sendPktToPeer (fun _ => PeerConnHandler.eager) (fun _ => {}) pkt "127.0.0.1" 0
          reconnected.sockToPeerMap).ended =
        .ok (Function.update (fun _ => {}) 5
          { bytes := frameOf 1 2 1 0 1 [0x61], calls := 1 }) := by
  obtain ⟨ts, hrun⟩ := run_reconnected
  obtain ⟨pkt, -, -, hpkt, -, hbuilt, -⟩ := PeerConnHandler.exists_built_letter
  have hmem : (5, newcomer 5) ∈ reconnected.sockToPeerMap := List.mem_cons_self
  have hrouted : Routed reconnected (fun _ => PeerConnHandler.eager) (fun _ => {}) pkt "127.0.0.1" 0
      (sendPktToPeer (fun _ => PeerConnHandler.eager) (fun _ => {}) pkt "127.0.0.1" 0
        reconnected.sockToPeerMap) := by
    apply (sendPktToPeer_routed_iff listener_started hrun (List.Perm.refl _)
      ⟨_, hmem, ⟨rfl, rfl⟩, rfl⟩).mpr
    intro pre e post hsplit _ hgone
    cases pre with
    | nil =>
      obtain rfl : (5, newcomer 5) = e := (List.cons.inj hsplit).1
      cases hgone
    | cons x pre =>
      obtain rfl : (5, newcomer 5) = x := (List.cons.inj hsplit).1
      exact ⟨_, List.mem_cons_self, ⟨rfl, rfl⟩, rfl⟩
  refine ⟨ts, pkt, hrun, hpkt, hrouted, ?_⟩
  obtain ⟨e, he, -, hactive, hended⟩ := hrouted.goes_out hbuilt.packet hbuilt.pkt_len
  have hfd : e.1 = 5 := by
    rcases List.mem_cons.mp he with rfl | he
    · rfl
    · rw [List.mem_singleton.mp he] at hactive
      cases hactive
  rw [hended, hfd]
  rfl

/-- The client that has gone comes first, and nothing goes out to the one that is connected. -/
theorem not_sendPktToPeer_routed :
    ∃ ts, Run Step listener ts reconnected ∧
      (∃ e ∈ reconnected.sockToPeerMap, e.2.IsAt "127.0.0.1" 0 ∧ e.2.connActive = true) ∧
      ∃ order, order.Perm reconnected.sockToPeerMap ∧
        ∀ k sent pkt, ¬ Routed reconnected k sent pkt "127.0.0.1" 0
            (sendPktToPeer k sent pkt "127.0.0.1" 0 order) ∧
          ∀ out, (sendPktToPeer k sent pkt "127.0.0.1" 0 order).ended = .ok out →
            out 5 = sent 5 := by
  obtain ⟨ts, hrun⟩ := run_reconnected
  refine ⟨ts, hrun, ⟨(5, newcomer 5), List.mem_cons_self, ⟨rfl, rfl⟩, rfl⟩,
    reconnected.sockToPeerMap.reverse, List.reverse_perm _, fun k sent pkt => ⟨?_, ?_⟩⟩
  · rintro ⟨e, -, hoffered, -, hactive, -⟩
    -- the entry of the first client comes first, and its socket is closed
    have hfst := (List.cons.inj hoffered).1
    rw [← hfst] at hactive
    cases hactive
  · intro out hended
    obtain ⟨⟨one, swallowed⟩, -, hout⟩ := bind_eq_ok.mp hended
    rw [← Except.ok.inj hout]
    exact Function.update_of_ne (show (5 : ℤ) ≠ -1 by decide) one sent

end Process

end P2Purr
