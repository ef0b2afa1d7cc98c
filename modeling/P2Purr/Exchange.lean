import P2Purr.Network
import P2Purr.Routing

namespace P2Purr
open Memory Framing Runs

/-- What a call of `send_pkt` does to the bytes, if it catches nothing and if it does. -/
theorem PeerConnHandler.sendPkt_whole_iff {k : Kernel} {p : Packet} {f : List Byte}
    {sent sent' : Sent} {caught : Option GenericException} (hp : Carries p f)
    (hcall : sendPkt k p sent = .ok (sent', caught)) :
    sent'.bytes.length = sent.bytes.length + f.length ↔ caught = none := by
  have hle := k.takesAux_le f.length sent.calls f.length
  rw [sendPkt_spec hp] at hcall
  obtain ⟨hsent, hcaught⟩ := Prod.mk.inj (Except.ok.inj hcall)
  unfold Kernel.takes at hsent hcaught
  rw [← hsent, ← hcaught, List.length_append, List.length_take, min_eq_left hle]
  by_cases hall : (k.takesAux f.length sent.calls f.length).1 = f.length
  · simp [hall]
  · rw [if_neg hall]
    simp only [reduceCtorEq, iff_false]
    omega

namespace Process

variable {k : ℤ → Kernel} {sent out : ℤ → Sent} {pkt : Packet} {host : String} {port : UInt16}
  {order : List (ℤ × PeerConnHandler)}

theorem sendPktToPeer_inv (h : (sendPktToPeer k sent pkt host port order).ended = .ok out) :
    ∃ fd one swallowed, PeerConnHandler.sendPkt (k fd) pkt (sent fd) = .ok (one, swallowed) ∧
      out = Function.update sent fd one := by
  induction order with
  | nil => cases h
  | cons e rest ih =>
    unfold sendPktToPeer at h
    by_cases he : e.2.IsAt host port
    · rw [if_pos he] at h
      obtain ⟨⟨one, swallowed⟩, hsend, hout⟩ := bind_eq_ok.mp h
      exact ⟨e.2.sockHelper.sock, one, swallowed, hsend, (Except.ok.inj hout).symm⟩
    · rw [if_neg he] at h
      exact ih h

end Process

structure Sender where
  server : Process
  out : ℤ → Sent := fun _ => {}

namespace Sender

inductive Event
  | send (pkt : Packet) (host : String) (port : UInt16)
  | serve (e : Process.Event)

inductive Step (k : ℤ → Kernel) (d : Sender) : Event → Sender → Prop
  | send {pkt host port order out} (horder : order.Perm d.server.sockToPeerMap)
      (h : (Process.sendPktToPeer k d.out pkt host port order).ended = .ok out) :
      Step k d (.send pkt host port) { d with out := out }
  | serve {e s'} (h : Process.Step d.server e s') :
      Step k d (.serve e)
        { server := s'
          out :=
            match d.server.entered e.made with
            | none => d.out
            | some fd => Function.update d.out fd {} }

def wentOut (fd : ℤ) (ps : List Packet) (t : Transition Sender Event) : List Packet :=
  match t.event with
  | .send pkt _ _ =>
    if ((t.after.out fd).bytes.length : ℤ) = (t.before.out fd).bytes.length + pkt.pktLen then
      ps ++ [pkt]
    else ps
  | .serve e => if t.before.server.entered e.made = some fd then [] else ps

/-- The packets that went out whole on `fd` since it was last entered. -/
def whole (fd : ℤ) (ts : List (Transition Sender Event)) : List Packet :=
  ts.foldl (wentOut fd) []

/-- A packet that is sent has a frame, and if any of it goes out, then behind whole packets. -/
def Orderly (t : Transition Sender Event) : Prop :=
  match t.event with
  | .send pkt _ _ => (∃ f, wire.IsFrame f ∧ Carries pkt f) ∧
      ∀ fd, (t.after.out fd).bytes ≠ (t.before.out fd).bytes →
        (wire.split (t.before.out fd).bytes).2 = []
  | .serve _ => True

def Holding (fd : ℤ) (ps : List Packet) (d : Sender) : Prop :=
  ∃ o : Outbox wire, (d.out fd).bytes = o.bytes ∧ List.Forall₂ Carries ps o.frames

variable {k : ℤ → Kernel} {d d' : Sender} {fd : ℤ} {pkt : Packet} {ps : List Packet} {e : Event}

theorem Holding.unsent (h : Holding fd ps d) {f : List Byte} {out : ℤ → Sent}
    (hf : wire.IsFrame f) (hp : Carries pkt f) (hsame : (out fd).bytes = (d.out fd).bytes) :
    Holding fd
      (if ((out fd).bytes.length : ℤ) = (d.out fd).bytes.length + pkt.pktLen then ps ++ [pkt]
        else ps) { d with out := out } := by
  have hpos := wire.size_pos hf
  have hlen := hp.pkt_len
  rw [hsame, if_neg (by omega)]
  obtain ⟨o, hbytes, hcarry⟩ := h
  exact ⟨o, hsame.trans hbytes, hcarry⟩

theorem Holding.step (h : Holding fd ps d) (hstep : Step k d e d') (ho : Orderly ⟨d, e, d'⟩) :
    Holding fd (wentOut fd ps ⟨d, e, d'⟩) d' := by
  cases hstep with
  | @serve e s' hserve =>
    unfold wentOut
    simp only
    cases hentered : d.server.entered e.made with
    | none => exact h
    | some x =>
      by_cases hx : x = fd
      · rw [hx, if_pos rfl]
        exact ⟨Outbox.empty wire, by simp, .nil⟩
      · rw [if_neg (by simpa using hx)]
        obtain ⟨o, hbytes, hcarry⟩ := h
        exact ⟨o, by simp [Function.update_of_ne (Ne.symm hx), hbytes], hcarry⟩
  | @send pkt host port order out horder hcall =>
    obtain ⟨⟨f, hf, hp⟩, hclear⟩ := ho
    unfold wentOut
    simp only at hclear ⊢
    obtain ⟨x, one, swallowed, hsend, hout⟩ := Process.sendPktToPeer_inv hcall
    by_cases hx : x = fd
    · rw [hx] at hsend hout
      have hafter : out fd = one := by rw [hout, Function.update_self]
      obtain ⟨o, hbytes, hcarry⟩ := h
      have hpart : one.bytes ≠ (d.out fd).bytes → o.part = [] := by
        intro hne
        have hnil := hclear fd (by rwa [hafter])
        rwa [hbytes, o.split_bytes] at hnil
      obtain ⟨-, o', hbytes', hframes⟩ :=
        PeerConnHandler.sendPkt_outbox hbytes hf hp hsend hpart
      have hwhole : ((out fd).bytes.length : ℤ) = (d.out fd).bytes.length + pkt.pktLen ↔
          swallowed = none := by
        rw [hafter, hp.pkt_len, ← PeerConnHandler.sendPkt_whole_iff hp hsend]
        omega
      refine ⟨o', by simp only [hafter, hbytes'], ?_⟩
      rw [hframes]
      cases swallowed with
      | none =>
        rw [if_pos (hwhole.mpr rfl)]
        exact List.rel_append hcarry (.cons hp .nil)
      | some e =>
        rw [if_neg fun hall => Option.some_ne_none e (hwhole.mp hall)]
        simpa using hcarry
    · exact h.unsent hf hp (by rw [hout, Function.update_of_ne (Ne.symm hx)])

theorem holding {s₀ : Process} {ts : List (Transition Sender Event)}
    (hrun : Run (Step k) { server := s₀ } ts d) (horder : ∀ t ∈ ts, Orderly t) (fd : ℤ) :
    Holding fd (whole fd ts) d := by
  apply hrun.traces (fun ts d => Holding fd (whole fd ts) d) Orderly _ _ horder
  · exact ⟨Outbox.empty wire, rfl, .nil⟩
  · intro ts d e d' h hstep ho
    rw [whole, List.foldl_append]
    exact h.step hstep ho

/-- What one server sends to a peer is what the server at the other end of the connection receives
from it, whatever the two do in between and whoever else they talk to: of the packets that went out
whole since the connection was made, the first ones, and all of them once nothing is under way. -/
theorem exchanges {s₀ r₀ : Process} {ts : List (Transition Sender Event)} {n : Network}
    {us : List (Transition Network Network.Event)} {x : ℤ} {peer : PeerConnHandler}
    (hrun : Run (Step k) { server := s₀ } ts d) (horder : ∀ t ∈ ts, Orderly t)
    (hr₀ : r₀.Started) (hpolls : Run Network.Step { server := r₀ } us n)
    (hpeer : (x, peer) ∈ n.server.sockToPeerMap)
    (hwire : (n.pipe x).written = (d.out fd).bytes) :
    (∃ qs, qs <+: whole fd ts ∧ List.Forall₂ RecvState.Same qs peer.completedPkts) ∧
      ((n.pipe x).underWay = [] →
        List.Forall₂ RecvState.Same (whole fd ts) peer.completedPkts) := by
  obtain ⟨o, hbytes, hcarry⟩ := holding hrun horder fd
  have hwritten := hwire.trans hbytes
  have hread : wire.IsStart (n.pipe x).read := by
    apply o.isStart.of_prefix
    rw [← hwritten]
    exact Pipe.read_prefix_written
  exact (Network.follows hr₀ hpolls hpeer hread).delivers hwritten hcarry

theorem exists_sending :
    ∃ p d ts, p.getPacket = .ok (frameOf 1 2 1 0 1 [0x61]) ∧
      Run (Step fun _ => PeerConnHandler.eager) { server := Process.listener.joined 4 } ts d ∧
      (∀ t ∈ ts, Orderly t) ∧ (d.out 4).bytes = frameOf 1 2 1 0 1 [0x61] ∧ whole 4 ts = [p] := by
  obtain ⟨p, -, hmade, hbytes⟩ := RecvState.exists_letter 0x61
  obtain ⟨hframe, hcarries⟩ := hmade.carries hbytes
  have hsend := PeerConnHandler.sendPkt_spec hcarries PeerConnHandler.eager {}
  have htakes : (PeerConnHandler.eager.takes 0 13).1 = 13 := by decide
  simp only [frameOf_length, List.length_singleton, Nat.reduceAdd, htakes, ↓reduceIte] at hsend
  obtain ⟨one, hone, hbytes₁⟩ : ∃ one, PeerConnHandler.sendPkt PeerConnHandler.eager p {} =
      .ok (one, none) ∧ one.bytes = frameOf 1 2 1 0 1 [0x61] := ⟨_, hsend, rfl⟩
  have hcall : (Process.sendPktToPeer (fun _ => PeerConnHandler.eager) (fun _ => {}) p "127.0.0.1" 0
      (Process.listener.joined 4).sockToPeerMap).ended =
        .ok (Function.update (fun _ => {}) 4 one) := by
    change (PeerConnHandler.sendPkt PeerConnHandler.eager p {} >>= _) = _
    rw [hone]
    rfl
  have hstep : Step (fun _ => PeerConnHandler.eager) { server := Process.listener.joined 4 }
      (.send p "127.0.0.1" 0)
      { server := Process.listener.joined 4, out := Function.update (fun _ => {}) 4 one } :=
    Step.send (List.Perm.refl _) hcall
  have hnil : Run (Step fun _ => PeerConnHandler.eager) { server := Process.listener.joined 4 } []
      { server := Process.listener.joined 4 } := Run.nil
  refine ⟨p, _, _, hbytes, hnil.snoc hstep, ?_, by simp only [Function.update_self, hbytes₁], ?_⟩
  · intro t ht
    rw [List.nil_append, List.mem_singleton] at ht
    rw [ht]
    exact ⟨⟨_, hframe, hcarries⟩, fun fd _ => congrArg Prod.snd wire.split_nil⟩
  · apply if_pos
    simp only [Function.update_self, hbytes₁, hcarries.pkt_len]
    rfl

/-- The packet arrives at another server, which has one more client. -/
theorem exchanges_letter :
    ∃ p ts d us n peer, p.getPacket = .ok (frameOf 1 2 1 0 1 [0x61]) ∧
      Run (Step fun _ => PeerConnHandler.eager) { server := Process.listener.joined 4 } ts d ∧
      (∀ t ∈ ts, Orderly t) ∧ whole 4 ts = [p] ∧
      Run Network.Step { server := Process.listener } us n ∧
      (n.pipe 4).written = (d.out 4).bytes ∧ (n.pipe 6).written = [0, 0, 0] ∧
      (4, peer) ∈ n.server.sockToPeerMap ∧ List.Forall₂ RecvState.Same [p] peer.completedPkts := by
  obtain ⟨p, d, ts, hbytes, hrun, horder, hout, hwhole⟩ := exists_sending
  have hframe : wire.IsFrame (frameOf 1 2 1 0 1 [0x61]) := frameOf_isFrame (by simp) (by simp)
  obtain ⟨q, before, n, us, peer, hpolls, -, -, -, hfour, hsix, hp, -⟩ :=
    Network.exists_handled hframe (by decide)
  have hwire : (n.pipe 4).written = (d.out 4).bytes := by
    rw [hfour, hout]
    rfl
  have hall := (exchanges hrun horder Process.listener_started hpolls hp hwire).2 (by rw [hfour])
  rw [hwhole] at hall
  exact ⟨p, ts, d, _, n, peer, hbytes, hrun, horder, hwhole, hpolls, hwire, by rw [hsix]; rfl, hp,
    hall⟩

end Sender

end P2Purr
