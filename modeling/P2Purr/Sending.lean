import P2Purr.Attachments
import P2Purr.PeerConnHandler
import Mathlib.Data.List.Forall2

namespace P2Purr
open Memory Loop Framing

/-- The length of any packet that can be built, also of one without a payload. -/
def packetSize (s : List Byte) : Option ℕ :=
  if 12 ≤ s.length ∧ 9 ≤ hdrField s then some (frameSize s) else none

theorem packetSize_eq_some {s : List Byte} {L : ℕ} :
    packetSize s = some L ↔ (12 ≤ s.length ∧ 9 ≤ hdrField s) ∧ frameSize s = L := by
  simp only [packetSize, Option.ite_none_right_eq_some, Option.some.injEq]

theorem packetSize_large {s : List Byte} {L : ℕ} (h : packetSize s = some L) : 12 ≤ L := by
  obtain ⟨⟨-, hmin⟩, rfl⟩ := packetSize_eq_some.mp h
  rw [frameSize, hdrEnd]
  omega

theorem packetSize_append {s : List Byte} {L : ℕ} (t : List Byte) (h : packetSize s = some L) :
    packetSize (s ++ t) = some L := by
  obtain ⟨⟨h12, hmin⟩, rfl⟩ := packetSize_eq_some.mp h
  refine packetSize_eq_some.mpr ⟨⟨?_, ?_⟩, frameSize_append h12 t⟩
  · rw [List.length_append]
    omega
  · rwa [hdrField_append (by omega)]

theorem packetSize_take {s : List Byte} {L : ℕ} (h : packetSize s = some L) (hle : L ≤ s.length) :
    packetSize (s.take L) = some L := by
  have hlarge := packetSize_large h
  obtain ⟨⟨h12, hmin⟩, rfl⟩ := packetSize_eq_some.mp h
  refine packetSize_eq_some.mpr ⟨⟨?_, ?_⟩, frameSize_take hlarge hle⟩
  · rw [List.length_take]
    omega
  · rwa [hdrField_take (by omega) hle]

def packetFrame : Framer Byte where
  size := packetSize
  size_pos h := Nat.lt_of_lt_of_le (by decide) (packetSize_large h)
  size_append := packetSize_append
  size_take := packetSize_take

theorem packetFrame_isFrame_iff {f : List Byte} :
    packetFrame.IsFrame f ↔ 12 ≤ f.length ∧ 9 ≤ hdrField f ∧ f.length = frameSize f := by
  unfold Framer.IsFrame
  rw [show packetFrame.size = packetSize from rfl, packetSize_eq_some, and_assoc,
    eq_comm (a := f.length)]

theorem packetFrame_frameOf {ct : PacketType} {cs : PacketCharSet} {enc : PacketEncoding}
    {encr : PacketEncryption} {compr : PacketCompression} {body : List Byte}
    (h : body.length < 2 ^ 32) : packetFrame.IsFrame (frameOf ct cs enc encr compr body) := by
  refine packetFrame_isFrame_iff.mpr ⟨by simp, ?_, ?_⟩
  · rw [hdrField_frameOf]
  · rw [frameSize_frameOf h, frameOf_length]

namespace Kernel

/-- How many of `n` bytes the kernel takes from its `i`-th `send` on, until all are taken or a
`send` fails, and how many calls that are. -/
def takesAux (k : Kernel) : ℕ → ℕ → ℕ → ℕ × ℕ
  | 0, _, _ => (0, 0)
  | fuel + 1, i, n =>
    if n = 0 then (0, 0)
    else
      match k.send i n with
      | none => (0, 1)
      | some m => (m + (takesAux k fuel (i + 1) (n - m)).1, (takesAux k fuel (i + 1) (n - m)).2 + 1)

def takes (k : Kernel) (i n : ℕ) : ℕ × ℕ := k.takesAux n i n

/-- The next `send` for each of these lengths fails. -/
def Refuses (k : Kernel) : ℕ → List ℕ → Prop
  | _, [] => True
  | i, n :: ns => k.send i n = none ∧ Refuses k (i + 1) ns

instance decidableRefuses (k : Kernel) : ∀ i ns, Decidable (k.Refuses i ns)
  | _, [] => .isTrue trivial
  | i, _ :: ns =>
    have := decidableRefuses k (i + 1) ns
    inferInstanceAs (Decidable (_ ∧ _))

/-- What the kernel answers to packets of these lengths: once a `send` has failed behind a part of
a packet, every later one fails. -/
def FailsForGood (k : Kernel) : ℕ → List ℕ → Prop
  | _, [] => True
  | i, n :: ns =>
    if (k.takes i n).1 = 0 ∨ (k.takes i n).1 = n then FailsForGood k (i + (k.takes i n).2) ns
    else k.Refuses (i + (k.takes i n).2) ns

instance decidableFailsForGood (k : Kernel) : ∀ i ns, Decidable (k.FailsForGood i ns)
  | _, [] => .isTrue trivial
  | i, n :: ns =>
    have := decidableFailsForGood k (i + (k.takes i n).2) ns
    inferInstanceAs (Decidable (if (k.takes i n).1 = 0 ∨ (k.takes i n).1 = n then
      k.FailsForGood (i + (k.takes i n).2) ns else k.Refuses (i + (k.takes i n).2) ns))

theorem takesAux_le (k : Kernel) (fuel i n : ℕ) : (k.takesAux fuel i n).1 ≤ n := by
  induction fuel generalizing i n with
  | zero => exact Nat.zero_le n
  | succ fuel ih =>
    rw [takesAux]
    by_cases hn : n = 0
    · rw [if_pos hn]
      exact Nat.zero_le n
    · rw [if_neg hn]
      cases hm : k.send i n with
      | none => exact Nat.zero_le n
      | some m =>
        have hbounds := k.send_bounds (by omega) hm
        have := ih (i + 1) (n - m)
        simp only
        omega

theorem takes_of_none {k : Kernel} {i n : ℕ} (hn : 0 < n) (h : k.send i n = none) :
    k.takes i n = (0, 1) := by
  obtain ⟨m, rfl⟩ : ∃ m, n = m + 1 := ⟨n - 1, by omega⟩
  rw [takes, takesAux, if_neg (Nat.succ_ne_zero m), h]

theorem takes_eq_zero_iff {k : Kernel} {i n : ℕ} (hn : 0 < n) :
    (k.takes i n).1 = 0 ↔ k.send i n = none := by
  constructor
  · intro hzero
    obtain ⟨m, rfl⟩ : ∃ m, n = m + 1 := ⟨n - 1, by omega⟩
    cases hsend : k.send i (m + 1) with
    | none => rfl
    | some taken =>
      have hbounds := k.send_bounds hn hsend
      rw [takes, takesAux, if_neg (Nat.succ_ne_zero m), hsend] at hzero
      simp only at hzero
      omega
  · intro h
    rw [takes_of_none hn h]

end Kernel

section SendLoop

variable {k : Kernel} {data : Block} {f : List Byte} {s : SendLoop}

theorem sendLoop_done (hfar : s.bytesSentSoFar = f.length) (n : ℕ) :
    whileLoop (SendLoop.guard f.length) (SendLoop.turn k (some data)) (.halt .hang) n s =
      .ok s := by
  apply whileLoop_exit
  simp [SendLoop.guard, hfar]

theorem sendLoop_turn (hold : data.HoldsAt 0 f) {a m : ℕ} (hfar : s.bytesSentSoFar = a)
    (hleft : s.bytesLeftToSend = (f.length - a : ℕ)) (ha : a < f.length)
    (hm : k.send s.sent.calls (f.length - a) = some m) :
    SendLoop.turn k (some data) s =
      .ok { sent := { bytes := s.sent.bytes ++ (f.drop a).take m, calls := s.sent.calls + 1 }
            bytesSentSoFar := s.bytesSentSoFar + m
            bytesLeftToSend := s.bytesLeftToSend - m } := by
  have hbounds := k.send_bounds (by omega) hm
  have hleft' : s.bytesLeftToSend.toNat = f.length - a := by rw [hleft, Int.toNat_natCast]
  -- the bytes that this `send` takes
  have hslice : data.HoldsAt a ((f.drop a).take m) := by
    have hrest : data.HoldsAt a (f.drop a) :=
      hold.suffix (List.drop_suffix a f) (by rw [List.length_drop]; omega)
    exact hrest.take m
  have hload := hslice.loadAll_eq
  rw [List.length_take, List.length_drop, Nat.min_eq_left hbounds.2] at hload
  simp only [SendLoop.turn, hleft', hm, hfar, Int.toNat_natCast, deref_some, ok_bind, hload,
    access_ok, pure_eq_ok]

/-- The loop of `send_data`, by induction on the turns it is allowed: what it is going to put on
the wire is what the kernel is going to take. -/
theorem sendLoop_spec (hold : data.HoldsAt 0 f) {n : ℕ}
    (s : SendLoop) {a : ℕ} (hfar : s.bytesSentSoFar = a)
    (hleft : s.bytesLeftToSend = (f.length - a : ℕ)) (ha : a ≤ f.length) (hn : f.length - a ≤ n) :
    whileLoop (SendLoop.guard f.length) (SendLoop.turn k (some data)) (.halt .hang) n s =
      if a + (k.takesAux n s.sent.calls (f.length - a)).1 = f.length then
        .ok { sent :=
                { bytes := s.sent.bytes ++
                    (f.drop a).take (k.takesAux n s.sent.calls (f.length - a)).1
                  calls := s.sent.calls + (k.takesAux n s.sent.calls (f.length - a)).2 }
              bytesSentSoFar := f.length, bytesLeftToSend := 0 }
      else
        .error (.raised { cls := .send }
          { bytes := s.sent.bytes ++ (f.drop a).take (k.takesAux n s.sent.calls (f.length - a)).1
            calls := s.sent.calls + (k.takesAux n s.sent.calls (f.length - a)).2 }) := by
  induction n generalizing s a with
  | zero =>
    obtain rfl : a = f.length := by omega
    rw [sendLoop_done hfar]
    obtain ⟨sent, far, left⟩ := s
    simp only at hfar hleft
    simp [Kernel.takesAux, hfar, hleft]
  | succ n ih =>
    by_cases hdone : f.length - a = 0
    · obtain rfl : a = f.length := by omega
      rw [sendLoop_done hfar]
      obtain ⟨sent, far, left⟩ := s
      simp only at hfar hleft
      simp [Kernel.takesAux, hfar, hleft]
    · have hguard : SendLoop.guard f.length s = true := by
        simp only [SendLoop.guard, hfar, decide_eq_true_eq]
        omega
      rw [Kernel.takesAux, if_neg hdone]
      cases hm : k.send s.sent.calls (f.length - a) with
      -- this `send` fails, and the loop is left with what is sent so far
      | none =>
        have hleft' : s.bytesLeftToSend.toNat = f.length - a := by rw [hleft, Int.toNat_natCast]
        have hturn : SendLoop.turn k (some data) s =
            .error (.raised { cls := .send } { s.sent with calls := s.sent.calls + 1 }) := by
          simp only [SendLoop.turn, hleft', hm]
        rw [whileLoop_stop hguard hturn, if_neg (by simp only; omega)]
        simp
      | some m =>
        have hbounds := k.send_bounds (by omega) hm
        have hturn := sendLoop_turn hold hfar hleft (by omega) hm
        rw [whileLoop_turn hguard hturn, ih _ (a := a + m) (by simp [hfar]) (by simp [hleft]; omega)
          (by omega) (by omega)]
        have hsub : f.length - (a + m) = f.length - a - m := by omega
        have hjoin : ∀ t, (f.drop a).take m ++ (f.drop (a + m)).take t =
            (f.drop a).take (m + t) := by
          intro t
          rw [List.take_add, List.drop_drop]
        simp only [hsub, List.append_assoc, hjoin]
        rw [Nat.add_assoc, Nat.add_assoc, Nat.add_comm 1]

end SendLoop

namespace PeerConnHandler

variable {k : Kernel} {p : Packet} {f bytes : List Byte} {sent : Sent} {ps done : List Packet}
  {fs : List (List Byte)}

/-- A call puts on the wire what the kernel takes of its packet; the exception is swallowed. -/
theorem sendPkt_of_packet (hpacket : p.getPacket = .ok f) (hlen : p.pktLen = f.length) (k : Kernel)
    (sent : Sent) :
    sendPkt k p sent =
      .ok ({ bytes := sent.bytes ++ f.take (k.takes sent.calls f.length).1
             calls := sent.calls + (k.takes sent.calls f.length).2 },
        if (k.takes sent.calls f.length).1 = f.length then none else some { cls := .send }) := by
  unfold Packet.getPacket at hpacket
  rw [hlen, Int.toNat_natCast] at hpacket
  cases hbuilt : p.builtPkt with
  | none => simp [hbuilt] at hpacket
  | some data =>
    rw [hbuilt, deref_some, ok_bind] at hpacket
    obtain ⟨hold, -⟩ := Block.holdsAt_of_loadAll (Nat.zero_le _) hpacket
    have hloop := sendLoop_spec (k := k) (n := f.length) hold
      { sent := sent, bytesLeftToSend := f.length } (a := 0) rfl rfl (by omega) (by omega)
    simp only [Nat.sub_zero, Nat.zero_add, List.drop_zero] at hloop
    unfold sendPkt SocketHelper.sendData
    rw [hbuilt, hlen, Int.toNat_natCast, hloop]
    unfold Kernel.takes
    by_cases hall : (k.takesAux f.length sent.calls f.length).1 = f.length
    · rw [if_pos hall, if_pos hall]
      rfl
    · rw [if_neg hall, if_neg hall]
      rfl

theorem sendPkt_spec (h : Carries p f) (k : Kernel) (sent : Sent) :
    sendPkt k p sent =
      .ok ({ bytes := sent.bytes ++ f.take (k.takes sent.calls f.length).1
             calls := sent.calls + (k.takes sent.calls f.length).2 },
        if (k.takes sent.calls f.length).1 = f.length then none else some { cls := .send }) :=
  sendPkt_of_packet h.packet h.pkt_len k sent

def IsStream (ps : List Packet) (bytes : List Byte) : Prop :=
  ∃ qs gs, qs.Sublist ps ∧ List.Forall₂ (fun q g => q.getPacket = .ok g) qs gs ∧ bytes = gs.flatten

/-- Along the calls for `ps`, after those for `done`: a call that puts bytes on the wire finds
whole packets there. -/
def Framed (k : Kernel) : List Packet → Sent → List Packet → Prop
  | _, _, [] => True
  | done, sent, p :: ps => ∃ sent' caught, sendPkt k p sent = .ok (sent', caught) ∧
      (sent'.bytes ≠ sent.bytes → IsStream done sent.bytes) ∧ Framed k (done ++ [p]) sent' ps

theorem IsStream.snoc (h : IsStream done bytes) (p : Packet) : IsStream (done ++ [p]) bytes := by
  obtain ⟨qs, gs, hsub, hall, hbytes⟩ := h
  exact ⟨qs, gs, hsub.trans (List.sublist_append_left done [p]), hall, hbytes⟩

theorem IsStream.snoc_packet (h : IsStream done bytes) (hp : p.getPacket = .ok f) :
    IsStream (done ++ [p]) (bytes ++ f) := by
  obtain ⟨qs, gs, hsub, hall, rfl⟩ := h
  refine ⟨qs ++ [p], gs ++ [f], hsub.append (List.Sublist.refl [p]), ?_, by simp⟩
  exact List.rel_append hall (.cons hp .nil)

def lengths (ps : List Packet) : List ℕ := ps.map fun p => p.pktLen.toNat

/-- A packet that `send_data` can read, and its bytes. -/
structure Built (p : Packet) (f : List Byte) : Prop where
  frame : packetFrame.IsFrame f
  packet : p.getPacket = .ok f
  pkt_len : p.pktLen = f.length

/-- Whatever the constructors build can be sent, also without a payload. -/
theorem built_of_emitted (h : Emitted p) : ∃ f, Built p f := by
  obtain ⟨ct, cs, enc, encr, compr, body, hemits⟩ := h.emits
  have hle := hemits.length_le
  refine ⟨_, packetFrame_frameOf (by omega), hemits.bytes, ?_⟩
  rw [hemits.pkt_len, frameOf_length]
  rfl

theorem Built.length_pos (h : Built p f) : 0 < f.length := packetFrame.size_pos h.frame

theorem Built.sendPkt (h : Built p f) (hs : Framed k done sent (p :: ps)) :
    ((k.takes sent.calls f.length).1 ≠ 0 → IsStream done sent.bytes) ∧
      Framed k (done ++ [p])
        { bytes := sent.bytes ++ f.take (k.takes sent.calls f.length).1
          calls := sent.calls + (k.takes sent.calls f.length).2 } ps := by
  obtain ⟨sent', caught, hcall, hstart, hrest⟩ := hs
  rw [sendPkt_of_packet h.packet h.pkt_len k sent] at hcall
  simp only [Except.ok.injEq, Prod.mk.injEq] at hcall
  obtain ⟨rfl, -⟩ := hcall
  refine ⟨fun hne => hstart fun heq => ?_, hrest⟩
  have hlen := congrArg List.length heq
  have hpos := h.length_pos
  rw [List.length_append, List.length_take] at hlen
  omega

theorem lengths_cons (h : Built p f) (ps : List Packet) :
    lengths (p :: ps) = f.length :: lengths ps := by
  rw [lengths, List.map_cons, h.pkt_len, Int.toNat_natCast]
  rfl

/-- Where nothing more is put on the wire, nothing can go wrong. -/
theorem framed_of_refuses (hps : List.Forall₂ Built ps fs)
    (hk : k.Refuses sent.calls (lengths ps)) : Framed k done sent ps := by
  induction hps generalizing done sent with
  | nil => trivial
  | @cons p f ps fs hp hps ih =>
    rw [lengths_cons hp] at hk
    obtain ⟨hnone, hk⟩ := hk
    have htakes := Kernel.takes_of_none hp.length_pos hnone
    refine ⟨_, _, sendPkt_of_packet hp.packet hp.pkt_len k sent, fun hne => ?_, ih ?_⟩
    · simp only [htakes, List.take_zero, List.append_nil, ne_eq, not_true] at hne
    · simpa only [htakes] using hk

/-- From whole packets on, by induction on the calls: of each packet nothing is taken, or all, or
the kernel takes nothing any more. -/
theorem framed_of_failsForGood (hps : List.Forall₂ Built ps fs) (hstream : IsStream done sent.bytes)
    (hk : k.FailsForGood sent.calls (lengths ps)) : Framed k done sent ps := by
  induction hps generalizing done sent with
  | nil => trivial
  | @cons p f ps fs hp hps ih =>
    rw [lengths_cons hp, Kernel.FailsForGood] at hk
    refine ⟨_, _, sendPkt_of_packet hp.packet hp.pkt_len k sent, fun _ => hstream, ?_⟩
    by_cases hnone : (k.takes sent.calls f.length).1 = 0
    · rw [if_pos (Or.inl hnone)] at hk
      refine ih ?_ hk
      simp only [hnone, List.take_zero, List.append_nil]
      exact hstream.snoc _
    · by_cases hall : (k.takes sent.calls f.length).1 = f.length
      · rw [if_pos (Or.inr hall)] at hk
        refine ih ?_ hk
        simp only [hall, List.take_length]
        exact hstream.snoc_packet hp.packet
      · rw [if_neg (by simp only [hnone, hall, or_self, not_false_eq_true])] at hk
        exact framed_of_refuses hps hk

def IsWhole (bytes : List Byte) : Prop :=
  ∃ gs : List (List Byte), (∀ g ∈ gs, packetFrame.IsFrame g) ∧ bytes = gs.flatten

theorem IsStream.isWhole (h : IsStream done bytes) (hdone : ∀ q ∈ done, ∃ g, Built q g) :
    IsWhole bytes := by
  obtain ⟨qs, gs, hsub, hall, hbytes⟩ := h
  refine ⟨gs, ?_, hbytes⟩
  have hqs : ∀ q ∈ qs, ∃ g, Built q g := fun q hq => hdone q (hsub.subset hq)
  clear hsub hbytes
  induction hall with
  | nil => simp
  | @cons q g qs gs hg _ ih =>
    obtain ⟨g', hbuilt⟩ := hqs q (by simp)
    obtain rfl : g' = g := Except.ok.inj (hbuilt.packet.symm.trans hg)
    intro b hb
    rcases List.mem_cons.mp hb with rfl | hmem
    · exact hbuilt.frame
    · exact ih (fun r hr => hqs r (by simp [hr])) b hmem

theorem built_snoc (hdone : ∀ q ∈ done, ∃ g, Built q g) (hp : Built p f) :
    ∀ q ∈ done ++ [p], ∃ g, Built q g := by
  intro q hq
  rcases List.mem_append.mp hq with hmem | hmem
  · exact hdone q hmem
  · rw [List.mem_singleton.mp hmem]
    exact ⟨f, hp⟩

/-- Behind a packet that was cut short, a call that puts bytes on the wire is wrong. -/
theorem refuses_of_framed (hdone : ∀ q ∈ done, ∃ g, Built q g) (hps : List.Forall₂ Built ps fs)
    (hcut : ¬ IsWhole sent.bytes) (hs : Framed k done sent ps) :
    k.Refuses sent.calls (lengths ps) := by
  induction hps generalizing done sent with
  | nil => trivial
  | @cons p f ps fs hp hps ih =>
    obtain ⟨hstart, hrest⟩ := hp.sendPkt hs
    have hnone : k.send sent.calls f.length = none := by
      rw [← Kernel.takes_eq_zero_iff hp.length_pos]
      by_contra hne
      exact hcut ((hstart hne).isWhole hdone)
    have htakes := Kernel.takes_of_none hp.length_pos hnone
    simp only [htakes, List.take_zero, List.append_nil] at hrest
    rw [lengths_cons hp]
    refine ⟨hnone, ih (built_snoc hdone hp) ?_ hrest⟩
    exact hcut

theorem failsForGood_of_framed (hdone : ∀ q ∈ done, ∃ g, Built q g)
    (hps : List.Forall₂ Built ps fs) (hwhole : IsWhole sent.bytes)
    (hs : Framed k done sent ps) : k.FailsForGood sent.calls (lengths ps) := by
  induction hps generalizing done sent with
  | nil => trivial
  | @cons p f ps fs hp hps ih =>
    obtain ⟨-, hrest⟩ := hp.sendPkt hs
    have hdone' := built_snoc hdone hp
    rw [lengths_cons hp, Kernel.FailsForGood]
    by_cases hnone : (k.takes sent.calls f.length).1 = 0
    · rw [if_pos (Or.inl hnone)]
      refine ih hdone' ?_ hrest
      simpa only [hnone, List.take_zero, List.append_nil] using hwhole
    · obtain ⟨gs, hgs, hbytes⟩ := hwhole
      by_cases hall : (k.takes sent.calls f.length).1 = f.length
      · rw [if_pos (Or.inr hall)]
        refine ih hdone' ⟨gs ++ [f], ?_, ?_⟩ hrest
        · intro g hg
          rcases List.mem_append.mp hg with hmem | hmem
          · exact hgs g hmem
          · rw [List.mem_singleton.mp hmem]
            exact hp.frame
        · simp [hbytes, hall]
      · -- the front of a packet, behind whole ones
        have hle := k.takesAux_le f.length sent.calls f.length
        have hframe : packetFrame.IsFrame (f.take (k.takes sent.calls f.length).1 ++
            f.drop (k.takes sent.calls f.length).1) := by
          rw [List.take_append_drop]
          exact hp.frame
        have hcut : ¬ IsWhole (sent.bytes ++ f.take (k.takes sent.calls f.length).1) := by
          rintro ⟨hs, hhs, hjoin⟩
          rw [hbytes] at hjoin
          refine Framer.flatten_append_prefix_ne hgs hhs hframe ?_ ?_ hjoin
          · intro hnil
            have hlen := congrArg List.length hnil
            have hpos := hp.length_pos
            rw [List.length_take, List.length_nil] at hlen
            omega
          · intro hnil
            have hlen := congrArg List.length hnil
            rw [List.length_drop, List.length_nil] at hlen
            unfold Kernel.takes at hall hlen
            omega
        rw [if_neg (by simp only [hnone, hall, or_self, not_false_eq_true])]
        exact refuses_of_framed hdone' hps hcut hrest

/-- The calls on one connection keep the stream framed exactly when the kernel, once it has failed
in the middle of a packet, takes nothing any more. -/
theorem framed_iff (hps : List.Forall₂ Built ps fs) (k : Kernel) :
    Framed k [] {} ps ↔ k.FailsForGood 0 (lengths ps) := by
  constructor
  · intro hs
    exact failsForGood_of_framed (by simp) hps ⟨[], by simp, rfl⟩ hs
  · intro hk
    exact framed_of_failsForGood hps ⟨[], [], List.Sublist.refl [], .nil, rfl⟩ hk

def eager : Kernel where
  send _ n := some n
  send_bounds hn hk := by
    obtain rfl := Option.some.inj hk
    exact ⟨hn, le_rfl⟩

def congested (full : ℕ) : Kernel where
  send i n := if i = full then none else if i = 0 then some 1 else some n
  send_bounds hn hk := by
    split at hk
    · cases hk
    · split at hk
      · obtain rfl := Option.some.inj hk
        exact ⟨le_rfl, hn⟩
      · obtain rfl := Option.some.inj hk
        exact ⟨hn, le_rfl⟩

def noFile : IFStream := { isOpen := false, device := fun _ => .short [] }

theorem exists_built_letter :
    ∃ p q g, Packet.ofPayload (some (Block.ofList [0x61])) 1 1 2 1 1 0 = .ok p ∧
      Packet.ofAttachment "in.txt" noFile 0 17 2 1 1 0 = .ok q ∧
      Built p (frameOf 1 2 1 0 1 [0x61]) ∧ Built q g ∧ g.length = 12 := by
  have hold := Block.holdsAt_ofList [0x61]
  obtain ⟨p, hp, -, hcarries⟩ := Packet.ofPayload_spec hold (by simp) 1 2 1 1 0
  let file : Packet :=
    { type := 17, charset := 2, encoding := 1, encryption := 0, compression := 1
      attachmentFilePath := "in.txt", hasFileAttachment := true }
  have hload : (if file.hasFileAttachment then (file.setBuildPending true).processInputFile noFile 0
      else .ok (file.setBuildPending true)) = .ok (file.setBuildPending true) := rfl
  obtain ⟨q, hq, -, hpkt, hbytes⟩ := Packet.build_empty rfl hload rfl
  exact ⟨p, q, _, hp, hq, ⟨packetFrame_frameOf (by decide), hcarries.packet, hcarries.pkt_len⟩,
    ⟨packetFrame_frameOf (by decide), hbytes, hpkt⟩, rfl⟩

/-- The second of three packets finds the kernel full, and has no payload. -/
theorem framed_congested :
    ∃ p q, Packet.ofPayload (some (Block.ofList [0x61])) 1 1 2 1 1 0 = .ok p ∧
      Packet.ofAttachment "in.txt" noFile 0 17 2 1 1 0 = .ok q ∧
      Framed (congested 2) [] {} [p, q, p] := by
  obtain ⟨p, q, g, hp, hq, hbuilt, hbuilt', hlen⟩ := exists_built_letter
  refine ⟨p, q, hp, hq, (framed_iff (.cons hbuilt (.cons hbuilt' (.cons hbuilt .nil)))
    (congested 2)).mpr ?_⟩
  rw [lengths_cons hbuilt, lengths_cons hbuilt', lengths_cons hbuilt, hlen]
  decide

/-- One byte of the first packet, and then the second packet. -/
theorem not_framed_congested :
    ∃ p, Packet.ofPayload (some (Block.ofList [0x61])) 1 1 2 1 1 0 = .ok p ∧
      ¬ Framed (congested 1) [] {} [p, p] := by
  obtain ⟨p, q, g, hp, -, hbuilt, -⟩ := exists_built_letter
  refine ⟨p, hp, fun hs => ?_⟩
  have hk := failsForGood_of_framed (by simp) (.cons hbuilt (.cons hbuilt .nil))
    ⟨[], by simp, rfl⟩ hs
  rw [lengths_cons hbuilt, lengths_cons hbuilt] at hk
  exact absurd hk (by decide)

end PeerConnHandler

end P2Purr
