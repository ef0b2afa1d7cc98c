import P2Purr.Reassembly

namespace P2Purr
open Memory Framing

def RecvResult.bytes : RecvResult → List Byte
  | .data bs => bs
  | .closed _ => []
  | .failed => []

def complete (s : List Byte) : List (List Byte) := (wire.split s).1

/-- After the bytes `s`: each call whose `recv` does not fail completes one frame, or comes
before any frame is complete. -/
def OneEach : List Byte → List RecvResult → Prop
  | _, [] => True
  | s, r :: rs =>
    (r ≠ .failed → (complete (s ++ r.bytes)).length = (complete s).length + 1 ∨
      complete (s ++ r.bytes) = []) ∧ OneEach (s ++ r.bytes) rs

namespace RecvState

/-- The packets that are passed to the application. -/
def delivered (calls : List RecvCall) : List PacketRef := calls.filterMap RecvCall.returned

def numbered : ℕ → List Packet → List PacketRef
  | _, [] => []
  | n, p :: ps => ⟨n, p⟩ :: numbered (n + 1) ps

variable {s s' s₀ : RecvState} {kept t : List Byte} {r : RecvResult} {rs : List RecvResult}
  {call : RecvCall} {calls : List RecvCall}

theorem recvPkt_step (h : Holds s ⟨kept, 0⟩) (ha : s.Accepts r)
    (hcall : s.recvPkt r = .ok (s', call))
    (hcaught : ∀ e, call.caught = some e → e.cls ≠ .packet) :
    Holds s' ⟨(wire.split (kept ++ r.bytes)).2, 0⟩ ∧
      (∃ ps, s'.completedPkts = s.completedPkts ++ ps ∧
        ps.length = (complete (kept ++ r.bytes)).length) ∧
      call.returned = if r = .failed then none else s'.latest := by
  have hopen : wire.IsOpen kept := h.isPartial.isOpen
  have hquiet : r.bytes = [] → (∀ bs, r ≠ .data bs) →
      Holds s' ⟨(wire.split (kept ++ r.bytes)).2, 0⟩ ∧
      ∃ ps, s'.completedPkts = s.completedPkts ++ ps ∧
        ps.length = (complete (kept ++ r.bytes)).length := by
    intro hbytes hr
    obtain ⟨s'', call', hq, hholds, hsame, -⟩ := recvPkt_quiet h ha hr
    obtain ⟨rfl, -⟩ : s'' = s' ∧ call' = call := by simpa [hq] using hcall
    rw [hbytes, List.append_nil, complete, Framer.split_open hopen]
    exact ⟨hholds, [], by simp [hsame], rfl⟩
  cases r with
  | data bs =>
    obtain ⟨frames, hgrew, hholds, ⟨hwaits, rfl⟩ | ⟨msg, -, rfl⟩⟩ := recvPkt_data_ok h ha hcall
    · obtain ⟨rfl, hnext⟩ := Conn.intake_of_waits h.isPartial rfl ha.2.1 hwaits
      rw [hnext] at hholds
      obtain ⟨ps, hps, hcarry⟩ := hgrew.completed
      exact ⟨hholds, ⟨ps, hps, hcarry.length_eq⟩, rfl⟩
    · exact absurd rfl (hcaught _ rfl)
  | closed k =>
    obtain ⟨hholds, hps⟩ := hquiet rfl (by simp)
    refine ⟨hholds, hps, ?_⟩
    obtain ⟨s'', call', hq, -, -, -, hnone, hsome⟩ := recvPkt_quiet h ha (by simp)
    obtain ⟨rfl, rfl⟩ : s'' = s' ∧ call' = call := by simpa [hq] using hcall
    apply hnone
    by_contra hne
    cases (hsome hne).1
  | failed =>
    obtain ⟨hholds, hps⟩ := hquiet rfl (by simp)
    refine ⟨hholds, hps, ?_⟩
    obtain ⟨-, rfl⟩ : s = s' ∧ _ = call := by simpa [recvPkt_failed h ha] using hcall
    rfl

theorem complete_append (t u : List Byte) :
    (complete (t ++ u)).length =
      (complete t).length + (complete ((wire.split t).2 ++ u)).length := by
  rw [complete, wire.split_append, List.length_append]
  rfl

/-- The last packet comes first in what is left to pass on just when it is the only one that is
new. -/
theorem cons_eq_numbered_iff {n : ℕ} {ps₁ ps₂ : List Packet} {q : Packet} {rest : List PacketRef}
    (hlast : ∀ p, ps₁ = [p] → p = q) (hpos : 0 < n + ps₁.length) :
    ⟨n + ps₁.length - 1, q⟩ :: rest = numbered n (ps₁ ++ ps₂) ↔
      ps₁.length = 1 ∧ rest = numbered (n + ps₁.length) ps₂ := by
  by_cases hone : ps₁.length = 1
  · obtain ⟨p, rfl⟩ := List.length_eq_one_iff.mp hone
    obtain rfl : p = q := hlast p rfl
    simp [numbered]
  · simp only [hone, false_and, iff_false]
    intro heq
    cases hall : ps₁ ++ ps₂ with
    | nil => simp [hall, numbered] at heq
    | cons p ps =>
      rw [hall, numbered, List.cons.injEq, PacketRef.mk.injEq] at heq
      omega

/-- What a run passes on from some point, by induction on its calls: the numbers of the packets
tell a packet that is passed on from the one that should be. -/
theorem delivered_iff (h : Holds s ⟨(wire.split t).2, 0⟩) (hf : s.Fits rs)
    (hrun : s.recvAll rs = .ok (s', calls))
    (hcaught : ∀ call ∈ calls, ∀ e, call.caught = some e → e.cls ≠ .packet)
    (hlen : s.completedPkts.length = (complete t).length) :
    ∃ ps, s'.completedPkts = s.completedPkts ++ ps ∧
      (delivered calls = numbered s.completedPkts.length ps ↔ OneEach t rs) := by
  induction rs generalizing s t calls with
  | nil =>
    obtain ⟨rfl, rfl⟩ : s = s' ∧ [] = calls := by simpa using hrun
    exact ⟨[], by simp, by simp [delivered, numbered, OneEach]⟩
  | cons r rs ih =>
    obtain ⟨s₁, call, calls', hcall, hrest, rfl⟩ := recvAll_cons_inv hrun
    obtain ⟨hholds, ⟨ps₁, hps₁, hlen₁⟩, hret⟩ := recvPkt_step h hf.1 hcall (hcaught call (by simp))
    have hsum := complete_append t r.bytes
    have hcount : s₁.completedPkts.length = (complete (t ++ r.bytes)).length := by
      rw [hps₁, List.length_append, hlen₁, hlen, hsum]
    have hgrown : s₁.completedPkts.length = s.completedPkts.length + ps₁.length := by
      rw [hps₁, List.length_append]
    rw [split_rest_append] at hholds
    obtain ⟨ps₂, hps₂, hiff⟩ := ih hholds (hf.2 s₁ call hcall) hrest
      (fun c hc => hcaught c (by simp [hc])) hcount
    refine ⟨ps₁ ++ ps₂, by rw [hps₂, hps₁, List.append_assoc], ?_⟩
    rw [OneEach, ← hiff, hgrown]
    by_cases hfailed : r = .failed
    · -- nothing is received and nothing returned
      have hnil : ps₁ = [] := by
        apply List.eq_nil_of_length_eq_zero
        rw [hlen₁, hfailed, RecvResult.bytes, List.append_nil, complete,
          Framer.split_open (wire.split_rest_isOpen t)]
        rfl
      rw [if_pos hfailed] at hret
      simp [delivered, hret, hnil, hfailed]
    · rw [if_neg hfailed] at hret
      simp only [hfailed, ne_eq, not_false_eq_true, forall_const]
      by_cases hzero : s₁.completedPkts = []
      · -- no packet is complete yet
        obtain ⟨-, rfl⟩ := List.append_eq_nil_iff.mp (hps₁.symm.trans hzero)
        have hnone : call.returned = none := by simp [hret, latest, hzero]
        have hempty : complete (t ++ r.bytes) = [] := by
          apply List.eq_nil_of_length_eq_zero
          rw [← hcount, hzero, List.length_nil]
        simp [delivered, hnone, hempty]
      · -- the last one is passed on, be it new or not
        obtain ⟨q, hq⟩ : ∃ q, s₁.completedPkts.getLast? = some q :=
          ⟨_, List.getLast?_eq_some_getLast hzero⟩
        have hsome : call.returned = some ⟨s.completedPkts.length + ps₁.length - 1, q⟩ := by
          simp [hret, latest, hq, ← hgrown]
        have hpos := List.length_pos_iff.mpr hzero
        have hlast : ∀ p, ps₁ = [p] → p = q := by
          intro p hp
          simpa [hps₁, hp] using hq
        have hnotempty : complete (t ++ r.bytes) ≠ [] := by
          intro hempty
          rw [hempty, List.length_nil] at hcount
          omega
        have hone : (complete (t ++ r.bytes)).length = (complete t).length + 1 ↔
            ps₁.length = 1 := by omega
        have hcons : ⟨s.completedPkts.length + ps₁.length - 1, q⟩ :: delivered calls' =
            numbered s.completedPkts.length (ps₁ ++ ps₂) ↔ ps₁.length = 1 ∧
              delivered calls' = numbered (s.completedPkts.length + ps₁.length) ps₂ :=
          cons_eq_numbered_iff hlast (by omega)
        simp only [hnotempty, or_false, hone]
        rw [← hcons, delivered, List.filterMap_cons, hsome]
        rfl

/-- What a connection passes on is what it completed, in order and once each, exactly when its
calls complete one packet each. -/
theorem delivered_eq_completed_iff (hs : Fresh s₀) (hf : s₀.Fits rs)
    (hrun : s₀.recvAll rs = .ok (s', calls))
    (hcaught : ∀ call ∈ calls, ∀ e, call.caught = some e → e.cls ≠ .packet) :
    delivered calls = numbered 0 s'.completedPkts ↔ OneEach [] rs := by
  have hnone : s₀.completedPkts = [] := hs.init.1
  obtain ⟨ps, hps, hiff⟩ :=
    delivered_iff (t := []) hs.holds hf hrun hcaught (by simp [hnone, complete])
  rw [hnone, List.nil_append] at hps
  rw [hnone] at hiff
  rw [hps]
  exact hiff

theorem recvPkt_letter :
    ∃ s, (idle "127.0.0.1" 8000 5).recvPkt (.data (frameOf 1 2 1 0 1 [0x61])) =
      .ok (s, { returned := s.latest }) ∧ Ready s [] ∧ s.completedPkts.length = 1 := by
  have hsplit : wire.split ([] ++ frameOf 1 2 1 0 1 [0x61]) = ([frameOf 1 2 1 0 1 [0x61]], []) := by
    decide
  have hstep := recvPkt_of_begun (s := idle "127.0.0.1" 8000 5) (idle_fresh _ _ _).ready (by simp)
    (show frameOf 1 2 1 0 1 [0x61] ≠ [] ∧ (frameOf 1 2 1 0 1 [0x61]).length ≤ 1500 by decide)
    (by rw [hsplit]; exact fun hne => absurd rfl hne)
  rw [hsplit] at hstep
  obtain ⟨s, hs, hgrew, hready⟩ := hstep
  exact ⟨s, hs, hready, hgrew.length⟩

theorem accepts_letter :
    (idle "127.0.0.1" 8000 5).Accepts (.data (frameOf 1 2 1 0 1 [0x61])) :=
  (idle_fresh _ _ _).ready.accepts (by decide)

/-- The first of three calls completes nothing, and each of the others one packet. -/
theorem delivered_letters :
    ∃ s calls, (idle "127.0.0.1" 8000 5).recvAll (letterChunks.map .data) = .ok (s, calls) ∧
      s.completedPkts.length = 2 ∧ delivered calls = numbered 0 s.completedPkts := by
  obtain ⟨hfits, s, calls, hrun, hcaught, hgrew, -⟩ := letterChunks_run
  refine ⟨s, calls, hrun, hgrew.length,
    (delivered_eq_completed_iff (idle_fresh _ _ _) hfits hrun ?_).mpr ?_⟩
  · intro call hcall e he
    rw [hcaught call hcall] at he
    cases he
  · exact ⟨fun _ => Or.inr (by decide), fun _ => Or.inl (by decide), fun _ => Or.inl (by decide),
      trivial⟩

/-- When the peer closes the connection, its last packet is passed on once more. -/
theorem delivered_again :
    ∃ s calls, (idle "127.0.0.1" 8000 5).Fits
        [.data (frameOf 1 2 1 0 1 [0x61]), .closed { shutdown := true, close := true }] ∧
      (idle "127.0.0.1" 8000 5).recvAll
        [.data (frameOf 1 2 1 0 1 [0x61]), .closed { shutdown := true, close := true }] =
        .ok (s, calls) ∧
      (∀ call ∈ calls, call.caught = none) ∧ delivered calls ≠ numbered 0 s.completedPkts := by
  obtain ⟨s, hs, hready, hone⟩ := recvPkt_letter
  have hclosed := recvPkt_closed hready.holds hready.isOpen { shutdown := true, close := true }
  refine ⟨_, _, ⟨accepts_letter, fun _ _ _ => ⟨trivial, fun _ _ _ => trivial⟩⟩,
    by rw [recvAll_cons_ok hs, recvAll_cons_ok hclosed]; rfl, by simp, ?_⟩
  -- one packet, passed on twice
  obtain ⟨p, hp⟩ := List.length_eq_one_iff.mp hone
  simp [delivered, latest, hp, numbered]

end RecvState

end P2Purr
