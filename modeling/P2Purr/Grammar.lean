import P2Purr.Cursors
import P2Purr.FileTransfer

namespace P2Purr
open Memory Loop Framing

/-- `0xFF`, a length `h` of 9 to 65532, `h` header bytes of which the sixth to the ninth hold
`n ≥ 1`, and `n` payload bytes, `2^31 - 2` bytes in all at most. -/
structure WellFormed (f : List Byte) : Prop where
  marker : f.head? = some 0xFF
  header_min : 9 ≤ hdrField f
  header_max : hdrField f ≤ 65532
  payload_pos : 1 ≤ payloadField f
  length_eq : f.length = frameSize f
  length_le : frameSize f ≤ 2 ^ 31 - 2

section WellFormed

variable {f : List Byte}

theorem WellFormed.usable (h : WellFormed f) : Usable f :=
  ⟨h.header_min, h.header_max, h.payload_pos, by have := h.length_le; omega⟩

theorem WellFormed.isFrame (h : WellFormed f) : wire.IsFrame f :=
  wire_isFrame_iff.mpr ⟨h.marker, h.usable, h.length_eq⟩

theorem WellFormed.twelve_lt (h : WellFormed f) : 12 < f.length := by
  have hmin := h.header_min
  have hpos := h.payload_pos
  have hlen := h.length_eq
  simp only [frameSize, hdrEnd] at hlen
  omega

end WellFormed

/-- One call of `rebuild` for each chunk until `is_build_done()`, and what each call leaves. -/
def rebuildUntilDone : Packet → OutFile → List Chunk → Except (Stop Decoder) (List Decoder)
  | _, _, [] => .ok []
  | p, o, c :: cs => do
    let d ← Decoder.rebuild
      { pkt := { p with buffTotalLen := c.bytes.length }
        buffer := c.buffer, currBuffIdx := 0, outFile := o }
    if d.pkt.pktBuilt then pure [d]
    else do
      let ds ← rebuildUntilDone d.pkt d.outFile cs
      pure (d :: ds)

section Chunks

variable {p : Packet} {o : OutFile} {acc f trailing : List Byte} {c : Chunk} {cs : List Chunk}

theorem bytesOf_cons : bytesOf (c :: cs) = c.bytes ++ bytesOf cs := by
  rw [bytesOf, List.map_cons, List.flatten_cons, ← bytesOf]

theorem rebuildUntilDone_pending (hd : Decoding p acc) (hwhole : acc.length ≠ 1 ∧ acc.length ≠ 2)
    {t : List Byte} (ht : t ≠ []) (hf : wire.IsFrame (acc ++ c.bytes ++ t)) (o : OutFile)
    (cs : List Chunk) :
    ∃ d, rebuildUntilDone p o (c :: cs) =
        (rebuildUntilDone d.pkt d.outFile cs >>= fun ds => .ok (d :: ds)) ∧
      Decoding d.pkt (acc ++ c.bytes) ∧ d.pkt.pktBuilt = false ∧ d.pkt.pktRebuilding = true := by
  have hspec := Decoder.rebuild_spec (d :=
      { pkt := { p with buffTotalLen := c.bytes.length }, buffer := c.buffer, currBuffIdx := 0
        outFile := o })
    (hd.congr rfl rfl rfl rfl rfl rfl) rfl (Nat.zero_add _) c.holds c.nonempty
  rw [verdict_of_begun hd.isPartial hwhole le_rfl c.nonempty ht hf] at hspec
  obtain ⟨d, hrebuild, -, hdec, -, hbuilt⟩ := hspec
  have hflag := (Decoder.rebuild_cursors hrebuild).2.2.2
  refine ⟨d, ?_, hdec, hbuilt, by rw [hflag, hbuilt]; rfl⟩
  rw [rebuildUntilDone, hrebuild, ok_bind, hbuilt]
  rfl

/-- The chunk with the frame's last byte completes the packet, and the index stays behind it. -/
theorem rebuildUntilDone_complete (hd : Decoding p acc)
    (hwhole : acc.length ≠ 1 ∧ acc.length ≠ 2) (hf : wire.IsFrame f) {rest : List Byte}
    (hcut : acc ++ c.bytes = f ++ rest) (o : OutFile) (cs : List Chunk) :
    ∃ d, rebuildUntilDone p o (c :: cs) = .ok [d] ∧ Carries d.pkt f ∧
      acc.length + d.currBuffIdx = f.length ∧ c.bytes.drop d.currBuffIdx = rest := by
  have hspec := Decoder.rebuild_spec (d :=
      { pkt := { p with buffTotalLen := c.bytes.length }, buffer := c.buffer, currBuffIdx := 0
        outFile := o })
    (hd.congr rfl rfl rfl rfl rfl rfl) rfl (Nat.zero_add _) c.holds c.nonempty
  have hsize : wire.size (acc ++ c.bytes) = some f.length := by
    rw [hcut]
    exact wire.size_append rest hf
  have hverdict := verdict_of_frame hwhole le_rfl hsize (by rw [hcut]; simp)
  rw [hcut, List.take_left, List.drop_left] at hverdict
  have hsuffix := rest_suffix hd.isPartial (le_refl c.bytes.length)
  rw [hverdict] at hspec hsuffix
  obtain ⟨d, hrebuild, -, -, hcarries, -, hidx⟩ := hspec
  have hlen := congrArg List.length hcut
  rw [List.length_append, List.length_append] at hlen
  refine ⟨d, ?_, hcarries, by omega, ?_⟩
  · rw [rebuildUntilDone, hrebuild, ok_bind, hcarries.built]
    rfl
  · rw [List.suffix_iff_eq_drop.mp hsuffix, ← hidx, Nat.add_sub_cancel]

/-- By induction on the chunks, with `acc` the bytes of the frame that are there. -/
theorem rebuildUntilDone_spec (hd : Decoding p acc) (hwhole : acc.length ≠ 1 ∧ acc.length ≠ 2)
    (hfirst : acc = [] → ∀ c ∈ cs.head?, 3 ≤ c.bytes.length) (hf : wire.IsFrame f)
    (hlt : acc.length < f.length) (hcut : acc ++ bytesOf cs = f ++ trailing) (o : OutFile) :
    ∃ pre c post ds d, cs = pre ++ c :: post ∧ (acc ++ bytesOf pre).length < f.length ∧
      f.length ≤ (acc ++ bytesOf (pre ++ [c])).length ∧
      rebuildUntilDone p o cs = .ok (ds ++ [d]) ∧ ds.length = pre.length ∧
      (∀ e ∈ ds, e.pkt.pktBuilt = false ∧ e.pkt.pktRebuilding = true) ∧ Carries d.pkt f ∧
      (acc ++ bytesOf pre).length + d.currBuffIdx = f.length ∧
      c.bytes.drop d.currBuffIdx ++ bytesOf post = trailing := by
  induction cs generalizing p acc o with
  | nil =>
    have hlen := congrArg List.length hcut
    simp only [bytesOf, List.map_nil, List.flatten_nil, List.append_nil, List.length_append] at hlen
    omega
  | cons c cs ih =>
    rw [bytesOf_cons, ← List.append_assoc] at hcut
    by_cases hlast : f.length ≤ (acc ++ c.bytes).length
    · -- the chunk holds the frame's last byte
      obtain ⟨rest, hrest⟩ : f <+: acc ++ c.bytes :=
        List.prefix_of_prefix_length_le ⟨trailing, hcut.symm⟩ (List.prefix_append _ _) hlast
      obtain ⟨d, hrun, hcarries, hidx, hdrop⟩ :=
        rebuildUntilDone_complete hd hwhole hf hrest.symm o cs
      rw [← hrest, List.append_assoc] at hcut
      refine ⟨[], c, cs, [], d, rfl, ?_, ?_, hrun, rfl, by simp, hcarries, ?_, ?_⟩
      · simpa [bytesOf] using hlt
      · simpa [bytesOf] using hlast
      · simpa [bytesOf] using hidx
      · rw [hdrop]
        exact List.append_cancel_left hcut
    · -- the frame goes on behind the chunk
      obtain ⟨t, ht⟩ : acc ++ c.bytes <+: f :=
        List.prefix_of_prefix_length_le ⟨bytesOf cs, hcut⟩ (List.prefix_append _ _) (by omega)
      have hne : t ≠ [] := by
        rintro rfl
        rw [List.append_nil] at ht
        rw [ht] at hlast
        exact hlast le_rfl
      obtain ⟨d, hrun, hdec, hpending⟩ := rebuildUntilDone_pending hd hwhole hne (by rwa [ht]) o cs
      have hthree : 3 ≤ (acc ++ c.bytes).length := by
        rw [List.length_append]
        by_cases hnil : acc = []
        · have := hfirst hnil c (by simp)
          omega
        · have := List.length_pos_iff.mpr hnil
          omega
      have hfirst' : acc ++ c.bytes = [] → ∀ c ∈ cs.head?, 3 ≤ c.bytes.length := by
        intro hnil
        rw [hnil] at hthree
        simp at hthree
      obtain ⟨pre, c', post, ds, d', rfl, hbefore, hafter, hrun', hcount, hall, hcarries, hidx,
        hdrop⟩ := ih hdec (by omega) hfirst' (by omega) hcut d.outFile
      refine ⟨c :: pre, c', post, d :: ds, d', rfl, ?_, ?_, ?_, ?_, ?_, hcarries, ?_, hdrop⟩
      · rwa [bytesOf_cons, ← List.append_assoc]
      · rwa [List.cons_append, bytesOf_cons, ← List.append_assoc]
      · rw [hrun, hrun', ok_bind]
        rfl
      · rw [List.length_cons, List.length_cons, hcount]
      · exact List.forall_mem_cons.mpr ⟨hpending, hall⟩
      · rwa [bytesOf_cons, ← List.append_assoc]

/-- Every chunk before the one with the frame's last byte leaves the packet pending; that one
completes it as the frame it is, and leaves the index at the first trailing byte. -/
theorem rebuilds_in_chunks (hf : WellFormed f) (hcut : bytesOf cs = f ++ trailing)
    (hfirst : ∀ c ∈ cs.head?, 3 ≤ c.bytes.length) (total : ℤ) (o : OutFile) :
    ∃ pre c post ds d, cs = pre ++ c :: post ∧ (bytesOf pre).length < f.length ∧
      f.length ≤ (bytesOf (pre ++ [c])).length ∧
      rebuildUntilDone (Decoder.newPacket 0 total) o cs = .ok (ds ++ [d]) ∧
      ds.length = pre.length ∧
      (∀ e ∈ ds, e.pkt.pktBuilt = false ∧ e.pkt.pktRebuilding = true) ∧
      Carries d.pkt f ∧ (bytesOf pre).length + d.currBuffIdx = f.length ∧
      c.bytes.drop d.currBuffIdx ++ bytesOf post = trailing := by
  have h12 := hf.twelve_lt
  exact rebuildUntilDone_spec (decoding_newPacket 0 total) (by simp) (fun _ => hfirst) hf.isFrame
    (by simp only [List.length_nil]; omega) hcut o

theorem letter_wellFormed : WellFormed (frameOf 1 2 1 0 1 [0x61]) :=
  ⟨rfl, by decide, by decide, by decide, by decide, by decide⟩

def letterChunks : List Chunk :=
  [chunkOf [0xFF, 0, 9] (List.cons_ne_nil _ _),
    chunkOf [1, 2, 1, 0, 1, 0, 0, 0, 1, 0x61, 0xFF, 0x62] (List.cons_ne_nil _ _)]

theorem rebuilds_letter_in_chunks :
    bytesOf letterChunks = frameOf 1 2 1 0 1 [0x61] ++ [0xFF, 0x62] ∧
      ∃ ds d, rebuildUntilDone (Decoder.newPacket 0 3) {} letterChunks = .ok (ds ++ [d]) ∧
        Carries d.pkt (frameOf 1 2 1 0 1 [0x61]) := by
  have hcut : bytesOf letterChunks = frameOf 1 2 1 0 1 [0x61] ++ [0xFF, 0x62] := rfl
  obtain ⟨pre, c, post, ds, d, -, -, -, hrun, -, -, hcarries, -, -⟩ :=
    rebuilds_in_chunks letter_wellFormed hcut (by simp [letterChunks, chunkOf]) 3 {}
  exact ⟨hcut, ds, d, hrun, hcarries⟩

end Chunks

inductive Outcome
  | done
  | pending
  | throws
  deriving DecidableEq, Repr

def outcome : Except (Stop Decoder) Decoder → Option Outcome
  | .ok d =>
    if d.pkt.pktBuilt then some .done else if d.pkt.pktRebuilding then some .pending else none
  | .error (.raised e _) => if e.cls = .packet then some .throws else none
  | .error (.halt _) => none

/-- The call of `rebuild` by a fresh packet with `buff_total_len` bytes in the buffer. -/
def parse (buffer : Block) (buffTotalLen : ℕ) (o : OutFile) : Except (Stop Decoder) Decoder :=
  Decoder.rebuild
    { pkt := Decoder.newPacket 0 buffTotalLen, buffer := buffer, currBuffIdx := 0, outFile := o }

section Parse

variable {buffer : Block} {s f t : List Byte}

def Verdict.outcome : Verdict → Option Outcome
  | .complete _ _ => some .done
  | .pending => some .pending
  | .stuck _ _ => some .pending
  | .rejected _ _ _ => some .throws
  | .fault _ => none

theorem outcome_of_pending {r : Except (Stop Decoder) Decoder} {d d' : Decoder}
    (hr : d.rebuild = r) (hd : r = .ok d') (hbuilt : d'.pkt.pktBuilt = false) :
    outcome r = some .pending := by
  have hflag := (Decoder.rebuild_cursors (hr.trans hd)).2.2.2
  rw [hbuilt] at hflag
  rw [hd, outcome, hbuilt, hflag]
  rfl

theorem outcome_parse (hold : buffer.HoldsAt 0 s) (hne : s ≠ []) (o : OutFile) :
    outcome (parse buffer s.length o) = (verdict [] s s.length).outcome := by
  have hspec := Decoder.rebuild_spec (d :=
      { pkt := Decoder.newPacket 0 s.length, buffer := buffer, currBuffIdx := 0, outFile := o })
    (decoding_newPacket 0 s.length) rfl (Nat.zero_add _) hold hne
  cases hv : verdict [] s s.length with
  | pending =>
    rw [hv] at hspec
    obtain ⟨d, hd, -, -, -, hbuilt⟩ := hspec
    exact outcome_of_pending rfl hd hbuilt
  | stuck kept rest =>
    rw [hv] at hspec
    obtain ⟨d, hd, -, -, -, hbuilt⟩ := hspec
    exact outcome_of_pending rfl hd hbuilt
  | complete frame rest =>
    rw [hv] at hspec
    obtain ⟨d, hd, -, -, hcarries, -⟩ := hspec
    rw [parse, hd, outcome, hcarries.built]
    rfl
  | rejected msg kept rest =>
    rw [hv] at hspec
    obtain ⟨d, hd, -⟩ := hspec
    rw [parse, hd]
    rfl
  | fault f =>
    rw [hv] at hspec
    rw [parse]
    change Decoder.rebuild _ = _ at hspec
    rw [hspec]
    rfl

def BeginsWithFrame (s : List Byte) : Prop := ∃ f t, s = f ++ t ∧ WellFormed f

def BeginsFrame (s : List Byte) : Prop := ∃ t, t ≠ [] ∧ WellFormed (s ++ t)

theorem verdict_of_beginsWithFrame (h : BeginsWithFrame s) :
    (verdict [] s s.length).outcome = some .done := by
  obtain ⟨f, t, rfl, hf⟩ := h
  have hsize : wire.size ([] ++ (f ++ t)) = some f.length := wire.size_append t hf.isFrame
  rw [verdict_of_frame (by simp) le_rfl hsize (by simp)]
  rfl

theorem verdict_of_beginsFrame (hne : s ≠ []) (h : BeginsFrame s) :
    (verdict [] s s.length).outcome = some .pending := by
  obtain ⟨t, ht, hf⟩ := h
  rw [verdict_of_begun partial_nil (by simp) le_rfl hne ht hf.isFrame]
  rfl

theorem verdict_throws_iff :
    (verdict [] s s.length).outcome = some .throws ↔ Rejected [] s := by
  rw [← verdict_rejected_iff [] (le_refl s.length)]
  cases verdict [] s s.length <;> simp [Verdict.outcome]

structure FollowsGrammar (s : List Byte) (r : Option Outcome) : Prop where
  done : r = some .done ↔ BeginsWithFrame s
  pending : r = some .pending ↔ BeginsFrame s
  throws : ¬ BeginsWithFrame s → ¬ BeginsFrame s → r = some .throws

/-- A string that is outside the grammar has to be one that `rebuild` throws on. -/
theorem parse_follows_iff (hold : buffer.HoldsAt 0 s) (hne : s ≠ []) (o : OutFile) :
    FollowsGrammar s (outcome (parse buffer s.length o)) ↔
      BeginsWithFrame s ∨ BeginsFrame s ∨ Rejected [] s := by
  rw [outcome_parse hold hne o]
  have hdone := @verdict_of_beginsWithFrame s
  have hpending := verdict_of_beginsFrame hne
  have hthrows := @verdict_throws_iff s
  generalize (verdict [] s s.length).outcome = r at hdone hpending hthrows
  constructor
  · intro h
    by_cases hframe : BeginsWithFrame s
    · exact Or.inl hframe
    by_cases hbegun : BeginsFrame s
    · exact Or.inr (Or.inl hbegun)
    · exact Or.inr (Or.inr (hthrows.mp (h.throws hframe hbegun)))
  · intro h
    have hthrows' := fun h => hthrows.mpr h
    refine ⟨⟨fun hr => ?_, hdone⟩, ⟨fun hr => ?_, hpending⟩, fun hframe hbegun => ?_⟩
    · rcases h with h | h | h
      · exact h
      · simp [hpending h] at hr
      · simp [hthrows' h] at hr
    · rcases h with h | h | h
      · simp [hdone h] at hr
      · exact h
      · simp [hthrows' h] at hr
    · rcases h with h | h | h
      · exact absurd h hframe
      · exact absurd h hbegun
      · exact hthrows' h

/-- A frame and a byte behind it, the beginning of a frame, and a header length of zero. -/
theorem parse_follows_letter :
    FollowsGrammar (frameOf 1 2 1 0 1 [0x61] ++ [0])
        (outcome (parse (Block.ofList (frameOf 1 2 1 0 1 [0x61] ++ [0])) 14 {})) ∧
      FollowsGrammar [0xFF, 0, 9, 1] (outcome (parse (Block.ofList [0xFF, 0, 9, 1]) 4 {})) ∧
      FollowsGrammar [0xFF, 0, 0, 1] (outcome (parse (Block.ofList [0xFF, 0, 0, 1]) 4 {})) := by
  refine ⟨(parse_follows_iff (Block.holdsAt_ofList _) (by simp) {}).mpr ?_,
    (parse_follows_iff (Block.holdsAt_ofList [0xFF, 0, 9, 1]) (by simp) {}).mpr ?_,
    (parse_follows_iff (Block.holdsAt_ofList [0xFF, 0, 0, 1]) (by simp) {}).mpr ?_⟩
  · exact Or.inl ⟨_, [0], rfl, letter_wellFormed⟩
  · exact Or.inr (Or.inl ⟨[2, 1, 0, 1, 0, 0, 0, 1, 0x61], by simp, letter_wellFormed⟩)
  · refine Or.inr (Or.inr ((verdict_rejected_iff [] (le_refl _)).mp ?_))
    exact ⟨_, _, _, rfl⟩

/-- Three bytes that do not begin with the marker are taken for a header that is there. -/
theorem not_parse_follows :
    (Block.ofList [0, 0, 0]).HoldsAt 0 [0, 0, 0] ∧
      ¬ FollowsGrammar [0, 0, 0] (outcome (parse (Block.ofList [0, 0, 0]) 3 {})) := by
  refine ⟨Block.holdsAt_ofList _, fun h => ?_⟩
  have hframe : ¬ BeginsWithFrame [0, 0, 0] := by
    rintro ⟨f, t, hs, hf⟩
    have hlen := congrArg List.length hs
    have h12 := hf.twelve_lt
    simp only [List.length_cons, List.length_nil, List.length_append] at hlen
    omega
  have hbegun : ¬ BeginsFrame [0, 0, 0] := by
    rintro ⟨t, -, hf⟩
    have hmark := hf.marker
    simp at hmark
  have hthrows := h.throws hframe hbegun
  have hfault : outcome (parse (Block.ofList [0, 0, 0]) 3 {}) = none := rfl
  simp [hfault] at hthrows

end Parse

end P2Purr
