import P2Purr.Framing

namespace P2Purr.Framing

universe u
variable {α : Type u}

structure Pipe (α : Type u) where
  read : List α := []
  underWay : List α := []

namespace Pipe

variable (p : Pipe α)

def written : List α := p.read ++ p.underWay

def write (bs : List α) : Pipe α := { p with underWay := p.underWay ++ bs }

def take (bs rest : List α) : Pipe α := { read := p.read ++ bs, underWay := rest }

variable {p}

@[simp] theorem write_read (bs : List α) : (p.write bs).read = p.read := rfl

@[simp] theorem write_written (bs : List α) : (p.write bs).written = p.written ++ bs := by
  simp [written, write]

@[simp] theorem take_read (bs rest : List α) : (p.take bs rest).read = p.read ++ bs := rfl

theorem take_written {bs rest : List α} (h : p.underWay = bs ++ rest) :
    (p.take bs rest).written = p.written := by
  simp [written, take, h]

theorem read_prefix_written : p.read <+: p.written := List.prefix_append p.read p.underWay

end Pipe

namespace Framer

variable {F : Framer α} {s t : List α} {fs : List (List α)}

def IsStart (F : Framer α) (s : List α) : Prop :=
  ∃ (gs : List (List α)) (t : List α), (∀ g ∈ gs, F.IsFrame g) ∧ s ++ t = gs.flatten

theorem IsStart.of_prefix (h : F.IsStart t) (hs : s <+: t) : F.IsStart s := by
  obtain ⟨gs, u, hgs, hflat⟩ := h
  obtain ⟨v, hv⟩ := hs
  refine ⟨gs, v ++ u, hgs, ?_⟩
  rw [← List.append_assoc, hv, hflat]

/-- A stream that has stopped inside a frame has begun this frame. -/
theorem IsStart.begun (h : F.IsStart s) (hne : (F.split s).2 ≠ []) :
    ∃ q, q ≠ [] ∧ F.IsFrame ((F.split s).2 ++ q) := by
  obtain ⟨gs, t, hgs, hflat⟩ := h
  obtain ⟨-, -, -, -, hbegun⟩ := split_of_flatten hgs hflat
  exact hbegun hne

/-- Behind the frames that are complete, the stream goes on. -/
theorem IsStart.rest (h : F.IsStart (s ++ t)) : F.IsStart ((F.split s).2 ++ t) := by
  obtain ⟨gs, u, hgs, hflat⟩ := h
  rw [List.append_assoc] at hflat
  obtain ⟨hs, -, hrest, hframes, -⟩ := split_of_flatten hgs hflat
  exact ⟨hs, u, hframes, by rw [List.append_assoc, hrest]⟩

theorem split_mono (h : s <+: t) : (F.split s).1 <+: (F.split t).1 := by
  obtain ⟨u, hu⟩ := h
  rw [← hu, F.split_append]
  exact List.prefix_append _ _

end Framer

/-- Whole frames, and perhaps the front of one more, as a sender leaves them behind. -/
structure Outbox (F : Framer α) where
  frames : List (List α) := []
  part : List α := []
  isFrame : ∀ f ∈ frames, F.IsFrame f
  begun : part ≠ [] → ∃ q, q ≠ [] ∧ F.IsFrame (part ++ q)

namespace Outbox

variable {F : Framer α} (o : Outbox F) {f : List α} {n : ℕ}

def bytes : List α := o.frames.flatten ++ o.part

def empty (F : Framer α) : Outbox F :=
  { isFrame := by simp, begun := fun h => absurd rfl h }

def push (hf : F.IsFrame f) : Outbox F where
  frames := o.frames ++ [f]
  isFrame := by
    intro g hg
    rcases List.mem_append.mp hg with hmem | hmem
    · exact o.isFrame g hmem
    · rw [List.mem_singleton.mp hmem]
      exact hf
  begun h := absurd rfl h

def pushPart (hf : F.IsFrame f) (hn : n < f.length) : Outbox F where
  frames := o.frames
  part := f.take n
  isFrame := o.isFrame
  begun _ := by
    refine ⟨f.drop n, ?_, by rwa [List.take_append_drop]⟩
    apply List.ne_nil_of_length_pos
    rw [List.length_drop]
    omega

variable {o}

@[simp] theorem empty_bytes : (empty F).bytes = [] := rfl

theorem push_bytes (hf : F.IsFrame f) (hpart : o.part = []) :
    (o.push hf).bytes = o.bytes ++ f := by
  simp [bytes, push, hpart]

theorem pushPart_bytes (hf : F.IsFrame f) (hn : n < f.length) (hpart : o.part = []) :
    (o.pushPart hf hn).bytes = o.bytes ++ f.take n := by
  simp [bytes, pushPart, hpart]

theorem part_isOpen : F.IsOpen o.part := by
  by_cases hpart : o.part = []
  · rw [hpart]
    exact Framer.isOpen_nil
  · obtain ⟨q, hq, hframe⟩ := o.begun hpart
    exact Framer.isOpen_of_append hframe hq

theorem split_bytes : F.split o.bytes = (o.frames, o.part) := by
  rw [bytes, Framer.split_flatten_append o.isFrame, Framer.split_open o.part_isOpen]
  simp

theorem isStart : F.IsStart o.bytes := by
  by_cases hpart : o.part = []
  · exact ⟨o.frames, [], o.isFrame, by simp [bytes, hpart]⟩
  · obtain ⟨q, -, hframe⟩ := o.begun hpart
    refine ⟨o.frames ++ [o.part ++ q], q, ?_, by simp [bytes]⟩
    intro g hg
    rcases List.mem_append.mp hg with hmem | hmem
    · exact o.isFrame g hmem
    · rw [List.mem_singleton.mp hmem]
      exact hframe

/-- The frames that have come through are the first ones that went out, and all of them once
nothing is under way. -/
theorem arrived {p : Pipe α} (h : p.written = o.bytes) :
    (F.split p.read).1 <+: o.frames ∧ (p.underWay = [] → (F.split p.read).1 = o.frames) := by
  constructor
  · have hfirst := Framer.split_mono (F := F) p.read_prefix_written
    rwa [h, split_bytes] at hfirst
  · intro hnone
    have hread : p.read = o.bytes := by
      rw [← h, Pipe.written, hnone, List.append_nil]
    rw [hread, split_bytes]

end Outbox

end P2Purr.Framing
