import Mathlib.Data.List.Basic
import Mathlib.Tactic.Common

namespace P2Purr.Framing

universe u
variable {α : Type u}

/-- `size s` is the length of the frame that begins `s`, once `s` is long enough
to tell; what follows the frame has no say in it. -/
structure Framer (α : Type u) where
  size : List α → Option ℕ
  size_pos : ∀ {s L}, size s = some L → 0 < L
  size_append : ∀ {s L} (t), size s = some L → size (s ++ t) = some L
  size_take : ∀ {s L}, size s = some L → L ≤ s.length → size (s.take L) = some L

namespace Framer

variable (F : Framer α)

def IsFrame (f : List α) : Prop := F.size f = some f.length

def IsOpen (s : List α) : Prop := ∀ L, F.size s = some L → s.length < L

def splitAux : ℕ → List α → List (List α) × List α
  | 0, s => ([], s)
  | n + 1, s =>
    match F.size s with
    | some L =>
      if L ≤ s.length then
        (s.take L :: (splitAux n (s.drop L)).1, (splitAux n (s.drop L)).2)
      else ([], s)
    | none => ([], s)

/-- The complete frames of a stream, and its open rest. -/
def split (s : List α) : List (List α) × List α := F.splitAux s.length s

variable {F} {s t f p q : List α} {fs gs : List (List α)} {L : ℕ}

theorem isOpen_nil : F.IsOpen [] := fun _ h => by simpa using F.size_pos h

theorem isOpen_or_complete (s : List α) : F.IsOpen s ∨ ∃ L, F.size s = some L ∧ L ≤ s.length := by
  by_cases h : F.IsOpen s
  · exact Or.inl h
  · simp only [IsOpen, not_forall, Nat.not_lt] at h
    obtain ⟨L, hL, hle⟩ := h
    exact Or.inr ⟨L, hL, hle⟩

theorem splitAux_open (n : ℕ) (h : F.IsOpen s) : F.splitAux n s = ([], s) := by
  cases n with
  | zero => rfl
  | succ n =>
    rw [splitAux]
    cases hs : F.size s with
    | none => rfl
    | some L => exact if_neg (by have := h L hs; omega)

theorem splitAux_complete (n : ℕ) (hs : F.size s = some L) (hle : L ≤ s.length) :
    F.splitAux (n + 1) s =
      (s.take L :: (F.splitAux n (s.drop L)).1, (F.splitAux n (s.drop L)).2) := by
  rw [splitAux, hs]
  exact if_pos hle

/-- Frames are not empty, so `s.length` turns are as good as any larger number. -/
theorem splitAux_eq_split {n : ℕ} (h : s.length ≤ n) : F.splitAux n s = F.split s := by
  suffices ∀ n m (s : List α), s.length ≤ n → s.length ≤ m → F.splitAux n s = F.splitAux m s from
    this n s.length s h (Nat.le_refl _)
  intro n
  induction n with
  | zero =>
    intro m s hn _
    obtain rfl : s = [] := List.eq_nil_of_length_eq_zero (by omega)
    rw [splitAux_open _ isOpen_nil, splitAux_open _ isOpen_nil]
  | succ n ih =>
    intro m s hn hm
    rcases F.isOpen_or_complete s with h | ⟨L, hL, hle⟩
    · rw [splitAux_open _ h, splitAux_open _ h]
    · have hpos := F.size_pos hL
      obtain ⟨m, rfl⟩ : ∃ k, m = k + 1 := ⟨m - 1, by omega⟩
      rw [splitAux_complete n hL hle, splitAux_complete m hL hle,
        ih m (s.drop L) (by simp; omega) (by simp; omega)]

theorem split_open (h : F.IsOpen s) : F.split s = ([], s) := splitAux_open _ h

@[simp] theorem split_nil : F.split [] = ([], []) := split_open isOpen_nil

theorem split_complete (hs : F.size s = some L) (hle : L ≤ s.length) :
    F.split s = (s.take L :: (F.split (s.drop L)).1, (F.split (s.drop L)).2) := by
  have hpos := F.size_pos hs
  have hlen : s.length = (s.length - 1) + 1 := by omega
  rw [split, hlen, splitAux_complete _ hs hle,
    splitAux_eq_split (by simp only [List.length_drop]; omega)]

theorem split_frame_append (hf : F.IsFrame f) (s : List α) :
    F.split (f ++ s) = (f :: (F.split s).1, (F.split s).2) := by
  rw [split_complete (F.size_append s hf) (by simp)]
  simp

theorem split_flatten_append (hfs : ∀ f ∈ fs, F.IsFrame f) (s : List α) :
    F.split (fs.flatten ++ s) = (fs ++ (F.split s).1, (F.split s).2) := by
  induction fs with
  | nil => simp
  | cons f fs ih =>
    rw [List.flatten_cons, List.append_assoc, split_frame_append (hfs f (by simp)),
      ih fun g hg => hfs g (by simp [hg])]
    simp

theorem split_flatten (hfs : ∀ f ∈ fs, F.IsFrame f) : F.split fs.flatten = (fs, []) := by
  simpa using split_flatten_append hfs []

theorem split_induction {P : List α → Prop} (hopen : ∀ s, F.IsOpen s → P s)
    (hframe : ∀ s L, F.size s = some L → L ≤ s.length → P (s.drop L) → P s) (s : List α) : P s := by
  induction hn : s.length using Nat.strongRecOn generalizing s with
  | ind n ih =>
    rcases F.isOpen_or_complete s with h | ⟨L, hL, hle⟩
    · exact hopen s h
    · have hpos := F.size_pos hL
      exact hframe s L hL hle (ih (s.drop L).length (by simp; omega) _ rfl)

theorem split_isFrame (s : List α) : ∀ f ∈ (F.split s).1, F.IsFrame f := by
  induction s using split_induction (F := F) with
  | hopen s h => simp [split_open h]
  | hframe s L hL hle ih =>
    rw [split_complete hL hle]
    intro f hf
    rcases List.mem_cons.mp hf with rfl | hf
    · simp [IsFrame, F.size_take hL hle, hle]
    · exact ih f hf

theorem split_rest_isOpen (s : List α) : F.IsOpen (F.split s).2 := by
  induction s using split_induction (F := F) with
  | hopen s h => rwa [split_open h]
  | hframe s L hL hle ih => rwa [split_complete hL hle]

theorem split_join (s : List α) : (F.split s).1.flatten ++ (F.split s).2 = s := by
  induction s using split_induction (F := F) with
  | hopen s h => simp [split_open h]
  | hframe s L hL hle ih =>
    rw [split_complete hL hle, List.flatten_cons, List.append_assoc, ih, List.take_append_drop]

theorem split_rest_suffix (s : List α) : (F.split s).2 <:+ s :=
  ⟨(F.split s).1.flatten, split_join s⟩

theorem split_eq_nil_iff : (F.split s).1 = [] ↔ F.IsOpen s := by
  constructor
  · intro h
    have hjoin := F.split_join s
    rw [h, List.flatten_nil, List.nil_append] at hjoin
    rw [← hjoin]
    exact split_rest_isOpen s
  · intro h
    rw [split_open h]

/-- Splitting can stop anywhere and go on with the open rest. -/
theorem split_append (s t : List α) :
    F.split (s ++ t) =
      ((F.split s).1 ++ (F.split ((F.split s).2 ++ t)).1, (F.split ((F.split s).2 ++ t)).2) := by
  conv_lhs => rw [← F.split_join s, List.append_assoc]
  exact split_flatten_append (split_isFrame s) _

theorem isOpen_of_append (hf : F.IsFrame (p ++ q)) (hq : q ≠ []) : F.IsOpen p := by
  intro L hL
  have hlen : L = (p ++ q).length := Option.some.inj ((F.size_append q hL).symm.trans hf)
  have := List.length_pos_iff.mpr hq
  simp only [List.length_append] at hlen
  omega

/-- What is cut off a stream of frames: frames, and a proper part of the next one. -/
theorem split_of_flatten (hgs : ∀ g ∈ gs, F.IsFrame g) (h : s ++ t = gs.flatten) :
    ∃ hs, gs = (F.split s).1 ++ hs ∧ (F.split s).2 ++ t = hs.flatten ∧
      (∀ f ∈ hs, F.IsFrame f) ∧
      ((F.split s).2 ≠ [] → ∃ q, q ≠ [] ∧ F.IsFrame ((F.split s).2 ++ q)) := by
  have hboth := F.split_append s t
  rw [h, split_flatten hgs, Prod.mk.injEq] at hboth
  obtain ⟨hgs', hnil⟩ := hboth
  have hjoin := F.split_join ((F.split s).2 ++ t)
  rw [← hnil, List.append_nil] at hjoin
  have hframes := F.split_isFrame ((F.split s).2 ++ t)
  have hopen := F.split_rest_isOpen s
  generalize (F.split ((F.split s).2 ++ t)).1 = hs at hgs' hjoin hframes
  refine ⟨hs, hgs', hjoin.symm, hframes, fun hne => ?_⟩
  cases hs with
  | nil =>
    have hempty : (F.split s).2 ++ t = [] := by simpa using hjoin.symm
    exact absurd (List.append_eq_nil_iff.mp hempty).1 hne
  | cons f hs =>
    have hf := hframes f (by simp)
    rw [List.flatten_cons] at hjoin
    have hlong : (F.split s).2.length < f.length := by
      by_contra hle
      have hprefix : f <+: (F.split s).2 :=
        List.prefix_of_prefix_length_le ⟨_, hjoin⟩ (List.prefix_append _ _) (by omega)
      obtain ⟨q, hq⟩ := hprefix
      have hlt := hopen f.length (by rw [← hq]; exact F.size_append q hf)
      omega
    have hprefix : (F.split s).2 <+: f :=
      List.prefix_of_prefix_length_le ⟨t, hjoin.symm⟩ (List.prefix_append _ _) (by omega)
    obtain ⟨q, hq⟩ := hprefix
    refine ⟨q, ?_, by rwa [hq]⟩
    rintro rfl
    rw [List.append_nil] at hq
    rw [hq] at hlong
    exact Nat.lt_irrefl _ hlong

/-- Frames followed by a proper part of one more frame are no stream of frames. -/
theorem flatten_append_prefix_ne (hfs : ∀ f ∈ fs, F.IsFrame f) (hgs : ∀ g ∈ gs, F.IsFrame g)
    (hf : F.IsFrame (p ++ q)) (hp : p ≠ []) (hq : q ≠ []) : fs.flatten ++ p ≠ gs.flatten := by
  intro h
  have hrest := congrArg (fun s => (F.split s).2) h
  simp only [split_flatten_append hfs, split_flatten hgs,
    split_open (isOpen_of_append hf hq)] at hrest
  exact hp hrest

end Framer

end P2Purr.Framing
