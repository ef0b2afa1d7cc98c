import P2Purr.Framing
import P2Purr.Packet

namespace P2Purr
open Memory Serializer Framing

def hdrField (s : List Byte) : ℕ := beValue ((s.drop 1).take 2)

def hdrEnd (s : List Byte) : ℕ := hdrField s + 3

def payloadField (s : List Byte) : ℕ := beValue ((s.drop 8).take 4)

def frameSize (s : List Byte) : ℕ := hdrEnd s + payloadField s

/-- Lengths with which a frame can be received: the header holds its fixed
fields, its size fits 16 bits, and the frame's length is a positive `int`. -/
structure Usable (s : List Byte) : Prop where
  header_min : 9 ≤ hdrField s
  header_max : hdrField s ≤ 65532
  payload_pos : 1 ≤ payloadField s
  size_lt : frameSize s < 2 ^ 31

instance (s : List Byte) : Decidable (Usable s) :=
  decidable_of_iff (9 ≤ hdrField s ∧ hdrField s ≤ 65532 ∧ 1 ≤ payloadField s ∧
    frameSize s < 2 ^ 31) ⟨fun ⟨a, b, c, d⟩ => ⟨a, b, c, d⟩, fun ⟨a, b, c, d⟩ => ⟨a, b, c, d⟩⟩

section Fields

variable {s t : List Byte}

theorem hdrField_append (h : 3 ≤ s.length) (t : List Byte) : hdrField (s ++ t) = hdrField s := by
  rw [hdrField, hdrField, List.drop_append_of_le_length (by omega),
    List.take_append_of_le_length (by simp; omega)]

theorem hdrEnd_append (h : 3 ≤ s.length) (t : List Byte) : hdrEnd (s ++ t) = hdrEnd s := by
  rw [hdrEnd, hdrEnd, hdrField_append h]

theorem payloadField_append (h : 12 ≤ s.length) (t : List Byte) :
    payloadField (s ++ t) = payloadField s := by
  rw [payloadField, payloadField, List.drop_append_of_le_length (by omega),
    List.take_append_of_le_length (by simp; omega)]

theorem frameSize_append (h : 12 ≤ s.length) (t : List Byte) :
    frameSize (s ++ t) = frameSize s := by
  rw [frameSize, frameSize, hdrEnd_append (by omega), payloadField_append h]

theorem usable_append (h : 12 ≤ s.length) (t : List Byte) : Usable (s ++ t) ↔ Usable s := by
  constructor
  · rintro ⟨a, b, c, d⟩
    rw [hdrField_append (by omega)] at a b
    rw [payloadField_append h] at c
    rw [frameSize_append h] at d
    exact ⟨a, b, c, d⟩
  · rintro ⟨a, b, c, d⟩
    refine ⟨?_, ?_, ?_, ?_⟩
    · rwa [hdrField_append (by omega)]
    · rwa [hdrField_append (by omega)]
    · rwa [payloadField_append h]
    · rwa [frameSize_append h]

theorem hdrField_take {n : ℕ} (h : 3 ≤ n) (hn : n ≤ s.length) :
    hdrField (s.take n) = hdrField s := by
  rw [← hdrField_append (by simp; omega) (s.drop n), List.take_append_drop]

theorem hdrEnd_take {n : ℕ} (h : 3 ≤ n) (hn : n ≤ s.length) : hdrEnd (s.take n) = hdrEnd s := by
  rw [hdrEnd, hdrEnd, hdrField_take h hn]

theorem payloadField_take {n : ℕ} (h : 12 ≤ n) (hn : n ≤ s.length) :
    payloadField (s.take n) = payloadField s := by
  rw [← payloadField_append (by simp; omega) (s.drop n), List.take_append_drop]

theorem frameSize_take {n : ℕ} (h : 12 ≤ n) (hn : n ≤ s.length) :
    frameSize (s.take n) = frameSize s := by
  rw [frameSize, frameSize, hdrEnd_take (by omega) hn, payloadField_take h hn]

theorem hdrField_lt (s : List Byte) : hdrField s < 65536 := by
  have h := beValue_lt ((s.drop 1).take 2)
  have hlen : ((s.drop 1).take 2).length ≤ 2 := by simp
  calc hdrField s < 256 ^ ((s.drop 1).take 2).length := h
    _ ≤ 256 ^ 2 := Nat.pow_le_pow_right (by omega) hlen
    _ = 65536 := by norm_num

theorem payloadField_lt (s : List Byte) : payloadField s < 2 ^ 32 := by
  have h := beValue_lt ((s.drop 8).take 4)
  have hlen : ((s.drop 8).take 4).length ≤ 4 := by simp
  calc payloadField s < 256 ^ ((s.drop 8).take 4).length := h
    _ ≤ 256 ^ 4 := Nat.pow_le_pow_right (by omega) hlen
    _ = 2 ^ 32 := by norm_num

end Fields

/-- The marker `0xFF`, two bytes for the header length `h`, `h` header bytes of which the sixth to
the ninth hold the payload length, and the payload. -/
def wire : Framer Byte where
  size s :=
    if 12 ≤ s.length ∧ s.head? = some 0xFF ∧ Usable s then some (frameSize s) else none
  size_pos := by
    intro s L h
    simp only [Option.ite_none_right_eq_some, Option.some.injEq] at h
    have := h.1.2.2.payload_pos
    simp only [frameSize] at h
    omega
  size_append := by
    intro s L t h
    simp only [Option.ite_none_right_eq_some, Option.some.injEq] at h ⊢
    obtain ⟨⟨h12, hhead, hu⟩, rfl⟩ := h
    refine ⟨⟨by simp; omega, ?_, (usable_append h12 t).mpr hu⟩, frameSize_append h12 t⟩
    rw [List.head?_append, hhead]
    rfl
  size_take := by
    intro s L h hle
    simp only [Option.ite_none_right_eq_some, Option.some.injEq] at h ⊢
    obtain ⟨⟨h12, hhead, hu⟩, rfl⟩ := h
    have hlarge : 12 ≤ frameSize s := by
      have := hu.header_min
      simp only [frameSize, hdrEnd]
      omega
    refine ⟨⟨by simp; omega, ?_, ?_⟩, frameSize_take hlarge hle⟩
    · rw [List.head?_take, if_neg (by omega), hhead]
    · rw [← usable_append (by simp; omega) (s.drop (frameSize s)), List.take_append_drop]
      exact hu

theorem wire_size_eq_some {s : List Byte} {L : ℕ} :
    wire.size s = some L ↔
      12 ≤ s.length ∧ s.head? = some 0xFF ∧ Usable s ∧ L = frameSize s := by
  simp only [wire, Option.ite_none_right_eq_some, Option.some.injEq]
  constructor
  · rintro ⟨⟨a, b, c⟩, rfl⟩
    exact ⟨a, b, c, rfl⟩
  · rintro ⟨a, b, c, rfl⟩
    exact ⟨⟨a, b, c⟩, rfl⟩

theorem wire_isFrame_iff {f : List Byte} :
    wire.IsFrame f ↔ f.head? = some 0xFF ∧ Usable f ∧ f.length = frameSize f := by
  rw [Framer.IsFrame, wire_size_eq_some]
  constructor
  · rintro ⟨-, b, c, d⟩
    exact ⟨b, c, d⟩
  · rintro ⟨b, c, d⟩
    refine ⟨?_, b, c, d⟩
    have := c.header_min
    simp only [frameSize, hdrEnd] at d
    omega

/-- An open stretch of bytes is short, does not begin like a frame, or misses part of its frame. -/
theorem wire_isOpen_iff {s : List Byte} :
    wire.IsOpen s ↔ (12 ≤ s.length → s.head? = some 0xFF → Usable s → s.length < frameSize s) := by
  constructor
  · intro h h12 hhead hu
    exact h _ (wire_size_eq_some.mpr ⟨h12, hhead, hu, rfl⟩)
  · intro h L hL
    obtain ⟨h12, hhead, hu, rfl⟩ := wire_size_eq_some.mp hL
    exact h h12 hhead hu

end P2Purr
