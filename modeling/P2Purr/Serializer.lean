import P2Purr.Memory
import Mathlib.Data.Nat.Bitwise
import Mathlib.Data.Nat.ModEq
import Mathlib.Tactic.Ring

namespace P2Purr.Serializer
open Memory

def byteOf (num : BitVec 64) (byteIdx : ℕ) : Byte :=
  ⟨((num.sshiftRight (8 * byteIdx)) &&& 0xFF#64).setWidth 8⟩

/-- `while(byte_idx >= 0)`, with `byte_idx + 1` bytes left to write. -/
def serializeLoop : ℕ → BitVec 64 → List Byte
  | 0, _ => []
  | n + 1, num => byteOf num n :: serializeLoop n num

def serializeInt16 (num : BitVec 64) : List Byte := [byteOf num 1, byteOf num 0]

def serializeInt32 (num : BitVec 64) : List Byte := serializeLoop 4 num

def serializeInt64 (num : BitVec 64) : List Byte := serializeLoop 8 num

/-- `result = (result << 8) | *buff++` for a `result` of `w` bits, computed at
the width `p` that `result` is promoted to. -/
def shiftIn (w p : ℕ) (result : BitVec w) (b : Byte) : BitVec w :=
  (((result.signExtend p) <<< 8) ||| b.toBitVec.setWidth p).setWidth w

def deserializeLoop (w p : ℕ) (buff : List Byte) : BitVec w := buff.foldl (shiftIn w p) 0

def deserializeInt16 (b₀ b₁ : Byte) : BitVec 16 :=
  shiftIn 16 32 (b₀.toBitVec.setWidth 16) b₁

def deserializeInt32 (buff : List Byte) : BitVec 32 := deserializeLoop 32 32 (buff.take 4)

def deserializeInt64 (buff : List Byte) : BitVec 64 := deserializeLoop 64 64 (buff.take 8)

def beValue (bs : List Byte) : ℕ := bs.foldl (fun a b => 256 * a + b.toNat) 0

@[simp] theorem beValue_nil : beValue [] = 0 := rfl

theorem foldl_be (a : ℕ) (bs : List Byte) :
    bs.foldl (fun a b => 256 * a + b.toNat) a = 256 ^ bs.length * a + beValue bs := by
  induction bs generalizing a with
  | nil => simp
  | cons b bs ih =>
    rw [beValue, List.foldl_cons, List.foldl_cons, ih, ih (256 * 0 + b.toNat), List.length_cons]
    ring

theorem beValue_cons (b : Byte) (bs : List Byte) :
    beValue (b :: bs) = 256 ^ bs.length * b.toNat + beValue bs := by
  rw [beValue, List.foldl_cons, foldl_be]
  simp

theorem beValue_pair (b₀ b₁ : Byte) : beValue [b₀, b₁] = 256 * b₀.toNat + b₁.toNat := by
  simp [beValue]

theorem beValue_lt (bs : List Byte) : beValue bs < 256 ^ bs.length := by
  induction bs with
  | nil => simp
  | cons b bs ih =>
    rw [beValue_cons, List.length_cons, pow_succ]
    have hb := b.toNat_lt
    have : 256 ^ bs.length * b.toNat ≤ 256 ^ bs.length * 255 := Nat.mul_le_mul_left _ (by omega)
    omega

/-- Strings of one length are ordered as their values are. -/
theorem lt_iff_beValue_lt {bs bs' : List Byte} (hlen : bs.length = bs'.length) :
    bs < bs' ↔ beValue bs < beValue bs' := by
  induction bs generalizing bs' with
  | nil =>
    rw [List.eq_nil_of_length_eq_zero hlen.symm]
    simp
  | cons b bs ih =>
    cases bs' with
    | nil => simp at hlen
    | cons b' bs' =>
      have hlen' : bs.length = bs'.length := by simpa using hlen
      have hbs := beValue_lt bs
      have hbs' := beValue_lt bs'
      rw [List.cons_lt_cons_iff, ih hlen', beValue_cons, beValue_cons, hlen', UInt8.lt_iff_toNat_lt]
      rw [hlen'] at hbs
      -- the first byte weighs more than all that is behind it
      rcases Nat.lt_trichotomy b.toNat b'.toNat with hlt | heq | hgt
      · have hstep : 256 ^ bs'.length * (b.toNat + 1) ≤ 256 ^ bs'.length * b'.toNat :=
          Nat.mul_le_mul_left _ hlt
        rw [Nat.mul_add, Nat.mul_one] at hstep
        simp only [hlt, true_or, true_iff]
        omega
      · simp [UInt8.toNat_inj.mp heq]
      · have hstep : 256 ^ bs'.length * (b'.toNat + 1) ≤ 256 ^ bs'.length * b.toNat :=
          Nat.mul_le_mul_left _ hgt
        have hne : b ≠ b' := by
          rintro rfl
          omega
        rw [Nat.mul_add, Nat.mul_one] at hstep
        simp only [Nat.not_lt.mpr hgt.le, hne, false_and, or_self, false_iff]
        omega

theorem beValue_inj {bs bs' : List Byte} (hlen : bs.length = bs'.length)
    (h : beValue bs = beValue bs') : bs = bs' := by
  apply List.le_antisymm
  · rw [← List.not_lt, lt_iff_beValue_lt hlen.symm, h]
    exact lt_irrefl _
  · rw [← List.not_lt, lt_iff_beValue_lt hlen, h]
    exact lt_irrefl _

theorem shiftIn_toNat {w p : ℕ} (hw : w ≤ p) (r : BitVec w) (b : Byte) :
    (shiftIn w p r b).toNat = (256 * r.toNat + b.toNat) % 2 ^ w := by
  have hbits : shiftIn w p r b = (r <<< 8) ||| b.toBitVec.setWidth w := by
    apply BitVec.eq_of_getLsbD_eq
    intro i hi
    simp only [shiftIn, BitVec.getLsbD_setWidth, BitVec.getLsbD_or, BitVec.getLsbD_shiftLeft,
      BitVec.getLsbD_signExtend, hi, decide_true, Bool.true_and, show i < p by omega,
      show i - 8 < p by omega, show i - 8 < w by omega, ↓reduceIte]
  have hb : b.toNat < 2 ^ 8 := b.toNat_lt
  rw [hbits, BitVec.toNat_or, BitVec.toNat_shiftLeft, BitVec.toNat_setWidth,
    ← Nat.or_mod_two_pow, UInt8.toNat_toBitVec, ← Nat.shiftLeft_add_eq_or_of_lt hb,
    Nat.shiftLeft_eq]
  ring_nf

theorem deserializeLoop_toNat {w p : ℕ} (hw : w ≤ p) (bs : List Byte) :
    (deserializeLoop w p bs).toNat = beValue bs % 2 ^ w := by
  suffices ∀ r : BitVec w, (bs.foldl (shiftIn w p) r).toNat =
      bs.foldl (fun a b => 256 * a + b.toNat) r.toNat % 2 ^ w by
    simpa [deserializeLoop, beValue] using this 0
  induction bs with
  | nil => intro r; simp [Nat.mod_eq_of_lt r.isLt]
  | cons b bs ih =>
    intro r
    rw [List.foldl_cons, ih, shiftIn_toNat hw, List.foldl_cons, foldl_be, foldl_be]
    exact Nat.ModEq.add_right _ (Nat.ModEq.mul_left _ (Nat.mod_modEq _ _))

theorem deserializeInt16_toNat (b₀ b₁ : Byte) :
    (deserializeInt16 b₀ b₁).toNat = beValue [b₀, b₁] := by
  have h₀ := b₀.toNat_lt
  have h₁ := b₁.toNat_lt
  rw [deserializeInt16, shiftIn_toNat (by omega), beValue_pair, BitVec.toNat_setWidth,
    UInt8.toNat_toBitVec]
  omega

theorem deserializeLoop_take {w k : ℕ} (hw : w = 8 * k) {b : List Byte} (hb : b.length = k) :
    (deserializeLoop w w (b.take k)).toNat = beValue b := by
  have hlt := beValue_lt b
  have hpow : 2 ^ w = 256 ^ k := by rw [hw, pow_mul]; norm_num
  rw [List.take_of_length_le hb.le, deserializeLoop_toNat le_rfl, hpow]
  exact Nat.mod_eq_of_lt (by rwa [hb] at hlt)

theorem deserializeInt32_toNat {bs : List Byte} (h : bs.length = 4) :
    (deserializeInt32 bs).toNat = beValue bs := deserializeLoop_take rfl h

/-- The bits that the mask leaves are bits of `num` itself, not copies of its sign. -/
theorem byteOf_toNat (num : BitVec 64) {i : ℕ} (hi : i < 8) :
    (byteOf num i).toNat = num.toNat / 256 ^ i % 256 := by
  have hpow : 2 ^ (8 * i) = 256 ^ i := by rw [pow_mul]; norm_num
  have hmask : 0xFF#64 = (BitVec.allOnes 8).setWidth 64 := rfl
  have hbits : ((num.sshiftRight (8 * i)) &&& 0xFF#64).setWidth 8 = num.extractLsb' (8 * i) 8 := by
    apply BitVec.eq_of_getLsbD_eq
    intro j hj
    have hlow : ¬ 64 ≤ j := by omega
    have hin : 8 * i + j < 64 := by omega
    have hwide : j < 64 := by omega
    rw [hmask]
    simp only [BitVec.getLsbD_setWidth, BitVec.getLsbD_and, BitVec.getLsbD_sshiftRight,
      BitVec.getLsbD_allOnes, BitVec.getLsbD_extractLsb', hj, hin, hwide, hlow, decide_true,
      decide_false, Bool.true_and, Bool.and_true, Bool.not_false, ↓reduceIte]
  change (((num.sshiftRight (8 * i)) &&& 0xFF#64).setWidth 8).toNat = _
  rw [hbits, BitVec.extractLsb'_toNat, Nat.shiftRight_eq_div_pow, hpow]

@[simp] theorem serializeLoop_length (n : ℕ) (num : BitVec 64) :
    (serializeLoop n num).length = n := by
  induction n with
  | zero => rfl
  | succ n ih => simp [serializeLoop, ih]

theorem beValue_serializeLoop {k : ℕ} (hk : k ≤ 8) (num : BitVec 64) :
    beValue (serializeLoop k num) = num.toNat % 256 ^ k := by
  induction k with
  | zero => simp [serializeLoop, Nat.mod_one]
  | succ k ih =>
    rw [serializeLoop, beValue_cons, serializeLoop_length, byteOf_toNat num (by omega),
      ih (by omega), pow_succ, Nat.mod_mul]
    ring

theorem serializeInt16_eq (num : BitVec 64) : serializeInt16 num = serializeLoop 2 num := rfl

theorem beValue_serializeInt32 {n : ℕ} (hn : n < 2 ^ 32) :
    beValue (serializeInt32 (BitVec.ofNat 64 n)) = n := by
  rw [serializeInt32, beValue_serializeLoop (by omega), BitVec.toNat_ofNat]
  omega

end P2Purr.Serializer
