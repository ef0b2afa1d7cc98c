import Mathlib.Data.Int.Log
import Mathlib.Data.Rat.Floor
import Mathlib.Tactic.Linarith
import Mathlib.Tactic.Positivity
import Mathlib.Tactic.Ring

namespace P2Purr.BinaryFormat

structure Format where
  exponentBits : ℕ
  significandBits : ℕ
  exponentBits_pos : 0 < exponentBits

namespace Format

def width (f : Format) : ℕ := 1 + f.exponentBits + f.significandBits

def bias (f : Format) : ℕ := 2 ^ (f.exponentBits - 1) - 1

end Format

def binary32 : Format := ⟨8, 23, by decide⟩

def binary64 : Format := ⟨11, 52, by decide⟩

/-- A number with the leading bit 1 and an exponent that the format has room for. -/
@[ext]
structure Normal (f : Format) where
  negative : Bool
  exponent : ℤ
  significand : ℕ
  exponent_min : 1 - f.bias ≤ exponent
  exponent_max : exponent ≤ f.bias
  significand_lt : significand < 2 ^ f.significandBits

namespace Normal

variable {f : Format} (x : Normal f)

def fraction : ℚ := 1 + x.significand / 2 ^ f.significandBits

def magnitude : ℚ := x.fraction * 2 ^ x.exponent

def value : ℚ := (if x.negative then -1 else 1) * x.magnitude

def sign : ℕ := if x.negative then 1 else 0

def biased : ℕ := (x.exponent + f.bias).toNat

def pattern : ℕ :=
  x.sign <<< (f.width - 1) ||| x.biased <<< f.significandBits ||| x.significand

theorem one_le_fraction : 1 ≤ x.fraction := by
  unfold fraction
  have hnonneg : (0 : ℚ) ≤ x.significand / 2 ^ f.significandBits := by positivity
  linarith

theorem fraction_lt_two : x.fraction < 2 := by
  unfold fraction
  have hlt : (x.significand : ℚ) < 2 ^ f.significandBits := by exact_mod_cast x.significand_lt
  have hpos : (0 : ℚ) < 2 ^ f.significandBits := by positivity
  have hdiv : (x.significand : ℚ) / 2 ^ f.significandBits < 1 := (div_lt_one hpos).mpr hlt
  linarith

theorem magnitude_pos : 0 < x.magnitude := by
  have hfraction := x.one_le_fraction
  exact mul_pos (by linarith) (zpow_pos (by norm_num) _)

theorem value_neg_iff : x.value < 0 ↔ x.negative = true := by
  have hpos := x.magnitude_pos
  unfold value
  cases x.negative with
  | true => simpa using hpos
  | false => simpa using hpos.le

theorem value_ne_zero : x.value ≠ 0 := by
  have hpos := x.magnitude_pos
  unfold value
  cases x.negative with
  | true => simpa using hpos.ne'
  | false => simpa using hpos.ne'

/-- The exponent is the logarithm, rounded down. -/
theorem log_magnitude : Int.log 2 x.magnitude = x.exponent := by
  have hpos := x.magnitude_pos
  have hpow : (0 : ℚ) < 2 ^ x.exponent := zpow_pos (by norm_num) _
  apply le_antisymm
  · have hlt : x.magnitude < ((2 : ℕ) : ℚ) ^ (x.exponent + 1) := by
      rw [Nat.cast_ofNat, zpow_add_one₀ (by norm_num), mul_comm (2 ^ x.exponent : ℚ)]
      exact mul_lt_mul_of_pos_right x.fraction_lt_two hpow
    have hlog := (Int.lt_zpow_iff_log_lt (by norm_num) hpos).mp hlt
    omega
  · apply (Int.zpow_le_iff_le_log (by norm_num) hpos).mp
    rw [Nat.cast_ofNat]
    exact le_mul_of_one_le_left hpow.le x.one_le_fraction

theorem biased_cast : (x.biased : ℤ) = x.exponent + f.bias := by
  have hmin := x.exponent_min
  unfold biased
  omega

theorem biased_lt : x.biased < 2 ^ f.exponentBits := by
  have hmax := x.exponent_max
  have hpos : 0 < 2 ^ (f.exponentBits - 1) := by positivity
  have hdouble : 2 ^ f.exponentBits = 2 * 2 ^ (f.exponentBits - 1) := by
    rw [← pow_succ', Nat.sub_add_cancel f.exponentBits_pos]
  unfold biased
  unfold Format.bias at *
  omega

def body : ℕ := x.biased * 2 ^ f.significandBits + x.significand

theorem body_lt : x.body < 2 ^ (f.width - 1) := by
  have hbiased : (x.biased + 1) * 2 ^ f.significandBits ≤
      2 ^ f.exponentBits * 2 ^ f.significandBits := Nat.mul_le_mul_right _ x.biased_lt
  have hwidth : f.width - 1 = f.exponentBits + f.significandBits := by
    unfold Format.width
    omega
  have hlt := x.significand_lt
  rw [hwidth, pow_add, body]
  rw [Nat.add_mul, Nat.one_mul] at hbiased
  omega

theorem body_eq : x.biased <<< f.significandBits ||| x.significand = x.body := by
  rw [← Nat.shiftLeft_add_eq_or_of_lt x.significand_lt, Nat.shiftLeft_eq, body]

theorem pattern_eq : x.pattern = x.sign * 2 ^ (f.width - 1) + x.body := by
  rw [pattern, Nat.or_assoc, body_eq, ← Nat.shiftLeft_add_eq_or_of_lt x.body_lt, Nat.shiftLeft_eq]

theorem pattern_lt : x.pattern < 2 ^ f.width := by
  have hbody := x.body_lt
  have hdouble : 2 ^ f.width = 2 * 2 ^ (f.width - 1) := by
    rw [← pow_succ']
    congr 1
    unfold Format.width
    omega
  have hsign : x.sign = 0 ∨ x.sign = 1 := by
    unfold sign
    cases x.negative <;> simp
  rw [pattern_eq]
  cases hsign with
  | inl h =>
    rw [h]
    omega
  | inr h =>
    rw [h]
    omega

theorem div_mod_inj {n a b r s : ℕ} (hr : r < n) (hs : s < n) (h : a * n + r = b * n + s) :
    a = b ∧ r = s := by
  have hdiv : ∀ q t, t < n → (q * n + t) / n = q := by
    intro q t ht
    rw [Nat.mul_comm, Nat.mul_add_div (by omega), Nat.div_eq_of_lt ht, Nat.add_zero]
  have hab : a = b := by rw [← hdiv a r hr, h, hdiv b s hs]
  rw [hab] at h
  exact ⟨hab, by omega⟩

theorem pattern_injective : Function.Injective (pattern (f := f)) := by
  intro x y h
  rw [pattern_eq, pattern_eq] at h
  have hbody := div_mod_inj x.body_lt y.body_lt h
  have hfields := div_mod_inj x.significand_lt y.significand_lt hbody.2
  have hexponent : x.exponent = y.exponent := by
    have hx := x.biased_cast
    have hy := y.biased_cast
    rw [hfields.1] at hx
    omega
  have hsign : x.negative = y.negative := by
    have hs := hbody.1
    unfold sign at hs
    cases hx : x.negative <;> cases hy : y.negative <;> simp [hx, hy] at hs ⊢
  exact Normal.ext hsign hexponent hfields.2

end Normal

end P2Purr.BinaryFormat
