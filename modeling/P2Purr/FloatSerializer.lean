import P2Purr.BinaryFormat

namespace P2Purr.Serializer
open BinaryFormat

inductive Precision
  | halfPrecision | singlePrecision | doublePrecision | x86ExtendedPrecision | quad
  deriving DecidableEq, Repr

structure PrecisionInfo where
  numSignBits : ℤ := 1
  numExponentBits : ℤ
  numSignificandBits : ℤ
  exponentBias : ℤ
  totalNumBits : ℤ
  deriving DecidableEq, Repr

/-- `pi` is the local as it is before the `switch`, which leaves it alone for `HALF_PRECISION`. -/
def getPrecisionInfo (pi : PrecisionInfo) (p : Precision) : PrecisionInfo :=
  let pi := { pi with numSignBits := 1 }
  match p with
  | .singlePrecision =>
    { pi with
      numExponentBits := 8, numSignificandBits := 23, totalNumBits := 32, exponentBias := 127 }
  | .doublePrecision =>
    { pi with
      numExponentBits := 11, numSignificandBits := 52, totalNumBits := 64, exponentBias := 1023 }
  | .x86ExtendedPrecision =>
    { pi with
      numExponentBits := 15, numSignificandBits := 64, totalNumBits := 80, exponentBias := 16383 }
  | .quad =>
    { pi with
      numExponentBits := 15, numSignificandBits := 112, totalNumBits := 128
      exponentBias := 16383 }
  | .halfPrecision => pi

def ilogb (x : ℚ) : ℤ := Int.log 2 |x|

def scalbn (x : ℚ) (n : ℤ) : ℚ := x * 2 ^ n

def toLongLong (x : ℚ) : Option (BitVec 64) :=
  let n := if 0 ≤ x then ⌊x⌋ else ⌈x⌉
  if -2 ^ 63 ≤ n ∧ n < 2 ^ 63 then some (BitVec.ofInt 64 n) else none

def shiftLeft (x : BitVec 64) (n : ℤ) : Option (BitVec 64) :=
  if 0 ≤ n ∧ n < 64 then some (x <<< n.toNat) else none

/-- The local `sign` is set for negative numbers only; what it holds before is an argument.  A
`long double` is a rational, and an undefined shift has no result. -/
def serializeFloat (sign : BitVec 64) (pi : PrecisionInfo) (fracNum : ℚ) (p : Precision) :
    Option (BitVec 64) :=
  let pInfo := getPrecisionInfo pi p
  if fracNum = 0 then some 0
  else do
    let (sign, fracNum) := if fracNum < 0 then (1, fracNum * -1) else (sign, fracNum)
    let exponent := ilogb fracNum
    let floatNorm := scalbn fracNum (exponent * -1)
    let floatNorm := floatNorm - 1
    let biasedExponent := BitVec.ofInt 64 (exponent + pInfo.exponentBias)
    let significand ← toLongLong (scalbn floatNorm pInfo.numSignificandBits)
    let signBits ← shiftLeft sign pInfo.totalNumBits
    let exponentBits ← shiftLeft biasedExponent pInfo.numSignificandBits
    pure (signBits ||| exponentBits ||| significand)

inductive Promises : Precision → Format → Prop
  | single : Promises .singlePrecision binary32
  | double : Promises .doublePrecision binary64

variable {p : Precision} {f : Format} {sign : BitVec 64} {pi : PrecisionInfo} {x y : Normal f}

theorem Promises.info (h : Promises p f) (pi : PrecisionInfo) :
    (getPrecisionInfo pi p).numSignificandBits = f.significandBits ∧
      (getPrecisionInfo pi p).exponentBias = f.bias ∧
      (getPrecisionInfo pi p).totalNumBits = f.width := by
  cases h with
  | single => exact ⟨rfl, rfl, rfl⟩
  | double => exact ⟨rfl, rfl, rfl⟩

theorem Promises.width_le (h : Promises p f) : f.width ≤ 64 := by
  cases h with
  | single => decide
  | double => decide

theorem toLongLong_natCast {n : ℕ} (hn : n < 2 ^ 63) :
    toLongLong (n : ℚ) = some (BitVec.ofNat 64 n) := by
  have hnonneg : (0 : ℚ) ≤ n := Nat.cast_nonneg n
  have hrange : -2 ^ 63 ≤ (n : ℤ) ∧ (n : ℤ) < 2 ^ 63 := by
    constructor
    · omega
    · exact_mod_cast hn
  unfold toLongLong
  simp only [hnonneg, ↓reduceIte, Int.floor_natCast, hrange, and_self]
  rfl

theorem scalbn_normalised (x : Normal f) :
    scalbn (scalbn x.magnitude (x.exponent * -1) - 1) f.significandBits = x.significand := by
  have hpow : (2 : ℚ) ^ x.exponent ≠ 0 := zpow_ne_zero _ (by norm_num)
  have hposk : (2 : ℚ) ^ f.significandBits ≠ 0 := by positivity
  have hnorm : scalbn x.magnitude (x.exponent * -1) = x.fraction := by
    rw [scalbn, Normal.magnitude, mul_neg_one, zpow_neg, mul_assoc, mul_inv_cancel₀ hpow, mul_one]
  rw [hnorm, scalbn, Normal.fraction, add_sub_cancel_left, zpow_natCast, div_mul_cancel₀ _ hposk]

theorem value_sign (x : Normal f) :
    (if x.value < 0 then ((1 : BitVec 64), x.value * -1) else (sign, x.value)) =
      (if x.negative then 1 else sign, x.magnitude) := by
  have hneg := x.value_neg_iff
  cases hx : x.negative with
  | true =>
    rw [if_pos (hneg.mpr hx)]
    simp [Normal.value, hx]
  | false =>
    rw [if_neg (by simp [hneg, hx])]
    simp [Normal.value, hx]

theorem exponent_or_significand (hwidth : f.width ≤ 64) (x : Normal f) :
    BitVec.ofInt 64 (x.exponent + f.bias) <<< f.significandBits |||
      BitVec.ofNat 64 x.significand = BitVec.ofNat 64 x.body := by
  have hbody : x.body < 2 ^ 64 :=
    x.body_lt.trans_le (Nat.pow_le_pow_right (by norm_num) (by omega))
  have hsum : x.body = x.biased <<< f.significandBits + x.significand := by
    rw [Nat.shiftLeft_eq, Normal.body]
  have hshift : x.biased ≤ x.biased <<< f.significandBits := by
    rw [Nat.shiftLeft_eq]
    exact Nat.le_mul_of_pos_right _ (by positivity)
  apply BitVec.eq_of_toNat_eq
  rw [← x.biased_cast, BitVec.ofInt_natCast, BitVec.toNat_or, BitVec.toNat_shiftLeft,
    BitVec.toNat_ofNat, BitVec.toNat_ofNat, BitVec.toNat_ofNat,
    Nat.mod_eq_of_lt (a := x.biased) (by omega), Nat.mod_eq_of_lt (a := x.significand) (by omega),
    Nat.mod_eq_of_lt (a := x.biased <<< _) (by omega), Nat.mod_eq_of_lt hbody, x.body_eq]

/-- The sign goes above all bits of the format, and not on its first bit. -/
theorem serializeFloat_eq (h : Promises p f) (x : Normal f) :
    serializeFloat sign pi x.value p =
      (shiftLeft (if x.negative then 1 else sign) f.width).map (· ||| BitVec.ofNat 64 x.body) := by
  obtain ⟨hk, hbias, htotal⟩ := h.info pi
  have hwidth := h.width_le
  have hkwidth : f.significandBits < f.width := by
    unfold Format.width
    omega
  have hm : x.significand < 2 ^ 63 :=
    x.significand_lt.trans_le (Nat.pow_le_pow_right (by norm_num) (by omega))
  have hlog : ilogb x.magnitude = x.exponent := by
    rw [ilogb, abs_of_pos x.magnitude_pos, x.log_magnitude]
  have hshift : shiftLeft (BitVec.ofInt 64 (x.exponent + f.bias)) f.significandBits =
      some (BitVec.ofInt 64 (x.exponent + f.bias) <<< f.significandBits) := by
    rw [shiftLeft, if_pos (by omega), Int.toNat_natCast]
  unfold serializeFloat
  rw [if_neg x.value_ne_zero, value_sign]
  simp only [hlog, hk, hbias, htotal, scalbn_normalised, toLongLong_natCast hm, hshift,
    Option.bind_eq_bind, Option.bind_some, Option.pure_def]
  cases shiftLeft (if x.negative then 1 else sign) f.width with
  | none => rfl
  | some signBits =>
    simp only [Option.bind_some, Option.map_some, BitVec.or_assoc, exponent_or_significand hwidth]

/-- The encoder is right about positive numbers in single precision, if what is found in `sign`
leaves nothing when it is shifted out. -/
def Encodes (sign : BitVec 64) (p : Precision) (x : Normal f) : Prop :=
  p = .singlePrecision ∧ x.negative = false ∧ sign.toNat % 2 ^ 32 = 0

theorem shiftLeft_binary32 (s : BitVec 64) : shiftLeft s binary32.width = some (s <<< 32) :=
  if_pos (by decide)

theorem shiftLeft_binary64 (s : BitVec 64) : shiftLeft s binary64.width = none :=
  if_neg (by decide)

theorem shiftLeft_or_toNat {body : ℕ} (hbody : body < 2 ^ 32) :
    (sign <<< 32 ||| BitVec.ofNat 64 body).toNat = sign.toNat % 2 ^ 32 * 2 ^ 32 + body := by
  have hlow : (sign <<< 32).toNat = (sign.toNat % 2 ^ 32) <<< 32 := by
    rw [BitVec.toNat_shiftLeft, Nat.shiftLeft_eq, Nat.shiftLeft_eq]
    omega
  rw [BitVec.toNat_or, BitVec.toNat_ofNat, Nat.mod_eq_of_lt (a := body) (by omega), hlow,
    ← Nat.shiftLeft_add_eq_or_of_lt hbody, Nat.shiftLeft_eq]

theorem serializeFloat_pattern_iff (h : Promises p f) (x : Normal f) :
    serializeFloat sign pi x.value p = some (BitVec.ofNat 64 x.pattern) ↔ Encodes sign p x := by
  rw [serializeFloat_eq h]
  unfold Encodes
  cases h with
  | double =>
    simp [shiftLeft_binary64]
  | single =>
    have hbody : x.body < 2 ^ 31 := x.body_lt
    have hpattern : x.pattern = x.sign * 2 ^ 31 + x.body := x.pattern_eq
    simp only [shiftLeft_binary32, Option.map_some, Option.some.injEq, true_and]
    rw [← BitVec.toNat_inj, shiftLeft_or_toNat (by omega), BitVec.toNat_ofNat, hpattern]
    cases hx : x.negative with
    | true =>
      -- the sign is written to bit 32, and belongs on bit 31
      have hsign : x.sign = 1 := by simp [Normal.sign, hx]
      have hone : (1 : BitVec 64).toNat = 1 := rfl
      simp only [hsign, ↓reduceIte, hone, Bool.true_eq_false, false_and, iff_false]
      omega
    | false =>
      have hsign : x.sign = 0 := by simp [Normal.sign, hx]
      simp only [hsign, Bool.false_eq_true, ↓reduceIte, true_and]
      omega

/-- The encoder gives the pattern of its format exactly where `Encodes` holds, and there it keeps
different values apart. -/
theorem serializeFloat_iff (h : Promises p f) :
    (∀ sign pi (x : Normal f),
      serializeFloat sign pi x.value p = some (BitVec.ofNat 64 x.pattern) ↔ Encodes sign p x) ∧
    ∀ sign sign' pi pi' (x y : Normal f), Encodes sign p x → Encodes sign' p y →
      x.value ≠ y.value →
        serializeFloat sign pi x.value p ≠ serializeFloat sign' pi' y.value p := by
  refine ⟨fun sign pi x => serializeFloat_pattern_iff h x, ?_⟩
  intro sign sign' pi pi' x y hx hy hne hsame
  have hwidth : 2 ^ f.width ≤ 2 ^ 64 := Nat.pow_le_pow_right (by norm_num) h.width_le
  have hlt := x.pattern_lt
  have hlt' := y.pattern_lt
  rw [(serializeFloat_pattern_iff h x).mpr hx, (serializeFloat_pattern_iff h y).mpr hy,
    Option.some.injEq, ← BitVec.toNat_inj, BitVec.toNat_ofNat, BitVec.toNat_ofNat,
    Nat.mod_eq_of_lt (by omega), Nat.mod_eq_of_lt (by omega)] at hsame
  exact hne (congrArg Normal.value (Normal.pattern_injective hsame))

def one : Normal binary32 := ⟨false, 0, 0, by decide, by decide, by decide⟩

theorem serializeFloat_one :
    serializeFloat 0 ⟨1, 0, 0, 0, 0⟩ 1 .singlePrecision = some 0x3F800000#64 := by
  have hvalue : one.value = 1 := by simp [one, Normal.value, Normal.magnitude, Normal.fraction]
  have hencodes : Encodes 0 .singlePrecision one := ⟨rfl, rfl, rfl⟩
  have hone := ((serializeFloat_iff .single).1 0 ⟨1, 0, 0, 0, 0⟩ one).mpr hencodes
  rwa [hvalue] at hone

def minusOne : Normal binary32 := ⟨true, 0, 0, by decide, by decide, by decide⟩

/-- The sign of a negative number lands above the 32 bits. -/
theorem not_serializeFloat_minusOne :
    minusOne.value = -1 ∧ ∀ sign pi,
      serializeFloat sign pi minusOne.value .singlePrecision = some 0x13F800000#64 ∧
        serializeFloat sign pi minusOne.value .singlePrecision ≠
          some (BitVec.ofNat 64 minusOne.pattern) := by
  constructor
  · simp [minusOne, Normal.value, Normal.magnitude, Normal.fraction]
  · intro sign pi
    have hbody : minusOne.body = 0x3F800000 := rfl
    have hnegative : minusOne.negative = true := rfl
    have hcode : serializeFloat sign pi minusOne.value .singlePrecision =
        some 0x13F800000#64 := by
      rw [serializeFloat_eq .single, shiftLeft_binary32, hbody, if_pos hnegative]
      rfl
    rw [hcode]
    exact ⟨rfl, by decide⟩

def shiftRight (x : BitVec 64) (n : ℤ) : Option (BitVec 64) :=
  if 0 ≤ n ∧ n < 64 then some (x >>> n.toNat) else none

def ldexp (x : ℚ) (n : ℤ) : ℚ := x * 2 ^ n

/-- Exponent and significand are constants; the source has a TODO for them. -/
def deserializeFloat (pi : PrecisionInfo) (num : BitVec 64) (p : Precision) : Option ℚ :=
  let pInfo := getPrecisionInfo pi p
  do
    let sign ← shiftRight num pInfo.totalNumBits
    let biasedExponent : ℤ := 0
    let significand : ℤ := 0 + 1
    let exponent := biasedExponent - pInfo.exponentBias
    let significandNorm := scalbn significand (pInfo.numSignificandBits * -1)
    let originalNum := ldexp significandNorm exponent
    pure (if sign &&& 1 ≠ 0 then originalNum * -1 else originalNum)

theorem and_one_ne_zero_iff (s : BitVec 64) : s &&& 1 ≠ 0 ↔ s.getLsbD 0 = true := by
  have hone : (1 : BitVec 64).toNat = 1 := rfl
  have hzero : (0 : BitVec 64).toNat = 0 := rfl
  rw [Ne, ← BitVec.toNat_inj, BitVec.toNat_and, hone, hzero, Nat.and_one_is_mod, BitVec.getLsbD,
    Nat.testBit_zero, decide_eq_true_iff]
  omega

def decodedMagnitude (f : Format) : ℚ := 2 ^ (-(f.bias : ℤ) - f.significandBits)

theorem decodedMagnitude_pos (f : Format) : 0 < decodedMagnitude f := zpow_pos (by norm_num) _

theorem decodedMagnitude_lt (hbits : 0 < f.significandBits) (x : Normal f) :
    decodedMagnitude f < x.magnitude := by
  have hmin := x.exponent_min
  have hexponent : decodedMagnitude f < 2 ^ x.exponent :=
    zpow_lt_zpow_right₀ (by norm_num) (by omega)
  have hpow : (0 : ℚ) < 2 ^ x.exponent := zpow_pos (by norm_num) _
  calc decodedMagnitude f < 2 ^ x.exponent := hexponent
    _ ≤ x.fraction * 2 ^ x.exponent := le_mul_of_one_le_left hpow.le x.one_le_fraction

theorem deserializeFloat_eq (h : Promises p f) (num : BitVec 64) :
    deserializeFloat pi num p = (shiftRight num f.width).map fun s =>
      (if s.getLsbD 0 then -1 else 1) * decodedMagnitude f := by
  obtain ⟨hk, hbias, htotal⟩ := h.info pi
  have hpow : ldexp (scalbn ((0 + 1 : ℤ) : ℚ) (f.significandBits * -1)) (0 - f.bias) =
      decodedMagnitude f := by
    rw [ldexp, scalbn, decodedMagnitude, zero_add, Int.cast_one, one_mul,
      ← zpow_add₀ (by norm_num : (2 : ℚ) ≠ 0)]
    congr 1
    ring
  unfold deserializeFloat
  simp only [hk, hbias, htotal, hpow, and_one_ne_zero_iff, Option.bind_eq_bind, Option.pure_def]
  cases shiftRight num f.width with
  | none => rfl
  | some s =>
    by_cases hsign : s.getLsbD 0 = true
    · simp [hsign]
    · simp

theorem deserializeFloat_ne_value (h : Promises p f) (num : BitVec 64) (x : Normal f) :
    deserializeFloat pi num p ≠ some x.value := by
  have hbits : 0 < f.significandBits := by
    cases h with
    | single => decide
    | double => decide
  have hlt := decodedMagnitude_lt hbits x
  have hpos := decodedMagnitude_pos f
  rw [deserializeFloat_eq h, Ne, Option.map_eq_some_iff]
  rintro ⟨s, -, heq⟩
  have habs := congrArg abs heq
  have hvalue : |x.value| = x.magnitude := by
    rw [Normal.value, abs_mul, abs_of_pos x.magnitude_pos]
    cases x.negative <;> simp
  have hdecoded : |(if s.getLsbD 0 then -1 else 1) * decodedMagnitude f| = decodedMagnitude f := by
    rw [abs_mul, abs_of_pos hpos]
    cases s.getLsbD 0 <;> simp
  rw [hdecoded, hvalue] at habs
  exact hlt.ne habs

/-- The bit above a pattern of single precision is the lowest of `sign`. -/
theorem getLsbD_shiftLeft_or {body : ℕ} (hbody : body < 2 ^ 31) (s : BitVec 64) :
    ((s <<< 32 ||| BitVec.ofNat 64 body) >>> 32).getLsbD 0 = s.getLsbD 0 := by
  have hclear : body.testBit 32 = false := Nat.testBit_lt_two_pow (by omega)
  rw [BitVec.getLsbD_ushiftRight, BitVec.getLsbD_or, BitVec.getLsbD_shiftLeft,
    BitVec.getLsbD_ofNat, Nat.add_zero, hclear, Nat.sub_self, Bool.and_false, Bool.or_false]
  rfl

theorem deserializeFloat_serializeFloat (h : Promises p f) :
    (∀ sign pi pi' (x : Normal f),
      (serializeFloat sign pi x.value p).bind (deserializeFloat pi' · p) =
        if p = .singlePrecision then
          some ((if x.negative ∨ sign.getLsbD 0 then -1 else 1) * decodedMagnitude f)
        else none) ∧
    ∀ pi num (x : Normal f), deserializeFloat pi num p ≠ some x.value := by
  refine ⟨?_, fun pi num x => deserializeFloat_ne_value h num x⟩
  intro sign pi pi' x
  rw [serializeFloat_eq h]
  cases h with
  | double => rfl
  | single =>
    have hbody : x.body < 2 ^ 31 := x.body_lt
    have hwidth : ∀ num, shiftRight num binary32.width = some (num >>> 32) :=
      fun num => if_pos (by decide)
    rw [shiftLeft_binary32, Option.map_some, Option.bind_some, deserializeFloat_eq .single, hwidth,
      Option.map_some, getLsbD_shiftLeft_or hbody, if_pos rfl]
    cases x.negative with
    | true => simp
    | false => simp

/-- What was 1 comes back as `2 ^ -150`. -/
theorem deserializeFloat_serializeFloat_one :
    (serializeFloat 0 ⟨1, 0, 0, 0, 0⟩ one.value .singlePrecision).bind
      (deserializeFloat ⟨1, 0, 0, 0, 0⟩ · .singlePrecision) = some (2 ^ (-150 : ℤ)) := by
  have hone := (deserializeFloat_serializeFloat .single).1 0 ⟨1, 0, 0, 0, 0⟩ ⟨1, 0, 0, 0, 0⟩ one
  have hplus : one.negative = false := rfl
  have hexponent : -(binary32.bias : ℤ) - binary32.significandBits = -150 := rfl
  rw [hone, if_pos rfl, hplus, decodedMagnitude, hexponent]
  simp

end P2Purr.Serializer
