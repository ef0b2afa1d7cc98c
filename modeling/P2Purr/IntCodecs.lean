import P2Purr.Serializer

namespace P2Purr.Serializer
open Memory

structure IntCodec (w : ℕ) where
  serialize : BitVec 64 → List Byte
  deserialize : List Byte → BitVec w

/-- The two bytes are read one after the other, not in a loop. -/
def int16 : IntCodec 16 where
  serialize := serializeInt16
  deserialize buff := deserializeInt16 (buff.getD 0 0) (buff.getD 1 0)

def int32 : IntCodec 32 where
  serialize := serializeInt32
  deserialize := deserializeInt32

def int64 : IntCodec 64 where
  serialize := serializeInt64
  deserialize := deserializeInt64

namespace IntCodec

variable {w k : ℕ} {c : IntCodec w}

/-- The decoder takes back the encoder modulo `2 ^ w`, the encoder the decoder; and for values that
are not negative, the bytes are ordered as the numbers are. -/
structure Inverse (c : IntCodec w) : Prop where
  length (v : BitVec 64) : (c.serialize v).length = w / 8
  decode (v : BitVec 64) : (c.deserialize (c.serialize v)).toInt = v.toInt.bmod (2 ^ w)
  encode (b : List Byte) : b.length = w / 8 → c.serialize ((c.deserialize b).signExtend 64) = b
  order (m n : ℕ) : m < 2 ^ (w - 1) → n < 2 ^ (w - 1) →
    (c.serialize (BitVec.ofNat 64 m) < c.serialize (BitVec.ofNat 64 n) ↔ m < n)

structure BigEndian (c : IntCodec w) (k : ℕ) : Prop where
  width : w = 8 * k
  fits : 1 ≤ k ∧ k ≤ 8
  length (v : BitVec 64) : (c.serialize v).length = k
  value (v : BitVec 64) : beValue (c.serialize v) = v.toNat % 256 ^ k
  result (b : List Byte) : b.length = k → (c.deserialize b).toNat = beValue b

namespace BigEndian

variable (h : c.BigEndian k)

include h

theorem width_le : w ≤ 64 := by
  have hwidth := h.width
  have hfits := h.fits
  omega

theorem two_pow : 2 ^ w = 256 ^ k := by
  rw [h.width, pow_mul]
  norm_num

theorem deserialize_serialize (v : BitVec 64) : c.deserialize (c.serialize v) = v.setWidth w := by
  apply BitVec.eq_of_toNat_eq
  rw [h.result _ (h.length v), h.value, BitVec.toNat_setWidth, h.two_pow]

theorem decode (v : BitVec 64) :
    (c.deserialize (c.serialize v)).toInt = v.toInt.bmod (2 ^ w) := by
  have hdvd : 2 ^ w ∣ 2 ^ 64 := pow_dvd_pow 2 h.width_le
  rw [h.deserialize_serialize, BitVec.toInt_setWidth, BitVec.toInt_eq_toNat_bmod v,
    Int.bmod_bmod_of_dvd hdvd]

/-- What the sign extension adds is a multiple of `2 ^ w`. -/
theorem serialize_deserialize {b : List Byte} (hb : b.length = k) :
    c.serialize ((c.deserialize b).signExtend 64) = b := by
  apply beValue_inj ((h.length _).trans hb.symm)
  have hwidth := h.width_le
  have hback : ((c.deserialize b).signExtend 64).setWidth w = c.deserialize b := by
    ext i hi
    have hi64 : i < 64 := by omega
    simp [BitVec.getElem_signExtend, hi, hi64]
  rw [h.value, ← h.two_pow, ← BitVec.toNat_setWidth, hback, h.result b hb]

theorem order {m n : ℕ} (hm : m < 2 ^ (w - 1)) (hn : n < 2 ^ (w - 1)) :
    c.serialize (BitVec.ofNat 64 m) < c.serialize (BitVec.ofNat 64 n) ↔ m < n := by
  have hpos : w - 1 + 1 = w := by
    have hw := h.width
    have hfits := h.fits
    omega
  have hpow : 2 ^ w = 2 * 2 ^ (w - 1) := by rw [← pow_succ', hpos]
  have hwide : 2 ^ w ≤ 2 ^ 64 := Nat.pow_le_pow_right (by omega) h.width_le
  have hvalue : ∀ i, i < 2 ^ (w - 1) → (BitVec.ofNat 64 i).toNat % 256 ^ k = i := by
    intro i hi
    rw [← h.two_pow, BitVec.toNat_ofNat, Nat.mod_eq_of_lt (by omega), Nat.mod_eq_of_lt (by omega)]
  rw [lt_iff_beValue_lt ((h.length _).trans (h.length _).symm), h.value, h.value, hvalue m hm,
    hvalue n hn]

theorem inverse : c.Inverse := by
  have hk : w / 8 = k := by
    have hwidth := h.width
    omega
  refine ⟨fun v => ?_, h.decode, fun b hb => h.serialize_deserialize (hb.trans hk),
    fun m n => h.order⟩
  rw [hk]
  exact h.length v

end BigEndian

end IntCodec

theorem int16_bigEndian : int16.BigEndian 2 where
  width := rfl
  fits := by decide
  length _ := rfl
  value v := by
    show beValue (serializeInt16 v) = _
    rw [serializeInt16_eq]
    exact beValue_serializeLoop (by decide) v
  result b hb := by
    match b, hb with
    | [b₀, b₁], _ => exact deserializeInt16_toNat b₀ b₁

theorem int32_bigEndian : int32.BigEndian 4 where
  width := rfl
  fits := by decide
  length v := serializeLoop_length 4 v
  value v := beValue_serializeLoop (by decide) v
  result b hb := deserializeLoop_take rfl hb

theorem int64_bigEndian : int64.BigEndian 8 where
  width := rfl
  fits := by decide
  length v := serializeLoop_length 8 v
  value v := beValue_serializeLoop (by decide) v
  result b hb := deserializeLoop_take rfl hb

/-- The codecs are inverse to each other at every width, and big-endian. -/
theorem intCodecs_inverse : int16.Inverse ∧ int32.Inverse ∧ int64.Inverse :=
  ⟨int16_bigEndian.inverse, int32_bigEndian.inverse, int64_bigEndian.inverse⟩

example : int16.deserialize (int16.serialize (-2)) = -2 := by decide

end P2Purr.Serializer
