import AArch64.Float.Arithmetic
import AArch64.Proofs.Floats.IntegerRounding
import AArch64.Proofs.Floats.Values

/-! Rounding that leaves a number as it is. A number of units whose significand fits its format is kept, unless it is past
the infinity, which then takes its place. -/
namespace AArch64

namespace Precision

variable {p : Precision} {n : Nat}

/-- Numbers whose significand has no more digits than the format has. -/
def Representable (p : Precision) (n : Nat) : Prop := ∃ s k, s < 2 * 2 ^ p.fractionBits ∧ n = s * 2 ^ k

theorem representable_of_le (h : n ≤ 2 * 2 ^ p.fractionBits) : p.Representable n := by
  have hpos := Nat.two_pow_pos p.fractionBits
  obtain hlt | rfl := Nat.lt_or_eq_of_le h
  · exact ⟨n, 0, hlt, (Nat.mul_one n).symm⟩
  · exact ⟨1, p.fractionBits + 1, by omega, by ring⟩

theorem Representable.mul_pow (h : p.Representable n) (k : Nat) : p.Representable (n * 2 ^ k) := by
  obtain ⟨s, j, hs, rfl⟩ := h
  exact ⟨s, j + k, hs, by ring⟩

theorem representable_two_pow (p : Precision) (k : Nat) : p.Representable (2 ^ k) := by
  have hpos := Nat.two_pow_pos p.fractionBits
  exact ⟨1, k, by omega, (Nat.one_mul _).symm⟩

/-- Only zeros are dropped. -/
theorem Representable.pow_excess_dvd (h : p.Representable n) : 2 ^ Float.excess p n ∣ n := by
  obtain ⟨s, j, hs, rfl⟩ := h
  obtain rfl | hpos := s.eq_zero_or_pos
  · rw [Nat.zero_mul]
    exact Nat.dvd_zero _
  have hlog : (s * 2 ^ j).log2 < p.fractionBits + 1 + j := by
    rw [Nat.log2_lt (Nat.mul_pos hpos (Nat.two_pow_pos j)).ne', Nat.pow_add, Nat.pow_succ, Nat.mul_comm _ 2]
    exact Nat.mul_lt_mul_of_pos_right hs (Nat.two_pow_pos j)
  have hle : Float.excess p (s * 2 ^ j) ≤ j := by
    rw [Float.excess]
    omega
  exact (Nat.pow_dvd_pow 2 hle).mul_left s

/-- Dropping the excess leaves a significand of the full length, unless nothing is dropped. -/
theorem excess_bounds (p : Precision) (n : Nat) :
    (Float.excess p n = 0 ∨ 2 ^ p.fractionBits * 2 ^ Float.excess p n ≤ n) ∧
      n < 2 * 2 ^ p.fractionBits * 2 ^ Float.excess p n := by
  rw [← Nat.pow_succ', ← Nat.pow_add, ← Nat.pow_add, Float.excess]
  refine ⟨?_, Nat.lt_of_lt_of_le Nat.lt_log2_self (Nat.pow_le_pow_right Nat.two_pos (by omega))⟩
  obtain hle | hlt := le_or_gt n.log2 p.fractionBits
  · exact .inl (Nat.sub_eq_zero_of_le hle)
  · have hn : n ≠ 0 := by
      rintro rfl
      rw [Nat.log2_zero] at hlt
      omega
    rw [Nat.add_sub_cancel' hlt.le]
    exact .inr (Nat.log2_self_le hn)

theorem unitsOf_infinity (p : Precision) : p.unitsOf p.infinity = 2 ^ (p.scale + p.bias + 1) := by
  cases p <;> decide +kernel

/-- Units no further from zero than the infinities. -/
def clamp (p : Precision) (z : ℤ) : ℤ := max (-p.unitsOf p.infinity) (min z (p.unitsOf p.infinity))

variable {z : ℤ}

theorem clamp_eq_self (h : z.natAbs < p.unitsOf p.infinity) : p.clamp z = z := by
  rw [clamp]
  omega

theorem clamp_of_ge (h : p.unitsOf p.infinity ≤ z) : p.clamp z = p.unitsOf p.infinity := by
  rw [clamp]
  omega

theorem clamp_of_le (h : z ≤ -p.unitsOf p.infinity) : p.clamp z = -p.unitsOf p.infinity := by
  rw [clamp]
  omega

/-- The infinity stands for an integer, the next power of two. -/
theorem unitsOf_infinity_eq (p : Precision) :
    (p.unitsOf p.infinity : ℤ) = 2 ^ (p.bias + 1) * (2 ^ p.scale : ℕ) := by
  rw [unitsOf_infinity, Nat.add_assoc, Nat.add_comm, Nat.pow_add]
  push_cast
  rfl

/-- An integer that was picked fits the significand, or the number was one already. -/
theorem Representable.apply (h : p.Representable z.natAbs) (mode : Rounding) :
    p.Representable ((mode.apply z (2 ^ p.scale)).natAbs * 2 ^ p.scale) := by
  have hpos := Nat.two_pow_pos p.scale
  obtain hle | hlt := le_or_gt (mode.apply z (2 ^ p.scale)).natAbs (2 * 2 ^ p.fractionBits)
  · exact (representable_of_le hle).mul_pow _
  · have hmany : 2 * 2 ^ p.fractionBits * 2 ^ p.scale < z.natAbs :=
      Nat.lt_of_not_ge fun hle => hlt.not_ge (Rounding.natAbs_apply_le hpos mode hle)
    obtain ⟨s, k, hs, hk⟩ := id h
    have hscale : p.scale < k := by
      refine (Nat.pow_lt_pow_iff_right Nat.one_lt_two).1 (Nat.lt_of_mul_lt_mul_left (hmany.trans_le ?_))
      exact hk ▸ Nat.mul_le_mul_right _ hs.le
    have hdvd : ((2 ^ p.scale : ℕ) : ℤ) ∣ z :=
      Int.natCast_dvd.2 (hk ▸ (Nat.pow_dvd_pow 2 hscale.le).mul_left s)
    obtain ⟨c, rfl⟩ := hdvd
    rw [mul_comm _ c] at h ⊢
    rwa [Int.natAbs_mul, Int.natAbs_natCast, ← Rounding.apply_mul hpos mode c] at h

theorem two_pow_lt_unitsOf_infinity {k : Nat} (hk : k ≤ p.bias) : 2 ^ k * 2 ^ p.scale < p.unitsOf p.infinity := by
  rw [unitsOf_infinity, ← Nat.pow_add]
  exact Nat.pow_lt_pow_right Nat.one_lt_two (by omega)

end Precision

namespace Float

open Precision

variable {p : Precision} {negative : Bool} {n den : Nat}

theorem toNat_ofParts (negative : Bool) (h : n < 2 ^ (p.bits - 1)) :
    (ofParts p negative n).toNat = negative.toNat * 2 ^ (p.bits - 1) + n := by
  have hbits : 2 ^ p.bits = 2 * 2 ^ (p.bits - 1) := by cases p <;> rfl
  rw [ofParts, BitVec.toNat_ofNat, Nat.mod_eq_of_lt]
  cases negative <;> simp <;> omega

theorem isNegative_ofParts_of_lt (negative : Bool) (h : n < 2 ^ (p.bits - 1)) :
    isNegative (ofParts p negative n) = negative := by
  rw [isNegative, BitVec.msb_eq_decide, toNat_ofParts negative h]
  cases negative <;> simp [h]

theorem isNegative_ofParts (negative : Bool) (h : n ≤ p.infinity) : isNegative (ofParts p negative n) = negative :=
  isNegative_ofParts_of_lt negative (Nat.lt_of_le_of_lt h p.infinity_lt)

theorem isNegative_infinity (p : Precision) (negative : Bool) : isNegative (infinity p negative) = negative :=
  isNegative_ofParts negative (Nat.le_refl _)

theorem isNegative_round (p : Precision) (negative : Bool) (num den : Nat) :
    isNegative (round p negative num den) = negative :=
  isNegative_ofParts negative (Nat.min_le_right _ _)

theorem unitsAbs_ofParts (negative : Bool) (h : n ≤ p.infinity) : unitsAbs (ofParts p negative n) = p.unitsOf n := by
  rw [unitsAbs_eq, magnitude_ofParts negative (Nat.lt_of_le_of_lt h p.infinity_lt)]

theorem representable_unitsAbs (x : Float p) : p.Representable (unitsAbs x) := by
  have hfraction : fraction x < 2 ^ p.fractionBits := Nat.mod_lt _ (Nat.two_pow_pos _)
  rw [unitsAbs]
  split
  · exact ⟨_, 0, by omega, (Nat.mul_one _).symm⟩
  · exact ⟨_, _, by omega, rfl⟩

theorem unitsAbs_round (h : p.Representable n) (hden : 0 < den) :
    unitsAbs (round p negative (n * den) den) = min n (p.unitsOf p.infinity) := by
  obtain ⟨hlow, hhigh⟩ := Precision.excess_bounds p n
  obtain ⟨s, hs⟩ := h.pow_excess_dvd
  rw [round, Nat.mul_div_cancel n hden, unitsAbs_ofParts _ (Nat.min_le_right _ _), p.unitsOf_strictMono.monotone.map_min]
  generalize excess p n = k at *
  have hpos := Nat.two_pow_pos k
  -- the places that are dropped are all zero, so what is left is the significand
  have happly : (Rounding.tiesEven.apply (n * den : ℕ) (den * 2 ^ k)).toNat = s := by
    have hnum : ((n * den : ℕ) : ℤ) = s * (den * 2 ^ k : ℕ) := by
      rw [hs]
      push_cast
      ring
    rw [hnum, Rounding.apply_mul (Nat.mul_pos hden hpos), Int.toNat_natCast]
  rw [Nat.mul_comm] at hs
  rw [happly, p.unitsOf_significand (hlow.imp_right fun h => ?_) ?_, ← hs]
  · exact Nat.le_of_mul_le_mul_right (hs ▸ hhigh.le) hpos
  · exact Nat.le_of_mul_le_mul_right (hs ▸ h) hpos

theorem units_round (negative : Bool) {z : ℤ} (h : p.Representable z.natAbs) (hden : 0 < den)
    (hsign : if negative then z ≤ 0 else 0 ≤ z) : units (round p negative (z.natAbs * den) den) = p.clamp z := by
  rw [units, isNegative_round, unitsAbs_round h hden, Precision.clamp]
  cases negative <;> simp only [Bool.false_eq_true, if_false, if_true] at hsign ⊢ <;> omega

theorem units_roundInt {z : ℤ} (h : p.Representable z.natAbs) (hden : 0 < den) (zeroNegative : Bool) :
    units (roundInt p (z * den) den zeroNegative) = p.clamp z := by
  have hpos : (0 : ℤ) < den := Int.natCast_pos.2 hden
  rw [roundInt, Int.natAbs_mul, Int.natAbs_natCast]
  refine units_round _ h hden ?_
  obtain hneg | rfl | hnonneg := lt_trichotomy z 0
  · have hlt : z * den < 0 := mul_neg_of_neg_of_pos hneg hpos
    rw [if_neg hlt.ne, decide_eq_true hlt]
    exact hneg.le
  · simp
  · have hgt : 0 < z * den := mul_pos hnonneg hpos
    rw [if_neg hgt.ne', decide_eq_false hgt.not_gt]
    exact hnonneg.le

theorem units_neg (x : Float p) : units (neg x) = -units x := by
  have hsign : isNegative (neg x) = !isNegative x := by
    rw [isNegative, neg, BitVec.msb_xor, BitVec.msb_twoPow]
    cases p <;> exact Bool.xor_true _
  rw [units, units, hsign, unitsAbs_eq, unitsAbs_eq, magnitude_neg]
  cases isNegative x <;> simp

/-- The integer that a mode picks for a finite value is on the same side of zero and is a value again. -/
theorem units_integral_of_finite (mode : Rounding) {y : Float p} (h : isInfinite y = false) :
    units (integral mode y) = p.clamp (mode.apply (units y) (2 ^ p.scale) * (2 ^ p.scale : ℕ)) := by
  have hpos := Nat.two_pow_pos p.scale
  have hrepresentable : p.Representable (units y).natAbs := natAbs_units y ▸ representable_unitsAbs y
  have hproduct : (mode.apply (units y) (2 ^ p.scale) * (2 ^ p.scale : ℕ)).natAbs =
      (mode.apply (units y) (2 ^ p.scale)).natAbs * 2 ^ p.scale := by rw [Int.natAbs_mul, Int.natAbs_natCast]
  have hsign : if isNegative y then mode.apply (units y) (2 ^ p.scale) * (2 ^ p.scale : ℕ) ≤ 0
      else 0 ≤ mode.apply (units y) (2 ^ p.scale) * (2 ^ p.scale : ℕ) := by
    split
    · next hnegative =>
      have hy : units y ≤ 0 * (2 ^ p.scale : ℕ) := by simp [units, hnegative]
      exact mul_nonpos_of_nonpos_of_nonneg (Rounding.apply_le hpos mode hy) (Int.natCast_nonneg _)
    · next hnegative =>
      have hy : 0 * (2 ^ p.scale : ℕ) ≤ units y := by simp [units, hnegative]
      exact mul_nonneg (Rounding.le_apply hpos mode hy) (Int.natCast_nonneg _)
  have hround := units_round (isNegative y) (hproduct ▸ hrepresentable.apply mode) Nat.one_pos hsign
  rw [Nat.mul_one, hproduct] at hround
  rw [integral, h, if_neg Bool.false_ne_true, hround]

/-- Rounding to an integer may come after the numbers beyond the infinities have been cut off. -/
theorem units_integral (mode : Rounding) {y : Float p} {z : ℤ} (hz : units y = p.clamp z) :
    units (integral mode y) = p.clamp (mode.apply z (2 ^ p.scale) * (2 ^ p.scale : ℕ)) := by
  have hpos := Nat.two_pow_pos p.scale
  have habs := natAbs_units y
  have hinfinite := isInfinite_eq y
  have hends := p.unitsOf_infinity_eq
  obtain hlt | hge | hle : z.natAbs < p.unitsOf p.infinity ∨ p.unitsOf p.infinity ≤ z ∨ z ≤ -p.unitsOf p.infinity := by
    omega
  · rw [clamp_eq_self hlt] at hz
    rw [decide_eq_false (by omega)] at hinfinite
    rw [units_integral_of_finite mode hinfinite, hz]
  · rw [clamp_of_ge hge] at hz
    rw [decide_eq_true (by omega)] at hinfinite
    have hpast : 2 ^ (p.bias + 1) ≤ mode.apply z (2 ^ p.scale) := Rounding.le_apply hpos mode (hends ▸ hge)
    rw [integral, if_pos hinfinite, hz, clamp_of_ge]
    rw [hends]
    exact mul_le_mul_of_nonneg_right hpast (Int.natCast_nonneg _)
  · rw [clamp_of_le hle] at hz
    rw [decide_eq_true (by omega)] at hinfinite
    have hpast : mode.apply z (2 ^ p.scale) ≤ -2 ^ (p.bias + 1) := Rounding.apply_le hpos mode (by linarith)
    rw [integral, if_pos hinfinite, hz, clamp_of_le]
    rw [hends, ← neg_mul]
    exact mul_le_mul_of_nonneg_right hpast (Int.natCast_nonneg _)

theorem isNaN_integral (mode : Rounding) (y : Float p) : isNaN (integral mode y) = false := by
  rw [integral]
  split
  · next hinfinite => exact isNaN_of_isInfinite hinfinite
  · exact isNaN_round p _ _ _

end Float
end AArch64
