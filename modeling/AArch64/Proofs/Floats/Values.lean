import AArch64.Float.Compare
import AArch64.Proofs.Floats.Encoding
import Mathlib.Data.Rat.Floor
import Mathlib.Order.WithBot
import Mathlib.Tactic.FieldSimp

/-! The numbers that encodings stand for. A finite encoding has a sign, a significand and a power of two, and with the
infinities at both ends the numbers are in one line. Comparing numbers of units is comparing places on this line. -/
namespace AArch64

namespace Precision

def bias (p : Precision) : Nat := 2 ^ (p.exponentBits - 1) - 1

theorem scale_eq (p : Precision) : (p.scale : ℤ) = p.fractionBits + p.bias - 1 := by cases p <;> rfl

theorem fractionBits_lt (p : Precision) : p.fractionBits < p.bits - 1 := by cases p <;> decide

def unitsOf (p : Precision) (m : Nat) : Nat :=
  if m / 2 ^ p.fractionBits = 0 then m % 2 ^ p.fractionBits
  else (2 ^ p.fractionBits + m % 2 ^ p.fractionBits) * 2 ^ (m / 2 ^ p.fractionBits - 1)

/-- The magnitude with `k` places dropped and the significand `s`. A significand with one bit too many counts as the next
power of two. -/
theorem unitsOf_significand (p : Precision) {k s : Nat} (h : k = 0 ∨ 2 ^ p.fractionBits ≤ s)
    (hs : s ≤ 2 * 2 ^ p.fractionBits) : p.unitsOf (k * 2 ^ p.fractionBits + s) = s * 2 ^ k := by
  have hpos := Nat.two_pow_pos p.fractionBits
  rw [unitsOf, Nat.add_comm, Nat.add_mul_div_right _ _ hpos, Nat.add_mul_mod_self_right]
  generalize 2 ^ p.fractionBits = f at *
  obtain hlow | hone | rfl : s < f ∨ (f ≤ s ∧ s < 2 * f) ∨ s = 2 * f := by omega
  · obtain rfl : k = 0 := by omega
    rw [Nat.div_eq_of_lt hlow, Nat.mod_eq_of_lt hlow, if_pos rfl, Nat.pow_zero, Nat.mul_one]
  · have hquot : s / f = 1 := Nat.div_eq_of_lt_le (by omega) (by omega)
    rw [hquot, if_neg (by omega), Nat.add_sub_cancel_left, Nat.mod_eq_sub_mod hone.1, Nat.mod_eq_of_lt (by omega),
      Nat.add_sub_cancel' hone.1]
  · rw [Nat.mul_div_cancel _ hpos, Nat.mul_mod_left, if_neg (by omega), show 2 + k - 1 = k + 1 by omega, Nat.pow_succ]
    ring

theorem unitsOf_strictMono (p : Precision) : StrictMono p.unitsOf := by
  refine strictMono_nat_of_lt_succ fun m => ?_
  have hpos := Nat.two_pow_pos p.fractionBits
  have hmod := Nat.mod_lt m hpos
  have hdiv := Nat.div_add_mod' m (2 ^ p.fractionBits)
  -- the next magnitude has the same places dropped and the next significand
  obtain ⟨k, s, hk, hs, rfl⟩ : ∃ k s, (k = 0 ∨ 2 ^ p.fractionBits ≤ s) ∧ s < 2 * 2 ^ p.fractionBits ∧
      m = k * 2 ^ p.fractionBits + s := by
    cases he : m / 2 ^ p.fractionBits with
    | zero => exact ⟨0, m % 2 ^ p.fractionBits, .inl rfl, by omega, by rw [he] at hdiv; omega⟩
    | succ e =>
      refine ⟨e, 2 ^ p.fractionBits + m % 2 ^ p.fractionBits, .inr (Nat.le_add_right _ _), by omega, ?_⟩
      rw [he, Nat.succ_mul] at hdiv
      omega
  rw [Nat.add_assoc, p.unitsOf_significand hk (by omega), p.unitsOf_significand (by omega) hs]
  exact Nat.mul_lt_mul_of_pos_right s.lt_succ_self (Nat.two_pow_pos k)

end Precision

namespace Float

variable {p : Precision}

theorem fraction_eq (x : Float p) : fraction x = magnitude x % 2 ^ p.fractionBits := by
  rw [magnitude, Nat.mod_mod_of_dvd _ (Nat.pow_dvd_pow 2 (Nat.le_of_lt p.fractionBits_lt))]
  rfl

theorem unitsAbs_eq (x : Float p) : unitsAbs x = p.unitsOf (magnitude x) := by
  rw [unitsAbs, fraction_eq]
  rfl

theorem natAbs_units (x : Float p) : (units x).natAbs = unitsAbs x := by
  rw [units]
  split <;> omega

theorem isInfinite_eq (x : Float p) : isInfinite x = decide (unitsAbs x = p.unitsOf p.infinity) := by
  rw [Bool.eq_iff_iff, isInfinite, beq_iff_eq, decide_eq_true_iff, unitsAbs_eq, p.unitsOf_strictMono.injective.eq_iff]

theorem isNaN_of_isInfinite {x : Float p} (h : isInfinite x = true) : isNaN x = false := by
  rw [isNaN, beq_iff_eq.1 h, decide_eq_false (Nat.lt_irrefl _)]

theorem isZero_eq (x : Float p) : isZero x = decide (unitsAbs x = 0) := by
  have hzero : p.unitsOf 0 = 0 := by simp [Precision.unitsOf]
  rw [Bool.eq_iff_iff, isZero, beq_iff_eq, decide_eq_true_iff, unitsAbs_eq]
  nth_rewrite 2 [← hzero]
  rw [p.unitsOf_strictMono.injective.eq_iff]

theorem unitsAbs_lt {x : Float p} (hnumber : isNaN x = false) (hfinite : isInfinite x = false) :
    unitsAbs x < p.unitsOf p.infinity := by
  rw [isNaN, decide_eq_false_iff_not] at hnumber
  rw [isInfinite, beq_eq_false_iff_ne] at hfinite
  rw [unitsAbs_eq]
  exact p.unitsOf_strictMono (by omega)

/-- The number by its fields: a fraction of two to the least exponent, or one and a fraction times a power of two. -/
def rational (x : Float p) : ℚ :=
  let f : ℚ := fraction x / 2 ^ p.fractionBits
  let m : ℚ := if exponent x = 0 then f * 2 ^ (1 - p.bias : ℤ) else (1 + f) * 2 ^ ((exponent x : ℤ) - p.bias)
  if isNegative x then -m else m

/-- The place of a value that is not a NaN. -/
def extended (x : Float p) : WithBot (WithTop ℚ) :=
  if isInfinite x then (if isNegative x then ⊥ else (⊤ : WithTop ℚ)) else (rational x : WithTop ℚ)

theorem rational_eq (x : Float p) : rational x = units x / 2 ^ p.scale := by
  have hscale : (2 : ℚ) ^ p.scale = 2 ^ p.fractionBits * 2 ^ ((p.bias : ℤ) - 1) := by
    rw [← zpow_natCast, p.scale_eq, ← zpow_natCast, ← zpow_add₀ (by norm_num)]
    congr 1
    ring
  have habs : (if exponent x = 0 then (fraction x / 2 ^ p.fractionBits : ℚ) * 2 ^ (1 - p.bias : ℤ)
      else (1 + fraction x / 2 ^ p.fractionBits) * 2 ^ ((exponent x : ℤ) - p.bias)) = unitsAbs x / 2 ^ p.scale := by
    rw [unitsAbs, hscale]
    split
    · rw [show (1 - p.bias : ℤ) = -((p.bias : ℤ) - 1) by ring, zpow_neg]
      field_simp
    · next he =>
      have hexp : (exponent x : ℤ) - p.bias = ((exponent x - 1 : ℕ) : ℤ) - ((p.bias : ℤ) - 1) := by
        push_cast [Nat.cast_sub (Nat.one_le_iff_ne_zero.2 he)]
        ring
      rw [hexp, zpow_sub₀ (by norm_num), zpow_natCast]
      push_cast
      field_simp
  rw [rational, habs, units]
  split <;> push_cast <;> ring

/-- A value that is not a NaN lies at an end of the line or between the ends. The infinities count as more units than any
number has. -/
theorem place_cases {x : Float p} (h : isNaN x = false) :
    (extended x = ⊥ ∧ units x = -p.unitsOf p.infinity) ∨
      (extended x = (⊤ : WithTop ℚ) ∧ units x = p.unitsOf p.infinity) ∨
      (extended x = ((units x / 2 ^ p.scale : ℚ) : WithTop ℚ) ∧ -p.unitsOf p.infinity < units x ∧
        units x < p.unitsOf p.infinity) := by
  have habs := natAbs_units x
  have hends := isInfinite_eq x
  cases hinf : isInfinite x with
  | true =>
    rw [hinf, eq_comm, decide_eq_true_iff] at hends
    cases hneg : isNegative x <;> simp [extended, hinf, hneg, units, hends]
  | false =>
    have hlt := unitsAbs_lt h hinf
    refine .inr (.inr ⟨?_, by omega, by omega⟩)
    simp [extended, hinf, rational_eq]

theorem units_lt_iff {a b : Float p} (ha : isNaN a = false) (hb : isNaN b = false) :
    units a < units b ↔ extended a < extended b := by
  have hinfinity : 0 < p.infinity := by cases p <;> decide
  have hpos : 0 < p.unitsOf p.infinity := Nat.lt_of_le_of_lt (Nat.zero_le _) (p.unitsOf_strictMono hinfinity)
  obtain ⟨hxa, hua⟩ | ⟨hxa, hua⟩ | ⟨hxa, hua⟩ := place_cases ha <;>
    obtain ⟨hxb, hub⟩ | ⟨hxb, hub⟩ | ⟨hxb, hub⟩ := place_cases hb <;>
    rw [hxa, hxb]
  case inr.inr.inr.inl =>
    rw [WithBot.coe_lt_coe]
    exact iff_of_true (by omega) (WithTop.coe_lt_top _)
  case inr.inr.inr.inr =>
    rw [WithBot.coe_lt_coe, WithTop.coe_lt_coe, div_lt_div_iff_of_pos_right (by positivity), Int.cast_lt]
  all_goals
    simp
    omega

theorem order?_of_numbers {a b : Float p} (ha : isNaN a = false) (hb : isNaN b = false) :
    order? a b = some (compare (units a) (units b)) := by
  rw [order?, ha, hb]
  rfl

theorem order?_eq {a b : Float p} (ha : isNaN a = false) (hb : isNaN b = false) :
    order? a b = some (cmp (extended a) (extended b)) := by
  have hlt := units_lt_iff ha hb
  have hgt := units_lt_iff hb ha
  rw [order?_of_numbers ha hb, ← cmp_eq_compare]
  obtain h | h | h := lt_trichotomy (units a) (units b)
  · rw [(cmp_eq_lt_iff _ _).2 h, (cmp_eq_lt_iff _ _).2 (hlt.1 h)]
  · have heq : extended a = extended b :=
      le_antisymm (not_lt.1 (mt hgt.2 h.not_gt)) (not_lt.1 (mt hlt.2 h.not_lt))
    rw [(cmp_eq_eq_iff _ _).2 h, (cmp_eq_eq_iff _ _).2 heq]
  · rw [(cmp_eq_gt_iff _ _).2 h, (cmp_eq_gt_iff _ _).2 (hgt.1 h)]

end Float
end AArch64
