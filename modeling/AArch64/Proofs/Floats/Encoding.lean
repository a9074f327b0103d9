import AArch64.Float.Arithmetic

/-! Encodings of floating-point values. The magnitude of an encoding tells whether it is a NaN, and the sign does not
come into it. Nothing is ever rounded to a NaN. -/
namespace AArch64

namespace Precision

variable (p : Precision)

theorem infinity_lt : p.infinity < 2 ^ (p.bits - 1) := by cases p <;> decide

/-- The bit that makes a NaN quiet is not the sign. -/
theorem quietBit_lt : p.fractionBits - 1 < p.bits - 1 := by cases p <;> decide

end Precision

namespace Float

variable {p : Precision} {n : Nat}

theorem magnitude_ofParts (negative : Bool) (h : n < 2 ^ (p.bits - 1)) : magnitude (ofParts p negative n) = n := by
  have hdvd : 2 ^ (p.bits - 1) ∣ 2 ^ p.bits := Nat.pow_dvd_pow 2 (Nat.sub_le _ _)
  rw [magnitude, ofParts, BitVec.toNat_ofNat, Nat.mod_mod_of_dvd _ hdvd, Nat.mul_add_mod', Nat.mod_eq_of_lt h]

theorem magnitude_lt (x : Float p) : magnitude x < 2 ^ (p.bits - 1) := Nat.mod_lt _ (Nat.two_pow_pos _)

theorem magnitude_eq_setWidth (x : Float p) : magnitude x = (x.setWidth (p.bits - 1)).toNat := by
  rw [BitVec.toNat_setWidth, magnitude]

theorem magnitude_neg (x : Float p) : magnitude (neg x) = magnitude x := by
  have hsign : (BitVec.twoPow p.bits (p.bits - 1)).setWidth (p.bits - 1) = 0#(p.bits - 1) := by
    apply BitVec.eq_of_getLsbD_eq
    intro i hi
    simp [BitVec.getLsbD_twoPow]
    omega
  rw [magnitude_eq_setWidth, neg, BitVec.setWidth_xor, hsign, BitVec.xor_zero, magnitude_eq_setWidth]

theorem magnitude_abs (x : Float p) : magnitude (abs x) = magnitude x := by
  have hlt : magnitude x < 2 ^ p.bits :=
    Nat.lt_of_lt_of_le x.magnitude_lt (Nat.pow_le_pow_right Nat.two_pos (Nat.sub_le _ _))
  rw [abs, magnitude, BitVec.toNat_ofNat, Nat.mod_eq_of_lt hlt, Nat.mod_eq_of_lt x.magnitude_lt]

section NaNs

variable (x : Float p)

theorem kinds : (isNaN x = false ∧ isQuiet x = false ∧ isSignalling x = false) ∨
    (isNaN x = true ∧ isQuiet x = true ∧ isSignalling x = false) ∨
      (isNaN x = true ∧ isQuiet x = false ∧ isSignalling x = true) := by
  rw [isQuiet, isSignalling]
  cases isNaN x <;> cases x.getLsbD (p.fractionBits - 1) <;> simp

theorem isNaN_neg : isNaN (neg x) = isNaN x := by rw [isNaN, magnitude_neg, isNaN]

theorem isNaN_abs : isNaN (abs x) = isNaN x := by rw [isNaN, magnitude_abs, isNaN]

theorem isSignalling_neg : isSignalling (neg x) = isSignalling x := by
  have hbit : (neg x).getLsbD (p.fractionBits - 1) = x.getLsbD (p.fractionBits - 1) := by
    have hsign : p.bits - 1 ≠ p.fractionBits - 1 := Nat.ne_of_gt p.quietBit_lt
    simp [neg, BitVec.getLsbD_twoPow, hsign]
  rw [isSignalling, isSignalling, isNaN_neg, hbit]

theorem isSignalling_quieted : isSignalling (quieted x) = false := by
  have hlt : p.fractionBits - 1 < p.bits := Nat.lt_of_lt_of_le p.quietBit_lt (Nat.sub_le _ _)
  have hbit : (quieted x).getLsbD (p.fractionBits - 1) = true := by
    rw [quieted, quietBit, BitVec.getLsbD_or, BitVec.getLsbD_ofNat, Nat.testBit_two_pow_self, decide_eq_true hlt]
    exact Bool.or_true _
  rw [isSignalling, hbit, Bool.not_true, Bool.and_false]

theorem isSignalling_defaultNaN (p : Precision) : isSignalling (defaultNaN p) = false := by
  cases p <;> decide

theorem isNaN_ofParts (negative : Bool) (h : n ≤ p.infinity) : isNaN (ofParts p negative n) = false := by
  rw [isNaN, magnitude_ofParts negative (Nat.lt_of_le_of_lt h p.infinity_lt)]
  exact decide_eq_false (Nat.not_lt.2 h)

theorem isNaN_infinity (p : Precision) (negative : Bool) : isNaN (infinity p negative) = false :=
  isNaN_ofParts negative (Nat.le_refl _)

theorem isNaN_round (p : Precision) (negative : Bool) (num den : Nat) : isNaN (round p negative num den) = false :=
  isNaN_ofParts negative (Nat.min_le_right _ _)

theorem isNaN_roundInt (p : Precision) (num : Int) (den : Nat) (zeroNegative : Bool) :
    isNaN (roundInt p num den zeroNegative) = false :=
  isNaN_round p _ _ _

end NaNs

end Float
end AArch64
