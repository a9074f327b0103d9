import AArch64.Float.Encoding

/-! Rounding of exact rationals, to integers in five modes and to floating-point values to nearest even. -/
namespace AArch64

inductive Rounding
  | tiesEven | plusInfinity | minusInfinity | zero | tiesAway
  deriving DecidableEq

namespace Rounding

def ofCode (code : BitVec 2) : Rounding :=
  match code.toNat with
  | 0 => tiesEven | 1 => plusInfinity | 2 => minusInfinity | _ => zero

/-- The integer that a mode picks for `num / den`. -/
def apply (mode : Rounding) (num : Int) (den : Nat) : Int :=
  match mode with
  | tiesEven =>
    let q := num / den
    let r := num % den
    if 2 * r < den ∨ (2 * r = den ∧ q % 2 = 0) then q else q + 1
  | plusInfinity => -(-num / den)
  | minusInfinity => num / den
  | zero => num.tdiv den
  | tiesAway => num.sign * ((2 * num.natAbs + den) / (2 * den) : Nat)

end Rounding

namespace Float

/-- Places that a magnitude of `n` units has beyond the significand. -/
def excess (p : Precision) (n : Nat) : Nat := n.log2 - p.fractionBits

/-- The value nearest to `num / den` units, ties going to the even significand. With `k` places dropped and
the significand `s`, the encoding is `k * 2 ^ fractionBits + s`, also where `s` carries into the next binade or
is too small to be normal. -/
def round (p : Precision) (negative : Bool) (num den : Nat) : Float p :=
  let k := excess p (num / den)
  let s := (Rounding.tiesEven.apply num (den * 2 ^ k)).toNat
  ofParts p negative (min (k * 2 ^ p.fractionBits + s) p.infinity)

/-- A signed number of units; an exact zero takes the sign given for it. -/
def roundInt (p : Precision) (num : Int) (den : Nat) (zeroNegative : Bool) : Float p :=
  round p (if num = 0 then zeroNegative else decide (num < 0)) num.natAbs den

end Float
end AArch64
