import AArch64.Power

/-! The binary interchange formats of 32 and 64 bits. Every finite value is an integer number of units, the unit
being the least positive value of its format, so finite values are compared and computed as integers. -/
namespace AArch64

inductive Precision
  | single | double
  deriving DecidableEq

namespace Precision

def exponentBits : Precision → Nat
  | single => 8 | double => 11

def fractionBits : Precision → Nat
  | single => 23 | double => 52

def bits : Precision → Nat
  | single => 32 | double => 64

/-- One is `2 ^ scale` units. -/
def scale : Precision → Nat
  | single => 149 | double => 1074

/-- Encoding of positive infinity, above those of all finite magnitudes. -/
def infinity (p : Precision) : Nat :=
  (2 ^ p.exponentBits - 1) * 2 ^ p.fractionBits

end Precision

abbrev Float (p : Precision) := BitVec p.bits

namespace Float

variable {p : Precision}

def ofParts (p : Precision) (negative : Bool) (magnitude : Nat) : Float p :=
  BitVec.ofNat p.bits (negative.toNat * 2 ^ (p.bits - 1) + magnitude)

def zero (p : Precision) : Float p := 0#p.bits

def infinity (p : Precision) (negative : Bool) : Float p :=
  ofParts p negative p.infinity

/-- The bit of the fraction that tells a quiet NaN from a signalling one. -/
def quietBit (p : Precision) : Nat := 2 ^ (p.fractionBits - 1)

/-- Result of an operation that has none: positive, quiet, with no payload. -/
def defaultNaN (p : Precision) : Float p :=
  ofParts p false (p.infinity + quietBit p)

variable (x : Float p)

def isNegative : Bool := x.msb

def magnitude : Nat := x.toNat % 2 ^ (p.bits - 1)

def fraction : Nat := x.toNat % 2 ^ p.fractionBits

def exponent : Nat := magnitude x / 2 ^ p.fractionBits

def isNaN : Bool := decide (p.infinity < magnitude x)

def isInfinite : Bool := magnitude x == p.infinity

def isZero : Bool := magnitude x == 0

def isSignalling : Bool := isNaN x && !x.getLsbD (p.fractionBits - 1)

def isQuiet : Bool := isNaN x && !isSignalling x

def quieted : Float p := x ||| BitVec.ofNat p.bits (quietBit p)

def neg : Float p := x ^^^ BitVec.twoPow p.bits (p.bits - 1)

def abs : Float p := BitVec.ofNat p.bits (magnitude x)

/-- Size of a value that is not a NaN, in units. Infinity counts as the next power of two. -/
def unitsAbs : Nat :=
  if exponent x = 0 then fraction x
  else (2 ^ p.fractionBits + fraction x) * 2 ^ (exponent x - 1)

def units : Int :=
  if isNegative x then -(unitsAbs x : Int) else unitsAbs x

/-- The value of an eight-bit immediate: sign, three bits of exponent and four of fraction. -/
def ofImmediate (p : Precision) (imm : BitVec 8) : Float p :=
  let b := imm.getLsbD 6
  let e := (!b).toNat * 2 ^ (p.exponentBits - 1)
    + (if b then (2 ^ (p.exponentBits - 3) - 1) * 4 else 0) + (imm.extractLsb 5 4).toNat
  ofParts p (imm.getLsbD 7)
    (e * 2 ^ p.fractionBits + (imm.extractLsb 3 0).toNat * 2 ^ (p.fractionBits - 4))

end Float
end AArch64
