import AArch64.Float.Arithmetic
import AArch64.Float.Compare

/-! Conversions between the two formats and between floating point and integers or fixed point. -/
namespace AArch64.Float

variable {p : Precision}

/-- A NaN in the other format keeps its sign and the top of its payload, and becomes quiet. -/
def convertNaN (q : Precision) (x : Float p) : Float q :=
  ofParts q (isNegative x)
    (q.infinity + fraction (quieted x) * 2 ^ q.fractionBits / 2 ^ p.fractionBits)

def convert (q : Precision) (x : Float p) : Flagged (Float q) :=
  if isNaN x then
    { value := convertNaN q x, raised := { invalidOperation := isSignalling x } }
  else if isInfinite x then pure (infinity q (isNegative x))
  else pure (round q (isNegative x) (unitsAbs x * 2 ^ q.scale) (2 ^ p.scale))

def integerRange (signed : Bool) (n : Nat) : Int × Int :=
  if signed then (-(2 ^ (n - 1)), 2 ^ (n - 1) - 1) else (0, 2 ^ n - 1)

def ofWhole (p : Precision) (x : Int) : Float p := roundInt p (x * 2 ^ p.scale) 1 false

/-- An integer with its last `fbits` places taken as fraction: converted first, then divided. -/
def ofInteger (p : Precision) (x : Int) (fbits : Nat) : Float p :=
  let whole := ofWhole p x
  if fbits = 0 then whole else (div whole (ofWhole p (2 ^ fbits))).getD (defaultNaN p)

def scaled (x : Float p) (fbits : Nat) : Float .double :=
  (mul (convert .double x).value (ofInteger .double (2 ^ fbits) 0)).getD (defaultNaN .double)

def truncated (x : Float p) : Int := Rounding.zero.apply (units x) (2 ^ p.scale)

/-- The value times `2 ^ fbits` as an integer of `n` bits. It is scaled, rounded and compared with the ends of the range
in double precision. A value outside the range gives the nearer end of it and a NaN gives zero; both are invalid
operations. -/
def toInteger (x : Float p) (mode : Rounding) (signed : Bool) (n fbits : Nat) : Flagged (BitVec n) :=
  let (least, greatest) := integerRange signed n
  if isNaN x then Flagged.invalid 0#n
  else
    let rounded := integral mode (scaled x fbits)
    let limit := ofInteger .double (2 ^ (if signed then n - 1 else n)) 0
    let lower := if signed then neg limit else zero .double
    if Relation.greaterEqual.holds rounded limit then Flagged.invalid (BitVec.ofInt n greatest)
    else if Relation.less.holds rounded lower then Flagged.invalid (BitVec.ofInt n least)
    else pure (BitVec.ofInt n (truncated rounded))

end AArch64.Float
