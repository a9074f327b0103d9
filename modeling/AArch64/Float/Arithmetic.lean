import AArch64.Float.Rounding
import AArch64.Fpsr

/-! Arithmetic with one rounding to nearest even. A signalling NaN operand is quieted and raises the invalid flag,
otherwise the first NaN operand is the result, and an operation without a result gives the default NaN. -/
namespace AArch64.Float

variable {p : Precision}

/-- The result that NaN operands force, if there is a NaN among them. -/
def propagate? (xs : List (Float p)) : Option (Flagged (Float p)) :=
  match xs.find? isSignalling with
  | some x => some (Flagged.invalid (quieted x))
  | none => (xs.find? isNaN).map pure

/-- The NaN rule in front of an operation on numbers, which has no result where it is `none`. -/
def withNaNs (xs : List (Float p)) (r : Option (Float p)) : Flagged (Float p) :=
  match propagate? xs with
  | some n => n
  | none =>
    match r with
    | some y => pure y
    | none => Flagged.invalid (defaultNaN p)

def add (a b : Float p) : Option (Float p) :=
  if isInfinite a then
    if isInfinite b && isNegative a != isNegative b then none else some a
  else if isInfinite b then some b
  else some (roundInt p (units a + units b) 1 (isNegative a && isNegative b))

def sub (a b : Float p) : Option (Float p) := add a (neg b)

def mul (a b : Float p) : Option (Float p) :=
  let negative := isNegative a != isNegative b
  if isInfinite a || isInfinite b then
    if isZero a || isZero b then none else some (infinity p negative)
  else some (round p negative (unitsAbs a * unitsAbs b) (2 ^ p.scale))

def div (a b : Float p) : Option (Float p) :=
  let negative := isNegative a != isNegative b
  if isInfinite a then
    if isInfinite b then none else some (infinity p negative)
  else if isInfinite b then some (ofParts p negative 0)
  else if isZero b then
    if isZero a then none else some (infinity p negative)
  else some (round p negative (unitsAbs a * 2 ^ p.scale) (unitsAbs b))

/-- `addend + a * b`, rounded once. -/
def fma (addend a b : Float p) : Option (Float p) :=
  let negative := isNegative a != isNegative b
  if isInfinite a || isInfinite b then
    if isZero a || isZero b || (isInfinite addend && isNegative addend != negative) then none
    else some (infinity p negative)
  else if isInfinite addend then some addend
  else some (roundInt p (units addend * 2 ^ p.scale + units a * units b) (2 ^ p.scale)
    (isNegative addend && negative))

/-- The root of `n` gathered bit by bit, from bit `i - 1` down, starting at `r`. -/
def rootFrom (n : Nat) : (i r : Nat) → Nat
  | 0, r => r
  | i + 1, r => rootFrom n i (if (r + 2 ^ i) * (r + 2 ^ i) ≤ n then r + 2 ^ i else r)

/-- The greatest number whose square is at most `n`. -/
def root (n : Nat) : Nat := rootFrom n (n.log2 / 2 + 1) 0

/-- A root between two numbers of units is rounded from the half between them, which lies on the same side of
every boundary of rounding. -/
def sqrt (x : Float p) : Option (Float p) :=
  if isZero x then some x
  else if isNegative x then none
  else if isInfinite x then some x
  else
    let n := unitsAbs x * 2 ^ p.scale
    let r := root n
    some (round p false (2 * r + if r * r = n then 0 else 1) 2)

def maximum (a b : Float p) : Float p :=
  if units a > units b then a else if units b > units a || isNegative a then b else a

def minimum (a b : Float p) : Float p :=
  if units a < units b then a else if units b < units a || !isNegative a then b else a

inductive Binary
  | add | sub | mul | div | max | min | maxNumber | minNumber | negatedMul | absoluteDifference
  deriving DecidableEq

namespace Binary

/-- The operations that pass over a single quiet NaN. -/
def prefersNumber : Binary → Bool
  | maxNumber | minNumber => true
  | _ => false

/-- The operation on values that are not NaNs. -/
def onNumbers (op : Binary) (a b : Float p) : Option (Float p) :=
  match op with
  | add => Float.add a b
  | sub => Float.sub a b
  | mul => Float.mul a b
  | div => Float.div a b
  | max | maxNumber => some (maximum a b)
  | min | minNumber => some (minimum a b)
  | negatedMul => (Float.mul a b).map neg
  | absoluteDifference => (Float.sub a b).map abs

def dividesByZero (op : Binary) (a b : Float p) : Bool :=
  op == div && isZero b && !isZero a && !isInfinite a && !isNaN a

def apply (op : Binary) (a b : Float p) : Flagged (Float p) :=
  if op.prefersNumber && isQuiet a != isQuiet b then pure (if isNaN a then b else a)
  else
    let r := withNaNs [a, b] (op.onNumbers a b)
    { r with raised := r.raised.raise { divideByZero := op.dividesByZero a b } }

end Binary

def multiplyAdd (addend a b : Float p) : Flagged (Float p) :=
  withNaNs [addend, a, b] (fma addend a b)

def squareRoot (x : Float p) : Flagged (Float p) :=
  withNaNs [x] (sqrt x)

/-- The neighbouring integer that a mode picks, with the sign of the operand also on zero. -/
def integral (mode : Rounding) (x : Float p) : Float p :=
  if isInfinite x then x
  else round p (isNegative x) ((mode.apply (units x) (2 ^ p.scale)).natAbs * 2 ^ p.scale) 1

def roundToIntegral (mode : Rounding) (x : Float p) : Flagged (Float p) :=
  withNaNs [x] (some (integral mode x))

end AArch64.Float
