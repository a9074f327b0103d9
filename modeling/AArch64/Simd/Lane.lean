import AArch64.Bits
import AArch64.Fpsr

/-! What the integer vector instructions do in one lane. Operands are read as integers, signed or not, the result
is computed exactly, and the lane keeps its low bits unless the operation saturates. -/
namespace AArch64

variable {n : Nat}

namespace Lane

def value (signed : Bool) (x : BitVec n) : Int :=
  if signed then x.toInt else x.toNat

/-- A lane of ones or of zeros. -/
def truth (n : Nat) (b : Bool) : BitVec n :=
  if b then BitVec.allOnes n else 0#n

def least (signed : Bool) (n : Nat) : Int :=
  if signed then -(2 ^ (n - 1)) else 0

def greatest (signed : Bool) (n : Nat) : Int :=
  if signed then 2 ^ (n - 1) - 1 else 2 ^ n - 1

/-- The integer if the lane can hold it, the nearest one that it can hold otherwise. -/
def saturate (signed : Bool) (n : Nat) (x : Int) : Flagged (BitVec n) :=
  { value := BitVec.ofInt n (max (least signed n) (min x (greatest signed n)))
    raised := { saturation := decide (x < least signed n ∨ greatest signed n < x) } }

/-- Shift left by the signed low byte of the amount, and right where that is negative. A shift out of the lane leaves
zero, and one to the right goes no further than the 127 places that 128 bits have. -/
def shiftByRegister (signed : Bool) (x amount : BitVec n) : BitVec n :=
  let k := (amount.setWidth 8).toInt
  if n ≤ k then 0#n
  else if 0 ≤ k then BitVec.ofInt n (value signed x * 2 ^ k.toNat)
  else BitVec.ofInt n (value signed x / 2 ^ (min (-k) 127).toNat)

/-- Shift right by one place or more, to the nearest integer if asked for. -/
def shiftRight (signed rounding : Bool) (shift : Nat) (x : BitVec n) : BitVec n :=
  BitVec.ofInt n ((value signed x + if rounding then 2 ^ (shift - 1) else 0) / 2 ^ shift)

/-- Leading bits equal to the sign bit, without the sign bit itself. Those of a negative number are the leading zeros
of its complement. -/
def leadingSigns (x : BitVec n) : BitVec n :=
  ((if x.msb then ~~~x else x) <<< 1 ||| 1#n).clz

/-- Product of polynomials over two elements, one bit per coefficient. -/
def polynomialProduct (a b : BitVec n) : BitVec n :=
  (List.range n).foldl (fun p i => if b.getLsbD i then p ^^^ a <<< i else p) 0#n

end Lane

inductive LaneOp
  | halvingAdd | saturatingAdd | roundingHalvingAdd | halvingSub | saturatingSub
  | greater | greaterEqual | shiftLeft | max | min
  | absoluteDifference | absoluteDifferenceAccumulate
  | add | sub | test | equal | multiplyAdd | multiplySub | multiply | polynomialMultiply
  deriving DecidableEq

namespace LaneOp

open Lane

def apply (op : LaneOp) (signed : Bool) (a b acc : BitVec n) : Flagged (BitVec n) :=
  let x := value signed a
  let y := value signed b
  match op with
  | saturatingAdd => saturate signed n (x + y)
  | saturatingSub => saturate signed n (x - y)
  | halvingAdd => pure (BitVec.ofInt n ((x + y) / 2))
  | roundingHalvingAdd => pure (BitVec.ofInt n ((x + y + 1) / 2))
  | halvingSub => pure (BitVec.ofInt n ((x - y) / 2))
  | greater => pure (truth n (decide (x > y)))
  | greaterEqual => pure (truth n (decide (x ≥ y)))
  | test => pure (truth n (a &&& b != 0#n))
  | equal => pure (truth n (decide (x = y)))
  | shiftLeft => pure (shiftByRegister signed a b)
  | polynomialMultiply => pure (polynomialProduct a b)
  | max => pure (BitVec.ofInt n (if y ≤ x then x else y))
  | min => pure (BitVec.ofInt n (if x ≤ y then x else y))
  | absoluteDifference => pure (BitVec.ofInt n (x - y).natAbs)
  | absoluteDifferenceAccumulate => pure (acc + BitVec.ofInt n (x - y).natAbs)
  | add => pure (BitVec.ofInt n (x + y))
  | sub => pure (BitVec.ofInt n (x - y))
  | multiply => pure (BitVec.ofInt n (x * y))
  | multiplyAdd => pure (acc + BitVec.ofInt n (x * y))
  | multiplySub => pure (acc - BitVec.ofInt n (x * y))

/-- The operations that also work on 64-bit lanes, and with them in a single lane. -/
def hasWideForm : LaneOp → Bool
  | saturatingAdd | saturatingSub | greater | greaterEqual | shiftLeft | add | sub | test | equal => true
  | _ => false

end LaneOp

/-- Operations of two narrow lanes, or of a wide and a narrow one, with a wide result. -/
inductive LongOp
  | add | sub | absoluteDifference | absoluteDifferenceAccumulate | multiply | multiplyAdd | multiplySub
  deriving DecidableEq

def LongOp.apply (op : LongOp) (x y acc : Int) : Int :=
  match op with
  | add => x + y
  | sub => x - y
  | absoluteDifference => (x - y).natAbs
  | absoluteDifferenceAccumulate => acc + (x - y).natAbs
  | multiply => x * y
  | multiplyAdd => acc + x * y
  | multiplySub => acc - x * y

inductive ZeroTest
  | positive | nonNegative | zero | nonPositive | negative
  deriving DecidableEq

def ZeroTest.holds (t : ZeroTest) (x : Int) : Bool :=
  match t with
  | positive => decide (0 < x)
  | nonNegative => decide (0 ≤ x)
  | zero => decide (x = 0)
  | nonPositive => decide (x ≤ 0)
  | negative => decide (x < 0)

inductive LaneUnary
  | leadingZeros | leadingSigns | popCount | not | reverseBits | abs | neg | compareZero (t : ZeroTest)
  deriving DecidableEq

def LaneUnary.apply (op : LaneUnary) (x : BitVec n) : BitVec n :=
  match op with
  | leadingZeros => x.clz
  | leadingSigns => Lane.leadingSigns x
  | popCount => x.cpop
  | not => ~~~x
  | reverseBits => x.reverse
  | abs => BitVec.ofInt n x.toInt.natAbs
  | neg => -x
  | compareZero t => Lane.truth n (t.holds x.toInt)

end AArch64
