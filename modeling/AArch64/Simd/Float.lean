import AArch64.Float.Arithmetic
import AArch64.Float.Compare
import AArch64.Float.Convert
import AArch64.Simd.Integer

/-! Floating-point instructions lane by lane. A scalar instruction is the one with a single lane. -/
namespace AArch64

namespace Precision

def size : Precision → ElementSize
  | single => .word | double => .double

@[simp] theorem bits_size (p : Precision) : p.size.bits = p.bits := by
  cases p <;> rfl

end Precision

inductive FloatLane
  | binary (op : Float.Binary)
  | multiplyAdd
  | multiplySub
  | compare (r : Float.Relation)
  deriving DecidableEq

def FloatLane.apply {p : Precision} (op : FloatLane) (a b acc : Float p) : Flagged (Float p) :=
  match op with
  | binary op => op.apply a b
  | multiplyAdd => Float.multiplyAdd acc a b
  | multiplySub => Float.multiplyAdd acc (Float.neg a) b
  | compare r => do pure (Lane.truth p.bits (← r.holdsRaising a b))

inductive FloatUnary
  | move | abs | neg | sqrt
  | round (mode : Rounding)
  | toInteger (mode : Rounding) (signed : Bool) (fbits : Nat)
  | fromInteger (signed : Bool) (fbits : Nat)
  | compareZero (r : Float.Relation)
  deriving DecidableEq

def FloatUnary.apply {p : Precision} (op : FloatUnary) (x : Float p) : Flagged (Float p) :=
  match op with
  | move => pure x
  | abs => pure (Float.abs x)
  | neg => pure (Float.neg x)
  | sqrt => Float.squareRoot x
  | round mode => Float.roundToIntegral mode x
  | toInteger mode signed fbits => Float.toInteger x mode signed p.bits fbits
  | fromInteger signed fbits => pure (Float.ofInteger p (Lane.value signed x) fbits)
  | compareZero r => do pure (Lane.truth p.bits (← r.holdsRaising x (Float.zero p)))

inductive FloatVectorOp
  | lanes (op : FloatLane) (p : Precision) (elements : Nat)
  | byElement (op : FloatLane) (p : Precision) (elements index : Nat)
  | pairwise (op : Float.Binary) (p : Precision) (elements : Nat)
  | unary (op : FloatUnary) (p : Precision) (elements : Nat)
  | convert (p q : Precision)
  | widen (upper : Bool)
  | narrow (upper : Bool)
  | reducePair (op : Float.Binary) (p : Precision)
  | reduceFour (op : Float.Binary)

namespace FloatVectorOp

def lane (p : Precision) (v : BitVec 128) (i : Nat) : Float p := Lanes.get v p.bits i

def pairLane (p : Precision) (n m : BitVec 128) (elements i : Nat) : Float p :=
  VectorOp.pairLane n m p.bits elements i

def eval (op : FloatVectorOp) (v : VectorOperands) : Flagged (BitVec 128) :=
  match op with
  | lanes op p elements =>
    Lanes.buildFlagged elements fun i => op.apply (lane p v.n i) (lane p v.m i) (lane p v.d i)
  | byElement op p elements index =>
    Lanes.buildFlagged elements fun i => op.apply (lane p v.n i) (lane p v.m index) (lane p v.d i)
  | pairwise op p elements =>
    Lanes.buildFlagged elements fun i =>
      op.apply (pairLane p v.n v.m elements (2 * i)) (pairLane p v.n v.m elements (2 * i + 1))
  | unary op p elements => Lanes.buildFlagged elements fun i => op.apply (lane p v.n i)
  | convert p q => do pure (Lanes.scalar (← Float.convert q (lane p v.n 0)))
  | widen upper =>
    Lanes.buildFlagged 2 fun i =>
      Float.convert .double (lane .single v.n ((if upper then 2 else 0) + i))
  | narrow upper => do
    let r ← Lanes.buildFlagged 2 fun i => Float.convert .single (lane .double v.n i)
    pure (VectorOp.half v.d r upper)
  | reducePair op p => do pure (Lanes.scalar (← op.apply (lane p v.n 0) (lane p v.n 1)))
  | reduceFour op => do
    let low ← op.apply (lane .single v.n 0) (lane .single v.n 1)
    let high ← op.apply (lane .single v.n 2) (lane .single v.n 3)
    pure (Lanes.scalar (← op.apply low high))

end FloatVectorOp
end AArch64
