import AArch64.Simd.Float
import AArch64.State

/-! Vector and floating-point instructions. Each one writes a vector register, a general register or the flags,
and can raise status flags. -/
namespace AArch64

inductive SimdOp
  | vector (op : VectorOp)
  | float (op : FloatVectorOp)
  | lookup (registers : Nat) (extend full : Bool)
  | duplicateGeneral (a : Arrangement)
  | insertGeneral (size : ElementSize) (index : Nat)
  | scalarFromGeneral (width : Width)
  | toGeneral (signed : Bool) (size : ElementSize) (index : Nat) (width : Width)
  | floatImmediate (p : Precision) (imm : BitVec 8)
  | multiplyAdd (p : Precision) (negateProduct negateAddend : Bool) (ra : Register)
  | select (p : Precision) (condition : Condition)
  | compare (p : Precision) (signalling withZero : Bool)
  | conditionalCompare (p : Precision) (signalling : Bool) (condition : Condition) (otherwise : Nzcv)
  | toInteger (p : Precision) (mode : Rounding) (signed : Bool) (width : Width) (fbits : Nat)
  | fromInteger (p : Precision) (signed : Bool) (width : Width) (fbits : Nat)

inductive SimdResult
  | vector (x : BitVec 128)
  | general {n : Nat} (x : BitVec n)
  | flags (f : Nzcv)

def SimdResult.apply (r : SimdResult) (rd : Register) (s : State) : State :=
  match r with
  | vector x => s.setVector rd x
  | general x => s.write rd x
  | flags f => s.setFlags f

structure SimdInstruction where
  rd : Register
  rn : Register
  rm : Register
  op : SimdOp

namespace SimdInstruction

variable (i : SimdInstruction) (s : State)

def operands : VectorOperands where
  n := s.vector i.rn
  m := s.vector i.rm
  d := s.vector i.rd

def scalar (p : Precision) (r : Register) : Float p :=
  FloatVectorOp.lane p (s.vector r) 0

/-- Byte `k` of the table held by consecutive registers, if the table is that long. -/
def tableByte? (registers : Nat) (k : Nat) : Option (BitVec 8) :=
  if k < 16 * registers then
    some (Lanes.get (s.vector (i.rn + BitVec.ofNat 5 (k / 16))) 8 (k % 16))
  else none

/-- Each byte of the second source picks a byte of the table. One beyond the table gives zero, or keeps the
byte of the destination. -/
def lookup (registers : Nat) (extend : Bool) : BitVec 128 :=
  let v := operands i s
  Lanes.build 16 fun k =>
    match tableByte? i s registers (Lanes.get v.m 8 k).toNat with
    | some x => x
    | none => if extend then Lanes.get v.d 8 k else 0#8

def eval : Flagged SimdResult :=
  match i.op with
  | .vector op => do pure (.vector (← op.eval (operands i s)))
  | .float op => do pure (.vector (← op.eval (operands i s)))
  | .lookup registers extend full => pure (.vector (Lanes.sized (lookup i s registers extend) full))
  | .duplicateGeneral a => pure (.vector (Lanes.build a.elements fun _ => s.read a.esize i.rn))
  | .insertGeneral size index =>
    pure (.vector (Lanes.set (s.vector i.rd) index (s.read size.bits i.rn)))
  | .scalarFromGeneral width => pure (.vector (Lanes.scalar (s.read width.bits i.rn)))
  | .toGeneral signed size index width =>
    let x := Lanes.get (s.vector i.rn) size.bits index
    pure (.general (if signed then x.signExtend width.bits else x.setWidth width.bits))
  | .floatImmediate p imm => pure (.vector (Lanes.scalar (Float.ofImmediate p imm)))
  | .multiplyAdd p negateProduct negateAddend ra =>
    let n := scalar s p i.rn
    let a := scalar s p ra
    do pure (.vector (Lanes.scalar (← Float.multiplyAdd (if negateAddend then Float.neg a else a)
      (if negateProduct then Float.neg n else n) (scalar s p i.rm))))
  | .select p condition =>
    pure (.vector (Lanes.scalar (scalar s p (if condition.holds s.nzcv then i.rn else i.rm))))
  | .compare p signalling withZero =>
    do pure (.flags (← Float.compareRaising signalling (scalar s p i.rn)
      (if withZero then Float.zero p else scalar s p i.rm)))
  | .conditionalCompare p signalling condition otherwise =>
    if condition.holds s.nzcv then
      do pure (.flags (← Float.compareRaising signalling (scalar s p i.rn) (scalar s p i.rm)))
    else pure (.flags otherwise)
  | .toInteger p mode signed width fbits =>
    do pure (.general (← Float.toInteger (scalar s p i.rn) mode signed width.bits fbits))
  | .fromInteger p signed width fbits =>
    pure (.vector (Lanes.scalar
      (Float.ofInteger p (Lane.value signed (s.read width.bits i.rn)) fbits)))

def execute : State :=
  let r := eval i s
  r.value.apply i.rd (s.raise r.raised)

end SimdInstruction
end AArch64
