import AArch64.Masked
import AArch64.Simd.Integer

/-! Vector operations as they are carried out, one lane after the other. A lane is computed with in a word of 64 bits or in
an integer of 128 bits. A number that leaves these, a lane beyond the register and a shift by too many places have no
result. -/
namespace AArch64

open Masked

namespace Lanes

variable {esize : Nat}

def build? : (n : Nat) → (f : Nat → Option (BitVec esize)) → Option (BitVec 128)
  | 0, _ => some 0#128
  | n + 1, f => do
    let v ← build? n f
    let x ← f n
    set? v n x

def buildFlagged? : (n : Nat) → (f : Nat → Option (Flagged (BitVec esize))) → Option (Flagged (BitVec 128))
  | 0, _ => some (pure 0#128)
  | n + 1, f => do
    let v ← buildFlagged? n f
    let x ← f n
    let r ← set? v.value n x.value
    some do
      let _ ← v
      let _ ← x
      pure r

def scalar? (x : BitVec esize) : Option (BitVec 128) := set? 0#128 0 x

end Lanes

namespace Lane

variable {n : Nat}

/-- An integer that comes back from 128 bits. -/
def wide? (x : Int) : Option Int := if (BitVec.ofInt 128 x).toInt = x then some x else none

/-- What leaves the 128 bits at the top is lost. -/
def wideShiftLeft? (x : Int) (k : Nat) : Option Int :=
  if k < 128 then some ((x * 2 ^ k).bmod (2 ^ 128)) else none

def wideShiftRight? (x : Int) (k : Nat) : Option Int :=
  if k < 128 then some (x / 2 ^ k) else none

def difference? (x y : Int) : Option Int := do wide? (← wide? (x - y)).natAbs

def widened? (signed : Bool) (x : BitVec 64) (n : Nat) : Option Int :=
  if signed then (signExtended? x n).map BitVec.toInt else some (x &&& ones n).toNat

def value? (signed : Bool) (x : BitVec n) : Option Int := widened? signed (x.setWidth 64) n

def range? (signed : Bool) (n : Nat) : Option (Int × Int) := do
  if signed then
    let limit ← wideShiftLeft? 1 (← sub? n 1)
    some (← wide? (-limit), ← wide? (limit - 1))
  else
    let limit ← wideShiftLeft? 1 n
    some (0, ← wide? (limit - 1))

/-- Only a range that is not empty has a nearest integer. -/
def saturate? (signed : Bool) (n : Nat) (x : Int) : Option (Flagged (BitVec n)) := do
  let (least, greatest) ← range? signed n
  if greatest < least then none
  else
    let clamped := max least (min x greatest)
    some { value := BitVec.ofInt n clamped, raised := { saturation := clamped != x } }

def shiftByRegister? (signed : Bool) (x amount : BitVec n) : Option (BitVec n) := do
  let k := (amount.setWidth 8).toInt
  let x ← value? signed x
  let shifted ←
    if n ≤ k then some 0
    else if 0 ≤ k then wideShiftLeft? x k.toNat
    else wideShiftRight? x (min (-k) 127).toNat
  some (BitVec.ofInt n shifted)

def shiftRight? (signed rounding : Bool) (shift : Nat) (x : BitVec n) : Option (BitVec n) := do
  let x ← value? signed x
  let x ← if rounding then do wide? (x + (← wideShiftLeft? 1 (← sub? shift 1))) else some x
  some (BitVec.ofInt n (← wideShiftRight? x shift))

def shiftLeftLong? (signed : Bool) (shift : Nat) (x : BitVec n) : Option (BitVec (2 * n)) := do
  let x ← value? signed x
  some (BitVec.ofInt (2 * n) (← wideShiftLeft? x shift))

def addProduct? (a b p : BitVec 64) (i : Nat) : Option (BitVec 64) := do
  if ← bit? b i then some (p ^^^ (← shiftLeft? a i)) else some p

def polynomialProduct? (a b : BitVec n) : Option (BitVec n) := do
  let product ← (List.range n).foldlM (addProduct? (a.setWidth 64 &&& ones n) (b.setWidth 64)) 0#64
  some ((product &&& ones n).setWidth n)

def leadingZeros? (x : BitVec 64) (n : Nat) : Option (BitVec n) := do
  let count ← sub? (x &&& ones n).clz.toNat (← sub? 64 n)
  some (BitVec.ofNat n count)

def leadingSigns? (x : BitVec n) : Option (BitVec n) := do
  let x := x.setWidth 64
  let signCopies := if ← bit? x (← sub? n 1) then ~~~x else x
  leadingZeros? (signCopies <<< 1 ||| 1#64) n

def addPair? (signed : Bool) (acc : BitVec (2 * n)) (x y : BitVec n) : Option (BitVec (2 * n)) := do
  let sum ← wide? (acc.toNat + (← value? signed x))
  some (BitVec.ofInt (2 * n) (← wide? (sum + (← value? signed y))))

end Lane

namespace LaneOp

open Lane

variable {n : Nat}

def result? (op : LaneOp) (signed : Bool) (a b acc : BitVec n) : Option (Flagged (BitVec n)) := do
  let x ← value? signed a
  let y ← value? signed b
  let acc ← value? false acc
  let narrowed (z : Option Int) : Option (Flagged (BitVec n)) := z.map fun z => pure (BitVec.ofInt n z)
  match op with
  | halvingAdd => narrowed do wideShiftRight? (← wide? (x + y)) 1
  | roundingHalvingAdd => narrowed do wideShiftRight? (← wide? ((← wide? (x + y)) + 1)) 1
  | halvingSub => narrowed do wideShiftRight? (← wide? (x - y)) 1
  | saturatingAdd => saturate? signed n (← wide? (x + y))
  | saturatingSub => saturate? signed n (← wide? (x - y))
  | greater => some (pure (truth n (decide (x > y))))
  | greaterEqual => some (pure (truth n (decide (x ≥ y))))
  | test => some (pure (truth n (a &&& b != 0#n)))
  | equal => some (pure (truth n (decide (x = y))))
  | shiftLeft => (shiftByRegister? signed a b).map pure
  | polynomialMultiply => (polynomialProduct? a b).map pure
  | max => narrowed (some (if y ≤ x then x else y))
  | min => narrowed (some (if x ≤ y then x else y))
  | absoluteDifference => narrowed (difference? x y)
  | absoluteDifferenceAccumulate => narrowed do wide? (acc + (← difference? x y))
  | add => narrowed (wide? (x + y))
  | sub => narrowed (wide? (x - y))
  | multiply => narrowed (wide? (x * y))
  | multiplyAdd => narrowed do wide? (acc + (← wide? (x * y)))
  | multiplySub => narrowed do wide? (acc - (← wide? (x * y)))

end LaneOp

namespace LongOp

open Lane

def result? (op : LongOp) (x y acc : Int) : Option Int :=
  match op with
  | add => wide? (x + y)
  | sub => wide? (x - y)
  | absoluteDifference => difference? x y
  | absoluteDifferenceAccumulate => do wide? (acc + (← difference? x y))
  | multiply => wide? (x * y)
  | multiplyAdd => do wide? (acc + (← wide? (x * y)))
  | multiplySub => do wide? (acc - (← wide? (x * y)))

end LongOp

namespace LaneUnary

open Lane

variable {n : Nat}

def result? (op : LaneUnary) (x : BitVec n) : Option (BitVec n) :=
  match op with
  | leadingZeros => leadingZeros? (x.setWidth 64) n
  | leadingSigns => leadingSigns? x
  | popCount => some x.cpop
  | not => some (~~~x)
  | reverseBits => some x.reverse
  | abs => do some (BitVec.ofInt n (← wide? (← value? true x).natAbs))
  | neg => do some (BitVec.ofInt n (← wide? (-(← value? true x))))
  | compareZero t => do some (truth n (t.holds (← value? true x)))

end LaneUnary

/-- Sums are gathered from the front. -/
def Reduction.result? (op : Reduction) (xs : List Int) : Option Int :=
  match op with
  | sum => xs.foldlM (fun s x => Lane.wide? (s + x)) 0
  | max => some (xs.max?.getD 0)
  | min => some (xs.min?.getD 0)

namespace VectorOp

open Lanes

def pairLane? (n m : BitVec 128) (esize elements i : Nat) : Option (BitVec esize) :=
  if i < elements then get? n esize i else get? m esize (i - elements)

def half? (d result : BitVec 128) (upper : Bool) : Option (BitVec 128) :=
  if upper then do set? d 1 (← get? result 64 0) else some (sized result false)

def permuted? (op : Permutation) (part : Nat) (n m : BitVec 128) (esize elements i : Nat) :
    Option (BitVec esize) :=
  let source := if i % 2 = 0 then n else m
  match op with
  | .unzip => pairLane? n m esize elements (2 * i + part)
  | .transpose => get? source esize (i / 2 * 2 + part)
  | .zip => get? source esize (part * (elements / 2) + i / 2)

def longLane? (op : LongOp) (signed wideFirst : Bool) (esize part : Nat) (v : VectorOperands) (i : Nat) :
    Option (BitVec (2 * esize)) := do
  let x ← if wideFirst then do Lane.value? signed (← get? v.n (2 * esize) i)
    else do Lane.value? signed (← get? v.n esize (part + i))
  let y ← Lane.value? signed (← get? v.m esize (part + i))
  let acc ← get? v.d (2 * esize) i
  let z ← op.result? x y acc.toNat
  some (BitVec.ofInt (2 * esize) z)

def eval? (op : VectorOp) (v : VectorOperands) : Option (Flagged (BitVec 128)) :=
  match op with
  | lanes op signed a =>
    buildFlagged? a.elements fun i => do
      op.result? signed (← get? v.n a.esize i) (← get? v.m a.esize i) (← get? v.d a.esize i)
  | pairwise op signed a =>
    buildFlagged? a.elements fun i => do
      let x ← pairLane? v.n v.m a.esize a.elements (2 * i)
      let y ← pairLane? v.n v.m a.esize a.elements (2 * i + 1)
      op.result? signed x y 0#a.esize
  | byElement op a index =>
    buildFlagged? a.elements fun i => do
      op.result? false (← get? v.n a.esize i) (← get? v.m a.esize index) (← get? v.d a.esize i)
  | bitwise op full => some (pure (sized (op.apply v) full))
  | long op signed wideFirst size upper => do
    let r ← build? (halfLanes size) (longLane? op signed wideFirst size.bits (firstLane size upper) v)
    some (pure r)
  | highNarrow subtract size upper => do
    let r ← build? (halfLanes size) fun i => do
      let a ← get? v.n (2 * size.bits) i
      let b ← get? v.m (2 * size.bits) i
      some ((if subtract then a - b else a + b).extractLsb' size.bits size.bits)
    some (pure (← half? v.d r upper))
  | unary op a => do
    let r ← build? a.elements fun i => do op.result? (← get? v.n a.esize i)
    some (pure r)
  | reverse container a => do
    let k := container / a.esize
    if k = 0 then none
    else
      let r ← build? a.elements fun i => get? v.n a.esize (i / k * k + (k - 1 - i % k))
      some (pure r)
  | addLongPairs signed accumulate size elements => do
    let r ← build? elements fun i => do
      let x ← get? v.n size.bits (2 * i)
      let y ← get? v.n size.bits (2 * i + 1)
      let acc ← if accumulate then get? v.d (2 * size.bits) i else some 0
      Lane.addPair? signed acc x y
    some (pure r)
  | narrow size upper => do
    let r ← build? (halfLanes size) fun i => (get? v.n (2 * size.bits) i).map (BitVec.setWidth size.bits)
    some (pure (← half? v.d r upper))
  | shiftRight signed rounding accumulate shift a => do
    let r ← build? a.elements fun i => do
      let x ← Lane.shiftRight? signed rounding shift (← get? v.n a.esize i)
      let acc ← if accumulate then get? v.d a.esize i else some 0#a.esize
      some (acc + x)
    some (pure r)
  | shiftRightInsert shift a => do
    let mask := BitVec.allOnes a.esize >>> shift
    let r ← build? a.elements fun i => do
      let x ← get? v.n a.esize i
      let y ← get? v.d a.esize i
      some (y &&& ~~~mask ||| x >>> shift &&& mask)
    some (pure r)
  | shiftLeft keep shift a =>
    if 64 ≤ shift then none
    else do
      let mask := BitVec.allOnes a.esize <<< shift
      let r ← build? a.elements fun i => do
        let x ← get? v.n a.esize i
        let y ← get? v.d a.esize i
        some (if keep then y &&& ~~~mask ||| x <<< shift &&& mask else x <<< shift)
      some (pure r)
  | shiftRightNarrow rounding shift size upper => do
    let r ← build? (halfLanes size) fun i => do
      let x ← Lane.shiftRight? false rounding shift (← get? v.n (2 * size.bits) i)
      some (x.setWidth size.bits)
    some (pure (← half? v.d r upper))
  | shiftLeftLong signed shift size upper => do
    let r ← build? (halfLanes size) fun i => do
      Lane.shiftLeftLong? signed shift (← get? v.n size.bits (firstLane size upper + i))
    some (pure r)
  | reduce op signed widening a => do
    let xs ← (List.range a.elements).mapM fun i => do Lane.value? signed (← get? v.n a.esize i)
    let x ← op.result? xs
    some (pure (← scalar? (BitVec.ofInt (if widening then 2 * a.esize else a.esize) x)))
  | duplicate index a => do
    let x ← get? v.n a.esize index
    let r ← build? a.elements fun _ => some x
    some (pure r)
  | insert size target index => do
    let x ← get? v.n size.bits index
    let r ← set? v.d target x
    some (pure r)
  | permute op part a => do
    let r ← build? a.elements (permuted? op part v.n v.m a.esize a.elements)
    some (pure r)
  | extract position full => do
    let bytes := if full then 16 else 8
    let r ← build? bytes fun i => pairLane? v.n v.m 8 bytes (position + i)
    some (pure r)
  | immediate use x full => some ((immediate use x full).eval v)

end VectorOp
end AArch64
