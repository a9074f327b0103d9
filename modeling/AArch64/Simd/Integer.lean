import AArch64.Lanes
import AArch64.Simd.Lane

/-! Integer vector instructions as functions of their source vectors and of the old destination. A result that
does not fill the register has zeros above it; only inserting a lane and writing an upper half keep the rest of
the destination. -/
namespace AArch64

structure Arrangement where
  size : ElementSize
  elements : Nat
  deriving DecidableEq

namespace Arrangement

def esize (a : Arrangement) : Nat := a.size.bits

def scalar (size : ElementSize) : Arrangement :=
  { size, elements := 1 }

/-- The lanes of 64 or 128 bits; a single 64-bit lane is not a vector. -/
def vector? (size : ElementSize) (full : Bool) : Option Arrangement :=
  if size = .double ∧ !full then none
  else some { size, elements := (if full then 128 else 64) / size.bits }

end Arrangement

/-- First and second source, and the destination before the instruction. -/
structure VectorOperands where
  n : BitVec 128
  m : BitVec 128
  d : BitVec 128

inductive VectorBitwise
  | and | andNot | or | orNot | xor | select | insertIfTrue | insertIfFalse
  deriving DecidableEq

def VectorBitwise.apply (op : VectorBitwise) (v : VectorOperands) : BitVec 128 :=
  match op with
  | and => v.n &&& v.m
  | andNot => v.n &&& ~~~v.m
  | or => v.n ||| v.m
  | orNot => v.n ||| ~~~v.m
  | xor => v.n ^^^ v.m
  | select => v.d &&& v.n ||| ~~~v.d &&& v.m
  | insertIfTrue => v.d &&& ~~~v.m ||| v.n &&& v.m
  | insertIfFalse => v.d &&& v.m ||| v.n &&& ~~~v.m

inductive Permutation
  | unzip | transpose | zip
  deriving DecidableEq

inductive Reduction
  | sum | max | min
  deriving DecidableEq

def Reduction.apply (op : Reduction) (xs : List Int) : Int :=
  match op with
  | sum => xs.foldl (· + ·) 0
  | max => xs.max?.getD 0
  | min => xs.min?.getD 0

inductive ImmediateUse
  | write | set | clear
  deriving DecidableEq

inductive VectorOp
  | lanes (op : LaneOp) (signed : Bool) (a : Arrangement)
  | pairwise (op : LaneOp) (signed : Bool) (a : Arrangement)
  | byElement (op : LaneOp) (a : Arrangement) (index : Nat)
  | bitwise (op : VectorBitwise) (full : Bool)
  | long (op : LongOp) (signed wideFirst : Bool) (size : ElementSize) (upper : Bool)
  | highNarrow (subtract : Bool) (size : ElementSize) (upper : Bool)
  | unary (op : LaneUnary) (a : Arrangement)
  | reverse (container : Nat) (a : Arrangement)
  | addLongPairs (signed accumulate : Bool) (size : ElementSize) (elements : Nat)
  | narrow (size : ElementSize) (upper : Bool)
  | shiftRight (signed rounding accumulate : Bool) (shift : Nat) (a : Arrangement)
  | shiftRightInsert (shift : Nat) (a : Arrangement)
  | shiftLeft (keep : Bool) (shift : Nat) (a : Arrangement)
  | shiftRightNarrow (rounding : Bool) (shift : Nat) (size : ElementSize) (upper : Bool)
  | shiftLeftLong (signed : Bool) (shift : Nat) (size : ElementSize) (upper : Bool)
  | reduce (op : Reduction) (signed widening : Bool) (a : Arrangement)
  | duplicate (index : Nat) (a : Arrangement)
  | insert (size : ElementSize) (target index : Nat)
  | permute (op : Permutation) (part : Nat) (a : Arrangement)
  | extract (position : Nat) (full : Bool)
  | immediate (use : ImmediateUse) (x : BitVec 64) (full : Bool)

namespace VectorOp

/-- Lane `i` of the lanes of `n` followed by those of `m`. -/
def pairLane (n m : BitVec 128) (esize elements i : Nat) : BitVec esize :=
  if i < elements then Lanes.get n esize i else Lanes.get m esize (i - elements)

/-- A result of 64 bits in the lower half, with zeros above, or in the upper half of the old destination. -/
def half (d result : BitVec 128) (upper : Bool) : BitVec 128 :=
  if upper then Lanes.set d 1 (result.setWidth 64) else Lanes.sized result false

def permuted (op : Permutation) (part : Nat) (n m : BitVec 128) (esize elements i : Nat) :
    BitVec esize :=
  let source := if i % 2 = 0 then n else m
  match op with
  | .unzip => pairLane n m esize elements (2 * i + part)
  | .transpose => Lanes.get source esize (i / 2 * 2 + part)
  | .zip => Lanes.get source esize (part * (elements / 2) + i / 2)

def longLane (op : LongOp) (signed wideFirst : Bool) (esize part : Nat) (v : VectorOperands) (i : Nat) :
    BitVec (2 * esize) :=
  let x := if wideFirst then Lane.value signed (Lanes.get v.n (2 * esize) i)
    else Lane.value signed (Lanes.get v.n esize (part + i))
  let y := Lane.value signed (Lanes.get v.m esize (part + i))
  BitVec.ofInt (2 * esize) (op.apply x y (Lanes.get v.d (2 * esize) i).toNat)

/-- Number of narrow lanes in half a register. -/
def halfLanes (size : ElementSize) : Nat := 64 / size.bits

/-- First narrow lane that a long operation reads. -/
def firstLane (size : ElementSize) (upper : Bool) : Nat := if upper then halfLanes size else 0

def eval (op : VectorOp) (v : VectorOperands) : Flagged (BitVec 128) :=
  match op with
  | lanes op signed a =>
    Lanes.buildFlagged a.elements fun i =>
      op.apply signed (Lanes.get v.n a.esize i) (Lanes.get v.m a.esize i) (Lanes.get v.d a.esize i)
  | pairwise op signed a =>
    Lanes.buildFlagged a.elements fun i =>
      op.apply signed (pairLane v.n v.m a.esize a.elements (2 * i))
        (pairLane v.n v.m a.esize a.elements (2 * i + 1)) 0#a.esize
  | byElement op a index =>
    Lanes.buildFlagged a.elements fun i =>
      op.apply false (Lanes.get v.n a.esize i) (Lanes.get v.m a.esize index) (Lanes.get v.d a.esize i)
  | bitwise op full => pure (Lanes.sized (op.apply v) full)
  | long op signed wideFirst size upper =>
    pure (Lanes.build (halfLanes size)
      (longLane op signed wideFirst size.bits (firstLane size upper) v))
  | highNarrow subtract size upper =>
    pure <| half v.d (Lanes.build (halfLanes size) fun i =>
      let a := Lanes.get v.n (2 * size.bits) i
      let b := Lanes.get v.m (2 * size.bits) i
      (if subtract then a - b else a + b).extractLsb' size.bits size.bits) upper
  | unary op a => pure (Lanes.build a.elements fun i => op.apply (Lanes.get v.n a.esize i))
  | reverse container a =>
    let k := container / a.esize
    pure (Lanes.build a.elements fun i => Lanes.get v.n a.esize (i / k * k + (k - 1 - i % k)))
  | addLongPairs signed accumulate size elements =>
    let wide := 2 * size.bits
    pure <| Lanes.build elements fun i =>
      (if accumulate then Lanes.get v.d wide i else 0)
        + BitVec.ofInt wide (Lane.value signed (Lanes.get v.n size.bits (2 * i))
          + Lane.value signed (Lanes.get v.n size.bits (2 * i + 1)))
  | narrow size upper =>
    pure <| half v.d (Lanes.build (halfLanes size) fun i =>
      (Lanes.get v.n (2 * size.bits) i).setWidth size.bits) upper
  | shiftRight signed rounding accumulate shift a =>
    pure <| Lanes.build a.elements fun i =>
      (if accumulate then Lanes.get v.d a.esize i else 0#a.esize)
        + Lane.shiftRight signed rounding shift (Lanes.get v.n a.esize i)
  | shiftRightInsert shift a =>
    let mask := BitVec.allOnes a.esize >>> shift
    pure <| Lanes.build a.elements fun i =>
      Lanes.get v.d a.esize i &&& ~~~mask ||| Lanes.get v.n a.esize i >>> shift &&& mask
  | shiftLeft keep shift a =>
    let mask := BitVec.allOnes a.esize <<< shift
    pure <| Lanes.build a.elements fun i =>
      let x := Lanes.get v.n a.esize i <<< shift
      if keep then Lanes.get v.d a.esize i &&& ~~~mask ||| x &&& mask else x
  | shiftRightNarrow rounding shift size upper =>
    pure <| half v.d (Lanes.build (halfLanes size) fun i =>
      (Lane.shiftRight false rounding shift (Lanes.get v.n (2 * size.bits) i)).setWidth size.bits) upper
  | shiftLeftLong signed shift size upper =>
    let wide := 2 * size.bits
    pure <| Lanes.build (halfLanes size) fun i =>
      BitVec.ofInt wide
        (Lane.value signed (Lanes.get v.n size.bits (firstLane size upper + i)) * 2 ^ shift)
  | reduce op signed widening a =>
    let x := op.apply ((List.range a.elements).map fun i => Lane.value signed (Lanes.get v.n a.esize i))
    pure (Lanes.scalar (BitVec.ofInt (if widening then 2 * a.esize else a.esize) x))
  | duplicate index a => pure (Lanes.build a.elements fun _ => Lanes.get v.n a.esize index)
  | insert size target index => pure (Lanes.set v.d target (Lanes.get v.n size.bits index))
  | permute op part a =>
    pure (Lanes.build a.elements (permuted op part v.n v.m a.esize a.elements))
  | extract position full =>
    let bytes := if full then 16 else 8
    pure (Lanes.build bytes fun i => pairLane v.n v.m 8 bytes (position + i))
  | immediate use x full =>
    let y := Lanes.double x
    let r := match use with
      | .write => y
      | .set => v.d ||| y
      | .clear => v.d &&& ~~~y
    pure (Lanes.sized r full)

end VectorOp
end AArch64
