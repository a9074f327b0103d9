import AArch64.Interpreter.Simd

/-! The executors of the scalar floating-point instructions, and of the whole group that they share with the vector
instructions. -/
namespace AArch64

open Masked SimdInstruction

namespace Attempt

variable (w : InstructionWord)

def readScalar (p : Precision) (i : Nat) : Attempt (Float p) := do checked (FloatVectorOp.lane? p (← readV i) 0)

def writeScalar {n : Nat} (x : BitVec n) : Attempt Completion := do writeVector w (← checked (Lanes.scalar? x))

/-- Flags are raised before the register is written. -/
def writeFloat {p : Precision} (r : Option (Flagged (Float p))) : Attempt Completion := do writeScalar w (← flagged r)

def withPrecision (f : Precision → Attempt Completion) : Attempt Completion :=
  match w.number 23 22 with
  | 0 => f .single
  | 1 => f .double
  | 3 => notYetImplemented
  | _ => unallocated

def convertPrecision : Attempt Completion :=
  match w.number 23 22, w.bit 15 with
  | 0, true => do writeFloat w (Float.convert? .double (← readScalar .single w.rn.toNat))
  | 1, false => do writeFloat w (Float.convert? .single (← readScalar .double w.rn.toNat))
  | _, _ => unallocated

/-- The source is read before the operation is known. -/
def floatOneSource (p : Precision) : Attempt Completion := do
  let x ← readScalar p w.rn.toNat
  let result (op : FloatUnary) := writeFloat w (op.result? x)
  match w.number 20 15 with
  | 0 => result .move
  | 1 => result .abs
  | 2 => result .neg
  | 3 => result .sqrt
  | 4 | 5 => convertPrecision w
  | 7 => notYetImplemented
  | 8 => result (.round .tiesEven)
  | 9 => result (.round .plusInfinity)
  | 10 => result (.round .minusInfinity)
  | 11 => result (.round .zero)
  | 12 => result (.round .tiesAway)
  | 14 | 15 | 16 | 17 | 18 | 19 => notYetImplemented
  | _ => unallocated

def floatTwoSource (p : Precision) : Attempt Completion :=
  let result (op : Float.Binary) : Attempt Completion := do
    let a ← readScalar p w.rn.toNat
    let b ← readScalar p w.rm.toNat
    writeFloat w (op.result? a b)
  match w.number 15 12 with
  | 0 => result .mul
  | 1 => result .div
  | 2 => result .add
  | 3 => result .sub
  | 4 => result .max
  | 5 => result .min
  | 6 => result .maxNumber
  | 7 => result .minNumber
  | 8 => result .negatedMul
  | _ => unallocated

def compareScalars {p : Precision} (signalling : Bool) (a b : Float p) : Attempt Completion := do
  let f ← flagged (Float.compareRaising? signalling a b)
  setFlags f
  pure .ready

def floatCompare (p : Precision) : Attempt Completion := do
  unallocatedIf (w.number 15 14 != 0 || w.number 2 0 != 0)
  let a ← readScalar p w.rn.toNat
  let b ← if w.bit 3 then pure (Float.zero p) else readScalar p w.rm.toNat
  compareScalars (w.bit 4) a b

def floatImmediate (p : Precision) : Attempt Completion := do
  unallocatedIf (w.number 9 5 != 0)
  let x ← checked (Float.ofImmediate? p ((w.extractLsb 20 13).setWidth 32))
  writeScalar w x

def floatConditionalCompare (p : Precision) : Attempt Completion := do
  if ← holds (Condition.ofCode (w.extractLsb 15 12)) then do
    let a ← readScalar p w.rn.toNat
    let b ← readScalar p w.rm.toNat
    compareScalars (w.bit 4) a b
  else do
    setFlags (.ofNibble ((w.extractLsb 3 0).setWidth 32))
    pure .ready

def floatSelect (p : Precision) : Attempt Completion := do
  let source := if ← holds (Condition.ofCode (w.extractLsb 15 12)) then w.rn else w.rm
  let x ← readScalar p source.toNat
  writeScalar w x

def floatToInteger (p : Precision) (mode : Rounding) (signed : Bool) (fbits : Nat) : Attempt Completion := do
  let x ← readScalar p w.rn.toNat
  let x ← flagged (Float.toInteger? x mode signed w.width.bits fbits)
  writeX w.rd.toNat x
  pure .ready

/-- The whole register is read. The conversion takes its low bits. -/
def integerToFloat (p : Precision) (signed : Bool) (fbits : Nat) : Attempt Completion := do
  let x ← readX 64 w.rn.toNat
  let x ← checked (Float.ofInteger? p signed x w.width.bits fbits)
  writeScalar w x

def moveGeneral (toGeneral : Bool) : Attempt Completion := do
  let n := w.width.bits
  if toGeneral then do
    let x ← checked (Lanes.get? (← readV w.rn.toNat) 64 0)
    writeX w.rd.toNat ((x &&& ones n).setWidth n)
    pure .ready
  else do
    let x ← readX n w.rn.toNat
    writeScalar w x

def moveUpperHalf (toGeneral : Bool) : Attempt Completion := do
  if toGeneral then do
    let x ← checked (Lanes.get? (← readV w.rn.toNat) 64 1)
    writeX w.rd.toNat x
    pure .ready
  else do
    let x ← readX 64 w.rn.toNat
    insertLane w .double 1 x

def floatIntegerConversion : Attempt Completion :=
  let sf := w.bit 31
  let type := w.number 23 22
  let mode := w.number 20 19
  let opcode := w.number 18 16
  let p : Precision := if type == 0 then .single else .double
  let plain := (mode == 0 && type == 0 && !sf) || (mode == 0 && type == 1 && sf)
  let upper := mode == 1 && type == 2 && sf
  if (opcode == 6 || opcode == 7) && plain then moveGeneral w (opcode == 6)
  else if opcode == 6 && upper then moveUpperHalf w true
  else if opcode == 7 && upper then moveUpperHalf w false
  else if type == 3 then notYetImplemented
  else if opcode == 6 && mode == 3 && type == 1 && !sf then notYetImplemented
  else if type == 2 then unallocated
  else if opcode ≤ 1 || (opcode == 4 || opcode == 5) && mode == 0 then
    floatToInteger w p (if opcode < 4 then Rounding.ofCode (w.extractLsb 20 19) else .tiesAway) (opcode % 2 == 0) 0
  else if (opcode == 2 || opcode == 3) && mode == 0 then integerToFloat w p (opcode == 2) 0
  else unallocated

def fixedConversion (p : Precision) (fbits : Nat) : Attempt Completion :=
  match w.number 20 16 with
  | 2 | 3 => integerToFloat w p (!w.bit 16) fbits
  | 24 | 25 => floatToInteger w p .zero (!w.bit 16) fbits
  | _ => unallocated

/-- The number of fraction bits is computed before the type is looked at. -/
def floatFixedConversion : Attempt Completion := do
  let type := w.number 23 22
  unallocatedIf (!w.bit 31 && w.number 15 10 < 32)
  let fbits ← checked (sub? 64 (w.number 15 10))
  notYetImplementedIf (type == 3)
  unallocatedIf (type == 2)
  fixedConversion w (if type == 1 then .double else .single) fbits

def floatDataProcessing : Attempt Completion := do
  unallocatedIf (w.bit 29)
  if !w.bit 21 then floatFixedConversion w
  else if w.number 15 10 == 0 then floatIntegerConversion w
  else do
    unallocatedIf (w.bit 31)
    match w.number 11 10 with
    | 0 =>
      if w.number 14 10 == 16 then withPrecision w (floatOneSource w)
      else if w.number 13 10 == 8 then withPrecision w (floatCompare w)
      else if w.number 12 10 == 4 then withPrecision w (floatImmediate w)
      else unallocated
    | 1 => withPrecision w (floatConditionalCompare w)
    | 2 => withPrecision w (floatTwoSource w)
    | _ => withPrecision w (floatSelect w)

def fusedMultiplyAdd (p : Precision) : Attempt Completion := do
  let n ← readScalar p w.rn.toNat
  let m ← readScalar p w.rm.toNat
  let a ← readScalar p w.ra.toNat
  let n := if w.bit 15 != w.bit 21 then Float.neg n else n
  let a := if w.bit 21 then Float.neg a else a
  writeFloat w (Float.multiplyAdd? a n m)

def floatThreeSource : Attempt Completion := do
  unallocatedIf (w.bit 31 || w.bit 29)
  withPrecision w (fusedMultiplyAdd w)

def simdAndFloat : Attempt Completion :=
  dispatch .simdAndFloat
    [simdVector, simdVectorImmediate, simdVector, simdVectorImmediate, floatDataProcessing, floatThreeSource, simdScalar,
      simdScalarImmediate] w

end Attempt
end AArch64
