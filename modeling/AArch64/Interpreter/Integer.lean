import AArch64.Integer.Decode
import AArch64.Interpreter.Attempt

/-! The executors of the integer data processing groups. -/
namespace AArch64

open Masked

/-- The amount counts modulo the width, which makes it one that a shift allows. -/
def ShiftKind.shifted? {n : Nat} (kind : ShiftKind) (x : BitVec n) (amount : Nat) : Option (BitVec n) :=
  if n = 0 then none
  else
    match kind with
    | lsl => shiftLeft? x (amount % n)
    | lsr => shiftRight? x (amount % n)
    | asr => signedShiftRight? x (amount % n)
    | ror => some (x.rotateRight (amount % n))

def Extension.extended? (e : Extension) (x : BitVec 64) (shift : Nat) : Option (BitVec 64) :=
  shiftLeft? (e.extend x) (shift % 64)

namespace BitMasks

/-- The size of an element from the highest set bit of seven. -/
def combined (n : Bool) (imms : BitVec 6) : BitVec 32 :=
  (BitVec.ofBool n).setWidth 32 <<< 6 ||| ~~~imms.setWidth 32 &&& 0x3F#32

/-- The two masks, or the inner `none` where the encoding is reserved. -/
def decode? (n : Bool) (imms immr : BitVec 6) (immediate : Bool) (datasize : Nat) :
    Option (Option (BitVec 64 × BitVec 64)) :=
  let combined := combined n imms
  if combined == 0#32 then some none
  else do
    let len ← sub? 31 combined.clz.toNat
    if len < 1 then some none
    else
      let esize ← shiftLeft? 1#32 len
      if datasize < esize.toNat then some none
      else
        let levels := BitVec.ofNat 32 (← sub? esize.toNat 1)
        if immediate && (imms.setWidth 32 &&& levels) == levels then some none
        else
          let s := imms.setWidth 32 &&& levels
          let r := immr.setWidth 32 &&& levels
          let d := (s - r) &&& levels
          let welem := ones (← unsigned? 32 (s.toNat + 1))
          let telem := ones (← unsigned? 32 (d.toNat + 1))
          let rotated ← rotateRight? welem r.toNat esize.toNat
          let wmask := (← replicate? rotated esize.toNat) &&& ones datasize
          let tmask := (← replicate? telem esize.toNat) &&& ones datasize
          some (some (wmask, tmask))

/-- The table of all logical immediates. A reserved code has the entry zero. -/
def immediates? : Option (List (BitVec 64)) :=
  (List.range 8192).mapM fun index =>
    let code := BitVec.ofNat 13 index
    (decode? (code.getLsbD 12) (code.extractLsb 5 0) (code.extractLsb 11 6) true 64).map fun masks =>
      (masks.map Prod.fst).getD 0#64

def immediate? (code : Nat) : Option (BitVec 64) := do (← immediates?)[code]?

end BitMasks

/-- The move with its operands and its masks in 64 bits, of which the lowest `n` count. -/
def bitfieldMove? (kind : BitfieldKind) (dst src : BitVec 64) (rotation signBit n : Nat) (wmask tmask : BitVec 64) :
    Option (BitVec 64) := do
  let bottom := (← rotateRight? src rotation n) &&& wmask
  match kind with
  | .signed => do
    let top := if ← bit? src signBit then ones n else 0#64
    some (top &&& ~~~tmask ||| bottom &&& tmask)
  | .inserting => some (dst &&& ~~~tmask ||| (dst &&& ~~~wmask ||| bottom) &&& tmask)
  | .unsigned => some (bottom &&& tmask)

namespace Attempt

variable (w : InstructionWord)

def writeDestination {n : Nat} (x : BitVec n) : Attempt Completion := do
  writeX w.rd.toNat x
  pure .ready

/-- Flags are set before the register is written. -/
def writeWithFlags {n : Nat} (x : BitVec n) (flags : Option Nzcv) (role : Role) : Attempt Completion := do
  match flags with
  | some f => setNzcv f
  | none => pure ()
  writeX w.rd.toNat x role
  pure .ready

/-- Where flags are set, the register is not the stack pointer. -/
def writeSum {n : Nat} (r : Sum n) (role : Role) : Attempt Completion :=
  let setsFlags := w.bit 29
  writeWithFlags w r.result (if setsFlags then some r.flags else none) (if setsFlags then .zero else role)

def pcRelative : Attempt Completion := do
  let imm ← checked (signExtended? ((w.extractLsb 23 5 ++ w.extractLsb 30 29).setWidth 64) 21)
  let pc ← readPc
  writeDestination w (if w.bit 31 then (pc &&& ~~~0xFFF#64) + imm <<< 12 else pc + imm)

def addSubImmediate : Attempt Completion := do
  let n := w.width.bits
  let imm := (w.extractLsb 21 10).setWidth 64 <<< (if w.bit 22 then 12 else 0)
  let a ← readX n w.rn.toNat .stackPointer
  writeSum w (addOrSub (w.bit 30) a (imm.setWidth n)) .stackPointer

def logicalImmediate : Attempt Completion := do
  let n := w.width.bits
  unallocatedIf (!w.bit 31 && w.bit 22)
  let imm ← checked (BitMasks.immediate? (w.number 22 10))
  unallocatedIf (imm == 0#64)
  let a ← readX n w.rn.toNat
  let r := (IntegerInstruction.logicalOp (w.extractLsb 30 29)).apply a (imm.setWidth n)
  let setsFlags := w.number 30 29 == 3
  writeWithFlags w r (if setsFlags then some (logicalFlags r) else none) (if setsFlags then .zero else .stackPointer)

def moveWide : Attempt Completion := do
  let opc := w.number 30 29
  let hw := w.number 22 21
  unallocatedIf (opc == 1 || !w.bit 31 && 2 ≤ hw)
  let place := hw * 16
  let imm ← checked (shiftLeft? ((w.extractLsb 20 5).setWidth 64) place)
  let x ←
    if opc == 0 then pure (~~~imm)
    else if opc == 2 then pure imm
    else do
      let old ← readX 64 w.rd.toNat
      let field ← checked (shiftLeft? 0xFFFF#64 place)
      pure (old &&& ~~~field ||| imm)
  writeDestination w (x.setWidth w.width.bits)

def bitfield : Attempt Completion := do
  let n := w.width.bits
  let opc := w.number 30 29
  let immr := w.extractLsb 21 16
  let imms := w.extractLsb 15 10
  unallocatedIf (opc == 3 || w.bit 31 != w.bit 22 || !w.bit 31 && (w.bit 21 || w.bit 15))
  match ← checked (BitMasks.decode? (w.bit 22) imms immr false n) with
  | none => unallocated
  | some (wmask, tmask) => do
    let src ← readX n w.rn.toNat
    let dst ← readX n w.rd.toNat
    let kind := if opc == 0 then .signed else if opc == 1 then .inserting else .unsigned
    let x ← checked (bitfieldMove? kind (dst.setWidth 64) (src.setWidth 64) immr.toNat imms.toNat n wmask tmask)
    writeDestination w (x.setWidth n)

def extract : Attempt Completion := do
  let n := w.width.bits
  unallocatedIf (w.number 30 29 != 0 || w.bit 21 || w.bit 22 != w.bit 31 || !w.bit 31 && w.bit 15)
  let high ← checked (shiftLeft? ((← readX n w.rn.toNat).setWidth 128) n)
  let low := (← readX n w.rm.toNat).setWidth 128
  let r ← checked (shiftRight? (high ||| low) (w.number 15 10))
  writeDestination w ((r.setWidth 64 &&& ones n).setWidth n)

def addSubImmediateTags (_ : InstructionWord) : Attempt Completion := notYetImplemented

def dataProcessingImmediate : Attempt Completion :=
  dispatch .immediate
    [pcRelative, pcRelative, addSubImmediate, addSubImmediateTags, logicalImmediate, moveWide, bitfield, extract] w

def shiftedOperand : Attempt (BitVec w.width.bits) := do
  let b ← readX w.width.bits w.rm.toNat
  checked ((ShiftKind.ofCode (w.extractLsb 23 22)).shifted? b (w.number 15 10))

def logicalShiftedRegister : Attempt Completion := do
  unallocatedIf (!w.bit 31 && w.bit 15)
  let a ← readX w.width.bits w.rn.toNat
  let b ← shiftedOperand w
  let r := (IntegerInstruction.logicalOp (w.extractLsb 30 29)).apply a (if w.bit 21 then ~~~b else b)
  let setsFlags := w.number 30 29 == 3
  writeWithFlags w r (if setsFlags then some (logicalFlags r) else none) .zero

def addSubShiftedRegister : Attempt Completion := do
  unallocatedIf (w.number 23 22 == 3 || !w.bit 31 && w.bit 15)
  let a ← readX w.width.bits w.rn.toNat
  let b ← shiftedOperand w
  writeSum w (addOrSub (w.bit 30) a b) .zero

def addSubExtendedRegister : Attempt Completion := do
  let n := w.width.bits
  let shift := w.number 12 10
  unallocatedIf (w.number 23 22 != 0 || 4 < shift)
  let a ← readX n w.rn.toNat .stackPointer
  let b ← readX 64 w.rm.toNat
  let b ← checked ((Extension.ofCode (w.extractLsb 15 13)).extended? b shift)
  writeSum w (addOrSub (w.bit 30) a (b.setWidth n)) .stackPointer

def addSubCarry : Attempt Completion := do
  if w.number 15 10 != 0 then notYetImplemented
  else do
    let n := w.width.bits
    let a ← readX n w.rn.toNat
    let b ← readX n w.rm.toNat
    let carry ← holds .cs
    let r := addWithCarry a (if w.bit 30 then ~~~b else b) carry
    writeSum w r .zero

def conditionalCompare : Attempt Completion := do
  let n := w.width.bits
  unallocatedIf (!w.bit 29 || w.bit 10 || w.bit 4)
  if ← holds (Condition.ofCode (w.extractLsb 15 12)) then
    let a ← readX n w.rn.toNat
    let b ← if w.bit 11 then pure ((w.extractLsb 20 16).setWidth n) else readX n w.rm.toNat
    setNzcv (addOrSub (w.bit 30) a b).flags
  else setFlags (.ofNibble ((w.extractLsb 3 0).setWidth 32))
  pure .ready

def conditionalSelect : Attempt Completion := do
  let n := w.width.bits
  unallocatedIf (w.bit 29 || w.bit 11)
  let x ←
    if ← holds (Condition.ofCode (w.extractLsb 15 12)) then readX n w.rn.toNat
    else do
      let b ← readX n w.rm.toNat
      pure <|
        match w.bit 30, w.bit 10 with
        | false, false => b
        | false, true => b + 1#n
        | true, false => ~~~b
        | true, true => -b
  writeDestination w x

/-- The zeros of the 64-bit register, without those above the operand. -/
def leadingZeros? {n : Nat} (x : BitVec n) : Option (BitVec n) := do
  some (BitVec.ofNat n (← sub? (x.setWidth 64).clz.toNat (← sub? 64 n)))

def dataProcessing1Source : Attempt Completion := do
  let n := w.width.bits
  unallocatedIf (w.bit 29 || 1 < w.number 20 16)
  if w.number 20 16 == 1 then notYetImplemented
  else do
    let x ← readX n w.rn.toNat
    let r ←
      match w.number 15 10 with
      | 0 => pure (OneSource.reverseBits.apply x)
      | 1 => pure ((OneSource.reverseBytes 2).apply x)
      | 2 => pure ((OneSource.reverseBytes 4).apply x)
      | 3 => if w.bit 31 then pure ((OneSource.reverseBytes 8).apply x) else unallocated
      | 4 => checked (leadingZeros? x)
      | 5 => pure (OneSource.leadingSigns.apply x)
      | 6 | 7 | 8 => notYetImplemented
      | _ => unallocated
    writeDestination w r

def quotient? {n : Nat} (signed : Bool) (a b : BitVec n) : Option (BitVec n) :=
  if b = 0#n then none else some (if signed then a.sdiv b else a / b)

def quotientOrZero? {n : Nat} (signed : Bool) (a b : BitVec n) : Option (BitVec n) :=
  if b = 0#n then some 0#n else quotient? signed a b

def dataProcessing2Source : Attempt Completion := do
  let n := w.width.bits
  let opcode := w.number 15 10
  if w.bit 29 then (if w.bit 31 && opcode == 0 then notYetImplemented else unallocated)
  else do
    let a ← readX n w.rn.toNat
    let b ← readX n w.rm.toNat
    let amount := (b.setWidth 32).toNat
    let r ←
      match opcode with
      | 2 => checked (quotientOrZero? false a b)
      | 3 => checked (quotientOrZero? true a b)
      | 8 => checked (ShiftKind.lsl.shifted? a amount)
      | 9 => checked (ShiftKind.lsr.shifted? a amount)
      | 10 => checked (ShiftKind.asr.shifted? a amount)
      | 11 => checked (ShiftKind.ror.shifted? a amount)
      | 0 | 4 | 5 | 12 => notYetImplemented
      | _ => if 16 ≤ opcode ∧ opcode < 28 then notYetImplemented else unallocated
    writeDestination w r

def longProduct? (signed : Bool) (a b : BitVec 32) : Option (BitVec 64) :=
  if signed then (signed? 64 (a.toInt * b.toInt)).map (BitVec.ofInt 64)
  else (unsigned? 64 (a.toNat * b.toNat)).map (BitVec.ofNat 64)

def highProduct? {n : Nat} (signed : Bool) (a b : BitVec n) : Option (BitVec 64) :=
  if signed then (signed? 128 (a.toInt * b.toInt)).map fun x => (BitVec.ofInt 128 x).extractLsb 127 64
  else (unsigned? 128 (a.toNat * b.toNat)).map fun x => (BitVec.ofNat 128 x).extractLsb 127 64

def dataProcessing3Source : Attempt Completion := do
  let n := w.width.bits
  let op := w.number 23 21
  unallocatedIf (w.number 30 29 != 0 || !w.bit 31 && op != 0)
  let x ← readX n w.rn.toNat
  let y ← readX n w.rm.toNat
  let a ← readX n w.ra.toNat
  let subtract := w.bit 15
  let r ←
    match op with
    | 0 => pure (accumulate subtract a (x * y))
    | 1 => do
      let product ← checked (longProduct? true (x.setWidth 32) (y.setWidth 32))
      pure (accumulate subtract a (product.setWidth n))
    | 5 => do
      let product ← checked (longProduct? false (x.setWidth 32) (y.setWidth 32))
      pure (accumulate subtract a (product.setWidth n))
    | 2 => if subtract then unallocated else checked ((highProduct? true x y).map (BitVec.setWidth n))
    | 6 => if subtract then unallocated else checked ((highProduct? false x y).map (BitVec.setWidth n))
    | _ => unallocated
  writeDestination w r

def dataProcessingSource : Attempt Completion :=
  if w.bit 30 then dataProcessing1Source w else dataProcessing2Source w

def dataProcessingRegisterMisc : Attempt Completion :=
  dispatch .registerMisc [addSubCarry, conditionalCompare, conditionalSelect, dataProcessingSource] w

def dataProcessingRegister : Attempt Completion :=
  dispatch .register
    [logicalShiftedRegister, logicalShiftedRegister, addSubShiftedRegister, addSubExtendedRegister,
      dataProcessingRegisterMisc, fun _ => unallocated, dataProcessing3Source, dataProcessing3Source] w

end Attempt
end AArch64
