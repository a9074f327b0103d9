import AArch64.Control.Decode
import AArch64.Interpreter.Attempt

/-! The executors of branches, exceptions and system instructions, and of the words that speak to the host. -/
namespace AArch64

open Masked

namespace SystemRegister

def readWord (s : RawState) : SystemRegister → BitVec 64
  | nzcv => s.nzcv.bits.setWidth 64
  | fpcr => s.fpcr.setWidth 64
  | fpsr => s.fpsr.bits.setWidth 64
  | threadPointer => s.tpidr
  | cacheType => 0x8444C004#64
  | cacheZero => 0x10#64
  | mainId => 0x410FD034#64

def writeWord (r : SystemRegister) (x : BitVec 64) (s : RawState) : RawState :=
  match r with
  | nzcv => { s with nzcv := .ofBits (x.setWidth 32) }
  | fpcr => { s with fpcr := x.setWidth 32 }
  | fpsr => { s with fpsr := .ofBits (x.setWidth 32) }
  | threadPointer => { s with tpidr := x }
  | cacheType | cacheZero | mainId => s

end SystemRegister

namespace Attempt

variable (w : InstructionWord)

def branchRelative (offset : BitVec 64) : Attempt Unit := do
  writeNextPc ((← readPc) + offset <<< 2)

def setLink : Attempt Unit := do
  writeX Register.link.toNat ((← readPc) + 4#64)

def branchImmediate : Attempt Completion := do
  if w.bit 31 then setLink
  branchRelative (← signedField w 25 0)
  pure .ready

def compareAndTestBranch : Attempt Completion := do
  let nonzero := w.bit 24
  let (taken, offset) ←
    if w.bit 25 then do
      let x ← readX 64 w.rd.toNat
      let set ← checked (bit? x (32 * (w.bit 31).toNat + w.number 23 19))
      let offset ← signedField w 18 5
      pure (set == nonzero, offset)
    else do
      let x ← readX (Width.ofBit (w.bit 31)).bits w.rd.toNat
      let offset ← signedField w 23 5
      pure ((x != 0) == nonzero, offset)
  if taken then branchRelative offset
  pure .ready

def conditionalBranch : Attempt Completion := do
  unallocatedIf (w.bit 25 || w.bit 24)
  if w.bit 4 then notYetImplemented
  else do
    if ← holds (Condition.ofCode (w.extractLsb 3 0)) then branchRelative (← signedField w 23 5)
    pure .ready

def exceptionGeneration : Attempt Completion := do
  unallocatedIf (w.number 4 2 != 0)
  match w.number 23 21, w.number 1 0 with
  | 0, 1 => requestCallout (.supervisor (w.extractLsb 20 5))
  | 0, 2 | 0, 3 => notYetImplemented
  | 1, 0 => pure .breakpoint
  | 2, 0 => pure .halt
  | 5, 1 | 5, 2 | 5, 3 => notYetImplemented
  | _, _ => unallocated

def clearExclusive : Attempt Unit := modify fun m => { m with monitor := none }

def hintsBarriers : Attempt Completion :=
  let plain := w.number 18 16 == 3 && w.number 4 0 == 31
  match w.number 15 12 with
  | 2 => if plain then pure .ready else unallocated
  | 3 =>
    if !plain then unallocated
    else if w.number 7 5 == 2 then do
      clearExclusive
      pure .ready
    else if 4 ≤ w.number 7 5 then pure .ready
    else unallocated
  | 4 => notYetImplemented
  | 1 => if w.number 18 16 == 3 then notYetImplemented else unallocated
  | _ => unallocated

def systemInstruction : Attempt Completion :=
  let crm := w.number 11 8
  if w.number 15 12 != 7 then notYetImplemented
  else if w.number 18 16 == 3 && crm == 4 && w.number 7 5 == 1 then notYetImplemented
  else if crm == 8 || crm == 9 then notYetImplemented
  else pure .ready

def systemRegisterMove : Attempt Completion :=
  match SystemRegister.ofNumber? (w.extractLsb 20 5) with
  | none => notYetImplemented
  | some r =>
    if w.bit 21 then do
      writeX w.rd.toNat (r.readWord (← get).state)
      pure .ready
    else if r.isReadOnly then unallocated
    else do
      let x ← readX 64 w.rd.toNat
      modifyState (r.writeWord x)
      pure .ready

def system : Attempt Completion := do
  unallocatedIf (w.number 23 22 != 0)
  match w.number 20 19, w.bit 21 with
  | 0, false => hintsBarriers w
  | 1, false => systemInstruction w
  | 1, true => notYetImplemented
  | 2, _ => notYetImplemented
  | 3, _ => systemRegisterMove w
  | _, _ => unallocated

def branchRegister : Attempt Completion := do
  let opc := w.number 24 21
  unallocatedIf (w.number 20 16 != 31)
  if opc ≤ 2 then
    if w.number 15 10 == 0 && w.number 4 0 == 0 then do
      let target ← readX 64 w.rn.toNat
      if opc == 1 then setLink
      writeNextPc target
      pure .ready
    else notYetImplemented
  else if opc == 8 || opc == 9 || opc == 4 || opc == 5 then notYetImplemented
  else unallocated

def exceptionSystemRegisterBranch : Attempt Completion :=
  match w.number 25 24 with
  | 0 => exceptionGeneration w
  | 1 => system w
  | _ => branchRegister w

def branchExceptionSystem : Attempt Completion :=
  dispatch .control
    [branchImmediate, compareAndTestBranch, conditionalBranch, fun _ => unallocated, branchImmediate,
      compareAndTestBranch, exceptionSystemRegisterBranch, fun _ => unallocated] w

def hostWord : Attempt Completion :=
  if w = 0xE0000000#32 then pure .halt
  else if w = 0x00018000#32 then requestCallout .call
  else if w = 0x00018001#32 then requestCallout .callWithResult
  else if w = 0x00014000#32 then pure .ready
  else unallocated

end Attempt
end AArch64
