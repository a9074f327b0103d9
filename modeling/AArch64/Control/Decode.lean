import AArch64.Control.Basic
import AArch64.Decode.KeyTable

/-! Decoding of branches, exceptions and system instructions, and of the words that speak to the host. -/
namespace AArch64.ControlOp

open DecodeError

variable (w : InstructionWord)

/-- A branch offset counts instructions. -/
def branchOffset (hi lo : Nat) : BitVec 64 := w.offset hi lo <<< 2

def decodeImmediateBranch : Except DecodeError ControlOp :=
  .ok (.branch .always (w.bit 31) (branchOffset w 25 0))

def decodeCompareBranch : Except DecodeError ControlOp :=
  if w.bit 25 then
    .ok (.branch (.bitIsClear w.rd (32 * (w.bit 31).toNat + w.number 23 19) (w.bit 24)) false
      (branchOffset w 18 5))
  else
    .ok (.branch (.isZero (Width.ofBit (w.bit 31)) w.rd (w.bit 24)) false (branchOffset w 23 5))

def decodeConditionalBranch : Except DecodeError ControlOp :=
  if w.bit 25 || w.bit 24 then .error unallocated
  else if w.bit 4 then .error notYetImplemented
  else .ok (.branch (.condition (Condition.ofCode (w.extractLsb 3 0))) false (branchOffset w 23 5))

def decodeException : Except DecodeError ControlOp :=
  if w.number 4 2 != 0 then .error unallocated
  else
    match w.number 23 21, w.number 1 0 with
    | 0, 1 => .ok (.callout (.supervisor (w.extractLsb 20 5)))
    | 0, 2 | 0, 3 => .error notYetImplemented
    | 1, 0 => .ok .breakpoint
    | 2, 0 => .ok .halt
    | 5, 1 | 5, 2 | 5, 3 => .error notYetImplemented
    | _, _ => .error unallocated

/-- Hints retire without effect, and so do barriers. -/
def decodeHint : Except DecodeError ControlOp :=
  let plain := w.number 18 16 == 3 && w.number 4 0 == 31
  match w.number 15 12 with
  | 2 => if plain then .ok .nothing else .error unallocated
  | 3 =>
    if !plain then .error unallocated
    else if w.number 7 5 == 2 then .ok .clearExclusive
    else if 4 ≤ w.number 7 5 then .ok .nothing
    else .error unallocated
  | 4 => .error notYetImplemented
  | 1 => .error (if w.number 18 16 == 3 then notYetImplemented else unallocated)
  | _ => .error unallocated

/-- Cache maintenance retires without effect. -/
def decodeSystemInstruction : Except DecodeError ControlOp :=
  let crm := w.number 11 8
  if w.number 15 12 != 7 then .error notYetImplemented
  else if w.number 18 16 == 3 && crm == 4 && w.number 7 5 == 1 then .error notYetImplemented
  else if crm == 8 || crm == 9 then .error notYetImplemented
  else .ok .nothing

def decodeSystemMove : Except DecodeError ControlOp :=
  match SystemRegister.ofNumber? (w.extractLsb 20 5) with
  | none => .error notYetImplemented
  | some r =>
    if w.bit 21 then .ok (.readSystem w.rd r)
    else if r.isReadOnly then .error unallocated
    else .ok (.writeSystem w.rd r)

def decodeSystem : Except DecodeError ControlOp :=
  if w.number 23 22 != 0 then .error unallocated
  else
    match w.number 20 19, w.bit 21 with
    | 0, false => decodeHint w
    | 1, false => decodeSystemInstruction w
    | 1, true => .error notYetImplemented
    | 2, _ => .error notYetImplemented
    | 3, _ => decodeSystemMove w
    | _, _ => .error unallocated

def decodeRegisterBranch : Except DecodeError ControlOp :=
  let opc := w.number 24 21
  if w.number 20 16 != 31 then .error unallocated
  else if opc ≤ 2 then
    if w.number 15 10 == 0 && w.number 4 0 == 0 then .ok (.branchRegister (opc == 1) w.rn)
    else .error notYetImplemented
  else if opc == 8 || opc == 9 || opc == 4 || opc == 5 then .error notYetImplemented
  else .error unallocated

def decodeRest : Except DecodeError ControlOp :=
  match w.number 25 24 with
  | 0 => decodeException w
  | 1 => decodeSystem w
  | _ => decodeRegisterBranch w

def decode : Except DecodeError ControlOp :=
  match KeyTable.control.key w with
  | 0 | 4 => decodeImmediateBranch w
  | 1 | 5 => decodeCompareBranch w
  | 2 => decodeConditionalBranch w
  | 6 => decodeRest w
  | _ => .error unallocated

/-- Words of an unallocated group that are taken to speak to the host. -/
def decodeHostWord : Except DecodeError ControlOp :=
  if w = 0xE0000000#32 then .ok .halt
  else if w = 0x00018000#32 then .ok (.callout .call)
  else if w = 0x00018001#32 then .ok (.callout .callWithResult)
  else if w = 0x00014000#32 then .ok .nothing
  else .error unallocated

end AArch64.ControlOp
