import AArch64.BitMasks
import AArch64.Decode.KeyTable
import AArch64.Integer.Basic

/-! Decoding of the integer data processing groups, with an immediate and with register operands. -/
namespace AArch64

def InstructionWord.width (w : InstructionWord) : Width := Width.ofBit (w.bit 31)

namespace IntegerInstruction

open DecodeError

variable (w : InstructionWord)

/-- A register destination is the stack pointer only where the flags are not set. -/
def destinationRole (setFlags : Bool) : Role := if setFlags then .zero else .stackPointer

def decodeAddress : Except DecodeError IntegerInstruction :=
  let page := w.bit 31
  let offset := (w.extractLsb 23 5 ++ w.extractLsb 30 29).signExtend 64
  .ok { width := .w64, rd := w.rd, op := .address page (if page then offset <<< 12 else offset) }

def decodeAddSubImmediate : Except DecodeError IntegerInstruction :=
  let imm := (w.extractLsb 21 10).setWidth 64
  .ok
    { width := w.width, rd := w.rd, role := destinationRole (w.bit 29)
      op := .addSub (w.bit 30) (w.bit 29) w.rn .stackPointer
        (.immediate (if w.bit 22 then imm <<< 12 else imm)) }

def logicalOp (opc : BitVec 2) : BitwiseOp :=
  match opc.toNat with
  | 1 => .or | 2 => .xor | _ => .and

def decodeLogicalImmediate : Except DecodeError IntegerInstruction :=
  if !w.bit 31 && w.bit 22 then .error unallocated
  else
    match BitMasks.logicalImmediate (w.extractLsb 22 10) with
    | none => .error unallocated
    | some imm =>
      let setFlags := w.number 30 29 == 3
      .ok
        { width := w.width, rd := w.rd, role := destinationRole setFlags
          op := .logical (logicalOp (w.extractLsb 30 29)) false setFlags w.rn (.immediate imm) }

def decodeMoveWide : Except DecodeError IntegerInstruction :=
  let hw := w.number 22 21
  let ok kind : Except DecodeError IntegerInstruction :=
    if !w.bit 31 && 2 ≤ hw then .error unallocated
    else .ok { width := w.width, rd := w.rd, op := .moveWide kind (w.extractLsb 20 5) (16 * hw) }
  match w.number 30 29 with
  | 0 => ok .inverted
  | 2 => ok .zeroing
  | 3 => ok .keeping
  | _ => .error unallocated

def decodeBitfield : Except DecodeError IntegerInstruction :=
  let sf := w.bit 31
  let immr := w.extractLsb 21 16
  let imms := w.extractLsb 15 10
  let ok kind : Except DecodeError IntegerInstruction :=
    if sf != w.bit 22 || (!sf && (w.bit 21 || w.bit 15)) then .error unallocated
    else
      match BitMasks.decode (w.bit 22) imms immr false w.width.bits with
      | none => .error unallocated
      | some (wmask, tmask) =>
        .ok
          { width := w.width, rd := w.rd
            op := .bitfield kind w.rn immr.toNat imms.toNat wmask tmask }
  match w.number 30 29 with
  | 0 => ok .signed
  | 1 => ok .inserting
  | 2 => ok .unsigned
  | _ => .error unallocated

def decodeExtract : Except DecodeError IntegerInstruction :=
  let sf := w.bit 31
  if w.number 30 29 != 0 || w.bit 21 || w.bit 22 != sf || (!sf && w.bit 15) then .error unallocated
  else .ok { width := w.width, rd := w.rd, op := .extract w.rn w.rm (w.number 15 10) }

def decodeImmediate : Except DecodeError IntegerInstruction :=
  match KeyTable.immediate.key w with
  | 0 | 1 => decodeAddress w
  | 2 => decodeAddSubImmediate w
  | 3 => .error notYetImplemented
  | 4 => decodeLogicalImmediate w
  | 5 => decodeMoveWide w
  | 6 => decodeBitfield w
  | _ => decodeExtract w

def shiftedOperand : Operand :=
  .shifted w.rm (ShiftKind.ofCode (w.extractLsb 23 22)) (w.number 15 10)

def decodeLogicalShifted : Except DecodeError IntegerInstruction :=
  if !w.bit 31 && w.bit 15 then .error unallocated
  else
    .ok
      { width := w.width, rd := w.rd
        op := .logical (logicalOp (w.extractLsb 30 29)) (w.bit 21) (w.number 30 29 == 3) w.rn
          (shiftedOperand w) }

def decodeAddSubShifted : Except DecodeError IntegerInstruction :=
  if w.number 23 22 == 3 || (!w.bit 31 && w.bit 15) then .error unallocated
  else
    .ok
      { width := w.width, rd := w.rd
        op := .addSub (w.bit 30) (w.bit 29) w.rn .zero (shiftedOperand w) }

def decodeAddSubExtended : Except DecodeError IntegerInstruction :=
  let shift := w.number 12 10
  if w.number 23 22 != 0 || 4 < shift then .error unallocated
  else
    .ok
      { width := w.width, rd := w.rd, role := destinationRole (w.bit 29)
        op := .addSub (w.bit 30) (w.bit 29) w.rn .stackPointer
          (.extended w.rm (Extension.ofCode (w.extractLsb 15 13)) shift) }

def decodeAddSubCarry : Except DecodeError IntegerInstruction :=
  if w.number 15 10 != 0 then .error notYetImplemented
  else
    .ok { width := w.width, rd := w.rd, op := .addSubCarry (w.bit 30) (w.bit 29) w.rn w.rm }

def decodeConditionalCompare : Except DecodeError IntegerInstruction :=
  if !w.bit 29 || w.bit 10 || w.bit 4 then .error unallocated
  else
    let operand :=
      if w.bit 11 then .immediate ((w.extractLsb 20 16).setWidth 64) else .shifted w.rm .lsl 0
    .ok
      { width := w.width, rd := w.rd
        op := .conditionalCompare (w.bit 30) (Condition.ofCode (w.extractLsb 15 12)) w.rn operand
          (Nzcv.ofNibble (w.extractLsb 3 0)) }

def decodeConditionalSelect : Except DecodeError IntegerInstruction :=
  if w.bit 29 || w.bit 11 then .error unallocated
  else
    .ok
      { width := w.width, rd := w.rd
        op := .conditionalSelect (Condition.ofCode (w.extractLsb 15 12)) w.rn w.rm (w.bit 30)
          (w.bit 10) }

def decodeOneSource : Except DecodeError IntegerInstruction :=
  let ok op : Except DecodeError IntegerInstruction :=
    .ok { width := w.width, rd := w.rd, op := .oneSource op w.rn }
  if w.bit 29 || 1 < w.number 20 16 then .error unallocated
  else if w.number 20 16 == 1 then .error notYetImplemented
  else
    match w.number 15 10 with
    | 0 => ok .reverseBits
    | 1 => ok (.reverseBytes 2)
    | 2 => ok (.reverseBytes 4)
    | 3 => if w.bit 31 then ok (.reverseBytes 8) else .error unallocated
    | 4 => ok .leadingZeros
    | 5 => ok .leadingSigns
    | 6 | 7 | 8 => .error notYetImplemented
    | _ => .error unallocated

def decodeTwoSource : Except DecodeError IntegerInstruction :=
  let ok op : Except DecodeError IntegerInstruction := .ok { width := w.width, rd := w.rd, op := op }
  let opcode := w.number 15 10
  if w.bit 29 then .error (if w.bit 31 && opcode == 0 then notYetImplemented else unallocated)
  else
    match opcode with
    | 2 => ok (.divide false w.rn w.rm)
    | 3 => ok (.divide true w.rn w.rm)
    | 8 => ok (.shiftVariable .lsl w.rn w.rm)
    | 9 => ok (.shiftVariable .lsr w.rn w.rm)
    | 10 => ok (.shiftVariable .asr w.rn w.rm)
    | 11 => ok (.shiftVariable .ror w.rn w.rm)
    | 0 | 4 | 5 | 12 => .error notYetImplemented
    | _ => .error (if 16 ≤ opcode ∧ opcode < 28 then notYetImplemented else unallocated)

def decodeThreeSource : Except DecodeError IntegerInstruction :=
  let ok op : Except DecodeError IntegerInstruction := .ok { width := w.width, rd := w.rd, op := op }
  let subtract := w.bit 15
  let wide op : Except DecodeError IntegerInstruction :=
    if w.bit 31 then ok op else .error unallocated
  if w.number 30 29 != 0 then .error unallocated
  else
    match w.number 23 21 with
    | 0 => ok (.multiply subtract w.rn w.rm w.ra)
    | 1 => wide (.multiplyLong true subtract w.rn w.rm w.ra)
    | 5 => wide (.multiplyLong false subtract w.rn w.rm w.ra)
    | 2 => if subtract then .error unallocated else wide (.multiplyHigh true w.rn w.rm)
    | 6 => if subtract then .error unallocated else wide (.multiplyHigh false w.rn w.rm)
    | _ => .error unallocated

def decodeRegisterMisc : Except DecodeError IntegerInstruction :=
  match KeyTable.registerMisc.key w with
  | 0 => decodeAddSubCarry w
  | 1 => decodeConditionalCompare w
  | 2 => decodeConditionalSelect w
  | _ => if w.bit 30 then decodeOneSource w else decodeTwoSource w

def decodeRegister : Except DecodeError IntegerInstruction :=
  match KeyTable.register.key w with
  | 0 | 1 => decodeLogicalShifted w
  | 2 => decodeAddSubShifted w
  | 3 => decodeAddSubExtended w
  | 4 => decodeRegisterMisc w
  | 5 => .error unallocated
  | _ => decodeThreeSource w

end IntegerInstruction
end AArch64
