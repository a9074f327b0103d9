import AArch64.Control.Decode
import AArch64.Integer.Decode
import AArch64.Simd.FloatDecode
import AArch64.Transfer.Decode

/-! Instructions, their decoding and their effect. Decoding looks at the word alone, so a word that has no
instruction changes nothing, and only loads and stores can fail once a word is decoded. -/
namespace AArch64

/-- Where the machine goes after an instruction. -/
inductive Completion
  | ready | halt | breakpoint | callout
  deriving DecidableEq

inductive Instruction
  | integer (i : IntegerInstruction)
  | control (op : ControlOp)
  | transfer (op : TransferOp)
  | simd (i : SimdInstruction)

namespace Instruction

open DecodeError

def decode (w : InstructionWord) : Except DecodeError Instruction :=
  match KeyTable.topLevel.key w with
  | 0 => (ControlOp.decodeHostWord w).map control
  | 1 | 2 | 3 => .error unallocated
  | 4 | 6 | 12 | 14 => (TransferOp.decode w).map transfer
  | 5 | 13 => (IntegerInstruction.decodeRegister w).map integer
  | 8 | 9 => (IntegerInstruction.decodeImmediate w).map integer
  | 10 | 11 => (ControlOp.decode w).map control
  | _ => (SimdInstruction.decode w).map simd

def completion : Instruction → Completion
  | control .halt => .halt
  | control .breakpoint => .breakpoint
  | control (.callout _) => .callout
  | _ => .ready

def callout? : Instruction → Option CalloutKind
  | control (.callout kind) => some kind
  | _ => none

def execute (i : Instruction) (c : Core) : Transferred :=
  match i with
  | integer i => ({ c with state := i.execute c.state }, none)
  | control .clearExclusive => ({ c with monitor := none }, none)
  | control op => ({ c with state := op.apply c.state }, none)
  | transfer op => op.execute c
  | simd i => ({ c with state := i.execute c.state }, none)

end Instruction
end AArch64
