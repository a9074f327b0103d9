import AArch64.Registers

/-! The fields that most instruction words share, and the two reasons why a word has no instruction. -/
namespace AArch64

inductive DecodeError
  | unallocated | notYetImplemented
  deriving DecidableEq

/-- An instruction word with the operand fields at their usual places. -/
abbrev InstructionWord := BitVec 32

namespace InstructionWord

variable (w : InstructionWord)

def bit (i : Nat) : Bool := w.getLsbD i

def rd : Register := w.extractLsb 4 0

def rn : Register := w.extractLsb 9 5

def ra : Register := w.extractLsb 14 10

def rm : Register := w.extractLsb 20 16

def number (hi lo : Nat) : Nat := (w.extractLsb hi lo).toNat

def offset (hi lo : Nat) : BitVec 64 := (w.extractLsb hi lo).signExtend 64

end InstructionWord
end AArch64
