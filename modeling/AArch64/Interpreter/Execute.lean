import AArch64.Interpreter.Control
import AArch64.Interpreter.Integer
import AArch64.Interpreter.ScalarFloat
import AArch64.Interpreter.Transfer

/-! The executor of a word is the one that the top-level table has for it. -/
namespace AArch64.Attempt

def execute (w : InstructionWord) : Attempt Completion :=
  dispatch .topLevel
    [hostWord, fun _ => unallocated, fun _ => unallocated, fun _ => unallocated, loadStore, dataProcessingRegister,
      loadStore, simdAndFloat, dataProcessingImmediate, dataProcessingImmediate, branchExceptionSystem,
      branchExceptionSystem, loadStore, dataProcessingRegister, loadStore, simdAndFloat] w

end AArch64.Attempt
