/-! Tunables of a machine. -/
namespace AArch64

structure Settings where
  /-- Initial stack pointer; the block for stack and heap ends here. -/
  stackTop : BitVec 64 := 0x08000000#64
  /-- Size of the heap where the image does not say where it starts. -/
  defaultHeapSize : BitVec 64 := 0x00100000#64
  /-- Instructions that may be executed before a run gives control back. -/
  maxInstructions : Option (BitVec 64) := none
  trace : Bool := false
  deriving DecidableEq, Inhabited

end AArch64
