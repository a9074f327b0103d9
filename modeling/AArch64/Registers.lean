/-! The general registers. Thirty-one of them hold values; operand number 31 is the stack pointer in some
instructions and reads as zero in the others. -/
namespace AArch64

/-- Number of a general or vector register. -/
abbrev Register := BitVec 5

namespace Register

def ofNat? (n : Nat) : Option Register :=
  if n < 32 then some (BitVec.ofNat 5 n) else none

def index (r : Register) : Fin 32 := r.toFin

def store {α : Type} (r : Register) (slots : Vector α 32) (x : α) : Vector α 32 :=
  slots.set r.index x r.index.isLt

/-- The register after `r`, the first one after the last. -/
def next (r : Register) : Register := r + 1#5

def framePointer : Register := 29#5
def link : Register := 30#5
def stackPointer : Register := 31#5

end Register

/-- What operand number 31 stands for. -/
inductive Role
  | stackPointer | zero
  deriving DecidableEq

structure GeneralRegisters where
  slots : Vector (BitVec 64) 32 := Vector.replicate 32 0#64
  deriving Inhabited

namespace GeneralRegisters

def isZero (r : Register) (role : Role) : Bool :=
  r == Register.stackPointer && role == .zero

def get (g : GeneralRegisters) (r : Register) (role : Role) : BitVec 64 :=
  if isZero r role then 0#64 else g.slots.get r.index

def set (g : GeneralRegisters) (r : Register) (role : Role) (x : BitVec 64) : GeneralRegisters :=
  if isZero r role then g else { slots := r.store g.slots x }

end GeneralRegisters
end AArch64
