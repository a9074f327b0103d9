import AArch64.AddWithCarry
import AArch64.Condition
import AArch64.VectorRegisters

/-! What an instruction can read and write apart from memory. The program counter is staged: an instruction
writes only `nextPc`, which becomes `pc` once the instruction has completed. -/
namespace AArch64

inductive Width
  | w32 | w64
  deriving DecidableEq

namespace Width

def bits : Width → Nat
  | w32 => 32 | w64 => 64

def ofBit (sf : Bool) : Width :=
  if sf then w64 else w32

theorem bits_pos (width : Width) : 0 < width.bits := by
  cases width <;> decide

theorem bits_le (width : Width) : width.bits ≤ 64 := by
  cases width <;> decide

end Width

structure State where
  registers : GeneralRegisters := {}
  vectors : VectorRegisters := {}
  pc : BitVec 64 := 0#64
  nextPc : BitVec 64 := 0#64
  nzcv : Nzcv := {}
  fpsr : Fpsr := {}
  fpcr : BitVec 32 := 0#32
  tpidr : BitVec 64 := 0#64
  deriving Inhabited

namespace State

variable (s : State)

def read (n : Nat) (r : Register) (role : Role := .zero) : BitVec n :=
  (s.registers.get r role).setWidth n

theorem setWidth_read (n : Nat) (r : Register) (role : Role) : (s.read 64 r role).setWidth n = s.read n r role := by
  rw [read, read, BitVec.setWidth_eq]

/-- A narrow value is written with zeros above it. -/
def write {n : Nat} (r : Register) (x : BitVec n) (role : Role := .zero) : State :=
  { s with registers := s.registers.set r role (x.setWidth 64) }

def sp : BitVec 64 :=
  s.registers.get Register.stackPointer .stackPointer

def setSp (x : BitVec 64) : State :=
  { s with registers := s.registers.set Register.stackPointer .stackPointer x }

def vector (r : Register) : BitVec 128 :=
  s.vectors.get r

def setVector (r : Register) (x : BitVec 128) : State :=
  { s with vectors := s.vectors.set r x }

def setFlags (f : Nzcv) : State :=
  { s with nzcv := f }

def raise (f : Fpsr) : State :=
  { s with fpsr := s.fpsr.raise f }

def commit : State :=
  { s with pc := s.nextPc }

end State
end AArch64
