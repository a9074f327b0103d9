import AArch64.Machine.Basic

/-! Registers by number and memory by address, as a debugger sees them. -/
namespace AArch64

/-- Registers 0 to 31 are general, the last of them the stack pointer; 32 to 63 are the low halves of the vector
registers. -/
inductive DebugRegister
  | general (r : Register)
  | vectorLow (r : Register)
  | pc | nzcv | fpsr
  deriving DecidableEq

namespace DebugRegister

def ofNumber? (n : Nat) : Option DebugRegister :=
  if n < 32 then some (general (BitVec.ofNat 5 n))
  else if n < 64 then some (vectorLow (BitVec.ofNat 5 (n - 32)))
  else if n = 64 then some pc
  else if n = 65 then some nzcv
  else if n = 66 then some fpsr
  else none

def width : DebugRegister → Nat
  | general _ | vectorLow _ | pc => 8
  | nzcv | fpsr => 4

def get (r : DebugRegister) (s : State) : BitVec 64 :=
  match r with
  | general r => s.read 64 r .stackPointer
  | vectorLow r => Lanes.get (s.vector r) 64 0
  | pc => s.pc
  | nzcv => s.nzcv.toBits.setWidth 64
  | fpsr => s.fpsr.toBits.setWidth 64

/-- Setting the program counter sets the staged one too. -/
def set (r : DebugRegister) (x : BitVec 64) (s : State) : State :=
  match r with
  | general r => s.write r x .stackPointer
  | vectorLow r => s.setVector r (Lanes.set (s.vector r) 0 x)
  | pc => { s with pc := x, nextPc := x }
  | nzcv => { s with nzcv := Nzcv.ofBits (x.setWidth 32) }
  | fpsr => { s with fpsr := Fpsr.ofBits (x.setWidth 32) }

/-- The register with that number, if `available` bytes are enough for it. -/
def fitting? (n available : Nat) : Option DebugRegister :=
  match ofNumber? n with
  | some r => if r.width ≤ available then some r else none
  | none => none

end DebugRegister

namespace Machine

variable (m : Machine)

/-- The width of the register, and the buffer with its little-endian bytes in front. -/
def readRegister (n : Nat) (buffer : List (BitVec 8)) :
    Except ErrorKind (Nat × List (BitVec 8)) :=
  match DebugRegister.fitting? n buffer.length with
  | some r => .ok (r.width, Word.bytes r.width (r.get m.state) ++ buffer.drop r.width)
  | none => .error .clientError

def writeRegister (n : Nat) (bytes : List (BitVec 8)) : Except ErrorKind Machine :=
  match DebugRegister.fitting? n bytes.length with
  | some r =>
    let x := (Word.ofBytes r.width fun i => bytes.getD i 0#8).setWidth 64
    .ok (m.withState (r.set x m.state))
  | none => .error .clientError

def readMemory (a : BitVec 64) (n : Nat) : Except ErrorKind (List (BitVec 8)) × Machine :=
  let (r, memory) := m.core.memory.loadBlock a n
  (r.mapError fun _ => .memoryException, { m with core := { m.core with memory } })

def writeMemory (a : BitVec 64) (bytes : List (BitVec 8)) : Except ErrorKind Unit × Machine :=
  let (r, memory) := m.core.memory.storeBlock a bytes
  (r.mapError fun _ => .memoryException, { m with core := { m.core with memory } })

end Machine
end AArch64
