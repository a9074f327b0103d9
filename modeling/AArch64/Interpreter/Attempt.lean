import AArch64.Machine.Basic
import AArch64.Masked
import AArch64.StatusWords

/-! Executors as they are carried out: they read and write registers, raise flags, access memory and reject the word in
the order in which the program does. An executor that fails keeps what it has done before. Where an index, a shift amount
or a number leaves its range, it ends without a result. -/
namespace AArch64

/-- The registers, with the words that hold the flags. -/
structure RawState where
  registers : GeneralRegisters := {}
  vectors : VectorRegisters := {}
  pc : BitVec 64 := 0#64
  nextPc : BitVec 64 := 0#64
  nzcv : NzcvWord := {}
  fpsr : FpsrWord := {}
  fpcr : BitVec 32 := 0#32
  tpidr : BitVec 64 := 0#64

def State.raw (s : State) : RawState where
  registers := s.registers
  vectors := s.vectors
  pc := s.pc
  nextPc := s.nextPc
  nzcv := s.nzcv.word
  fpsr := s.fpsr.word
  fpcr := s.fpcr
  tpidr := s.tpidr

/-- A machine with such registers. -/
structure Interpreter where
  state : RawState := {}
  memory : Memory := {}
  monitor : Option (BitVec 64 × Nat) := none
  settings : Settings := {}
  status : Status := .ready
  error : Option ErrorKind := none
  instruction : InstructionWord := 0#32
  retired : Nat := 0
  fault : Option Fault := none
  callout : Option Callout := none
  stackLimit : Option (BitVec 64) := none

def Machine.raw (m : Machine) : Interpreter where
  state := m.state.raw
  memory := m.core.memory
  monitor := m.core.monitor
  settings := m.settings
  status := m.status
  error := m.error
  instruction := m.instruction
  retired := m.retired
  fault := m.fault
  callout := m.callout
  stackLimit := m.stackLimit

/-- A computation on an interpreter that returns a value, or fails with what it has changed so far, or panics. -/
def Attempt (α : Type) : Type := Interpreter → Option (Except ErrorKind α × Interpreter)

namespace Attempt

variable {α β : Type}

def andThen (x : Option (Except ErrorKind α × Interpreter)) (f : α → Attempt β) :
    Option (Except ErrorKind β × Interpreter) :=
  match x with
  | some (.ok a, m) => f a m
  | some (.error e, m) => some (.error e, m)
  | none => none

instance : Monad Attempt where
  pure a := fun m => some (.ok a, m)
  bind x f := fun m => andThen (x m) f

def fail (e : ErrorKind) : Attempt α := fun m => some (.error e, m)

def unallocated : Attempt α := fail .unallocatedInstruction

def notYetImplemented : Attempt α := fail .notYetImplemented

def unallocatedIf (c : Bool) : Attempt Unit := if c then unallocated else pure ()

def decoded (d : Except DecodeError α) : Attempt α :=
  match d with
  | .ok a => pure a
  | .error e => fail e.kind

/-- A value that is missing because something was out of range. -/
def checked (x : Option α) : Attempt α := fun m => x.map fun a => (.ok a, m)

def signedField (w : InstructionWord) (hi lo : Nat) : Attempt (BitVec 64) :=
  checked (Masked.signExtended? ((w.extractLsb hi lo).setWidth 64) (hi - lo + 1))

def get : Attempt Interpreter := fun m => some (.ok m, m)

def modify (f : Interpreter → Interpreter) : Attempt Unit := fun m => some (.ok (), f m)

def modifyState (f : RawState → RawState) : Attempt Unit := modify fun m => { m with state := f m.state }

def readX (n i : Nat) (role : Role := .zero) : Attempt (BitVec n) := do
  let r ← checked (Register.ofNat? i)
  let m ← get
  pure ((m.state.registers.get r role).setWidth n)

def writeX {n : Nat} (i : Nat) (x : BitVec n) (role : Role := .zero) : Attempt Unit := do
  let r ← checked (Register.ofNat? i)
  modifyState fun s => { s with registers := s.registers.set r role (x.setWidth 64) }

def readV (i : Nat) : Attempt (BitVec 128) := do
  let r ← checked (Register.ofNat? i)
  let m ← get
  pure (m.state.vectors.get r)

def writeV (i : Nat) (x : BitVec 128) : Attempt Unit := do
  let r ← checked (Register.ofNat? i)
  modifyState fun s => { s with vectors := s.vectors.set r x }

def readPc : Attempt (BitVec 64) := do pure (← get).state.pc

def writeNextPc (x : BitVec 64) : Attempt Unit := modifyState fun s => { s with nextPc := x }

def holds (c : Condition) : Attempt Bool := do pure (c.holds (← get).state.nzcv.view)

def setFlags (r : NzcvWord) : Attempt Unit := modifyState fun s => { s with nzcv := r }

def setNzcv (f : Nzcv) : Attempt Unit := setFlags (.ofFlags f.negative f.zero f.carry f.overflow)

def raise (f : Fpsr) : Attempt Unit := modifyState fun s => { s with fpsr := s.fpsr.raise f }

def flagged (x : Option (Flagged α)) : Attempt α := do
  let x ← checked x
  raise x.raised
  pure x.value

def checkMemory : Attempt Unit := fun m =>
  let (fault, memory) := m.memory.takeFault
  match fault with
  | some f => some (.error .memoryException, { m with memory, fault := some f })
  | none => some (.ok (), { m with memory })

def dispatch (t : KeyTable) (entries : List (InstructionWord → Attempt Completion)) (w : InstructionWord) :
    Attempt Completion :=
  match entries[t.key w]? with
  | some executor => executor w
  | none => unallocated

def requestCallout (kind : CalloutKind) : Attempt Completion := do
  modify fun m => { m with callout := some { kind, instruction := m.instruction, pc := m.state.pc } }
  pure .callout

end Attempt
end AArch64
