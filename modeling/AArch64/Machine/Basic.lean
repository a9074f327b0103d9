import AArch64.Instruction
import AArch64.Settings

/-! A machine: what its instructions work on, and the state of the run that its host sees. -/
namespace AArch64

inductive Status
  | ready | returned | halted | breakpoint | callout | error
  deriving DecidableEq, Inhabited

def Status.text : Status → String
  | ready => "ready"
  | returned => "return"
  | halted => "halt"
  | breakpoint => "break"
  | callout => "callout"
  | error => "error"

inductive ErrorKind
  | unallocatedInstruction | stackOverflow | clientError | notYetImplemented | memoryException
  deriving DecidableEq

def ErrorKind.text : ErrorKind → String
  | unallocatedInstruction => "unallocated instruction"
  | stackOverflow => "stack overflow"
  | clientError => "client error"
  | notYetImplemented => "instruction not yet implemented"
  | memoryException => "memory exception"

def DecodeError.kind : DecodeError → ErrorKind
  | unallocated => .unallocatedInstruction
  | notYetImplemented => .notYetImplemented

structure Callout where
  kind : CalloutKind
  instruction : InstructionWord
  pc : BitVec 64
  deriving DecidableEq

structure Machine where
  core : Core := {}
  settings : Settings := {}
  status : Status := .ready
  error : Option ErrorKind := none
  /-- The last instruction word fetched. -/
  instruction : InstructionWord := 0#32
  /-- Instructions fetched since the machine was set up. -/
  retired : Nat := 0
  /-- The memory fault behind the current error. -/
  fault : Option Fault := none
  callout : Option Callout := none
  /-- Lowest legal stack pointer, once the machine is set up. -/
  stackLimit : Option (BitVec 64) := none

namespace Machine

/-- The link value of the outermost frame: coming to this address ends the program. -/
def returnAddress : BitVec 64 := 0xFFFFFFFFFFFFFFEC#64

variable (m : Machine)

def state : State := m.core.state

def withState (s : State) : Machine :=
  { m with core := { m.core with state := s } }

def errorText : String :=
  match m.error, m.fault with
  | some .memoryException, some f => ErrorKind.memoryException.text ++ ": " ++ f.text
  | some e, _ => e.text
  | none, _ => "no error"

def fail (e : ErrorKind) : Status × Machine :=
  (.error, { m with status := .error, error := some e })

def takeFault : Option Fault × Machine :=
  let (fault, memory) := m.core.memory.takeFault
  let m := { m with core := { m.core with memory } }
  (fault, match fault with
    | some f => { m with fault := some f }
    | none => m)

/-- The next instruction, unless this one branches. -/
def stage : Machine :=
  m.withState { m.state with nextPc := m.state.pc + 4#64 }

def commit : Machine :=
  m.withState m.state.commit

/-- Decodes and executes one word. A fault is recorded, and so is a request to the host. -/
def execute (w : InstructionWord) : Except ErrorKind Completion × Machine :=
  match Instruction.decode w with
  | .error e => (.error e.kind, m)
  | .ok i =>
    match i.execute m.core with
    | (core, some fault) => (.error .memoryException, { m with core, fault := some fault })
    | (core, none) =>
      let callout := match i.callout? with
        | some kind => some { kind, instruction := m.instruction, pc := m.state.pc }
        | none => m.callout
      (.ok i.completion, { m with core, callout })

/-- Executes a word at the current address without fetching it. -/
def executeUnfetched (w : InstructionWord) : Except ErrorKind Completion × Machine :=
  match m.stage.execute w with
  | (.ok c, m) => (.ok c, m.commit)
  | (.error e, m) => (.error e, m)

end Machine
end AArch64
