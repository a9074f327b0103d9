import AArch64.Interpreter.Execute
import AArch64.Interpreter.Memory
import AArch64.Machine.Debugger
import AArch64.Machine.Run
import AArch64.Machine.Setup

/-! An interpreter in the hands of its host: stepping, running, setting up, and the registers and the memory as a debugger
sees them. -/
namespace AArch64

namespace Memory

variable (m : Memory)

def loadBlock? (a : BitVec 64) (n : Nat) : Option (Except Fault (List (BitVec 8)) × Memory) := do
  match ← m.resolve? a n with
  | some (i, offset) => do
    let b ← m.blocks[i]?
    some (.ok (← b.bytes? offset n), m.activate i)
  | none => some (.error { address := a, size := n, access := .read }, m)

def storeBlock? (a : BitVec 64) (xs : List (BitVec 8)) : Option (Except Fault Unit × Memory) := do
  match ← m.resolve? a xs.length with
  | some (i, offset) => do
    let b ← m.blocks[i]?
    let b ← b.store? offset xs
    some (.ok (), { m.activate i with blocks := m.blocks.set i b })
  | none => some (.error { address := a, size := xs.length, access := .write }, m)

end Memory

namespace DebugRegister

def getWord (r : DebugRegister) (s : RawState) : BitVec 64 :=
  match r with
  | general r => s.registers.get r .stackPointer
  | vectorLow r => Lanes.get (s.vectors.get r) 64 0
  | pc => s.pc
  | nzcv => s.nzcv.bits.setWidth 64
  | fpsr => s.fpsr.bits.setWidth 64

def setWord (r : DebugRegister) (x : BitVec 64) (s : RawState) : RawState :=
  match r with
  | general r => { s with registers := s.registers.set r .stackPointer x }
  | vectorLow r => { s with vectors := s.vectors.set r (Lanes.set (s.vectors.get r) 0 x) }
  | pc => { s with pc := x, nextPc := x }
  | nzcv => { s with nzcv := .ofBits (x.setWidth 32) }
  | fpsr => { s with fpsr := .ofBits (x.setWidth 32) }

end DebugRegister

namespace Interpreter

variable (i : Interpreter)

def sp : BitVec 64 := i.state.registers.get Register.stackPointer .stackPointer

def fail (e : ErrorKind) : Status × Interpreter :=
  (.error, { i with status := .error, error := some e })

def stop (s : Status) : Status × Interpreter :=
  (s, { i with status := s })

def commit : Interpreter :=
  { i with state := { i.state with pc := i.state.nextPc } }

def belowLimit : Bool :=
  match i.stackLimit with
  | some limit => decide (i.sp.toNat < limit.toNat)
  | none => false

def checkStack : Status × Interpreter :=
  if i.belowLimit then i.fail .stackOverflow else (i.status, i)

def finish (r : Except ErrorKind Completion × Interpreter) : Status × Interpreter :=
  match r with
  | (.ok .ready, i) => i.commit.checkStack
  | (.ok .breakpoint, i) =>
    match i.commit.checkStack with
    | (.ready, i) => (.breakpoint, i)
    | stopped => stopped
  | (.ok .callout, i) => i.commit.stop .callout
  | (.ok .halt, i) => i.stop .halted
  | (.error e, i) => i.fail e

/-- Fetches a word and executes it. A fault that the executor has not reported is an error too. -/
def cycle : Attempt Completion := do
  let pc ← Attempt.readPc
  let word ← Attempt.readMemory pc 4
  Attempt.checkMemory
  Attempt.modify fun i => { i with instruction := word, retired := i.retired + 1 }
  Attempt.writeNextPc (pc + 4#64)
  let c ← Attempt.execute word
  Attempt.checkMemory
  pure c

def step : Option (Status × Interpreter) :=
  if i.status ≠ .ready then some (i.status, i)
  else if i.state.pc = Machine.returnAddress then some (i.stop .returned)
  else (cycle i).map finish

def runFor : (n : Nat) → (i : Interpreter) → Option (Status × Interpreter)
  | 0, i => some (i.status, i)
  | n + 1, i =>
    match i.step with
    | some (.ready, i) => runFor n i
    | stopped => stopped

def budget : Nat :=
  (match i.settings.maxInstructions with
    | some n => n.toNat
    | none => 2 ^ 64) - i.retired

def run : Option (Status × Interpreter) :=
  runFor i.budget i

def resume : Except ErrorKind Interpreter :=
  if i.status = .callout then .ok { i with status := .ready, callout := none }
  else .error .clientError

def addBlock (b : Block) : Except SetupError Interpreter :=
  match i.memory.addBlock b with
  | .ok memory => .ok { i with memory }
  | .error o => .error (.overlap o)

def loadSegment (s : Segment) : Except SetupError Interpreter :=
  if s.debug || s.memLen == 0#64 then .ok i
  else if s.memLen.toNat < s.bytes.length then
    .error (.segmentTooLarge s.base s.bytes.length s.memLen)
  else i.addBlock (Block.ofBytes s.base s.memLen.toNat s.writable s.bytes)

def load : (segments : List Segment) → (i : Interpreter) → Except SetupError Unit × Interpreter
  | [], i => (.ok (), i)
  | s :: rest, i =>
    match i.loadSegment s with
    | .ok i => load rest i
    | .error e => (.error e, i)

def heapStart (start : Option (BitVec 64)) : BitVec 64 :=
  start.getD (BitVec.ofNat 64 (i.settings.stackTop.toNat - i.settings.defaultHeapSize.toNat))

def entryState (entry : BitVec 64) : RawState :=
  let top := i.settings.stackTop
  let registers := i.state.registers.set Register.stackPointer .stackPointer top
  let registers := registers.set Register.framePointer .zero top
  let registers := registers.set Register.link .zero Machine.returnAddress
  { i.state with registers, pc := entry, nextPc := entry }

def init (entry : BitVec 64) (start : Option (BitVec 64)) : Except SetupError Unit × Interpreter :=
  let heap := i.heapStart start
  let top := i.settings.stackTop
  if top.toNat ≤ heap.toNat then (.error (.emptyStack heap top), i)
  else
    match i.addBlock (Block.ofBytes heap (top.toNat - heap.toNat) true []) with
    | .error e => (.error e, i)
    | .ok i' =>
      (.ok (),
        { i' with
          state := i.entryState entry
          status := .ready
          error := none
          callout := none
          fault := none
          retired := 0
          stackLimit := some heap })

def readRegister (n : Nat) (buffer : List (BitVec 8)) : Except ErrorKind (Nat × List (BitVec 8)) :=
  match DebugRegister.fitting? n buffer.length with
  | some r => .ok (r.width, Word.bytes r.width (r.getWord i.state) ++ buffer.drop r.width)
  | none => .error .clientError

def writeRegister (n : Nat) (bytes : List (BitVec 8)) : Except ErrorKind Interpreter :=
  match DebugRegister.fitting? n bytes.length with
  | some r =>
    let x := (Word.ofBytes r.width fun k => bytes.getD k 0#8).setWidth 64
    .ok { i with state := r.setWord x i.state }
  | none => .error .clientError

def readMemory (a : BitVec 64) (n : Nat) : Option (Except ErrorKind (List (BitVec 8)) × Interpreter) := do
  let (r, memory) ← i.memory.loadBlock? a n
  some (r.mapError fun _ => .memoryException, { i with memory })

def writeMemory (a : BitVec 64) (bytes : List (BitVec 8)) : Option (Except ErrorKind Unit × Interpreter) := do
  let (r, memory) ← i.memory.storeBlock? a bytes
  some (r.mapError fun _ => .memoryException, { i with memory })

end Interpreter
end AArch64
