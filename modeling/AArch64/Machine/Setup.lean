import AArch64.Machine.Basic

/-! Loading a program image and preparing its stack. -/
namespace AArch64

structure Segment where
  base : BitVec 64
  bytes : List (BitVec 8)
  memLen : BitVec 64
  writable : Bool
  debug : Bool := false
  deriving DecidableEq

inductive SetupError
  | emptyStack (heapStart stackTop : BitVec 64)
  | segmentTooLarge (base : BitVec 64) (fileLen : Nat) (memLen : BitVec 64)
  | overlap (o : BlockOverlap)
  deriving DecidableEq

def SetupError.text : SetupError → String
  | emptyStack h t =>
    "heap start " ++ Hex.address h ++ " is not below the stack top " ++ Hex.address t
  | segmentTooLarge base fileLen memLen =>
    "segment at " ++ Hex.address base ++ " has " ++ toString fileLen ++ " file bytes but only "
      ++ toString memLen.toNat ++ " bytes of memory"
  | overlap o => o.text

namespace Machine

variable (m : Machine)

def addBlock (b : Block) : Except SetupError Machine :=
  match m.core.memory.addBlock b with
  | .ok memory => .ok { m with core := { m.core with memory } }
  | .error o => .error (.overlap o)

/-- Segments for a debugger and empty ones take no memory. -/
def loadSegment (s : Segment) : Except SetupError Machine :=
  if s.debug || s.memLen == 0#64 then .ok m
  else if s.memLen.toNat < s.bytes.length then
    .error (.segmentTooLarge s.base s.bytes.length s.memLen)
  else m.addBlock (Block.ofBytes s.base s.memLen.toNat s.writable s.bytes)

/-- Segments in front of one that fails stay loaded. -/
def load : (segments : List Segment) → (m : Machine) → Except SetupError Unit × Machine
  | [], m => (.ok (), m)
  | s :: rest, m =>
    match m.loadSegment s with
    | .ok m => load rest m
    | .error e => (.error e, m)

/-- Start of the heap: given, or the default size below the top of the stack but not below zero. -/
def heapStart (start : Option (BitVec 64)) : BitVec 64 :=
  start.getD (BitVec.ofNat 64 (m.settings.stackTop.toNat - m.settings.defaultHeapSize.toNat))

def entryState (entry : BitVec 64) : State :=
  let top := m.settings.stackTop
  let s := (m.state.setSp top).write Register.framePointer top
  let s := s.write Register.link returnAddress
  { s with pc := entry, nextPc := entry }

def init (entry : BitVec 64) (start : Option (BitVec 64)) : Except SetupError Unit × Machine :=
  let heap := m.heapStart start
  let top := m.settings.stackTop
  if top.toNat ≤ heap.toNat then (.error (.emptyStack heap top), m)
  else
    match m.addBlock (Block.ofBytes heap (top.toNat - heap.toNat) true []) with
    | .error e => (.error e, m)
    | .ok m' =>
      (.ok (),
        { m' with
          core := { m'.core with state := m.entryState entry }
          status := .ready
          error := none
          callout := none
          fault := none
          retired := 0
          stackLimit := some heap })

end Machine
end AArch64
