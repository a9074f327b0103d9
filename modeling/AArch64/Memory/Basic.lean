import AArch64.Memory.Block
import AArch64.Memory.Fault
import AArch64.Memory.Word

/-! Guest memory: blocks in the order they were added, the block that served the last access and is asked first,
and the first fault that nobody has taken yet. An access has to lie inside one block. -/
namespace AArch64

structure BlockOverlap where
  base : BitVec 64
  bound : BitVec 64
  deriving DecidableEq

def BlockOverlap.text (o : BlockOverlap) : String :=
  "block " ++ Hex.address o.base ++ ".." ++ Hex.address o.bound ++ " overlaps an existing block"

structure Memory where
  blocks : List Block := []
  active : Option Nat := none
  fault : Option Fault := none

namespace Memory

variable (m : Memory)

def addBlock (b : Block) : Except BlockOverlap Memory :=
  if m.blocks.any (·.overlaps b) then
    .error { base := b.base, bound := BitVec.ofNat 64 b.bound }
  else .ok { m with blocks := m.blocks ++ [b] }

/-- Number of a block and the offset in it, if that block covers the access. -/
def locate (i : Nat) (a : BitVec 64) (size : Nat) : Option (Nat × Nat) := do
  let b ← m.blocks[i]?
  let offset ← b.offset? a size
  pure (i, offset)

/-- The active block is preferred; otherwise the first block that covers the access serves it. -/
def resolve (a : BitVec 64) (size : Nat) : Option (Nat × Nat) :=
  match m.active.bind fun i => m.locate i a size with
  | some hit => some hit
  | none => (List.range m.blocks.length).findSome? fun i => m.locate i a size

def activate (i : Nat) : Memory :=
  { m with active := some i }

/-- The first fault stays until it is taken. -/
def record (f : Fault) : Memory :=
  { m with fault := some (m.fault.getD f) }

def takeFault : Option Fault × Memory :=
  (m.fault, { m with fault := none })

def byteAt (i offset : Nat) : BitVec 8 :=
  match m.blocks[i]? with
  | some b => b.byte offset
  | none => 0#8

def bytesAt (i offset n : Nat) : List (BitVec 8) :=
  match m.blocks[i]? with
  | some b => b.load offset n
  | none => []

def storeAt (i offset : Nat) (xs : List (BitVec 8)) : Memory :=
  { m with blocks := m.blocks.modify i (Block.store offset xs) }

def writableAt (i : Nat) : Bool :=
  match m.blocks[i]? with
  | some b => b.writable
  | none => false

/-- The little-endian word of `n` bytes at an address. A failed read gives zero and leaves a fault. -/
def read (a : BitVec 64) (n : Nat) : BitVec (8 * n) × Memory :=
  match m.resolve a n with
  | some (i, offset) => (Word.ofBytes n fun k => m.byteAt i (offset + k), m.activate i)
  | none => (0#(8 * n), m.record { address := a, size := n, access := .read })

/-- Stores the `n` low bytes of a word. A write to a read-only block fails like one to no block. -/
def write {w : Nat} (a : BitVec 64) (n : Nat) (x : BitVec w) : Memory :=
  let fault := { address := a, size := n, access := .write : Fault }
  match m.resolve a n with
  | some (i, offset) =>
    if m.writableAt i then (m.activate i).storeAt i offset (Word.bytes n x)
    else (m.activate i).record fault
  | none => m.record fault

/-- Bytes for a debugger: the fault of a failed access is returned instead of kept. -/
def loadBlock (a : BitVec 64) (n : Nat) : Except Fault (List (BitVec 8)) × Memory :=
  match m.resolve a n with
  | some (i, offset) => (.ok (m.bytesAt i offset n), m.activate i)
  | none => (.error { address := a, size := n, access := .read }, m)

/-- As `loadBlock`, the other way. Read-only blocks are patched too. -/
def storeBlock (a : BitVec 64) (xs : List (BitVec 8)) : Except Fault Unit × Memory :=
  match m.resolve a xs.length with
  | some (i, offset) => (.ok (), (m.activate i).storeAt i offset xs)
  | none => (.error { address := a, size := xs.length, access := .write }, m)

def rawSlice (a : BitVec 64) : Option (List (BitVec 8)) :=
  m.blocks.findSome? fun b => (b.offset? a 1).map fun offset => b.load offset (b.len - offset)

end Memory
end AArch64
