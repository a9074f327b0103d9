import AArch64.Interpreter.Attempt

/-! Loads and stores of guest memory as they are carried out. The block that is asked first has to exist, and the bytes of
an access have to lie in the block that serves it. -/
namespace AArch64

namespace Block

variable (b : Block)

def bytes? (offset n : Nat) : Option (List (BitVec 8)) :=
  if offset + n ≤ b.len then some (b.load offset n) else none

def store? (offset : Nat) (xs : List (BitVec 8)) : Option Block :=
  if offset + xs.length ≤ b.len then some (b.store offset xs) else none

end Block

namespace Memory

variable (m : Memory)

def scan (a : BitVec 64) (n : Nat) : Option (Nat × Nat) :=
  (List.range m.blocks.length).findSome? fun i => m.locate i a n

/-- The block of an access and the offset in it, or the inner `none` where no block covers it. -/
def resolve? (a : BitVec 64) (n : Nat) : Option (Option (Nat × Nat)) :=
  match m.active with
  | none => some (m.scan a n)
  | some i => do
    let b ← m.blocks[i]?
    match b.offset? a n with
    | some offset => some (some (i, offset))
    | none => some (m.scan a n)

def read? (a : BitVec 64) (n : Nat) : Option (BitVec (8 * n) × Memory) := do
  match ← m.resolve? a n with
  | some (i, offset) => do
    let b ← m.blocks[i]?
    let xs ← b.bytes? offset n
    some (Word.ofBytes n fun k => xs.getD k 0#8, m.activate i)
  | none => some (0#(8 * n), m.record { address := a, size := n, access := .read })

def write? {w : Nat} (a : BitVec 64) (n : Nat) (x : BitVec w) : Option Memory := do
  let fault := { address := a, size := n, access := .write : Fault }
  match ← m.resolve? a n with
  | some (i, offset) => do
    let b ← m.blocks[i]?
    if b.writable then
      let b ← b.store? offset (Word.bytes n x)
      some { m.activate i with blocks := m.blocks.set i b }
    else some ((m.activate i).record fault)
  | none => some (m.record fault)

end Memory

namespace Attempt

def readMemory (a : BitVec 64) (n : Nat) : Attempt (BitVec (8 * n)) := fun m =>
  (m.memory.read? a n).map fun (x, memory) => (.ok x, { m with memory })

def writeMemory {w : Nat} (a : BitVec 64) (n : Nat) (x : BitVec w) : Attempt Unit := fun m =>
  (m.memory.write? a n x).map fun memory => (.ok (), { m with memory })

/-- Sizes other than one, two and four bytes stand for eight. -/
def loadInteger (a : BitVec 64) (size : Nat) : Attempt (BitVec 64) :=
  match size with
  | 1 => do pure ((← readMemory a 1).setWidth 64)
  | 2 => do pure ((← readMemory a 2).setWidth 64)
  | 4 => do pure ((← readMemory a 4).setWidth 64)
  | _ => readMemory a 8

def storeInteger (a : BitVec 64) (size : Nat) (x : BitVec 64) : Attempt Unit :=
  match size with
  | 1 => writeMemory a 1 x
  | 2 => writeMemory a 2 x
  | 4 => writeMemory a 4 x
  | _ => writeMemory a 8 x

end Attempt
end AArch64
