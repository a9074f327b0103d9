import AArch64.Memory.Word

/-! The numbers of an ELF file: their size follows its class and the order of their bytes its encoding. -/
namespace AArch64.Elf

abbrev Contents := Array (BitVec 8)

inductive Class
  | bits32 | bits64
  deriving DecidableEq

inductive ByteOrder
  | little | big
  deriving DecidableEq

structure Format where
  fileClass : Class
  order : ByteOrder
  deriving DecidableEq

namespace Format

def addressSize (f : Format) : Nat :=
  match f.fileClass with
  | .bits32 => 4
  | .bits64 => 8

variable (f : Format) (c : Contents)

/-- The number of `n` bytes at position `p`. Bytes behind the end of the file count as zero. -/
def number (n p : Nat) : Nat :=
  Word.compose n fun i =>
    match f.order with
    | .little => c.getD (p + i) 0#8
    | .big => c.getD (p + (n - 1 - i)) 0#8

def half (p : Nat) : BitVec 16 :=
  BitVec.ofNat 16 (f.number c 2 p)

def word (p : Nat) : BitVec 32 :=
  BitVec.ofNat 32 (f.number c 4 p)

def address (p : Nat) : BitVec 64 :=
  BitVec.ofNat 64 (f.number c f.addressSize p)

end Format

/-- A range that lies in the file. One of no bytes may start at the end of the file, and no later. -/
def Contents.holds (c : Contents) (offset size : Nat) : Bool :=
  decide (offset + size ≤ c.size)

/-- Reads `count` records of `size` bytes, one behind the other. A table without records may be anywhere. -/
def Contents.table? {α : Type} (c : Contents) (read : Nat → α) (offset size count : Nat) :
    Option (List α) :=
  if count = 0 ∨ c.holds offset (count * size) then
    some ((List.range count).map fun i => read (offset + i * size))
  else none

end AArch64.Elf
