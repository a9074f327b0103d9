import AArch64.Elf.Format

/-! The headers of an ELF file and the records of its tables. -/
namespace AArch64.Elf

structure Header where
  format : Format
  machine : BitVec 16
  entry : BitVec 64
  segmentOffset : BitVec 64
  segmentCount : BitVec 16
  sectionOffset : BitVec 64
  sectionCount : BitVec 16
  /-- Section that holds the names of the sections. -/
  nameSection : BitVec 16

namespace Header

def magic : List (BitVec 8) :=
  [0x7F#8, 0x45#8, 0x4C#8, 0x46#8]

def class? (code : BitVec 8) : Option Class :=
  if code = 1#8 then some .bits32 else if code = 2#8 then some .bits64 else none

def order? (code : BitVec 8) : Option ByteOrder :=
  if code = 1#8 then some .little else if code = 2#8 then some .big else none

def format? (c : Contents) : Option Format := do
  guard (16 ≤ c.size ∧ (c.extract 0 4).toList = magic)
  return { fileClass := ← class? (c.getD 4 0#8), order := ← order? (c.getD 5 0#8) }

def read? (c : Contents) : Option Header := do
  let f ← format? c
  let a := f.addressSize
  let counts := 24 + 3 * a
  guard (counts + 16 ≤ c.size)
  return {
    format := f
    machine := f.half c 18
    entry := f.address c 24
    segmentOffset := f.address c (24 + a)
    sectionOffset := f.address c (24 + 2 * a)
    segmentCount := f.half c (counts + 8)
    sectionCount := f.half c (counts + 12)
    nameSection := f.half c (counts + 14) }

end Header

structure ProgramHeader where
  kind : BitVec 32
  flags : BitVec 32
  offset : BitVec 64
  address : BitVec 64
  fileSize : BitVec 64
  memorySize : BitVec 64
  deriving DecidableEq

namespace ProgramHeader

def load : BitVec 32 := 1#32

def dynamic : BitVec 32 := 2#32

def writable : BitVec 32 := 2#32

def size (f : Format) : Nat :=
  match f.fileClass with
  | .bits32 => 32
  | .bits64 => 56

def read (f : Format) (c : Contents) (p : Nat) : ProgramHeader :=
  let a := f.addressSize
  { kind := f.word c p
    flags := f.word c (p + match f.fileClass with | .bits32 => 24 | .bits64 => 4)
    offset := f.address c (p + a)
    address := f.address c (p + 2 * a)
    fileSize := f.address c (p + 4 * a)
    memorySize := f.address c (p + 5 * a) }

end ProgramHeader

structure Section where
  kind : BitVec 32
  address : BitVec 64
  offset : BitVec 64
  size : BitVec 64
  link : BitVec 32
  entrySize : BitVec 64
  deriving DecidableEq

namespace Section

def symbols : BitVec 32 := 2#32

def relocationsWithAddends : BitVec 32 := 4#32

/-- Kind of a section that takes no space in the file. -/
def noContents : BitVec 32 := 8#32

def relocations : BitVec 32 := 9#32

def versions : List (BitVec 32) :=
  [0x6FFFFFFF#32, 0x6FFFFFFD#32, 0x6FFFFFFE#32]

def recordSize (f : Format) : Nat :=
  16 + 6 * f.addressSize

def read (f : Format) (c : Contents) (p : Nat) : Section :=
  let a := f.addressSize
  { kind := f.word c (p + 4)
    address := f.address c (p + 8 + a)
    offset := f.address c (p + 8 + 2 * a)
    size := f.address c (p + 8 + 3 * a)
    link := f.word c (p + 8 + 4 * a)
    entrySize := f.address c (p + 16 + 5 * a) }

/-- The first section tells the number of sections where the header tells none. -/
def readAll? (h : Header) (c : Contents) : Option (List Section) := do
  let offset := h.sectionOffset.toNat
  if offset = 0 then return []
  let size := recordSize h.format
  guard (c.holds offset size)
  let count :=
    if h.sectionCount = 0#16 then (read h.format c offset).size.toNat else h.sectionCount.toNat
  c.table? (read h.format c) offset size (max 1 count)

def inBounds (s : Section) (c : Contents) : Bool :=
  s.kind == noContents || s.size == 0#64
    || (decide (s.offset.toNat + s.size.toNat ≤ c.size)
      && decide (s.address.toNat + s.size.toNat < 2 ^ 64))

end Section

structure Symbol where
  /-- Offset of the name in the string table. -/
  name : BitVec 32
  /-- The section that defines the symbol, or zero. -/
  sectionIndex : BitVec 16
  value : BitVec 64
  deriving DecidableEq

namespace Symbol

def size (f : Format) : Nat :=
  match f.fileClass with
  | .bits32 => 16
  | .bits64 => 24

def read (f : Format) (c : Contents) (p : Nat) : Symbol :=
  match f.fileClass with
  | .bits32 =>
    { name := f.word c p, value := f.address c (p + 4), sectionIndex := f.half c (p + 14) }
  | .bits64 =>
    { name := f.word c p, sectionIndex := f.half c (p + 6), value := f.address c (p + 8) }

end Symbol
end AArch64.Elf
