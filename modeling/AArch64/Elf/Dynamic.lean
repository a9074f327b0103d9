import AArch64.Elf.StringTable

/-! The dynamic section of an ELF file. Nothing of it enters an image, but a file is malformed where the tables it
points to cannot be read. -/
namespace AArch64.Elf.Dynamic

structure Entry where
  tag : BitVec 64
  value : BitVec 64

def Entry.size (f : Format) : Nat :=
  2 * f.addressSize

def Entry.read (f : Format) (c : Contents) (p : Nat) : Entry :=
  ⟨f.address c p, f.address c (p + f.addressSize)⟩

/-- The entries in front of the one that closes the section. A section of no bytes may be anywhere. -/
def entries? (f : Format) (c : Contents) (h : ProgramHeader) : Option (List Entry) := do
  guard (h.fileSize == 0#64 || c.holds h.offset.toNat h.fileSize.toNat)
  let all ← c.table? (Entry.read f c) h.offset.toNat (Entry.size f) (h.fileSize.toNat / Entry.size f)
  return all.takeWhile (·.tag ≠ 0#64)

def fileOffset? (headers : List ProgramHeader) (a : BitVec 64) : Option Nat := do
  let h ← headers.find? fun h =>
    h.kind == ProgramHeader.load && h.address ≤ a && a - h.address < h.memorySize
  let offset := h.offset.toNat + (a - h.address).toNat
  guard (offset < 2 ^ 64)
  return offset

structure Relocations where
  offset : Nat
  size : Nat
  withAddends : Bool

namespace Relocations

variable (r : Relocations) (f : Format) (c : Contents)

def recordSize : Nat :=
  (if r.withAddends then 3 else 2) * f.addressSize

def symbolAt (f : Format) (c : Contents) (p : Nat) : Nat :=
  let info := (f.address c (p + f.addressSize)).toNat
  match f.fileClass with
  | .bits32 => info / 2 ^ 8
  | .bits64 => info / 2 ^ 32

/-- One more than the greatest symbol that a relocation names, or zero if none names any. -/
def symbolBound : Nat :=
  let greatest := (List.range (r.size / r.recordSize f)).foldl
    (fun n i => max n (symbolAt f c (r.offset + i * r.recordSize f))) 0
  if greatest = 0 then 0 else greatest + 1

end Relocations

/-- Number of the first entry of a chain, from the given one on, that closes it. -/
def chainEnd? (f : Format) (c : Contents) : (fuel n p : Nat) → Option Nat
  | 0, _, _ => none
  | fuel + 1, n, p =>
    if !c.holds p 4 then none
    else if (f.word c p).getLsbD 0 then some (n + 1)
    else chainEnd? f c fuel (n + 1) (p + 4)

def filteredCount? (f : Format) (c : Contents) (p : Nat) : Option Nat := do
  guard (c.holds p 12)
  let buckets := (f.word c p).toNat
  let first := (f.word c (p + 4)).toNat
  let filter := (f.word c (p + 8)).toNat
  guard (buckets ≠ 0 ∧ first ≠ 0 ∧ filter ≠ 0)
  let start := p + 16 + filter * f.addressSize
  let chains ← c.table? (fun p => (f.word c p).toNat) start 4 buckets
  let last := chains.foldl max 0
  if last < first then return 0
  chainEnd? f c c.size last (start + 4 * buckets + 4 * (last - first))

/-- Machines whose plain hash tables have entries of eight bytes in the larger class. -/
def hasWideHash (machine : BitVec 16) : Bool :=
  machine == 22#16 || machine == 41#16

def plainCount? (f : Format) (c : Contents) (machine : BitVec 16) (p : Nat) : Option Nat := do
  let size := if f.fileClass = .bits64 ∧ hasWideHash machine then 8 else 4
  guard (c.holds (p + 4) size)
  return f.number c size (p + 4)

def check (f : Format) (c : Contents) (machine : BitVec 16) (headers : List ProgramHeader)
    (h : ProgramHeader) : Option Unit := do
  let entries ← entries? f c h
  let value? (tag : BitVec 64) := (entries.reverse.find? (·.tag == tag)).map (·.value)
  let number (tag : BitVec 64) := ((value? tag).getD 0#64).toNat
  let place? (tag : BitVec 64) := (value? tag).bind (fileOffset? headers)
  let place (tag : BitVec 64) := (place? tag).getD 0
  let _ ← StringTable.read? c (place 5#64) (number 10#64)
  let relocations : List Relocations :=
    [⟨place 7#64, number 8#64, true⟩, ⟨place 17#64, number 18#64, false⟩,
      ⟨place 23#64, number 2#64, number 20#64 == 7⟩]
  guard (relocations.all fun r => r.size == 0 || c.holds r.offset r.size)
  let hashed ←
    match place? 0x6FFFFEF5#64, place? 4#64 with
    | some p, _ => filteredCount? f c p
    | none, some p => plainCount? f c machine p
    | none, none => some 0
  let count := relocations.foldl (fun n r => max n (r.symbolBound f c)) hashed
  guard (c.holds (place 6#64) (count * Symbol.size f))

end AArch64.Elf.Dynamic
