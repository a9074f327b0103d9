import AArch64.Elf.Dynamic

/-! An ELF file whose tables can all be read. -/
namespace AArch64.Elf

structure File where
  format : Format
  machine : BitVec 16
  entry : BitVec 64
  programHeaders : List ProgramHeader
  symbols : List Symbol
  /-- The names of the symbols. -/
  names : StringTable

namespace File

/-- The last symbol table counts. -/
def symbols? (f : Format) (c : Contents) (sections : List Section) :
    Option (List Symbol × StringTable) :=
  match sections.reverse.find? (·.kind == Section.symbols) with
  | none => some ([], {})
  | some s => do
    let count := s.size.toNat / s.entrySize.toNat
    guard (c.holds s.offset.toNat (count * Symbol.size f))
    let symbols ← c.table? (Symbol.read f c) s.offset.toNat (Symbol.size f) count
    let names ← StringTable.ofSection? c sections s.link.toNat
    return (symbols, names)

def relocationsInBounds (c : Contents) (sections : List Section) : Bool :=
  sections.all fun s =>
    if s.kind == Section.relocations || s.kind == Section.relocationsWithAddends then s.inBounds c
    else true

/-- Of each kind of version table the first is looked at. -/
def versionsInBounds (c : Contents) (sections : List Section) : Bool :=
  Section.versions.all fun kind =>
    match sections.find? (·.kind == kind) with
    | none => true
    | some s => c.holds s.offset.toNat s.size.toNat

def read? (c : Contents) : Option File := do
  let h ← Header.read? c
  let f := h.format
  let headers ← c.table? (ProgramHeader.read f c) h.segmentOffset.toNat (ProgramHeader.size f)
    h.segmentCount.toNat
  let sections ← Section.readAll? h c
  let _ ← StringTable.ofSection? c sections h.nameSection.toNat
  let (symbols, names) ← symbols? f c sections
  match headers.find? (·.kind == ProgramHeader.dynamic) with
  | some d => Dynamic.check f c h.machine headers d
  | none => pure ()
  guard (relocationsInBounds c sections && versionsInBounds c sections)
  return { format := f, machine := h.machine, entry := h.entry, programHeaders := headers, symbols, names }

end File
end AArch64.Elf
