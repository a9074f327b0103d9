import AArch64.Elf.Image
import Mathlib.Data.Option.Basic

/-! The tables of a file of the 64-bit class with little-endian numbers, at the positions where the file has them. -/
namespace AArch64.Elf

/-- The class and the order of bytes that these positions belong to. -/
def Format.wideLittle : Format := { fileClass := .bits64, order := .little }

namespace Contents

variable (c : Contents)

/-- The file that consists of these numbers, each with its size in bytes. -/
def ofNumbers (fields : List (Nat × Nat)) : Contents :=
  (fields.flatMap fun field => Word.bytes field.1 (BitVec.ofNat (8 * field.1) field.2)).toArray

def word (n p : Nat) : BitVec (8 * n) := Word.ofBytes n fun i => c.getD (p + i) 0#8

def programHeader (k : Nat) : ProgramHeader :=
  let p := (c.word 8 32).toNat + k * 56
  { kind := c.word 4 p
    flags := c.word 4 (p + 4)
    offset := c.word 8 (p + 8)
    address := c.word 8 (p + 16)
    fileSize := c.word 8 (p + 32)
    memorySize := c.word 8 (p + 40) }

def programHeaders : List ProgramHeader := (List.range (c.word 2 56).toNat).map c.programHeader

def sectionHeader (k : Nat) : Section :=
  let p := (c.word 8 40).toNat + k * 64
  { kind := c.word 4 (p + 4)
    address := c.word 8 (p + 16)
    offset := c.word 8 (p + 24)
    size := c.word 8 (p + 32)
    link := c.word 4 (p + 40)
    entrySize := c.word 8 (p + 56) }

/-- A number of sections that is too large for its field is the size of the first section. -/
def sectionCount : Nat :=
  if c.word 8 40 = 0#64 then 0
  else max 1 (if c.word 2 60 = 0#16 then (c.sectionHeader 0).size.toNat else (c.word 2 60).toNat)

def sectionHeaders : List Section := (List.range c.sectionCount).map c.sectionHeader

/-- The last section that is a table of symbols. -/
def symbolSection? : Option Section := c.sectionHeaders.reverse.find? (·.kind == 2#32)

def symbol (p : Nat) : Symbol :=
  { name := c.word 4 p, sectionIndex := c.word 2 (p + 6), value := c.word 8 (p + 8) }

def symbols : List Symbol :=
  match c.symbolSection? with
  | none => []
  | some s => (List.range (s.size.toNat / s.entrySize.toNat)).map fun k => c.symbol (s.offset.toNat + k * 24)

/-- The section that holds the names of the symbols. A number that is too large for its field is in the first section. -/
def nameSection? : Option Section :=
  c.symbolSection?.bind fun s =>
    c.sectionHeaders[if s.link.toNat = 0xFFFF then (c.sectionHeader 0).link.toNat else s.link.toNat]?

def sectionBytes : Option Section → List (BitVec 8)
  | none => []
  | some s => (c.toList.drop s.offset.toNat).take s.size.toNat

/-- The names of the symbols, with a zero behind each. -/
def symbolNames : List (BitVec 8) := c.sectionBytes c.nameSection?

end Contents

namespace File

/-- The file has been read as it is encoded. -/
structure EncodedIn (file : File) (c : Contents) : Prop where
  programHeaders : file.programHeaders = c.programHeaders
  symbols : file.symbols = c.symbols
  names : file.names.bytes.toList = c.symbolNames

variable {c : Contents} {file : File}

theorem table?_eq_some {α : Type} {read : Nat → α} {offset size count : Nat} {xs : List α}
    (h : c.table? read offset size count = some xs) : xs = (List.range count).map fun k => read (offset + k * size) := by
  unfold Contents.table? at h
  split at h
  · exact (Option.some.inj h).symm
  · cases h

theorem exists_of_read? (h : read? c = some file) : ∃ header sections, Header.read? c = some header ∧
    header.format = file.format ∧
    c.table? (ProgramHeader.read header.format c) header.segmentOffset.toNat (ProgramHeader.size header.format)
      header.segmentCount.toNat = some file.programHeaders ∧
    Section.readAll? header c = some sections ∧
    symbols? header.format c sections = some (file.symbols, file.names) := by
  simp only [read?, Option.bind_eq_bind, Option.bind_eq_some_iff, Option.pure_def] at h
  obtain ⟨header, hheader, headers, hheaders, sections, hsections, _, _, ⟨symbols, names⟩, hsymbols, h⟩ := h
  split at h
  · obtain ⟨_, _, h⟩ := Option.bind_eq_some_iff.1 h
    obtain ⟨_, _, h⟩ := Option.bind_eq_some_iff.1 h
    obtain rfl := Option.some.inj h
    exact ⟨header, sections, hheader, rfl, hheaders, hsections, hsymbols⟩
  · obtain ⟨_, _, h⟩ := Option.bind_eq_some_iff.1 h
    obtain rfl := Option.some.inj h
    exact ⟨header, sections, hheader, rfl, hheaders, hsections, hsymbols⟩

theorem header_of_read? {header : Header} (h : Header.read? c = some header) (hformat : header.format = .wideLittle) :
    header = {
      format := .wideLittle, machine := c.word 2 18, entry := c.word 8 24, segmentOffset := c.word 8 32,
      sectionOffset := c.word 8 40, segmentCount := c.word 2 56, sectionCount := c.word 2 60,
      nameSection := c.word 2 62 } := by
  simp only [Header.read?, Option.bind_eq_bind, Option.bind_eq_some_iff, Option.pure_def, Option.some.injEq] at h
  obtain ⟨f, -, -, -, rfl⟩ := h
  obtain rfl : f = .wideLittle := hformat
  rfl

theorem programHeader_eq (p : Nat) : ProgramHeader.read .wideLittle c p =
    { kind := c.word 4 p, flags := c.word 4 (p + 4), offset := c.word 8 (p + 8), address := c.word 8 (p + 16),
      fileSize := c.word 8 (p + 32), memorySize := c.word 8 (p + 40) } := rfl

theorem sectionHeader_eq (p : Nat) : Section.read .wideLittle c p =
    { kind := c.word 4 (p + 4), address := c.word 8 (p + 16), offset := c.word 8 (p + 24), size := c.word 8 (p + 32),
      link := c.word 4 (p + 40), entrySize := c.word 8 (p + 56) } := rfl

theorem sectionHeaders_of_readAll? {header : Header} {sections : List Section} (hheader : Header.read? c = some header)
    (hformat : header.format = .wideLittle) (h : Section.readAll? header c = some sections) :
    sections = c.sectionHeaders := by
  rw [header_of_read? hheader hformat] at h
  simp only [Section.readAll?, Option.bind_eq_bind, Option.pure_def] at h
  rw [Contents.sectionHeaders, Contents.sectionCount]
  split at h
  next hzero =>
    have hnone : c.word 8 40 = 0#64 := BitVec.eq_of_toNat_eq hzero
    rw [if_pos hnone]
    exact (Option.some.inj h).symm
  next hpos =>
    have hsome : c.word 8 40 ≠ 0#64 := fun hnone => hpos (congrArg BitVec.toNat hnone)
    obtain ⟨_, _, h⟩ := Option.bind_eq_some_iff.1 h
    have hsize : Section.recordSize .wideLittle = 64 := rfl
    have hread (k : Nat) : Section.read .wideLittle c ((c.word 8 40).toNat + k * 64) = c.sectionHeader k :=
      sectionHeader_eq _
    have hfirst : Section.read .wideLittle c (c.word 8 40).toNat = c.sectionHeader 0 := by
      rw [← hread 0, Nat.zero_mul, Nat.add_zero]
    rw [if_neg hsome, table?_eq_some h, hsize]
    simp only [hread, hfirst]

theorem bytes_of_ofSection? {sections : List Section} {index : Nat} {names : StringTable}
    (h : StringTable.ofSection? c sections index = some names) : names.bytes.toList = c.sectionBytes
      sections[if index = StringTable.extendedIndex then (sections.head?.map fun s => s.link.toNat).getD index
        else index]? := by
  simp only [StringTable.ofSection?] at h
  split at h
  next hnone =>
    obtain rfl := Option.some.inj h
    rw [hnone]
    rfl
  next t ht =>
    rw [ht]
    split at h
    · simp only [StringTable.read?, Option.bind_eq_bind, Option.bind_eq_some_iff, Option.pure_def,
        Option.some.injEq] at h
      obtain ⟨_, _, _, _, rfl⟩ := h
      simp [Contents.sectionBytes]
    · cases h

theorem names_of_ofSection? {names : StringTable} {s : Section} (hs : c.symbolSection? = some s)
    (h : StringTable.ofSection? c c.sectionHeaders s.link.toNat = some names) : names.bytes.toList = c.symbolNames := by
  -- there is a table of symbols, so there is a first section as well
  have hhead : c.sectionHeaders.head? = some (c.sectionHeader 0) := by
    have hfind : c.sectionHeaders.reverse.find? (·.kind == 2#32) = some s := hs
    have hmem : s ∈ c.sectionHeaders := List.mem_reverse.1 (List.mem_of_find?_eq_some hfind)
    rw [Contents.sectionHeaders] at hmem ⊢
    cases hcount : c.sectionCount with
    | zero => simp [hcount] at hmem
    | succ n => simp [List.range_succ_eq_map]
  rw [bytes_of_ofSection? h, hhead, Option.map_some, Option.getD_some, Contents.symbolNames, Contents.nameSection?, hs,
    Option.bind_some]
  rfl

theorem symbols_of_symbols? {symbols : List Symbol} {names : StringTable}
    (h : symbols? .wideLittle c c.sectionHeaders = some (symbols, names)) :
    symbols = c.symbols ∧ names.bytes.toList = c.symbolNames := by
  have hfind : c.sectionHeaders.reverse.find? (·.kind == Section.symbols) = c.symbolSection? := rfl
  rw [symbols?, hfind] at h
  rw [Contents.symbols]
  cases hs : c.symbolSection? with
  | none =>
    rw [hs] at h
    obtain ⟨rfl, rfl⟩ := Prod.mk.inj (Option.some.inj h)
    rw [Contents.symbolNames, Contents.nameSection?, hs, Option.bind_none]
    exact ⟨rfl, rfl⟩
  | some s =>
    simp only [hs, Option.bind_eq_bind, Option.bind_eq_some_iff, Option.pure_def, Option.some.injEq,
      Prod.mk.injEq] at h
    obtain ⟨_, _, _, htable, _, hnames, rfl, rfl⟩ := h
    have hsize : Symbol.size .wideLittle = 24 := rfl
    have hread : Symbol.read .wideLittle c = c.symbol := rfl
    rw [hsize, hread] at htable
    exact ⟨table?_eq_some htable, names_of_ofSection? hs hnames⟩

theorem encodedIn_of_read? (h : read? c = some file) (hformat : file.format = .wideLittle) : file.EncodedIn c := by
  obtain ⟨header, sections, hheader, heq, hheaders, hsections, hsymbols⟩ := exists_of_read? h
  rw [hformat] at heq
  rw [sectionHeaders_of_readAll? hheader heq hsections] at hsymbols
  rw [header_of_read? hheader heq] at hheaders hsymbols
  obtain ⟨hsymbols, hnames⟩ := symbols_of_symbols? hsymbols
  have hsize : ProgramHeader.size .wideLittle = 56 := rfl
  refine ⟨?_, hsymbols, hnames⟩
  rw [table?_eq_some hheaders, hsize, Contents.programHeaders]
  exact List.map_congr_left fun k _ => programHeader_eq _

/-- A reader that gives the tables of each file as they are encoded. -/
def ReadsEncoded (reader : Contents → Option File) : Prop :=
  ∀ c file, reader c = some file → file.format = .wideLittle → file.EncodedIn c

theorem readsEncoded_read? : ReadsEncoded read? := fun _ _ => encodedIn_of_read?

end File

namespace Image

variable {reader : Contents → Option File} {c : Contents} {image : Image}

theorem ofFile_eq_ok_iff {file : File} : ofFile c file = .ok image ↔
    file.format = .wideLittle ∧ file.machine = aarch64 ∧
      (file.programHeaders.filter (·.isLoaded)).mapM (·.segment c) = .ok image.segments ∧
      image = { entry := file.entry, segments := image.segments, heap := heapOf file } := by
  have hformat : file.format = .wideLittle ↔ file.format.fileClass = .bits64 ∧ file.format.order = .little := by
    cases file.format
    exact iff_of_eq (Format.mk.injEq ..)
  rw [hformat]
  by_cases hclass : file.format.fileClass = .bits64
  · by_cases horder : file.format.order = .little
    · by_cases hmachine : file.machine = aarch64
      · cases hsegments : (file.programHeaders.filter (·.isLoaded)).mapM (·.segment c) with
        | error e => simp [ofFile, hclass, horder, hmachine, hsegments, bind, Except.bind]
        | ok segments =>
          simp only [ofFile, hclass, horder, hmachine, hsegments, bind, Except.bind, pure, Except.pure, ne_eq,
            not_true_eq_false, if_false, Except.ok.injEq, true_and]
          constructor
          · rintro rfl
            exact ⟨rfl, rfl⟩
          · rintro ⟨rfl, himage⟩
            exact himage.symm
      · simp [ofFile, hclass, horder, hmachine, bind, Except.bind]
    · simp [ofFile, hclass, horder, bind, Except.bind]
  · simp [ofFile, hclass, bind, Except.bind]

theorem readWith_eq_ok_iff : readWith reader c = .ok image ↔ ∃ file, reader c = some file ∧ ofFile c file = .ok image := by
  unfold readWith
  split
  next hnone => simp [hnone]
  next file hfile => simp [hfile]

end Image
end AArch64.Elf
