import AArch64.Elf.File
import AArch64.Machine.Setup

/-! Program images: what a machine needs of an executable ELF file. -/
namespace AArch64.Elf

structure Image where
  entry : BitVec 64
  segments : List Segment
  /-- The symbol that marks the start of the heap, with its value. -/
  heap : Option (String × BitVec 64)
  deriving DecidableEq

inductive ImageError
  | malformed
  | notWide
  | notLittleEndian
  | otherMachine (machine : BitVec 16)
  | truncated (address : BitVec 64) (start stop : Nat)
  deriving DecidableEq

def ImageError.text : ImageError → String
  | malformed => "malformed ELF"
  | notWide => "not a 64-bit ELF image"
  | notLittleEndian => "not a little-endian ELF image"
  | otherMachine m => "not an AArch64 image (machine " ++ toString m.toNat ++ ")"
  | truncated a start stop =>
    "segment at " ++ Hex.address a ++ " points past the end of the file (" ++ toString start ++ ".."
      ++ toString stop ++ ")"

def aarch64 : BitVec 16 := 183#16

namespace ProgramHeader

def isLoaded (h : ProgramHeader) : Bool :=
  h.kind == load && h.memorySize != 0#64

/-- End of the segment in the file. The greatest offset ends all that go beyond. -/
def fileEnd (h : ProgramHeader) : Nat :=
  min (h.offset.toNat + h.fileSize.toNat) (2 ^ 64 - 1)

def segment (h : ProgramHeader) (c : Contents) : Except ImageError Segment :=
  let start := h.offset.toNat
  if h.fileEnd ≤ c.size then
    .ok {
      base := h.address
      bytes := (c.extract start h.fileEnd).toList
      memLen := h.memorySize
      writable := h.flags &&& writable != 0#32 }
  else .error (.truncated h.address start h.fileEnd)

end ProgramHeader

namespace File

variable (file : File)

def symbol? (name : String) : Option Symbol :=
  let bytes := name.toUTF8.data.toList.map UInt8.toBitVec
  file.symbols.find? fun s => file.names.nameAt s.name.toNat == bytes

end File

namespace Image

def heapStart (i : Image) : Option (BitVec 64) :=
  i.heap.map (·.2)

/-- Names for the end of the program's data, the preferred one first. -/
def heapSymbols : List String :=
  ["end", "__end__", "_end"]

def heapOf (file : File) : Option (String × BitVec 64) :=
  heapSymbols.findSome? fun name => (file.symbol? name).map fun s => (name, s.value)

def ofFile (c : Contents) (file : File) : Except ImageError Image := do
  if file.format.fileClass ≠ .bits64 then throw .notWide
  if file.format.order ≠ .little then throw .notLittleEndian
  if file.machine ≠ aarch64 then throw (.otherMachine file.machine)
  let segments ← (file.programHeaders.filter (·.isLoaded)).mapM (·.segment c)
  return { entry := file.entry, segments, heap := heapOf file }

def readWith (reader : Contents → Option File) (c : Contents) : Except ImageError Image :=
  match reader c with
  | none => .error .malformed
  | some file => ofFile c file

def read (c : Contents) : Except ImageError Image :=
  readWith File.read? c

end Image
end AArch64.Elf
