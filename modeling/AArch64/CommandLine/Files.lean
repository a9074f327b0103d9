import AArch64.Elf.Format

/-! Files by name. -/
namespace AArch64.CommandLine

/-- What a path leads to. A directory is there, but cannot be read. -/
inductive Found
  | missing
  | unreadable
  | file (contents : Elf.Contents)
  deriving DecidableEq

abbrev Files := String → Found

def pathSteps (path : String) : List String :=
  (path.splitOn "/").filter fun s => s ≠ "" ∧ s ≠ "."

/-- A path that ends at a file names it by its last step. -/
def fileName? (path : String) : Option String :=
  (pathSteps path).getLast?.filter (· ≠ "..")

/-- The text of a file that is all UTF-8. -/
def text? (c : Elf.Contents) : Option String :=
  String.fromUTF8? ⟨c.map UInt8.ofBitVec⟩

end AArch64.CommandLine
