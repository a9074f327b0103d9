import AArch64.CommandLine.Files

/-! Directories and files as a tree, and how paths are followed in it. A step leads on from a directory only, so
that `a/..` is a path where `a` is a directory. -/
namespace AArch64.CommandLine

inductive Entry
  | directory
  | file (contents : Elf.Contents)
  deriving DecidableEq

abbrev Place := List String

structure FileTree where
  entries : List (Place × Entry) := []
  /-- Where a path starts that does not start at the top. -/
  current : Place := []

namespace FileTree

variable (t : FileTree)

/-- The top is always a directory. -/
def entry? : Place → Option Entry
  | [] => some .directory
  | place => t.entries.lookup place

def add (place : Place) (e : Entry) : FileTree :=
  { t with entries := (place, e) :: t.entries }

def start (path : String) : Place :=
  if path.startsWith "/" then [] else t.current

/-- One step from a place. Above the top there is only the top, and no name is longer than 255 bytes. -/
def follow? (place : Place) (step : String) : Option Place :=
  match t.entry? place with
  | some .directory =>
    if step = "" ∨ step = "." then some place
    else if step = ".." then some place.dropLast
    else if step.utf8ByteSize ≤ 255 then some (place ++ [step])
    else none
  | _ => none

/-- The place at the end of a path; there may be nothing there yet. -/
def resolve? (path : String) : Option Place :=
  (path.splitOn "/").foldlM t.follow? (t.start path)

def find (path : String) : Found :=
  match (t.resolve? path).bind t.entry? with
  | none => .missing
  | some .directory => .unreadable
  | some (.file c) => .file c

/-- One step that makes the directory it leads to, if there is nothing. -/
def enter? : FileTree × Place → String → Option (FileTree × Place)
  | (t, place), step => do
    let place ← t.follow? place step
    match t.entry? place with
    | some .directory => some (t, place)
    | some (.file _) => none
    | none => some (t.add place .directory, place)

/-- Makes a file, with the directories on the way to it. One that is there stays as it is. -/
def create? (path : String) (c : Elf.Contents) : Option FileTree := do
  let (t, directory) ← (pathSteps path).dropLast.foldlM enter? (t, t.start path)
  let place ← t.follow? directory (← fileName? path)
  match t.entry? place with
  | some .directory => none
  | some (.file _) => some t
  | none => some (t.add place (.file c))

def ofFiles (current : Place) (named : List (String × Elf.Contents)) : FileTree :=
  let (t, current) := (current.foldlM enter? ({}, [])).getD ({}, [])
  named.foldl (fun t (path, c) => (t.create? path c).getD t) { t with current }

end FileTree
end AArch64.CommandLine
