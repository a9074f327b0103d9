import AArch64.CommandLine.Help
import AArch64.CommandLine.Session

/-! The program: reads the files that a command names, carries it out and prints. -/
namespace AArch64.CommandLine

def look (path : String) : IO Found := do
  try
    return .file ((← IO.FS.readBinFile path).data.map UInt8.toBitVec)
  catch
    | .noFileOrDirectory .. => return .missing
    | _ => return .unreadable

def readFiles (paths : List String) : IO Files := do
  let found ← paths.mapM fun path => return (path, ← look path)
  return fun path => (found.lookup path).getD .missing

/-- Makes the file for the log, with the directory that it is in. Tells whether it is there now. -/
def makeLog (path : String) : IO Bool := do
  let named (steps : List String) : String :=
    (if path.startsWith "/" then "/" else "") ++ String.intercalate "/" steps
  let steps := pathSteps path
  try
    if steps.length > 1 then
      IO.FS.createDirAll (named steps.dropLast)
    let _ ← IO.FS.Handle.mk (named steps) .append
    return true
  catch _ => return false

def perform (c : Command) : IO (Except Failure Outcome) := do
  match c.logFile? with
  | .error e => return .error e
  | .ok (some path) =>
    unless ← makeLog path do
      return .error (.logging path)
  | .ok none => pure ()
  return c.execute (← readFiles c.inputs)

def carryOut (c : Command) : IO UInt32 := do
  match ← perform c with
  | .ok outcome =>
    IO.print outcome.output
    return outcome.code.toNat.toUInt32
  | .error e =>
    IO.eprint e.message
    return e.code.toNat.toUInt32

def program (arguments : List String) : IO UInt32 := do
  match read arguments with
  | .error e =>
    IO.eprintln ("error: " ++ e.text ++ "\n\nFor more information, try '--help'.")
    return 2
  | .ok (.help topic) =>
    IO.print topic.text
    return 0
  | .ok .version =>
    IO.println version
    return 0
  | .ok (.command c) => carryOut c

end AArch64.CommandLine

def main (arguments : List String) : IO UInt32 :=
  AArch64.CommandLine.program arguments
