import AArch64.CommandLine.Arguments
import AArch64.CommandLine.FileTree
import AArch64.CommandLine.SettingsFile
import AArch64.Elf.Image
import AArch64.Machine.Capacity
import AArch64.Machine.Run

/-! What the commands do with their files, and what they print. -/
namespace AArch64

namespace Machine

/-- Runs on behind breakpoints and callouts, of which the host answers none, and makes at most `n` runs. -/
def runOn : (n : Nat) → (m : Machine) → Status × Machine
  | 0, m => (m.status, m)
  | n + 1, m =>
    match m.run with
    | (.breakpoint, m) => runOn n m
    | (.callout, m) =>
      match m.resume with
      | .ok m => runOn n m
      | .error _ => (.callout, m)
    | ended => ended

/-- Each run but the last one spends something of the budget. -/
def runToEnd (m : Machine) : Status × Machine :=
  runOn (m.budget + 1) m

end Machine

namespace CommandLine

inductive Failure
  | notFile (path : String)
  /-- The file for the log could not be made. -/
  | logging (path : String)
  | reading (path : String)
  | parsing (path : String)
  | loading (path : String) (cause : Elf.ImageError)
  | placing (path : String) (cause : SetupError)
  | stack (cause : SetupError)
  /-- The program asks for a block that is too large. -/
  | memory
  /-- The machine stopped with an error at an instruction. -/
  | stopped (text : String) (pc : BitVec 64) (instruction : InstructionWord)
  deriving DecidableEq

namespace Failure

def text : Failure → String
  | notFile path => path ++ " is not a file path"
  | logging path => "no log can be written to " ++ path
  | reading path => "reading " ++ path
  | parsing path => "parsing " ++ path
  | loading path _ => "loading " ++ path
  | placing path _ => "placing " ++ path
  | stack _ => "setting up the stack"
  | memory => "out of memory"
  | stopped text pc instruction =>
    text ++ " at " ++ Hex.address pc ++ " (instruction " ++ Hex.word instruction ++ ")"

def cause? : Failure → Option String
  | loading _ cause => some cause.text
  | placing _ cause | stack cause => some cause.text
  | _ => none

/-- The host has failed, and not what the command was given. -/
def ofHost : Failure → Bool
  | logging _ | memory => true
  | _ => false

def code (f : Failure) : BitVec 8 :=
  if f.ofHost then 101#8 else 1#8

/-- All that is told of a failure. One of the host stands apart, below an empty line. -/
def message (f : Failure) : String :=
  if f.ofHost then "\n" ++ f.text ++ "\n"
  else
    "Error: " ++ f.text ++ "\n" ++
      match f.cause? with
      | some cause => "\nCaused by:\n    " ++ cause ++ "\n"
      | none => ""

end Failure

structure Outcome where
  output : String
  code : BitVec 8 := 0#8
  deriving DecidableEq

def report : Status × Machine → Except Failure Outcome
  | (.returned, m) =>
    let x := m.state.read 64 0
    .ok { output := "returned " ++ toString x.toNat ++ " (X0 = 0x" ++ Hex.digits x.toNat ++ ")\n",
          code := x.setWidth 8 }
  | (.halted, m) => .ok { output := "halted at " ++ Hex.address m.state.pc ++ "\n" }
  | (.error, m) => .error (.stopped m.errorText m.state.pc m.instruction)
  | (_, m) =>
    .ok { output := "instruction budget spent after " ++ toString m.retired ++ " instructions at "
            ++ Hex.address m.state.pc ++ "\n" }

/-- Read where no other file is named, if it exists. -/
def defaultConfig : String := "a64sim.toml"

def parseSettings (path : String) (c : Elf.Contents) : Except Failure Settings :=
  match text? c with
  | none => .error (.reading path)
  | some text =>
    match Settings.ofToml? text with
    | none => .error (.parsing path)
    | some s => .ok s

def readSettings (files : Files) (path? : Option String) : Except Failure Settings :=
  let path := path?.getD defaultConfig
  match files path with
  | .file c => parseSettings path c
  | .unreadable => .error (.reading path)
  | .missing => if path?.isSome then .error (.reading path) else .ok {}

def readImage (files : Files) (path : String) : Except Failure Elf.Image :=
  match files path with
  | .file c => (Elf.Image.read c).mapError (.loading path)
  | .missing | .unreadable => .error (.reading path)

def machineWith (settings : Settings) (path : String) (image : Elf.Image) :
    Except Failure Machine :=
  let m : Machine := { settings }
  if m.loadOverflows image.segments then .error .memory
  else
    match m.load image.segments with
    | (.error e, _) => .error (.placing path e)
    | (.ok (), m) =>
      if m.initOverflows image.heapStart then .error .memory
      else
        match m.init image.entry image.heapStart with
        | (.error e, _) => .error (.stack e)
        | (.ok (), m) => .ok m

def run (files : Files) (elf : String) (o : RunOptions) : Except Failure Outcome := do
  let settings := o.apply (← readSettings files o.config)
  let image ← readImage files elf
  report (← machineWith settings elf image).runToEnd

def segmentLine (s : Segment) : String :=
  let size := toString s.memLen.toNat
  "load   " ++ Hex.address s.base ++ " " ++ "".pushn ' ' (10 - size.length) ++ size ++ " bytes ("
    ++ toString s.bytes.length ++ " from file) " ++ (if s.writable then "rw" else "r-") ++ "\n"

def heapLine : Option (String × BitVec 64) → String
  | some (name, address) => "heap   " ++ Hex.address address ++ " (" ++ name ++ ")\n"
  | none => "heap   none (defaults below the stack top)\n"

def info (files : Files) (elf : String) : Except Failure Outcome := do
  let image ← readImage files elf
  return { output := "entry  " ++ Hex.address image.entry ++ "\n" ++ heapLine image.heap
    ++ String.join (image.segments.map segmentLine) }

def Command.execute (files : Files) : Command → Except Failure Outcome
  | run elf o => CommandLine.run files elf o
  | info elf => CommandLine.info files elf

/-- The file for the log, which is made before anything is read. Nothing is put into it. -/
def Command.logFile? : Command → Except Failure (Option String)
  | run _ { logFile := some path, .. } =>
    if (fileName? path).isSome then .ok (some path) else .error (.notFile path)
  | _ => .ok none

def Command.executeIn (t : FileTree) (c : Command) : Except Failure Outcome := do
  match ← c.logFile? with
  | none => c.execute t.find
  | some path =>
    match t.create? path #[] with
    | none => .error (.logging path)
    | some t => c.execute t.find

def Command.inputs : Command → List String
  | run elf o => [elf, o.config.getD defaultConfig]
  | info elf => [elf]

end CommandLine
end AArch64
