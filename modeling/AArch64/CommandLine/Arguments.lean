import AArch64.Settings
import AArch64.Text.Number

/-! The command line: what it asks for, and how its arguments are read. -/
namespace AArch64.CommandLine

structure RunOptions where
  config : Option String := none
  logFile : Option String := none
  trace : Bool := false
  maxInstructions : Option (BitVec 64) := none
  stackTop : Option (BitVec 64) := none
  deriving DecidableEq

/-- Lays the options over the settings of a file. -/
def RunOptions.apply (o : RunOptions) (s : Settings) : Settings :=
  { s with
    stackTop := o.stackTop.getD s.stackTop
    maxInstructions := o.maxInstructions <|> s.maxInstructions
    trace := s.trace || o.trace }

inductive Command
  | run (elf : String) (options : RunOptions)
  | info (elf : String)
  deriving DecidableEq

inductive Topic
  | program | run | info | help
  deriving DecidableEq

inductive Request
  | command (c : Command)
  | help (t : Topic)
  | version
  deriving DecidableEq

inductive UsageError
  | missingCommand
  | unknownCommand (name : String)
  | missingImage
  | unexpected (argument : String)
  | missingValue (option : String)
  | unneededValue (option : String)
  | repeated (option : String)
  | invalidValue (option value : String)
  deriving DecidableEq

def UsageError.text : UsageError → String
  | missingCommand => "a command is required"
  | unknownCommand name => "unrecognized command '" ++ name ++ "'"
  | missingImage => "an image file is required"
  | unexpected argument => "unexpected argument '" ++ argument ++ "'"
  | missingValue option => "a value is required for '" ++ option ++ "'"
  | unneededValue option => "no value is allowed for '" ++ option ++ "'"
  | repeated option => "'" ++ option ++ "' cannot be used multiple times"
  | invalidValue option value => "invalid value '" ++ value ++ "' for '" ++ option ++ "'"

inductive Setting
  | config | logFile | maxInstructions | stackTop
  deriving DecidableEq

namespace Setting

def name : Setting → String
  | config => "--config"
  | logFile => "--log-file"
  | maxInstructions => "--max-instructions"
  | stackTop => "--stack-top"

def all : List Setting :=
  [config, logFile, maxInstructions, stackTop]

def once {α : Type} (s : Setting) (field : Option α) (value : String) (x : Option α) :
    Except UsageError (Option α) :=
  match field, x with
  | some _, _ => .error (.repeated s.name)
  | none, some x => .ok (some x)
  | none, none => .error (.invalidValue s.name value)

def path? (value : String) : Option String :=
  if value = "" then none else some value

def put (s : Setting) (value : String) (o : RunOptions) : Except UsageError RunOptions :=
  match s with
  | config => do return { o with config := ← s.once o.config value (path? value) }
  | logFile => do return { o with logFile := ← s.once o.logFile value (path? value) }
  | maxInstructions => do
    return { o with
      maxInstructions := ← s.once o.maxInstructions value (Number.decimal value).toOption }
  | stackTop => do
    return { o with stackTop := ← s.once o.stackTop value (Number.hex value).toOption }

end Setting

inductive Shape
  | positional
  /-- Everything behind it is positional. -/
  | separator
  | long (name : String) (value : Option String)
  | short (letter : Char)
  deriving DecidableEq

/-- A single dash is positional. -/
def shape (argument : String) : Shape :=
  match argument.toList with
  | ['-', '-'] => .separator
  | '-' :: '-' :: cs =>
    let name := cs.takeWhile (· ≠ '=')
    .long ("--" ++ String.ofList name)
      (if name.length = cs.length then none else some (String.ofList (cs.drop (name.length + 1))))
  | '-' :: c :: _ => .short c
  | _ => .positional

structure Draft where
  elf : Option String := none
  options : RunOptions := {}

namespace Draft

variable (d : Draft)

def addPositional (argument : String) : Except UsageError Draft :=
  match d.elf with
  | some _ => .error (.unexpected argument)
  | none =>
    if argument = "" then .error (.invalidValue "<ELF>" argument)
    else .ok { d with elf := some argument }

def addTrace : Except UsageError Draft :=
  if d.options.trace then .error (.repeated "--trace")
  else .ok { d with options := { d.options with trace := true } }

def addSetting (s : Setting) (value : String) : Except UsageError Draft := do
  return { d with options := ← s.put value d.options }

def image : Except UsageError String :=
  match d.elf with
  | some elf => .ok elf
  | none => .error .missingImage

end Draft

/-- The arguments of a command, of which some may have options: its draft, or nothing where help is asked for. -/
def readArguments (hasOptions : Bool) :
    List String → Draft → Except UsageError (Option Draft)
  | [], d => .ok (some d)
  | a :: rest, d =>
    match shape a with
    | .positional => do readArguments hasOptions rest (← d.addPositional a)
    | .separator => do return some (← rest.foldlM Draft.addPositional d)
    | .short c => if c = 'h' then .ok none else .error (.unexpected a)
    | .long name value =>
      match name, value with
      | "--help", none => .ok none
      | "--help", some _ => .error (.unneededValue name)
      | _, _ =>
        if !hasOptions then .error (.unexpected a)
        else if name = "--trace" then
          match value with
          | none => do readArguments hasOptions rest (← d.addTrace)
          | some _ => .error (.unneededValue name)
        else
          match Setting.all.find? (·.name == name), value with
          | none, _ => .error (.unexpected a)
          | some s, some value => do readArguments hasOptions rest (← d.addSetting s value)
          | some s, none =>
            match rest with
            | [] => .error (.missingValue name)
            | value :: rest =>
              if shape value = .positional then do
                readArguments hasOptions rest (← d.addSetting s value)
              else .error (.missingValue name)

def readRun (arguments : List String) : Except UsageError Request := do
  match ← readArguments true arguments {} with
  | none => return .help .run
  | some d => return .command (.run (← d.image) d.options)

def readInfo (arguments : List String) : Except UsageError Request := do
  match ← readArguments false arguments {} with
  | none => return .help .info
  | some d => return .command (.info (← d.image))

def readHelp : List String → Except UsageError Request
  | [] => .ok (.help .program)
  | ["run"] => .ok (.help .run)
  | ["info"] => .ok (.help .info)
  | ["help"] => .ok (.help .help)
  | a :: _ => .error (.unknownCommand a)

def read : List String → Except UsageError Request
  | [] => .error .missingCommand
  | "run" :: rest => readRun rest
  | "info" :: rest => readInfo rest
  | "help" :: rest => readHelp rest
  | a :: _ =>
    match shape a with
    | .long "--help" none | .short 'h' => .ok (.help .program)
    | .long "--version" none | .short 'V' => .ok .version
    | .positional => .error (.unknownCommand a)
    | _ => .error (.unexpected a)

end AArch64.CommandLine
