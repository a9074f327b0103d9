/-! Reading from the front of a text. A reader that fails takes nothing. -/
namespace AArch64.Toml

abbrev Reader := StateT (List Char) Option

namespace Reader

def next (p : Char → Bool) : Reader Char
  | [] => none
  | c :: rest => if p c then some (c, rest) else none

def char (c : Char) : Reader Unit :=
  (next (· == c)).map fun _ => ()

def word (s : String) : Reader Unit :=
  s.toList.forM char

def atEnd : Reader Unit
  | [] => some ((), [])
  | _ :: _ => none

def takeWhile (p : Char → Bool) : Reader (List Char) :=
  fun cs => some (cs.takeWhile p, cs.dropWhile p)

/-- Reads on as long as it succeeds, at most `n` times. -/
def upTo {α : Type} (r : Reader α) : (n : Nat) → Reader (List α)
  | 0 => pure []
  | n + 1 => (do return (← r) :: (← upTo r n)) <|> pure []

/-- Reads on as long as it succeeds. Each time takes a character or more. -/
def repeated {α : Type} (r : Reader α) : Reader (List α) :=
  fun cs => upTo r cs.length cs

def spelling {α : Type} (r : Reader α) : Reader String :=
  fun cs => do
    let (_, rest) ← r cs
    return (String.ofList (cs.take (cs.length - rest.length)), rest)

def separated {α : Type} (r : Reader α) : Reader (List α) :=
  (do return (← r) :: (← repeated (char ',' *> r))) <|> pure []

end Reader

open Reader

def isBlank (c : Char) : Bool :=
  c == ' ' || c == '\t'

def isPrintable (c : Char) : Bool :=
  ' ' ≤ c && c != '\x7F' || c == '\t'

def blanks : Reader Unit :=
  (takeWhile isBlank).map fun _ => ()

def newline : Reader Unit :=
  char '\n' <|> char '\r' *> char '\n'

def comment : Reader Unit := do
  char '#'
  let _ ← takeWhile isPrintable

def gap : Reader Unit := do
  let _ ← repeated ((next isBlank).map (fun _ => ()) <|> comment *> newline <|> newline)

def lineEnd : Reader Unit :=
  newline <|> atEnd

def lineRest : Reader Unit := do
  blanks
  let _ ← optional comment
  lineEnd

def inBlanks {α : Type} (r : Reader α) : Reader α := do
  blanks
  let x ← r
  blanks
  return x

end AArch64.Toml
