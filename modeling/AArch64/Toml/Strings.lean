import AArch64.Text.Number
import AArch64.Toml.Reader

/-! Strings and keys. -/
namespace AArch64.Toml

open Reader

def scalar? (digits : List Char) : Option Char := do
  let ds ← digits.mapM (Number.digit? 16)
  let n := ds.foldl (fun n d => 16 * n + d) 0
  if n.isValidChar then some (Char.ofNat n) else none

def escape? : Char → Option Char
  | 'b' => some '\x08'
  | 't' => some '\t'
  | 'n' => some '\n'
  | 'f' => some '\x0C'
  | 'r' => some '\r'
  | '"' => some '"'
  | '\\' => some '\\'
  | _ => none

def escape : Reader Char
  | 'u' :: a :: b :: c :: d :: rest => (scalar? [a, b, c, d]).map (·, rest)
  | 'U' :: a :: b :: c :: d :: e :: f :: g :: h :: rest =>
    (scalar? [a, b, c, d, e, f, g, h]).map (·, rest)
  | c :: rest => (escape? c).map (·, rest)
  | [] => none

def escaped : Reader Char :=
  char '\\' *> escape

def basicString : Reader String := do
  char '"'
  let cs ← repeated (next (fun c => isPrintable c && c != '"' && c != '\\') <|> escaped)
  char '"'
  return String.ofList cs

def literalString : Reader String := do
  char '\''
  let cs ← takeWhile fun c => isPrintable c && c != '\''
  char '\''
  return String.ofList cs

/-- The end of a string of several lines: three quotes, and up to two more in front that are part of it. -/
def closing (q : Char) : Reader (List Char) := do
  let quotes ← takeWhile (· == q)
  guard (3 ≤ quotes.length ∧ quotes.length ≤ 5)
  return quotes.drop 3

/-- One or two quotes in a string of several lines. -/
def innerQuotes (q : Char) : Reader (List Char) := do
  let quotes ← takeWhile (· == q)
  guard (1 ≤ quotes.length ∧ quotes.length ≤ 2)
  return quotes

def lineBreak : Reader (List Char) := do
  newline
  return ['\n']

/-- A backslash in front of a line end takes away all blanks and line ends up to the next text. -/
def joinedLines : Reader (List Char) := do
  char '\\'
  blanks
  newline
  let _ ← repeated ((next isBlank).map (fun _ => ()) <|> newline)
  return []

/-- A string of several lines in three quotes each side. A line end right behind the first is left out. -/
def multiline (q : Char) (piece : Reader (List Char)) : Reader String := do
  char q
  char q
  char q
  let _ ← optional newline
  let pieces ← repeated (piece <|> lineBreak <|> innerQuotes q)
  let quotes ← closing q
  return String.ofList (pieces.flatten ++ quotes)

def multilineBasic : Reader String :=
  multiline '"' ((do return [← next fun c => isPrintable c && c != '"' && c != '\\'])
    <|> (do return [← escaped]) <|> joinedLines)

def multilineLiteral : Reader String :=
  multiline '\'' (do return [← next fun c => isPrintable c && c != '\''])

def string : Reader String :=
  multilineBasic <|> basicString <|> multilineLiteral <|> literalString

def isBare (c : Char) : Bool :=
  c.isAlphanum || c == '-' || c == '_'

def bareKey : Reader String := do
  let cs ← takeWhile isBare
  guard (cs ≠ [])
  return String.ofList cs

/-- Limit to the parts of a key and to the depth of a value. -/
def depthLimit : Nat := 80

def dottedKey : Reader (List String) := do
  let part := inBlanks (basicString <|> literalString <|> bareKey)
  let keys := (← part) :: (← repeated (char '.' *> part))
  guard (keys.length < depthLimit)
  return keys

end AArch64.Toml
