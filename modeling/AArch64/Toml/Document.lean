import AArch64.Toml.Numbers
import AArch64.Toml.Strings
import AArch64.Toml.Times
import AArch64.Toml.Value

/-! Values, statements and whole documents. -/
namespace AArch64.Toml

open Reader

def scalar : Reader Value :=
  string.map .string <|> time.map .time <|> float.map .float <|> integer.map .integer
    <|> (word "true").map (fun _ => .boolean true) <|> (word "false").map (fun _ => .boolean false)

/-- An array. The last element may have a comma behind it. -/
def array (element : Reader Value) : Reader Value := do
  char '['
  let elements ← separated (gap *> element <* gap)
  if elements ≠ [] then
    let _ ← optional (char ',')
  gap
  char ']'
  return .array elements

def assignment (value : Reader Value) : Reader (List String × Value) := do
  let key ← dottedKey
  char '='
  blanks
  return (key, ← value)

def assign (t : Table) : List String × Value → Option Table
  | (path, v) =>
    match path.getLast? with
    | some key => t.define path.dropLast key v
    | none => none

def inlineTable (value : Reader Value) : Reader Value := do
  char '\x7B'
  let entries ← separated (assignment value <* blanks)
  blanks
  char '\x7D'
  return .inlineTable (← (entries.foldlM assign (.mk .header []) : Option Table))

/-- A value that is nested at most `depth` deep. -/
def value : (depth : Nat) → Reader Value
  | 0 => scalar
  | depth + 1 => scalar <|> array (value depth) <|> inlineTable (value depth)

inductive Statement
  | header (path : List String)
  | nextHeader (path : List String)
  | assignment (path : List String) (v : Value)

def statement : Reader Statement :=
  (do
    word "[["
    let path ← dottedKey
    word "]]"
    return .nextHeader path)
  <|> (do
    char '['
    let path ← dottedKey
    char ']'
    return .header path)
  <|> (do
    let (path, v) ← assignment (value (depthLimit - 1))
    return .assignment path v)

def line : Reader (Option Statement) :=
  (do
    comment
    lineEnd
    return none)
  <|> (do
    newline
    return none)
  <|> (do
    let s ← statement
    lineRest
    return some s)

def statements : Reader (List Statement) := do
  let _ ← optional (char '\uFEFF')
  blanks
  let lines ← repeated (line <* blanks)
  atEnd
  return lines.filterMap id

/-- The whole document and the path of the table that was opened last. -/
structure Draft where
  root : Table := .mk .header []
  current : List String := []

def Draft.add (d : Draft) : Statement → Option Draft
  | .header path =>
    match path.getLast? with
    | some key => do return { root := ← d.root.openTable path.dropLast key, current := path }
    | none => none
  | .nextHeader path =>
    match path.getLast? with
    | some key => do return { root := ← d.root.openNext path.dropLast key, current := path }
    | none => none
  | .assignment path v => do
    return { d with root := ← d.root.modifyAt .implied (assign · (path, v)) d.current }

def read? (text : String) : Option Table := do
  let (ss, _) ← statements text.toList
  let d ← ss.foldlM Draft.add {}
  return d.root

end AArch64.Toml
