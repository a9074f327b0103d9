/-! The values of a TOML document, and the rules on which table may be defined where. -/
namespace AArch64.Toml

inductive Origin
  /-- By a header of its own, or as the whole document. -/
  | header
  /-- On the path of another table's header. -/
  | implied
  /-- On the path of a dotted key. -/
  | dotted
  deriving DecidableEq

mutual

inductive Value
  | string (s : String)
  | integer (n : Int)
  | float (spelling : String)
  | boolean (b : Bool)
  | time (spelling : String)
  | array (elements : List Value)
  /-- A table in braces, to which nothing can be added. -/
  | inlineTable (t : Table)
  | table (t : Table)
  | tables (ts : List Table)

inductive Table
  | mk (origin : Origin) (entries : List (String × Value))

end

namespace Table

def origin : Table → Origin
  | mk o _ => o

def entries : Table → List (String × Value)
  | mk _ es => es

def find? (t : Table) (key : String) : Option Value :=
  t.entries.lookup key

def set (t : Table) (key : String) (v : Value) : Table :=
  let rec go : List (String × Value) → List (String × Value)
    | [] => [(key, v)]
    | (k, w) :: rest => if k = key then (key, v) :: rest else (k, w) :: go rest
  mk t.origin (go t.entries)

/-- Changes the table at the end of a path, with the tables on the way added where they are missing. Of tables
that share a header the last one is meant. A dotted key passes no table that has a header. -/
def modifyAt (added : Origin) (f : Table → Option Table) : List String → Table → Option Table
  | [], t => f t
  | k :: path, t =>
    match t.find? k with
    | none => do
      let u ← modifyAt added f path (mk added [])
      return t.set k (.table u)
    | some (.table u) =>
      if added = .dotted ∧ u.origin = .header then none
      else do
        let u ← modifyAt added f path u
        return t.set k (.table u)
    | some (.tables us) =>
      match us.getLast? with
      | none => none
      | some u => do
        let u ← modifyAt added f path u
        return t.set k (.tables (us.dropLast ++ [u]))
    | some _ => none

/-- Gives a key its value, once. A table takes plain keys or dotted ones, as it came about. -/
def define (path : List String) (key : String) (v : Value) (t : Table) : Option Table :=
  modifyAt .dotted
    (fun u =>
      if (u.origin = .dotted ↔ path = []) ∨ (u.find? key).isSome then none else some (u.set key v))
    path t

/-- Opens a table by its header. One that is only implied may still be opened. -/
def openTable (path : List String) (key : String) (t : Table) : Option Table :=
  modifyAt .implied
    (fun u =>
      match u.find? key with
      | none => some (u.set key (.table (mk .header [])))
      | some (.table w) =>
        if w.origin = .implied then some (u.set key (.table (mk .header w.entries))) else none
      | some _ => none)
    path t

/-- Opens one more of the tables that share a header. -/
def openNext (path : List String) (key : String) (t : Table) : Option Table :=
  modifyAt .implied
    (fun u =>
      match u.find? key with
      | none => some (u.set key (.tables [mk .header []]))
      | some (.tables ws) => some (u.set key (.tables (ws ++ [mk .header []])))
      | some _ => none)
    path t

end Table
end AArch64.Toml
