import AArch64.Settings
import AArch64.Toml.Document

/-! Settings in a TOML file. A file needs to name only what it changes, and other keys in it mean nothing. -/
namespace AArch64.Settings

def word? (t : Toml.Table) (key : String) : Option (Option (BitVec 64)) :=
  match t.find? key with
  | none => some none
  | some (.integer n) => if 0 ≤ n then some (some (BitVec.ofInt 64 n)) else none
  | some _ => none

def truth? (t : Toml.Table) (key : String) : Option (Option Bool) :=
  match t.find? key with
  | none => some none
  | some (.boolean b) => some (some b)
  | some _ => none

def ofTable? (t : Toml.Table) : Option Settings := do
  let s : Settings := {}
  return {
    stackTop := (← word? t "stack_top").getD s.stackTop
    defaultHeapSize := (← word? t "default_heap_size").getD s.defaultHeapSize
    maxInstructions := ← word? t "max_instructions"
    trace := (← truth? t "trace").getD s.trace }

def ofToml? (text : String) : Option Settings := do
  ofTable? (← Toml.read? text)

end AArch64.Settings
