import AArch64.Elf.Header
import AArch64.Text.Utf8

/-! String tables: names with a zero byte behind each. -/
namespace AArch64.Elf

structure StringTable where
  bytes : Array (BitVec 8) := #[]

namespace StringTable

/-- At most `n` bytes from position `i` on, up to a zero byte or the end of the table. -/
def bytesFrom (t : StringTable) : (n i : Nat) → List (BitVec 8)
  | 0, _ => []
  | n + 1, i =>
    match t.bytes[i]? with
    | none => []
    | some b => if b = 0#8 then [] else b :: bytesFrom t n (i + 1)

def nameAt (t : StringTable) (i : Nat) : List (BitVec 8) :=
  t.bytesFrom t.bytes.size i

/-- Names are of UTF-8 text. -/
def read? (c : Contents) (offset size : Nat) : Option StringTable := do
  guard (offset + size ≤ c.size)
  let bytes := c.extract offset (offset + size)
  guard (Utf8.wellFormed bytes.toList)
  return ⟨bytes⟩

/-- The index that stands for one that does not fit its field. -/
def extendedIndex : Nat := 0xFFFF

/-- The table in the section with that index; where there is no such section it is empty. -/
def ofSection? (c : Contents) (sections : List Section) (index : Nat) : Option StringTable :=
  let index :=
    if index = extendedIndex then (sections.head?.map fun s => s.link.toNat).getD index else index
  match sections[index]? with
  | none => some {}
  | some s => if s.inBounds c then read? c s.offset.toNat s.size.toNat else none

end StringTable
end AArch64.Elf
