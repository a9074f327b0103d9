import AArch64.Interpreter.Memory
import AArch64.Proofs.Interpreter.Attempt
import AArch64.Proofs.Memory.Accesses
import AArch64.Proofs.Memory.Ranges

/-! Accesses to a memory whose cache names a block are not stopped. -/
namespace AArch64

namespace Memory

variable {m : Memory}

theorem resolve?_eq (h : m.CacheInRange) (a : BitVec 64) (n : Nat) : m.resolve? a n = some (m.resolve a n) := by
  unfold resolve? resolve
  cases hactive : m.active with
  | none => rfl
  | some i =>
    have hi : i < m.blocks.length := h i hactive
    simp only [List.getElem?_eq_getElem hi, locate, Option.bind_eq_bind, Option.bind_some]
    cases m.blocks[i].offset? a n <;> rfl

theorem read?_eq (h : m.CacheInRange) (a : BitVec 64) (n : Nat) : m.read? a n = some (m.read a n) := by
  rw [read?, resolve?_eq h, Option.bind_eq_bind, Option.bind_some, read]
  cases hit : m.resolve a n with
  | none => rfl
  | some found =>
    obtain ⟨i, offset⟩ := found
    obtain ⟨b, hb, hle⟩ := m.exists_room_of_resolve hit
    have hbytes : b.bytes? offset n = some (b.load offset n) := if_pos hle
    have hword : (Word.ofBytes n fun k => (b.load offset n).getD k 0#8) = Word.ofBytes n fun k => m.byteAt i (offset + k) := by
      refine Word.ofBytes_congr fun k hk => ?_
      simp [Block.load, byteAt, hb, hk]
    simp only [hb, Option.bind_eq_bind, Option.bind_some, hbytes, hword]

theorem modify_blocks {i : Nat} {b : Block} (hb : m.blocks[i]? = some b) (f : Block → Block) :
    m.blocks.modify i f = m.blocks.set i (f b) := by
  rw [List.modify_eq_set_getElem?, hb]
  rfl

theorem write?_eq (h : m.CacheInRange) {w : Nat} (a : BitVec 64) (n : Nat) (x : BitVec w) :
    m.write? a n x = some (m.write a n x) := by
  simp only [write?, resolve?_eq h, Option.bind_eq_bind, Option.bind_some, write]
  cases hit : m.resolve a n with
  | none => rfl
  | some found =>
    obtain ⟨i, offset⟩ := found
    obtain ⟨b, hb, hle⟩ := m.exists_room_of_resolve hit
    have hfits : offset + (Word.bytes n x).length ≤ b.len := by rwa [Word.length_bytes]
    have hstore : b.store? offset (Word.bytes n x) = some (b.store offset (Word.bytes n x)) := if_pos hfits
    simp only [hb, Option.bind_some, writableAt, hstore]
    split
    · rw [storeAt, ← modify_blocks hb]
      rfl
    · rfl

end Memory

/-- The machine that works on another core. -/
def Machine.withCore (m : Machine) (c : Core) : Machine := { m with core := c }

namespace Machine

variable (m : Machine) (c d : Core)

@[simp] theorem core_withCore : (m.withCore c).core = c := rfl

@[simp] theorem state_withCore : (m.withCore c).state = c.state := rfl

@[simp] theorem withCore_withCore : (m.withCore c).withCore d = m.withCore d := rfl

end Machine

namespace Attempt

variable {m : Machine}

theorem readMemory_raw (h : m.core.memory.CacheInRange) (a : BitVec 64) (n : Nat) :
    readMemory a n m.raw =
      some (.ok (m.core.memory.read a n).1,
        (m.withCore { m.core with memory := (m.core.memory.read a n).2 }).raw) := by
  have hread : m.raw.memory.read? a n = some (m.core.memory.read a n) := Memory.read?_eq h a n
  rw [readMemory, hread]
  rfl

theorem writeMemory_raw (h : m.core.memory.CacheInRange) (a : BitVec 64) (n : Nat) {w : Nat} (x : BitVec w) :
    writeMemory a n x m.raw =
      some (.ok (), (m.withCore { m.core with memory := m.core.memory.write a n x }).raw) := by
  have hwrite : m.raw.memory.write? a n x = some (m.core.memory.write a n x) := Memory.write?_eq h a n x
  rw [writeMemory, hwrite]
  rfl

theorem loadInteger_raw (h : m.core.memory.CacheInRange) (a : BitVec 64) {k : Nat} (hk : k ≤ 3) :
    loadInteger a (2 ^ k) m.raw =
      some (.ok ((m.core.memory.read a (2 ^ k)).1.setWidth 64),
        (m.withCore { m.core with memory := (m.core.memory.read a (2 ^ k)).2 }).raw) := by
  match k with
  | 0 | 1 | 2 => exact bind_raw (readMemory_raw h a _) rfl
  | 3 => exact readMemory_raw h a 8

theorem storeInteger_raw (h : m.core.memory.CacheInRange) (a : BitVec 64) {k : Nat} (hk : k ≤ 3) (x : BitVec 64) :
    storeInteger a (2 ^ k) x m.raw =
      some (.ok (), (m.withCore { m.core with memory := m.core.memory.write a (2 ^ k) x }).raw) := by
  match k with
  | 0 | 1 | 2 | 3 => exact writeMemory_raw h a _ x

end Attempt
end AArch64
