import AArch64.Memory.Basic

/-! What accesses keep of a memory. The blocks themselves stay, only their bytes change, and a cache that names a
block goes on naming one. -/
namespace AArch64

/-- Where a block lies and whether guests may write to it. -/
def Block.extent (b : Block) : BitVec 64 × Nat × Bool := (b.base, b.len, b.writable)

@[simp] theorem Block.extent_store (offset : Nat) (xs : List (BitVec 8)) (b : Block) :
    (Block.store offset xs b).extent = b.extent := by
  simp [extent]

theorem Block.offset?_eq_some {b : Block} {a : BitVec 64} {n offset : Nat} :
    b.offset? a n = some offset ↔
      b.base.toNat ≤ a.toNat ∧ offset = a.toNat - b.base.toNat ∧ offset + n ≤ b.len := by
  unfold offset?
  split
  next h =>
    simp only [Option.some.injEq]
    omega
  next h =>
    simp only [reduceCtorEq, false_iff]
    omega

namespace Memory

variable (m : Memory)

def layout : List (BitVec 64 × Nat × Bool) := m.blocks.map Block.extent

/-- The cache is empty or names a block. -/
def CacheInRange : Prop := ∀ i ∈ m.active, i < m.blocks.length

instance : Decidable m.CacheInRange :=
  decidable_of_iff (m.active.all fun i => decide (i < m.blocks.length)) (by
    cases h : m.active <;> simp [CacheInRange, h])

@[simp] theorem layout_activate (i : Nat) : (m.activate i).layout = m.layout := rfl

@[simp] theorem layout_record (f : Fault) : (m.record f).layout = m.layout := rfl

@[simp] theorem layout_takeFault : m.takeFault.2.layout = m.layout := rfl

@[simp] theorem layout_storeAt (i offset : Nat) (xs : List (BitVec 8)) :
    (m.storeAt i offset xs).layout = m.layout := by
  apply List.ext_getElem?
  intro j
  simp only [layout, storeAt, List.getElem?_map, List.getElem?_modify]
  cases m.blocks[j]? with
  | none => rfl
  | some b => by_cases h : i = j <;> simp [h]

theorem exists_block_of_locate {a : BitVec 64} {n i j offset : Nat}
    (h : m.locate j a n = some (i, offset)) : ∃ b, m.blocks[i]? = some b ∧ b.offset? a n = some offset := by
  simp only [locate, Option.bind_eq_bind, Option.bind_eq_some_iff, Option.pure_def, Option.some.injEq,
    Prod.mk.injEq] at h
  obtain ⟨b, hb, o, ho, rfl, rfl⟩ := h
  exact ⟨b, hb, ho⟩

theorem exists_block_of_resolve {a : BitVec 64} {n i offset : Nat}
    (h : m.resolve a n = some (i, offset)) : ∃ b, m.blocks[i]? = some b ∧ b.offset? a n = some offset := by
  unfold resolve at h
  split at h
  next hit hc =>
    obtain ⟨j, _, hj⟩ := Option.bind_eq_some_iff.1 hc
    cases h
    exact m.exists_block_of_locate hj
  next =>
    obtain ⟨j, _, hj⟩ := List.exists_of_findSome?_eq_some h
    exact m.exists_block_of_locate hj

theorem exists_room_of_resolve {a : BitVec 64} {n i offset : Nat} (h : m.resolve a n = some (i, offset)) :
    ∃ b, m.blocks[i]? = some b ∧ offset + n ≤ b.len := by
  obtain ⟨b, hb, ho⟩ := m.exists_block_of_resolve h
  obtain ⟨_, _, hle⟩ := Block.offset?_eq_some.1 ho
  exact ⟨b, hb, hle⟩

theorem lt_length_of_resolve {a : BitVec 64} {n i offset : Nat} (h : m.resolve a n = some (i, offset)) :
    i < m.blocks.length := by
  obtain ⟨b, hb, _⟩ := m.exists_block_of_resolve h
  exact (List.getElem?_eq_some_iff.1 hb).1

theorem cacheInRange_activate {i : Nat} (h : i < m.blocks.length) : (m.activate i).CacheInRange := by
  simpa [CacheInRange, activate] using h

@[simp] theorem layout_read (a : BitVec 64) (n : Nat) : (m.read a n).2.layout = m.layout := by
  unfold read
  split <;> simp

@[simp] theorem layout_write {w : Nat} (a : BitVec 64) (n : Nat) (x : BitVec w) :
    (m.write a n x).layout = m.layout := by
  unfold write
  split
  · split <;> simp
  · simp

@[simp] theorem layout_loadBlock (a : BitVec 64) (n : Nat) : (m.loadBlock a n).2.layout = m.layout := by
  unfold loadBlock
  split <;> simp

@[simp] theorem layout_storeBlock (a : BitVec 64) (xs : List (BitVec 8)) :
    (m.storeBlock a xs).2.layout = m.layout := by
  unfold storeBlock
  split <;> simp

theorem blocks_write_of_fault (hpending : m.fault = none) {a : BitVec 64} {n k : Nat} {x : BitVec k}
    (h : (m.write a n x).fault ≠ none) : (m.write a n x).blocks = m.blocks := by
  unfold write at h ⊢
  split
  next i offset hresolve =>
    simp only [hresolve] at h
    split at h
    next => exact absurd hpending h
    next hw =>
      rw [if_neg hw]
      rfl
  next => rfl

theorem cacheInRange_read (h : m.CacheInRange) (a : BitVec 64) (n : Nat) : (m.read a n).2.CacheInRange := by
  unfold read
  split
  next i offset hr => exact m.cacheInRange_activate (m.lt_length_of_resolve hr)
  next => exact h

theorem cacheInRange_write (h : m.CacheInRange) {w : Nat} (a : BitVec 64) (n : Nat) (x : BitVec w) :
    (m.write a n x).CacheInRange := by
  unfold write
  split
  next i offset hr =>
    have hi := m.lt_length_of_resolve hr
    split
    · simpa [CacheInRange, activate, storeAt] using hi
    · exact m.cacheInRange_activate hi
  next => exact h

theorem cacheInRange_loadBlock (h : m.CacheInRange) (a : BitVec 64) (n : Nat) :
    (m.loadBlock a n).2.CacheInRange := by
  unfold loadBlock
  split
  next i offset hr => exact m.cacheInRange_activate (m.lt_length_of_resolve hr)
  next => exact h

theorem cacheInRange_storeBlock (h : m.CacheInRange) (a : BitVec 64) (xs : List (BitVec 8)) :
    (m.storeBlock a xs).2.CacheInRange := by
  unfold storeBlock
  split
  next i offset hr => simpa [CacheInRange, activate, storeAt] using m.lt_length_of_resolve hr
  next => exact h

theorem addBlock_eq_ok_iff {m n : Memory} {b : Block} : m.addBlock b = .ok n ↔
    (∀ c ∈ m.blocks, c.overlaps b = false) ∧ n = { m with blocks := m.blocks ++ [b] } := by
  have hany : m.blocks.any (·.overlaps b) = false ↔ ∀ c ∈ m.blocks, c.overlaps b = false := by
    simp
  rw [← hany, addBlock]
  cases m.blocks.any (·.overlaps b) with
  | true => simp
  | false => simp [eq_comm]

theorem cacheInRange_addBlock {m n : Memory} {b : Block} (h : m.CacheInRange) (hn : m.addBlock b = .ok n) :
    n.CacheInRange := by
  obtain ⟨_, rfl⟩ := addBlock_eq_ok_iff.1 hn
  intro i hi
  have hlt := h i hi
  simp only [List.length_append]
  omega

/-- What the loads and stores of an instruction make of a memory, one access after the other. -/
inductive Accesses : Memory → Memory → Prop
  | refl (m : Memory) : Accesses m m
  | read {m m' : Memory} (h : Accesses m m') (a : BitVec 64) (n : Nat) : Accesses m (m'.read a n).2
  | write {m m' : Memory} (h : Accesses m m') {w : Nat} (a : BitVec 64) (n : Nat) (x : BitVec w) :
      Accesses m (m'.write a n x)
  | takeFault {m m' : Memory} (h : Accesses m m') : Accesses m m'.takeFault.2

namespace Accesses

variable {m m' m'' : Memory}

theorem trans (h : Accesses m m') (h' : Accesses m' m'') : Accesses m m'' := by
  induction h' with
  | refl => exact h
  | read _ a n ih => exact ih.read a n
  | write _ a n x ih => exact ih.write a n x
  | takeFault _ ih => exact ih.takeFault

theorem layout (h : Accesses m m') : m'.layout = m.layout := by
  induction h with
  | refl => rfl
  | read _ a n ih => simpa using ih
  | write _ a n x ih => simpa using ih
  | takeFault _ ih => simpa using ih

theorem cacheInRange (h : Accesses m m') (hm : m.CacheInRange) : m'.CacheInRange := by
  induction h with
  | refl => exact hm
  | read _ a n ih => exact cacheInRange_read _ ih a n
  | write _ a n x ih => exact cacheInRange_write _ ih a n x
  | takeFault _ ih => exact ih

end Accesses
end Memory
end AArch64
