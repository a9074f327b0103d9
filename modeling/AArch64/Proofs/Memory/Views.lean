import AArch64.Proofs.Memory.Ranges

/-! Typed accesses and whole ranges as views of one array of bytes. A write lays its bytes over those of the array, and
every read, of whatever size and wherever it begins, composes what lies there then. -/
namespace AArch64

namespace FlatMemory

variable {f : FlatMemory} {a : BitVec 64} {n y : Nat} {xs : List (BitVec 8)}

/-- One of the blocks has a byte with that number. -/
def Held (f : FlatMemory) (y : Nat) : Prop := ∃ e ∈ f.extents, e.1.toNat ≤ y ∧ y < e.1.toNat + e.2.1

theorem Mapped.held (h : f.Mapped a n) (hlow : a.toNat ≤ y) (hhigh : y < a.toNat + n) : f.Held y := by
  obtain ⟨e, he, hbase, hbound⟩ := h
  exact ⟨e, he, by omega, by omega⟩

/-- There are no bytes but those of the blocks. -/
def ZeroElsewhere (f : FlatMemory) : Prop := ∀ y, ¬f.Held y → f.byte y = 0#8

/-- The array with other bytes from a place on. -/
def overlay (byte : Nat → BitVec 8) (lo : Nat) (xs : List (BitVec 8)) (y : Nat) : BitVec 8 :=
  if lo ≤ y ∧ y < lo + xs.length then xs.getD (y - lo) 0#8 else byte y

theorem byte_put (f : FlatMemory) (a : BitVec 64) (xs : List (BitVec 8)) :
    (f.put a xs).byte = overlay f.byte a.toNat xs := by
  funext y
  rw [put, overlay]
  by_cases hlow : a.toNat ≤ y
  · by_cases hhigh : y < a.toNat + xs.length
    · have hlt : y - a.toNat < xs.length := by omega
      simp [hlow, hhigh, hlt]
    · have hle : xs.length ≤ y - a.toNat := by omega
      simp [hlow, hhigh, hle]
  · simp [hlow]

theorem ZeroElsewhere.put (h : f.ZeroElsewhere) (hmapped : f.Mapped a xs.length) : (f.put a xs).ZeroElsewhere := by
  intro y hy
  rw [byte_put, overlay, if_neg fun hin => hy (hmapped.held hin.1 hin.2)]
  exact h y hy

end FlatMemory

namespace Memory

open FlatMemory (overlay)

variable {m : Memory} {f : FlatMemory} {a b : BitVec 64} {n k : Nat}

theorem zeroElsewhere_flat (m : Memory) : m.flat.ZeroElsewhere := by
  intro y hy
  simp only [flat]
  split
  next c hc =>
    have hin := List.find?_some hc
    rw [decide_eq_true_eq] at hin
    exact absurd ⟨c.extent, List.mem_map_of_mem (List.mem_of_find?_eq_some hc), hin⟩ hy
  next => rfl

/-- A memory has one array only. -/
theorem Represents.byte_flat (h : m.Represents f) (hzero : f.ZeroElsewhere) : m.flat.byte = f.byte := by
  funext y
  by_cases hy : f.Held y
  · obtain ⟨e, he, hlow, hhigh⟩ := hy
    obtain ⟨c, hc, rfl⟩ := h.mem_extents.1 he
    simp only [Block.extent] at hlow hhigh
    have hflat := h.separate.represents_flat.bytes c hc (y - c.base.toNat) (by omega)
    have hbyte := h.bytes c hc (y - c.base.toNat) (by omega)
    rw [Nat.add_sub_cancel' hlow] at hflat hbyte
    rw [← hflat, hbyte]
  · have hflat : ¬m.flat.Held y := by
      rintro ⟨e, he, hin⟩
      exact hy ⟨e, h.layout.mem_iff.1 he, hin⟩
    rw [zeroElsewhere_flat m y hflat, hzero y hy]

theorem mapped_of_layout_eq {m' : Memory} (h : m'.layout = m.layout) : m'.flat.Mapped a n ↔ m.flat.Mapped a n := by
  simp only [FlatMemory.Mapped, flat, h]

/-- What an access that reads `k` bytes from `b` on finds there. -/
structure Sees (m : Memory) (b : BitVec 64) (k : Nat) (byte : Nat → BitVec 8) : Prop where
  word : (m.read b k).1 = Word.ofBytes k fun i => byte (b.toNat + i)
  range : (m.loadBlock b k).1 = .ok ((List.range k).map fun i => byte (b.toNat + i))
  fault : (m.read b k).2.fault = m.fault

theorem Separate.sees (h : m.Separate) (hmapped : m.flat.Mapped b k) : m.Sees b k m.flat.byte := by
  obtain ⟨hread, hafter⟩ := h.represents_flat.read b k
  have hload := (h.represents_flat.loadBlock b k).1
  rw [FlatMemory.read, if_pos hmapped] at hread hafter
  rw [FlatMemory.loadBlock, if_pos hmapped] at hload
  exact ⟨hread, hload, hafter.fault.trans h.represents_flat.fault.symm⟩

/-- An access past the blocks, or across the end of one, gives nothing and says so. -/
theorem Separate.not_sees (h : m.Separate) (hmapped : ¬m.flat.Mapped b k) :
    (m.read b k).1 = 0#(8 * k) ∧ (m.read b k).2.fault = some (m.fault.getD { address := b, size := k, access := .read }) ∧
      (m.loadBlock b k).1 = .error { address := b, size := k, access := .read } := by
  have hresolve : m.resolve b k = none := by
    refine Option.eq_none_iff_forall_ne_some.2 fun hit hhit => hmapped ?_
    exact h.represents_flat.mapped_iff.2 ⟨hit.1, hit.2, hhit⟩
  simp [read, loadBlock, record, hresolve]

theorem Represents.fault_fail (h : m.Represents f) {m' : Memory} {x : Fault} (h' : m'.Represents (f.fail x)) :
    m'.fault = some (m.fault.getD x) := by
  rw [h'.fault, h.fault, FlatMemory.fault, FlatMemory.fault, FlatMemory.fail]
  cases f.failures <;> rfl

/-- What the memory holds when bytes have been put at an address, by a write or by a patch. The blocks are where they were,
so further accesses go the same way. -/
structure Laid (m m' : Memory) (a : BitVec 64) (xs : List (BitVec 8)) : Prop where
  separate : m'.Separate
  layout : m'.layout = m.layout
  byte : m'.flat.byte = overlay m.flat.byte a.toNat xs
  sees : ∀ b k, m.flat.Mapped b k → m'.Sees b k (overlay m.flat.byte a.toNat xs)
  fault : m'.fault = m.fault

theorem Represents.laid {m' : Memory} {xs : List (BitVec 8)} (h : m'.Represents (m.flat.put a xs))
    (hseparate : m.Separate) (hmapped : m.flat.Mapped a xs.length) (hlayout : m'.layout = m.layout) :
    m.Laid m' a xs := by
  have hbyte : m'.flat.byte = overlay m.flat.byte a.toNat xs := by
    rw [h.byte_flat (m.zeroElsewhere_flat.put hmapped), FlatMemory.byte_put]
  refine ⟨h.separate, hlayout, hbyte, fun b k hb => ?_, ?_⟩
  · rw [← hbyte]
    exact h.separate.sees ((mapped_of_layout_eq hlayout).2 hb)
  · rw [h.fault, hseparate.represents_flat.fault]
    rfl

/-- A write to addresses of one writable block puts the bytes of the word there. -/
theorem Separate.laid_write (h : m.Separate) (hn : 0 < n) {w : Nat} (x : BitVec w) (hw : m.flat.Writable a n) :
    m.Laid (m.write a n x) a (Word.bytes n x) := by
  have hafter := h.represents_flat.write a hn x
  rw [FlatMemory.write, if_pos hw] at hafter
  refine hafter.laid h ?_ (m.layout_write a n x)
  rw [Word.length_bytes]
  exact hw.mapped

/-- Any other write fails and changes no byte. -/
theorem Separate.byte_write_of_not_writable (h : m.Separate) (hn : 0 < n) {w : Nat} (x : BitVec w)
    (hw : ¬m.flat.Writable a n) : (m.write a n x).flat.byte = m.flat.byte ∧
      (m.write a n x).fault = some (m.fault.getD { address := a, size := n, access := .write }) := by
  have hafter := h.represents_flat.write a hn x
  rw [FlatMemory.write, if_neg hw] at hafter
  exact ⟨hafter.byte_flat m.zeroElsewhere_flat, h.represents_flat.fault_fail hafter⟩

/-- A patch does not ask whether the block is writable. -/
theorem Separate.laid_storeBlock (h : m.Separate) {xs : List (BitVec 8)} (hmapped : m.flat.Mapped a xs.length) :
    (m.storeBlock a xs).1 = .ok () ∧ m.Laid (m.storeBlock a xs).2 a xs := by
  obtain ⟨hanswer, hafter⟩ := h.represents_flat.storeBlock a xs
  rw [FlatMemory.storeBlock, if_pos hmapped] at hanswer hafter
  exact ⟨hanswer, hafter.laid h hmapped (m.layout_storeBlock a xs)⟩

theorem Separate.byte_storeBlock_of_not_mapped (h : m.Separate) {xs : List (BitVec 8)} (hmapped : ¬m.flat.Mapped a xs.length) :
    (m.storeBlock a xs).1 = .error { address := a, size := xs.length, access := .write } ∧
      (m.storeBlock a xs).2.flat.byte = m.flat.byte := by
  obtain ⟨hanswer, hafter⟩ := h.represents_flat.storeBlock a xs
  rw [FlatMemory.storeBlock, if_neg hmapped] at hanswer hafter
  exact ⟨hanswer, hafter.byte_flat m.zeroElsewhere_flat⟩

/-- Where no two blocks share an address, every typed access and every access to a range is one to a single array of bytes.
A word is read as the bytes from its address on, the least significant first. A write to a writable block lays the bytes of
its word over those of the array, whatever sizes are read afterwards and however they overlap. One to other addresses
changes no byte, while a patch is laid over a read-only block too. An access succeeds exactly where one block holds all its
addresses. -/
theorem accesses_view_one_array (m : Memory) (h : m.Separate) (a b : BitVec 64) {n : Nat} (hn : 0 < n) (k : Nat)
    (x : BitVec (8 * n)) (xs : List (BitVec 8)) :
    (m.flat.Mapped b k → m.Sees b k m.flat.byte) ∧
      (¬m.flat.Mapped b k → (m.read b k).1 = 0#(8 * k) ∧
        (m.read b k).2.fault = some (m.fault.getD { address := b, size := k, access := .read }) ∧
        (m.loadBlock b k).1 = .error { address := b, size := k, access := .read }) ∧
      (m.flat.Writable a n → m.Laid (m.write a n x) a (Word.bytes n x)) ∧
      (¬m.flat.Writable a n → (m.write a n x).flat.byte = m.flat.byte ∧
        (m.write a n x).fault = some (m.fault.getD { address := a, size := n, access := .write })) ∧
      (m.flat.Mapped a xs.length → (m.storeBlock a xs).1 = .ok () ∧ m.Laid (m.storeBlock a xs).2 a xs) ∧
      (¬m.flat.Mapped a xs.length → (m.storeBlock a xs).1 = .error { address := a, size := xs.length, access := .write } ∧
        (m.storeBlock a xs).2.flat.byte = m.flat.byte) :=
  ⟨h.sees, h.not_sees, h.laid_write hn x, h.byte_write_of_not_writable hn x, h.laid_storeBlock,
    h.byte_storeBlock_of_not_mapped⟩

/-- A word at the end of a writable block, read in parts and from a byte before it, and a write and a patch in the read-only
block behind. -/
theorem accesses_view_one_array_across_blocks :
    let m : Memory := {
      blocks := [
        { base := 0x1000#64, len := 0x100, writable := true },
        { base := 0x1100#64, len := 0x100, writable := false }] }
    let written := m.write 0x10F8#64 8 0x1122334455667788#64
    (written.read 0x10FC#64 4).1 = 0x11223344#32 ∧ (written.read 0x10F7#64 2).1 = 0x8800#16 ∧
      (written.loadBlock 0x10FE#64 2).1 = .ok [0x22#8, 0x11#8] ∧ (written.read 0x10FE#64 4).1 = 0#32 ∧
      (m.write 0x1100#64 2 1#16).flat.byte = m.flat.byte ∧
      ((m.storeBlock 0x1100#64 [7#8, 8#8]).2.read 0x1100#64 4).1 = 0x807#32 := by
  intro m written
  have hseparate : m.Separate := separate_iff_layout.2 (by decide)
  have hn : 0 < 8 := by decide
  have hn' : 0 < 2 := by decide
  obtain ⟨-, -, hwrite, -⟩ := accesses_view_one_array m hseparate 0x10F8#64 0#64 hn 0 0x1122334455667788#64 []
  obtain ⟨-, -, -, hrefused, hpatch, -⟩ := accesses_view_one_array m hseparate 0x1100#64 0#64 hn' 0 1#16 [7#8, 8#8]
  have hwritten := hwrite (by decide)
  obtain ⟨-, hacross, -⟩ := accesses_view_one_array written hwritten.separate 0#64 0x10FE#64 hn' 4 1#16 []
  obtain ⟨-, hpatched⟩ := hpatch (by decide)
  have hmapped : ¬written.flat.Mapped 0x10FE#64 4 := mt (mapped_of_layout_eq hwritten.layout).1 (by decide)
  refine ⟨(hwritten.sees 0x10FC#64 4 (by decide)).word.trans (by decide +kernel),
    (hwritten.sees 0x10F7#64 2 (by decide)).word.trans (by decide +kernel),
    (hwritten.sees 0x10FE#64 2 (by decide)).range.trans (congrArg Except.ok (by decide +kernel)), (hacross hmapped).1,
    (hrefused (by decide)).1, (hpatched.sees 0x1100#64 4 (by decide)).word.trans (by decide +kernel)⟩

end Memory
end AArch64
