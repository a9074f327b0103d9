import AArch64.Proofs.Memory.Accesses
import Mathlib.Data.List.Pairwise

/-! The addresses of a block, and how far the overlap test tells whether two blocks share one. It is exact for blocks
that are not empty and do not start at the last address of all. It misses a last address that is shared alone, and it
takes an empty block inside another one for an overlap. -/
namespace AArch64

namespace Block

def lastAddress : BitVec 64 := BitVec.allOnes 64

/-- The address lies inside the block. -/
def Contains (b : Block) (x : BitVec 64) : Prop :=
  b.base.toNat ≤ x.toNat ∧ x.toNat < b.base.toNat + b.len

instance (b : Block) (x : BitVec 64) : Decidable (b.Contains x) :=
  inferInstanceAs (Decidable (_ ∧ _))

/-- Some address lies inside both blocks. -/
def Shares (b c : Block) : Prop := ∃ x, b.Contains x ∧ c.Contains x

/-- As `Shares`, leaving the last address out. -/
def SharesBelowLast (b c : Block) : Prop := ∃ x, x ≠ lastAddress ∧ b.Contains x ∧ c.Contains x

/-- An empty block between the first address of another one and its bound. -/
def HollowIn (b c : Block) : Prop :=
  b.len = 0 ∧ c.base.toNat < b.base.toNat ∧ b.base.toNat < c.bound

/-- Blocks that the overlap test is exact for. -/
structure Proper (b : Block) : Prop where
  pos : 0 < b.len
  base : b.base ≠ lastAddress

variable {b c : Block}

theorem ne_lastAddress_iff {x : BitVec 64} : x ≠ lastAddress ↔ x.toNat < 2 ^ 64 - 1 := by
  have hx : x.toNat < 2 ^ 64 := x.isLt
  have hlast : lastAddress.toNat = 2 ^ 64 - 1 := rfl
  rw [ne_eq, ← BitVec.toNat_inj, hlast]
  omega

/-- Of two ranges that meet, the one that starts later starts at a common address. -/
theorem exists_common_start (hb : 0 < b.len) (hc : 0 < c.len) (hbc : b.base.toNat < c.base.toNat + c.len)
    (hcb : c.base.toNat < b.base.toNat + b.len) : ∃ x, (x = b.base ∨ x = c.base) ∧ b.Contains x ∧ c.Contains x := by
  by_cases hle : b.base.toNat ≤ c.base.toNat
  · exact ⟨c.base, .inr rfl, ⟨hle, hcb⟩, Nat.le_refl _, by omega⟩
  · exact ⟨b.base, .inl rfl, ⟨Nat.le_refl _, by omega⟩, by omega, hbc⟩

theorem shares_iff : b.Shares c ↔ 0 < b.len ∧ 0 < c.len ∧ b.base.toNat < c.base.toNat + c.len ∧
    c.base.toNat < b.base.toNat + b.len := by
  constructor
  · rintro ⟨x, ⟨hbx, hxb⟩, hcx, hxc⟩
    omega
  · rintro ⟨hb, hc, hbc, hcb⟩
    obtain ⟨x, _, hx⟩ := exists_common_start hb hc hbc hcb
    exact ⟨x, hx⟩

theorem Shares.symm (h : b.Shares c) : c.Shares b := by
  obtain ⟨x, hb, hc⟩ := h
  exact ⟨x, hc, hb⟩

/-- A last address that is shared alone is the start of one of the two. -/
theorem sharesBelowLast_iff (hb : b.base ≠ lastAddress) (hc : c.base ≠ lastAddress) :
    b.SharesBelowLast c ↔ b.Shares c := by
  constructor
  · rintro ⟨x, _, hx⟩
    exact ⟨x, hx⟩
  · intro h
    obtain ⟨hbl, hcl, hbc, hcb⟩ := shares_iff.1 h
    obtain ⟨x, rfl | rfl, hx⟩ := exists_common_start hbl hcl hbc hcb
    · exact ⟨b.base, hb, hx⟩
    · exact ⟨c.base, hc, hx⟩

/-- A common address of a block that ends below the last address is not the last one. -/
theorem Shares.belowLast (h : b.Shares c) (hc : c.base.toNat + c.len < 2 ^ 64) : b.SharesBelowLast c := by
  obtain ⟨x, hb, hcx, hxc⟩ := h
  exact ⟨x, ne_lastAddress_iff.2 (by omega), hb, hcx, hxc⟩

theorem overlaps_eq_true : b.overlaps c = true ↔ b.base.toNat < c.bound ∧ c.base.toNat < b.bound := by
  simp [overlaps]

theorem overlaps_comm (b c : Block) : b.overlaps c = c.overlaps b := Bool.and_comm _ _

theorem overlaps_iff : b.overlaps c = true ↔ b.SharesBelowLast c ∨ b.HollowIn c ∨ c.HollowIn b := by
  have hb : b.base.toNat < 2 ^ 64 := b.base.isLt
  have hc : c.base.toNat < 2 ^ 64 := c.base.isLt
  rw [overlaps_eq_true]
  constructor
  · rintro ⟨hbc, hcb⟩
    have hbc' : b.base.toNat < c.base.toNat + c.len ∧ b.base.toNat < 2 ^ 64 - 1 := Nat.lt_min.1 hbc
    have hcb' : c.base.toNat < b.base.toNat + b.len ∧ c.base.toNat < 2 ^ 64 - 1 := Nat.lt_min.1 hcb
    by_cases hb0 : b.len = 0
    · exact .inr (.inl ⟨hb0, by omega, hbc⟩)
    by_cases hc0 : c.len = 0
    · exact .inr (.inr ⟨hc0, by omega, hcb⟩)
    refine .inl ((sharesBelowLast_iff ?_ ?_).2 (shares_iff.2 ?_))
    · exact ne_lastAddress_iff.2 hbc'.2
    · exact ne_lastAddress_iff.2 hcb'.2
    · omega
  · have hbound (d : Block) : d.bound = min (d.base.toNat + d.len) (2 ^ 64 - 1) := rfl
    rintro (⟨x, hx, ⟨hbx, hxb⟩, hcx, hxc⟩ | ⟨hlen, hcb, hbc⟩ | ⟨hlen, hbc, hcb⟩)
    · have hlast := ne_lastAddress_iff.1 hx
      rw [hbound, hbound]
      omega
    · have hb0 := hbound b
      exact ⟨hbc, by omega⟩
    · have hc0 := hbound c
      exact ⟨by omega, hcb⟩

theorem not_hollowIn (h : 0 < b.len) : ¬b.HollowIn c := fun hb => Nat.ne_of_gt h hb.1

theorem overlaps_eq_false (hb : 0 < b.len) (hc : 0 < c.len) (h : ¬b.Shares c) : b.overlaps c = false := by
  refine eq_false_of_ne_true fun hover => ?_
  obtain ⟨x, _, hx⟩ | hhollow | hhollow := overlaps_iff.1 hover
  · exact h ⟨x, hx⟩
  · exact not_hollowIn hb hhollow
  · exact not_hollowIn hc hhollow

theorem Proper.overlaps_iff (hb : b.Proper) (hc : c.Proper) : b.overlaps c = true ↔ b.Shares c := by
  rw [Block.overlaps_iff, sharesBelowLast_iff hb.base hc.base]
  simp [not_hollowIn hb.pos, not_hollowIn hc.pos]

end Block

namespace Memory

variable {m n : Memory} {b : Block}

/-- The memory after a block was offered to it. A rejected one leaves it as it was. -/
def offer (m : Memory) (b : Block) : Memory := (m.addBlock b).toOption.getD m

def addBlocks (m : Memory) (bs : List Block) : Memory := bs.foldl offer m

theorem addBlock_error_iff : (∃ o, m.addBlock b = .error o) ↔ ∃ c ∈ m.blocks, c.overlaps b = true := by
  unfold addBlock
  rw [← List.any_eq_true]
  split
  next h => simp [h]
  next h => simp [h]

/-- The overlap test looks at where the blocks lie, not at their order. -/
theorem any_overlaps_eq_layout (m : Memory) (b : Block) : m.blocks.any (·.overlaps b) =
    m.layout.any fun e => ({ base := e.1, len := e.2.1, writable := e.2.2 } : Block).overlaps b := by
  rw [layout, List.any_map]
  rfl

theorem blocks_offer (m : Memory) (b : Block) : (m.offer b).blocks = m.blocks ∨
    (∀ c ∈ m.blocks, c.overlaps b = false) ∧ (m.offer b).blocks = m.blocks ++ [b] := by
  unfold offer
  cases hn : m.addBlock b with
  | error o => exact .inl rfl
  | ok n =>
    obtain ⟨hapart, rfl⟩ := addBlock_eq_ok_iff.1 hn
    exact .inr ⟨hapart, rfl⟩

/-- What a negative overlap test implies holds between all blocks that were added. -/
theorem pairwise_addBlocks {R : Block → Block → Prop} (hR : ∀ c d : Block, c.overlaps d = false → R c d)
    (bs : List Block) (h : m.blocks.Pairwise R) : (m.addBlocks bs).blocks.Pairwise R := by
  induction bs generalizing m with
  | nil => exact h
  | cons b bs ih =>
    refine ih ?_
    obtain hkept | ⟨hapart, hadded⟩ := m.blocks_offer b
    · rwa [hkept]
    · rw [hadded]
      have hlast : ∀ c ∈ m.blocks, R c b := fun c hc => hR c b (hapart c hc)
      exact List.pairwise_append.2 ⟨h, List.pairwise_singleton R b, by simpa using hlast⟩

/-- No block overlaps an earlier one, as far as the test tells. -/
def Admitted (m : Memory) : Prop := m.blocks.Pairwise fun b c => b.overlaps c = false

theorem admitted_addBlocks (bs : List Block) : (({} : Memory).addBlocks bs).Admitted :=
  pairwise_addBlocks (fun _ _ h => h) bs List.Pairwise.nil

/-- An address below the last one is in no two blocks of a memory that was built block by block. -/
theorem Admitted.block_eq (h : m.Admitted) {c : Block} (hb : b ∈ m.blocks) (hc : c ∈ m.blocks) {x : BitVec 64}
    (hx : x ≠ Block.lastAddress) (hbx : b.Contains x) (hcx : c.Contains x) : b = c := by
  by_contra hne
  have : Std.Symm fun b c : Block => b.overlaps c = false := ⟨fun b c hbc => (c.overlaps_comm b).trans hbc⟩
  have hapart : b.overlaps c = false := h.forall hb hc hne
  rw [Block.overlaps_iff.2 (.inl ⟨x, hx, hbx, hcx⟩)] at hapart
  cases hapart

theorem mem_of_mem_addBlocks {c : Block} (bs : List Block) (h : c ∈ (m.addBlocks bs).blocks) :
    c ∈ m.blocks ∨ c ∈ bs := by
  induction bs generalizing m with
  | nil => exact .inl h
  | cons b bs ih =>
    obtain hc | hc := ih h
    · obtain hkept | ⟨_, hadded⟩ := m.blocks_offer b
      · exact .inl (hkept ▸ hc)
      · rw [hadded, List.mem_append, List.mem_singleton] at hc
        exact hc.imp_right fun hcb => List.mem_cons.2 (.inl hcb)
    · exact .inr (List.mem_cons_of_mem b hc)

/-- Two blocks are told to overlap if they share an address below the last one, or if one is empty inside the other.
This is what makes the memory reject a block, and no two blocks that it took share an address below the last one.
For blocks that are not empty and start before the last address this comes down to the addresses they share. -/
theorem overlap_test_exact (a b : Block) (m : Memory) (bs : List Block) :
    (a.overlaps b = true ↔ a.SharesBelowLast b ∨ a.HollowIn b ∨ b.HollowIn a) ∧
      ((∃ o, m.addBlock b = .error o) ↔
        ∃ c ∈ m.blocks, c.SharesBelowLast b ∨ c.HollowIn b ∨ b.HollowIn c) ∧
      (({} : Memory).addBlocks bs).blocks.Pairwise (fun c d => ¬c.SharesBelowLast d) ∧
      (a.Proper → b.Proper → (a.overlaps b = true ↔ a.Shares b)) ∧
      ((∀ c ∈ m.blocks, c.Proper) → b.Proper →
        ((∃ o, m.addBlock b = .error o) ↔ ∃ c ∈ m.blocks, c.Shares b)) ∧
      ((∀ c ∈ bs, c.Proper) → (({} : Memory).addBlocks bs).blocks.Pairwise fun c d => ¬c.Shares d) := by
  have hapart : (({} : Memory).addBlocks bs).blocks.Pairwise fun c d => ¬c.SharesBelowLast d := by
    refine pairwise_addBlocks (fun c d hcd hshares => ?_) bs List.Pairwise.nil
    rw [Block.overlaps_iff.2 (.inl hshares)] at hcd
    cases hcd
  refine ⟨Block.overlaps_iff, ?_, hapart, fun ha hb => ha.overlaps_iff hb, fun hm hb => ?_, fun hbs => ?_⟩
  · rw [addBlock_error_iff]
    simp only [Block.overlaps_iff]
  · rw [addBlock_error_iff]
    exact exists_congr fun c => and_congr_right fun hc => (hm c hc).overlaps_iff hb
  · have hproper (c : Block) (hc : c ∈ (({} : Memory).addBlocks bs).blocks) : c.Proper := by
      obtain hc | hc := mem_of_mem_addBlocks bs hc
      · cases hc
      · exact hbs c hc
    refine hapart.imp_of_mem fun hc hd hcd hshares => hcd ?_
    exact (Block.sharesBelowLast_iff (hproper _ hc).base (hproper _ hd).base).2 hshares

/-- Sixteen bytes at the top of the address space and one more byte at the last address both get their place, although
that address is in both. An empty block is refused inside a block that it shares no address with. -/
theorem overlap_test_misses_last_address :
    let top : Block := { base := 0xFFFFFFFFFFFFFFF0#64, len := 16, writable := true }
    let last : Block := { base := 0xFFFFFFFFFFFFFFFF#64, len := 1, writable := true }
    let low : Block := { base := 0x1000#64, len := 0x100, writable := true }
    let hollow : Block := { base := 0x1050#64, len := 0, writable := true }
    (top.Shares last ∧ top.overlaps last = false ∧ last ∈ (({} : Memory).addBlocks [top, last]).blocks) ∧
      ¬low.Shares hollow ∧ low.overlaps hollow = true := by
  refine ⟨⟨⟨0xFFFFFFFFFFFFFFFF#64, by decide, by decide⟩, by decide, ?_⟩, ?_, by decide⟩
  · exact List.mem_cons_of_mem _ (List.mem_singleton.2 rfl)
  · rw [Block.shares_iff]
    decide

end Memory
end AArch64
