import AArch64.Proofs.Memory.Flat

/-! Accesses to ranges of addresses. What a write has put into its range is read back, and it leaves the rest of the
memory alone. -/
namespace AArch64

namespace Word

variable {w : Nat}

theorem compose_byte (n : Nat) (x : BitVec w) : compose n (byte x) = x.toNat % 2 ^ (8 * n) := by
  induction n generalizing x with
  | zero => simp [compose, Nat.mod_one]
  | succ n ih =>
    have hbyte (i : Nat) : byte x (i + 1) = byte (x >>> 8) i := by
      apply BitVec.eq_of_getLsbD_eq
      intro k hk
      simp only [byte, BitVec.getLsbD_extractLsb', BitVec.getLsbD_ushiftRight]
      congr 2
      omega
    have hlow : (byte x 0).toNat = x.toNat % 256 := by
      simp [byte]
    have hrest : compose n (fun i => byte x (i + 1)) = x.toNat / 256 % 2 ^ (8 * n) := by
      simp only [hbyte]
      rw [ih, BitVec.toNat_ushiftRight, Nat.shiftRight_eq_div_pow]
    rw [compose, hlow, hrest, Nat.mul_succ, Nat.add_comm (8 * n), Nat.pow_add, Nat.mod_mul]

/-- The bytes of a number make up its low end. -/
theorem ofBytes_byte (n : Nat) (x : BitVec w) : ofBytes n (byte x) = x.setWidth (8 * n) := by
  apply BitVec.eq_of_toNat_eq
  rw [ofBytes, compose_byte, BitVec.toNat_ofNat, BitVec.toNat_setWidth, Nat.mod_mod]

theorem ofBytes_congr {n : Nat} {f g : Nat → BitVec 8} (h : ∀ i < n, f i = g i) : ofBytes n f = ofBytes n g :=
  congrArg (BitVec.ofNat (8 * n)) (compose_congr h)

theorem byte_ofBytes {n i : Nat} (f : Nat → BitVec 8) (hi : i < n) : byte (ofBytes n f) i = f i := by
  have hcompose : compose n f / 2 ^ (8 * i) % 2 ^ 8 = (f i).toNat := by
    induction n generalizing f i with
    | zero => exact absurd hi (Nat.not_lt_zero i)
    | succ n ih =>
      have hbyte : (f 0).toNat < 256 := (f 0).isLt
      rw [compose]
      cases i with
      | zero => omega
      | succ i =>
        rw [Nat.mul_succ, Nat.add_comm (8 * i), Nat.pow_add, ← Nat.div_div_eq_div_mul,
          ← ih (fun i => f (i + 1)) (Nat.lt_of_succ_lt_succ hi)]
        congr 2
        omega
  apply BitVec.eq_of_toNat_eq
  rw [byte, BitVec.extractLsb'_toNat, ofBytes, BitVec.toNat_ofNat, Nat.mod_eq_of_lt (compose_lt n f),
    Nat.shiftRight_eq_div_pow, hcompose]

/-- A word of another width has the same bytes, as far as it goes. -/
theorem bytes_setWidth_of_le {v n : Nat} (x : BitVec w) (hw : 8 * n ≤ v) : bytes n (x.setWidth v) = bytes n x := by
  refine List.map_congr_left fun i hi => BitVec.eq_of_getLsbD_eq fun k hk => ?_
  rw [List.mem_range] at hi
  have hlt : 8 * i + k < v := by omega
  simp [byte, hk, hlt]

theorem bytes_ofBytes (n : Nat) (f : Nat → BitVec 8) : bytes n (ofBytes n f) = (List.range n).map f :=
  List.map_congr_left fun _ hi => byte_ofBytes f (List.mem_range.1 hi)

theorem bytes_and (n : Nat) (x y : BitVec w) : bytes n (x &&& y) = List.zipWith (· &&& ·) (bytes n x) (bytes n y) := by
  have hbyte (i : Nat) : byte (x &&& y) i = byte x i &&& byte y i := BitVec.extractLsb'_and
  simp [bytes, List.zipWith_map, hbyte, List.zipWith_self]

theorem getElem?_bytes (n : Nat) (x : BitVec w) (i : Nat) :
    (bytes n x)[i]? = if i < n then some (byte x i) else none := by
  by_cases h : i < n <;> simp [bytes, h]

end Word

namespace Memory

variable {m m' m'' : Memory} {a : BitVec 64} {n i offset : Nat}

theorem write_of_resolve (hr : m.resolve a n = some (i, offset)) (hw : m.writableAt i = true) {k : Nat} (x : BitVec k) :
    m.write a n x = (m.activate i).storeAt i offset (Word.bytes n x) := by
  simp [write, hr, hw]

theorem read_of_resolve (hr : m.resolve a n = some (i, offset)) :
    m.read a n = (Word.ofBytes n fun k => m.byteAt i (offset + k), m.activate i) := by
  simp [read, hr]

theorem byteAt_storeAt {b : Block} (hb : m.blocks[i]? = some b) (xs : List (BitVec 8)) (j o : Nat) :
    (m.storeAt i offset xs).byteAt j o =
      if j = i ∧ offset ≤ o then xs[o - offset]?.getD (m.byteAt j o) else m.byteAt j o := by
  simp only [byteAt, storeAt, List.getElem?_modify]
  by_cases hj : i = j
  · subst hj
    simp [hb, Block.byte_store]
  · simp [hj, Ne.symm hj]

theorem byteAt_write (hr : m.resolve a n = some (i, offset)) (hw : m.writableAt i = true) {k : Nat} (x : BitVec k)
    (j o : Nat) : (m.write a n x).byteAt j o =
      if j = i ∧ offset ≤ o ∧ o < offset + n then Word.byte x (o - offset) else m.byteAt j o := by
  obtain ⟨b, hb, _⟩ := m.exists_block_of_resolve hr
  have hbytes : (m.activate i).byteAt j o = m.byteAt j o := rfl
  rw [write_of_resolve hr hw, byteAt_storeAt (m := m.activate i) hb, Word.getElem?_bytes, hbytes]
  grind

/-- A block has a counterpart at the same place in a memory of the same layout. -/
theorem exists_block_of_layout_eq (hlayout : m'.layout = m.layout) {b : Block} (hb : m.blocks[i]? = some b) :
    ∃ b', m'.blocks[i]? = some b' ∧ b'.extent = b.extent := by
  have hextent : m'.layout[i]? = some b.extent := by
    rw [hlayout, layout, List.getElem?_map, hb, Option.map_some]
  rw [layout, List.getElem?_map] at hextent
  exact Option.map_eq_some_iff.1 hextent

/-- The blocks are where they were, and the bytes that differ have addresses among the `n` from `a` on. -/
structure AgreeOutside (a n : Nat) (m m' : Memory) : Prop where
  layout : m'.layout = m.layout
  bytes : ∀ i b, m.blocks[i]? = some b → ∀ o, ¬(a ≤ b.base.toNat + o ∧ b.base.toNat + o < a + n) →
    m'.byteAt i o = m.byteAt i o

namespace AgreeOutside

theorem refl (a n : Nat) (m : Memory) : AgreeOutside a n m m := ⟨rfl, fun _ _ _ _ _ => rfl⟩

theorem mono {a n a' n' : Nat} (h : AgreeOutside a' n' m m') (ha : a ≤ a') (hn : a' + n' ≤ a + n) :
    AgreeOutside a n m m' :=
  ⟨h.layout, fun i b hb o ho => h.bytes i b hb o (by omega)⟩

theorem trans {a n : Nat} (h : AgreeOutside a n m m') (h' : AgreeOutside a n m' m'') : AgreeOutside a n m m'' where
  layout := h'.layout.trans h.layout
  bytes i b hb o ho := by
    obtain ⟨b', hb', hextent⟩ := exists_block_of_layout_eq h.layout hb
    have hbase : b'.base = b.base := congrArg Prod.fst hextent
    rw [h'.bytes i b' hb' o (by rwa [hbase]), h.bytes i b hb o ho]

theorem read (m : Memory) (a : BitVec 64) (n : Nat) (lo len : Nat) : AgreeOutside lo len m (m.read a n).2 := by
  refine ⟨m.layout_read a n, fun i b hb o ho => ?_⟩
  unfold Memory.read
  split <;> rfl

theorem write (m : Memory) (a : BitVec 64) (n : Nat) {k : Nat} (x : BitVec k) :
    AgreeOutside a.toNat n m (m.write a n x) := by
  refine ⟨m.layout_write a n x, fun j b hb o ho => ?_⟩
  cases hr : m.resolve a n with
  | none => simp [Memory.write, hr, record, byteAt]
  | some hit =>
    obtain ⟨i, offset⟩ := hit
    cases hw : m.writableAt i with
    | false => simp [Memory.write, hr, hw, record, activate, byteAt]
    | true =>
      rw [byteAt_write hr hw, if_neg]
      rintro ⟨rfl, hin⟩
      obtain ⟨c, hc, hoffset⟩ := m.exists_block_of_resolve hr
      obtain rfl := Option.some.inj (hb.symm.trans hc)
      obtain ⟨hle, rfl, _⟩ := Block.offset?_eq_some.1 hoffset
      omega

end AgreeOutside

theorem locate_of_layout_eq (hlayout : m'.layout = m.layout) (i : Nat) (a : BitVec 64) (n : Nat) :
    m'.locate i a n = m.locate i a n := by
  have hblock : (m'.blocks[i]?).map Block.extent = (m.blocks[i]?).map Block.extent := by
    rw [← List.getElem?_map, ← List.getElem?_map]
    exact congrArg (·[i]?) hlayout
  have hoffset (b : Block) : b.offset? a n =
      if b.extent.1.toNat ≤ a.toNat ∧ a.toNat - b.extent.1.toNat + n ≤ b.extent.2.1 then
        some (a.toNat - b.extent.1.toNat) else none := rfl
  unfold locate
  cases hb : m.blocks[i]? <;> cases hb' : m'.blocks[i]? <;> simp_all

theorem resolve_of_active (hactive : m.active = some i) (hl : m.locate i a n = some (i, offset)) :
    m.resolve a n = some (i, offset) := by
  simp [resolve, hactive, hl]

theorem locate_of_resolve (hr : m.resolve a n = some (i, offset)) : m.locate i a n = some (i, offset) := by
  obtain ⟨b, hb, ho⟩ := m.exists_block_of_resolve hr
  simp [locate, hb, ho]

theorem active_write (hr : m.resolve a n = some (i, offset)) (hw : m.writableAt i = true) {k : Nat} (x : BitVec k) :
    (m.write a n x).active = some i := by
  rw [write_of_resolve hr hw]
  rfl

/-- A write that succeeds has moved the cache to the block that holds what is read back. -/
theorem read_write (hr : m.resolve a n = some (i, offset)) (hw : m.writableAt i = true) {k : Nat} (x : BitVec k) :
    (m.write a n x).read a n = (x.setWidth (8 * n), m.write a n x) := by
  have hactive := active_write hr hw x
  have hresolve : (m.write a n x).resolve a n = some (i, offset) := by
    refine resolve_of_active hactive ?_
    rw [locate_of_layout_eq (m.layout_write a n x)]
    exact locate_of_resolve hr
  have hbytes : (Word.ofBytes n fun k => (m.write a n x).byteAt i (offset + k)) = Word.ofBytes n (Word.byte x) := by
    refine Word.ofBytes_congr fun k hk => ?_
    rw [byteAt_write hr hw, if_pos ⟨rfl, by omega, by omega⟩, Nat.add_sub_cancel_left]
  rw [read_of_resolve hresolve, hbytes, Word.ofBytes_byte, activate, ← hactive]

theorem write_setWidth (m : Memory) (a : BitVec 64) (n : Nat) {k : Nat} (x : BitVec k) :
    m.write a n (x.setWidth (8 * n)) = m.write a n x := by
  simp only [write, Word.bytes_setWidth_of_le x (Nat.le_refl _)]

open FlatMemory (Covers)

/-- The `n` addresses from `a` on lie in a block. If their first `k` lie in another block as well, that one does as well
as the first, whichever of them an access goes to. -/
structure WritableFrom (m : Memory) (a : BitVec 64) (k n : Nat) : Prop where
  covered : ∃ b ∈ m.blocks, Covers b.extent a n
  whole : ∀ b ∈ m.blocks, Covers b.extent a k → b.writable = true ∧ Covers b.extent a n

/-- The addresses of one access. -/
abbrev WritableRange (m : Memory) (a : BitVec 64) (n : Nat) : Prop := m.WritableFrom a n n

/-- In a memory that was built block by block, one writable block is enough. Only the last address can be in another
one as well. -/
theorem Admitted.writableFrom (h : m.Admitted) {k : Nat} (hk : 0 < k) (hkn : k ≤ n) {b : Block} (hb : b ∈ m.blocks)
    (hw : b.writable = true) (hcovers : Covers b.extent a n)
    (hlast : a = Block.lastAddress → ∀ c ∈ m.blocks, c.Contains a → c = b) : m.WritableFrom a k n where
  covered := ⟨b, hb, hcovers⟩
  whole c hc hfirst := by
    have hcontains {d : Block} {l : Nat} (hl : 0 < l) (hd : Covers d.extent a l) : d.Contains a :=
      ⟨hd.1, Nat.lt_of_lt_of_le (Nat.lt_add_of_pos_right hl) hd.2⟩
    obtain rfl : c = b := by
      by_cases ha : a = Block.lastAddress
      · exact hlast ha c hc (hcontains hk hfirst)
      · exact h.block_eq hc hb ha (hcontains hk hfirst) (hcontains (Nat.lt_of_lt_of_le hk hkn) hcovers)
    exact ⟨hw, hcovers⟩

/-- Two bytes or more do not start at the last address. -/
theorem Admitted.writableFrom_of_two_le (h : m.Admitted) (hn : 2 ≤ n) (hfits : a.toNat + n ≤ 2 ^ 64) {k : Nat}
    (hk : 0 < k) (hkn : k ≤ n) {b : Block} (hb : b ∈ m.blocks) (hw : b.writable = true)
    (hcovers : Covers b.extent a n) : m.WritableFrom a k n :=
  h.writableFrom hk hkn hb hw hcovers fun ha => absurd ha (Block.ne_lastAddress_iff.2 (by omega))

theorem WritableFrom.exists_resolve {k : Nat} (h : m.WritableFrom a k n) (hk : k ≤ n) : ∃ i offset b,
    m.resolve a k = some (i, offset) ∧ m.blocks[i]? = some b ∧ b.writable = true ∧ Covers b.extent a n := by
  obtain ⟨b, hb, hle, hbound⟩ := h.covered
  obtain ⟨i, offset, hr⟩ := exists_resolve_of_covers (k := k) hb ⟨hle, by omega⟩
  obtain ⟨c, hc, ho⟩ := m.exists_block_of_resolve hr
  have hwhole := h.whole c (List.mem_of_getElem? hc) (Block.offset?_eq_some_iff_covers.1 ho).1
  exact ⟨i, offset, c, hr, hc, hwhole⟩

theorem writableAt_of_block {b : Block} (hb : m.blocks[i]? = some b) (hw : b.writable = true) :
    m.writableAt i = true := by
  rw [writableAt, hb]
  exact hw

theorem WritableRange.exists_resolve (h : m.WritableRange a n) :
    ∃ i offset, m.resolve a n = some (i, offset) ∧ m.writableAt i = true := by
  obtain ⟨i, offset, b, hr, hb, hw, _⟩ := WritableFrom.exists_resolve h (Nat.le_refl n)
  exact ⟨i, offset, hr, writableAt_of_block hb hw⟩

theorem fault_write (hr : m.resolve a n = some (i, offset)) (hw : m.writableAt i = true) {k : Nat} (x : BitVec k) :
    (m.write a n x).fault = m.fault := by
  rw [write_of_resolve hr hw]
  rfl

theorem fault_read (hr : m.resolve a n = some (i, offset)) : (m.read a n).2.fault = m.fault := by
  rw [read_of_resolve hr]
  rfl

theorem active_read (hr : m.resolve a n = some (i, offset)) : (m.read a n).2.active = some i := by
  rw [read_of_resolve hr]
  rfl

/-- A write can as well start from the block that it is going to use. -/
theorem write_activate (hr : m.resolve a n = some (i, offset)) (hw : m.writableAt i = true) {k : Nat} (x : BitVec k) :
    (m.activate i).write a n x = m.write a n x := by
  have hr' : (m.activate i).resolve a n = some (i, offset) := by
    refine resolve_of_active rfl ?_
    rw [locate_of_layout_eq (m.layout_activate i)]
    exact locate_of_resolve hr
  rw [write_of_resolve hr hw, write_of_resolve hr' hw]
  rfl

/-- Block `i` was used last, can be written to and covers the `n` addresses from `a` on. As long as the accesses stay
there, no other block is asked. -/
structure ServedBy (m : Memory) (i a n : Nat) : Prop where
  active : m.active = some i
  covered : ∃ b, m.blocks[i]? = some b ∧ b.writable = true ∧ b.base.toNat ≤ a ∧ a + n ≤ b.base.toNat + b.len

namespace ServedBy

variable {lo len : Nat}

theorem of_layout_eq (h : m.ServedBy i lo len) (hlayout : m'.layout = m.layout) (hactive : m'.active = some i) :
    m'.ServedBy i lo len := by
  obtain ⟨b, hb, hw, hcovers⟩ := h.covered
  obtain ⟨b', hb', hextent⟩ := exists_block_of_layout_eq hlayout hb
  obtain ⟨hbase, hlen, hwritable⟩ : b'.base = b.base ∧ b'.len = b.len ∧ b'.writable = b.writable := by
    simpa [Block.extent] using hextent
  exact ⟨hactive, b', hb', by rwa [hwritable], by rwa [hbase, hlen]⟩

theorem writableAt (h : m.ServedBy i lo len) : m.writableAt i = true := by
  obtain ⟨b, hb, hw, _⟩ := h.covered
  exact writableAt_of_block hb hw

theorem resolve (h : m.ServedBy i lo len) {b : Block} (hb : m.blocks[i]? = some b) (hlo : lo ≤ a.toNat)
    (hhi : a.toNat + n ≤ lo + len) : m.resolve a n = some (i, a.toNat - b.base.toNat) := by
  obtain ⟨c, hc, -, hbase, hbound⟩ := h.covered
  obtain rfl := Option.some.inj (hb.symm.trans hc)
  have ho : b.offset? a n = some (a.toNat - b.base.toNat) := Block.offset?_eq_some.2 (by omega)
  exact resolve_of_active h.active (by simp [locate, hb, ho])

theorem write (h : m.ServedBy i lo len) (hlo : lo ≤ a.toNat) (hhi : a.toNat + n ≤ lo + len) {k : Nat} (x : BitVec k) :
    (m.write a n x).ServedBy i lo len ∧ (m.write a n x).fault = m.fault ∧
      (m.write a n x).read a n = (x.setWidth (8 * n), m.write a n x) := by
  obtain ⟨b, hb, -⟩ := h.covered
  have hr := h.resolve hb hlo hhi
  have hw := h.writableAt
  exact ⟨h.of_layout_eq (m.layout_write a n x) (active_write hr hw x), fault_write hr hw x, read_write hr hw x⟩

theorem read (h : m.ServedBy i lo len) (hlo : lo ≤ a.toNat) (hhi : a.toNat + n ≤ lo + len) :
    (m.read a n).2.ServedBy i lo len ∧ (m.read a n).2.fault = m.fault := by
  obtain ⟨b, hb, -⟩ := h.covered
  have hr := h.resolve hb hlo hhi
  exact ⟨h.of_layout_eq (m.layout_read a n) (active_read hr), fault_read hr⟩

end ServedBy

/-- What has changed elsewhere in a block cannot be seen in a range of it. -/
theorem AgreeOutside.read_eq {lo len lo' len' : Nat} (h : AgreeOutside lo' len' m m') (hs : m.ServedBy i lo len)
    (hs' : m'.ServedBy i lo len) (hlo : lo ≤ a.toNat) (hhi : a.toNat + n ≤ lo + len)
    (hapart : a.toNat + n ≤ lo' ∨ lo' + len' ≤ a.toNat) : (m'.read a n).1 = (m.read a n).1 := by
  obtain ⟨b, hb, -, hbase, -⟩ := hs.covered
  obtain ⟨b', hb', hextent⟩ := exists_block_of_layout_eq h.layout hb
  have heq : b'.base = b.base := congrArg Prod.fst hextent
  have hr := hs.resolve hb hlo hhi
  have hr' := hs'.resolve hb' hlo hhi
  rw [heq] at hr'
  rw [read_of_resolve hr, read_of_resolve hr']
  refine Word.ofBytes_congr fun k hk => h.bytes i b hb _ ?_
  omega

end Memory
end AArch64
