import AArch64.Proofs.Vectors.Lanewise

/-! A vector register as one number of 128 bits. A lane of any width is a run of its bits, a write to a lane puts other
bits there and leaves the rest of the number alone, and lanes of different widths meet in the bits they share. -/
namespace AArch64

namespace Lanes

variable {w w' i j start size n : Nat} {u u' v : BitVec 128}

/-- The number `u` is `v` with `n`, as far as it fits, in the `size` bits from bit `start` on. -/
structure Replaces (v : BitVec 128) (start size n : Nat) (u : BitVec 128) : Prop where
  below : u.toNat % 2 ^ start = v.toNat % 2 ^ start
  inside : u.toNat / 2 ^ start % 2 ^ size = n % 2 ^ size
  above : u.toNat / 2 ^ (start + size) = v.toNat / 2 ^ (start + size)

/-- The three parts make up the whole number. -/
theorem Replaces.unique (h : Replaces v start size n u) (h' : Replaces v start size n u') : u = u' := by
  have hparts (x : BitVec 128) : x.toNat =
      2 ^ start * (2 ^ size * (x.toNat / 2 ^ (start + size)) + x.toNat / 2 ^ start % 2 ^ size) + x.toNat % 2 ^ start := by
    rw [Nat.pow_add, ← Nat.div_div_eq_div_mul, Nat.div_add_mod, Nat.div_add_mod]
  apply BitVec.eq_of_toNat_eq
  rw [hparts u, hparts u', h.below, h.inside, h.above, h'.below, h'.inside, h'.above]

theorem toNat_get (v : BitVec 128) (w i : Nat) : (get v w i).toNat = v.toNat / 2 ^ (i * w) % 2 ^ w := by
  rw [get, BitVec.extractLsb'_toNat, Nat.shiftRight_eq_div_pow]

theorem replaces_set (v : BitVec 128) (hrange : (i + 1) * w ≤ 128) (x : BitVec w) :
    Replaces v (i * w) w x.toNat (set v i x) := by
  rw [Nat.succ_mul] at hrange
  constructor <;> refine Nat.eq_of_testBit_eq fun k => ?_ <;>
    simp only [Nat.testBit_mod_two_pow, Nat.testBit_div_two_pow, BitVec.testBit_toNat, getLsbD_set]
  · by_cases hk : k < i * w
    · rw [if_neg (by omega)]
    · simp [hk]
  · by_cases hk : k < w
    · rw [if_pos (by omega), Nat.add_sub_cancel]
    · simp [hk]
  · rw [if_neg (by omega)]

theorem replaces_iff (hrange : (i + 1) * w ≤ 128) : Replaces v (i * w) w n u ↔ u = set v i (BitVec.ofNat w n) := by
  have hset := replaces_set v hrange (BitVec.ofNat w n)
  rw [BitVec.toNat_ofNat] at hset
  have hmod : Replaces v (i * w) w n u ↔ Replaces v (i * w) w (n % 2 ^ w) u := by
    constructor <;> rintro ⟨hbelow, hinside, habove⟩ <;> exact ⟨hbelow, by simpa using hinside, habove⟩
  rw [hmod]
  exact ⟨fun h => h.unique hset, fun h => h ▸ hset⟩

theorem toInt_emod (x : BitVec w) : x.toInt % 2 ^ w = x.toNat := by
  have hlt : (x.toNat : Int) < 2 ^ w := by exact_mod_cast x.isLt
  have hcast : ((2 ^ w : Nat) : Int) = 2 ^ w := by push_cast; rfl
  rw [BitVec.toInt_eq_toNat_bmod, ← hcast, Int.bmod_emod, hcast]
  exact Int.emod_eq_of_lt (Int.natCast_nonneg _) hlt

theorem toNat_clearFrom (v : BitVec 128) {k : Nat} (hk : k ≤ 16) : (clearFrom v k).toNat = v.toNat % 2 ^ (8 * k) := by
  have hle : 2 ^ (8 * k) ≤ 2 ^ 128 := Nat.pow_le_pow_right (by decide) (by omega)
  have hlt := Nat.mod_lt v.toNat (Nat.two_pow_pos (8 * k))
  rw [clearFrom, BitVec.toNat_setWidth, BitVec.toNat_setWidth, Nat.mod_eq_of_lt (Nat.lt_of_lt_of_le hlt hle)]

/-- Lanes of any two widths that have no bit in common. -/
def Apart (w i w' j : Nat) : Prop := (i + 1) * w ≤ j * w' ∨ (j + 1) * w' ≤ i * w

theorem set_comm (v : BitVec 128) (h : Apart w i w' j) (x : BitVec w) (y : BitVec w') :
    set (set v i x) j y = set (set v j y) i x := by
  simp only [Apart, Nat.succ_mul] at h
  apply BitVec.eq_of_getLsbD_eq
  intro k hk
  simp only [getLsbD_set]
  by_cases hi : i * w ≤ k ∧ k < i * w + w ∧ k < 128
  · have hj : ¬(j * w' ≤ k ∧ k < j * w' + w' ∧ k < 128) := by omega
    rw [if_neg hj, if_pos hi, if_pos hi]
  · rw [if_neg hi, if_neg hi]

/-- A read sees what was written in the bits that its lane shares with the one written to, and the old value elsewhere. -/
theorem getLsbD_get_set (v : BitVec 128) (hrange : (i + 1) * w ≤ 128) (x : BitVec w) {k : Nat} (hk : k < w') :
    (get (set v i x) w' j).getLsbD k =
      if i * w ≤ j * w' + k ∧ j * w' + k < (i + 1) * w then x.getLsbD (j * w' + k - i * w)
      else (get v w' j).getLsbD k := by
  rw [Nat.succ_mul] at hrange ⊢
  simp only [get, BitVec.getLsbD_extractLsb', hk, decide_true, Bool.true_and, getLsbD_set]
  by_cases hin : i * w ≤ j * w' + k ∧ j * w' + k < i * w + w
  · rw [if_pos hin, if_pos (by omega)]
  · rw [if_neg hin, if_neg (by omega)]

theorem get?_eq_some (v : BitVec 128) (hrange : (i + 1) * w ≤ 128) : get? v w i = some (get v w i) := by
  simp [get?, inRange, hrange]

theorem set?_eq_some (v : BitVec 128) (hrange : (i + 1) * w ≤ 128) (x : BitVec w) : set? v i x = some (set v i x) := by
  simp [set?, inRange, hrange]

/-- Whatever its width, a lane in the register is there to be read and written, and all lanes show the same number of 128
bits. Reading gives a run of its bits, as a natural number or with a sign. Writing puts the low bits of the new value in
their place, and there is only one number that has them there and is as before elsewhere. A scalar leaves zeros above,
and clearing keeps the low end. So writes to lanes of any widths that do not meet can be exchanged, and a read after a
write sees exactly the bits that the two lanes share. -/
theorem lanes_view_one_number (v : BitVec 128) {w i : Nat} (hrange : (i + 1) * w ≤ 128) (n : Nat) :
    (∃ x, get? v w i = some x ∧ x.toNat = v.toNat / 2 ^ (i * w) % 2 ^ w ∧
      x.toInt % 2 ^ w = (v.toNat / 2 ^ (i * w) % 2 ^ w : Nat) ∧ -2 ^ w ≤ 2 * x.toInt ∧ 2 * x.toInt < 2 ^ w) ∧
      (∃ u, set? v i (BitVec.ofNat w n) = some u ∧ ∀ u', Replaces v (i * w) w n u' ↔ u' = u) ∧
      (scalar (BitVec.ofNat w n)).toNat = n % 2 ^ w ∧
      (∀ k ≤ 16, ∃ u, clearFrom? v k = some u ∧ u.toNat = v.toNat % 2 ^ (8 * k)) ∧
      (sized v false).toNat = v.toNat % 2 ^ 64 ∧ sized v true = v ∧
      (∀ w' j m, (j + 1) * w' ≤ 128 → Apart w i w' j →
        ((set? v i (BitVec.ofNat w n)).bind fun u => set? u j (BitVec.ofNat w' m)) =
          (set? v j (BitVec.ofNat w' m)).bind fun u => set? u i (BitVec.ofNat w n)) ∧
      (∀ w' j, (j + 1) * w' ≤ 128 → ∃ x, ((set? v i (BitVec.ofNat w n)).bind fun u => get? u w' j) = some x ∧
        ∀ k < w', x.getLsbD k =
          if i * w ≤ j * w' + k ∧ j * w' + k < (i + 1) * w then n.testBit (j * w' + k - i * w)
          else v.getLsbD (j * w' + k)) ∧
      (∀ size : ElementSize, ElementSize.ofBits size.bits = size) ∧
      ∀ (g : VectorRegisters) (q r : Register), (g.set r v).get q = if q = r then v else g.get q := by
  have hset := set?_eq_some v hrange (BitVec.ofNat w n)
  refine ⟨⟨_, get?_eq_some v hrange, toNat_get v w i, ?_, BitVec.le_two_mul_toInt, BitVec.two_mul_toInt_lt⟩,
    ⟨_, hset, fun u' => replaces_iff hrange⟩, ?_, fun k hk => ⟨_, if_pos hk, toNat_clearFrom v hk⟩,
    toNat_clearFrom v (k := 8) (by decide), rfl, fun w' j m hrange' hapart => ?_, fun w' j hrange' => ?_,
    ElementSize.ofBits_bits, fun g q r => ?_⟩
  · rw [toInt_emod, toNat_get]
  · have hle : 2 ^ w ≤ 2 ^ 128 := Nat.pow_le_pow_right (by decide) (by rw [Nat.succ_mul] at hrange; omega)
    have hlt := Nat.mod_lt n (Nat.two_pow_pos w)
    rw [scalar, BitVec.toNat_setWidth, BitVec.toNat_ofNat, Nat.mod_eq_of_lt (Nat.lt_of_lt_of_le hlt hle)]
  · rw [hset, set?_eq_some v hrange', Option.bind_some, Option.bind_some, set?_eq_some _ hrange',
      set?_eq_some _ hrange, set_comm v hapart]
  · refine ⟨get (set v i (BitVec.ofNat w n)) w' j, by rw [hset, Option.bind_some, get?_eq_some _ hrange'], fun k hk => ?_⟩
    rw [getLsbD_get_set v hrange _ hk, Nat.succ_mul]
    by_cases hin : i * w ≤ j * w' + k ∧ j * w' + k < i * w + w
    · rw [if_pos hin, if_pos hin, BitVec.getLsbD_ofNat, decide_eq_true (by omega), Bool.true_and]
    · rw [if_neg hin, if_neg hin, get, BitVec.getLsbD_extractLsb', decide_eq_true hk, Bool.true_and]
  · simp [VectorRegisters.get, VectorRegisters.set]

/-- A half word is written over two bytes; the byte above the boundary is then read, and a write to a distant word can as
well come first. -/
theorem lanes_view_one_number_half : let v : BitVec 128 := 0x00112233445566778899AABBCCDDEEFF#128
    set? v 1 0xBEEF#16 = some 0x00112233445566778899AABBBEEFEEFF#128 ∧
      ((set? v 1 0xBEEF#16).bind fun u => get? u 8 3) = some 0xBE#8 ∧
      ((set? v 1 0xBEEF#16).bind fun u => set? u 3 7#32) = (set? v 3 7#32).bind fun u => set? u 1 0xBEEF#16 := by
  intro v
  have hrange : (1 + 1) * 16 ≤ 128 := by decide
  obtain ⟨-, ⟨u, hset, hunique⟩, -, -, -, -, hcomm, hread, -⟩ := lanes_view_one_number v hrange 0xBEEF
  obtain ⟨x, hx, hbits⟩ := hread 8 3 (by decide)
  have hu : 0x00112233445566778899AABBBEEFEEFF#128 = u := (hunique _).1 ⟨by decide, by decide, by decide⟩
  have hbyte : x = 0xBE#8 := BitVec.eq_of_getLsbD_eq fun k hk => (hbits k hk).trans (by
    have hall : ∀ k < 8, (if 1 * 16 ≤ 3 * 8 + k ∧ 3 * 8 + k < (1 + 1) * 16 then
      Nat.testBit 0xBEEF (3 * 8 + k - 1 * 16) else v.getLsbD (3 * 8 + k)) = (0xBE#8).getLsbD k := by decide
    exact hall k hk)
  exact ⟨hset.trans (congrArg some hu.symm), hx.trans (congrArg some hbyte),
    hcomm 32 3 7 (by decide) (.inl (by decide))⟩

end Lanes
end AArch64
