import AArch64.Integer.Basic
import AArch64.Simd.Lane
import Mathlib.Data.Nat.Size

/-! Counting leading zeros and leading copies of the sign. The general registers and the vectors find the copies of the
sign in different ways, and both count one less than the leading zeros of the number combined with itself moved down by
one bit. -/
namespace AArch64.LeadingBits

variable {n : Nat}

/-- Combined with itself moved down by one bit, a number keeps its length. -/
theorem size_xor_half (z : Nat) : (z ^^^ z / 2).size = z.size := by
  have hlt (k : Nat) (h : z ^^^ z / 2 < 2 ^ k) : z < 2 ^ k := by
    refine Nat.lt_of_not_le fun hle => ?_
    -- the top bit of the number meets a zero
    have hzero : z ≠ 0 := Nat.ne_of_gt (Nat.lt_of_lt_of_le (Nat.two_pow_pos k) hle)
    have htop : (z ^^^ z / 2).testBit z.log2 = true := by
      rw [Nat.testBit_xor, Nat.testBit_div_two, Nat.testBit_log2 hzero, Nat.testBit_lt_two_pow Nat.lt_log2_self]
      rfl
    have hk : k ≤ z.log2 := (Nat.le_log2 hzero).2 hle
    have hpow : 2 ^ k ≤ 2 ^ z.log2 := Nat.pow_le_pow_right (by decide) hk
    exact Nat.not_lt.2 (Nat.ge_two_pow_of_testBit htop) (Nat.lt_of_lt_of_le h hpow)
  have hle : z ^^^ z / 2 < 2 ^ z.size :=
    Nat.xor_lt_two_pow (Nat.lt_size_self z) (Nat.lt_of_le_of_lt (Nat.div_le_self z 2) (Nat.lt_size_self z))
  exact Nat.le_antisymm (Nat.size_le.2 hle) (Nat.size_le.2 (hlt _ (Nat.lt_size_self _)))

theorem toNat_clz (x : BitVec n) : x.clz.toNat = n - x.toNat.size := by
  have hn : (BitVec.ofNat n n).toNat = n := by rw [BitVec.toNat_ofNat, Nat.mod_eq_of_lt Nat.lt_two_pow_self]
  obtain rfl | hzero := Decidable.em (x = 0#n)
  · rw [BitVec.clz_eq_iff_eq_zero.2 rfl]
    simp
  · have hpos : 0 < n := Nat.pos_of_ne_zero fun h => hzero (by subst h; exact BitVec.of_length_zero)
    have hle : x.clz.toNat ≤ n := Nat.le_trans (BitVec.le_def.1 BitVec.clz_le) (Nat.le_of_eq hn)
    have hupper : x.toNat.size ≤ n - x.clz.toNat := Nat.size_le.2 BitVec.toNat_lt_two_pow_sub_clz
    have hlower : n - 1 - x.clz.toNat < x.toNat.size :=
      Nat.lt_size.2 (BitVec.two_pow_sub_clz_le_toNat_of_ne_zero hpos hzero)
    omega

/-- The number combined with itself, shifted down by one bit with a copy of the sign. -/
def changes (x : BitVec n) : BitVec n := x ^^^ x.sshiftRight 1

theorem getLsbD_changes (x : BitVec n) {i : Nat} (hi : i + 1 < n) :
    (changes x).getLsbD i = (x.getLsbD i ^^ x.getLsbD (i + 1)) := by
  rw [changes, BitVec.getLsbD_xor, BitVec.getLsbD_sshiftRight, Nat.add_comm 1 i, if_pos hi,
    decide_eq_false (Nat.not_le.2 (Nat.lt_of_succ_lt hi))]
  rfl

theorem msb_changes (x : BitVec n) : (changes x).msb = false := by
  rw [changes, BitVec.msb_xor, BitVec.msb_sshiftRight, Bool.xor_self]

theorem clz_shiftLeft_or_one {d : BitVec n} (hpos : 0 < n) (h : d.msb = false) :
    (d <<< 1 ||| 1#n).clz.toNat + 1 = d.clz.toNat := by
  have hlt : 2 * d.toNat < 2 ^ n := BitVec.msb_eq_false_iff_two_mul_lt.1 h
  obtain ⟨k, rfl⟩ : ∃ k, n = k + 1 := ⟨n - 1, by omega⟩
  have hvalue : (d <<< 1 ||| 1#(k + 1)).toNat = Nat.bit true d.toNat := by
    have hone : (1#(k + 1)).toNat = 1 := by simp
    rw [BitVec.toNat_or, BitVec.toNat_shiftLeft, Nat.shiftLeft_eq, Nat.pow_one, Nat.mul_comm, Nat.mod_eq_of_lt hlt,
      hone, Nat.bit_val, Bool.toNat_true]
    exact (Nat.two_pow_add_eq_or_of_lt (i := 1) (by decide) d.toNat).symm
  have hsize : (Nat.bit true d.toNat).size = d.toNat.size + 1 := Nat.size_bit (by simp [Nat.bit_val])
  have hroom : d.toNat.size ≤ k := by
    rw [Nat.size_le]
    rw [Nat.pow_succ] at hlt
    omega
  rw [toNat_clz, toNat_clz, hvalue, hsize]
  omega

/-- The way of the general registers, by the bits that differ from the next lower one. -/
theorem leadingSigns_add_one (x : BitVec n) (hpos : 0 < n) :
    (Bits.leadingSigns x).toNat + 1 = (changes x).clz.toNat := by
  have hshift : x ^^^ x <<< 1 ||| 1#n = changes x <<< 1 ||| 1#n := by
    refine BitVec.eq_of_getLsbD_eq fun i hi => ?_
    rw [BitVec.getLsbD_or, BitVec.getLsbD_or, BitVec.getLsbD_xor, BitVec.getLsbD_shiftLeft, BitVec.getLsbD_shiftLeft]
    cases i with
    | zero => simp [hpos]
    | succ i => simp [hi, getLsbD_changes x hi, Bool.xor_comm, -BitVec.getLsbD_eq_getElem]
  rw [Bits.leadingSigns, hshift, clz_shiftLeft_or_one hpos (msb_changes x)]

/-- The way of the vectors, by the complement of a negative number. -/
theorem laneLeadingSigns_add_one (x : BitVec n) (hpos : 0 < n) :
    (Lane.leadingSigns x).toNat + 1 = (changes x).clz.toNat := by
  generalize hz : (if x.msb then ~~~x else x) = z
  have hbit {i : Nat} (hi : i < n) : z.getLsbD i = (x.getLsbD i ^^ x.msb) := by
    rw [← hz]
    cases x.msb
    · rw [Bool.xor_false]
      rfl
    · rw [if_pos rfl, BitVec.getLsbD_not, decide_eq_true hi, Bool.true_and, Bool.xor_true]
  have hmsb : z.msb = false := by
    rw [BitVec.msb_eq_getLsbD_last, hbit (by omega), ← BitVec.msb_eq_getLsbD_last, Bool.xor_self]
  have hchanges : changes x = z ^^^ z >>> 1 := by
    refine BitVec.eq_of_getLsbD_eq fun i hi => ?_
    rw [BitVec.getLsbD_xor, BitVec.getLsbD_ushiftRight, Nat.add_comm 1]
    obtain hnext | hlast : i + 1 < n ∨ n = i + 1 := by omega
    · rw [getLsbD_changes x hnext, hbit hi, hbit hnext]
      cases x.msb <;> simp
    · subst hlast
      have hx := msb_changes x
      rw [BitVec.msb_eq_getLsbD_last, Nat.add_sub_cancel] at hx hmsb
      rw [BitVec.getLsbD_of_ge z _ (Nat.le_refl _), hx, hmsb]
      rfl
  have hclz : (changes x).clz.toNat = z.clz.toNat := by
    rw [hchanges, toNat_clz, toNat_clz, BitVec.toNat_xor, BitVec.toNat_ushiftRight, Nat.shiftRight_eq_div_pow,
      Nat.pow_one, size_xor_half]
  rw [Lane.leadingSigns, hz, hclz, clz_shiftLeft_or_one hpos hmsb]

theorem laneLeadingSigns_eq (x : BitVec n) (hpos : 0 < n) : Lane.leadingSigns x = Bits.leadingSigns x := by
  have h := leadingSigns_add_one x hpos
  rw [← laneLeadingSigns_add_one x hpos] at h
  exact BitVec.eq_of_toNat_eq (by omega)

end AArch64.LeadingBits
