import AArch64.Interpreter.Integer
import AArch64.Proofs.Integers.LeadingBits
import AArch64.Proofs.Integers.LogicalImmediates
import AArch64.Proofs.Integers.Masked

/-! The masks of the bitfield moves and of the logical immediates, computed step by step in words of 32 bits. No step
leaves its range, and the masks are those of the element size. -/
namespace AArch64

open Masked

namespace BitMasks

theorem toNat_combined (n : Bool) (imms : BitVec 6) : (combined n imms).toNat = (BitVec.ofBool n ++ ~~~imms).toNat := by
  revert n imms
  decide +kernel

theorem size_eq_log2_add_one {c : Nat} (hc : c ≠ 0) : c.size = c.log2 + 1 :=
  Nat.le_antisymm (Nat.size_le.2 Nat.lt_log2_self) (Nat.lt_size.2 (Nat.log2_self_le hc))

theorem toNat_and_levels {k : Nat} (hk : k ≤ 6) (x : BitVec 32) :
    (x &&& BitVec.ofNat 32 (2 ^ k - 1)).toNat = x.toNat % 2 ^ k := by
  have hpow : 2 ^ k ≤ 2 ^ 6 := Nat.pow_le_pow_right Nat.two_pos hk
  rw [BitVec.toNat_and, BitVec.toNat_ofNat, Nat.mod_eq_of_lt (by omega), Nat.and_two_pow_sub_one_eq_mod]

/-- The difference wraps around at 32 bits, which makes no difference to its lowest bits. -/
theorem toNat_sub_and_levels {k : Nat} (hk : k ≤ 6) {s r : BitVec 32} (hr : r.toNat < 2 ^ k) :
    (s - r &&& BitVec.ofNat 32 (2 ^ k - 1)).toNat = (s.toNat + 2 ^ k - r.toNat) % 2 ^ k := by
  obtain ⟨q, hq⟩ : 2 ^ k ∣ 2 ^ 32 := Nat.pow_dvd_pow 2 (by omega)
  have hqpos : 1 ≤ q := Nat.pos_of_ne_zero fun h => by simp [h] at hq
  have hsplit : 2 ^ 32 - r.toNat + s.toNat = s.toNat + 2 ^ k - r.toNat + 2 ^ k * (q - 1) := by
    rw [Nat.mul_sub, Nat.mul_one, ← hq]
    have hle : 2 ^ k ≤ 2 ^ 32 := hq ▸ Nat.le_mul_of_pos_right _ hqpos
    omega
  rw [toNat_and_levels hk, BitVec.toNat_sub, Nat.mod_mod_of_dvd _ ⟨q, hq⟩, hsplit, Nat.add_mul_mod_self_left]

theorem and_levels_beq {k : Nat} (hk : k ≤ 6) (x : BitVec 32) :
    (x &&& BitVec.ofNat 32 (2 ^ k - 1) == BitVec.ofNat 32 (2 ^ k - 1)) = decide (x.toNat % 2 ^ k = 2 ^ k - 1) := by
  have hpow : 2 ^ k ≤ 2 ^ 6 := Nat.pow_le_pow_right Nat.two_pos hk
  have hlevels : (2 ^ k - 1) % 2 ^ 32 = 2 ^ k - 1 := Nat.mod_eq_of_lt (by omega)
  rw [Bool.eq_iff_iff, beq_iff_eq, decide_eq_true_eq, ← BitVec.toNat_inj, toNat_and_levels hk, BitVec.toNat_ofNat, hlevels]

theorem unsigned?_mod_add_one {k : Nat} (hk : k ≤ 6) (x : Nat) : unsigned? 32 (x % 2 ^ k + 1) = some (x % 2 ^ k + 1) := by
  have hpow : 2 ^ k ≤ 2 ^ 6 := Nat.pow_le_pow_right Nat.two_pos hk
  have hlt : x % 2 ^ k < 2 ^ k := Nat.mod_lt _ (Nat.two_pow_pos k)
  exact if_pos (by omega)

theorem toNat_one_shiftLeft {k : Nat} (hk : k ≤ 6) : (1#32 <<< k).toNat = 2 ^ k := by
  have hpow : 2 ^ k ≤ 2 ^ 6 := Nat.pow_le_pow_right Nat.two_pos hk
  rw [BitVec.toNat_shiftLeft, Nat.shiftLeft_eq]
  exact (congrArg (· % 2 ^ 32) (Nat.one_mul _)).trans (Nat.mod_eq_of_lt (by omega))

/-- The zeros in front of the highest set bit, in a word of 32 bits, lead to the element size. -/
theorem combined_cases (n : Bool) (imms : BitVec 6) :
    (combined n imms == 0#32) = true ∧ elementSize? n imms = none ∨
      (combined n imms == 0#32) = false ∧ ∃ k ≤ 6, sub? 31 (combined n imms).clz.toNat = some k ∧
        elementSize? n imms = if k < 1 then none else some (2 ^ k) := by
  have hcombined := toNat_combined n imms
  have hlt : (BitVec.ofBool n ++ ~~~imms).toNat < 2 ^ 7 := BitVec.isLt _
  have hzero : (combined n imms == 0#32) = decide ((BitVec.ofBool n ++ ~~~imms).toNat = 0) := by
    rw [← hcombined, Bool.eq_iff_iff, beq_iff_eq, decide_eq_true_eq, ← BitVec.toNat_inj]
    rfl
  simp only [elementSize?, hzero, LeadingBits.toNat_clz, hcombined]
  generalize (BitVec.ofBool n ++ ~~~imms).toNat = c at hlt
  by_cases hc : c = 0
  · simp [hc]
  have hlog : c.log2 < 7 := (Nat.log2_lt hc).2 hlt
  have hsize : c.size = c.log2 + 1 := size_eq_log2_add_one hc
  have hlen : 31 - (32 - c.size) = c.log2 := by omega
  have hone : c < 2 ↔ c.log2 < 1 := by rw [Nat.log2_lt hc, Nat.pow_one]
  refine .inr ⟨decide_eq_false hc, c.log2, by omega, ?_, by simp only [hone]⟩
  rw [sub?_eq (by omega), hlen]

theorem decode?_eq (n : Bool) (imms immr : BitVec 6) (immediate : Bool) (datasize : Nat) :
    decode? n imms immr immediate datasize = some (decode n imms immr immediate datasize) := by
  obtain ⟨hzero, hnone⟩ | ⟨hne, k, hk, hlen, hsize⟩ := combined_cases n imms
  · simp [decode?, decode, hzero, hnone]
  simp only [decode?, decode, hne, hlen, hsize, Bool.false_eq_true, if_false, Option.bind_eq_bind, Option.bind_some]
  by_cases hk1 : k < 1
  · simp [hk1]
  have hpow : 2 ^ k ≤ 2 ^ 6 := Nat.pow_le_pow_right Nat.two_pos hk
  have hpos : 0 < 2 ^ k := Nat.two_pow_pos k
  have himm (x : BitVec 6) : (x.setWidth 32).toNat = x.toNat := BitVec.toNat_setWidth_of_le (by decide)
  have hs := toNat_and_levels hk (imms.setWidth 32)
  have hr := toNat_and_levels hk (immr.setWidth 32)
  rw [himm] at hs hr
  have hd := toNat_sub_and_levels hk (s := imms.setWidth 32 &&& BitVec.ofNat 32 (2 ^ k - 1)) (hr ▸ Nat.mod_lt _ hpos)
  rw [hs, hr] at hd
  simp only [hk1, if_false, shiftLeft?_eq _ (show k < 32 by omega), Option.bind_some, toNat_one_shiftLeft hk,
    sub?_eq hpos, hs, hr, hd, and_levels_beq hk, himm]
  by_cases hshort : datasize < 2 ^ k
  · simp [hshort]
  by_cases hreserved : immediate = true ∧ imms.toNat % 2 ^ k = 2 ^ k - 1
  · simp [hreserved]
  · have hkept : (immediate && decide (imms.toNat % 2 ^ k = 2 ^ k - 1)) = false := by
      simpa using hreserved
    simp only [hshort, hkept, hreserved, or_self, if_false, Bool.false_eq_true, unsigned?_mod_add_one hk,
      Option.bind_some, ones_eq, rotateRight?_eq _ hpos (show 2 ^ k ≤ 64 by omega), replicate?_eq _ hpos]

theorem immediate?_eq (code : BitVec 13) : immediate? code.toNat = some (value code) := by
  have htable : immediates? = some ((List.range 8192).map fun index => value (BitVec.ofNat 13 index)) := by
    refine Masked.mapM_eq_some _ fun index _ => ?_
    simp only [decode?_eq, Option.map_some]
    rfl
  have hlt : code.toNat < 8192 := code.isLt
  rw [immediate?, htable, Option.bind_eq_bind, Option.bind_some, List.getElem?_map, List.getElem?_range hlt,
    Option.map_some, BitVec.ofNat_toNat, BitVec.setWidth_eq]

end BitMasks

end AArch64
