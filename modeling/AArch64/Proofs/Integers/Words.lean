import AArch64.Proofs.Integers.BitMasks
import Mathlib.Data.Int.ModEq

/-! Fields, rotations and copies in words of 64 bits. A field is a quotient and a remainder of the word as a number, the
amounts of rotations one after the other add up, and the copies of an element are the one word that has the element at
its low end and comes back after a rotation by the size of the element. -/
namespace AArch64

variable {n : Nat}

/-- The signed reading is the number in range that leaves the same remainder as the unsigned one. -/
theorem eq_toInt_iff (x : BitVec (n + 1)) {z : Int} :
    z = x.toInt ↔ -2 ^ n ≤ z ∧ z < 2 ^ n ∧ z ≡ x.toNat [ZMOD 2 ^ (n + 1)] := by
  -- the balanced remainder is bounded by the halves of its modulus
  have hpow : ((2 ^ (n + 1) : Nat) : Int) = 2 * 2 ^ n := by
    rw [Nat.pow_succ']
    push_cast
    rfl
  rw [eq_comm, BitVec.toInt_eq_toNat_bmod, Int.bmod_eq_iff (Nat.two_pow_pos _), Int.modEq_comm, Int.modEq_iff_dvd, hpow,
    Int.pow_succ']
  omega

theorem rotateRight_rotateRight (x : BitVec n) (a b : Nat) : (x.rotateRight a).rotateRight b = x.rotateRight (a + b) := by
  refine BitVec.eq_of_getLsbD_eq fun i hi => ?_
  have hmod := Nat.mod_lt (i + b) (Nat.zero_lt_of_lt hi)
  rw [getLsbD_rotateRight_mod _ _ hi, getLsbD_rotateRight_mod _ _ hmod, getLsbD_rotateRight_mod _ _ hi, Nat.mod_add_mod,
    Nat.add_assoc, Nat.add_comm b a]

theorem rotateRight_mul_self (x : BitVec n) (k : Nat) : x.rotateRight (k * n) = x := by
  refine BitVec.eq_of_getLsbD_eq fun i hi => ?_
  rw [getLsbD_rotateRight_mod _ _ hi, Nat.add_mul_mod_self_right, Nat.mod_eq_of_lt hi]

namespace Bits

variable {hi lo width e i : Nat} {x y : BitVec 64}

theorem toNat_field (x : BitVec 64) (hi lo : Nat) :
    (field x hi lo).toNat = x.toNat / 2 ^ min hi lo % 2 ^ (max hi lo - min hi lo + 1) := by
  have hlt : x.toNat / 2 ^ min hi lo % 2 ^ (max hi lo - min hi lo + 1) < 2 ^ 64 :=
    Nat.lt_of_le_of_lt (Nat.le_trans (Nat.mod_le _ _) (Nat.div_le_self _ _)) x.isLt
  rw [field, slice, BitVec.toNat_setWidth, BitVec.extractLsb_toNat, Nat.shiftRight_eq_div_pow, Nat.mod_eq_of_lt hlt]

theorem getLsbD_field (x : BitVec 64) (hi lo i : Nat) :
    (field x hi lo).getLsbD i = (decide (i < max hi lo - min hi lo + 1) && x.getLsbD (min hi lo + i)) := by
  rw [BitVec.getLsbD, toNat_field, Nat.testBit_mod_two_pow, Nat.testBit_div_two_pow, BitVec.testBit_toNat, Nat.add_comm i]

/-- Ones that stay below bit 64 lose nothing when they are moved up. -/
theorem toNat_ones_shiftLeft {l : Nat} (h : n + l ≤ 64) : (ones n <<< l).toNat = (2 ^ n - 1) * 2 ^ l := by
  have hlt : (2 ^ n - 1) * 2 ^ l < 2 ^ 64 := by
    calc (2 ^ n - 1) * 2 ^ l
      _ < 2 ^ n * 2 ^ l := Nat.mul_lt_mul_of_pos_right (Nat.sub_lt (Nat.two_pow_pos n) Nat.one_pos) (Nat.two_pow_pos l)
      _ = 2 ^ (n + l) := (Nat.pow_add 2 n l).symm
      _ ≤ 2 ^ 64 := Nat.pow_le_pow_right Nat.two_pos h
  have hn : n ≤ 64 := by omega
  rw [ones, BitVec.toNat_shiftLeft, BitVec.toNat_ofNat, Nat.shiftLeft_eq, Nat.mod_mul_mod, Nat.min_eq_left hn,
    Nat.mod_eq_of_lt hlt]

theorem toNat_mask (hhi : hi < 64) (hlo : lo < 64) :
    (mask hi lo).toNat = (2 ^ (max hi lo - min hi lo + 1) - 1) * 2 ^ min hi lo :=
  toNat_ones_shiftLeft (by omega)

/-- A field put back to its place is what the mask keeps of the word. -/
theorem pick_min_eq_and_mask (x : BitVec 64) (hi lo : Nat) : pick x hi lo (min hi lo) = x &&& mask hi lo := by
  refine BitVec.eq_of_getLsbD_eq fun i hlt => ?_
  have hfits : i - min hi lo < 64 := by omega
  rw [pick, mask, BitVec.getLsbD_and, BitVec.getLsbD_shiftLeft, BitVec.getLsbD_shiftLeft, getLsbD_field, getLsbD_ones,
    decide_eq_true hlt, decide_eq_true hfits, Bool.true_and, Bool.and_true]
  by_cases hlow : i < min hi lo
  · simp [hlow]
  · have hplace : min hi lo + (i - min hi lo) = i := by omega
    rw [hplace, decide_eq_false hlow, Bool.not_false, Bool.true_and, Bool.true_and, Bool.and_comm]

theorem eq_signedField_iff (x : BitVec 64) (hi lo : Nat) {z : Int} :
    z = signedField x hi lo ↔ -2 ^ (max hi lo - min hi lo) ≤ z ∧ z < 2 ^ (max hi lo - min hi lo) ∧
      z ≡ (field x hi lo).toNat [ZMOD 2 ^ (max hi lo - min hi lo + 1)] := by
  rw [signedField, eq_toInt_iff, toNat_field, BitVec.extractLsb_toNat, Nat.shiftRight_eq_div_pow]

theorem rotateRight_add (x : BitVec 64) (hwidth : width ≤ 64) (a b : Nat) :
    rotateRight (rotateRight x a width) b width = rotateRight x (a + b) width := by
  rw [rotateRight, rotateRight, BitVec.setWidth_setWidth_of_le _ hwidth, BitVec.setWidth_eq, rotateRight_rotateRight,
    rotateRight]

theorem toNat_rotateRight_mul (x : BitVec 64) (k width : Nat) :
    (rotateRight x (k * width) width).toNat = x.toNat % 2 ^ width := by
  have hlt : x.toNat % 2 ^ width < 2 ^ 64 := Nat.lt_of_le_of_lt (Nat.mod_le _ _) x.isLt
  rw [rotateRight, rotateRight_mul_self, BitVec.toNat_setWidth, BitVec.toNat_setWidth, Nat.mod_eq_of_lt hlt]

/-- Numbers with the same remainder are those with the same low bits. -/
theorem toNat_mod_eq_iff : y.toNat % 2 ^ e = x.toNat % 2 ^ e ↔ ∀ i < e, y.getLsbD i = x.getLsbD i := by
  constructor
  · intro h i hlt
    have hbit : (y.toNat % 2 ^ e).testBit i = (x.toNat % 2 ^ e).testBit i := by rw [h]
    rwa [Nat.testBit_mod_two_pow, Nat.testBit_mod_two_pow, decide_eq_true hlt, Bool.true_and, Bool.true_and] at hbit
  · intro h
    refine Nat.eq_of_testBit_eq fun i => ?_
    rw [Nat.testBit_mod_two_pow, Nat.testBit_mod_two_pow, BitVec.testBit_toNat, BitVec.testBit_toNat]
    by_cases hlt : i < e
    · rw [h i hlt]
    · rw [decide_eq_false hlt, Bool.false_and, Bool.false_and]

theorem getLsbD_add_of_rotateRight_eq (h : rotateRight y e 64 = y) (hlt : i + e < 64) :
    y.getLsbD (i + e) = y.getLsbD i := by
  have hbit := getLsbD_rotateRight y e (show i < 64 by omega)
  rw [h, Nat.mod_eq_of_lt hlt, decide_eq_true (by omega), Bool.true_and] at hbit
  exact hbit.symm

/-- A word that comes back after a rotation has the same bits at every multiple of its amount. -/
theorem getLsbD_add_mul_of_rotateRight_eq (h : rotateRight y e 64 = y) {k : Nat} (hlt : i + k * e < 64) :
    y.getLsbD (i + k * e) = y.getLsbD i := by
  induction k with
  | zero => rw [Nat.zero_mul, Nat.add_zero]
  | succ k ih =>
    rw [Nat.succ_mul, ← Nat.add_assoc] at hlt ⊢
    rw [getLsbD_add_of_rotateRight_eq h hlt, ih (by omega)]

theorem eq_replicate_iff (hdvd : e ∣ 64) :
    y = replicate x e ↔ y.toNat % 2 ^ e = x.toNat % 2 ^ e ∧ rotateRight y e 64 = y := by
  have hpos : 0 < e := Nat.pos_of_dvd_of_pos hdvd (by decide)
  have hle : e ≤ 64 := Nat.le_of_dvd (by decide) hdvd
  constructor
  · rintro rfl
    refine ⟨toNat_mod_eq_iff.2 fun i hlt => ?_, BitVec.eq_of_getLsbD_eq fun i hlt => ?_⟩
    · rw [getLsbD_replicate x hpos (Nat.lt_of_lt_of_le hlt hle), Nat.mod_eq_of_lt hlt]
    · have hmod := Nat.mod_lt (i + e) (show 0 < 64 by decide)
      rw [getLsbD_rotateRight _ _ hlt, getLsbD_replicate x hpos hmod, getLsbD_replicate x hpos hlt,
        Nat.mod_mod_of_dvd _ hdvd, Nat.add_mod_right, decide_eq_true hlt, Bool.true_and]
  · rintro ⟨hlow, hrotate⟩
    refine BitVec.eq_of_getLsbD_eq fun i hlt => ?_
    -- every bit is seen at the low end, where the two words agree
    have hparts : i % e + i / e * e = i := Nat.mod_add_div' i e
    calc y.getLsbD i
      _ = y.getLsbD (i % e + i / e * e) := by rw [hparts]
      _ = y.getLsbD (i % e) := getLsbD_add_mul_of_rotateRight_eq hrotate (hparts.symm ▸ hlt)
      _ = x.getLsbD (i % e) := toNat_mod_eq_iff.1 hlow _ (Nat.mod_lt i hpos)
      _ = (replicate x e).getLsbD i := (getLsbD_replicate x hpos hlt).symm

/-- In whatever order the two bit numbers come, the field between them is a part of the word as a number and the mask
has its ones in that part, so that a field picked to its own place is the word under the mask. Read with a sign, the
field is the only number in the signed range with the right remainder. Rotating the low bits moves each of them down and
round the end, the amounts of two rotations add up, and whole turns leave the low bits alone. The copies of an element
whose size divides 64 are the only word that has the element at its low end and comes back after a rotation by its
size. -/
theorem fields_rotations_copies_exact (x : BitVec 64) :
    (∀ hi lo, hi < 64 → lo < 64 →
      let n := max hi lo - min hi lo + 1
      let l := min hi lo
      (field x hi lo).toNat = x.toNat / 2 ^ l % 2 ^ n ∧ (mask hi lo).toNat = (2 ^ n - 1) * 2 ^ l ∧
        pick x hi lo l = x &&& mask hi lo ∧
        ∀ z : Int, z = signedField x hi lo ↔
          -2 ^ (n - 1) ≤ z ∧ z < 2 ^ (n - 1) ∧ z ≡ (field x hi lo).toNat [ZMOD 2 ^ n]) ∧
      (∀ width, 0 < width → width ≤ 64 →
        (∀ a, ∀ i < width, (rotateRight x a width).getLsbD i = x.getLsbD ((i + a) % width)) ∧
        (∀ a b, rotateRight (rotateRight x a width) b width = rotateRight x (a + b) width) ∧
        ∀ k, (rotateRight x (k * width) width).toNat = x.toNat % 2 ^ width) ∧
      ∀ e, e ∣ 64 → ∀ y, y = replicate x e ↔ y.toNat % 2 ^ e = x.toNat % 2 ^ e ∧ rotateRight y e 64 = y := by
  refine ⟨fun hi lo hhi hlo => ?_, fun width _ hwidth => ⟨fun a i hlt => ?_, ?_, ?_⟩, fun e hdvd y => ?_⟩
  · exact ⟨toNat_field x hi lo, toNat_mask hhi hlo, pick_min_eq_and_mask x hi lo, fun z => eq_signedField_iff x hi lo⟩
  · rw [getLsbD_rotateRight x a hlt, decide_eq_true (Nat.lt_of_lt_of_le hlt hwidth), Bool.true_and]
  · exact rotateRight_add x hwidth
  · exact fun k => toNat_rotateRight_mul x k width
  · exact eq_replicate_iff hdvd

/-- The whole word is a field, and its sign bit counts. Two rotations make a whole turn of the word, which comes back,
and sixteen copies of its low four bits make up another. -/
theorem fields_rotations_copies_exact_whole_word :
    let x : BitVec 64 := 0x8000000000000F12#64
    field x 0 63 = x ∧ signedField x 0 63 = -0x7FFFFFFFFFFFF0EE ∧ mask 4 11 = 0xFF0#64 ∧ pick x 4 11 4 = 0xF10#64 ∧
      rotateRight (rotateRight x 40 64) 24 64 = x ∧ replicate x 4 = 0x2222222222222222#64 := by
  intro x
  obtain ⟨hfields, hrotations, hcopies⟩ := fields_rotations_copies_exact x
  obtain ⟨hfield, -, -, hsigned⟩ := hfields 0 63 (by decide) (by decide)
  obtain ⟨-, hmask, hpick, -⟩ := hfields 4 11 (by decide) (by decide)
  obtain ⟨-, hadd, hturns⟩ := hrotations 64 (by decide) (by decide)
  have hwhole : field x 0 63 = x := BitVec.eq_of_toNat_eq (hfield.trans (by decide))
  have hones : mask 4 11 = 0xFF0#64 := BitVec.eq_of_toNat_eq (hmask.trans (by decide))
  refine ⟨hwhole, ((hsigned _).2 ?_).symm, hones, hpick.trans (by rw [hones]; decide),
    (hadd 40 24).trans (BitVec.eq_of_toNat_eq ((hturns 1).trans (by decide))), ((hcopies 4 (by decide) _).2 ?_).symm⟩
  · rw [hwhole]
    decide
  · exact ⟨by decide, by decide⟩

end Bits
end AArch64
