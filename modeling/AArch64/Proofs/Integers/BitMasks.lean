import AArch64.BitMasks

/-! The masks bit by bit. A bit of a repeated element is a bit of the element at the remainder of its number, and a
rotation moves that number round, so a bit of a decoded mask says whether one remainder is inside the run. -/
namespace AArch64

/-- Rotating moves every bit `r` places down and what falls out below comes in on top. -/
theorem getLsbD_rotateRight_mod {n : Nat} (x : BitVec n) (r : Nat) {i : Nat} (hi : i < n) :
    (x.rotateRight r).getLsbD i = x.getLsbD ((i + r) % n) := by
  have hr := Nat.mod_lt r (Nat.zero_lt_of_lt hi)
  rw [BitVec.getLsbD_rotateRight, ← Nat.add_mod_mod]
  by_cases h : i < n - r % n
  · have hlow : (i + r % n) % n = r % n + i := by rw [Nat.mod_eq_of_lt (by omega), Nat.add_comm]
    simp [h, hlow]
  · have hhigh : (i + r % n) % n = i - (n - r % n) := by
      rw [Nat.mod_eq_sub_mod (by omega), Nat.mod_eq_of_lt (by omega)]
      omega
    simp [h, hi, hhigh]

namespace Bits

theorem getLsbD_ones (n i : Nat) : (ones n).getLsbD i = (decide (i < n) && decide (i < 64)) := by
  rw [ones, BitVec.getLsbD_ofNat, Nat.testBit_two_pow_sub_one, ← Bool.decide_and, ← Bool.decide_and]
  exact decide_eq_decide.2 (by omega)

theorem getLsbD_replicate (x : BitVec 64) {e i : Nat} (he : 0 < e) (hi : i < 64) :
    (replicate x e).getLsbD i = x.getLsbD (i % e) := by
  -- there are enough copies to reach bit 63
  have hcover : i < e * ((64 + e - 1) / e) := by
    have h := Nat.lt_mul_div_succ (64 + e - 1) he
    rw [Nat.mul_succ] at h
    omega
  rw [replicate, BitVec.getLsbD_setWidth, BitVec.getLsbD_replicate, BitVec.getLsbD_setWidth]
  simp only [hi, hcover, Nat.mod_lt i he, decide_true, Bool.true_and]

theorem getLsbD_rotateRight (x : BitVec 64) (r : Nat) {e i : Nat} (hi : i < e) :
    (rotateRight x r e).getLsbD i = (decide (i < 64) && x.getLsbD ((i + r) % e)) := by
  have hmod := Nat.mod_lt (i + r) (Nat.zero_lt_of_lt hi)
  simp [rotateRight, getLsbD_rotateRight_mod _ _ hi, hmod]

end Bits

namespace BitMasks

open Bits

/-- The number in whose highest set bit the element size is found. -/
theorem toNat_lengthCode (n : Bool) (imms : BitVec 6) :
    (BitVec.ofBool n ++ ~~~imms).toNat = 64 * n.toNat + (63 - imms.toNat) := by
  have h : (~~~imms).toNat < 2 ^ 6 := BitVec.isLt _
  rw [BitVec.toNat_append, ← Nat.shiftLeft_add_eq_or_of_lt h, BitVec.toNat_not, BitVec.toNat_ofBool, Nat.shiftLeft_eq,
    Nat.mul_comm]

theorem elementSize?_eq_some {n : Bool} {imms : BitVec 6} {e : Nat} :
    elementSize? n imms = some e ↔ ∃ k, 0 < k ∧ e = 2 ^ k ∧ 2 ^ k ≤ 64 * n.toNat + (63 - imms.toNat) ∧
      64 * n.toNat + (63 - imms.toNat) < 2 ^ (k + 1) := by
  rw [elementSize?, toNat_lengthCode]
  generalize 64 * n.toNat + (63 - imms.toNat) = c
  constructor
  · intro h
    split at h
    next => cases h
    next hc =>
      obtain rfl := Option.some.inj h
      have hlog := (Nat.log2_eq_iff (by omega : c ≠ 0)).1 rfl
      exact ⟨c.log2, (Nat.le_log2 (by omega)).2 (by omega), rfl, hlog⟩
  · rintro ⟨k, hk, rfl, hlog⟩
    have hc : 2 ≤ c := Nat.le_trans (Nat.pow_le_pow_right Nat.two_pos hk) hlog.1
    rw [(Nat.log2_eq_iff (by omega)).2 hlog]
    exact if_neg (by omega)

theorem getLsbD_run (len : Nat) {e i : Nat} (he : 0 < e) (he64 : e ≤ 64) (hi : i < 64) :
    (replicate (ones len) e).getLsbD i = decide (i % e < len) := by
  have hmod := Nat.lt_of_lt_of_le (Nat.mod_lt i he) he64
  rw [getLsbD_replicate _ he hi, getLsbD_ones, decide_eq_true hmod, Bool.and_true]

theorem getLsbD_rotatedRun (len r : Nat) {e i : Nat} (he : 0 < e) (he64 : e ≤ 64) (hi : i < 64) :
    (replicate (rotateRight (ones len) r e) e).getLsbD i = decide ((i + r) % e < len) := by
  have hmod := Nat.mod_lt i he
  have hmod' := Nat.lt_of_lt_of_le (Nat.mod_lt (i + r) he) he64
  rw [getLsbD_replicate _ he hi, getLsbD_rotateRight _ _ hmod, getLsbD_ones, Nat.mod_add_mod,
    decide_eq_true (Nat.lt_of_lt_of_le hmod he64), decide_eq_true hmod', Bool.true_and, Bool.and_true]

/-- Decoding fails where the element does not fit into the data or an immediate would be all ones, and gives the two
runs otherwise. -/
theorem decode_eq {n : Bool} {imms immr : BitVec 6} {e : Nat} (he : elementSize? n imms = some e) (immediate : Bool)
    (datasize : Nat) :
    decode n imms immr immediate datasize =
      if datasize < e ∨ (immediate ∧ imms.toNat % e = e - 1) then none
      else
        some (replicate (rotateRight (ones (imms.toNat % e + 1)) (immr.toNat % e) e) e &&& ones datasize,
          replicate (ones ((imms.toNat % e + e - immr.toNat % e) % e + 1)) e &&& ones datasize) := by
  simp [decode, he]

end BitMasks
end AArch64
