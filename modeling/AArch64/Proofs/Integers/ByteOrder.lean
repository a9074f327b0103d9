import AArch64.Integer.Basic
import AArch64.Proofs.Memory.Ranges
import AArch64.Proofs.Vectors.Permutations

/-! Reversing the order of bits, and of bytes within containers of two, four or eight of them. However a reversal is
computed, byte `i` of the result is the byte that is as far from the other end of its container. -/
namespace AArch64

namespace Word

variable {w n : Nat}

theorem eq_of_bytes {x y : BitVec w} (hw : n * 8 = w) (h : ∀ i < n, byte x i = byte y i) : x = y := by
  refine Lanes.eq_of_lanes hw fun i hi => ?_
  rw [Nat.mul_comm]
  exact h i hi

theorem getLsbD_byte (x : BitVec w) (i : Nat) {j : Nat} (hj : j < 8) : (byte x i).getLsbD j = x.getLsbD (8 * i + j) := by
  rw [byte, BitVec.getLsbD_extractLsb', decide_eq_true hj, Bool.true_and]

theorem byte_reverse (x : BitVec w) {i : Nat} (hw : n * 8 = w) (hi : i < n) :
    byte x.reverse i = (byte x (n - 1 - i)).reverse := by
  refine BitVec.eq_of_getLsbD_eq fun j hj => ?_
  rw [getLsbD_byte _ _ hj, BitVec.getLsbD_reverse, BitVec.getLsbD_reverse, BitVec.getMsbD_eq_getLsbD,
    BitVec.getMsbD_eq_getLsbD, getLsbD_byte _ _ (by omega), decide_eq_true hj, decide_eq_true (by omega)]
  congr 2
  omega

end Word

namespace ByteOrder

open Word

variable {n : Nat}

/-- Byte number `i` counted from the other end of its container. -/
def mirror (container i : Nat) : Nat := i / container * container + (container - 1 - i % container)

theorem byte_swapBytes (x : BitVec n) {k i : Nat} (hn : k * 8 = n) (hi : i < k) :
    byte (swapBytes x) i = byte x (k - 1 - i) := by
  have hk : n / 8 = k := by omega
  have hwidth : 8 * (n / 8) = n := by omega
  rw [swapBytes, ← byte_ofBytes (n := n / 8) (fun i => byte x (k - 1 - i)) (by omega)]
  refine BitVec.eq_of_getLsbD_eq fun j hj => ?_
  rw [getLsbD_byte _ _ hj, getLsbD_byte _ _ hj, BitVec.getLsbD_setWidth, decide_eq_true (by omega), hk]
  rfl

theorem testBit_lowBytes {q : Nat} (hq : q < 64) : Nat.testBit 0x00FF00FF00FF00FF q = decide (q / 8 % 2 = 0) := by
  have hall : ∀ q : Fin 64, Nat.testBit 0x00FF00FF00FF00FF q.val = decide (q.val / 8 % 2 = 0) := by decide
  exact hall ⟨q, hq⟩

theorem byte_swapPairs (x : BitVec n) {k i : Nat} (hn : k * 8 = n) (h64 : n ≤ 64) (hi : i < k) :
    byte (reverseBytes 2 x) i = byte x (mirror 2 i) := by
  refine BitVec.eq_of_getLsbD_eq fun j hj => ?_
  have hlow (q : Nat) (hq : q < n) : (BitVec.ofNat n 0x00FF00FF00FF00FF).getLsbD q = decide (q / 8 % 2 = 0) := by
    rw [BitVec.getLsbD_ofNat, decide_eq_true hq, Bool.true_and, testBit_lowBytes (Nat.lt_of_lt_of_le hq h64)]
  have hin : 8 * i + j < n := by omega
  rw [getLsbD_byte _ _ hj, getLsbD_byte _ _ hj, reverseBytes, BitVec.getLsbD_or, BitVec.getLsbD_shiftLeft,
    BitVec.getLsbD_and, BitVec.getLsbD_and, BitVec.getLsbD_ushiftRight, hlow _ hin, hlow _ (by omega), mirror]
  -- the byte comes from below or from above, where the other mask has zeros
  obtain heven | hodd : i % 2 = 0 ∨ i % 2 = 1 := by omega
  · have hplace : 8 * (i / 2 * 2 + (2 - 1 - i % 2)) + j = 8 + (8 * i + j) := by omega
    rw [hplace, decide_eq_true (show (8 * i + j) / 8 % 2 = 0 by omega)]
    by_cases hbelow : 8 * i + j < 8
    · simp [hbelow]
    · simp [show ¬(8 * i + j - 8) / 8 % 2 = 0 by omega]
  · have hplace : 8 * (i / 2 * 2 + (2 - 1 - i % 2)) + j = 8 * i + j - 8 := by omega
    rw [hplace, decide_eq_false (show ¬(8 * i + j) / 8 % 2 = 0 by omega),
      decide_eq_true (show (8 * i + j - 8) / 8 % 2 = 0 by omega)]
    simp [hin, show ¬8 * i + j < 8 by omega]

theorem byte_swapWords (x : BitVec n) {k i : Nat} (hn : k * 8 = n) (h64 : n ≤ 64) (hi : i < k) (h4 : 4 ∣ k) :
    byte (reverseBytes 4 x) i = byte x (mirror 4 i) := by
  have hpart (a : BitVec 32) {i : Nat} (hi : i < 4) {j : Nat} (hj : j < 8) :
      (swapBytes a).getLsbD (8 * i + j) = a.getLsbD (8 * (3 - i) + j) := by
    rw [← getLsbD_byte _ _ hj, byte_swapBytes a (k := 4) rfl hi, getLsbD_byte _ _ hj]
  refine BitVec.eq_of_getLsbD_eq fun j hj => ?_
  rw [getLsbD_byte _ _ hj, getLsbD_byte _ _ hj, reverseBytes, BitVec.getLsbD_setWidth, decide_eq_true (by omega),
    Bool.true_and, BitVec.getLsbD_append, mirror]
  by_cases hlow : i < 4
  · rw [if_pos (by omega), hpart _ hlow hj, BitVec.getLsbD_setWidth, decide_eq_true (by omega), Bool.true_and]
    congr 1
    omega
  · rw [if_neg (by omega), show 8 * i + j - 32 = 8 * (i - 4) + j by omega, hpart _ (by omega) hj,
      BitVec.getLsbD_extractLsb', decide_eq_true (by omega), Bool.true_and]
    congr 1
    omega

/-- The containers that a reversal of the bytes of an `n`-bit number can have. -/
def HasContainer (n container : Nat) : Prop := n ∣ 64 ∧ container * 8 ∣ n ∧ container ∈ [2, 4, 8]

instance (n container : Nat) : Decidable (HasContainer n container) := inferInstanceAs (Decidable (_ ∧ _))

namespace HasContainer

variable {container i : Nat} (h : HasContainer n container)

include h

theorem pos : 0 < container := by
  have hcontainer := h.2.2
  simp only [List.mem_cons, List.not_mem_nil, or_false] at hcontainer
  omega

theorem dvd_bytes : container ∣ n / 8 := by
  obtain ⟨d, hd⟩ := h.2.1
  refine ⟨d, ?_⟩
  rw [hd, Nat.mul_right_comm, Nat.mul_div_cancel _ (by decide)]

theorem bytes_mul : n / 8 * 8 = n :=
  Nat.div_mul_cancel (Nat.dvd_trans (Nat.dvd_mul_left 8 container) h.2.1)

theorem mirror_lt (hi : i < n / 8) : mirror container i < n / 8 := VectorOp.mirrored_lt h.pos h.dvd_bytes hi

theorem byte_reverseBytes (x : BitVec n) (hi : i < n / 8) :
    byte (reverseBytes container x) i = byte x (mirror container i) := by
  have hle : n ≤ 64 := Nat.le_of_dvd (by decide) h.1
  have hcontainer := h.2.2
  simp only [List.mem_cons, List.not_mem_nil, or_false] at hcontainer
  obtain rfl | rfl | rfl := hcontainer
  · exact byte_swapPairs x h.bytes_mul hle hi
  · exact byte_swapWords x h.bytes_mul hle hi h.dvd_bytes
  · obtain rfl : n = 64 := Nat.dvd_antisymm h.1 h.2.1
    have hplace : mirror 8 i = 8 - 1 - i := by
      rw [mirror]
      omega
    rw [hplace]
    exact byte_swapBytes x rfl hi

theorem reverseBytes_reverseBytes (x : BitVec n) : reverseBytes container (reverseBytes container x) = x := by
  refine eq_of_bytes h.bytes_mul fun i hi => ?_
  rw [h.byte_reverseBytes _ hi, h.byte_reverseBytes _ (h.mirror_lt hi)]
  exact congrArg (byte x) (VectorOp.mirrored_mirrored h.pos)

end HasContainer
end ByteOrder
end AArch64
