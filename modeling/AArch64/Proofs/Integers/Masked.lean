import AArch64.Masked
import AArch64.Proofs.Integers.BitMasks

/-! Shifts and masks give the fields, rotations and copies of a word wherever their amounts are in range. -/
namespace AArch64.Masked

variable {w : Nat}

theorem shiftLeft?_eq {k : Nat} (x : BitVec w) (h : k < w) : shiftLeft? x k = some (x <<< k) := if_pos h

theorem shiftRight?_eq {k : Nat} (x : BitVec w) (h : k < w) : shiftRight? x k = some (x >>> k) := if_pos h

theorem signedShiftRight?_eq {k : Nat} (x : BitVec w) (h : k < w) :
    signedShiftRight? x k = some (x.sshiftRight k) := if_pos h

theorem sub?_eq {a b : Nat} (h : b ≤ a) : sub? a b = some (a - b) := if_pos h

theorem bit?_eq {i : Nat} (x : BitVec w) (h : i < w) : bit? x i = some (x.getLsbD i) := by
  have hone : 1 % 2 ^ w = 1 := Nat.mod_eq_of_lt (Nat.one_lt_two_pow (Nat.ne_zero_of_lt h))
  rw [bit?, shiftRight?_eq x h, Option.bind_eq_bind, Option.bind_some, Option.some.injEq, Bool.eq_iff_iff, beq_iff_eq,
    ← BitVec.toNat_inj, BitVec.toNat_and, BitVec.toNat_ushiftRight, BitVec.toNat_ofNat, hone, Nat.and_one_is_mod,
    Nat.shiftRight_eq_div_pow, BitVec.getLsbD, Nat.testBit_eq_decide_div_mod_eq, decide_eq_true_iff]

theorem setBit?_eq {i : Nat} (x : BitVec w) (b : Bool) (h : i < w) : setBit? x i b = some (Bits.setBit x i b) := by
  rw [setBit?, shiftLeft?_eq _ h, Option.bind_eq_bind, Option.bind_some, Bits.setBit, BitVec.twoPow]

theorem getLsbD_one_shiftLeft_sub_one {k : Nat} (h : k < w) (i : Nat) :
    (1#w <<< k - 1#w).getLsbD i = decide (i < k) := by
  have hlt : 2 ^ k < 2 ^ w := Nat.pow_lt_pow_right Nat.one_lt_two h
  have hpos := Nat.two_pow_pos k
  have hone : 1 % 2 ^ w = 1 := Nat.mod_eq_of_lt (Nat.one_lt_two_pow (Nat.ne_zero_of_lt h))
  have hnat : (1#w <<< k - 1#w).toNat = 2 ^ k - 1 := by
    rw [BitVec.toNat_sub_of_le, BitVec.toNat_shiftLeft, BitVec.toNat_ofNat, hone, Nat.shiftLeft_eq, Nat.one_mul,
      Nat.mod_eq_of_lt hlt]
    rw [BitVec.le_def, BitVec.toNat_shiftLeft, BitVec.toNat_ofNat, hone, Nat.shiftLeft_eq, Nat.one_mul,
      Nat.mod_eq_of_lt hlt]
    exact hpos
  rw [BitVec.getLsbD, hnat, Nat.testBit_two_pow_sub_one]

theorem exists_low? (w length : Nat) :
    ∃ mask, low? w length = some mask ∧ ∀ i, mask.getLsbD i = (decide (i < length) && decide (i < w)) := by
  unfold low?
  by_cases h : w ≤ length
  · refine ⟨BitVec.allOnes w, if_pos h, fun i => ?_⟩
    rw [BitVec.getLsbD_allOnes]
    by_cases hi : i < w
    · simp [hi, Nat.lt_of_lt_of_le hi h]
    · simp [hi]
  · have hlt : length < w := Nat.lt_of_not_le h
    refine ⟨1#w <<< length - 1#w, by simp [h, shiftLeft?_eq _ hlt], fun i => ?_⟩
    rw [getLsbD_one_shiftLeft_sub_one hlt]
    by_cases hi : i < length
    · simp [hi, Nat.lt_trans hi hlt]
    · simp [hi]

theorem bits?_eq {lo hi : Nat} (x : BitVec w) (hlo : lo ≤ hi) (hhi : hi < w) :
    bits? x lo hi = some (Bits.slice x lo hi) := by
  obtain ⟨mask, hmask, hbits⟩ := exists_low? w (hi - lo + 1)
  have hfits : ¬w < lo + (hi - lo + 1) := by omega
  simp only [bits?, sub?_eq hlo, Option.bind_eq_bind, Option.bind_some, if_neg hfits, hmask,
    shiftRight?_eq x (Nat.lt_of_le_of_lt hlo hhi), Option.some.injEq]
  refine BitVec.eq_of_getLsbD_eq fun i hi => ?_
  rw [BitVec.getLsbD_and, BitVec.getLsbD_ushiftRight, hbits, Bits.slice, BitVec.getLsbD_setWidth,
    BitVec.getLsbD_extractLsb, decide_eq_true hi, Bool.and_true, Bool.true_and, Bool.and_comm]

theorem signExtended?_eq {n : Nat} (x : BitVec w) (hpos : 0 < n) (hn : n ≤ w) :
    signExtended? x n = some (Bits.signExtendFrom n x) := by
  have hshift : w - n < w := by omega
  simp only [signExtended?, Nat.ne_of_gt hpos, if_false, sub?_eq hn, Option.bind_eq_bind, Option.bind_some,
    shiftLeft?_eq x hshift, signedShiftRight?_eq _ hshift, Option.some.injEq]
  refine BitVec.eq_of_getLsbD_eq fun i hi => ?_
  have htop : (x <<< (w - n)).msb = x.getLsbD (n - 1) := by
    rw [BitVec.msb_eq_getLsbD_last, BitVec.getLsbD_shiftLeft]
    have hlast : w - 1 - (w - n) = n - 1 := by omega
    have hw : w - 1 < w := by omega
    have hge : ¬w - 1 < w - n := by omega
    simp [hw, hge, hlast]
  rw [BitVec.getLsbD_sshiftRight, htop, Bits.signExtendFrom, BitVec.getLsbD_signExtend, BitVec.msb_setWidth,
    BitVec.getLsbD_setWidth, BitVec.getLsbD_shiftLeft]
  have hge : ¬w ≤ i := Nat.not_le.2 hi
  by_cases hin : i < n
  · have hlt : w - n + i < w := by omega
    have hlow : ¬w - n + i < w - n := by omega
    have hback : w - n + i - (w - n) = i := by omega
    simp [hi, hge, hin, hlt, hback]
  · have hlt : ¬w - n + i < w := by omega
    simp [hi, hge, hin, hlt, hpos]

theorem field?_eq {hi lo : Nat} (x : BitVec 64) (hhi : hi < 64) (hlo : lo < 64) :
    field? x hi lo = some (Bits.field x hi lo) := by
  unfold field? Bits.field
  split
  next h => rw [bits?_eq x h hhi, Nat.min_eq_right h, Nat.max_eq_left h]
  next h =>
    have hle : hi ≤ lo := Nat.le_of_not_le h
    rw [bits?_eq x hle hlo, Nat.min_eq_left hle, Nat.max_eq_right hle]

theorem ones_eq (count : Nat) : ones count = Bits.ones count := by
  refine BitVec.eq_of_getLsbD_eq fun i hi => ?_
  rw [Bits.getLsbD_ones, decide_eq_true hi, Bool.and_true, ones]
  split
  next h => rw [BitVec.getLsbD_allOnes, decide_eq_true hi, decide_eq_true (Nat.lt_of_lt_of_le hi h)]
  next h => exact getLsbD_one_shiftLeft_sub_one (Nat.lt_of_not_le h) i

theorem mask?_eq {hi lo : Nat} (hhi : hi < 64) (hlo : lo < 64) : mask? hi lo = some (Bits.mask hi lo) := by
  unfold mask? Bits.mask
  rw [ones_eq, ones_eq]
  split
  next h => rw [shiftLeft?_eq _ hlo, Nat.min_eq_right h, Nat.max_eq_left h]
  next h =>
    have hle : hi ≤ lo := Nat.le_of_not_le h
    rw [shiftLeft?_eq _ hhi, Nat.min_eq_left hle, Nat.max_eq_right hle]

theorem pick?_eq {hi lo place : Nat} (x : BitVec 64) (hhi : hi < 64) (hlo : lo < 64) (hplace : place < 64) :
    pick? x hi lo place = some (Bits.pick x hi lo place) := by
  simp only [pick?, field?_eq x hhi hlo, Option.bind_eq_bind, Option.bind_some, shiftLeft?_eq _ hplace]
  rfl

theorem signedField?_eq {hi lo : Nat} (x : BitVec 64) (hhi : hi < 64) (hlo : lo < 64) :
    signedField? x hi lo = some (Bits.signedField x hi lo) := by
  -- the cut-off field has the same low bits as the word from its first bit on
  have hlow {l h : Nat} (hle : l ≤ h) (hh : h < 64) :
      (Bits.signExtendFrom (h - l + 1) (Bits.slice x l h)).toInt = (x.extractLsb h l).toInt := by
    rw [Bits.signExtendFrom, BitVec.toInt_signExtend_of_le (by omega), Bits.slice,
      BitVec.setWidth_setWidth_of_le _ (by omega), BitVec.setWidth_eq]
  unfold signedField? Bits.signedField
  rw [field?_eq x hhi hlo, Option.bind_eq_bind, Option.bind_some, Bits.field]
  split
  next h =>
    rw [signExtended?_eq _ (Nat.succ_pos _) (by omega), Option.bind_some, Nat.min_eq_right h, Nat.max_eq_left h,
      hlow h hhi]
  next h =>
    have hle : hi ≤ lo := Nat.le_of_not_le h
    rw [signExtended?_eq _ (Nat.succ_pos _) (by omega), Option.bind_some, Nat.min_eq_left hle, Nat.max_eq_right hle,
      hlow hle hlo]

theorem and_ones (x : BitVec 64) (n : Nat) (i : Nat) :
    (x &&& ones n).getLsbD i = (x.getLsbD i && decide (i < n)) := by
  rw [BitVec.getLsbD_and, ones_eq, Bits.getLsbD_ones]
  by_cases h : i < 64
  · simp [h]
  · simp [BitVec.getLsbD_of_ge x i (Nat.le_of_not_lt h)]

theorem rotateRight?_eq {amount width : Nat} (x : BitVec 64) (hpos : 0 < width) (hwidth : width ≤ 64) :
    rotateRight? x amount width = some (Bits.rotateRight x amount width) := by
  have hmod := Nat.mod_lt amount hpos
  have hbit {i : Nat} (hi : i < width) :
      (Bits.rotateRight x amount width).getLsbD i = x.getLsbD ((i + amount % width) % width) := by
    rw [Bits.getLsbD_rotateRight x amount hi, decide_eq_true (Nat.lt_of_lt_of_le hi hwidth), Bool.true_and,
      Nat.add_mod_mod]
  have habove {i : Nat} (hi : ¬i < width) : (Bits.rotateRight x amount width).getLsbD i = false := by
    simp [Bits.rotateRight, BitVec.getLsbD_of_ge _ i (Nat.le_of_not_lt hi)]
  unfold rotateRight?
  rw [if_neg (Nat.ne_of_gt hpos)]
  dsimp only
  split
  next hzero =>
    refine congrArg some (BitVec.eq_of_getLsbD_eq fun i hi => ?_)
    rw [and_ones]
    by_cases h : i < width
    · rw [hbit h, hzero, Nat.add_zero, Nat.mod_eq_of_lt h, decide_eq_true h, Bool.and_true]
    · rw [habove h, decide_eq_false h, Bool.and_false]
  next hne =>
    have hup : width - amount % width < 64 := by omega
    simp only [shiftRight?_eq _ (Nat.lt_of_lt_of_le hmod hwidth), shiftLeft?_eq _ hup, Option.bind_eq_bind,
      Option.bind_some, Option.some.injEq]
    refine BitVec.eq_of_getLsbD_eq fun i hi => ?_
    rw [and_ones, BitVec.getLsbD_or, BitVec.getLsbD_ushiftRight, BitVec.getLsbD_shiftLeft, and_ones, and_ones]
    by_cases h : i < width
    · rw [hbit h]
      -- a bit comes from above, or round the end
      by_cases hwrap : i + amount % width < width
      · have hlow : i < width - amount % width := by omega
        simp [h, hwrap, hlow, Nat.mod_eq_of_lt hwrap, Nat.add_comm]
      · have hback : (i + amount % width) % width = i - (width - amount % width) := by
          rw [Nat.mod_eq_sub_mod (by omega), Nat.mod_eq_of_lt (by omega)]
          omega
        have hlow : ¬i < width - amount % width := by omega
        have hfits : i - (width - amount % width) < width := by omega
        have hround : ¬amount % width + i < width := by omega
        simp [h, hi, hlow, hfits, hround, hback]
    · rw [habove h, decide_eq_false h, Bool.and_false]

/-- The loop adds the copies that start from `place` on, for `place` a multiple of the size. -/
theorem getLsbD_replicateFrom {element result : BitVec 64} {esize place : Nat} (hpos : 0 < esize)
    (hdvd : esize ∣ place) (helement : ∀ i, esize ≤ i → element.getLsbD i = false) {i : Nat} (hi : i < 64) :
    (replicateFrom element esize place result).getLsbD i =
      (result.getLsbD i || (decide (place ≤ i) && element.getLsbD (i % esize))) := by
  fun_induction replicateFrom element esize place result with
  | case1 place result hlt ih =>
    obtain ⟨k, rfl⟩ := hdvd
    rw [ih (Nat.dvd_add (Nat.dvd_mul_right esize k) (Nat.dvd_refl esize)), BitVec.getLsbD_or, BitVec.getLsbD_shiftLeft,
      Bool.or_assoc]
    congr 1
    by_cases hbelow : i < esize * k
    · have hmore : ¬esize * k + esize ≤ i := by omega
      simp [hbelow, hmore, Nat.not_le.2 hbelow]
    · have hle : esize * k ≤ i := Nat.le_of_not_lt hbelow
      by_cases hnext : esize * k + esize ≤ i
      · have hout := helement (i - esize * k) (by omega)
        simp [hi, hbelow, hle, hnext, hout]
      · have hrem : i % esize = i - esize * k := by
          rw [← Nat.sub_mul_mod hle, Nat.mod_eq_of_lt (by omega)]
        simp [hi, hbelow, hle, hnext, hrem]
  | case2 place result hlt =>
    have hge : ¬place ≤ i := by omega
    simp [hge]

theorem replicate?_eq {esize : Nat} (x : BitVec 64) (hpos : 0 < esize) :
    replicate? x esize = some (Bits.replicate x esize) := by
  unfold replicate?
  rw [if_neg (Nat.ne_of_gt hpos)]
  refine congrArg some (BitVec.eq_of_getLsbD_eq fun i hi => ?_)
  have helement (j : Nat) (hj : esize ≤ j) : (x &&& ones esize).getLsbD j = false := by
    rw [and_ones, decide_eq_false (Nat.not_lt.2 hj), Bool.and_false]
  have hmod := Nat.mod_lt i hpos
  rw [getLsbD_replicateFrom hpos (Nat.dvd_zero esize) helement hi, Bits.getLsbD_replicate x hpos hi, and_ones]
  simp [hmod]

theorem mapM_eq_some {α β : Type} {f : α → Option β} {g : α → β} (xs : List α) (h : ∀ x ∈ xs, f x = some (g x)) :
    xs.mapM f = some (xs.map g) := by
  induction xs with
  | nil => rfl
  | cons x xs ih =>
    have hx := h x (by simp)
    have hxs := ih fun y hy => h y (by simp [hy])
    simp [hx, hxs]

end AArch64.Masked
