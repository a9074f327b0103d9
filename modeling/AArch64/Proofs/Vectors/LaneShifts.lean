import AArch64.Proofs.Vectors.LaneArithmetic

/-! Shifts of lanes, by the numbers in another vector or by a number of places in the word. All of them multiply the
number in a lane by a power of two and round down, or to the nearest integer, whatever the amount is. -/
namespace AArch64

namespace Lane

variable {n k : Nat}

theorem floor_mul_twoPow (x : Int) (k : Nat) : ⌊(x : ℚ) * 2 ^ (k : Int)⌋ = x * 2 ^ k := by
  have hproduct : (x : ℚ) * 2 ^ (k : Int) = ((x * 2 ^ k : Int) : ℚ) := by
    rw [Rat.zpow_natCast]
    push_cast
    rfl
  rw [hproduct, Int.floor_intCast]

theorem floor_div_twoPow (x : Int) (k : Nat) : ⌊(x : ℚ) / 2 ^ k⌋ = x / 2 ^ k := by
  have hfloor := Rat.floor_intCast_div_natCast x (2 ^ k)
  push_cast at hfloor
  exact hfloor

theorem floor_mul_twoPow_neg (x : Int) (k : Nat) : ⌊(x : ℚ) * 2 ^ (-(k : Int))⌋ = x / 2 ^ k := by
  rw [Rat.zpow_neg, Rat.zpow_natCast, ← Rat.div_def]
  exact floor_div_twoPow x k

theorem floor_div_twoPow_add_half (x : Int) (hk : 1 ≤ k) :
    ⌊(x : ℚ) / 2 ^ k + 1 / 2⌋ = (x + 2 ^ (k - 1)) / 2 ^ k := by
  obtain ⟨j, rfl⟩ : ∃ j, k = j + 1 := ⟨k - 1, by omega⟩
  have hsum : (x : ℚ) / 2 ^ (j + 1) + 1 / 2 = ((x + 2 ^ j : Int) : ℚ) / 2 ^ (j + 1) := by
    have hpos : (2 : ℚ) ^ j ≠ 0 := by positivity
    push_cast
    field_simp
    ring
  rw [hsum, floor_div_twoPow, Nat.add_sub_cancel]

theorem shiftRight_eq (signed rounding : Bool) (hk : 1 ≤ k) (a : BitVec n) :
    shiftRight signed rounding k a =
      BitVec.ofInt n ⌊(value signed a : ℚ) / 2 ^ k + if rounding then 1 / 2 else 0⌋ := by
  cases rounding with
  | false => simp [shiftRight, floor_div_twoPow]
  | true =>
    simp only [if_true]
    rw [floor_div_twoPow_add_half _ hk, shiftRight, if_pos rfl]

theorem shiftLeft_eq (signed : Bool) (k : Nat) (a : BitVec n) :
    a <<< k = BitVec.ofInt n (value signed a * 2 ^ k) := by
  have hpow : BitVec.twoPow n k = BitVec.ofInt n (2 ^ k) := by
    apply BitVec.eq_of_toNat_eq
    rw [show (2 : Int) ^ k = ((2 ^ k : Nat) : Int) by push_cast; rfl, BitVec.ofInt_natCast, BitVec.toNat_twoPow,
      BitVec.toNat_ofNat]
  rw [BitVec.shiftLeft_eq_mul_twoPow, BitVec.ofInt_mul, ofInt_value, hpow]

/-- A shift to the left by the size of the lane or more leaves nothing. -/
theorem ofInt_floor_of_le (signed : Bool) (a : BitVec n) {s : Int} (hs : n ≤ s) :
    BitVec.ofInt n ⌊(value signed a : ℚ) * 2 ^ s⌋ = 0#n := by
  obtain ⟨k, rfl⟩ := Int.eq_ofNat_of_zero_le (Int.le_trans (Int.natCast_nonneg n) hs)
  rw [floor_mul_twoPow, ← shiftLeft_eq]
  exact BitVec.shiftLeft_eq_zero (Int.ofNat_le.1 hs)

/-- A shift to the right by the size of the lane or more leaves the sign. -/
theorem ofInt_floor_of_le_neg (signed : Bool) (a : BitVec n) {s : Int} (hs : s ≤ -n) :
    BitVec.ofInt n ⌊(value signed a : ℚ) * 2 ^ s⌋ = if value signed a < 0 then BitVec.allOnes n else 0#n := by
  obtain ⟨k, hk⟩ := Int.eq_ofNat_of_zero_le (a := -s) (by omega)
  obtain rfl : s = -(k : Int) := by omega
  have hpow : ((2 ^ n : Nat) : Int) ≤ 2 ^ k := by
    exact_mod_cast Nat.pow_le_pow_right Nat.two_pos (show n ≤ k by omega)
  have hlow := neg_le_value signed a
  have hhigh := value_lt signed a
  -- The number is smaller than the divisor, so rounding down leaves its sign alone.
  have hquotient : value signed a / 2 ^ k = if value signed a < 0 then -1 else 0 := by
    split
    next hneg =>
      exact ((Int.ediv_emod_unique (r := value signed a + 2 ^ k) (by omega)).2 ⟨by omega, by omega, by omega⟩).1
    next hnonneg => exact Int.ediv_eq_zero_of_lt (by omega) (by omega)
  rw [floor_mul_twoPow_neg, hquotient, ← truth_eq]
  simp [truth]

/-- The clamps of the amount change nothing. -/
theorem shiftByRegister_eq (signed : Bool) (a b : BitVec n) (hn : n ≤ 127) :
    shiftByRegister signed a b = BitVec.ofInt n ⌊(value signed a : ℚ) * 2 ^ (b.setWidth 8).toInt⌋ := by
  have hleast : -2 ^ 7 ≤ (b.setWidth 8).toInt := BitVec.le_toInt _
  rw [shiftByRegister]
  generalize (b.setWidth 8).toInt = s at hleast ⊢
  split
  next hout => exact (ofInt_floor_of_le signed a hout).symm
  next =>
    split
    next hs =>
      obtain ⟨k, rfl⟩ := Int.eq_ofNat_of_zero_le hs
      rw [floor_mul_twoPow, Int.toNat_natCast]
    next hs =>
      obtain ⟨k, rfl⟩ : ∃ k : Nat, s = -k := ⟨(-s).toNat, by omega⟩
      by_cases hlast : k ≤ 127
      · rw [floor_mul_twoPow_neg, Int.neg_neg, Int.min_eq_left (by omega), Int.toNat_natCast]
      · -- beyond the last place there is nothing but the sign
        rw [ofInt_floor_of_le_neg signed a (by omega), ← ofInt_floor_of_le_neg signed a (s := -(127 : Nat)) (by omega),
          floor_mul_twoPow_neg, Int.min_eq_right (by omega)]
        rfl

theorem insertRight_eq (hk : k ≤ n) (a acc : BitVec n) :
    acc &&& ~~~(BitVec.allOnes n >>> k) ||| a >>> k &&& BitVec.allOnes n >>> k =
      BitVec.ofNat n (2 ^ (n - k) * (acc.toNat / 2 ^ (n - k)) + a.toNat / 2 ^ k) := by
  -- The quotient fits under the bits that are kept, so the sum has no carries.
  have hlow : a.toNat / 2 ^ k < 2 ^ (n - k) := by
    apply Nat.div_lt_of_lt_mul
    rw [← Nat.pow_add, Nat.add_sub_cancel' hk]
    exact a.isLt
  apply BitVec.eq_of_getLsbD_eq
  intro j hj
  rw [BitVec.getLsbD_ofNat, Nat.testBit_two_pow_mul_add _ hlow, Nat.testBit_div_two_pow, Nat.testBit_div_two_pow,
    BitVec.testBit_toNat, BitVec.testBit_toNat]
  simp only [BitVec.getLsbD_or, BitVec.getLsbD_and, BitVec.getLsbD_not, BitVec.getLsbD_ushiftRight,
    BitVec.getLsbD_allOnes, hj]
  by_cases hkept : j < n - k
  · have hbelow : k + j < n := by omega
    simp [hkept, hbelow, Nat.add_comm]
  · have habove : ¬k + j < n := by omega
    simp [hkept, habove, Nat.sub_add_cancel (Nat.not_lt.1 hkept)]

theorem insertLeft_eq (a acc : BitVec n) (k : Nat) :
    acc &&& ~~~(BitVec.allOnes n <<< k) ||| a <<< k &&& BitVec.allOnes n <<< k =
      BitVec.ofNat n (2 ^ k * a.toNat + acc.toNat % 2 ^ k) := by
  apply BitVec.eq_of_getLsbD_eq
  intro j hj
  rw [BitVec.getLsbD_ofNat, Nat.testBit_two_pow_mul_add _ (Nat.mod_lt _ (Nat.two_pow_pos k)), Nat.testBit_mod_two_pow,
    BitVec.testBit_toNat, BitVec.testBit_toNat]
  simp only [BitVec.getLsbD_or, BitVec.getLsbD_and, BitVec.getLsbD_not, BitVec.getLsbD_shiftLeft,
    BitVec.getLsbD_allOnes, hj]
  by_cases hkept : j < k
  · simp [hkept]
  · have hbelow : j - k < n := by omega
    simp [hkept, hbelow]

end Lane

/-- The shifts of lanes. All but the first have the number of places in the word. -/
inductive LaneShift
  /-- By the signed low byte of the same lane of the second source. -/
  | register
  | right (rounding accumulate : Bool) (k : Nat)
  | rightInsert (k : Nat)
  | left (k : Nat)
  | leftInsert (k : Nat)

namespace LaneShift

/-- The numbers of places that a word has room for. -/
def Fits (f : LaneShift) (n : Nat) : Prop :=
  match f with
  | register => True
  | right _ _ k | rightInsert k => 1 ≤ k ∧ k ≤ n
  | left k | leftInsert k => k < n

instance (f : LaneShift) (n : Nat) : Decidable (f.Fits n) :=
  match f with
  | register => inferInstanceAs (Decidable True)
  | right _ _ k | rightInsert k => inferInstanceAs (Decidable (1 ≤ k ∧ k ≤ n))
  | left k | leftInsert k => inferInstanceAs (Decidable (k < n))

/-- The integer that a shift makes of the number `x` in a lane of `n` bits, the signed amount `s` in the second source
and the number `z` in the old destination. The inserting shifts keep the bits of `z` that no bit of `x` comes to. -/
def result (f : LaneShift) (n : Nat) (x s z : Int) : Int :=
  match f with
  | register => ⌊(x : ℚ) * 2 ^ s⌋
  | right rounding accumulate k => (if accumulate then z else 0) + ⌊(x : ℚ) / 2 ^ k + if rounding then 1 / 2 else 0⌋
  | rightInsert k => 2 ^ (n - k) * (z / 2 ^ (n - k)) + ⌊(x : ℚ) / 2 ^ k⌋
  | left k => x * 2 ^ k
  | leftInsert k => 2 ^ k * x + z % 2 ^ k

def op (f : LaneShift) (signed : Bool) (a : Arrangement) : VectorOp :=
  match f with
  | register => .lanes .shiftLeft signed a
  | right rounding accumulate k => .shiftRight signed rounding accumulate k a
  | rightInsert k => .shiftRightInsert k a
  | left k => .shiftLeft false k a
  | leftInsert k => .shiftLeft true k a

def inserts : LaneShift → Bool
  | rightInsert _ | leftInsert _ => true
  | register | right _ _ _ | left _ => false

open Lane in
/-- An inserting shift reads the lanes as unsigned numbers. -/
theorem get_eval_op {f : LaneShift} {a : Arrangement} {signed : Bool} {i : Nat} (hf : f.Fits a.esize)
    (hinserts : f.inserts = true → signed = false) (hi : i < a.elements) (hfits : (i + 1) * a.esize ≤ 128)
    (v : VectorOperands) :
    Lanes.get ((f.op signed a).eval v).value a.esize i =
      BitVec.ofInt a.esize (f.result a.esize (value signed (Lanes.get v.n a.esize i))
        ((Lanes.get v.m a.esize i).setWidth 8).toInt (value signed (Lanes.get v.d a.esize i))) := by
  cases f with
  | register =>
    rw [op, VectorOp.eval, Lanes.value_buildFlagged, Lanes.get_build _ hi hfits]
    exact shiftByRegister_eq signed _ _ (by have hsize := a.esize_le; omega)
  | right rounding accumulate k =>
    refine (Lanes.get_build _ hi hfits).trans ?_
    rw [shiftRight_eq signed rounding hf.1, result, BitVec.ofInt_add]
    congr 1
    cases accumulate with
    | false => rfl
    | true => exact (ofInt_value signed _).symm
  | rightInsert k =>
    obtain rfl := hinserts rfl
    refine (Lanes.get_build _ hi hfits).trans ?_
    rw [insertRight_eq hf.2, result, floor_div_twoPow, ← BitVec.ofInt_natCast]
    push_cast
    rfl
  | left k => exact (Lanes.get_build _ hi hfits).trans (shiftLeft_eq signed k _)
  | leftInsert k =>
    obtain rfl := hinserts rfl
    refine (Lanes.get_build _ hi hfits).trans ?_
    rw [if_pos rfl, insertLeft_eq, result, ← BitVec.ofInt_natCast]
    push_cast
    rfl

end LaneShift

namespace InstructionWord

variable (w : InstructionWord)

/-- The fixed bits and the two fields of the shifts by a number of places. The number in the seven bits from bit 16 on
gives the size of the lanes as well as the number of places. -/
def IsImmediateShift (scalar : Bool) (opcode amount : Nat) : Prop :=
  w.bit 31 = false ∧ w.number 28 24 = (if scalar then 0b11111 else 0b01111) ∧ (scalar = true → w.bit 30 = true) ∧
    w.bit 10 = true ∧ w.number 15 11 = opcode ∧ w.number 22 16 = amount

instance (scalar : Bool) (opcode amount : Nat) : Decidable (w.IsImmediateShift scalar opcode amount) :=
  inferInstanceAs (Decidable (_ ∧ _))

/-- The word is this shift of lanes of this size. -/
def HasLaneShift (f : LaneShift) (size : ElementSize) (scalar : Bool) : Prop :=
  f.Fits size.bits ∧ w.HasLanes size scalar ∧ (scalar = true → size = .double) ∧
    match f with
    | .register => w.IsThreeSame scalar ∧ w.number 15 11 = 8 ∧ w.laneSize = size
    | .right rounding accumulate k =>
      w.IsImmediateShift scalar (4 * rounding.toNat + 2 * accumulate.toNat) (2 * size.bits - k)
    | .rightInsert k => w.IsImmediateShift scalar 8 (2 * size.bits - k) ∧ w.bit 29 = true
    | .left k => w.IsImmediateShift scalar 10 (size.bits + k) ∧ w.bit 29 = false
    | .leftInsert k => w.IsImmediateShift scalar 10 (size.bits + k) ∧ w.bit 29 = true

instance (f : LaneShift) (size : ElementSize) (scalar : Bool) : Decidable (w.HasLaneShift f size scalar) :=
  match f with
  | .register => inferInstanceAs (Decidable (_ ∧ _ ∧ _ ∧ _ ∧ _))
  | .right _ _ _ => inferInstanceAs (Decidable (_ ∧ _ ∧ _ ∧ IsImmediateShift _ _ _ _))
  | .rightInsert _ | .left _ | .leftInsert _ => inferInstanceAs (Decidable (_ ∧ _ ∧ _ ∧ _ ∧ _))

variable {w} {f : LaneShift} {size : ElementSize} {scalar : Bool}

theorem shiftSize_eq (hlow : size.bits ≤ w.number 22 16) (hhigh : w.number 22 16 < 2 * size.bits) :
    w.number 22 19 ≠ 0 ∧ w.shiftSize = size := by
  have hsmallest : 8 ≤ size.bits := by cases size <;> decide
  have hshift := w.number_shift
  have hrest : w.number 18 16 < 8 := w.number_lt 18 16
  have hne : w.number 22 19 ≠ 0 := by omega
  obtain ⟨hlow', hhigh'⟩ := w.shiftSize_le_number hne
  refine ⟨hne, ?_⟩
  cases hs : w.shiftSize <;> cases size <;> simp only [hs, ElementSize.bits] at * <;> first | rfl | omega

theorem exists_isImmediateShift {opcode amount : Nat} (hopcode : opcode < 32) (hamount : amount < 128) (u : Bool) :
    ∃ w : InstructionWord, w.IsImmediateShift false opcode amount ∧ w.bit 30 = true ∧ w.bit 29 = u := by
  have hu : u.toNat < 2 := u.toNat_lt
  have hlt : 0x4F000400 + u.toNat * 2 ^ 29 + amount * 2 ^ 16 + opcode * 2 ^ 11 < 2 ^ 32 := by omega
  obtain ⟨w, hw⟩ : ∃ w : InstructionWord,
      w.toNat = 0x4F000400 + u.toNat * 2 ^ 29 + amount * 2 ^ 16 + opcode * 2 ^ 11 :=
    ⟨BitVec.ofNatLT _ hlt, rfl⟩
  have h29 : w.bit 29 = u := by
    cases u with
    | false =>
      rw [bit_eq_false, hw, Bool.toNat_false]
      omega
    | true =>
      rw [bit_eq_true, hw, Bool.toNat_true]
      omega
  refine ⟨w, ⟨?_, ?_, nofun, ?_, ?_, ?_⟩, ?_, h29⟩
  all_goals
    simp only [number_eq, bit_eq_true, bit_eq_false, hw, Bool.false_eq_true, if_false]
    omega

/-- Every shift that fits has words, so no size of lanes and no number of places is left out. -/
theorem exists_word (hf : f.Fits size.bits) : ∃ w : InstructionWord, w.HasLaneShift f size false := by
  have hbits : size.bits ≤ 64 := by cases size <;> decide
  cases f with
  | register =>
    cases size with
    | byte => exact ⟨0x4E204400#32, by decide⟩
    | half => exact ⟨0x4E604400#32, by decide⟩
    | word => exact ⟨0x4EA04400#32, by decide⟩
    | double => exact ⟨0x4EE04400#32, by decide⟩
  | right rounding accumulate k =>
    have hfits : 1 ≤ k ∧ k ≤ size.bits := hf
    have hopcode : 4 * rounding.toNat + 2 * accumulate.toNat < 32 := by
      have := rounding.toNat_lt
      have := accumulate.toNat_lt
      omega
    obtain ⟨w, hw, h30, _⟩ := exists_isImmediateShift hopcode (show 2 * size.bits - k < 128 by omega) false
    exact ⟨w, hf, .inr (.inl h30), nofun, hw⟩
  | rightInsert k =>
    have hfits : 1 ≤ k ∧ k ≤ size.bits := hf
    obtain ⟨w, hw, h30, h29⟩ :=
      exists_isImmediateShift (show 8 < 32 by decide) (show 2 * size.bits - k < 128 by omega) true
    exact ⟨w, hf, .inr (.inl h30), nofun, hw, h29⟩
  | left k =>
    have hfits : k < size.bits := hf
    obtain ⟨w, hw, h30, h29⟩ :=
      exists_isImmediateShift (show 10 < 32 by decide) (show size.bits + k < 128 by omega) false
    exact ⟨w, hf, .inr (.inl h30), nofun, hw, h29⟩
  | leftInsert k =>
    have hfits : k < size.bits := hf
    obtain ⟨w, hw, h30, h29⟩ :=
      exists_isImmediateShift (show 10 < 32 by decide) (show size.bits + k < 128 by omega) true
    exact ⟨w, hf, .inr (.inl h30), nofun, hw, h29⟩

theorem group_of_immediateShift {opcode amount : Nat} (h : w.IsImmediateShift scalar opcode amount) :
    w.number 27 25 = 0b111 := by
  have hclass := h.2.1
  simp only [number_eq] at hclass ⊢
  split at hclass <;> omega

theorem group_of_hasLaneShift (h : w.HasLaneShift f size scalar) : w.number 27 25 = 0b111 := by
  obtain ⟨_, _, _, hword⟩ := h
  cases f with
  | register => exact group_of_threeSame hword.1
  | right => exact group_of_immediateShift hword
  | rightInsert | left | leftInsert => exact group_of_immediateShift hword.1

end InstructionWord

namespace SimdInstruction

open InstructionWord

variable {w : InstructionWord} {f : LaneShift} {size : ElementSize} {scalar : Bool} {opcode amount : Nat}

theorem decode_of_immediateShift (h : w.IsImmediateShift scalar opcode amount) (hlow : size.bits ≤ amount)
    (hhigh : amount < 2 * size.bits) :
    decode w = decodeShift w scalar ∧ w.shiftSize = size ∧ (w.number 22 19 == 0) = false := by
  obtain ⟨h31, hclass, h30, h10, _, hamount⟩ := h
  obtain ⟨himmh, hsize⟩ := shiftSize_eq (hamount ▸ hlow) (hamount ▸ hhigh)
  refine ⟨?_, hsize, beq_eq_false_iff_ne.2 himmh⟩
  have hbits : w.bit 28 = scalar ∧ w.bit 24 = true := by
    cases scalar <;> simp only [number_eq, bit_eq_true, bit_eq_false, Bool.false_eq_true, if_false, if_true] at hclass ⊢ <;>
      omega
  cases scalar with
  | false => simp [decode_of_vector hbits.1, hbits.2, decodeVectorImmediate, h31, h10, himmh]
  | true => simp [decode_of_scalar hbits.1 (h30 rfl), hbits.2, decodeScalarImmediate, h31, h10]

theorem each_of_hasLanes (hlanes : w.HasLanes size scalar) (hdouble : scalar = true → size = .double)
    (g : Arrangement → VectorOp) :
    (if scalar && size != .double then .error .unallocated
      else withArrangement (arrangement? w size scalar) fun a => usualVector w (g a)) =
        usualVector w (g { size, elements := w.laneCount size scalar }) := by
  rw [arrangement?_eq, if_pos hlanes, if_neg]
  · rfl
  · simpa using hdouble

theorem decode_of_hasLaneShift (h : w.HasLaneShift f size scalar) :
    decode w = usualVector w (f.op (!w.bit 29) { size, elements := w.laneCount size scalar }) := by
  obtain ⟨hfits, hlanes, hdouble, hword⟩ := h
  have hright {k : Nat} (hk : 1 ≤ k ∧ k ≤ size.bits) :
      size.bits ≤ 2 * size.bits - k ∧ 2 * size.bits - k < 2 * size.bits ∧ 2 * size.bits - (2 * size.bits - k) = k := by
    omega
  have hleft {k : Nat} (hk : k < size.bits) :
      size.bits ≤ size.bits + k ∧ size.bits + k < 2 * size.bits ∧ size.bits + k - size.bits = k := by
    omega
  cases f with
  | register =>
    obtain ⟨hsame, hopcode, rfl⟩ := hword
    have hsuits : w.Suits .shiftLeft scalar := by simpa [Suits, hlanes, LaneOp.hasWideForm] using hdouble
    rw [decode_lanes hsame (by omega) (by rw [hopcode]; rfl), if_pos hsuits]
    rfl
  | right rounding accumulate k =>
    obtain ⟨hlow, hhigh, hplaces⟩ := hright hfits
    obtain ⟨hdecode, hsize, himmh⟩ := decode_of_immediateShift hword hlow hhigh
    rw [hdecode, decodeShift]
    simp only [← shiftSize.eq_1, hsize, himmh, hword.2.2.2.2, hplaces]
    cases rounding <;> cases accumulate <;> exact each_of_hasLanes hlanes hdouble _
  | rightInsert k =>
    obtain ⟨hword, hu⟩ := hword
    obtain ⟨hlow, hhigh, hplaces⟩ := hright hfits
    obtain ⟨hdecode, hsize, himmh⟩ := decode_of_immediateShift hword hlow hhigh
    rw [hdecode, decodeShift]
    simp only [← shiftSize.eq_1, hsize, himmh, hword.2.2.2.2, hplaces, hu]
    exact each_of_hasLanes hlanes hdouble _
  | left k | leftInsert k =>
    obtain ⟨hword, hu⟩ := hword
    obtain ⟨hlow, hhigh, hplaces⟩ := hleft hfits
    obtain ⟨hdecode, hsize, himmh⟩ := decode_of_immediateShift hword hlow hhigh
    rw [hdecode, decodeShift]
    simp only [← shiftSize.eq_1, hsize, himmh, hword.2.2.2.2, hplaces, hu]
    exact each_of_hasLanes hlanes hdouble _

theorem yields_each {P : Prop} (g : Arrangement → VectorOp)
    (hP : w.HasLanes size scalar → (scalar = true → size = .double) → P) :
    Yields (if scalar && size != .double then .error .unallocated
      else withArrangement (arrangement? w size scalar) fun a => usualVector w (g a)) fun _ => P := by
  refine .guard fun hdouble => ?_
  rw [arrangement?_eq]
  by_cases hlanes : w.HasLanes size scalar
  · rw [if_pos hlanes]
    exact .ok (hP hlanes (by simpa using hdouble))
  · rw [if_neg hlanes]
    exact .error _

/-- The words with an opcode below 16 have no instruction but these. -/
theorem exists_hasLaneShift (h : w.IsImmediateShift scalar opcode amount) (hopcode : opcode < 16)
    (himmh : w.number 22 19 ≠ 0) : Yields (decode w) fun _ => ∃ f, w.HasLaneShift f w.shiftSize scalar := by
  obtain ⟨hlow, hhigh⟩ := w.shiftSize_le_number himmh
  have hword := h
  obtain ⟨_, _, _, _, rfl, rfl⟩ := hword
  obtain ⟨right, hright, hright_fits⟩ : ∃ right, w.number 22 16 = 2 * w.shiftSize.bits - right ∧
      1 ≤ right ∧ right ≤ w.shiftSize.bits := ⟨2 * w.shiftSize.bits - w.number 22 16, by omega⟩
  obtain ⟨left, hleft, hleft_fits⟩ : ∃ left, w.number 22 16 = w.shiftSize.bits + left ∧ left < w.shiftSize.bits :=
    ⟨w.number 22 16 - w.shiftSize.bits, by omega⟩
  rw [(decode_of_immediateShift h hlow hhigh).1]
  refine .guard fun _ => .guard fun _ => .guard fun _ => ?_
  -- The cases are the opcodes in the order in which the decoder has them.
  split
  next hop =>
    rw [hop, hright] at h
    exact yields_each _ fun hlanes hdouble => ⟨.right false false right, hright_fits, hlanes, hdouble, h⟩
  next hop =>
    rw [hop, hright] at h
    exact yields_each _ fun hlanes hdouble => ⟨.right false true right, hright_fits, hlanes, hdouble, h⟩
  next hop =>
    rw [hop, hright] at h
    exact yields_each _ fun hlanes hdouble => ⟨.right true false right, hright_fits, hlanes, hdouble, h⟩
  next hop =>
    rw [hop, hright] at h
    exact yields_each _ fun hlanes hdouble => ⟨.right true true right, hright_fits, hlanes, hdouble, h⟩
  next hop hu =>
    rw [hop, hright] at h
    exact yields_each _ fun hlanes hdouble => ⟨.rightInsert right, hright_fits, hlanes, hdouble, h, hu⟩
  next hop =>
    rw [hop, hleft] at h
    refine yields_each _ fun hlanes hdouble => ?_
    cases hu : w.bit 29 with
    | false => exact ⟨.left left, hleft_fits, hlanes, hdouble, h, hu⟩
    | true => exact ⟨.leftInsert left, hleft_fits, hlanes, hdouble, h, hu⟩
  all_goals first | exact .error _ | omega

end SimdInstruction

namespace Machine

open InstructionWord Lane Lanes

variable {w : InstructionWord} {f : LaneShift} {size : ElementSize} {scalar : Bool} {i : Nat}

theorem get_execute_laneShift (h : w.HasLaneShift f size scalar) (m : Machine) (hi : i < w.laneCount size scalar) :
    get ((m.execute w).2.state.vector w.rd) size.bits i =
      BitVec.ofInt size.bits (f.result size.bits (value (!w.bit 29) (get (m.state.vector w.rn) size.bits i))
        ((get (m.state.vector w.rm) size.bits i).setWidth 8).toInt
        (value (!w.bit 29) (get (m.state.vector w.rd) size.bits i))) := by
  have hinserts : f.inserts = true → (!w.bit 29) = false := by
    intro hf
    cases f with
    | register | right | left => cases hf
    | rightInsert | leftInsert => rw [h.2.2.2.2, Bool.not_true]
  obtain ⟨_, hvector, _⟩ := m.execute_usualVector (group_of_hasLaneShift h) (SimdInstruction.decode_of_hasLaneShift h)
  rw [hvector]
  exact LaneShift.get_eval_op h.1 hinserts hi (lane_fits hi) _

/-- The shifts of lanes, of vectors and of scalars. Each lane holds the exact result modulo the lane. Amounts in a
register that reach the size of the lane leave nothing or the sign, and smaller ones do what a shift by as many places
does. -/
theorem lane_shifts_exact (h : w.HasLaneShift f size scalar) (m : Machine) :
    let lane (m : Machine) (r : Register) (i : Nat) := get (m.state.vector r) size.bits i
    let number (r : Register) (i : Nat) := value (!w.bit 29) (lane m r i)
    let amount (i : Nat) := ((lane m w.rm i).setWidth 8).toInt
    let after := (m.execute w).2
    (m.execute w).1 = .ok .ready ∧
      ∀ i < w.laneCount size scalar,
        lane after w.rd i =
            BitVec.ofInt size.bits (f.result size.bits (number w.rn i) (amount i) (number w.rd i)) ∧
          (f = .register →
            (size.bits ≤ amount i → lane after w.rd i = 0) ∧
            (amount i ≤ -size.bits → lane after w.rd i = if number w.rn i < 0 then BitVec.allOnes _ else 0) ∧
            ∀ (w' : InstructionWord) (scalar' : Bool) (m' : Machine) (k : Nat),
              i < w'.laneCount size scalar' → lane m' w'.rn i = lane m w.rn i →
                (amount i = -k → w'.HasLaneShift (.right false false k) size scalar' → w'.bit 29 = w.bit 29 →
                  lane (m'.execute w').2 w'.rd i = lane after w.rd i) ∧
                (amount i = k → w'.HasLaneShift (.left k) size scalar' →
                  lane (m'.execute w').2 w'.rd i = lane after w.rd i)) := by
  intro lane number amount after
  obtain ⟨houtcome, _⟩ :=
    m.execute_usualVector (group_of_hasLaneShift h) (SimdInstruction.decode_of_hasLaneShift h)
  refine ⟨houtcome, fun i hi => ⟨m.get_execute_laneShift h hi, ?_⟩⟩
  rintro rfl
  have hlane : lane after w.rd i = BitVec.ofInt size.bits ⌊(number w.rn i : ℚ) * 2 ^ amount i⌋ :=
    m.get_execute_laneShift h hi
  refine ⟨fun hs => hlane.trans (ofInt_floor_of_le _ _ hs),
    fun hs => hlane.trans (ofInt_floor_of_le_neg _ _ hs), fun w' scalar' m' k hi' hsame => ⟨?_, ?_⟩⟩
  · intro hs h' hu
    rw [hlane, hs, floor_mul_twoPow_neg]
    refine (m'.get_execute_laneShift h' hi').trans ?_
    simp only [LaneShift.result, hu]
    rw [show get (m'.state.vector w'.rn) size.bits i = _ from hsame]
    simp [floor_div_twoPow, number]
  · intro hs h'
    rw [hlane, hs, floor_mul_twoPow, ← shiftLeft_eq]
    refine (m'.get_execute_laneShift h' hi').trans ?_
    rw [LaneShift.result, ← shiftLeft_eq]
    exact congrArg (fun x : BitVec size.bits => x <<< k) hsame

/-- `SSHL V2.16B, V0.16B, V1.16B` and `SSHR V3.8B, V0.8B, #3` on `-128` in the first lane, with the amount `-3`. -/
theorem lane_shifts_exact_right_by_three :
    let w : InstructionWord := 0x4E214402#32
    let w' : InstructionWord := 0x0F0D0403#32
    let m : Machine := withState {} (State.setVector (State.setVector {} 0#5 0x80#128) 1#5 0xFD#128)
    let lane (w : InstructionWord) := get ((m.execute w).2.state.vector w.rd) 8 0
    w.HasLaneShift .register .byte false ∧ w'.HasLaneShift (.right false false 3) .byte false ∧
      (m.execute w).1 = .ok .ready ∧ lane w = 0xF0#8 ∧ lane w' = lane w := by
  intro w w' m lane
  have h : w.HasLaneShift .register .byte false := by decide
  have h' : w'.HasLaneShift (.right false false 3) .byte false := by decide
  have hnumber : value (!w.bit 29) (get (m.state.vector w.rn) 8 0) = -128 := by decide +kernel
  have hamount : ((get (m.state.vector w.rm) 8 0).setWidth 8).toInt = -(3 : Nat) := by decide +kernel
  obtain ⟨houtcome, hlanes⟩ := lane_shifts_exact h m
  obtain ⟨hresult, hregister⟩ := hlanes 0 (by decide)
  obtain ⟨_, _, hagree⟩ := hregister rfl
  obtain ⟨hright, _⟩ := hagree w' false m 3 (by decide) (by decide +kernel)
  have hlane : lane w = BitVec.ofInt 8 ⌊(value (!w.bit 29) (get (m.state.vector w.rn) 8 0) : ℚ) *
      2 ^ ((get (m.state.vector w.rm) 8 0).setWidth 8).toInt⌋ := hresult
  rw [hnumber, hamount, floor_mul_twoPow_neg] at hlane
  exact ⟨h, h', houtcome, hlane, hright hamount h' (by decide)⟩

end Machine
end AArch64
