import AArch64.Simd.Basic

/-! Which vector and floating-point instructions have all their lanes and shifts in range. A scalar sits in lane 0, which
every register has. -/
namespace AArch64

theorem Lanes.succ_mul_le {esize i n : Nat} (hn : n * esize ≤ 128) (hi : i < n) : (i + 1) * esize ≤ 128 :=
  Nat.le_trans (Nat.mul_le_mul_right esize hi) hn

namespace ElementSize

@[simp] theorem ofBits_bits (size : ElementSize) : ofBits size.bits = size := by
  cases size <;> rfl

theorem bits_le (size : ElementSize) : size.bits ≤ 64 := by
  cases size <;> decide

theorem bits_pos (size : ElementSize) : 0 < size.bits := by
  cases size <;> decide

theorem bits_le_of_ne_double {size : ElementSize} (h : size ≠ double) : size.bits ≤ 32 := by
  cases size <;> simp_all [bits]

end ElementSize

namespace Arrangement

def Fits (a : Arrangement) : Prop := a.elements * a.esize ≤ 128

instance (a : Arrangement) : Decidable a.Fits := inferInstanceAs (Decidable (_ ≤ _))

theorem esize_le (a : Arrangement) : a.esize ≤ 64 := a.size.bits_le

theorem esize_pos (a : Arrangement) : 0 < a.esize := a.size.bits_pos

/-- Operations without a wide form have narrow lanes. -/
theorem esize_le_of {a : Arrangement} {wide : Bool} (h : a.size = .double → wide = true) (hw : wide = false) :
    a.esize ≤ 32 := by
  cases hs : a.size <;> simp_all [esize, ElementSize.bits]

theorem elements_le {a : Arrangement} (h : a.Fits) : a.elements ≤ 16 := by
  have hbits : 8 ≤ a.esize := by
    cases hs : a.size <;> simp [esize, hs, ElementSize.bits]
  have hmul : a.elements * 8 ≤ a.elements * a.esize := Nat.mul_le_mul_left _ hbits
  unfold Fits at h
  omega

theorem scalar_fits (size : ElementSize) : (scalar size).Fits := by
  cases size <;> decide

theorem fits_of_vector? {size : ElementSize} {full : Bool} {a : Arrangement} (h : vector? size full = some a) :
    a.size = size ∧ a.elements = (if full then 128 else 64) / size.bits ∧ a.Fits := by
  unfold vector? at h
  split at h
  · cases h
  · cases h
    refine ⟨rfl, rfl, ?_⟩
    cases size <;> cases full <;> decide

end Arrangement

namespace VectorOp

/-- Only few operations have lanes of 64 bits, and every lane number and shift suits the lanes. -/
def InRange : VectorOp → Prop
  | lanes op _ a | pairwise op _ a => a.Fits ∧ (a.size = .double → op.hasWideForm = true)
  | byElement _ a index => a.Fits ∧ a.size ≠ .double ∧ (index + 1) * a.esize ≤ 128
  | long _ _ _ size _ | highNarrow _ size _ | narrow size _ => size ≠ .double
  | unary _ a | shiftRightInsert _ a => a.Fits
  | reverse container a => a.Fits ∧ 0 < container / a.esize ∧ container / a.esize ∣ a.elements
  | addLongPairs _ _ size elements => size ≠ .double ∧ elements * (2 * size.bits) ≤ 128
  | shiftRight _ _ _ shift a => a.Fits ∧ 1 ≤ shift ∧ shift ≤ a.esize
  | shiftLeft _ shift a => a.Fits ∧ shift < a.esize
  | shiftRightNarrow _ shift size _ => size ≠ .double ∧ 1 ≤ shift ∧ shift ≤ size.bits
  | shiftLeftLong _ shift size _ => size ≠ .double ∧ shift < size.bits
  | reduce _ _ widening a => a.Fits ∧ 0 < a.elements ∧ (widening → a.size ≠ .double)
  | duplicate index a => a.Fits ∧ (index + 1) * a.esize ≤ 128
  | insert size target index => (target + 1) * size.bits ≤ 128 ∧ (index + 1) * size.bits ≤ 128
  | permute _ part a => a.Fits ∧ part ≤ 1 ∧ 2 ∣ a.elements
  | extract position full => position < if full then 16 else 8
  | bitwise _ _ | immediate _ _ _ => True

theorem halfLanes_mul (size : ElementSize) : halfLanes size * size.bits = 64 := by
  cases size <;> rfl

theorem halfLanes_mul_wide (size : ElementSize) : halfLanes size * (2 * size.bits) ≤ 128 := by
  have h := halfLanes_mul size
  rw [Nat.mul_left_comm]
  omega

theorem halfLanes_mul_le (size : ElementSize) : halfLanes size * size.bits ≤ 128 := by
  rw [halfLanes_mul]
  decide

theorem firstLane_add_lt {size : ElementSize} {i : Nat} (upper : Bool) (hi : i < halfLanes size) :
    (firstLane size upper + i + 1) * size.bits ≤ 128 := by
  have hsum : firstLane size upper + i + 1 ≤ 2 * halfLanes size := by
    unfold firstLane
    split <;> omega
  have hmul := Nat.mul_le_mul_right size.bits hsum
  rw [Nat.mul_assoc, halfLanes_mul] at hmul
  exact hmul

theorem wide_succ_mul_le {size : ElementSize} {i : Nat} (hi : i < halfLanes size) :
    (i + 1) * (2 * size.bits) ≤ 128 :=
  Lanes.succ_mul_le (halfLanes_mul_wide size) hi

theorem pair_mul_le {i n : Nat} (h : (i + 1) * (2 * n) ≤ 128) :
    (2 * i + 1) * n ≤ 128 ∧ (2 * i + 1 + 1) * n ≤ 128 := by
  have hlast : (i + 1) * (2 * n) = (2 * i + 1 + 1) * n := by
    rw [← Nat.mul_assoc]
    congr 1
    omega
  have hfirst : (2 * i + 1) * n ≤ (2 * i + 1 + 1) * n := Nat.mul_le_mul_right n (by omega)
  omega

/-- Lane `i` read from the other end of its container stays in the container. -/
theorem mirrored_lt {i k n : Nat} (hk : 0 < k) (hn : k ∣ n) (hi : i < n) : i / k * k + (k - 1 - i % k) < n := by
  obtain ⟨m, rfl⟩ := hn
  have hdiv : i / k + 1 ≤ m := Nat.div_lt_of_lt_mul hi
  have hmul := Nat.mul_le_mul_right k hdiv
  rw [Nat.succ_mul, Nat.mul_comm m k] at hmul
  omega

end VectorOp

def FloatVectorOp.InRange : FloatVectorOp → Prop
  | lanes _ p elements | pairwise _ p elements | unary _ p elements => elements * p.bits ≤ 128
  | byElement _ p elements index => elements * p.bits ≤ 128 ∧ (index + 1) * p.bits ≤ 128
  | convert _ _ | widen _ | narrow _ | reducePair _ _ | reduceFour _ => True

def SimdOp.InRange : SimdOp → Prop
  | vector op => op.InRange
  | float op => op.InRange
  | duplicateGeneral a => a.Fits
  | insertGeneral size index | toGeneral _ size index _ => (index + 1) * size.bits ≤ 128
  | lookup _ _ _ | scalarFromGeneral _ | floatImmediate _ _ | multiplyAdd _ _ _ _ | select _ _ | compare _ _ _
  | conditionalCompare _ _ _ _ | toInteger _ _ _ _ _ | fromInteger _ _ _ _ => True

end AArch64
