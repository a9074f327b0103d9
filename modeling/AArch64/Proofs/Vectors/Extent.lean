import AArch64.Proofs.Registers
import AArch64.Simd.Basic

/-! The part of its destination that a vector operation writes. A result fills the register from the lowest bit up to
some bit and leaves zeros above, or it takes the place of one field of the old value. -/
namespace AArch64

namespace Lanes

variable {esize : Nat}

/-- All bits of the value from bit `n` on are clear. -/
def ZeroFrom (n : Nat) (v : BitVec 128) : Prop := ∀ i, n ≤ i → v.getLsbD i = false

/-- The two values are equal but for the `n` bits from bit `start` on. -/
def EqualOutside (start n : Nat) (v w : BitVec 128) : Prop :=
  ∀ i, i < start ∨ start + n ≤ i → w.getLsbD i = v.getLsbD i

theorem getLsbD_set (v : BitVec 128) (i : Nat) (x : BitVec esize) (j : Nat) :
    (set v i x).getLsbD j =
      if i * esize ≤ j ∧ j < i * esize + esize ∧ j < 128 then x.getLsbD (j - i * esize) else v.getLsbD j := by
  have hbeyond (y : BitVec esize) (hj : i * esize + esize ≤ j) : y.getLsbD (j - i * esize) = false :=
    BitVec.getLsbD_of_ge y _ (by omega)
  simp only [set, BitVec.getLsbD_or, BitVec.getLsbD_and, BitVec.getLsbD_not, BitVec.getLsbD_shiftLeft,
    BitVec.getLsbD_setWidth]
  split
  next h => simp [h, Nat.not_lt.2 h.1, show j - i * esize < esize by omega, show j - i * esize < 128 by omega]
  next h =>
    by_cases h128 : j < 128
    · by_cases hlow : j < i * esize
      · simp [h128, hlow]
      · simp [h128, hlow, hbeyond _ (by omega)]
    · simp [h128, BitVec.getLsbD_of_ge v j (Nat.not_lt.1 h128)]

theorem equalOutside_set (v : BitVec 128) (i : Nat) (x : BitVec esize) :
    EqualOutside (i * esize) esize v (set v i x) := by
  intro j hj
  rw [getLsbD_set, if_neg]
  omega

theorem zeroFrom_full (v : BitVec 128) : ZeroFrom 128 v := fun i hi => BitVec.getLsbD_of_ge v i hi

theorem zeroFrom_build (n : Nat) (f : Nat → BitVec esize) : ZeroFrom (n * esize) (build n f) := by
  induction n with
  | zero => exact fun i _ => BitVec.getLsbD_zero
  | succ n ih =>
    intro i hi
    rw [Nat.succ_mul] at hi
    rw [build, equalOutside_set _ _ _ _ (.inr hi)]
    exact ih i (by omega)

theorem zeroFrom_buildFlagged (n : Nat) (f : Nat → Flagged (BitVec esize)) :
    ZeroFrom (n * esize) (buildFlagged n f).value := by
  rw [value_buildFlagged]
  exact zeroFrom_build n _

theorem zeroFrom_scalar (x : BitVec esize) : ZeroFrom esize (scalar x) := by
  intro i hi
  simp [scalar, BitVec.getLsbD_of_ge x i hi]

theorem zeroFrom_sized (v : BitVec 128) (full : Bool) : ZeroFrom (if full then 128 else 64) (sized v full) := by
  cases full with
  | true => exact zeroFrom_full _
  | false =>
    intro i hi
    have h64 : ¬i < 64 := Nat.not_lt.2 hi
    simp [sized, clearFrom, h64]

end Lanes

open Lanes

/-- The bits that an operation writes. -/
inductive Extent
  /-- The low bits; those above become zero. -/
  | low (bits : Nat)
  /-- A field; what is outside of it stays. -/
  | field (start bits : Nat)
  deriving DecidableEq

namespace Extent

/-- No bit at all is written. -/
def nothing : Extent := .field 0 0

/-- The new value has zeros above the low bits, or the old value on both sides of the field. -/
def Holds (e : Extent) (old new : BitVec 128) : Prop :=
  match e with
  | low n => ZeroFrom n new
  | field start n => EqualOutside start n old new

theorem holds_nothing {old new : BitVec 128} : nothing.Holds old new ↔ new = old := by
  constructor
  · intro h
    exact BitVec.eq_of_getLsbD_eq fun i _ => h i (.inr (Nat.zero_le i))
  · rintro rfl
    exact fun _ _ => rfl

end Extent

namespace VectorOp

/-- The extent of a result of 64 bits. -/
def halfExtent (upper : Bool) : Extent := if upper then .field 64 64 else .low 64

theorem holds_half (d result : BitVec 128) (upper : Bool) : (halfExtent upper).Holds d (half d result upper) := by
  cases upper with
  | true => exact equalOutside_set d 1 (result.setWidth 64)
  | false => exact zeroFrom_sized result false

def extent : VectorOp → Extent
  | lanes _ _ a | pairwise _ _ a | byElement _ a _ | unary _ a | reverse _ a | shiftRight _ _ _ _ a
  | shiftRightInsert _ a | shiftLeft _ _ a | duplicate _ a | permute _ _ a => .low (a.elements * a.esize)
  | bitwise _ full | immediate _ _ full => .low (if full then 128 else 64)
  | long _ _ _ size _ | shiftLeftLong _ _ size _ => .low (halfLanes size * (2 * size.bits))
  | highNarrow _ _ upper | narrow _ upper | shiftRightNarrow _ _ _ upper => halfExtent upper
  | addLongPairs _ _ size elements => .low (elements * (2 * size.bits))
  | reduce _ _ widening a => .low (if widening then 2 * a.esize else a.esize)
  | insert size target _ => .field (target * size.bits) size.bits
  | extract _ full => .low ((if full then 16 else 8) * 8)

theorem holds_eval (op : VectorOp) (v : VectorOperands) : op.extent.Holds v.d (op.eval v).value := by
  cases op with
  | lanes | pairwise | byElement => exact zeroFrom_buildFlagged _ _
  | bitwise | immediate => exact zeroFrom_sized _ _
  | long | unary | reverse | addLongPairs | shiftRight | shiftRightInsert | shiftLeft | shiftLeftLong | duplicate
  | permute | extract => exact zeroFrom_build _ _
  | highNarrow | narrow | shiftRightNarrow => exact holds_half _ _ _
  | reduce => exact zeroFrom_scalar _
  | insert => exact equalOutside_set _ _ _

end VectorOp

namespace FloatVectorOp

def extent : FloatVectorOp → Extent
  | lanes _ p elements | byElement _ p elements _ | pairwise _ p elements | unary _ p elements =>
    .low (elements * p.bits)
  | convert _ q => .low q.bits
  | widen _ => .low 128
  | narrow upper => VectorOp.halfExtent upper
  | reducePair _ p => .low p.bits
  | reduceFour _ => .low 32

theorem holds_eval (op : FloatVectorOp) (v : VectorOperands) : op.extent.Holds v.d (op.eval v).value := by
  cases op with
  | lanes | byElement | pairwise | unary => exact zeroFrom_buildFlagged _ _
  | convert | reducePair | reduceFour => exact zeroFrom_scalar _
  | widen => exact zeroFrom_full _
  | narrow => exact VectorOp.holds_half _ _ _

end FloatVectorOp

/-- Nothing is written where the result goes to a general register or to the flags. -/
def SimdOp.extent : SimdOp → Extent
  | vector op => op.extent
  | float op => op.extent
  | lookup _ _ full => .low (if full then 128 else 64)
  | duplicateGeneral a => .low (a.elements * a.esize)
  | insertGeneral size index => .field (index * size.bits) size.bits
  | scalarFromGeneral width => .low width.bits
  | floatImmediate p _ | multiplyAdd p _ _ _ | select p _ | fromInteger p _ _ _ => .low p.bits
  | toGeneral _ _ _ _ | compare _ _ _ | conditionalCompare _ _ _ _ | toInteger _ _ _ _ _ => .nothing

/-- The vector in a result, if it is one; the old one stays otherwise. -/
def SimdResult.vectorOr (r : SimdResult) (old : BitVec 128) : BitVec 128 :=
  match r with
  | vector x => x
  | general _ | flags _ => old

theorem SimdResult.vector_apply (r : SimdResult) (rd q : Register) (s : State) :
    (r.apply rd s).vector q = if q = rd then r.vectorOr (s.vector rd) else s.vector q := by
  cases r with
  | vector x => exact s.vector_setVector q rd x
  | general | flags =>
    split
    next h => exact congrArg s.vector h
    next => rfl

namespace SimdInstruction

variable (i : SimdInstruction) (s : State)

theorem vector_execute (r : Register) :
    (i.execute s).vector r = if r = i.rd then (eval i s).value.vectorOr (s.vector i.rd) else s.vector r :=
  SimdResult.vector_apply _ _ _ _

theorem holds_execute : i.op.extent.Holds (s.vector i.rd) ((i.execute s).vector i.rd) := by
  rw [vector_execute, if_pos rfl]
  obtain ⟨rd, rn, rm, op⟩ := i
  cases op with
  | vector op => exact op.holds_eval _
  | float op => exact op.holds_eval _
  | lookup => exact zeroFrom_sized _ _
  | duplicateGeneral => exact zeroFrom_build _ _
  | insertGeneral => exact equalOutside_set _ _ _
  | scalarFromGeneral | floatImmediate | multiplyAdd | select | fromInteger => exact zeroFrom_scalar _
  | conditionalCompare p signalling condition otherwise =>
    refine Extent.holds_nothing.2 ?_
    simp only [eval]
    split <;> rfl
  | toGeneral | compare | toInteger => exact Extent.holds_nothing.2 rfl

end SimdInstruction
end AArch64
