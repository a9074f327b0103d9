import AArch64.Proofs.UpperBits
import AArch64.Proofs.Vectors.Lanewise

/-! What a word that decodes to a vector operation does to a machine, and the words with three registers of the same
shape: when such a word has an instruction on integers, and how many lanes this works on. -/
namespace AArch64

/-- The vectors that a word names. -/
def State.vectorOperands (s : State) (w : InstructionWord) : VectorOperands where
  n := s.vector w.rn
  m := s.vector w.rm
  d := s.vector w.rd

namespace Lanes

variable {esize : Nat}

theorem bit_raised_buildFlagged (n : Nat) (f : Nat → Flagged (BitVec esize)) (k : Nat) :
    (buildFlagged n f).raised.bit k = true ↔ ∃ i < n, (f i).raised.bit k = true := by
  induction n with
  | zero =>
    have hnone : ({} : Fpsr).bit k = false := by
      unfold Fpsr.bit
      split <;> rfl
    simp [buildFlagged, hnone]
  | succ n ih =>
    rw [raised_buildFlagged_succ, Fpsr.bit_raise, Bool.or_eq_true, ih]
    simp only [Nat.lt_succ_iff_lt_or_eq]
    constructor
    · rintro (⟨i, hi, h⟩ | h)
      · exact ⟨i, .inl hi, h⟩
      · exact ⟨n, .inr rfl, h⟩
    · rintro ⟨i, hi | rfl, h⟩
      · exact .inl ⟨i, hi, h⟩
      · exact .inr h

end Lanes

namespace Machine

open SimdInstruction

variable {w : InstructionWord}

/-- What a word computes goes to the register that it names or to the condition flags, and what it raises goes to the
status register. -/
theorem execute_result {α : Type} {op : SimdOp} {result : Flagged α} {f : α → SimdResult}
    (hgroup : w.number 27 25 = 0b111) (hd : decode w = usual w op) (m : Machine)
    (hresult : eval { rd := w.rd, rn := w.rn, rm := w.rm, op := op } m.state = do pure (f (← result))) :
    (m.execute w).1 = .ok .ready ∧ (m.execute w).2.state = (f result.value).apply w.rd (m.state.raise result.raised) := by
  obtain ⟨houtcome, hstate⟩ := m.execute_simd hgroup hd
  refine ⟨houtcome, hstate.trans ?_⟩
  rw [SimdInstruction.execute, hresult, Flagged.value_bind, Flagged.raised_bind, Flagged.value_pure, Flagged.raised_pure,
    Fpsr.raise_none]

/-- A vector result goes to the destination and the flags that were raised go to the status register. -/
theorem execute_usual {op : SimdOp} {result : Flagged (BitVec 128)} (hgroup : w.number 27 25 = 0b111)
    (hd : decode w = usual w op) (m : Machine)
    (hresult : eval { rd := w.rd, rn := w.rn, rm := w.rm, op := op } m.state = do pure (.vector (← result))) :
    (m.execute w).1 = .ok .ready ∧ (m.execute w).2.state.vector w.rd = result.value ∧
      (m.execute w).2.state.fpsr = m.state.fpsr.raise result.raised := by
  obtain ⟨houtcome, hstate⟩ := execute_result hgroup hd m hresult
  refine ⟨houtcome, ?_, ?_⟩
  · rw [hstate, SimdResult.apply, State.vector_setVector, if_pos rfl]
  · rw [hstate]
    rfl

theorem execute_usualVector {op : VectorOp} (hgroup : w.number 27 25 = 0b111) (hd : decode w = usualVector w op)
    (m : Machine) :
    (m.execute w).1 = .ok .ready ∧
      (m.execute w).2.state.vector w.rd = (op.eval (m.state.vectorOperands w)).value ∧
      (m.execute w).2.state.fpsr = m.state.fpsr.raise (op.eval (m.state.vectorOperands w)).raised :=
  m.execute_usual hgroup hd rfl

theorem execute_of_simd_error {e : DecodeError} (hgroup : w.number 27 25 = 0b111) (hd : decode w = .error e)
    (m : Machine) : m.execute w = (.error e.kind, m) := by
  refine m.execute_of_decode_error ?_
  rw [Instruction.decode_of_simd hgroup, hd]
  rfl

theorem get_execute_lanes {op : LaneOp} {signed : Bool} {size : ElementSize} {n i : Nat}
    (hgroup : w.number 27 25 = 0b111)
    (hd : decode w = usualVector w (.lanes op signed { size, elements := n })) (m : Machine) (hi : i < n)
    (hfits : (i + 1) * size.bits ≤ 128) :
    Lanes.get ((m.execute w).2.state.vector w.rd) size.bits i =
      (op.apply signed (Lanes.get (m.state.vector w.rn) size.bits i) (Lanes.get (m.state.vector w.rm) size.bits i)
        (Lanes.get (m.state.vector w.rd) size.bits i)).value := by
  obtain ⟨_, hvector, _⟩ := m.execute_usualVector hgroup hd
  rw [hvector, VectorOp.eval, Lanes.value_buildFlagged]
  exact Lanes.get_build _ hi hfits

end Machine

namespace InstructionWord

variable (w : InstructionWord)

/-- The vector has lanes of this size. One of 64 bits does not count as a vector with a single lane. -/
def HasLanes (size : ElementSize) (scalar : Bool) : Prop := scalar = true ∨ w.bit 30 = true ∨ size ≠ .double

instance (size : ElementSize) (scalar : Bool) : Decidable (w.HasLanes size scalar) :=
  inferInstanceAs (Decidable (_ ∨ _))

/-- Number of lanes: one in a scalar form, otherwise as many as 64 or 128 bits have room for. -/
def laneCount (size : ElementSize) (scalar : Bool) : Nat :=
  if scalar then 1 else (if w.bit 30 then 128 else 64) / size.bits

/-- The fixed bits of the words with three registers of the same shape. -/
def IsThreeSame (scalar : Bool) : Prop :=
  w.bit 31 = false ∧ w.number 28 24 = (if scalar then 0b11110 else 0b01110) ∧ (scalar = true → w.bit 30 = true) ∧
    w.bit 21 = true ∧ w.bit 10 = true

instance (scalar : Bool) : Decidable (w.IsThreeSame scalar) := inferInstanceAs (Decidable (_ ∧ _))

/-- The operation exists for the lanes of the word. Only some operations have lanes of 64 bits, the product of
polynomials has lanes of bytes alone, and only the saturating operations are scalar on narrow lanes. -/
def Suits (op : LaneOp) (scalar : Bool) : Prop :=
  w.HasLanes w.laneSize scalar ∧ (w.laneSize = .double → op.hasWideForm = true) ∧
    (op = .polynomialMultiply → w.laneSize = .byte) ∧
    (scalar = true → op.hasWideForm = true ∧ (w.laneSize = .double ∨ op = .saturatingAdd ∨ op = .saturatingSub))

instance (op : LaneOp) (scalar : Bool) : Decidable (w.Suits op scalar) := inferInstanceAs (Decidable (_ ∧ _))

variable {w} {size : ElementSize} {scalar : Bool}

theorem arrangement?_eq :
    SimdInstruction.arrangement? w size scalar =
      if w.HasLanes size scalar then some { size, elements := w.laneCount size scalar } else none := by
  cases scalar <;> cases hfull : w.bit 30 <;> cases size <;>
    simp [SimdInstruction.arrangement?, Arrangement.vector?, Arrangement.scalar, HasLanes, laneCount, hfull]

theorem lane_fits {i : Nat} (hi : i < w.laneCount size scalar) : (i + 1) * size.bits ≤ 128 := by
  refine Lanes.succ_mul_le ?_ hi
  cases scalar <;> cases hfull : w.bit 30 <;> cases size <;> simp [laneCount, hfull, ElementSize.bits]

theorem group_of_threeSame (h : w.IsThreeSame scalar) : w.number 27 25 = 0b111 := by
  have hclass := h.2.1
  simp only [number_eq] at hclass ⊢
  split at hclass <;> omega

theorem group_of_float (h : w.number 30 24 = 0b0011110) : w.number 27 25 = 0b111 := by
  simp only [number_eq] at h ⊢
  omega

/-- The words that compute on floating-point scalars alone, without a general register. -/
theorem fields_of_floatData (h : w.number 31 24 = 0b00011110) :
    w.number 30 24 = 0b0011110 ∧ w.bit 29 = false ∧ w.bit 31 = false := by
  simp only [number_eq, bit_eq_false] at h ⊢
  omega

end InstructionWord

/-- The number in lane `i` of a register, signed unless the U bit of the word is set. -/
def State.laneNumber (s : State) (w : InstructionWord) (r : Register) (i : Nat) : Int :=
  Lane.value (!w.bit 29) (Lanes.get (s.vector r) w.laneSize.bits i)

namespace SimdInstruction

open InstructionWord

variable {w : InstructionWord} {scalar : Bool}

theorem decode_of_vector (h28 : w.bit 28 = false) :
    decode w = if w.bit 24 then decodeVectorImmediate w else decodeVector w := by
  rw [decode, KeyTable.key_simdAndFloat, h28]
  cases w.bit 24 <;> cases w.bit 30 <;> rfl

theorem decode_of_scalar (h28 : w.bit 28 = true) (h30 : w.bit 30 = true) :
    decode w = if w.bit 24 then decodeScalarImmediate w else decodeScalar w := by
  rw [decode, KeyTable.key_simdAndFloat, h28, h30]
  cases w.bit 24 <;> rfl

/-- The scalar floating-point instructions but the fused products. -/
theorem decode_of_float (h : w.number 30 24 = 0b0011110) : decode w = decodeFloat w := by
  have hkey : KeyTable.simdAndFloat.key w = 4 := by
    simp only [KeyTable.key_simdAndFloat, number_eq, toNat_bit] at h ⊢
    omega
  simp only [decode, hkey]

theorem decode_of_threeSame (h : w.IsThreeSame scalar) : decode w = decodeThreeSame w scalar := by
  obtain ⟨h31, hclass, h30, h21, h10⟩ := h
  have hbits : w.bit 28 = scalar ∧ w.bit 24 = false := by
    cases scalar <;> simp only [number_eq, bit_eq_true, bit_eq_false, Bool.false_eq_true, if_false, if_true] at hclass ⊢ <;>
      omega
  cases scalar with
  | false => simp [decode_of_vector hbits.1, hbits.2, decodeVector, h31, h21, h10]
  | true => simp [decode_of_scalar hbits.1 (h30 rfl), hbits.2, decodeScalar, h31, h21, h10]

/-- The operations with a lower opcode work lane by lane. -/
theorem decode_lanes {op : LaneOp} (h : w.IsThreeSame scalar) (hlow : w.number 15 11 < 20)
    (hop : laneOp? (w.number 15 11) (w.bit 29) = some op) :
    decode w =
      if w.Suits op scalar then
        usualVector w (.lanes op (!w.bit 29) { size := w.laneSize, elements := w.laneCount w.laneSize scalar })
      else .error .unallocated := by
  have hbitwise : (w.number 15 11 == 3) = false := by
    rw [beq_eq_false_iff_ne]
    intro h3
    simp [h3, laneOp?] at hop
  have h23 : (w.number 15 11 == 23) = false := by
    rw [beq_eq_false_iff_ne]
    omega
  rw [decode_of_threeSame h, decodeThreeSame]
  simp only [if_neg (show ¬24 ≤ w.number 15 11 by omega), if_neg (show ¬20 ≤ w.number 15 11 by omega), hbitwise, h23, hop,
    arrangement?_eq, ← laneSize.eq_1]
  simp only [Bool.false_eq_true, if_false, Bool.or_false, Bool.and_eq_true, Bool.or_eq_true, Bool.not_eq_true', bne_iff_ne,
    Bool.or_eq_false_iff, beq_iff_eq, beq_eq_false_iff_ne]
  by_cases hsuits : w.Suits op scalar
  · obtain ⟨hlanes, hwide, hbyte, hscalar⟩ := hsuits
    rw [if_neg (by grind), if_neg (by grind), if_neg (by grind), if_pos hlanes, if_pos ⟨hlanes, hwide, hbyte, hscalar⟩]
    rfl
  · rw [if_neg hsuits]
    split
    · rfl
    split
    · rfl
    split
    · rfl
    have hlanes : ¬w.HasLanes w.laneSize scalar := fun hlanes => hsuits ⟨hlanes, by grind, by grind, by grind⟩
    rw [if_neg hlanes]
    rfl

end SimdInstruction
end AArch64
