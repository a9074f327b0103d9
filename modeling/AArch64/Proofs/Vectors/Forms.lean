import AArch64.Proofs.Vectors.ThreeSame

/-! The words on vectors by class: which decoder a word goes to, and what it means that such a word is a function of its
two sources. -/
namespace AArch64

namespace InstructionWord

variable (w : InstructionWord)

/-- Words of the vector group that work on vectors and have the top bit clear, without which none has an instruction. -/
def IsVectorForm : Prop := w.number 27 25 = 0b111 ∧ w.isVector = true ∧ w.bit 31 = false

instance : Decidable w.IsVectorForm := inferInstanceAs (Decidable (_ ∧ _))

/-- `ZIP`, `UZP` and `TRN`. -/
def isPermute : Bool := !w.bit 24 && !w.bit 21 && !w.bit 10 && !w.bit 29 && w.bit 11 && !w.bit 15

/-- `TBL` and `TBX`. -/
def isLookup : Bool :=
  !w.bit 24 && !w.bit 21 && !w.bit 10 && !w.bit 29 && !w.bit 11 && !w.bit 15 && w.number 23 22 == 0

/-- `EXT`. -/
def isExtract : Bool := !w.bit 24 && !w.bit 21 && !w.bit 10 && w.bit 29 && !w.bit 15 && w.number 23 22 == 0

/-- Lanes of the same size in vectors of the same length. -/
def SameShape (w' : InstructionWord) : Prop := w'.laneSize = w.laneSize ∧ w'.bit 30 = w.bit 30

instance (w' : InstructionWord) : Decidable (w.SameShape w') := inferInstanceAs (Decidable (_ ∧ _))

/-- On every machine that holds `u` and `v` in the sources the word completes and leaves `r` in the destination,
whichever registers these are and whatever the destination held. -/
def Gives (u v r : BitVec 128) : Prop :=
  ∀ m : Machine, m.state.vector w.rn = u → m.state.vector w.rm = v →
    (m.execute w).1 = .ok .ready ∧ (m.execute w).2.state.vector w.rd = r

variable {w}

theorem gives_of_usualVector {op : VectorOp} (hgroup : w.number 27 25 = 0b111)
    (hd : SimdInstruction.decode w = SimdInstruction.usualVector w op) {u v r : BitVec 128}
    (hr : ∀ d, (op.eval ⟨u, v, d⟩).value = r) : w.Gives u v r := by
  rintro m rfl rfl
  obtain ⟨houtcome, hvector, _⟩ := m.execute_usualVector hgroup hd
  exact ⟨houtcome, hvector.trans (hr _)⟩

theorem hasLanes_of_sameShape {w' : InstructionWord} (h : w.SameShape w') (hlanes : w.HasLanes w.laneSize false) :
    w'.HasLanes w'.laneSize false := by
  rwa [HasLanes, h.1, h.2]

theorem laneCount_of_sameShape {w' : InstructionWord} (h : w.SameShape w') :
    w'.laneCount w'.laneSize false = w.laneCount w.laneSize false := by
  rw [laneCount, laneCount, h.1, h.2]

theorem laneCount_mul (size : ElementSize) : w.laneCount size false * size.bits = if w.bit 30 then 128 else 64 := by
  cases hfull : w.bit 30 <;> cases size <;> simp [laneCount, hfull, ElementSize.bits]

theorem two_dvd_laneCount {size : ElementSize} (h : w.HasLanes size false) : 2 ∣ w.laneCount size false := by
  cases hfull : w.bit 30 <;> cases size <;> simp_all [laneCount, HasLanes, ElementSize.bits]

end InstructionWord

namespace SimdInstruction

open InstructionWord

variable {w : InstructionWord} (h : w.IsVectorForm)

include h

theorem decode_of_vectorForm :
    decode w = if w.bit 24 then decodeVectorImmediate w else decodeVector w :=
  decode_of_vector (by simpa [isVector] using h.2.1)

theorem decode_of_threeDifferent (hclass : w.isThreeDifferent = true) : decode w = decodeThreeDifferent w := by
  simp only [isThreeDifferent, Bool.and_eq_true, Bool.not_eq_true'] at hclass
  simp [decode_of_vectorForm h, decodeVector, h.2.2, hclass]

theorem decode_of_twoRegister (hclass : w.isTwoRegister = true) : decode w = decodeTwoRegister w false := by
  simp only [isTwoRegister, Bool.and_eq_true, Bool.not_eq_true', beq_iff_eq] at hclass
  simp [decode_of_vectorForm h, decodeVector, h.2.2, hclass]

theorem decode_of_reduction (hclass : w.isReduction = true) : decode w = decodeAcross w := by
  simp only [isReduction, Bool.and_eq_true, Bool.not_eq_true', beq_iff_eq] at hclass
  simp [decode_of_vectorForm h, decodeVector, h.2.2, hclass]

theorem decode_of_permute (hclass : w.isPermute = true) : decode w = decodePermute w := by
  simp only [isPermute, Bool.and_eq_true, Bool.not_eq_true'] at hclass
  simp [decode_of_vectorForm h, decodeVector, h.2.2, hclass]

theorem decode_of_lookup (hclass : w.isLookup = true) : decode w = decodeLookup w := by
  simp only [isLookup, Bool.and_eq_true, Bool.not_eq_true', beq_iff_eq] at hclass
  simp [decode_of_vectorForm h, decodeVector, h.2.2, hclass]

theorem decode_of_extract (hclass : w.isExtract = true) : decode w = decodeExtractVector w := by
  simp only [isExtract, Bool.and_eq_true, Bool.not_eq_true', beq_iff_eq] at hclass
  simp [decode_of_vectorForm h, decodeVector, h.2.2, hclass]

omit h in
theorem vector?_of_hasLanes {size : ElementSize} (hlanes : w.HasLanes size false) :
    Arrangement.vector? size (w.bit 30) = some { size, elements := w.laneCount size false } :=
  arrangement?_eq.trans (if_pos hlanes)

end SimdInstruction
end AArch64
