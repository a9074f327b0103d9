import AArch64.Proofs.Decoding.Extent
import AArch64.Proofs.Execution

/-! What the vector and floating-point words leave in the bits of a vector register beside their result. -/
namespace AArch64

theorem Lanes.ZeroFrom.mono {k n : Nat} {v : BitVec 128} (h : ZeroFrom k v) (hkn : k ≤ n) : ZeroFrom n v :=
  fun i hi => h i (Nat.le_trans hkn hi)

namespace InstructionWord

variable {w : InstructionWord}

/-- A word on vectors of 64 bits writes no more than these, unless its lanes get wider. -/
theorem extent_le_of_half (h : w.isVector = true) (h30 : w.bit 30 = false) (hleaves : w.leavesVectors = false)
    (hlong : w.isLong = false) : ∃ n ≤ 64, w.extent = .low n := by
  have hfloat : w.isFloat = false := by simp_all [isVector, isFloat]
  cases hreduction : w.isReduction with
  | false =>
    exact ⟨64, Nat.le_refl _, by
      simp [extent, isInsert, writesUpperHalf, isMoveToTop, hleaves, h, h30, hlong, hfloat, hreduction]⟩
  | true =>
    exact ⟨_, w.acrossSize.bits_le, by
      simp [extent, isInsert, writesUpperHalf, isMoveToTop, elementBits, hleaves, h, h30, hfloat, hreduction]⟩

theorem extent_of_writesElement (h : w.writesElement = true) : w.extent = .low w.elementBits := by
  simp only [writesElement, Bool.or_eq_true, Bool.and_eq_true] at h
  obtain (hscalar | ⟨hvector, hreduction⟩) | ⟨⟨hfloat, hleaves⟩, htop⟩ := h
  · simp only [isScalar, Bool.and_eq_true] at hscalar
    simp [extent, leavesVectors, isInsert, writesUpperHalf, isMoveToTop, isVector, isFloat, hscalar]
  · have h28 : w.bit 28 = false := by simpa [isVector] using hvector
    rw [SimdInstruction.extent_of_reduction h28 hreduction, elementBits, if_pos hvector]
  · have hvector : w.isVector = false := by simp_all [isVector, isFloat]
    simp_all [extent, isInsert, writesUpperHalf]

theorem extent_of_isInsert (h : w.isInsert = true) :
    w.extent = .field (w.copyIndex * w.copySize.bits) w.copySize.bits := by
  have hleaves : w.leavesVectors = false := by
    simp [isInsert, leavesVectors, isVector, isFloat] at h ⊢
    grind
  rw [extent, hleaves, h]
  rfl

theorem extent_of_writesUpperHalf (h : w.writesUpperHalf = true) : w.extent = .field 64 64 := by
  have hkept : w.leavesVectors = false ∧ w.isInsert = false := by
    simp only [writesUpperHalf, Bool.or_eq_true, Bool.and_eq_true] at h
    obtain ⟨⟨hvector, _⟩, hnarrow⟩ | htop := h
    · have hcopy : w.isCopy = false := by
        simp only [isNarrowing, isThreeDifferent, isTwoRegister, isShift, isCopy] at hnarrow ⊢
        grind
      have hfloat : w.isFloat = false := by simp_all [isVector, isFloat]
      simp [leavesVectors, isInsert, hcopy, hfloat]
    · simp only [isMoveToTop, isFloatInteger, isFloat, Bool.and_eq_true, Bool.not_eq_true', beq_iff_eq] at htop
      simp [leavesVectors, isInsert, isVector, isFloat, htop]
  rw [extent, hkept.1, hkept.2, h]
  rfl

end InstructionWord

namespace Machine

open InstructionWord Lanes

variable {w : InstructionWord}

/-- The destination keeps to the extent of the word, and no other vector register changes. -/
theorem holds_execute (hgroup : w.number 27 25 = 0b111) (m : Machine) {c : Completion} (hok : (m.execute w).1 = .ok c) :
    w.extent.Holds (m.state.vector w.rd) ((m.execute w).2.state.vector w.rd) ∧
      ∀ r ≠ w.rd, (m.execute w).2.state.vector r = m.state.vector r := by
  obtain ⟨j, hj⟩ := exists_simd_of_execute hgroup hok
  have hrd := (SimdInstruction.yields_decode w j hj).rd
  rw [(m.execute_simd hgroup hj).2, ← hrd, ← SimdInstruction.writes_decode w j hj]
  refine ⟨j.holds_execute m.state, fun r hr => ?_⟩
  rw [j.vector_execute, if_neg hr]

/-- A word of the vector and floating-point group changes no vector register but its destination. What that holds
afterwards depends on the word: the old value if the result goes elsewhere, zeros in the upper half after a word on
vectors of 64 bits whose lanes do not get wider, zeros above the element if there is a single one, and the old bits
around the field that is inserted or beside the upper half that is written. -/
theorem upper_bits_of_vector_results (hgroup : w.number 27 25 = 0b111) (m : Machine) {c : Completion}
    (hok : (m.execute w).1 = .ok c) :
    let old := m.state.vector w.rd
    let new := (m.execute w).2.state.vector w.rd
    (∀ r ≠ w.rd, (m.execute w).2.state.vector r = m.state.vector r) ∧
      (w.leavesVectors = true → new = old) ∧
      (w.isVector = true → w.bit 30 = false → w.leavesVectors = false → w.isLong = false → ZeroFrom 64 new) ∧
      (w.writesElement = true → ZeroFrom w.elementBits new) ∧
      (w.isInsert = true → EqualOutside (w.copyIndex * w.copySize.bits) w.copySize.bits old new) ∧
      (w.writesUpperHalf = true → EqualOutside 64 64 old new) := by
  intro old new
  obtain ⟨hholds, hothers⟩ := m.holds_execute hgroup hok
  refine ⟨hothers, fun h => ?_, fun hvector h30 hleaves hlong => ?_, fun h => ?_, fun h => ?_, fun h => ?_⟩
  · rw [extent, if_pos h] at hholds
    exact Extent.holds_nothing.1 hholds
  · obtain ⟨n, hn, he⟩ := extent_le_of_half hvector h30 hleaves hlong
    rw [he] at hholds
    exact ZeroFrom.mono hholds hn
  · rwa [extent_of_writesElement h] at hholds
  · rwa [extent_of_isInsert h] at hholds
  · rwa [extent_of_writesUpperHalf h] at hholds

/-- Over old contents of ones, an addition of eight bytes clears the upper half, an addition of single precision all but
32 bits, and a narrowing to the upper half keeps the lower one. -/
theorem upper_bits_of_vector_results_ones :
    let m : Machine := withState {} (State.setVector {} 0#5 (BitVec.allOnes 128))
    ZeroFrom 64 ((m.execute 0x0E228420#32).2.state.vector 0#5) ∧
      ZeroFrom 32 ((m.execute 0x1E222820#32).2.state.vector 0#5) ∧
      EqualOutside 64 64 (m.state.vector 0#5) ((m.execute 0x4E212820#32).2.state.vector 0#5) := by
  intro m
  have hbytes : (m.execute 0x0E228420#32).1 = .ok .ready := outcome_of_toOption (by decide +kernel)
  have hsingle : (m.execute 0x1E222820#32).1 = .ok .ready := outcome_of_toOption (by decide +kernel)
  have hnarrow : (m.execute 0x4E212820#32).1 = .ok .ready := outcome_of_toOption (by decide +kernel)
  obtain ⟨_, _, hhalf, _⟩ := upper_bits_of_vector_results (by decide) m hbytes
  obtain ⟨_, _, _, helement, _⟩ := upper_bits_of_vector_results (by decide) m hsingle
  obtain ⟨_, _, _, _, _, hupper⟩ := upper_bits_of_vector_results (by decide) m hnarrow
  exact ⟨hhalf (by decide) (by decide) (by decide) (by decide), helement (by decide), hupper (by decide)⟩

end Machine
end AArch64
