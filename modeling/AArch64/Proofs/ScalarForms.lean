import AArch64.Proofs.UpperBits
import AArch64.Proofs.Vectors.Lanewise

/-! The scalar forms of the words on vectors. Such a word differs from the one on vectors of 128 bits in bit 28 alone;
it gives the first lane of what that one gives, with zeros above, and raises no other status flags. -/
namespace AArch64

namespace ElementSize

theorem lanes_pos (size : ElementSize) : 0 < 128 / size.bits := by
  cases size <;> decide

theorem bits_le_vector (size : ElementSize) : size.bits ≤ 128 := Nat.le_trans size.bits_le (by decide)

end ElementSize

namespace InstructionWord

variable (w : InstructionWord)

def vectorForm : InstructionWord := w &&& ~~~(1#32 <<< 28)

theorem bit_vectorForm {i : Nat} (h : i ≠ 28) : w.vectorForm.bit i = w.bit i := by
  by_cases hlt : i < 32
  · have hmask : ∀ k < 32, (1#32 <<< 28).getLsbD k = decide (k = 28) := by decide
    simp only [bit, vectorForm, BitVec.getLsbD_and, BitVec.getLsbD_not, hmask i hlt, h, hlt, decide_false, decide_true,
      Bool.not_false, Bool.and_true]
  · rw [bit, bit, BitVec.getLsbD_of_ge _ _ (Nat.not_lt.1 hlt), BitVec.getLsbD_of_ge _ _ (Nat.not_lt.1 hlt)]

theorem bit_28_vectorForm : w.vectorForm.bit 28 = false := by
  simp [bit, vectorForm]

/-- Fields below bit 28 are left alone. -/
theorem extractLsb_vectorForm {hi lo : Nat} (h : hi < 28) (hle : lo ≤ hi) :
    w.vectorForm.extractLsb hi lo = w.extractLsb hi lo :=
  extractLsb_congr hle fun _ _ hi' => w.bit_vectorForm (by omega)

theorem number_vectorForm {hi lo : Nat} (h : hi < 28) (hle : lo ≤ hi) :
    w.vectorForm.number hi lo = w.number hi lo :=
  congrArg BitVec.toNat (w.extractLsb_vectorForm h hle)

theorem rd_vectorForm : w.vectorForm.rd = w.rd := w.extractLsb_vectorForm (by decide) (by decide)

theorem rn_vectorForm : w.vectorForm.rn = w.rn := w.extractLsb_vectorForm (by decide) (by decide)

theorem rm_vectorForm : w.vectorForm.rm = w.rm := w.extractLsb_vectorForm (by decide) (by decide)

end InstructionWord

namespace SimdInstruction

open InstructionWord Lanes

variable (w : InstructionWord)

section VectorForm

theorem usual_vectorForm (op : SimdOp) : usual w.vectorForm op = usual w op := by
  rw [usual, usual, rd_vectorForm, rn_vectorForm, rm_vectorForm]

theorem lanePrecision_vectorForm : lanePrecision w.vectorForm = lanePrecision w := by
  rw [lanePrecision, lanePrecision, w.bit_vectorForm (by decide)]

theorem arrangement?_vectorForm (size : ElementSize) (scalar : Bool) :
    arrangement? w.vectorForm size scalar = arrangement? w size scalar := by
  rw [arrangement?, arrangement?, w.bit_vectorForm (by decide)]

theorem decodeThreeSame_vectorForm (scalar : Bool) :
    decodeThreeSame w.vectorForm scalar = decodeThreeSame w scalar := by
  simp (disch := decide) only [decodeThreeSame, decodeFloatThreeSame, usualVector, usualFloat, usual_vectorForm,
    lanePrecision_vectorForm, arrangement?_vectorForm, bit_vectorForm, number_vectorForm, extractLsb_vectorForm]

theorem decodeTwoRegister_vectorForm (scalar : Bool) :
    decodeTwoRegister w.vectorForm scalar = decodeTwoRegister w scalar := by
  simp (disch := decide) only [decodeTwoRegister, decodeIntegerMisc, decodeFloatMisc, decodeConvertLanes, usualVector,
    usualFloat, usual_vectorForm, lanePrecision_vectorForm, arrangement?_vectorForm, bit_vectorForm, number_vectorForm,
    extractLsb_vectorForm]

theorem decodeCopy_vectorForm : decodeCopy w.vectorForm = decodeCopy w := by
  simp (disch := decide) only [decodeCopy, usualVector, usual_vectorForm, bit_vectorForm, number_vectorForm,
    extractLsb_vectorForm]

theorem decodeShift_vectorForm (scalar : Bool) : decodeShift w.vectorForm scalar = decodeShift w scalar := by
  simp -zeta (disch := decide) only [decodeShift, usualVector, usualFloat, usual_vectorForm, arrangement?_vectorForm,
    bit_vectorForm, number_vectorForm]

theorem decodeByElement_vectorForm (scalar : Bool) :
    decodeByElement w.vectorForm scalar = decodeByElement w scalar := by
  simp (disch := decide) only [decodeByElement, decodeFloatByElement, decodeIntegerByElement, usualFloat,
    usual_vectorForm, lanePrecision_vectorForm, arrangement?_vectorForm, bit_vectorForm, number_vectorForm,
    extractLsb_vectorForm, rd_vectorForm, rn_vectorForm, rm_vectorForm]

end VectorForm

/-- The instruction gives the first lane, of this size, of what the other decoder's instruction gives, and raises no
flag that this one does not raise. -/
def FirstLaneOf (y : Except DecodeError SimdInstruction) (size : ElementSize) (i : SimdInstruction) : Prop :=
  ∃ j, y = .ok j ∧ j.rd = i.rd ∧ ∀ s, ∃ u v, (eval i s).value = .vector u ∧ (eval j s).value = .vector v ∧
    get u size.bits 0 = get v size.bits 0 ∧ (eval i s).raised ≤ (eval j s).raised

section FirstLane

variable {w} {y : Except DecodeError SimdInstruction} {size : ElementSize} {n : Nat}

theorem FirstLaneOf.of_lanewise {f : Nat → SimdOp} {result : Nat → VectorOperands → Flagged (BitVec 128)}
    (h : Lanewise size.bits result)
    (hop : ∀ k s, eval { rd := w.rd, rn := w.rn, rm := w.rm, op := f k } s = do
      pure (.vector (← result k { n := s.vector w.rn, m := s.vector w.rm, d := s.vector w.rd })))
    (hn : 0 < n) (hy : y = usual w (f n)) : Yields (usual w (f 1)) (FirstLaneOf y size) := by
  refine .ok ⟨_, hy, rfl, fun s => ?_⟩
  obtain ⟨hlane, hraised⟩ := h.first_lane size.bits_le_vector hn
    { n := s.vector w.rn, m := s.vector w.rm, d := s.vector w.rd }
  refine ⟨_, _, congrArg Flagged.value (hop 1 s), congrArg Flagged.value (hop n s), hlane, ?_⟩
  simpa [hop] using hraised

variable (h30 : w.bit 30 = true)

include h30

theorem arrangement?_of_full (size : ElementSize) :
    arrangement? w size false = some { size, elements := 128 / size.bits } := by
  simp [arrangement?, Arrangement.vector?, h30]

theorem FirstLaneOf.vector {f : Arrangement → VectorOp}
    (h : Lanewise size.bits fun k => (f { size, elements := k }).eval)
    (hy : y = withArrangement (arrangement? w size false) fun a => usualVector w (f a)) :
    Yields (withArrangement (arrangement? w size true) fun a => usualVector w (f a)) (FirstLaneOf y size) := by
  rw [arrangement?_of_full h30] at hy
  exact of_lanewise (f := fun k => .vector (f { size, elements := k })) h (fun _ _ => rfl) size.lanes_pos hy

theorem FirstLaneOf.float {p : Precision} {f : Nat → FloatVectorOp} (h : Lanewise p.bits fun k => (f k).eval)
    (hy : y = withArrangement (arrangement? w p.size false) fun a => usualFloat w (f a.elements)) :
    Yields (withArrangement (arrangement? w p.size true) fun a => usualFloat w (f a.elements))
      (FirstLaneOf y p.size) := by
  rw [arrangement?_of_full h30] at hy
  exact of_lanewise (f := fun k => .float (f k)) (p.bits_size ▸ h) (fun _ _ => rfl) p.size.lanes_pos hy

end FirstLane

/-- The operations with a wide form that are not pairwise have the lower opcodes. -/
theorem opcode_of_hasWideForm {opcode : Nat} {u : Bool} {op : LaneOp} (h : laneOp? opcode u = some op)
    (hwide : op.hasWideForm = true) : opcode < 20 ∨ opcode = 23 := by
  unfold laneOp? at h
  split at h
  all_goals first
    | exact .inl (by decide)
    | exact .inr rfl
    | cases h; done
    | cases h; cases hwide

section Decoders

variable {w} (h30 : w.bit 30 = true)

include h30

theorem firstLane_decodeFloatThreeSame :
    Yields (decodeFloatThreeSame w true) (FirstLaneOf (decodeFloatThreeSame w false) (lanePrecision w).size) := by
  generalize hy : decodeFloatThreeSame w false = y
  unfold decodeFloatThreeSame at hy ⊢
  cases hop : floatThreeSame (w.number 15 11) (w.bit 29) (w.bit 23) with
  | error e => exact yields_withArrangement fun _ _ => .error _
  | ok op =>
    simp only [hop, Bool.true_and, Bool.false_and, Bool.false_eq_true, if_false] at hy ⊢
    cases op with
    | pairwise op => exact yields_withArrangement fun _ _ => .error _
    | lanes op =>
      cases hform : (FloatThreeSame.lanes op).hasScalarForm with
      | false => exact yields_withArrangement fun _ _ => .error _
      | true => exact FirstLaneOf.float h30 (FloatVectorOp.lanewise_lanes _ op) hy.symm

theorem firstLane_decodeThreeSame :
    Yields (decodeThreeSame w true) (FirstLaneOf (decodeThreeSame w false) w.threeSameSize) := by
  refine .ite (fun hfloat => ?_) fun hint => .ite (fun _ => .error _) fun hbitwise => ?_
  · have hvector : decodeThreeSame w false = decodeFloatThreeSame w false := if_pos hfloat
    rw [threeSameSize, if_pos hfloat, hvector]
    exact firstLane_decodeFloatThreeSame h30
  rw [threeSameSize, if_neg hint]
  split
  next => exact .error _
  next op hop =>
    refine .guard fun hform => .guard fun hwide => .guard fun hpoly => ?_
    simp only [Bool.true_and, Bool.or_eq_true, not_or, Bool.not_eq_true, Bool.not_eq_false',
      beq_eq_false_iff_ne] at hform
    have hlow : ¬20 ≤ w.number 15 11 := by
      have hopcode := opcode_of_hasWideForm hop hform.1.1
      have h23 : w.number 15 11 ≠ 23 := hform.1.2
      omega
    simp only [if_neg hlow]
    refine FirstLaneOf.vector h30 (VectorOp.lanewise_lanes w.laneSize op (!w.bit 29)) ?_
    simp only [decodeThreeSame]
    rw [if_neg hint, if_neg hbitwise, hop]
    simp only [Bool.false_and, Bool.false_eq_true, if_false]
    rw [if_neg hwide, if_neg hpoly]
    simp only [if_neg hlow]

theorem firstLane_decodeIntegerMisc {size : ElementSize} (hsize : w.number 16 12 < 12 → size = w.laneSize) :
    Yields (decodeIntegerMisc w true) (FirstLaneOf (decodeIntegerMisc w false) size) := by
  generalize hy : decodeIntegerMisc w false = y
  have heach {op : LaneUnary}
      (hvector : decodeIntegerMisc w false =
        withArrangement (arrangement? w w.laneSize false) fun a => usualVector w (.unary op a)) :
      Yields (withArrangement (arrangement? w w.laneSize true) fun a => usualVector w (.unary op a))
        (FirstLaneOf y w.laneSize) :=
    FirstLaneOf.vector h30 (VectorOp.lanewise_unary w.laneSize op) (hy.symm.trans hvector)
  refine .guard fun _ => .guard fun hscalar => ?_
  have hrange : 8 ≤ w.number 16 12 ∧ w.number 16 12 ≤ 11 := by
    simp only [Bool.true_and, Bool.or_eq_true, not_or, decide_eq_true_eq] at hscalar
    omega
  rw [hsize (by omega)]
  split
  case h_11 hop | h_12 hop | h_14 hop => exact heach (by simp [decodeIntegerMisc, hop, laneSize])
  case h_13 hop hu => exact heach (by simp [decodeIntegerMisc, hop, hu, laneSize])
  all_goals first
    | exact .error _
    | omega

theorem firstLane_decodeFloatMisc :
    Yields (decodeFloatMisc w true) (FirstLaneOf (decodeFloatMisc w false) (lanePrecision w).size) := by
  generalize hy : decodeFloatMisc w false = y
  unfold decodeFloatMisc at hy ⊢
  cases hop : floatMisc (w.number 16 12) (w.bit 29) (w.bit 23) with
  | error e => exact yields_withArrangement fun _ _ => .error _
  | ok op =>
    simp only [hop, Bool.true_and, Bool.false_and, Bool.false_eq_true, if_false] at hy ⊢
    cases hform : op.hasLaneScalarForm with
    | false => exact yields_withArrangement fun _ _ => .error _
    | true => exact FirstLaneOf.float h30 (FloatVectorOp.lanewise_unary _ op) hy.symm

theorem firstLane_decodeTwoRegister :
    Yields (decodeTwoRegister w true) (FirstLaneOf (decodeTwoRegister w false) w.twoRegisterSize) := by
  refine .ite (fun hinteger => ?_) fun hinteger => .ite (fun _ => .error _) fun hconvert => ?_
  · have hvector : decodeTwoRegister w false = decodeIntegerMisc w false := if_pos hinteger
    rw [hvector]
    exact firstLane_decodeIntegerMisc h30 fun hop => by rw [twoRegisterSize, if_pos hop]
  · have hvector : decodeTwoRegister w false = decodeFloatMisc w false :=
      (if_neg hinteger).trans (if_neg hconvert)
    have hop : ¬w.number 16 12 < 12 := by
      simp at hinteger
      omega
    rw [hvector, twoRegisterSize, if_neg hop]
    exact firstLane_decodeFloatMisc h30

theorem firstLane_decodeShift : Yields (decodeShift w true) (FirstLaneOf (decodeShift w false) w.shiftSize) := by
  generalize hy : decodeShift w false = y
  have heach {f : Arrangement → VectorOp}
      (h : Lanewise w.shiftSize.bits fun k => (f { size := w.shiftSize, elements := k }).eval)
      (hvector : decodeShift w false =
        withArrangement (arrangement? w w.shiftSize false) fun a => usualVector w (f a)) :
      Yields (if true && w.shiftSize != .double then .error .unallocated
        else withArrangement (arrangement? w w.shiftSize true) fun a => usualVector w (f a))
        (FirstLaneOf y w.shiftSize) :=
    .guard fun _ => FirstLaneOf.vector h30 h (hy.symm.trans hvector)
  have hfixed {op : FloatUnary} {p : Precision} (hsize : w.shiftSize = p.size)
      (hvector : decodeShift w false =
        withArrangement (arrangement? w p.size false) fun a => usualFloat w (.unary op p a.elements)) :
      Yields (withArrangement (arrangement? w w.shiftSize true) fun a => usualFloat w (.unary op p a.elements))
        (FirstLaneOf y w.shiftSize) := by
    rw [hsize]
    exact FirstLaneOf.float h30 (FloatVectorOp.lanewise_unary p op) (hy.symm.trans hvector)
  refine .guard fun himmh => .guard fun hscalar => .guard fun hwide => ?_
  split
  case h_1 hop | h_2 hop | h_3 hop | h_4 hop =>
    refine heach (VectorOp.lanewise_shiftRight _ _ _ _ _) ?_
    simp -zeta only [decodeShift, if_neg himmh, hop]
    rfl
  case h_5 hop hu =>
    refine heach (VectorOp.lanewise_shiftRightInsert _ _) ?_
    simp -zeta only [decodeShift, if_neg himmh, hop, hu]
    rfl
  case h_6 hop =>
    refine heach (VectorOp.lanewise_shiftLeft _ _ _) ?_
    simp -zeta only [decodeShift, if_neg himmh, hop]
    rfl
  case h_10 hop | h_11 hop =>
    split
    next => exact .error _
    next => exact .error _
    next hsize =>
      refine hfixed (p := .single) hsize ?_
      simp -zeta only [decodeShift, if_neg himmh, hop, hsize]
      rfl
    next hsize =>
      refine hfixed (p := .double) hsize ?_
      simp -zeta only [decodeShift, if_neg himmh, hop, hsize]
      rfl
  case h_7 hop _ | h_8 hop _ | h_9 hop => simp [hop] at hscalar
  all_goals exact .error _

theorem firstLane_decodeByElement :
    Yields (decodeByElement w true) (FirstLaneOf (decodeByElement w false) (lanePrecision w).size) := by
  generalize hy : decodeByElement w false = y
  have hfloat (hvector : decodeByElement w false = decodeFloatByElement w false) :
      Yields (decodeFloatByElement w true) (FirstLaneOf y (lanePrecision w).size) := by
    rw [hy] at hvector
    refine .guard fun h23 => .guard fun hlow => ?_
    refine FirstLaneOf.float h30 (FloatVectorOp.lanewise_byElement _ _ _) (hvector.trans ?_)
    rw [decodeFloatByElement, if_neg h23, if_neg hlow]
  unfold decodeByElement
  split
  case h_1 hop hu | h_2 hop hu | h_3 hop hu => exact hfloat (by simp [decodeByElement, hop, hu])
  all_goals exact .error _

theorem firstLane_decodeScalarDuplicate (h29 : w.bit 29 = false) (h14 : w.number 14 11 = 0) :
    Yields (decodeScalarDuplicate w) (FirstLaneOf (decodeCopy w) w.copySize) := by
  generalize hy : decodeCopy w = y
  unfold decodeScalarDuplicate
  split
  next => exact .error _
  next size index hlane =>
    obtain ⟨rfl, _⟩ := laneNumber?_eq hlane
    refine FirstLaneOf.vector h30 (VectorOp.lanewise_duplicate _ index) ?_
    rw [← hy]
    simp [decodeCopy, hlane, h29, h14, arrangement?]

end Decoders

section Tables

variable {w} (h30 : w.bit 30 = true)

include h30

theorem firstLane_decodeScalar (h24 : w.bit 24 = false) (hreduction : w.isReduction = false) :
    Yields (decodeScalar w) (FirstLaneOf (decodeVector w.vectorForm) w.scalarSize) := by
  generalize hy : decodeVector w.vectorForm = y
  simp (disch := decide) only [decodeVector, bit_vectorForm, number_vectorForm, decodeThreeSame_vectorForm,
    decodeTwoRegister_vectorForm, decodeCopy_vectorForm] at hy
  refine .guard fun h31 => .ite (fun h21 => ?_) fun h21 => .require fun hcopy => ?_
  · rw [if_neg h31, if_pos h21] at hy
    refine .ite (fun h10 => ?_) fun h10 => .guard fun h11 => .ite (fun h17 => ?_) fun _ => .require fun h17 => ?_
    · rw [if_pos h10] at hy
      rw [scalarSize_threeSame h24 h21 h10, ← hy]
      exact firstLane_decodeThreeSame h30
    · rw [if_neg h10, if_neg h11, if_pos h17] at hy
      rw [scalarSize_twoRegister (by simp_all [isTwoRegister]), ← hy]
      exact firstLane_decodeTwoRegister h30
    · simp_all [isReduction]
  · simp only [Bool.and_eq_true, beq_iff_eq, Bool.not_eq_true'] at hcopy
    obtain ⟨⟨⟨h10, h22⟩, h29⟩, h11⟩ := hcopy
    have hplain : w.bit 15 = false ∧ w.number 14 11 = 0 := by
      simp only [number_eq, bit_eq_false] at h11 ⊢
      omega
    rw [if_neg h31, if_neg h21, if_pos h10] at hy
    rw [scalarSize_copy h24 (eq_false_of_ne_true h21), ← hy]
    simp only [h22, hplain.1, BEq.rfl, Bool.not_false, Bool.and_self, if_true]
    exact firstLane_decodeScalarDuplicate h30 h29 hplain.2

theorem firstLane_decodeScalarImmediate (h24 : w.bit 24 = true) :
    Yields (decodeScalarImmediate w) (FirstLaneOf (decodeVectorImmediate w.vectorForm) w.scalarSize) := by
  generalize hy : decodeVectorImmediate w.vectorForm = y
  simp (disch := decide) only [decodeVectorImmediate, bit_vectorForm, number_vectorForm, decodeShift_vectorForm,
    decodeByElement_vectorForm] at hy
  refine .guard fun h31 => .ite (fun h10 => ?_) fun h10 => ?_
  · rw [scalarSize_shift h24 h10]
    -- The decoder of vectors takes a field of zeros for another instruction; the scalar one has none for it.
    intro i hi
    have himmh : ¬(w.number 22 19 == 0) = true := by
      intro hzero
      rw [decodeShift, if_pos hzero] at hi
      cases hi
    rw [if_neg h31, if_neg (by simp [h10]), if_neg himmh] at hy
    rw [← hy]
    exact firstLane_decodeShift h30 i hi
  · rw [if_neg h31, if_pos (by simp [h10])] at hy
    rw [scalarSize_byElement h24 (eq_false_of_ne_true h10), ← hy]
    exact firstLane_decodeByElement h30

/-- A scalar form gives the first lane of what the form on vectors gives. -/
theorem firstLane_decode (h28 : w.bit 28 = true) (hreduction : w.isReduction = false) :
    Yields (decode w) (FirstLaneOf (decode w.vectorForm) w.scalarSize) := by
  unfold decode
  simp (disch := decide) only [KeyTable.key_simdAndFloat, bit_vectorForm, bit_28_vectorForm, h28, h30]
  cases h24 : w.bit 24 with
  | false => exact firstLane_decodeScalar h30 h24 hreduction
  | true => exact firstLane_decodeScalarImmediate h30 h24

end Tables

end SimdInstruction
namespace Machine

open InstructionWord Lanes

variable {w : InstructionWord}

/-- A scalar form that executes on one machine, and is not a reduction of two lanes, executes on every machine, and so
does the word on vectors of 128 bits that differs from it in bit 28 alone. Both leave the same first lane in the
destination; above this one, the scalar form leaves zeros; and a status flag that is set after the scalar form is set
after the other word. -/
theorem scalar_forms_agree_with_vector_forms (hgroup : w.number 27 25 = 0b111) (hscalar : w.isScalar = true)
    (hreduction : w.isReduction = false) {n : Machine} {c : Completion} (hok : (n.execute w).1 = .ok c) (m : Machine) :
    (m.execute w).1 = .ok .ready ∧ (m.execute w.vectorForm).1 = .ok .ready ∧
      (let v := (m.execute w).2.state.vector w.rd
      get v w.scalarSize.bits 0 = get ((m.execute w.vectorForm).2.state.vector w.rd) w.scalarSize.bits 0 ∧
        ZeroFrom w.scalarSize.bits v) ∧
      ∀ i, (m.execute w).2.state.fpsr.toBits.getLsbD i = true →
        (m.execute w.vectorForm).2.state.fpsr.toBits.getLsbD i = true := by
  obtain ⟨h28, h30⟩ : w.bit 28 = true ∧ w.bit 30 = true := by simpa [isScalar] using hscalar
  have hgroup' : w.vectorForm.number 27 25 = 0b111 := by rw [number_vectorForm w (by decide) (by decide), hgroup]
  obtain ⟨i, hi⟩ := exists_simd_of_execute hgroup hok
  obtain ⟨j, hj, hrd, hlane⟩ := SimdInstruction.firstLane_decode h30 h28 hreduction i hi
  obtain ⟨u, v, hu, hv, hget, hraised⟩ := hlane m.state
  obtain ⟨houtcome, hstate⟩ := m.execute_simd hgroup hi
  obtain ⟨houtcome', hstate'⟩ := m.execute_simd hgroup' hj
  have hzero := (m.holds_execute hgroup houtcome).1
  rw [SimdInstruction.extent_of_scalar h28 h30] at hzero
  refine ⟨houtcome, houtcome', ⟨?_, hzero⟩, fun k => ?_⟩
  · rw [hstate, hstate', ← (SimdInstruction.yields_decode w i hi).rd, i.vector_execute, if_pos rfl, hu, ← hrd,
      j.vector_execute, if_pos rfl, hv]
    exact hget
  · rw [hstate, hstate', i.fpsr_execute, j.fpsr_execute, Fpsr.getLsbD_toBits, Fpsr.getLsbD_toBits, Fpsr.bit_raise,
      Fpsr.bit_raise, Bool.or_eq_true, Bool.or_eq_true]
    exact Or.imp_right (hraised k)

/-- `SQADD S2, S0, S1` and `SQADD V2.4S, V0.4S, V1.4S` on lanes of which the first saturates. -/
theorem scalar_forms_agree_with_vector_forms_saturating :
    let m : Machine := withState {} <| State.setVector
      (State.setVector (State.setVector {} 0#5 0x1234567800000001000000027FFFFFFF#128) 1#5 1#128) 2#5
      (BitVec.allOnes 128)
    (m.execute 0x5EA10C02#32).1 = .ok .ready ∧ (m.execute 0x4EA10C02#32).1 = .ok .ready ∧
      get ((m.execute 0x5EA10C02#32).2.state.vector 2#5) 32 0 =
        get ((m.execute 0x4EA10C02#32).2.state.vector 2#5) 32 0 ∧
      ZeroFrom 32 ((m.execute 0x5EA10C02#32).2.state.vector 2#5) ∧
      (m.execute 0x4EA10C02#32).2.state.fpsr.toBits.getLsbD 27 = true := by
  intro m
  have hok : (m.execute 0x5EA10C02#32).1 = .ok .ready := outcome_of_toOption (by decide +kernel)
  obtain ⟨hscalar, hvector, ⟨hget, hzero⟩, hflags⟩ :=
    scalar_forms_agree_with_vector_forms (by decide) (by decide) (by decide) hok m
  exact ⟨hscalar, hvector, hget, hzero, hflags 27 (by decide +kernel)⟩

end Machine
end AArch64
