import AArch64.Proofs.Decoding.Extent
import AArch64.Proofs.Vectors.ThreeSame

/-! The second forms of the long, wide and narrowing words on vectors, which have bit 30 set. On wide lanes they do what
the plain forms do, with the upper halves of the narrow operands in place of the lower ones, and narrow lanes go to the
upper half of the destination. -/
namespace AArch64

open Lanes

namespace VectorOperands

/-- The second value has in the lower halves of its narrow operands what the first one has in the upper halves. The
wide first operand and the old destination are the same. -/
structure IsLowered (v v' : VectorOperands) (wideFirst readsSecond : Bool) : Prop where
  first : if wideFirst then v'.n = v.n else get v'.n 64 0 = get v.n 64 1
  second : readsSecond = true → get v'.m 64 0 = get v.m 64 1
  old : v'.d = v.d

structure SameSources (v v' : VectorOperands) (readsSecond : Bool) : Prop where
  first : v'.n = v.n
  second : readsSecond = true → v'.m = v.m

end VectorOperands

namespace VectorOp

theorem extractLsb'_half (v : BitVec 128) (size : ElementSize) (upper : Bool) {i : Nat} (hi : i < halfLanes size) :
    (get v 64 upper.toNat).extractLsb' (i * size.bits) size.bits = get v size.bits (firstLane size upper + i) := by
  have hfirst : firstLane size upper = upper.toNat * halfLanes size := by cases upper <;> simp [firstLane]
  rw [extractLsb'_get v _ (halfLanes_mul size) hi, hfirst]

theorem get_lowered {v v' : BitVec 128} (h : get v' 64 0 = get v 64 1) (size : ElementSize) {i : Nat}
    (hi : i < halfLanes size) :
    get v size.bits (firstLane size true + i) = get v' size.bits (firstLane size false + i) := by
  rw [← extractLsb'_half v size true hi, ← extractLsb'_half v' size false hi]
  exact congrArg (·.extractLsb' (i * size.bits) size.bits) h.symm

/-- What an operation with two forms computes: the second form on some operands what the plain form does on the lowered
ones. -/
def TakesUpper (wideFirst readsSecond : Bool) (result : Bool → VectorOperands → Flagged (BitVec 128)) : Prop :=
  ∀ v v' : VectorOperands, v.IsLowered v' wideFirst readsSecond → result true v = result false v'

/-- The second form puts in the upper half what the plain form puts in the lower one, and keeps the lower half. -/
def GivesUpper (readsSecond : Bool) (result : Bool → VectorOperands → Flagged (BitVec 128)) : Prop :=
  ∀ v v' : VectorOperands, v.SameSources v' readsSecond →
    get (result true v).value 64 1 = get (result false v').value 64 0 ∧
      get (result true v).value 64 0 = get v.d 64 0

theorem takesUpper_long (op : LongOp) (signed wideFirst : Bool) (size : ElementSize) :
    TakesUpper wideFirst true fun upper => (long op signed wideFirst size upper).eval := by
  rintro v v' ⟨hfirst, hsecond, hold⟩
  refine congrArg pure (build_congr fun i hi => ?_)
  rw [longLane, longLane, hold, get_lowered (hsecond rfl) size hi]
  cases wideFirst with
  | false => rw [if_neg (by decide), if_neg (by decide), get_lowered hfirst size hi]
  | true => rw [if_pos rfl, if_pos rfl, show v'.n = v.n from hfirst]

theorem takesUpper_shiftLeftLong (signed : Bool) (shift : Nat) (size : ElementSize) :
    TakesUpper false false fun upper => (shiftLeftLong signed shift size upper).eval := by
  rintro v v' ⟨hfirst, _, _⟩
  refine congrArg pure (build_congr fun i hi => ?_)
  rw [get_lowered hfirst size hi]

theorem takesUpper_widen : TakesUpper false false fun upper => (FloatVectorOp.widen upper).eval := by
  rintro v v' ⟨hfirst, _, _⟩
  refine buildFlagged_congr fun i hi => ?_
  exact congrArg (Float.convert .double) (get_lowered hfirst .word hi)

theorem get_half_upper (d result : BitVec 128) : get (half d result true) 64 1 = result.setWidth 64 :=
  get_set_self _ _ (by decide)

theorem get_half_lower (d result : BitVec 128) : get (half d result true) 64 0 = get d 64 0 :=
  get_set_of_ne _ _ (by decide)

theorem get_half_plain (d result : BitVec 128) : get (half d result false) 64 0 = result.setWidth 64 := by
  apply BitVec.eq_of_getLsbD_eq
  intro i hi
  have h128 : i < 128 := by omega
  simp [Lanes.get, half, sized, clearFrom, hi, h128]

theorem GivesUpper.of_half {readsSecond : Bool} {result : Bool → VectorOperands → Flagged (BitVec 128)}
    (narrowed : VectorOperands → BitVec 128)
    (hresult : ∀ upper v, (result upper v).value = half v.d (narrowed v) upper)
    (hsame : ∀ v v' : VectorOperands, v.SameSources v' readsSecond → narrowed v' = narrowed v) :
    GivesUpper readsSecond result := by
  intro v v' h
  rw [hresult, hresult, hsame v v' h]
  exact ⟨(get_half_upper _ _).trans (get_half_plain _ _).symm, get_half_lower _ _⟩

theorem givesUpper_highNarrow (subtract : Bool) (size : ElementSize) :
    GivesUpper true fun upper => (highNarrow subtract size upper).eval := by
  refine .of_half _ (fun _ _ => rfl) fun v v' h => ?_
  rw [h.first, h.second rfl]

theorem givesUpper_narrow (size : ElementSize) : GivesUpper false fun upper => (narrow size upper).eval := by
  refine .of_half _ (fun _ _ => rfl) fun v v' h => ?_
  rw [h.first]

theorem givesUpper_shiftRightNarrow (rounding : Bool) (shift : Nat) (size : ElementSize) :
    GivesUpper false fun upper => (shiftRightNarrow rounding shift size upper).eval := by
  refine .of_half _ (fun _ _ => rfl) fun v v' h => ?_
  rw [h.first]

theorem givesUpper_floatNarrow : GivesUpper false fun upper => (FloatVectorOp.narrow upper).eval := by
  refine .of_half (fun v => (buildFlagged 2 fun i =>
    Float.convert .single (FloatVectorOp.lane .double v.n i)).value) (fun _ _ => rfl) fun v v' h => ?_
  rw [h.first]

end VectorOp

namespace InstructionWord

variable (w : InstructionWord)

/-- The bits that name registers. -/
def inRegisterField (i : Nat) : Bool := decide (i < 10) || (w.isThreeDifferent && decide (16 ≤ i ∧ i < 21))

/-- The first operand is as wide as the result. -/
def isWide : Bool := w.isThreeDifferent && (w.number 15 12 == 1 || w.number 15 12 == 3)

/-- Bit 30 is set in the first word and clear in the second one, which otherwise differs from the first in the registers
at most. -/
structure HasPlainForm (w' : InstructionWord) : Prop where
  second : w.bit 30 = true
  plain : w'.bit 30 = false
  same : ∀ i < 32, i ≠ 30 → w.inRegisterField i = false → w'.bit i = w.bit i

/-- What the two forms of a long or a narrowing word compute. -/
def ActsOnHalves (result : Bool → VectorOperands → Flagged (BitVec 128)) : Prop :=
  (w.isLong = true → VectorOp.TakesUpper w.isWide w.isThreeDifferent result) ∧
    (w.isNarrowing = true → VectorOp.GivesUpper w.isThreeDifferent result)

namespace HasPlainForm

variable {w} {w' : InstructionWord}

/-- The bits from bit 16 to bit 20 name a register in the words with three registers alone. -/
theorem bit_eq (h : w.HasPlainForm w') {i : Nat} (h10 : 10 ≤ i) (h30 : i ≠ 30)
    (hrm : w.isThreeDifferent = false ∨ i < 16 ∨ 21 ≤ i) : w'.bit i = w.bit i := by
  by_cases h32 : i < 32
  · refine h.same i h32 h30 ?_
    simp only [inRegisterField, Bool.or_eq_false_iff, Bool.and_eq_false_iff, decide_eq_false_iff_not]
    exact ⟨by omega, hrm.imp_right (by omega)⟩
  · rw [bit, bit, BitVec.getLsbD_of_ge _ _ (Nat.not_lt.1 h32), BitVec.getLsbD_of_ge _ _ (Nat.not_lt.1 h32)]

theorem extractLsb_eq (h : w.HasPlainForm w') {hi lo : Nat} (hle : lo ≤ hi) (h10 : 10 ≤ lo) (h30 : hi < 30)
    (hrm : w.isThreeDifferent = false ∨ hi < 16 ∨ 21 ≤ lo) : w'.extractLsb hi lo = w.extractLsb hi lo :=
  extractLsb_congr hle fun i _ _ => h.bit_eq (by omega) (by omega) (hrm.imp_right (by omega))

theorem number_eq (h : w.HasPlainForm w') {hi lo : Nat} (hle : lo ≤ hi) (h10 : 10 ≤ lo) (h30 : hi < 30)
    (hrm : w.isThreeDifferent = false ∨ hi < 16 ∨ 21 ≤ lo) : w'.number hi lo = w.number hi lo :=
  congrArg BitVec.toNat (h.extractLsb_eq hle h10 h30 hrm)

end HasPlainForm

end InstructionWord

namespace SimdInstruction

open InstructionWord VectorOp

/-- The two words decode to the forms of one operation, whose results are as the predicate has it, or have no instruction
for the same reason. -/
def Forms (w w' : InstructionWord) (P : (Bool → VectorOperands → Flagged (BitVec 128)) → Prop)
    (x x' : Except DecodeError SimdInstruction) : Prop :=
  (∃ e, x = .error e ∧ x' = .error e) ∨
    ∃ (f : Bool → SimdOp) (result : Bool → VectorOperands → Flagged (BitVec 128)),
      (∀ (w : InstructionWord) (upper : Bool) (s : State), eval { rd := w.rd, rn := w.rn, rm := w.rm, op := f upper } s =
        do pure (.vector (← result upper (s.vectorOperands w)))) ∧
      P result ∧ x = usual w (f true) ∧ x' = usual w' (f false)

namespace Forms

variable {w w' : InstructionWord} {P : (Bool → VectorOperands → Flagged (BitVec 128)) → Prop}
  {x x' : Except DecodeError SimdInstruction}

theorem error (e : DecodeError) : Forms w w' P (.error e) (.error e) := .inl ⟨e, rfl, rfl⟩

theorem guard {c : Prop} [Decidable c] {e : DecodeError} (h : ¬c → Forms w w' P x x') :
    Forms w w' P (if c then .error e else x) (if c then .error e else x') := by
  by_cases hc : c
  · rw [if_pos hc, if_pos hc]
    exact error e
  · rw [if_neg hc, if_neg hc]
    exact h hc

theorem vector {f : Bool → VectorOp} (h : P fun upper => (f upper).eval) :
    Forms w w' P (usualVector w (f true)) (usualVector w' (f false)) :=
  .inr ⟨fun upper => .vector (f upper), _, fun _ _ _ => rfl, h, rfl, rfl⟩

theorem float {f : Bool → FloatVectorOp} (h : P fun upper => (f upper).eval) :
    Forms w w' P (usualFloat w (f true)) (usualFloat w' (f false)) :=
  .inr ⟨fun upper => .float (f upper), _, fun _ _ _ => rfl, h, rfl, rfl⟩

end Forms

section Decoders

variable {w w' : InstructionWord}

theorem class_of_halves (h : (w.isLong || w.isNarrowing) = true) :
    w.isThreeDifferent = true ∨
      (w.isTwoRegister = true ∧ (w.number 16 12 = 18 ∨ w.number 16 12 = 22 ∨ w.number 16 12 = 23)) ∨
      (w.isShift = true ∧ (w.number 15 11 = 16 ∨ w.number 15 11 = 17 ∨ w.number 15 11 = 20)) := by
  simp only [isLong, isNarrowing, Bool.or_eq_true, Bool.and_eq_true, beq_iff_eq] at h
  grind

theorem wideFirst_of_longOp? {opcode : Nat} {op : LongOp} {wideFirst : Bool}
    (h : longOp? opcode = some (op, wideFirst)) : wideFirst = (opcode == 1 || opcode == 3) := by
  unfold longOp? at h
  split at h <;> cases h <;> rfl

variable (h : w.HasPlainForm w')

include h

theorem forms_decodeThreeDifferent (hthree : w.isThreeDifferent = true) :
    Forms w w' w.ActsOnHalves (decodeThreeDifferent w) (decodeThreeDifferent w') := by
  have hclass : w.isTwoRegister = false ∧ w.isShift = false := by
    simp only [isThreeDifferent, isTwoRegister, isShift, Bool.and_eq_true, Bool.not_eq_true'] at hthree ⊢
    simp [hthree]
  have h29 : w'.bit 29 = w.bit 29 := h.bit_eq (by decide) (by decide) (.inr (by decide))
  have hopcode : w'.number 15 12 = w.number 15 12 := h.number_eq (by decide) (by decide) (by decide) (.inr (by decide))
  have hsize : w'.extractLsb 23 22 = w.extractLsb 23 22 :=
    h.extractLsb_eq (by decide) (by decide) (by decide) (.inr (by decide))
  simp only [decodeThreeDifferent, h29, hopcode, hsize, h.second, h.plain]
  refine .guard fun _ => ?_
  split
  next hnarrow =>
    have hlong : w.isLong = false := by simp [isLong, hclass, hnarrow]
    exact .guard fun _ => .vector ⟨by simp [hlong], fun _ => hthree ▸ givesUpper_highNarrow _ _⟩
  next hlong =>
    split
    next op wideFirst hop =>
      have hwide : w.isWide = wideFirst := by rw [isWide, hthree, wideFirst_of_longOp? hop, Bool.true_and]
      have hnarrow : w.isNarrowing = false := by simp [isNarrowing, hclass, hlong]
      exact .vector ⟨fun _ => hthree ▸ hwide ▸ takesUpper_long _ _ _ _, by simp [hnarrow]⟩
    next => exact .error _

theorem forms_decodeTwoRegister (htwo : w.isTwoRegister = true)
    (hop : w.number 16 12 = 18 ∨ w.number 16 12 = 22 ∨ w.number 16 12 = 23) :
    Forms w w' w.ActsOnHalves (decodeTwoRegister w false) (decodeTwoRegister w' false) := by
  have hclass : w.isThreeDifferent = false ∧ w.isShift = false := by
    simp only [isThreeDifferent, isTwoRegister, isShift, Bool.and_eq_true, Bool.not_eq_true'] at htwo ⊢
    simp [htwo]
  have hwide : w.isWide = false := by rw [isWide, hclass.1, Bool.false_and]
  have hbit {i : Nat} (h10 : 10 ≤ i) (h30 : i ≠ 30) : w'.bit i = w.bit i := h.bit_eq h10 h30 (.inl hclass.1)
  have hopcode : w'.number 16 12 = w.number 16 12 := h.number_eq (by decide) (by decide) (by decide) (.inl hclass.1)
  have hsize : w'.extractLsb 23 22 = w.extractLsb 23 22 :=
    h.extractLsb_eq (by decide) (by decide) (by decide) (.inl hclass.1)
  -- `XTN` is an integer operation. Bit 12, the lowest of the opcode, tells `FCVTL` from `FCVTN`.
  obtain hop | hop | hop := hop
  · have hlong : w.isLong = false := by simp [isLong, hclass, hop]
    simp only [decodeTwoRegister, decodeIntegerMisc, hopcode, hop, hsize, hbit (i := 29) (by decide) (by decide),
      h.second, h.plain]
    cases w.bit 29 with
    | true => exact .error _
    | false => exact .guard fun _ => .vector ⟨by simp [hlong], fun _ => hclass.1 ▸ givesUpper_narrow _⟩
  · have hlong : w.isLong = false := by simp [isLong, hclass, hop]
    have h12 : w.bit 12 = false := w.bit_of_number (i := 0) hop (by decide)
    simp only [decodeTwoRegister, decodeConvertLanes, hopcode, hop, hbit (i := 29) (by decide) (by decide),
      hbit (i := 22) (by decide) (by decide), hbit (i := 12) (by decide) (by decide), h12, h.second, h.plain]
    exact .guard fun _ => .guard fun _ => .float ⟨by simp [hlong], fun _ => hclass.1 ▸ givesUpper_floatNarrow⟩
  · have hnarrow : w.isNarrowing = false := by simp [isNarrowing, hclass, hop]
    have h12 : w.bit 12 = true := w.bit_of_number (i := 0) hop (by decide)
    simp only [decodeTwoRegister, decodeConvertLanes, hopcode, hop, hbit (i := 29) (by decide) (by decide),
      hbit (i := 22) (by decide) (by decide), hbit (i := 12) (by decide) (by decide), h12, h.second, h.plain]
    exact .guard fun _ => .guard fun _ => .float ⟨fun _ => hclass.1 ▸ hwide ▸ takesUpper_widen, by simp [hnarrow]⟩

theorem forms_decodeShift (hshift : w.isShift = true)
    (hop : w.number 15 11 = 16 ∨ w.number 15 11 = 17 ∨ w.number 15 11 = 20) :
    Forms w w' w.ActsOnHalves (decodeShift w false) (decodeShift w' false) := by
  have hclass : w.isThreeDifferent = false ∧ w.isTwoRegister = false := by
    simp only [isThreeDifferent, isTwoRegister, isShift, Bool.and_eq_true] at hshift ⊢
    simp [hshift]
  have hwide : w.isWide = false := by rw [isWide, hclass.1, Bool.false_and]
  have h29 : w'.bit 29 = w.bit 29 := h.bit_eq (by decide) (by decide) (.inl hclass.1)
  have hopcode : w'.number 15 11 = w.number 15 11 := h.number_eq (by decide) (by decide) (by decide) (.inl hclass.1)
  have hsize : w'.number 22 19 = w.number 22 19 := h.number_eq (by decide) (by decide) (by decide) (.inl hclass.1)
  have hamount : w'.number 22 16 = w.number 22 16 := h.number_eq (by decide) (by decide) (by decide) (.inl hclass.1)
  -- The last opcode is that of `SSHLL` and `USHLL`; the others stand for `SHRN` and `RSHRN`.
  obtain hop | hop | hop := hop
  case inr.inr =>
    have hnarrow : w.isNarrowing = false := by simp [isNarrowing, hclass, hop]
    simp only [decodeShift, hopcode, hop, hsize, hamount, h29, h.second, h.plain]
    refine .guard fun _ => .guard fun _ => .guard fun _ => ?_
    exact .vector ⟨fun _ => hclass.1 ▸ hwide ▸ takesUpper_shiftLeftLong _ _ _, by simp [hnarrow]⟩
  all_goals
    have hlong : w.isLong = false := by simp [isLong, hclass, hop]
    simp only [decodeShift, hopcode, hop, hsize, hamount, h29, h.second, h.plain]
    refine .guard fun _ => .guard fun _ => .guard fun _ => ?_
    cases w.bit 29 with
    | true => exact .error _
    | false => exact .vector ⟨by simp [hlong], fun _ => hclass.1 ▸ givesUpper_shiftRightNarrow _ _ _⟩

/-- The words decode to the two forms of one operation. -/
theorem forms_decode (hvector : w.isVector = true) (hhalves : (w.isLong || w.isNarrowing) = true) :
    Forms w w' w.ActsOnHalves (decode w) (decode w') := by
  have h28 : w.bit 28 = false := by simpa [isVector] using hvector
  have hfixed {i : Nat} (h10 : 10 ≤ i) (h30 : i ≠ 30) (hrm : i < 16 ∨ 21 ≤ i) : w'.bit i = w.bit i :=
    h.bit_eq h10 h30 (.inr hrm)
  have h31 : w'.bit 31 = w.bit 31 := hfixed (by decide) (by decide) (by decide)
  have h24 : w'.bit 24 = w.bit 24 := hfixed (by decide) (by decide) (by decide)
  have h21 : w'.bit 21 = w.bit 21 := hfixed (by decide) (by decide) (by decide)
  have h11 : w'.bit 11 = w.bit 11 := hfixed (by decide) (by decide) (by decide)
  have h10 : w'.bit 10 = w.bit 10 := hfixed (by decide) (by decide) (by decide)
  rw [decode_of_vector h28, decode_of_vector (by rw [hfixed (by decide) (by decide) (by decide), h28]), h24]
  obtain hthree | ⟨htwo, hop⟩ | ⟨hshift, hop⟩ := class_of_halves hhalves
  · have hclass := hthree
    simp only [isThreeDifferent, Bool.and_eq_true, Bool.not_eq_true'] at hclass
    simp only [decodeVector, h31, h21, h11, h10, hclass]
    exact .guard fun _ => forms_decodeThreeDifferent h hthree
  · have hclass := htwo
    simp only [isTwoRegister, Bool.and_eq_true, Bool.not_eq_true', beq_iff_eq] at hclass
    have hthree : w.isThreeDifferent = false := by simp [isThreeDifferent, hclass]
    have h17 : w'.number 20 17 = 0 := by
      rw [h.number_eq (by decide) (by decide) (by decide) (.inl hthree), hclass.2]
    simp only [decodeVector, h31, h21, h11, h10, hclass, h17]
    exact .guard fun _ => forms_decodeTwoRegister h htwo hop
  · have hclass := hshift
    simp only [isShift, Bool.and_eq_true, bne_iff_ne] at hclass
    have hthree : w.isThreeDifferent = false := by simp [isThreeDifferent, hclass]
    have himmh : w'.number 22 19 = w.number 22 19 := h.number_eq (by decide) (by decide) (by decide) (.inl hthree)
    simp only [decodeVectorImmediate, h31, h10, hclass, himmh, beq_eq_false_iff_ne.2 hclass.2]
    exact .guard fun _ => forms_decodeShift h hshift hop

end Decoders

end SimdInstruction

namespace Machine

open InstructionWord SimdInstruction VectorOp

variable {w w' : InstructionWord}

/-- The second forms of the long, wide and narrowing words on vectors, in pairs with plain forms that name any registers.
Where the narrow operands of the plain form have in their lower halves what those of the second form have in their upper
ones, a long or wide word gives the same destination. A narrowing word puts in the upper half of its destination what the
plain form puts in the lower half, and keeps its own lower half. As the operands are read through registers of either
word, it does not matter whether the destination is one of them. -/
theorem second_forms_agree_with_plain_forms (hgroup : w.number 27 25 = 0b111) (hvector : w.isVector = true)
    (h : w.HasPlainForm w') (hhalves : (w.isLong || w.isNarrowing) = true) (m m' : Machine) :
    let before := m.state.vectorOperands w
    let before' := m'.state.vectorOperands w'
    let after := (m.execute w).2.state.vector w.rd
    let after' := (m'.execute w').2.state.vector w'.rd
    (m.execute w).1 = (m'.execute w').1 ∧
      ((m.execute w).1 = .ok .ready →
        (w.isLong = true → before.IsLowered before' w.isWide w.isThreeDifferent → after = after') ∧
        (w.isNarrowing = true → before.SameSources before' w.isThreeDifferent →
          get after 64 1 = get after' 64 0 ∧ get after 64 0 = get before.d 64 0)) := by
  intro before before' after after'
  have hgroup' : w'.number 27 25 = 0b111 := by
    rw [h.number_eq (by decide) (by decide) (by decide) (.inr (by decide)), hgroup]
  obtain ⟨e, hd, hd'⟩ | ⟨f, result, hresult, ⟨hlong, hnarrow⟩, hd, hd'⟩ := forms_decode h hvector hhalves
  · rw [m.execute_of_simd_error hgroup hd, m'.execute_of_simd_error hgroup' hd']
    exact ⟨rfl, nofun⟩
  · obtain ⟨houtcome, hafter, _⟩ := m.execute_usual hgroup hd (hresult w true m.state)
    obtain ⟨houtcome', hafter', _⟩ := m'.execute_usual hgroup' hd' (hresult w' false m'.state)
    refine ⟨houtcome.trans houtcome'.symm, fun _ => ⟨fun hl hlowered => ?_, fun hn hsame => ?_⟩⟩
    · rw [show after = _ from hafter, show after' = _ from hafter', hlong hl _ _ hlowered]
    · rw [show after = _ from hafter, show after' = _ from hafter']
      exact hnarrow hn _ _ hsame

/-- `SMLAL2 V0.8H, V0.16B, V1.16B`, which multiplies `3` by `-2`, adds to `5` and writes over one of its operands, in a
pair with `SMLAL V0.8H, V2.8B, V3.8B`. -/
theorem second_forms_agree_with_plain_forms_aliased :
    let w : InstructionWord := 0x4E218000#32
    let w' : InstructionWord := 0x0E238040#32
    let m : Machine := withState {} (State.setVector (State.setVector {} 0#5 0x00000000000000030000000000000005#128)
      1#5 0x00000000000000FE0000000000000007#128)
    let m' : Machine := withState {} (State.setVector (State.setVector (State.setVector {}
      0#5 0x00000000000000030000000000000005#128) 2#5 0x03#128) 3#5 0xFE#128)
    let after := (m.execute w).2.state.vector w.rd
    w.HasPlainForm w' ∧ w.isLong = true ∧ (m.execute w).1 = .ok .ready ∧
      after = (m'.execute w').2.state.vector w'.rd ∧ get after 16 0 = 0xFFFF#16 := by
  intro w w' m m' after
  have h : w.HasPlainForm w' := ⟨by decide, by decide, by decide⟩
  have hlowered : (m.state.vectorOperands w).IsLowered (m'.state.vectorOperands w') w.isWide w.isThreeDifferent :=
    ⟨by decide +kernel, by decide +kernel, by decide +kernel⟩
  have hready : (m.execute w).1 = .ok .ready := outcome_of_toOption (by decide +kernel)
  obtain ⟨_, hresult⟩ := second_forms_agree_with_plain_forms (by decide) (by decide) h (by decide) m m'
  obtain ⟨hlong, _⟩ := hresult hready
  exact ⟨h, by decide, hready, hlong (by decide) hlowered, by decide +kernel⟩

end Machine
end AArch64
