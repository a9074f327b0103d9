import AArch64.Proofs.Decoding.Float
import AArch64.Proofs.Vectors.Extent

/-! The part of its destination that a vector or floating-point word writes, read off its fields. -/
namespace AArch64

namespace ElementSize

def twice : ElementSize → ElementSize
  | byte => half | half => word | word | double => double

theorem bits_twice {size : ElementSize} (h : size ≠ double) : size.twice.bits = 2 * size.bits := by
  cases size <;> first | rfl | contradiction

end ElementSize

namespace InstructionWord

open SimdInstruction

variable (w : InstructionWord)

/-- Words on vectors. Bit 30 tells whether these have 128 bits. -/
def isVector : Bool := !w.bit 28

/-- The forms of the words on vectors that work on one lane. -/
def isScalar : Bool := w.bit 28 && w.bit 30

def isFloat : Bool := w.bit 28 && !w.bit 30

def isThreeDifferent : Bool := !w.bit 24 && w.bit 21 && !w.bit 11 && !w.bit 10

def isTwoRegister : Bool := !w.bit 24 && w.bit 21 && w.bit 11 && !w.bit 10 && w.number 20 17 == 0

/-- One lane from all lanes of a vector, or from its first two. -/
def isReduction : Bool := !w.bit 24 && w.bit 21 && w.bit 11 && !w.bit 10 && w.number 20 17 == 8

def isCopy : Bool := !w.bit 24 && !w.bit 21 && w.bit 10

/-- Shifts by an immediate, and conversions from and to a fixed point. -/
def isShift : Bool := w.bit 24 && w.bit 10 && w.number 22 19 != 0

def isFloatInteger : Bool := !w.bit 24 && w.bit 21 && w.number 15 10 == 0

/-- Narrow lanes that give wide ones: the long and wide forms of three registers, `FCVTL`, `SSHLL` and `USHLL`. -/
def isLong : Bool :=
  (w.isThreeDifferent && !(w.number 15 12 == 4 || w.number 15 12 == 6)) ||
    (w.isTwoRegister && w.number 16 12 == 23) || (w.isShift && w.number 15 11 == 20)

/-- Wide lanes that give narrow ones. With bit 30 set these go to the upper half of the destination. -/
def isNarrowing : Bool :=
  (w.isThreeDifferent && (w.number 15 12 == 4 || w.number 15 12 == 6)) ||
    (w.isTwoRegister && (w.number 16 12 == 18 || w.number 16 12 == 22)) ||
    (w.isShift && (w.number 15 11 == 16 || w.number 15 11 == 17))

def isInsert : Bool := w.isVector && w.isCopy && w.bit 30 && (w.bit 29 || w.number 14 11 == 3)

def isMoveToTop : Bool := w.isFloat && w.isFloatInteger && w.number 18 16 == 7 && w.number 20 19 == 1

def writesUpperHalf : Bool := (w.isVector && w.bit 30 && w.isNarrowing) || w.isMoveToTop

/-- The result goes to a general register or to the flags: `SMOV`, `UMOV`, `FMOV` to a general register, the
conversions to integers in one and the comparisons. -/
def leavesVectors : Bool :=
  (w.isVector && w.isCopy && !w.bit 29 && (w.number 14 11 == 5 || w.number 14 11 == 7)) ||
    (w.isFloat && !w.bit 24 &&
      if !w.bit 21 then w.number 20 19 == 3
      else if w.number 15 10 == 0 then !(w.number 18 16 == 2 || w.number 18 16 == 3 || w.number 18 16 == 7)
      else w.number 13 10 == 8 || w.number 11 10 == 1)

/-- Lane size of a copy: the lowest set bit of the field tells it. -/
def copySize : ElementSize :=
  if w.bit 16 then .byte else if w.bit 17 then .half else if w.bit 18 then .word else .double

/-- Lane number of a copy: what is above the lowest set bit of the field. -/
def copyIndex : Nat := w.number 20 16 / (w.copySize.bits / 4)

def laneSize : ElementSize := ElementSize.ofCode (w.extractLsb 23 22)

def threeSameSize : ElementSize := if 24 ≤ w.number 15 11 then (lanePrecision w).size else w.laneSize

def twoRegisterSize : ElementSize := if w.number 16 12 < 12 then w.laneSize else (lanePrecision w).size

def scalarSize : ElementSize :=
  if w.bit 24 then if w.bit 10 then w.shiftSize else (lanePrecision w).size
  else if !w.bit 21 then w.copySize
  else if w.bit 10 then w.threeSameSize
  else if w.isTwoRegister then w.twoRegisterSize
  else (lanePrecision w).size

/-- Size of the lane that a vector is reduced to. The sums with opcode 3 are twice as wide as the lanes. -/
def acrossSize : ElementSize :=
  if w.number 16 12 == 12 || w.number 16 12 == 15 then .word
  else if w.number 16 12 == 3 then w.laneSize.twice
  else w.laneSize

/-- Width of a floating-point result. A move from a general register goes by that register, and a conversion of
precision by its opcode. -/
def floatBits : Nat :=
  if w.isFloatInteger && w.number 18 16 == 7 then if w.bit 31 then 64 else 32
  else if !w.bit 24 && w.bit 21 && w.number 14 10 == 16 && w.number 20 15 == 4 then 32
  else if !w.bit 24 && w.bit 21 && w.number 14 10 == 16 && w.number 20 15 == 5 then 64
  else (lanePrecision w).bits

/-- Width of the element that a word writes when it writes a single one. -/
def elementBits : Nat :=
  if w.isVector then w.acrossSize.bits else if w.isScalar then w.scalarSize.bits else w.floatBits

/-- A single element is written: by the scalar forms, by the reductions, and by the floating-point words whose result
goes to a vector register. -/
def writesElement : Bool :=
  w.isScalar || (w.isVector && w.isReduction) || (w.isFloat && !w.leavesVectors && !w.isMoveToTop)

/-- The bits that a word writes in its destination. -/
def extent : Extent :=
  if w.leavesVectors then .nothing
  else if w.isInsert then .field (w.copyIndex * w.copySize.bits) w.copySize.bits
  else if w.writesUpperHalf then .field 64 64
  else if w.isVector && !w.isReduction then .low (if w.bit 30 || w.isLong then 128 else 64)
  else .low w.elementBits

section ScalarSize

variable {w}

theorem scalarSize_threeSame (h24 : w.bit 24 = false) (h21 : w.bit 21 = true) (h10 : w.bit 10 = true) :
    w.scalarSize = w.threeSameSize := by
  simp [scalarSize, h24, h21, h10]

theorem scalarSize_twoRegister (h : w.isTwoRegister = true) : w.scalarSize = w.twoRegisterSize := by
  simp_all [scalarSize, isTwoRegister]

theorem scalarSize_reduction (h : w.isReduction = true) : w.scalarSize = (lanePrecision w).size := by
  simp_all [scalarSize, isReduction, isTwoRegister]

theorem scalarSize_copy (h24 : w.bit 24 = false) (h21 : w.bit 21 = false) : w.scalarSize = w.copySize := by
  simp [scalarSize, h24, h21]

theorem scalarSize_shift (h24 : w.bit 24 = true) (h10 : w.bit 10 = true) : w.scalarSize = w.shiftSize := by
  simp [scalarSize, h24, h10]

theorem scalarSize_byElement (h24 : w.bit 24 = true) (h10 : w.bit 10 = false) :
    w.scalarSize = (lanePrecision w).size := by
  simp [scalarSize, h24, h10]

end ScalarSize

end InstructionWord

namespace SimdInstruction

open InstructionWord

/-- What the instruction writes in its destination. -/
def Writes (e : Extent) (i : SimdInstruction) : Prop := i.op.extent = e

/-- Width of the result of a form that has a scalar version: one lane, or the vector that bit 30 selects. -/
def lanesBits (w : InstructionWord) (size : ElementSize) (scalar : Bool) : Nat :=
  if scalar then size.bits else if w.bit 30 then 128 else 64

section Arrangements

variable {w : InstructionWord} {size : ElementSize} {scalar full : Bool} {a : Arrangement}

theorem bits_of_vector? (h : Arrangement.vector? size full = some a) :
    a.elements * a.esize = if full then 128 else 64 := by
  obtain ⟨rfl, helements, _⟩ := Arrangement.fits_of_vector? h
  rw [helements, Arrangement.esize]
  cases a.size <;> cases full <;> rfl

theorem bits_of_arrangement? (h : arrangement? w size scalar = some a) :
    a.elements * a.esize = lanesBits w size scalar := by
  unfold arrangement? at h
  unfold lanesBits
  split at h
  next hs =>
    cases h
    rw [if_pos hs]
    exact Nat.one_mul _
  next hs =>
    rw [if_neg hs]
    exact bits_of_vector? h

theorem precision_of_arrangement? {p : Precision} (h : arrangement? w p.size scalar = some a) :
    a.elements * p.bits = lanesBits w p.size scalar := by
  rw [← bits_of_arrangement? h, Arrangement.esize, (size_of_arrangement? h).1, Precision.bits_size]

end Arrangements

variable (w : InstructionWord)

theorem writes_decodeFloatThreeSame (scalar : Bool) :
    Yields (decodeFloatThreeSame w scalar) (Writes (.low (lanesBits w (lanePrecision w).size scalar))) := by
  refine yields_withArrangement fun a ha => ?_
  have hbits : Extent.low (a.elements * (lanePrecision w).bits) = .low (lanesBits w (lanePrecision w).size scalar) :=
    congrArg Extent.low (precision_of_arrangement? ha)
  split
  · exact .error _
  · refine .guard fun _ => ?_
    split
    · exact .ok hbits
    · exact .ok hbits

theorem writes_decodeThreeSame (scalar : Bool) :
    Yields (decodeThreeSame w scalar) (Writes (.low (lanesBits w w.threeSameSize scalar))) := by
  refine .ite (fun hfloat => ?_) fun hint => ?_
  · rw [threeSameSize, if_pos hfloat]
    exact writes_decodeFloatThreeSame w scalar
  rw [threeSameSize, if_neg hint]
  refine .ite (fun _ => .guard fun hscalar => .ok ?_) fun _ => ?_
  · simp only [Bool.not_eq_true] at hscalar
    rw [hscalar]
    rfl
  split
  · exact .error _
  · refine .guard fun _ => .guard fun _ => .guard fun _ => yields_withArrangement fun a ha => ?_
    have hbits : Extent.low (a.elements * a.esize) = .low (lanesBits w w.laneSize scalar) :=
      congrArg Extent.low (bits_of_arrangement? ha)
    exact .ite (fun _ => .ok hbits) fun _ => .ok hbits

section Rows

variable {w} {scalar : Bool} {e : Extent}

theorem writes_decodeThreeDifferent
    (hnarrow : (w.number 15 12 == 4 || w.number 15 12 == 6) = true → e = VectorOp.halfExtent (w.bit 30))
    (hlong : ¬(w.number 15 12 == 4 || w.number 15 12 == 6) = true → e = .low 128) :
    Yields (decodeThreeDifferent w) (Writes e) := by
  refine .guard fun hsize => .ite (fun hop => .guard fun _ => .ok (hnarrow hop).symm) fun hop => ?_
  split
  · rw [hlong hop]
    refine .ok (congrArg Extent.low ?_)
    cases hs : ElementSize.ofCode (w.extractLsb 23 22) <;> simp_all [VectorOp.halfLanes, ElementSize.bits]
  · exact .error _

/-- The scalar forms have opcodes 8 to 11, and only one of the vector forms narrows. -/
theorem writes_decodeIntegerMisc
    (hnarrow : scalar = false → w.number 16 12 = 18 → e = VectorOp.halfExtent (w.bit 30))
    (hlanes : w.number 16 12 < 12 → e = .low (lanesBits w w.laneSize scalar)) :
    Yields (decodeIntegerMisc w scalar) (Writes e) := by
  refine .guard fun _ => .guard fun hscalar => ?_
  have hvector (hop : w.number 16 12 < 8) : e = .low (if w.bit 30 then 128 else 64) := by
    have hnot : scalar = false := by
      cases scalar with
      | false => rfl
      | true => simp [hop] at hscalar
    rw [hlanes (by omega), hnot]
    rfl
  have hreverse {container : Nat} (hop : w.number 16 12 < 8) : Yields
      (if container ≤ w.laneSize.bits then .error .unallocated
      else withArrangement (Arrangement.vector? w.laneSize (w.bit 30)) fun a => usualVector w (.reverse container a))
      (Writes e) := by
    rw [hvector hop]
    exact .guard fun _ => yields_withArrangement fun a ha => .ok (congrArg Extent.low (bits_of_vector? ha))
  have hbytes {op : LaneUnary} (hop : w.number 16 12 < 8) : Yields
      (withArrangement (Arrangement.vector? .byte (w.bit 30)) fun a => usualVector w (.unary op a)) (Writes e) := by
    rw [hvector hop]
    exact yields_withArrangement fun a ha => .ok (congrArg Extent.low (bits_of_vector? ha))
  have hpairs (hop : w.number 16 12 < 8) : Yields
      (if w.laneSize == .double || (w.laneSize == .word && !w.bit 30) then .error .unallocated
      else usualVector w (.addLongPairs (!w.bit 29) (w.number 16 12 == 6) w.laneSize
        ((if w.bit 30 then 64 else 32) / w.laneSize.bits))) (Writes e) := by
    rw [hvector hop]
    refine .guard fun hsize => .ok (congrArg Extent.low ?_)
    cases hs : w.laneSize <;> cases hfull : w.bit 30 <;> simp_all [ElementSize.bits]
  have heach {op : LaneUnary} (hop : w.number 16 12 < 12) : Yields
      (withArrangement (arrangement? w w.laneSize scalar) fun a => usualVector w (.unary op a)) (Writes e) := by
    rw [hlanes hop]
    exact yields_withArrangement fun a ha => .ok (congrArg Extent.low (bits_of_arrangement? ha))
  split
  next hop _ => exact hreverse (by omega)
  next hop _ => exact hreverse (by omega)
  next hop _ => exact hreverse (by omega)
  next hop => exact hpairs (by omega)
  next hop => exact hpairs (by omega)
  next => exact .error _
  next => exact .error _
  next hop => exact .guard fun _ => heach (by omega)
  next hop _ => exact .require fun _ => hbytes (by omega)
  next hop _ => exact .ite (fun _ => hbytes (by omega)) fun _ => .require fun _ => hbytes (by omega)
  next hop => exact heach (by omega)
  next hop => exact heach (by omega)
  next hop _ => exact heach (by omega)
  next hop => exact heach (by omega)
  next hop _ =>
    have hnot : scalar = false := by
      cases scalar with
      | false => rfl
      | true => simp [hop] at hscalar
    exact .guard fun _ => .ok (hnarrow hnot hop).symm
  all_goals exact .error _

theorem writes_decodeFloatMisc :
    Yields (decodeFloatMisc w scalar) (Writes (.low (lanesBits w (lanePrecision w).size scalar))) := by
  refine yields_withArrangement fun a ha => ?_
  split
  · exact .error _
  · exact .guard fun _ => .ok (congrArg Extent.low (precision_of_arrangement? ha))

theorem writes_decodeTwoRegister
    (hnarrow : scalar = false → (w.number 16 12 == 18 || w.number 16 12 == 22) = true →
      e = VectorOp.halfExtent (w.bit 30))
    (hlong : scalar = false → w.number 16 12 = 23 → e = .low 128)
    (hlanes : w.number 16 12 ∉ [18, 22, 23] → e = .low (lanesBits w w.twoRegisterSize scalar)) :
    Yields (decodeTwoRegister w scalar) (Writes e) := by
  refine .ite (fun hinteger => ?_) fun hinteger => .ite (fun hconvert => .guard fun hscalar => ?_) fun hconvert => ?_
  · refine writes_decodeIntegerMisc (fun hnot hop => hnarrow hnot (by simp [hop])) fun hop => ?_
    rw [hlanes (by simp; omega), twoRegisterSize, if_pos hop]
  · refine .guard fun _ => .guard fun _ => .ok ?_
    rw [Bool.not_eq_true] at hscalar
    simp only [Bool.or_eq_true, beq_iff_eq] at hconvert
    cases h12 : w.bit 12 with
    | false =>
      have hop : w.number 16 12 = 22 := by
        simp only [number_eq, bit_eq_false] at hconvert h12 ⊢
        omega
      exact (hnarrow hscalar (by simp [hop])).symm
    | true =>
      have hop : w.number 16 12 = 23 := by
        simp only [number_eq, bit_eq_true] at hconvert h12 ⊢
        omega
      exact (hlong hscalar hop).symm
  · rw [hlanes (by simp at hconvert hinteger ⊢; omega), twoRegisterSize, if_neg (by simp at hinteger; omega)]
    exact writes_decodeFloatMisc

theorem writes_decodeAcross : Yields (decodeAcross w) (Writes (.low w.acrossSize.bits)) := by
  unfold acrossSize
  refine .ite (fun hfloat => ?_) fun hint => .guard fun hsize => ?_
  · rw [if_pos hfloat]
    exact .guard fun _ => .guard fun _ => .ok rfl
  rw [if_neg hint]
  have hlane : w.laneSize ≠ .double := by
    intro hd
    rw [laneSize] at hd
    simp [hd] at hsize
  have hok {op : Reduction} {long : Bool} (hlong : (w.number 16 12 == 3) = long) : Yields
      (withArrangement (Arrangement.vector? w.laneSize (w.bit 30)) fun a =>
        usualVector w (.reduce op (!w.bit 29) long a))
      (Writes (.low (if w.number 16 12 == 3 then w.laneSize.twice else w.laneSize).bits)) := by
    refine yields_withArrangement fun a ha => .ok (congrArg Extent.low ?_)
    rw [hlong, Arrangement.esize, (Arrangement.fits_of_vector? ha).1, ← ElementSize.bits_twice hlane]
    cases long <;> rfl
  split
  case h_5 => exact .error _
  case h_4 hop _ => exact hok (by rw [hop]; rfl)
  all_goals next hop => exact hok (by rw [hop]; rfl)

theorem laneNumber?_eq {size : ElementSize} {index : Nat} (h : laneNumber? (w.extractLsb 20 16) = some (size, index)) :
    size = w.copySize ∧ index = w.copyIndex := by
  have hbit (i : Nat) (hi : i < 5) : (w.extractLsb 20 16).getLsbD i = w.bit (16 + i) := by
    simp [bit, hi]
  simp only [laneNumber?, hbit _ (by decide : 0 < 5), hbit _ (by decide : 1 < 5), hbit _ (by decide : 2 < 5),
    hbit _ (by decide : 3 < 5)] at h
  simp only [copyIndex, copySize]
  repeat' split at h
  all_goals cases h
  all_goals simp_all [number, ElementSize.bits]

theorem writes_decodePermute : Yields (decodePermute w) (Writes (.low (if w.bit 30 then 128 else 64))) := by
  unfold decodePermute
  simp only
  split
  case h_4 => exact .error _
  all_goals exact yields_withArrangement fun a ha => .ok (congrArg Extent.low (bits_of_vector? ha))

theorem writes_decodeExtractVector : Yields (decodeExtractVector w) (Writes (.low (if w.bit 30 then 128 else 64))) := by
  refine .guard fun _ => .ok (congrArg Extent.low ?_)
  cases w.bit 30 <;> rfl

theorem writes_decodeModifiedImmediate :
    Yields (decodeModifiedImmediate w) (Writes (.low (if w.bit 30 then 128 else 64))) := by
  refine .guard fun _ => ?_
  split
  · exact .error _
  · exact .ite (fun _ => .ok rfl) fun _ => .ok rfl

theorem writes_decodeCopy (hkeep : (!w.bit 29 && (w.number 14 11 == 5 || w.number 14 11 == 7)) = true → e = .nothing)
    (hinsert : (w.bit 30 && (w.bit 29 || w.number 14 11 == 3)) = true →
      e = .field (w.copyIndex * w.copySize.bits) w.copySize.bits)
    (hlanes : (!w.bit 29 && (w.number 14 11 == 0 || w.number 14 11 == 1)) = true →
      e = .low (if w.bit 30 then 128 else 64)) : Yields (decodeCopy w) (Writes e) := by
  unfold decodeCopy
  simp only
  split
  next => exact .error _
  next size index hlane =>
    obtain ⟨rfl, rfl⟩ := laneNumber?_eq hlane
    split
    next hu hop =>
      rw [hlanes (by simp [hu, hop])]
      exact yields_withArrangement fun a ha => .ok (congrArg Extent.low (bits_of_vector? ha))
    next hu hop =>
      rw [hlanes (by simp [hu, hop])]
      exact yields_withArrangement fun a ha => .ok (congrArg Extent.low (bits_of_vector? ha))
    next hop => exact .require fun hfull => .ok (hinsert (by simp [hfull, hop])).symm
    next hu hop => exact .require fun _ => .ok (hkeep (by simp [hu, hop])).symm
    next hu hop => exact .require fun _ => .ok (hkeep (by simp [hu, hop])).symm
    next => exact .error _
    next hu => exact .require fun hfull => .ok (hinsert (by simp [hfull, hu])).symm

theorem writes_decodeShift
    (hnarrow : scalar = false → (w.number 15 11 == 16 || w.number 15 11 == 17) = true →
      e = VectorOp.halfExtent (w.bit 30))
    (hlong : scalar = false → w.number 15 11 = 20 → e = .low 128)
    (hlanes : w.number 15 11 ∉ [16, 17, 20] → e = .low (lanesBits w w.shiftSize scalar)) :
    Yields (decodeShift w scalar) (Writes e) := by
  have heach {f : Arrangement → VectorOp} (hf : ∀ a, (f a).extent = .low (a.elements * a.esize))
      (hop : w.number 15 11 ∉ [16, 17, 20]) : Yields
      (if scalar && w.shiftSize != .double then .error .unallocated
      else withArrangement (arrangement? w w.shiftSize scalar) fun a => usualVector w (f a)) (Writes e) := by
    rw [hlanes hop]
    refine .guard fun _ => yields_withArrangement fun a ha => .ok ?_
    exact (hf a).trans (congrArg Extent.low (bits_of_arrangement? ha))
  have hfixed {op : FloatUnary} {p : Precision} (hsize : w.shiftSize = p.size) (hop : w.number 15 11 ∉ [16, 17, 20]) :
      Yields (withArrangement (arrangement? w w.shiftSize scalar) fun a => usualFloat w (.unary op p a.elements))
        (Writes e) := by
    rw [hlanes hop, hsize]
    exact yields_withArrangement fun a ha => .ok (congrArg Extent.low (precision_of_arrangement? ha))
  refine .guard fun _ => .guard fun hscalar => .guard fun hwide => ?_
  have hnot (h16 : 16 ≤ w.number 15 11) (h20 : w.number 15 11 ≤ 20) : scalar = false := by
    cases scalar with
    | false => rfl
    | true => simp [h16, h20] at hscalar
  split
  next hop => exact heach (fun _ => rfl) (by simp [hop])
  next hop => exact heach (fun _ => rfl) (by simp [hop])
  next hop => exact heach (fun _ => rfl) (by simp [hop])
  next hop => exact heach (fun _ => rfl) (by simp [hop])
  next hop _ => exact heach (fun _ => rfl) (by simp [hop])
  next hop => exact heach (fun _ => rfl) (by simp [hop])
  next hop _ => exact .ok (hnarrow (hnot (by omega) (by omega)) (by simp [hop])).symm
  next hop _ => exact .ok (hnarrow (hnot (by omega) (by omega)) (by simp [hop])).symm
  next hop =>
    rw [hlong (hnot (by omega) (by omega)) hop]
    refine .ok (congrArg Extent.low ?_)
    have hsize : w.shiftSize ≠ .double := by
      intro hs
      rw [shiftSize] at hs
      simp [hop, hs] at hwide
    change VectorOp.halfLanes w.shiftSize * (2 * w.shiftSize.bits) = 128
    cases hs : w.shiftSize <;> simp_all [VectorOp.halfLanes, ElementSize.bits]
  case h_10 hop | h_11 hop =>
    split
    next => exact .error _
    next => exact .error _
    next hsize => exact hfixed (p := .single) hsize (by simp [hop])
    next hsize => exact hfixed (p := .double) hsize (by simp [hop])
  all_goals exact .error _

theorem writes_decodeByElement :
    Yields (decodeByElement w scalar) (Writes (.low (lanesBits w (lanePrecision w).size scalar))) := by
  have hfloat : Yields (decodeFloatByElement w scalar)
      (Writes (.low (lanesBits w (lanePrecision w).size scalar))) := by
    refine .guard fun _ => .guard fun _ => yields_withArrangement fun a ha => ?_
    exact .ok (congrArg Extent.low (precision_of_arrangement? ha))
  have hinteger : Yields (if scalar then .error .notYetImplemented else decodeIntegerByElement w)
      (Writes (.low (lanesBits w (lanePrecision w).size scalar))) := by
    refine .guard fun hscalar => ?_
    have hok {op : LaneOp} {size : ElementSize} {rm : Register} {index : Nat} : Yields
        (withArrangement (Arrangement.vector? size (w.bit 30)) fun a =>
          .ok { rd := w.rd, rn := w.rn, rm, op := .vector (.byElement op a index) })
        (Writes (.low (lanesBits w (lanePrecision w).size scalar))) := by
      rw [Bool.not_eq_true] at hscalar
      rw [hscalar]
      exact yields_withArrangement fun a ha => .ok (congrArg Extent.low (bits_of_vector? ha))
    unfold decodeIntegerByElement
    split
    all_goals
      split
      · exact hok
      · exact hok
      · exact .error _
  unfold decodeByElement
  split
  · exact hfloat
  · exact hfloat
  · exact hfloat
  · exact hinteger
  · exact hinteger
  · exact hinteger
  · exact .error _

theorem writes_decodeScalarPairwise : Yields (decodeScalarPairwise w) (Writes (.low (lanePrecision w).size.bits)) := by
  refine .ite (fun _ => .guard fun hsize => .ok (congrArg Extent.low ?_)) fun _ => ?_
  · simp only [Bool.or_eq_true, not_or, bne_iff_ne, ne_eq, Decidable.not_not] at hsize
    have hdouble : w.bit 22 = true := by
      simp only [number_eq, bit_eq_true] at hsize ⊢
      omega
    rw [lanePrecision, if_pos hdouble]
    rfl
  · split
    · exact .error _
    · exact .guard fun _ => .ok (congrArg Extent.low (Precision.bits_size _).symm)

theorem writes_decodeScalarDuplicate : Yields (decodeScalarDuplicate w) (Writes (.low w.copySize.bits)) := by
  unfold decodeScalarDuplicate
  split
  next => exact .error _
  next size index hlane =>
    obtain ⟨rfl, _⟩ := laneNumber?_eq hlane
    exact .ok (congrArg Extent.low (Nat.one_mul _))

end Rows

section Tables

variable {w : InstructionWord}

/-- A word on vectors that is neither a reduction nor a copy. -/
theorem extent_of_vector (h28 : w.bit 28 = false) (hreduction : w.isReduction = false) (hcopy : w.isCopy = false) :
    (w.isNarrowing = true → w.isLong = false → w.extent = VectorOp.halfExtent (w.bit 30)) ∧
      (w.isNarrowing = false → w.isLong = true → w.extent = .low 128) ∧
      (w.isNarrowing = false → w.isLong = false → w.extent = .low (if w.bit 30 then 128 else 64)) := by
  cases h30 : w.bit 30 <;>
    simp +contextual [extent, leavesVectors, isInsert, writesUpperHalf, isMoveToTop, isFloat, isVector,
      VectorOp.halfExtent, h28, h30, hreduction, hcopy]

theorem extent_of_reduction (h28 : w.bit 28 = false) (h : w.isReduction = true) :
    w.extent = .low w.acrossSize.bits := by
  simp only [isReduction, Bool.and_eq_true, Bool.not_eq_true', beq_iff_eq] at h
  simp [extent, leavesVectors, isInsert, writesUpperHalf, isMoveToTop, isNarrowing, isThreeDifferent, isTwoRegister,
    isShift, isCopy, isReduction, isFloat, isVector, elementBits, h28, h]

/-- Which copy it is depends on bit 29 and on the four bits from bit 11. -/
theorem extent_of_copy (h28 : w.bit 28 = false) (hcopy : w.isCopy = true) :
    ((!w.bit 29 && (w.number 14 11 == 5 || w.number 14 11 == 7)) = true → w.extent = .nothing) ∧
      ((w.bit 30 && (w.bit 29 || w.number 14 11 == 3)) = true →
        w.extent = .field (w.copyIndex * w.copySize.bits) w.copySize.bits) ∧
      ((!w.bit 29 && (w.number 14 11 == 0 || w.number 14 11 == 1)) = true →
        w.extent = .low (if w.bit 30 then 128 else 64)) := by
  have hvector : w.isVector = true ∧ w.isFloat = false := by simp [isVector, isFloat, h28]
  have hleaves : w.leavesVectors = (!w.bit 29 && (w.number 14 11 == 5 || w.number 14 11 == 7)) := by
    simp [leavesVectors, hvector, hcopy]
  have hinsert : w.isInsert = (w.bit 30 && (w.bit 29 || w.number 14 11 == 3)) := by
    simp [isInsert, hvector, hcopy]
  refine ⟨fun h => ?_, fun h => ?_, fun h => ?_⟩
  · rw [extent, hleaves, if_pos h]
  · have hkept : w.leavesVectors = false := by
      rw [hleaves]
      grind
    rw [extent, hkept, hinsert, if_pos h]
    rfl
  · have hkept : w.leavesVectors = false ∧ w.isInsert = false := by
      rw [hleaves, hinsert]
      grind
    have hrow : w.isThreeDifferent = false ∧ w.isTwoRegister = false ∧ w.isReduction = false ∧ w.isShift = false := by
      simp only [isCopy, isThreeDifferent, isTwoRegister, isReduction, isShift] at hcopy ⊢
      grind
    simp [extent, writesUpperHalf, isMoveToTop, isNarrowing, isLong, hkept, hrow, hvector]

theorem writes_decodeVector (h28 : w.bit 28 = false) (h24 : w.bit 24 = false) :
    Yields (decodeVector w) (Writes w.extent) := by
  have hshift : w.isShift = false := by simp [isShift, h24]
  refine .guard fun _ => .ite (fun h21 => ?_) fun h21 => ?_
  · have hcopy : w.isCopy = false := by simp [isCopy, h21]
    refine .ite (fun h10 => ?_) fun h10 => .ite (fun h11 => ?_) fun h11 => .ite (fun h17 => ?_) fun _ =>
      .require fun h17 => ?_
    · have hextent := extent_of_vector h28 (by simp [isReduction, h10]) hcopy
      have he : w.extent = .low (lanesBits w w.threeSameSize false) := by
        apply hextent.2.2 <;> simp [isNarrowing, isLong, isThreeDifferent, isTwoRegister, hshift, h10]
      rw [he]
      exact writes_decodeThreeSame w false
    · rw [Bool.not_eq_true'] at h11
      have hextent := extent_of_vector h28 (by simp [isReduction, h11]) hcopy
      have hrow : w.isThreeDifferent = true ∧ w.isTwoRegister = false := by
        simp_all [isThreeDifferent, isTwoRegister]
      refine writes_decodeThreeDifferent (fun hop => hextent.1 ?_ ?_) fun hop => hextent.2.1 ?_ ?_
      all_goals simp only [isNarrowing, isLong, hrow, hshift, hop, Bool.true_and, Bool.false_and, Bool.or_false,
        Bool.not_true, Bool.not_false]
    · rw [beq_iff_eq] at h17
      have hextent := extent_of_vector h28 (by simp [isReduction, h17]) hcopy
      have hrow : w.isThreeDifferent = false ∧ w.isTwoRegister = true := by
        simp_all [isThreeDifferent, isTwoRegister]
      refine writes_decodeTwoRegister (fun _ hop => hextent.1 ?_ ?_) (fun _ hop => hextent.2.1 ?_ ?_) fun hop =>
        hextent.2.2 ?_ ?_
      all_goals simp_all [isNarrowing, isLong]
      omega
    · rw [beq_iff_eq] at h17
      rw [extent_of_reduction h28 (by simp_all [isReduction])]
      exact writes_decodeAcross
  · have hrow : w.isThreeDifferent = false ∧ w.isTwoRegister = false ∧ w.isReduction = false := by
      simp [isThreeDifferent, isTwoRegister, isReduction, h21]
    have hnone : w.isNarrowing = false ∧ w.isLong = false := by simp [isNarrowing, isLong, hrow, hshift]
    refine .ite (fun h10 => .require fun _ => ?_) fun h10 => ?_
    · have hextent := extent_of_copy h28 (by simp_all [isCopy])
      exact writes_decodeCopy hextent.1 hextent.2.1 hextent.2.2
    · have he : w.extent = .low (if w.bit 30 then 128 else 64) :=
        (extent_of_vector h28 hrow.2.2 (by simp [isCopy, h10])).2.2 hnone.1 hnone.2
      rw [he]
      split
      · exact .guard fun _ => writes_decodePermute
      · exact .require fun _ => .ok rfl
      · exact .require fun _ => writes_decodeExtractVector

theorem writes_decodeVectorImmediate (h28 : w.bit 28 = false) (h24 : w.bit 24 = true) :
    Yields (decodeVectorImmediate w) (Writes w.extent) := by
  have hrow : w.isThreeDifferent = false ∧ w.isTwoRegister = false := by
    simp [isThreeDifferent, isTwoRegister, h24]
  have hextent := extent_of_vector h28 (by simp [isReduction, h24]) (by simp [isCopy, h24])
  have hlanes (h : w.isShift = false) : w.extent = .low (if w.bit 30 then 128 else 64) :=
    hextent.2.2 (by simp [isNarrowing, hrow, h]) (by simp [isLong, hrow, h])
  refine .guard fun _ => .ite (fun h10 => ?_) fun h10 => .ite (fun h19 => ?_) fun h19 => ?_
  · rw [hlanes (by simp_all [isShift])]
    exact writes_decodeByElement
  · rw [hlanes (by simp_all [isShift])]
    exact writes_decodeModifiedImmediate
  · have hshift : w.isShift = true := by simp_all [isShift]
    refine writes_decodeShift (fun _ hop => hextent.1 ?_ ?_) (fun _ hop => hextent.2.1 ?_ ?_) fun hop =>
      hextent.2.2 ?_ ?_
    all_goals simp_all [isNarrowing, isLong]
    omega

theorem extent_of_scalar (h28 : w.bit 28 = true) (h30 : w.bit 30 = true) : w.extent = .low w.scalarSize.bits := by
  simp [extent, leavesVectors, isInsert, writesUpperHalf, isMoveToTop, isVector, isFloat, isScalar, elementBits, h28,
    h30]

theorem writes_decodeScalar (h28 : w.bit 28 = true) (h30 : w.bit 30 = true) (h24 : w.bit 24 = false) :
    Yields (decodeScalar w) (Writes w.extent) := by
  rw [extent_of_scalar h28 h30]
  refine .guard fun _ => .ite (fun h21 => ?_) fun h21 => .require fun _ => ?_
  · refine .ite (fun h10 => ?_) fun h10 => .guard fun h11 => .ite (fun h17 => ?_) fun _ => .require fun h17 => ?_
    · rw [scalarSize_threeSame h24 h21 h10]
      exact writes_decodeThreeSame w true
    · rw [scalarSize_twoRegister (by simp_all [isTwoRegister])]
      exact writes_decodeTwoRegister nofun nofun fun _ => rfl
    · rw [scalarSize_reduction (by simp_all [isReduction])]
      exact writes_decodeScalarPairwise
  · rw [scalarSize_copy h24 (eq_false_of_ne_true h21)]
    exact writes_decodeScalarDuplicate

theorem writes_decodeScalarImmediate (h28 : w.bit 28 = true) (h30 : w.bit 30 = true) (h24 : w.bit 24 = true) :
    Yields (decodeScalarImmediate w) (Writes w.extent) := by
  rw [extent_of_scalar h28 h30]
  refine .guard fun _ => .ite (fun h10 => ?_) fun h10 => ?_
  · rw [scalarSize_shift h24 h10]
    exact writes_decodeShift nofun nofun fun _ => rfl
  · rw [scalarSize_byElement h24 (eq_false_of_ne_true h10)]
    exact writes_decodeByElement

end Tables

section Float

variable {w : InstructionWord} (h28 : w.bit 28 = true) (h30 : w.bit 30 = false)

theorem precision_of_withPrecision {f : Precision → Except DecodeError SimdInstruction} {P : SimdInstruction → Prop}
    (h : Yields (f (lanePrecision w)) P) : Yields (withPrecision w f) P := by
  have hprecision {b : Bool} (hb : w.bit 22 = b) : lanePrecision w = if b then .double else .single := by
    rw [lanePrecision, hb]
  unfold withPrecision
  split
  next htype =>
    have h22 : w.bit 22 = false := by
      simp only [number_eq, bit_eq_false] at htype ⊢
      omega
    rwa [hprecision h22] at h
  next htype =>
    have h22 : w.bit 22 = true := by
      simp only [number_eq, bit_eq_true] at htype ⊢
      omega
    rwa [hprecision h22] at h
  next => exact .error _
  next => exact .error _

theorem writes_decodeFloatOneSource (h24 : w.bit 24 = false) (h21 : w.bit 21 = true)
    (h14 : w.number 14 10 = 16) (h15 : w.number 15 10 ≠ 0) :
    Yields (decodeFloatOneSource w (lanePrecision w)) (Writes (.low w.floatBits)) := by
  have hplain (hop : w.number 20 15 ≠ 4 ∧ w.number 20 15 ≠ 5) : w.floatBits = (lanePrecision w).bits := by
    simp [floatBits, isFloatInteger, h14, h15, hop]
  have hok {op : FloatUnary} (hop : w.number 20 15 ≠ 4 ∧ w.number 20 15 ≠ 5) :
      Yields (usualFloat w (.unary op (lanePrecision w) 1)) (Writes (.low w.floatBits)) := by
    rw [hplain hop]
    exact .ok (congrArg Extent.low (Nat.one_mul _))
  unfold decodeFloatOneSource
  split
  case h_5 hop | h_6 hop =>
    refine .require fun _ => .ok (congrArg Extent.low ?_)
    simp [floatBits, isFloatInteger, h24, h21, h14, h15, hop, Precision.bits]
  case h_1 hop | h_2 hop | h_3 hop | h_4 hop | h_8 hop | h_9 hop | h_10 hop | h_11 hop | h_12 hop =>
    exact hok (by omega)
  all_goals exact .error _

include h28 h30

theorem extent_of_float : w.extent = if w.leavesVectors then .nothing
    else if w.isMoveToTop then .field 64 64 else .low w.floatBits := by
  simp [extent, isInsert, writesUpperHalf, isVector, isScalar, elementBits, h28, h30]

theorem writes_decodeFusedMultiplyAdd (h24 : w.bit 24 = true) :
    Yields (decodeFusedMultiplyAdd w) (Writes w.extent) := by
  have he : w.extent = .low (lanePrecision w).bits := by
    simp [extent_of_float h28 h30, leavesVectors, isVector, isMoveToTop, isFloatInteger, floatBits, h28, h24]
  rw [he]
  exact .guard fun _ => precision_of_withPrecision (.ok rfl)

variable (h24 : w.bit 24 = false)

include h24

theorem leavesVectors_of_float : w.leavesVectors =
    if !w.bit 21 then w.number 20 19 == 3
    else if w.number 15 10 == 0 then !(w.number 18 16 == 2 || w.number 18 16 == 3 || w.number 18 16 == 7)
    else w.number 13 10 == 8 || w.number 11 10 == 1 := by
  simp [leavesVectors, isVector, isFloat, h28, h30, h24]

theorem writes_decodeFloatFixed (h21 : w.bit 21 = false) : Yields (decodeFloatFixed w) (Writes w.extent) := by
  have hleaves : w.leavesVectors = (w.number 20 19 == 3) := by simp [leavesVectors_of_float h28 h30 h24, h21]
  have hfrom (hop : w.number 20 19 = 0) : w.extent = .low (lanePrecision w).bits := by
    simp [extent_of_float h28 h30, hleaves, hop, isMoveToTop, isFloatInteger, floatBits, h21]
  have hto (hop : w.number 20 19 = 3) : w.extent = .nothing := by
    simp [extent_of_float h28 h30, hleaves, hop]
  refine .guard fun _ => precision_of_withPrecision ?_
  have hmode : w.number 20 19 = w.number 20 16 / 8 := by
    simp only [number_eq]
    omega
  split
  case h_1 hop | h_2 hop =>
    rw [hfrom (by omega)]
    exact .ok rfl
  case h_3 hop | h_4 hop =>
    rw [hto (by omega)]
    exact .ok rfl
  case h_5 => exact .error _

theorem writes_decodeFloatInteger (h21 : w.bit 21 = true) (h10 : w.number 15 10 = 0) :
    Yields (decodeFloatInteger w) (Writes w.extent) := by
  have hleaves : w.leavesVectors = !(w.number 18 16 == 2 || w.number 18 16 == 3 || w.number 18 16 == 7) := by
    simp [leavesVectors_of_float h28 h30 h24, h21, h10]
  have hrow : w.isFloatInteger = true ∧ w.isFloat = true := by simp [isFloatInteger, isFloat, h28, h30, h24, h21, h10]
  have hnothing (hop : w.number 18 16 ∉ [2, 3, 7]) : w.extent = .nothing := by
    simp at hop
    simp [extent_of_float h28 h30, hleaves, hop]
  refine .ite (fun hplain => ?_) fun _ => .ite (fun hplain => ?_) fun _ => .ite (fun hupper => ?_) fun _ =>
    .ite (fun hupper => ?_) fun _ => .guard fun hthree => .guard fun _ => .guard fun htwo => ?_
  · simp only [Bool.and_eq_true, beq_iff_eq] at hplain
    rw [hnothing (by simp [hplain])]
    exact .ok rfl
  · obtain ⟨hop, hmode⟩ : w.number 18 16 = 7 ∧ w.number 20 19 = 0 := by
      simp only [Bool.and_eq_true, Bool.or_eq_true, beq_iff_eq] at hplain
      exact ⟨hplain.1, hplain.2.elim (fun h => h.1.1) fun h => h.1.1⟩
    refine .ok ?_
    simp [Writes, extent_of_float h28 h30, hleaves, hop, hmode, isMoveToTop, floatBits, hrow, SimdOp.extent]
    cases w.bit 31 <;> rfl
  · simp only [Bool.and_eq_true, beq_iff_eq] at hupper
    rw [hnothing (by simp [hupper])]
    exact .ok rfl
  · obtain ⟨hop, hmode⟩ : w.number 18 16 = 7 ∧ w.number 20 19 = 1 := by
      simp only [Bool.and_eq_true, beq_iff_eq] at hupper
      exact ⟨hupper.1, hupper.2.1.1⟩
    refine .ok ?_
    simp [Writes, extent_of_float h28 h30, hleaves, hop, hmode, isMoveToTop, hrow, SimdOp.extent, ElementSize.bits]
  · have hlow (hop : w.number 18 16 = 2 ∨ w.number 18 16 = 3) : w.extent = .low (lanePrecision w).bits := by
      have hne : w.number 18 16 ≠ 7 ∧ w.number 14 10 ≠ 16 := by
        simp only [number_eq] at h10 hop ⊢
        omega
      obtain hop | hop := hop <;> simp [extent_of_float h28 h30, hleaves, hop, hne, isMoveToTop, floatBits]
    have hprecision : (if w.number 23 22 == 0 then Precision.single else .double) = lanePrecision w := by
      have h22 : w.bit 22 = !(w.number 23 22 == 0) := by
        rw [beq_iff_eq] at hthree htwo
        cases hb : w.bit 22 <;> simp [number_eq, bit_eq_true, bit_eq_false] at hb hthree htwo ⊢ <;> omega
      rw [lanePrecision, h22]
      cases w.number 23 22 == 0 <;> rfl
    split
    case h_1 hop | h_2 hop =>
      rw [hnothing (by simp [hop])]
      exact .ok rfl
    case h_3 hop | h_4 hop =>
      rw [hnothing (by simp [hop])]
      exact .require fun _ => .ok rfl
    case h_5 hop | h_6 hop =>
      rw [hlow (by simp [hop]), ← hprecision]
      exact .require fun _ => .ok rfl
    case h_7 => exact .error _

theorem writes_decodeFloat : Yields (decodeFloat w) (Writes w.extent) := by
  refine .guard fun _ => .ite (fun h21 => ?_) fun h21 => .ite (fun h10 => ?_) fun h10 => .guard fun _ => ?_
  · exact writes_decodeFloatFixed h28 h30 h24 (by simpa using h21)
  · exact writes_decodeFloatInteger h28 h30 h24 (by simpa using h21) (by simpa using h10)
  · rw [Bool.not_eq_true', Bool.not_eq_false] at h21
    rw [beq_iff_eq] at h10
    have hleaves : w.leavesVectors = (w.number 13 10 == 8 || w.number 11 10 == 1) := by
      simp [leavesVectors_of_float h28 h30 h24, h21, h10]
    have hnothing (h : (w.number 13 10 == 8 || w.number 11 10 == 1) = true) : w.extent = .nothing := by
      rw [extent_of_float h28 h30, hleaves, if_pos h]
    have hbits (h : ¬(w.number 13 10 == 8 || w.number 11 10 == 1) = true) : w.extent = .low w.floatBits := by
      rw [extent_of_float h28 h30, hleaves, if_neg h]
      simp [isMoveToTop, isFloatInteger, h10]
    have hplain (h14 : w.number 14 10 ≠ 16) : w.floatBits = (lanePrecision w).bits := by
      simp [floatBits, isFloatInteger, h10, h14]
    have hprecision (h11 : w.number 11 10 = 2 ∨ w.number 11 10 = 3) : w.extent = .low (lanePrecision w).bits := by
      have hrow : w.number 13 10 ≠ 8 ∧ w.number 11 10 ≠ 1 ∧ w.number 14 10 ≠ 16 := by
        simp only [number_eq] at h11 ⊢
        omega
      rw [hbits (by simp [hrow]), hplain hrow.2.2]
    split
    next h11 =>
      refine .ite (fun h14 => ?_) fun h14 => .ite (fun h13 => ?_) fun h13 => .require fun _ => ?_
      · rw [beq_iff_eq] at h14
        have h13 : w.number 13 10 ≠ 8 := by
          simp only [number_eq] at h14 ⊢
          omega
        rw [hbits (by simp [h11, h13])]
        exact precision_of_withPrecision (writes_decodeFloatOneSource h24 h21 h14 h10)
      · rw [hnothing (by simp [h13])]
        exact precision_of_withPrecision (.guard fun _ => .ok rfl)
      · rw [beq_iff_eq] at h14 h13
        rw [hbits (by simp [h11, h13]), hplain h14]
        exact precision_of_withPrecision (.guard fun _ => .ok rfl)
    next h11 =>
      rw [hnothing (by simp [h11])]
      exact precision_of_withPrecision (.ok rfl)
    next h11 =>
      rw [hprecision (.inl h11)]
      refine precision_of_withPrecision ?_
      unfold decodeFloatTwoSource
      split
      case h_10 => exact .error _
      all_goals exact .ok (congrArg Extent.low (Nat.one_mul _))
    next h0 h1 h2 =>
      have hlt : w.number 11 10 < 4 := w.number_lt 11 10
      rw [imp_false] at h0 h1 h2
      rw [hprecision (.inr (by omega))]
      exact precision_of_withPrecision (.ok rfl)

end Float

/-- What a word writes in its destination is read off its fields. -/
theorem writes_decode (w : InstructionWord) : Yields (decode w) (Writes w.extent) := by
  unfold decode
  rw [KeyTable.key_simdAndFloat]
  cases h28 : w.bit 28 with
  | false =>
    cases h24 : w.bit 24 with
    | false => cases w.bit 30 <;> exact writes_decodeVector h28 h24
    | true => cases w.bit 30 <;> exact writes_decodeVectorImmediate h28 h24
  | true =>
    cases h30 : w.bit 30 with
    | false =>
      cases h24 : w.bit 24 with
      | false => exact writes_decodeFloat h28 h30 h24
      | true => exact writes_decodeFusedMultiplyAdd h28 h30 h24
    | true =>
      cases h24 : w.bit 24 with
      | false => exact writes_decodeScalar h28 h30 h24
      | true => exact writes_decodeScalarImmediate h28 h30 h24

end SimdInstruction
end AArch64
