import AArch64.Proofs.Decoding.LaneRanges
import AArch64.Proofs.Decoding.Fields
import AArch64.Simd.FloatDecode

/-! Decoded vector and floating-point instructions: their destination, and that their lanes and shifts are in
range. -/
namespace AArch64

namespace InstructionWord

variable (w : InstructionWord)

def shiftSize : ElementSize := .ofBits (8 * 2 ^ (w.number 22 19).log2)

theorem number_shift : w.number 22 16 = 8 * w.number 22 19 + w.number 18 16 := by
  simp only [number, BitVec.extractLsb_toNat, Nat.shiftRight_eq_div_pow]
  omega

theorem bits_shiftSize (h : w.number 22 19 ≠ 0) : w.shiftSize.bits = 8 * 2 ^ (w.number 22 19).log2 := by
  have hlt : w.number 22 19 < 2 ^ 4 := w.number_lt 22 19
  have hlog : (w.number 22 19).log2 < 4 := (Nat.log2_lt h).2 hlt
  have hsizes : ∀ k < 4, (ElementSize.ofBits (8 * 2 ^ k)).bits = 8 * 2 ^ k := by decide
  exact hsizes _ hlog

/-- The seven bits of a shift are never below its lane size nor as large as twice the lane size. -/
theorem shiftSize_le_number (h : w.number 22 19 ≠ 0) :
    w.shiftSize.bits ≤ w.number 22 16 ∧ w.number 22 16 < 2 * w.shiftSize.bits := by
  have hlow : 2 ^ (w.number 22 19).log2 ≤ w.number 22 19 := Nat.log2_self_le h
  have hhigh : w.number 22 19 < 2 ^ ((w.number 22 19).log2 + 1) := Nat.lt_log2_self
  have hrest : w.number 18 16 < 8 := w.number_lt 18 16
  rw [w.bits_shiftSize h, w.number_shift]
  rw [Nat.pow_succ] at hhigh
  omega

end InstructionWord

namespace Arrangement

theorem elements_pos_of_vector? {size : ElementSize} {full : Bool} {a : Arrangement}
    (h : vector? size full = some a) : 0 < a.elements ∧ 2 ∣ a.elements := by
  obtain ⟨rfl, helements, hfits⟩ := fits_of_vector? h
  unfold vector? at h
  rw [helements]
  cases hs : a.size <;> cases full <;> simp_all [ElementSize.bits]

theorem reverse_inRange {size : ElementSize} {full : Bool} {a : Arrangement} {container : Nat}
    (h : vector? size full = some a) (hc : size.bits < container) (hm : container ∈ [16, 32, 64]) :
    0 < container / a.esize ∧ container / a.esize ∣ a.elements := by
  obtain ⟨rfl, helements, _⟩ := fits_of_vector? h
  rw [helements, esize]
  simp only [List.mem_cons, List.not_mem_nil, or_false] at hm
  rcases hm with rfl | rfl | rfl <;> cases hs : a.size <;> cases full <;> rw [hs] at hc <;> revert hc <;> decide

end Arrangement

namespace SimdInstruction

structure FitsWord (w : InstructionWord) (i : SimdInstruction) : Prop where
  rd : i.rd = w.rd
  inRange : i.op.InRange

variable (w : InstructionWord)

theorem yields_usual {op : SimdOp} (h : op.InRange) : Yields (usual w op) (FitsWord w) :=
  .ok ⟨rfl, h⟩

theorem yields_usualVector {op : VectorOp} (h : op.InRange) : Yields (usualVector w op) (FitsWord w) :=
  yields_usual w h

theorem yields_usualFloat {op : FloatVectorOp} (h : op.InRange) : Yields (usualFloat w op) (FitsWord w) :=
  yields_usual w h

variable {w : InstructionWord}

theorem yields_withArrangement {a : Option Arrangement} {f : Arrangement → Except DecodeError SimdInstruction}
    {P : SimdInstruction → Prop} (h : ∀ x, a = some x → Yields (f x) P) : Yields (withArrangement a f) P := by
  cases a with
  | none => exact .error _
  | some x => exact h x rfl

theorem size_of_arrangement? {size : ElementSize} {scalar : Bool} {a : Arrangement}
    (h : arrangement? w size scalar = some a) : a.size = size ∧ a.Fits := by
  unfold arrangement? at h
  split at h
  · cases h
    exact ⟨rfl, Arrangement.scalar_fits size⟩
  · obtain ⟨hsize, _, hfits⟩ := Arrangement.fits_of_vector? h
    exact ⟨hsize, hfits⟩

theorem precision_fits {p : Precision} {scalar : Bool} {a : Arrangement}
    (h : arrangement? w p.size scalar = some a) : a.elements * p.bits ≤ 128 := by
  obtain ⟨hsize, hfits⟩ := size_of_arrangement? h
  rw [Arrangement.Fits, Arrangement.esize, hsize, Precision.bits_size] at hfits
  exact hfits

variable (w)

theorem yields_decodeFloatThreeSame (scalar : Bool) : Yields (decodeFloatThreeSame w scalar) (FitsWord w) := by
  refine yields_withArrangement fun a ha => ?_
  have hfits := precision_fits ha
  split
  next => exact .error _
  next op _ =>
    refine .guard fun _ => ?_
    cases op with
    | lanes op => exact yields_usualFloat w hfits
    | pairwise op => exact yields_usualFloat w hfits

theorem yields_decodeThreeSame (scalar : Bool) : Yields (decodeThreeSame w scalar) (FitsWord w) := by
  refine .ite (fun _ => yields_decodeFloatThreeSame w scalar) fun _ =>
    .ite (fun _ => .guard fun _ => yields_usualVector w trivial) fun _ => ?_
  split
  next => exact .error _
  next op _ =>
    refine .guard fun _ => .guard fun hwide => .guard fun _ => ?_
    refine yields_withArrangement fun a ha => ?_
    obtain ⟨hsize, hfits⟩ := size_of_arrangement? ha
    have hlanes : a.Fits ∧ (a.size = .double → op.hasWideForm = true) :=
      ⟨hfits, fun hd => by simp_all⟩
    exact .ite (fun _ => yields_usualVector w hlanes) fun _ => yields_usualVector w hlanes

theorem yields_decodeThreeDifferent : Yields (decodeThreeDifferent w) (FitsWord w) := by
  refine .guard fun hsize => ?_
  have hsize : ElementSize.ofCode (w.extractLsb 23 22) ≠ .double := by simpa using hsize
  refine .ite (fun _ => .guard fun _ => yields_usualVector w hsize) fun _ => ?_
  split
  · exact yields_usualVector w hsize
  · exact .error _

theorem yields_decodeIntegerMisc (scalar : Bool) : Yields (decodeIntegerMisc w scalar) (FitsWord w) := by
  have hreverse (container : Nat) (hm : container ∈ [16, 32, 64]) : Yields
      (if container ≤ (ElementSize.ofCode (w.extractLsb 23 22)).bits then .error .unallocated
      else withArrangement (Arrangement.vector? (ElementSize.ofCode (w.extractLsb 23 22)) (w.bit 30)) fun a =>
        usualVector w (.reverse container a)) (FitsWord w) := by
    refine .guard fun hc => yields_withArrangement fun a ha => ?_
    have hfits := (Arrangement.fits_of_vector? ha).2.2
    exact yields_usualVector w ⟨hfits, Arrangement.reverse_inRange ha (Nat.lt_of_not_le hc) hm⟩
  have hbytes (op : LaneUnary) : Yields
      (withArrangement (Arrangement.vector? .byte (w.bit 30)) fun a => usualVector w (.unary op a)) (FitsWord w) :=
    yields_withArrangement fun a ha => yields_usualVector w (Arrangement.fits_of_vector? ha).2.2
  have heach (op : LaneUnary) : Yields
      (withArrangement (arrangement? w (ElementSize.ofCode (w.extractLsb 23 22)) scalar) fun a =>
        usualVector w (.unary op a)) (FitsWord w) :=
    yields_withArrangement fun a ha => yields_usualVector w (size_of_arrangement? ha).2
  have hpairs : Yields
      (if ElementSize.ofCode (w.extractLsb 23 22) == .double
        || (ElementSize.ofCode (w.extractLsb 23 22) == .word && !w.bit 30) then .error .unallocated
      else usualVector w (.addLongPairs (!w.bit 29) (w.number 16 12 == 6) (ElementSize.ofCode (w.extractLsb 23 22))
        ((if w.bit 30 then 64 else 32) / (ElementSize.ofCode (w.extractLsb 23 22)).bits))) (FitsWord w) := by
    refine .guard fun hsize => yields_usualVector w ⟨?_, ?_⟩
    · intro hd
      simp [hd] at hsize
    · have hlanes := Nat.div_mul_le_self (if w.bit 30 then 64 else 32)
        (ElementSize.ofCode (w.extractLsb 23 22)).bits
      have hfull : (if w.bit 30 then 64 else 32) ≤ 64 := by cases w.bit 30 <;> decide
      rw [Nat.mul_left_comm]
      omega
  refine .guard fun _ => .guard fun _ => ?_
  split
  · exact hreverse 64 (by decide)
  · exact hreverse 32 (by decide)
  · exact hreverse 16 (by decide)
  · exact hpairs
  · exact hpairs
  · exact .error _
  · exact .error _
  · exact .guard fun _ => heach _
  · exact .require fun _ => hbytes _
  · exact .ite (fun _ => hbytes _) fun _ => .require fun _ => hbytes _
  · exact heach _
  · exact heach _
  · exact heach _
  · exact heach _
  · refine .guard fun hsize => yields_usualVector w ?_
    have hne : ElementSize.ofCode (w.extractLsb 23 22) ≠ .double := by simpa using hsize
    exact hne
  all_goals exact .error _

theorem yields_decodeConvertLanes : Yields (decodeConvertLanes w) (FitsWord w) := by
  refine .guard fun _ => .guard fun _ => yields_usualFloat w ?_
  split <;> trivial

theorem yields_decodeFloatMisc (scalar : Bool) : Yields (decodeFloatMisc w scalar) (FitsWord w) := by
  refine yields_withArrangement fun a ha => ?_
  have hfits := precision_fits ha
  split
  · exact .error _
  · exact .guard fun _ => yields_usualFloat w hfits

theorem yields_decodeTwoRegister (scalar : Bool) : Yields (decodeTwoRegister w scalar) (FitsWord w) :=
  .ite (fun _ => yields_decodeIntegerMisc w scalar) fun _ =>
    .ite (fun _ => .guard fun _ => yields_decodeConvertLanes w) fun _ => yields_decodeFloatMisc w scalar

theorem yields_decodeAcross : Yields (decodeAcross w) (FitsWord w) := by
  refine .ite (fun _ => .guard fun _ => .guard fun _ => yields_usualFloat w trivial) fun _ => .guard fun hsize => ?_
  have hok (op : Reduction) (long : Bool) : Yields
      (withArrangement (Arrangement.vector? (ElementSize.ofCode (w.extractLsb 23 22)) (w.bit 30)) fun a =>
        usualVector w (.reduce op (!w.bit 29) long a)) (FitsWord w) := by
    refine yields_withArrangement fun a ha => ?_
    obtain ⟨hs, _, hfits⟩ := Arrangement.fits_of_vector? ha
    refine yields_usualVector w ⟨hfits, (Arrangement.elements_pos_of_vector? ha).1, fun _ hd => ?_⟩
    simp [← hs, hd] at hsize
  split
  · exact hok .sum true
  · exact hok .max false
  · exact hok .min false
  · exact hok .sum false
  · exact .error _

/-- A lane number fits its size: the five bits leave fewer lanes for wider ones. -/
theorem laneNumber?_fits {imm5 : BitVec 5} {size : ElementSize} {index : Nat}
    (h : laneNumber? imm5 = some (size, index)) : (index + 1) * size.bits ≤ 128 := by
  have hlt : imm5.toNat < 32 := imm5.isLt
  unfold laneNumber? at h
  repeat' split at h
  all_goals
    cases h <;> simp only [ElementSize.bits] <;> omega

theorem yields_decodeCopy : Yields (decodeCopy w) (FitsWord w) := by
  have himm : w.number 14 11 < 16 := w.number_lt 14 11
  unfold decodeCopy
  simp only
  split
  next => exact .error _
  next size index hlane =>
    have hindex := laneNumber?_fits hlane
    have hsource : (8 * w.number 14 11 / size.bits + 1) * size.bits ≤ 128 := by
      cases size <;> simp only [ElementSize.bits] <;> omega
    split
    · refine yields_withArrangement fun a ha => ?_
      obtain ⟨hs, _, hfits⟩ := Arrangement.fits_of_vector? ha
      refine yields_usualVector w ⟨hfits, ?_⟩
      rwa [Arrangement.esize, hs]
    · exact yields_withArrangement fun a ha => yields_usual w (Arrangement.fits_of_vector? ha).2.2
    · exact .require fun _ => yields_usual w hindex
    · exact .require fun _ => yields_usual w hindex
    · exact .require fun _ => yields_usual w hindex
    · exact .error _
    · exact .require fun _ => yields_usualVector w ⟨hindex, hsource⟩

theorem yields_decodePermute : Yields (decodePermute w) (FitsWord w) := by
  have hok (op : Permutation) : Yields
      (withArrangement (Arrangement.vector? (ElementSize.ofCode (w.extractLsb 23 22)) (w.bit 30)) fun a =>
        usualVector w (.permute op (w.bit 14).toNat a)) (FitsWord w) := by
    refine yields_withArrangement fun a ha => ?_
    exact yields_usualVector w ⟨(Arrangement.fits_of_vector? ha).2.2, Bool.toNat_le _,
      (Arrangement.elements_pos_of_vector? ha).2⟩
  unfold decodePermute
  split
  · exact hok .unzip
  · exact hok .transpose
  · exact hok .zip
  · exact .error _

theorem yields_decodeExtractVector : Yields (decodeExtractVector w) (FitsWord w) := by
  have hposition : w.number 14 11 < 16 := w.number_lt 14 11
  refine .guard fun h => yields_usualVector w ?_
  change w.number 14 11 < if w.bit 30 then 16 else 8
  cases hfull : w.bit 30 <;> simp [hfull] at h ⊢ <;> omega

theorem yields_decodeVector : Yields (decodeVector w) (FitsWord w) := by
  refine .guard fun _ => .ite (fun _ => ?_) fun _ => .ite (fun _ => .require fun _ => yields_decodeCopy w) fun _ => ?_
  · exact .ite (fun _ => yields_decodeThreeSame w false) fun _ =>
      .ite (fun _ => yields_decodeThreeDifferent w) fun _ =>
      .ite (fun _ => yields_decodeTwoRegister w false) fun _ => .require fun _ => yields_decodeAcross w
  split
  · exact .guard fun _ => yields_decodePermute w
  · exact .require fun _ => yields_usual w trivial
  · exact .require fun _ => yields_decodeExtractVector w

theorem yields_decodeModifiedImmediate : Yields (decodeModifiedImmediate w) (FitsWord w) := by
  refine .guard fun _ => ?_
  split
  · exact .error _
  · exact .ite (fun _ => yields_usualVector w trivial) fun _ => yields_usualVector w trivial

theorem yields_decodeShift (scalar : Bool) : Yields (decodeShift w scalar) (FitsWord w) := by
  have heach (f : Arrangement → VectorOp) (hf : ∀ a, a.Fits → a.esize = w.shiftSize.bits → (f a).InRange) : Yields
      (if scalar && w.shiftSize != .double then .error .unallocated
      else withArrangement (arrangement? w w.shiftSize scalar) fun a => usualVector w (f a)) (FitsWord w) := by
    refine .guard fun _ => yields_withArrangement fun a ha => ?_
    obtain ⟨hsize, hfits⟩ := size_of_arrangement? ha
    exact yields_usualVector w (hf a hfits (congrArg ElementSize.bits hsize))
  have hfixed (op : FloatUnary) (p : Precision) (hsize : w.shiftSize = p.size) : Yields
      (withArrangement (arrangement? w w.shiftSize scalar) fun a => usualFloat w (.unary op p a.elements))
      (FitsWord w) := by
    refine yields_withArrangement fun a ha => yields_usualFloat w ?_
    exact precision_fits (hsize ▸ ha)
  refine .guard fun himmh => .guard fun _ => .guard fun hnarrow => ?_
  obtain ⟨hlow, hhigh⟩ := w.shiftSize_le_number (by simpa using himmh)
  have hright : 1 ≤ 2 * w.shiftSize.bits - w.number 22 16
      ∧ 2 * w.shiftSize.bits - w.number 22 16 ≤ w.shiftSize.bits := by
    omega
  have hleft : w.number 22 16 - w.shiftSize.bits < w.shiftSize.bits := by
    omega
  have hne (h16 : 16 ≤ w.number 15 11) (h20 : w.number 15 11 ≤ 20) : w.shiftSize ≠ .double := by
    intro hsize
    rw [InstructionWord.shiftSize] at hsize
    simp [h16, h20, hsize] at hnarrow
  split
  · exact heach _ fun a hfits hsize => ⟨hfits, hsize ▸ hright⟩
  · exact heach _ fun a hfits hsize => ⟨hfits, hsize ▸ hright⟩
  · exact heach _ fun a hfits hsize => ⟨hfits, hsize ▸ hright⟩
  · exact heach _ fun a hfits hsize => ⟨hfits, hsize ▸ hright⟩
  · exact heach _ fun a hfits _ => hfits
  · exact heach _ fun a hfits hsize => ⟨hfits, hsize ▸ hleft⟩
  next hop _ => exact yields_usualVector w ⟨hne (by omega) (by omega), hright⟩
  next hop _ => exact yields_usualVector w ⟨hne (by omega) (by omega), hright⟩
  next hop => exact yields_usualVector w ⟨hne (by omega) (by omega), hleft⟩
  case h_10 | h_11 =>
    split
    next => exact .error _
    next => exact .error _
    next hsize => exact hfixed _ .single hsize
    next hsize => exact hfixed _ .double hsize
  all_goals exact .error _

theorem yields_decodeFloatByElement (scalar : Bool) : Yields (decodeFloatByElement w scalar) (FitsWord w) := by
  have hhigh : (w.bit 11).toNat < 2 := Bool.toNat_lt _
  have hlow : (w.bit 21).toNat < 2 := Bool.toNat_lt _
  refine .guard fun _ => .guard fun _ => yields_withArrangement fun a ha => ?_
  refine yields_usualFloat w ⟨precision_fits ha, ?_⟩
  cases h : w.bit 22 <;> simp [lanePrecision, h, Precision.bits] <;> omega

theorem yields_decodeIntegerByElement : Yields (decodeIntegerByElement w) (FitsWord w) := by
  have h11 : (w.bit 11).toNat < 2 := Bool.toNat_lt _
  have h21 : (w.bit 21).toNat < 2 := Bool.toNat_lt _
  have h20 : (w.bit 20).toNat < 2 := Bool.toNat_lt _
  have hok (op : LaneOp) (size : ElementSize) (rm : Register) (index : Nat) (hsize : size ≠ .double)
      (hindex : (index + 1) * size.bits ≤ 128) : Yields
      (withArrangement (Arrangement.vector? size (w.bit 30)) fun a =>
        .ok { rd := w.rd, rn := w.rn, rm, op := .vector (.byElement op a index) }) (FitsWord w) := by
    refine yields_withArrangement fun a ha => .ok ⟨rfl, ?_⟩
    obtain ⟨hs, _, hfits⟩ := Arrangement.fits_of_vector? ha
    exact ⟨hfits, hs ▸ hsize, by rwa [Arrangement.esize, hs]⟩
  unfold decodeIntegerByElement
  split
  all_goals
    split
    · refine hok _ .half _ _ (by decide) ?_
      simp only [ElementSize.bits]
      omega
    · refine hok _ .word _ _ (by decide) ?_
      simp only [ElementSize.bits]
      omega
    · exact .error _

theorem yields_decodeByElement (scalar : Bool) : Yields (decodeByElement w scalar) (FitsWord w) := by
  have hinteger : Yields (if scalar then .error .notYetImplemented else decodeIntegerByElement w) (FitsWord w) :=
    .guard fun _ => yields_decodeIntegerByElement w
  unfold decodeByElement
  split
  · exact yields_decodeFloatByElement w scalar
  · exact yields_decodeFloatByElement w scalar
  · exact yields_decodeFloatByElement w scalar
  · exact hinteger
  · exact hinteger
  · exact hinteger
  · exact .error _

theorem yields_decodeVectorImmediate : Yields (decodeVectorImmediate w) (FitsWord w) :=
  .guard fun _ => .ite (fun _ => yields_decodeByElement w false) fun _ =>
    .ite (fun _ => yields_decodeModifiedImmediate w) fun _ => yields_decodeShift w false

theorem yields_decodeScalarPairwise : Yields (decodeScalarPairwise w) (FitsWord w) := by
  have htwo : ({ size := .double, elements := 2 } : Arrangement).Fits := by decide
  refine .ite (fun _ => .guard fun _ => yields_usualVector w ⟨htwo, by decide, nofun⟩) fun _ => ?_
  split
  · exact .error _
  · exact .guard fun _ => yields_usualFloat w trivial

theorem yields_decodeScalarDuplicate : Yields (decodeScalarDuplicate w) (FitsWord w) := by
  unfold decodeScalarDuplicate
  split
  next => exact .error _
  next size index hlane => exact yields_usualVector w ⟨Arrangement.scalar_fits size, laneNumber?_fits hlane⟩

theorem yields_decodeScalar : Yields (decodeScalar w) (FitsWord w) := by
  refine .guard fun _ => .ite (fun _ => ?_) fun _ => .require fun _ => yields_decodeScalarDuplicate w
  exact .ite (fun _ => yields_decodeThreeSame w true) fun _ => .guard fun _ =>
    .ite (fun _ => yields_decodeTwoRegister w true) fun _ => .require fun _ => yields_decodeScalarPairwise w

theorem yields_decodeScalarImmediate : Yields (decodeScalarImmediate w) (FitsWord w) :=
  .guard fun _ => .ite (fun _ => yields_decodeShift w true) fun _ => yields_decodeByElement w true

end SimdInstruction
end AArch64
