import AArch64.Proofs.Floats.ToInteger

/-! Values widened to double precision and narrowed again. Every number of single precision is one of double precision, so
it comes back as it was; a NaN keeps its sign and its payload and comes back quiet. -/
namespace AArch64

namespace Precision

variable {p : Precision} {f : Nat}

theorem infinity_add_lt (h : f < 2 ^ p.fractionBits) : p.infinity + f < 2 ^ (p.bits - 1) := by
  cases p <;> simp only [infinity, exponentBits, fractionBits, bits] at h ⊢ <;> omega

end Precision

namespace Float

open Precision

variable {p q : Precision} {negative : Bool} {f : Nat}

theorem ofParts_parts (x : Float p) : ofParts p (isNegative x) (magnitude x) = x := by
  have hbits : 2 ^ p.bits = 2 * 2 ^ (p.bits - 1) := by cases p <;> rfl
  have hlt : x.toNat < 2 ^ p.bits := x.isLt
  have hsum := Nat.div_add_mod' x.toNat (2 ^ (p.bits - 1))
  apply BitVec.eq_of_toNat_eq
  rw [toNat_ofParts _ x.magnitude_lt, isNegative, magnitude, BitVec.msb_eq_decide]
  by_cases hsign : 2 ^ (p.bits - 1) ≤ x.toNat
  · have hone : x.toNat / 2 ^ (p.bits - 1) = 1 := Nat.div_eq_of_lt_le (by omega) (by omega)
    rw [hone] at hsum
    simpa [hsign] using hsum
  · simp [hsign, Nat.mod_eq_of_lt (Nat.lt_of_not_le hsign)]

theorem eq_of_parts {x y : Float p} (hsign : isNegative x = isNegative y) (hmagnitude : magnitude x = magnitude y) :
    x = y := by
  rw [← ofParts_parts x, hsign, hmagnitude, ofParts_parts]

theorem fraction_lt (x : Float p) : fraction x < 2 ^ p.fractionBits := Nat.mod_lt _ (Nat.two_pow_pos _)

theorem getLsbD_eq_testBit_fraction (x : Float p) {i : Nat} (hi : i < p.fractionBits) :
    x.getLsbD i = (fraction x).testBit i := by
  rw [fraction, Nat.testBit_mod_two_pow, decide_eq_true hi, Bool.true_and, BitVec.testBit_toNat]

section NaNs

variable {x : Float p}

theorem magnitude_of_isNaN (h : isNaN x = true) : magnitude x = p.infinity + fraction x := by
  have hlt := x.magnitude_lt
  rw [isNaN, decide_eq_true_iff] at h
  rw [fraction_eq]
  cases p <;> simp only [Precision.infinity, exponentBits, fractionBits, bits] at h hlt ⊢ <;> omega

theorem isSignalling_of_quietBit_le (h : quietBit p ≤ fraction x) : isSignalling x = false := by
  have hlt := fraction_lt x
  have hone : fraction x / 2 ^ (p.fractionBits - 1) = 1 := by
    have hsucc : 2 ^ p.fractionBits = 2 * 2 ^ (p.fractionBits - 1) := by cases p <;> rfl
    exact Nat.div_eq_of_lt_le (by rwa [Nat.one_mul]) (by omega)
  rw [isSignalling, getLsbD_eq_testBit_fraction x (by cases p <;> decide), Nat.testBit_eq_decide_div_mod_eq, hone]
  simp

theorem quieted_eq_self (hnan : isNaN x = true) (hquiet : isSignalling x = false) : quieted x = x := by
  rw [isSignalling, hnan, Bool.true_and, Bool.not_eq_false'] at hquiet
  apply BitVec.eq_of_getLsbD_eq
  intro i hi
  rw [quieted, quietBit, BitVec.getLsbD_or, BitVec.getLsbD_ofNat, Nat.testBit_two_pow]
  by_cases heq : p.fractionBits - 1 = i
  · rw [← heq, hquiet, Bool.true_or]
  · simp [heq]

theorem isNegative_quieted (x : Float p) : isNegative (quieted x) = isNegative x := by
  have hsign : (BitVec.ofNat p.bits (quietBit p)).msb = false := by cases p <;> decide
  rw [isNegative, quieted, BitVec.msb_or, hsign, Bool.or_false, isNegative]

theorem fraction_quieted (x : Float p) : fraction (quieted x) = fraction x ||| quietBit p := by
  have hfits : quietBit p < 2 ^ p.fractionBits ∧ quietBit p < 2 ^ p.bits := by cases p <;> decide
  rw [fraction, quieted, BitVec.toNat_or, Nat.or_mod_two_pow, BitVec.toNat_ofNat, Nat.mod_eq_of_lt hfits.2,
    Nat.mod_eq_of_lt hfits.1, fraction]

theorem isNaN_quieted (h : isNaN x = true) : isNaN (quieted x) = true := by
  have hfits : quietBit p < 2 ^ (p.bits - 1) ∧ quietBit p < 2 ^ p.bits := by cases p <;> decide
  have hmagnitude : magnitude (quieted x) = magnitude x ||| quietBit p := by
    rw [magnitude, quieted, BitVec.toNat_or, Nat.or_mod_two_pow, BitVec.toNat_ofNat, Nat.mod_eq_of_lt hfits.2,
      Nat.mod_eq_of_lt hfits.1, magnitude]
  rw [isNaN, decide_eq_true_iff] at h ⊢
  exact h.trans_le (hmagnitude ▸ Nat.left_le_or)

def convertedFraction (q : Precision) (x : Float p) : Nat :=
  fraction (quieted x) * 2 ^ q.fractionBits / 2 ^ p.fractionBits

theorem convertedFraction_lt (q : Precision) (x : Float p) : convertedFraction q x < 2 ^ q.fractionBits := by
  rw [convertedFraction, Nat.div_lt_iff_lt_mul (Nat.two_pow_pos _), Nat.mul_comm]
  exact Nat.mul_lt_mul_of_pos_left (fraction_lt _) (Nat.two_pow_pos _)

theorem quietBit_le_convertedFraction (q : Precision) (x : Float p) : quietBit q ≤ convertedFraction q x := by
  have hle : quietBit p ≤ fraction (quieted x) := fraction_quieted x ▸ Nat.right_le_or
  rw [convertedFraction, Nat.le_div_iff_mul_le (Nat.two_pow_pos _)]
  refine Nat.le_trans ?_ (Nat.mul_le_mul_right _ hle)
  cases p <;> cases q <;> decide

theorem magnitude_convertNaN (q : Precision) (x : Float p) :
    magnitude (convertNaN q x) = q.infinity + convertedFraction q x :=
  magnitude_ofParts _ (infinity_add_lt (convertedFraction_lt q x))

theorem isNegative_convertNaN (q : Precision) (x : Float p) : isNegative (convertNaN q x) = isNegative x :=
  isNegative_ofParts_of_lt _ (infinity_add_lt (convertedFraction_lt q x))

theorem fraction_convertNaN (q : Precision) (x : Float p) : fraction (convertNaN q x) = convertedFraction q x := by
  rw [fraction_eq, magnitude_convertNaN, Precision.infinity, Nat.mul_add_mod', Nat.mod_eq_of_lt (convertedFraction_lt q x)]

theorem isNaN_convertNaN (q : Precision) (x : Float p) : isNaN (convertNaN q x) = true := by
  have hpos : 0 < quietBit q := Nat.two_pow_pos _
  have hle := quietBit_le_convertedFraction q x
  rw [isNaN, magnitude_convertNaN, decide_eq_true_iff]
  omega

theorem isSignalling_convertNaN (q : Precision) (x : Float p) : isSignalling (convertNaN q x) = false :=
  isSignalling_of_quietBit_le (fraction_convertNaN q x ▸ quietBit_le_convertedFraction q x)

theorem isQuiet_convertNaN (q : Precision) (x : Float p) : isQuiet (convertNaN q x) = true := by
  rw [isQuiet, isNaN_convertNaN, isSignalling_convertNaN]
  rfl

end NaNs

/-- Widening makes room below a fraction, and narrowing takes it away again. -/
theorem convertNaN_convertNaN {x : Float .single} (h : isNaN x = true) :
    convertNaN .single (convertNaN .double x) = quieted x := by
  have hquiet := quieted_eq_self (isNaN_convertNaN .double x) (isSignalling_convertNaN .double x)
  have hfraction : convertedFraction .single (convertNaN .double x) = fraction (quieted x) := by
    rw [convertedFraction, hquiet, fraction_convertNaN, convertedFraction]
    simp only [fractionBits]
    omega
  refine eq_of_parts ?_ ?_
  · rw [isNegative_convertNaN, isNegative_convertNaN, isNegative_quieted]
  · rw [magnitude_convertNaN, hfraction, magnitude_of_isNaN (isNaN_quieted h)]

theorem payload_convertNaN (y : Float .double) :
    (convertNaN .single y).extractLsb' 0 22 = BitVec.extractLsb' 29 22 y := by
  have hfraction : convertedFraction .single y = (fraction y ||| 2 ^ 51) / 2 ^ 29 := by
    rw [convertedFraction, fraction_quieted]
    exact Nat.mul_div_mul_right _ (2 ^ 29) (Nat.two_pow_pos 23)
  apply BitVec.eq_of_getLsbD_eq
  intro i hi
  have hnarrow : 0 + i < Precision.single.fractionBits := by simp only [fractionBits]; omega
  have hwide : 29 + i < Precision.double.fractionBits := by simp only [fractionBits]; omega
  have hquiet : i + 29 ≠ 51 := by omega
  simp only [BitVec.getLsbD_extractLsb', hi, decide_true, Bool.true_and]
  rw [getLsbD_eq_testBit_fraction _ hnarrow, getLsbD_eq_testBit_fraction _ hwide, fraction_convertNaN, hfraction,
    Nat.testBit_div_two_pow, Nat.testBit_or, Nat.testBit_two_pow]
  simp [Nat.add_comm, hquiet.symm]

/-- A number of single precision has the same units in double precision, up to the scale. -/
theorem convert_convert_of_finite {x : Float .single} (hnumber : isNaN x = false) (hfinite : isInfinite x = false) :
    convert .single (convert .double x).value = pure x := by
  obtain ⟨hfinite', hsign, habs⟩ := convert_double hnumber hfinite
  have hnumber' : isNaN (convert .double x).value = false := by
    rw [convert, hnumber, hfinite]
    exact isNaN_round _ _ _ _
  have hunits : unitsAbs (convert .double x).value * 2 ^ single.scale = unitsAbs x * 2 ^ double.scale := by
    rw [habs, Nat.mul_assoc, ← Nat.pow_add, Nat.sub_add_cancel single.within_double.1]
  rw [convert, hnumber', hfinite', if_neg Bool.false_ne_true, if_neg Bool.false_ne_true, hsign, hunits]
  refine congrArg pure (eq_of_parts (isNegative_round _ _ _ _) (single.unitsOf_strictMono.injective ?_))
  rw [← unitsAbs_eq, ← unitsAbs_eq, unitsAbs_round (representable_unitsAbs x) (Nat.two_pow_pos _),
    min_eq_left (unitsAbs_lt hnumber hfinite).le]

theorem convert_convert_of_infinite {x : Float .single} (hinfinite : isInfinite x = true) :
    convert .single (convert .double x).value = pure x := by
  have hwide : (convert .double x).value = infinity .double (isNegative x) := by
    rw [convert, isNaN_of_isInfinite hinfinite, hinfinite]
    rfl
  have hinfinite' : isInfinite (infinity .double (isNegative x)) = true := by
    rw [isInfinite, infinity, magnitude_ofParts _ double.infinity_lt, beq_self_eq_true]
  have hback : infinity .single (isNegative x) = x := by
    rw [infinity, ← beq_iff_eq.1 hinfinite, ofParts_parts]
  rw [hwide, convert, isNaN_infinity, hinfinite', isNegative_infinity, hback]
  rfl

theorem raised_convert (q : Precision) (x : Float p) :
    (convert q x).raised = { invalidOperation := isSignalling x } := by
  rw [convert]
  split
  · rfl
  · next hnumber => split <;> simp [isSignalling, hnumber]

theorem isSignalling_convert (q : Precision) (x : Float p) : isSignalling (convert q x).value = false := by
  have hnumber {y : Float q} (h : isNaN y = false) : isSignalling y = false := by
    rw [isSignalling, h, Bool.false_and]
  rw [convert]
  split
  · exact isSignalling_convertNaN q x
  · split
    · exact hnumber (isNaN_infinity q _)
    · exact hnumber (isNaN_round q _ _ _)

theorem convert_of_isNaN (q : Precision) {x : Float p} (h : isNaN x = true) : (convert q x).value = convertNaN q x := by
  rw [convert, h]
  rfl

/-- Only a signalling NaN does not come back as it was. It comes back quiet, and the first of the two conversions raises
the flag for it. -/
theorem convert_convert (x : Float .single) : convert .double x >>= convert .single =
    { value := if isSignalling x then quieted x else x, raised := { invalidOperation := isSignalling x } } := by
  have hraised : (convert .double x >>= convert .single).raised = { invalidOperation := isSignalling x } := by
    rw [Flagged.raised_bind, raised_convert, raised_convert, isSignalling_convert]
    exact Fpsr.raise_none _
  have hvalue : (convert .double x >>= convert .single).value = if isSignalling x then quieted x else x := by
    rw [Flagged.value_bind]
    cases hnan : isNaN x with
    | true =>
      rw [convert_of_isNaN .double hnan, convert_of_isNaN .single (isNaN_convertNaN .double x), convertNaN_convertNaN hnan]
      cases hsignalling : isSignalling x with
      | true => rfl
      | false => exact quieted_eq_self hnan hsignalling
    | false =>
      have hquiet : isSignalling x = false := by rw [isSignalling, hnan, Bool.false_and]
      rw [hquiet, if_neg Bool.false_ne_true]
      cases hinfinite : isInfinite x with
      | true => rw [convert_convert_of_infinite hinfinite, Flagged.value_pure]
      | false => rw [convert_convert_of_finite hnan hinfinite, Flagged.value_pure]
  rw [← hraised, ← hvalue]

end Float

namespace InstructionWord

variable (w : InstructionWord)

def IsConversion (p q : Precision) : Prop :=
  w.number 31 24 = 0b00011110 ∧ w.number 23 22 = (match p with | .single => 0 | .double => 1) ∧ w.bit 21 = true ∧
    w.number 20 15 = (match q with | .double => 5 | .single => 4) ∧ w.number 14 10 = 16 ∧ p ≠ q

instance (p q : Precision) : Decidable (w.IsConversion p q) :=
  inferInstanceAs (Decidable (_ ∧ _))

end InstructionWord

namespace SimdInstruction

open InstructionWord

theorem decode_of_isConversion {w : InstructionWord} {p q : Precision} (h : w.IsConversion p q) :
    decode w = usualFloat w (.convert p q) := by
  obtain ⟨hclass, hprecision, h21, hopcode, hlow, hne⟩ := h
  obtain ⟨hfloat, h29, h31⟩ := fields_of_floatData hclass
  obtain ⟨hne15, h11⟩ : w.number 15 10 ≠ 0 ∧ w.number 11 10 = 0 := by
    simp only [number_eq] at hlow ⊢
    omega
  rw [decode_of_float hfloat, decodeFloat]
  simp only [h29, h31, h21, hlow, h11, beq_eq_false_iff_ne.2 hne15, withPrecision, hprecision]
  cases p <;> cases q <;> simp [decodeFloatOneSource, hopcode] at hne ⊢

end SimdInstruction

namespace Machine

open AArch64.Float InstructionWord

theorem execute_conversion {w : InstructionWord} {p q : Precision} (h : w.IsConversion p q) (m : Machine) :
    let r := convert q (FloatVectorOp.lane p (m.state.vector w.rn) 0)
    (m.execute w).1 = .ok .ready ∧
      (m.execute w).2.state = (m.state.raise r.raised).setVector w.rd (Lanes.scalar r.value) := by
  have hgroup := group_of_float (fields_of_floatData h.1).1
  obtain ⟨houtcome, hstate⟩ := execute_result hgroup (SimdInstruction.decode_of_isConversion h) m rfl
  refine ⟨houtcome, hstate.trans ?_⟩
  rw [FloatVectorOp.eval, Flagged.value_bind, Flagged.raised_bind, Flagged.value_pure, Flagged.raised_pure, Fpsr.raise_none]
  rfl

/-- A value of single precision comes back from double precision as it was, numbers and quiet NaNs to the last bit. A
signalling NaN comes back quiet, and only it raises a flag. A NaN of double precision becomes a quiet one with the same
sign and with what there is room for of its payload, the upper part. -/
theorem widened_value_narrows_back (x : Float .single) (y : Float .double) :
    convert .double x >>= convert .single =
        { value := if isSignalling x then quieted x else x, raised := { invalidOperation := isSignalling x } } ∧
      (∀ (w₁ w₂ : InstructionWord) (m : Machine), w₁.IsConversion .single .double → w₂.IsConversion .double .single →
        w₂.rn = w₁.rd → FloatVectorOp.lane .single (m.state.vector w₁.rn) 0 = x →
        let m₁ := (m.execute w₁).2
        let m₂ := (m₁.execute w₂).2
        (m.execute w₁).1 = .ok .ready ∧ (m₁.execute w₂).1 = .ok .ready ∧
          m₂.state.vector w₂.rd = Lanes.scalar (if isSignalling x then quieted x else x) ∧
          m₂.state.fpsr = m.state.fpsr.raise { invalidOperation := isSignalling x }) ∧
      (isNaN y = true →
        let z := (convert .single y).value
        isQuiet z = true ∧ isNegative z = isNegative y ∧ z.extractLsb' 0 22 = BitVec.extractLsb' 29 22 y) := by
  refine ⟨convert_convert x, ?_, fun hnan => ?_⟩
  · rintro w₁ w₂ m h₁ h₂ hsource rfl m₁ m₂
    generalize hx : FloatVectorOp.lane .single (m.state.vector w₁.rn) 0 = x
    obtain ⟨houtcome₁, hstate₁⟩ := m.execute_conversion h₁
    obtain ⟨houtcome₂, hstate₂⟩ := m₁.execute_conversion h₂
    have hlane : FloatVectorOp.lane .double (m₁.state.vector w₂.rn) 0 = (convert .double x).value := by
      rw [hstate₁, hsource, State.vector_setVector, if_pos rfl, hx]
      exact Lanes.get_scalar (convert .double x).value (by decide)
    rw [hx] at hstate₁
    rw [hlane, hstate₁] at hstate₂
    have hpair := convert_convert x
    refine ⟨houtcome₁, houtcome₂, ?_, ?_⟩
    · have hvalue := congrArg Flagged.value hpair
      rw [Flagged.value_bind] at hvalue
      rw [hstate₂, State.vector_setVector, if_pos rfl, hvalue]
    · have hraised := congrArg Flagged.raised hpair
      rw [Flagged.raised_bind] at hraised
      rw [hstate₂]
      exact (Fpsr.raise_assoc _ _ _).trans (congrArg m.state.fpsr.raise hraised)
  · rw [convert_of_isNaN .single hnan]
    exact ⟨isQuiet_convertNaN .single y, isNegative_convertNaN .single y, payload_convertNaN y⟩

/-- `FCVT D0, S1` and `FCVT S2, D0` of a negative signalling NaN, and `FCVT S2, D0` of a NaN whose payload has bits in both
parts. -/
theorem widened_value_narrows_back_signalling :
    let m : Machine := withState {} (State.setVector {} 1#5 0xFF800123#128)
    let m₂ := ((m.execute 0x1E22C020#32).2.execute 0x1E624002#32).2
    m₂.state.vector 2#5 = 0xFFC00123#128 ∧ m₂.state.fpsr = { invalidOperation := true } ∧
      isNaN (p := .double) 0x7FF0000A00000001#64 = true ∧
      (convert .single (p := .double) 0x7FF0000A00000001#64).value.extractLsb' 0 22 = 0x50#22 := by
  intro m m₂
  obtain ⟨-, hpair, hnan⟩ := widened_value_narrows_back 0xFF800123#32 0x7FF0000A00000001#64
  obtain ⟨-, -, hvector, hfpsr⟩ := hpair 0x1E22C020#32 0x1E624002#32 m (by decide) (by decide) rfl rfl
  obtain ⟨-, -, hpayload⟩ := hnan (by decide)
  refine ⟨hvector.trans (by decide), hfpsr.trans (by decide), by decide, hpayload.trans (by decide)⟩

end Machine
end AArch64
