import AArch64.Proofs.Floats.Widening
import AArch64.Proofs.Vectors.LaneArithmetic
import AArch64.Proofs.Vectors.Saturation
import Mathlib.Data.Nat.Log

/-! Integers in double precision. One that fits the significand is held exactly at every scale, so converting it and
converting the value back loses nothing and raises nothing. -/
namespace AArch64

namespace Float

open Precision

/-- A value that is an integer number of `2 ^ fbits`-ths. -/
structure IsScaled (y : Float .double) (x : ℤ) (fbits : Nat) : Prop where
  number : isNaN y = false
  finite : isInfinite y = false
  scaledUnits_eq : scaledUnits y fbits = x * (2 ^ double.scale : ℕ)

section SingleRounding

variable {p : Precision} {n f : Nat}

/-- The significand that is left of a quotient and the places that were dropped from it. -/
theorem unitsAbs_round_eq (p : Precision) (negative : Bool) (num : Nat) {den : Nat} (hden : 0 < den) :
    let k := excess p (num / den)
    let s := (Rounding.tiesEven.apply num (den * 2 ^ k)).toNat
    s ≤ 2 * 2 ^ p.fractionBits ∧ unitsAbs (round p negative num den) = min (s * 2 ^ k) (p.unitsOf p.infinity) := by
  intro k s
  obtain ⟨hlow, hhigh⟩ := Precision.excess_bounds p (num / den)
  have hstep : 0 < den * 2 ^ k := Nat.mul_pos hden (Nat.two_pow_pos k)
  have hs : s ≤ 2 * 2 ^ p.fractionBits := by
    have hnum : num ≤ 2 * 2 ^ p.fractionBits * (den * 2 ^ k) := by
      rw [Nat.mul_comm den, ← Nat.mul_assoc]
      exact (Nat.div_lt_iff_lt_mul hden).1 hhigh |>.le
    exact Int.toNat_le.2 (Rounding.apply_le hstep _ (by exact_mod_cast hnum))
  refine ⟨hs, ?_⟩
  rw [round, unitsAbs_ofParts _ (Nat.min_le_right _ _), p.unitsOf_strictMono.monotone.map_min]
  refine congrArg (min · _) (p.unitsOf_significand (hlow.imp_right fun h => ?_) hs)
  have hnum : 2 ^ p.fractionBits * (den * 2 ^ k) ≤ num := by
    rw [Nat.mul_comm den, ← Nat.mul_assoc]
    exact (Nat.le_div_iff_mul_le hden).1 h
  have happly : ((2 ^ p.fractionBits : ℕ) : ℤ) ≤ Rounding.tiesEven.apply num (den * 2 ^ k) :=
    Rounding.le_apply hstep _ (by exact_mod_cast hnum)
  exact Int.ofNat_le.1 (happly.trans (Int.self_le_toNat _))

/-- Places that are dropped from a quotient by a power of two are those of the number itself. -/
theorem excess_div_two_pow (f : Nat) : excess p (n / 2 ^ f) = excess p n - f := by
  rw [excess, excess, Nat.log2_eq_log_two, Nat.log2_eq_log_two, Nat.log_div_base_pow]
  omega

/-- Of a number of units below an integer of 65 bits, nothing is past the infinity. -/
theorem unitsAbs_round_one (negative : Bool) (hn : n ≤ 2 ^ (p.scale + 64)) :
    unitsAbs (round p negative n 1) = (Rounding.tiesEven.apply n (2 ^ excess p n)).toNat * 2 ^ excess p n ∧
      unitsAbs (round p negative n 1) < p.unitsOf p.infinity := by
  obtain ⟨hs, hunits⟩ := unitsAbs_round_eq p negative n Nat.one_pos
  simp only [Nat.div_one, Nat.one_mul] at hs hunits
  have hlog : n.log2 ≤ p.scale + 64 := by
    obtain rfl | hpos := Nat.eq_zero_or_pos n
    · exact Nat.zero_le _
    · exact (Nat.pow_le_pow_iff_right Nat.one_lt_two).1 ((Nat.log2_self_le hpos.ne').trans hn)
  have hlt : (Rounding.tiesEven.apply n (2 ^ excess p n)).toNat * 2 ^ excess p n < p.unitsOf p.infinity := by
    calc (Rounding.tiesEven.apply n (2 ^ excess p n)).toNat * 2 ^ excess p n
      _ ≤ 2 ^ (p.fractionBits + 1) * 2 ^ (p.scale + 64 - p.fractionBits) := by
        rw [Nat.pow_succ']
        exact Nat.mul_le_mul hs (Nat.pow_le_pow_right Nat.two_pos (Nat.sub_le_sub_right hlog _))
      _ = 2 ^ (p.scale + 65) := by
        have hplaces : p.fractionBits + 1 + (p.scale + 64 - p.fractionBits) = p.scale + 65 := by cases p <;> rfl
        rw [← Nat.pow_add, hplaces]
      _ < 2 ^ (p.scale + p.bias + 1) := Nat.pow_lt_pow_right Nat.one_lt_two (by cases p <;> decide)
      _ = p.unitsOf p.infinity := (p.unitsOf_infinity).symm
  rw [min_eq_left hlt.le] at hunits
  exact ⟨hunits, hunits ▸ hlt⟩

/-- A number that was rounded with all its places can be divided by a power of two without rounding it again. -/
theorem round_div_two_pow (negative : Bool) (h : f ≤ excess p n) (hn : n ≤ 2 ^ (p.scale + 64)) :
    round p negative (unitsAbs (round p negative n 1) * 2 ^ p.scale) (2 ^ f * 2 ^ p.scale) =
      round p negative n (2 ^ f) := by
  obtain ⟨hs, hquotient⟩ := unitsAbs_round_eq p negative n (Nat.two_pow_pos f)
  rw [excess_div_two_pow f, ← Nat.pow_add, Nat.add_sub_cancel' h] at hs hquotient
  generalize hk : excess p n = k at *
  generalize hsig : (Rounding.tiesEven.apply n (2 ^ k)).toNat = s at *
  have hwhole : unitsAbs (round p negative n 1) = s * 2 ^ (k - f) * 2 ^ f := by
    rw [(unitsAbs_round_one negative hn).1, hk, hsig, Nat.mul_assoc, ← Nat.pow_add, Nat.sub_add_cancel h]
  have hrepresentable : p.Representable (s * 2 ^ (k - f)) := (representable_of_le hs).mul_pow _
  refine eq_of_parts (by rw [isNegative_round, isNegative_round]) (p.unitsOf_strictMono.injective ?_)
  rw [← unitsAbs_eq, ← unitsAbs_eq, hquotient, hwhole, Nat.mul_assoc,
    unitsAbs_round hrepresentable (Nat.mul_pos (Nat.two_pow_pos f) (Nat.two_pow_pos _))]

theorem round_zero (negative : Bool) {den : Nat} (hden : 0 < den) : round p negative 0 den = ofParts p negative 0 := by
  have happly : Rounding.tiesEven.apply 0 den = 0 := by simp [Rounding.apply, hden]
  simp [round, excess, happly]

theorem roundInt_of_ne_zero {x : ℤ} (hx : x ≠ 0) (den : Nat) :
    roundInt p (x * 2 ^ p.scale) den false = round p (decide (x < 0)) (x.natAbs * 2 ^ p.scale) den := by
  have hpos : (0 : ℤ) < 2 ^ p.scale := by positivity
  have hsign : x * 2 ^ p.scale < 0 ↔ x < 0 := by simp [mul_neg_iff, hpos, hpos.not_gt]
  rw [roundInt, if_neg (mul_ne_zero hx hpos.ne'), Int.natAbs_mul, Int.natAbs_pow]
  simp only [hsign]
  rfl

/-- Converting an integer and dividing it by a power of two rounds once: the division reaches no place that was not there
before. -/
theorem ofInteger_eq_roundInt {x : ℤ} {fbits : Nat} (hx : x.natAbs ≤ 2 ^ 64) (hfbits : fbits ≤ 64) :
    ofInteger p x fbits = roundInt p (x * 2 ^ p.scale) (2 ^ fbits) false := by
  obtain rfl | hpos := Nat.eq_zero_or_pos fbits
  · rfl
  obtain ⟨hpower, hpositive, hunits⟩ := ofInteger_two_pow (p := p) (hfbits.trans (by cases p <;> decide))
  rw [ofInteger_zero] at hpower hpositive hunits
  have hnonzero : isZero (ofWhole p (2 ^ fbits)) = false := by
    rw [isZero_eq, hunits, decide_eq_false (by positivity)]
  rw [ofInteger, if_neg hpos.ne']
  obtain rfl | hne := eq_or_ne x 0
  · have hwhole : ofWhole p 0 = ofParts p false 0 := by simp [ofWhole, roundInt, round_zero]
    have hfinite : isInfinite (ofParts p false 0) = false := by cases p <;> decide
    have hzero : unitsAbs (ofParts p false 0) = 0 := by cases p <;> decide
    have hsign : isNegative (ofParts p false 0) = false := by cases p <;> decide
    rw [div, hwhole, hfinite, hpower, hnonzero, hpositive, hunits, hzero, hsign]
    simp [roundInt, round_zero]
  · have hn : x.natAbs * 2 ^ p.scale ≤ 2 ^ (p.scale + 64) := by
      rw [Nat.add_comm, Nat.pow_add]
      exact Nat.mul_le_mul_right _ hx
    have hexcess : fbits ≤ excess p (x.natAbs * 2 ^ p.scale) := by
      have hlog : p.scale ≤ (x.natAbs * 2 ^ p.scale).log2 := by
        rw [Nat.le_log2 (by positivity)]
        exact Nat.le_mul_of_pos_left _ (Int.natAbs_pos.2 hne)
      have hscale : p.fractionBits + 64 ≤ p.scale := by cases p <;> decide
      rw [excess]
      omega
    have hwhole : ofWhole p x = round p (decide (x < 0)) (x.natAbs * 2 ^ p.scale) 1 := roundInt_of_ne_zero hne 1
    have hfinite : isInfinite (ofWhole p x) = false := by
      rw [isInfinite_eq, hwhole, decide_eq_false (unitsAbs_round_one _ hn).2.ne]
    rw [div, hfinite, hpower, hnonzero, hpositive, hunits, hwhole, isNegative_round, roundInt_of_ne_zero hne,
      ← round_div_two_pow _ hexcess hn]
    simp

end SingleRounding

section Scaled

variable {x : ℤ} {fbits : Nat}

theorem units_ofInteger (hx : x.natAbs ≤ 2 ^ 53) (hfbits : fbits ≤ 64) :
    units (ofInteger .double x fbits) = double.clamp (x * 2 ^ (double.scale - fbits)) := by
  have hrepresentable : double.Representable (x * 2 ^ (double.scale - fbits)).natAbs := by
    rw [Int.natAbs_mul, Int.natAbs_pow]
    exact (representable_of_le hx).mul_pow _
  have hscale : x * 2 ^ double.scale = x * 2 ^ (double.scale - fbits) * (2 ^ fbits : ℕ) := by
    rw [Nat.cast_pow, Nat.cast_ofNat, mul_assoc, ← pow_add, Nat.sub_add_cancel (hfbits.trans (by decide))]
  rw [ofInteger_eq_roundInt (hx.trans (by decide)) hfbits, hscale]
  exact units_roundInt hrepresentable (Nat.two_pow_pos fbits) false

/-- Scaling down drops no digit. -/
theorem isScaled_ofInteger (hx : x.natAbs ≤ 2 ^ 53) (hfbits : fbits ≤ 64) :
    IsScaled (ofInteger .double x fbits) x fbits := by
  have hscale : fbits ≤ double.scale := hfbits.trans (by decide)
  have hlt : (x * 2 ^ (double.scale - fbits)).natAbs < double.unitsOf double.infinity := by
    rw [Int.natAbs_mul, Int.natAbs_pow]
    calc x.natAbs * 2 ^ (double.scale - fbits)
      _ ≤ 2 ^ 53 * 2 ^ double.scale :=
        Nat.mul_le_mul hx (Nat.pow_le_pow_right Nat.two_pos (Nat.sub_le _ _))
      _ < double.unitsOf double.infinity := two_pow_lt_unitsOf_infinity (by decide)
  have hunits := units_ofInteger hx hfbits
  rw [clamp_eq_self hlt] at hunits
  refine ⟨?_, ?_, ?_⟩
  · rw [ofInteger_eq_roundInt (hx.trans (by decide)) hfbits, isNaN_roundInt]
  · rw [isInfinite_eq, ← natAbs_units, hunits, decide_eq_false hlt.ne]
  · rw [scaledUnits, hunits, Nat.sub_self, Nat.zero_add, mul_assoc, ← pow_add, Nat.sub_add_cancel hscale]
    push_cast
    rfl

namespace IsScaled

variable {y : Float .double}

theorem rational_mul (h : IsScaled y x fbits) : rational y * 2 ^ fbits = x := by
  have hpos : ((2 ^ double.scale : ℕ) : ℚ) ≠ 0 := by positivity
  rw [rational_scaled, h.scaledUnits_eq, Int.cast_mul, Int.cast_natCast, mul_div_cancel_right₀ _ hpos]

/-- The scaled value is an integer, which every mode picks as it is. -/
theorem toInteger_eq (h : IsScaled y x fbits) (mode : Rounding) (signed : Bool) {n : Nat} (hn : n ≤ double.bias)
    (hfbits : fbits ≤ double.bias) (hleast : Lane.least signed n ≤ x) (hgreatest : x ≤ Lane.greatest signed n) :
    toInteger y mode signed n fbits = pure (BitVec.ofInt n x) := by
  have hscaled := scaled_of_finite h.number h.finite hfbits
  have hrounded := units_integral mode hscaled
  rw [h.scaledUnits_eq, Rounding.apply_mul (Nat.two_pow_pos _)] at hrounded
  rw [Float.toInteger_eq mode signed h.number hn hrounded, min_eq_left hgreatest, max_eq_right hleast,
    decide_eq_false (by omega)]
  rfl

end IsScaled

theorem toInteger_ofInteger (mode : Rounding) (signed : Bool) {n : Nat} (v : BitVec n)
    (hv : (Lane.value signed v).natAbs ≤ 2 ^ 53) (hn : n ≤ double.bias) (hfbits : fbits ≤ 64) :
    toInteger (ofInteger .double (Lane.value signed v) fbits) mode signed n fbits = pure v := by
  have hscaled := isScaled_ofInteger hv hfbits
  rw [hscaled.toInteger_eq mode signed hn (hfbits.trans (by decide)) (Lane.least_le_value v) (Lane.value_le_greatest v),
    Lane.ofInt_value]

end Scaled

end Float

namespace InstructionWord

variable (w : InstructionWord)

/-- The conversions from a general register to floating point, `SCVTF` and `UCVTF`, from integers and from fixed point. -/
def IsIntegerToFloat (p : Precision) (signed : Bool) (width : Width) (fbits : Nat) : Prop :=
  w.number 30 24 = 0b0011110 ∧ w.number 23 22 = (match p with | .single => 0 | .double => 1) ∧
    Width.ofBit (w.bit 31) = width ∧ w.number 20 17 = 1 ∧ w.bit 16 = !signed ∧
      if w.bit 21 then w.number 15 10 = 0 ∧ fbits = 0
      else w.number 15 10 + fbits = 64 ∧ fbits ≤ width.bits

instance (p : Precision) (signed : Bool) (width : Width) (fbits : Nat) :
    Decidable (w.IsIntegerToFloat p signed width fbits) :=
  inferInstanceAs (Decidable (_ ∧ _))

end InstructionWord

namespace SimdInstruction

open InstructionWord

variable {w : InstructionWord} {p : Precision} {signed : Bool} {width : Width} {fbits : Nat}

theorem decodeFloatInteger_of_isIntegerToFloat (h : w.IsIntegerToFloat p signed width fbits)
    (h21 : w.bit 21 = true) : decodeFloatInteger w = usual w (.fromInteger p signed width fbits) := by
  obtain ⟨-, hprecision, rfl, hopcode, hsigned, h⟩ := h
  rw [h21, if_pos rfl] at h
  obtain ⟨-, rfl⟩ := h
  have hfields : w.number 18 16 = 2 + (!signed).toNat ∧ w.number 20 19 = 0 := by
    rw [← hsigned]
    simp only [number_eq, toNat_bit] at hopcode ⊢
    omega
  rw [decodeFloatInteger]
  simp only [hfields.1, hfields.2, hprecision]
  cases p <;> cases signed <;> simp

theorem decodeFloatFixed_of_isIntegerToFloat (h : w.IsIntegerToFloat p signed width fbits)
    (h21 : w.bit 21 = false) : decodeFloatFixed w = usual w (.fromInteger p signed width fbits) := by
  obtain ⟨-, hprecision, rfl, hopcode, hsigned, h⟩ := h
  rw [h21, if_neg Bool.false_ne_true] at h
  obtain ⟨hscale, hle⟩ := h
  obtain rfl : fbits = 64 - w.number 15 10 := by omega
  have hfields : w.number 20 16 = 2 + (!signed).toNat := by
    rw [← hsigned]
    simp only [number_eq, toNat_bit] at hopcode ⊢
    omega
  rw [decodeFloatFixed, withPrecision]
  simp only [refused_of_places hle, hfields, hsigned, hprecision]
  cases p <;> cases signed <;> simp

theorem decode_of_isIntegerToFloat (h : w.IsIntegerToFloat p signed width fbits) :
    decode w = usual w (.fromInteger p signed width fbits) := by
  have hrest := h.2.2.2.2.2
  cases h21 : w.bit 21 with
  | false =>
    rw [decode_of_conversion h.1 (by simp [h21]), h21]
    exact decodeFloatFixed_of_isIntegerToFloat h h21
  | true =>
    rw [h21, if_pos rfl] at hrest
    rw [decode_of_conversion h.1 fun _ => hrest.1, h21]
    exact decodeFloatInteger_of_isIntegerToFloat h h21

end SimdInstruction

namespace Machine

open AArch64.Float InstructionWord

theorem execute_integerToFloat {w : InstructionWord} {p : Precision} {signed : Bool} {width : Width} {fbits : Nat}
    (h : w.IsIntegerToFloat p signed width fbits) (m : Machine) :
    let y := ofInteger p (Lane.value signed (m.state.read width.bits w.rn)) fbits
    (m.execute w).1 = .ok .ready ∧ (m.execute w).2.state = m.state.setVector w.rd (Lanes.scalar y) := by
  obtain ⟨houtcome, hstate⟩ := m.execute_simd (group_of_float h.1) (SimdInstruction.decode_of_isIntegerToFloat h)
  refine ⟨houtcome, hstate.trans ?_⟩
  simp only [SimdInstruction.execute, SimdInstruction.eval, Flagged.value_pure, Flagged.raised_pure, State.raise,
    Fpsr.raise_none]
  rfl

/-- An integer of 32 bits, and one of 64 bits that is at most `2 ^ 53` in size, is held exactly when it is converted to
double precision with any number of places taken as fraction. Converting the value back gives the integer again, and
neither conversion raises a flag. -/
theorem integer_to_float_and_back (signed : Bool) {width : Width} (v : BitVec width.bits) {fbits : Nat}
    (hfbits : fbits ≤ width.bits) (hv : width = .w64 → (Lane.value signed v).natAbs ≤ 2 ^ 53) :
    let y := ofInteger .double (Lane.value signed v) fbits
    rational y * 2 ^ fbits = Lane.value signed v ∧ toInteger y .zero signed width.bits fbits = pure v ∧
      ∀ (w₁ w₂ : InstructionWord) (m : Machine), w₁.IsIntegerToFloat .double signed width fbits →
        w₂.IsFloatToInteger .double .zero signed width fbits → w₂.rn = w₁.rd → m.state.read width.bits w₁.rn = v →
        let m₁ := (m.execute w₁).2
        let m₂ := (m₁.execute w₂).2
        (m.execute w₁).1 = .ok .ready ∧ m₁.state = m.state.setVector w₁.rd (Lanes.scalar y) ∧
          (m₁.execute w₂).1 = .ok .ready ∧ m₂.state = m₁.state.write w₂.rd v ∧
          (w₂.rd ≠ Register.stackPointer → m₂.state.read width.bits w₂.rd = v) ∧ m₂.state.fpsr = m.state.fpsr := by
  intro y
  have hsmall : (Lane.value signed v).natAbs ≤ 2 ^ 53 := by
    cases width with
    | w64 => exact hv rfl
    | w32 =>
      have hleast : Lane.least signed _ ≤ Lane.value signed v := Lane.least_le_value v
      have hgreatest : Lane.value signed v ≤ Lane.greatest signed _ := Lane.value_le_greatest v
      have hbounds := range_bounds signed Width.w32.bits
      have hwidth : (2 : ℤ) ^ Width.w32.bits = 2 ^ 32 := rfl
      omega
  have hscale : fbits ≤ 64 := hfbits.trans (by cases width <;> decide)
  have hback : toInteger y .zero signed width.bits fbits = pure v :=
    toInteger_ofInteger .zero signed v hsmall (by cases width <;> decide) hscale
  refine ⟨(isScaled_ofInteger hsmall hscale).rational_mul, hback, ?_⟩
  rintro w₁ w₂ m h₁ h₂ hsource rfl m₁ m₂
  obtain ⟨houtcome₁, hstate₁⟩ := m.execute_integerToFloat h₁
  obtain ⟨houtcome₂, hstate₂⟩ := m₁.execute_floatToInteger h₂
  have hlane : FloatVectorOp.lane .double (m₁.state.vector w₂.rn) 0 = y := by
    rw [hstate₁, hsource, State.vector_setVector, if_pos rfl]
    exact Lanes.get_scalar y (by decide)
  rw [hlane, hback] at hstate₂
  have hstate : m₂.state = m₁.state.write w₂.rd (m.state.read width.bits w₁.rn) := by
    rw [hstate₂]
    simp [State.raise]
  refine ⟨houtcome₁, hstate₁, houtcome₂, hstate, fun hrd => ?_, ?_⟩
  · rw [hstate, State.read_write, if_pos ⟨rfl, by simp [hrd]⟩]
    cases width <;> simp [Width.bits]
  · rw [hstate, hstate₁]
    rfl

/-- `SCVTF D0, W1, #32` and `FCVTZS W2, D0, #32` of the most negative integer, and `UCVTF D0, X1` and `FCVTZU X2, D0` of
`2 ^ 53`. -/
theorem integer_to_float_and_back_extremes :
    let least : Machine := withState {} (State.write {} 1#5 0x80000000#64)
    let great : Machine := withState {} (State.write {} 1#5 0x20000000000000#64)
    let least₁ := (least.execute 0x1E428020#32).2
    let great₁ := (great.execute 0x9E630020#32).2
    least₁.state.vector 0#5 = 0xBFE0000000000000#128 ∧ (least₁.execute 0x1E588002#32).2.state.slot 2#5 = 0x80000000#64 ∧
      great₁.state.vector 0#5 = 0x4340000000000000#128 ∧
      (great₁.execute 0x9E790002#32).2.state.slot 2#5 = 0x20000000000000#64 ∧
      (great₁.execute 0x9E790002#32).2.state.fpsr = {} := by
  intro least great least₁ great₁
  have hwidth : 32 ≤ Width.w32.bits := by decide
  obtain ⟨-, -, hleast⟩ := integer_to_float_and_back true (BitVec.ofNat Width.w32.bits 0x80000000) hwidth (by decide)
  obtain ⟨-, -, hgreat⟩ := integer_to_float_and_back false (BitVec.ofNat Width.w64.bits 0x20000000000000) (Nat.zero_le _)
    (by decide)
  obtain ⟨-, hleast₁, -, hleast₂, -⟩ := hleast 0x1E428020#32 0x1E588002#32 least (by decide) (by decide) rfl rfl
  obtain ⟨-, hgreat₁, -, hgreat₂, -⟩ := hgreat 0x9E630020#32 0x9E790002#32 great (by decide) (by decide) rfl rfl
  rw [hleast₂, hleast₁, hgreat₂, hgreat₁]
  decide +kernel

end Machine
end AArch64
