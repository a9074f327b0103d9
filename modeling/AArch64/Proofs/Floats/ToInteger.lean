import AArch64.Float.Convert
import AArch64.Proofs.Execution
import AArch64.Proofs.Floats.Exact
import AArch64.Proofs.Vectors.ThreeSame

/-! Conversions of floating-point values to integers. In double precision the scaled value is exact or infinite, rounding
it to an integer is exact again, and the ends of the range are powers of two. So the only rounding is the one that was
asked for. -/
namespace AArch64

namespace Precision

/-- Every format has its units and its infinity within those of double precision. -/
theorem within_double (p : Precision) : p.scale ≤ double.scale ∧
    p.unitsOf p.infinity * 2 ^ (double.scale - p.scale) ≤ double.unitsOf double.infinity := by
  cases p <;> decide +kernel

end Precision

namespace Float

open Precision

variable {p : Precision} {x : Float p}

/-- The value times `2 ^ fbits`, in units of double precision. -/
def scaledUnits (x : Float p) (fbits : Nat) : ℤ := units x * 2 ^ (double.scale - p.scale + fbits)

theorem representable_double (x : Float p) : double.Representable (unitsAbs x) := by
  obtain ⟨s, k, hs, hk⟩ := representable_unitsAbs x
  exact ⟨s, k, hs.trans_le (by cases p <;> decide), hk⟩

theorem natAbs_scaledUnits (x : Float p) (fbits : Nat) :
    (scaledUnits x fbits).natAbs = unitsAbs x * 2 ^ (double.scale - p.scale + fbits) := by
  rw [scaledUnits, Int.natAbs_mul, natAbs_units, Int.natAbs_pow]
  rfl

theorem ofInteger_zero (p : Precision) (x : ℤ) : ofInteger p x 0 = ofWhole p x := rfl

theorem ofInteger_two_pow {k : Nat} (hk : k ≤ p.bias) : isInfinite (ofInteger p (2 ^ k) 0) = false ∧
    isNegative (ofInteger p (2 ^ k) 0) = false ∧ unitsAbs (ofInteger p (2 ^ k) 0) = 2 ^ k * 2 ^ p.scale := by
  have heq : ofInteger p (2 ^ k) 0 = round p false (2 ^ k * 2 ^ p.scale * 1) 1 := by
    have hint : (2 ^ k * 2 ^ p.scale : ℤ) = (2 ^ k * 2 ^ p.scale * 1 : ℕ) := by push_cast; ring
    have hpos : 0 < 2 ^ k * 2 ^ p.scale * 1 := by positivity
    rw [ofInteger_zero, ofWhole, roundInt, hint, if_neg (by exact_mod_cast hpos.ne'), Int.natAbs_natCast,
      decide_eq_false (by omega)]
  have habs : unitsAbs (ofInteger p (2 ^ k) 0) = 2 ^ k * 2 ^ p.scale := by
    rw [heq, unitsAbs_round ((representable_two_pow p k).mul_pow _) Nat.one_pos,
      min_eq_left (two_pow_lt_unitsOf_infinity hk).le]
  refine ⟨?_, heq ▸ isNegative_round p _ _ _, habs⟩
  rw [isInfinite_eq, habs, decide_eq_false (two_pow_lt_unitsOf_infinity hk).ne]

theorem convert_double (hnumber : isNaN x = false) (hfinite : isInfinite x = false) :
    isInfinite (convert .double x).value = false ∧ isNegative (convert .double x).value = isNegative x ∧
      unitsAbs (convert .double x).value = unitsAbs x * 2 ^ (double.scale - p.scale) := by
  obtain ⟨hscale, hinfinity⟩ := p.within_double
  have hlt : unitsAbs x * 2 ^ (double.scale - p.scale) < double.unitsOf double.infinity :=
    Nat.lt_of_lt_of_le (Nat.mul_lt_mul_of_pos_right (unitsAbs_lt hnumber hfinite) (Nat.two_pow_pos _)) hinfinity
  have heq : (convert .double x).value =
      round .double (isNegative x) (unitsAbs x * 2 ^ (double.scale - p.scale) * 2 ^ p.scale) (2 ^ p.scale) := by
    rw [convert, hnumber, hfinite, if_neg Bool.false_ne_true, if_neg Bool.false_ne_true, Nat.mul_assoc, ← Nat.pow_add,
      Nat.sub_add_cancel hscale]
    rfl
  have habs : unitsAbs (convert .double x).value = unitsAbs x * 2 ^ (double.scale - p.scale) := by
    rw [heq, unitsAbs_round ((representable_double x).mul_pow _) (Nat.two_pow_pos _), min_eq_left hlt.le]
  refine ⟨?_, heq ▸ isNegative_round _ _ _ _, habs⟩
  rw [isInfinite_eq, habs, decide_eq_false hlt.ne]

theorem scaled_of_finite (hnumber : isNaN x = false) (hfinite : isInfinite x = false) {fbits : Nat}
    (hfbits : fbits ≤ double.bias) : units (scaled x fbits) = double.clamp (scaledUnits x fbits) := by
  obtain ⟨hfinite', hsign, habs⟩ := convert_double hnumber hfinite
  obtain ⟨hpower, hpositive, hunits⟩ := ofInteger_two_pow hfbits
  have heq : scaled x fbits = round .double (isNegative x) ((scaledUnits x fbits).natAbs * 2 ^ double.scale)
      (2 ^ double.scale) := by
    rw [scaled, mul, hfinite', hpower, hsign, hpositive, habs, hunits, natAbs_scaledUnits, Bool.bne_false, Nat.pow_add]
    simp only [Bool.or_self, Bool.false_eq_true, if_false, Option.getD_some, Nat.mul_assoc]
  rw [heq]
  refine units_round _ ?_ (Nat.two_pow_pos _) ?_
  · rw [natAbs_scaledUnits]
    exact (representable_double x).mul_pow _
  · cases hneg : isNegative x <;> simp [scaledUnits, units, hneg]

theorem scaled_of_infinite (hnumber : isNaN x = false) (hinfinite : isInfinite x = true) {fbits : Nat}
    (hfbits : fbits ≤ double.bias) : scaled x fbits = infinity .double (isNegative x) := by
  obtain ⟨hpower, hpositive, hunits⟩ := ofInteger_two_pow hfbits
  have hconvert : (convert .double x).value = infinity .double (isNegative x) := by
    rw [convert, hnumber, hinfinite, if_neg Bool.false_ne_true, if_pos rfl]
    rfl
  have hmagnitude : magnitude (infinity .double (isNegative x)) = double.infinity :=
    magnitude_ofParts _ double.infinity_lt
  have hzero : isZero (ofInteger .double (2 ^ fbits) 0) = false := by
    rw [isZero_eq, hunits, decide_eq_false (by positivity)]
  have hzero' : isZero (infinity .double (isNegative x)) = false := by
    rw [isZero, hmagnitude]
    rfl
  rw [scaled, hconvert, mul, isInfinite, hmagnitude, isNegative_infinity, hpositive, hzero, hzero']
  simp

structure IsInteger (x : Float p) (c : ℤ) : Prop where
  number : isNaN x = false
  finite : isInfinite x = false
  units_eq : units x = c * (2 ^ p.scale : ℕ)

namespace IsInteger

variable {c : ℤ}

theorem two_pow {k : Nat} (hk : k ≤ p.bias) : IsInteger (ofInteger p (2 ^ k) 0) (2 ^ k) := by
  obtain ⟨hfinite, hsign, habs⟩ := ofInteger_two_pow hk
  refine ⟨isNaN_roundInt _ _ _ _, hfinite, ?_⟩
  rw [units, hsign, habs]
  push_cast
  rfl

theorem zero (p : Precision) : IsInteger (Float.zero p) 0 := by
  have habs : unitsAbs (Float.zero p) = 0 := by cases p <;> decide
  refine ⟨by cases p <;> decide, by cases p <;> decide, ?_⟩
  simp [units, habs]

theorem neg (h : IsInteger x c) : IsInteger (Float.neg x) (-c) := by
  refine ⟨isNaN_neg x ▸ h.number, ?_, ?_⟩
  · rw [isInfinite, magnitude_neg]
    exact h.finite
  · rw [units_neg, h.units_eq, neg_mul]

end IsInteger

section Range

variable {y l : Float p} {r c : ℤ}

theorem units_le_iff (hunits : units y = p.clamp (r * (2 ^ p.scale : ℕ))) (hl : IsInteger l c) :
    units l ≤ units y ↔ c ≤ r := by
  have habs : (units l).natAbs < p.unitsOf p.infinity := natAbs_units l ▸ unitsAbs_lt hl.number hl.finite
  have hpos : (0 : ℤ) < (2 ^ p.scale : ℕ) := by positivity
  have hscaled : c * (2 ^ p.scale : ℕ) ≤ r * (2 ^ p.scale : ℕ) ↔ c ≤ r := mul_le_mul_iff_of_pos_right hpos
  rw [← hscaled, ← hl.units_eq, hunits, clamp]
  omega

theorem holds_greaterEqual (hnumber : isNaN y = false) (hunits : units y = p.clamp (r * (2 ^ p.scale : ℕ)))
    (hl : IsInteger l c) : Relation.greaterEqual.holds y l = decide (c ≤ r) := by
  simp only [Relation.holds, Relation.operand, order?_of_numbers hnumber hl.number]
  rw [Bool.eq_iff_iff, decide_eq_true_iff, ← units_le_iff hunits hl]
  exact Int.isGE_compare

theorem holds_less (hnumber : isNaN y = false) (hunits : units y = p.clamp (r * (2 ^ p.scale : ℕ)))
    (hl : IsInteger l c) : Relation.less.holds y l = decide (r < c) := by
  simp only [Relation.holds, Relation.operand, order?_of_numbers hnumber hl.number]
  rw [Bool.eq_iff_iff, decide_eq_true_iff, ← not_le, ← units_le_iff hunits hl, not_le]
  exact Ordering.isLT_iff_eq_lt.trans compare_lt_iff_lt

theorem truncated_eq (hunits : units y = p.clamp (r * (2 ^ p.scale : ℕ))) {k : Nat} (hk : k ≤ p.bias)
    (hr : r.natAbs ≤ 2 ^ k) : truncated y = r := by
  have hlt : (r * (2 ^ p.scale : ℕ)).natAbs < p.unitsOf p.infinity := by
    rw [Int.natAbs_mul, Int.natAbs_natCast]
    exact Nat.lt_of_le_of_lt (Nat.mul_le_mul_right _ hr) (two_pow_lt_unitsOf_infinity hk)
  rw [truncated, hunits, clamp_eq_self hlt, Rounding.apply_mul (Nat.two_pow_pos _)]

end Range

theorem integerRange_eq (signed : Bool) (n : Nat) :
    integerRange signed n = (Lane.least signed n, Lane.greatest signed n) := by cases signed <;> rfl

theorem range_bounds (signed : Bool) (n : Nat) : -2 ^ n ≤ Lane.least signed n ∧
    Lane.least signed n ≤ Lane.greatest signed n ∧ Lane.greatest signed n < 2 ^ n := by
  have hpos : (0 : ℤ) < 2 ^ (n - 1) := by positivity
  have hle : (2 : ℤ) ^ (n - 1) ≤ 2 ^ n := pow_le_pow_right₀ (by decide) (Nat.sub_le n 1)
  cases signed <;> simp only [Lane.least, Lane.greatest, Bool.false_eq_true, if_false, if_true] <;> omega

/-- The comparisons with the ends of the range are those of the integer itself. -/
theorem toInteger_eq (mode : Rounding) (signed : Bool) {n fbits : Nat} {r : ℤ} (hnumber : isNaN x = false)
    (hbias : n ≤ double.bias)
    (hunits : units (integral mode (scaled x fbits)) = double.clamp (r * (2 ^ double.scale : ℕ))) :
    toInteger x mode signed n fbits =
      { value := BitVec.ofInt n (max (Lane.least signed n) (min r (Lane.greatest signed n)))
        raised := { invalidOperation := decide (r < Lane.least signed n ∨ Lane.greatest signed n < r) } } := by
  have hrounded := isNaN_integral mode (scaled x fbits)
  obtain ⟨k, hk⟩ : ∃ k, (if signed then n - 1 else n) = k := ⟨_, rfl⟩
  have hgreatest : Lane.greatest signed n = 2 ^ k - 1 := by subst hk; cases signed <;> rfl
  have hleast : Lane.least signed n = if signed then -2 ^ k else 0 := by subst hk; cases signed <;> rfl
  have hkbias : k ≤ double.bias := by split at hk <;> omega
  have hlimit : IsInteger (ofInteger .double (2 ^ k) 0) (2 ^ k) := IsInteger.two_pow hkbias
  have hlower : IsInteger (if signed then neg (ofInteger .double (2 ^ k) 0) else zero .double) (Lane.least signed n) := by
    rw [hleast]
    cases signed with
    | false => exact IsInteger.zero .double
    | true => exact hlimit.neg
  have hge := holds_greaterEqual hrounded hunits hlimit
  have hlt := holds_less hrounded hunits hlower
  have hbounds := range_bounds signed n
  have hends : 2 ^ k ≤ r ↔ Lane.greatest signed n < r := by omega
  rw [toInteger, hnumber, integerRange_eq]
  simp only [Bool.false_eq_true, if_false, hk, hge, hlt, decide_eq_true_eq, hends]
  split
  · next h =>
    rw [min_eq_right h.le, max_eq_right (by omega), decide_eq_true (.inr h)]
    rfl
  · split
    · next h =>
      rw [max_eq_left (by omega), decide_eq_true (.inl h)]
      rfl
    · next h₁ h₂ =>
      have hr : r.natAbs ≤ 2 ^ n := by
        zify
        exact abs_le.2 ⟨by omega, by omega⟩
      rw [truncated_eq hunits hbias hr, min_eq_left (by omega), max_eq_right (by omega), decide_eq_false (by omega)]
      rfl

theorem rational_scaled (x : Float p) (fbits : Nat) :
    rational x * 2 ^ fbits = scaledUnits x fbits / (2 ^ double.scale : ℕ) := by
  have hscale : (2 : ℚ) ^ double.scale = 2 ^ p.scale * 2 ^ (double.scale - p.scale) := by
    rw [← pow_add, Nat.add_sub_cancel' p.within_double.1]
  rw [rational_eq, scaledUnits]
  push_cast
  rw [hscale, pow_add]
  field_simp

/-- An infinity counts as an integer beyond every range. -/
theorem toInteger_of_infinite (mode : Rounding) (signed : Bool) {n fbits : Nat} (hinfinite : isInfinite x = true)
    (hn : n ≤ double.bias) (hfbits : fbits ≤ double.bias) :
    toInteger x mode signed n fbits =
      Flagged.invalid (BitVec.ofInt n (if isNegative x then Lane.least signed n else Lane.greatest signed n)) := by
  have hnumber := isNaN_of_isInfinite hinfinite
  generalize hr : (if isNegative x then -2 ^ (double.bias + 1) else 2 ^ (double.bias + 1) : ℤ) = r
  have hends : units (infinity .double (isNegative x)) = double.clamp (r * (2 ^ double.scale : ℕ)) := by
    rw [← hr, units, isNegative_infinity, infinity, unitsAbs_ofParts _ (Nat.le_refl _), unitsOf_infinity_eq]
    split
    · rw [neg_mul, ← unitsOf_infinity_eq, clamp_of_le le_rfl]
    · rw [← unitsOf_infinity_eq, clamp_of_ge le_rfl]
  have hunits : units (integral mode (scaled x fbits)) = double.clamp (r * (2 ^ double.scale : ℕ)) := by
    rw [scaled_of_infinite hnumber hinfinite hfbits, units_integral mode hends, Rounding.apply_mul (Nat.two_pow_pos _)]
  have hbounds := range_bounds signed n
  have hbeyond : (2 : ℤ) ^ n < 2 ^ (double.bias + 1) := pow_lt_pow_right₀ (by decide) (by omega)
  rw [toInteger_eq mode signed hnumber hn hunits]
  split at hr
  · next hnegative =>
    rw [min_eq_left (by omega), max_eq_left (by omega), decide_eq_true (by omega), if_pos hnegative]
    rfl
  · next hnegative =>
    rw [min_eq_right (by omega), max_eq_right (by omega), decide_eq_true (by omega), if_neg hnegative]
    rfl

/-- The one integer that the mode picks decides about the result for a finite value. -/
theorem toInteger_of_finite (mode : Rounding) (signed : Bool) {n fbits : Nat} (hnumber : isNaN x = false)
    (hfinite : isInfinite x = false) (hn : n ≤ double.bias) (hfbits : fbits ≤ double.bias) :
    ∃ r : ℤ, (∀ r', mode.Picks (rational x * 2 ^ fbits) r' ↔ r' = r) ∧
      toInteger x mode signed n fbits =
        { value := BitVec.ofInt n (max (Lane.least signed n) (min r (Lane.greatest signed n)))
          raised := { invalidOperation := decide (r < Lane.least signed n ∨ Lane.greatest signed n < r) } } := by
  have hpicks := Rounding.picks_apply (scaledUnits x fbits) (Nat.two_pow_pos double.scale) mode
  rw [← rational_scaled] at hpicks
  refine ⟨_, fun r' => ⟨fun h => h.unique hpicks, fun h => h ▸ hpicks⟩, ?_⟩
  exact toInteger_eq mode signed hnumber hn (units_integral mode (scaled_of_finite hnumber hfinite hfbits))

end Float

/-- The field of the words that rounds. -/
def Rounding.code : Rounding → Nat
  | tiesEven => 0
  | tiesAway => 2
  | plusInfinity => 4
  | minusInfinity => 8
  | zero => 12

namespace InstructionWord

variable (w : InstructionWord)

/-- The conversions from floating point to a general register: `FCVTNS`, `FCVTPS`, `FCVTMS`, `FCVTZS`, `FCVTAS` and their
unsigned forms. Those to fixed point only round towards zero. -/
def IsFloatToInteger (p : Precision) (mode : Rounding) (signed : Bool) (width : Width) (fbits : Nat) : Prop :=
  w.number 30 24 = 0b0011110 ∧ w.number 23 22 = (match p with | .single => 0 | .double => 1) ∧
    Width.ofBit (w.bit 31) = width ∧ w.number 20 17 = mode.code ∧ w.bit 16 = !signed ∧
      if w.bit 21 then w.number 15 10 = 0 ∧ fbits = 0
      else mode = .zero ∧ w.number 15 10 + fbits = 64 ∧ fbits ≤ width.bits

instance (p : Precision) (mode : Rounding) (signed : Bool) (width : Width) (fbits : Nat) :
    Decidable (w.IsFloatToInteger p mode signed width fbits) :=
  inferInstanceAs (Decidable (_ ∧ _))

end InstructionWord

namespace SimdInstruction

open InstructionWord

variable {w : InstructionWord} {p : Precision} {mode : Rounding} {signed : Bool} {width : Width} {fbits : Nat}

theorem refused_of_places (h : 64 - w.number 15 10 ≤ (Width.ofBit (w.bit 31)).bits) :
    (!w.bit 31 && decide (w.number 15 10 < 32)) = false := by
  cases h31 : w.bit 31 with
  | true => rfl
  | false =>
    rw [h31] at h
    have hle : 64 - w.number 15 10 ≤ 32 := h
    exact decide_eq_false (by omega)

/-- Conversions from and to integers have no operand where those from and to fixed point have the places of fraction. -/
theorem decode_of_conversion (hclass : w.number 30 24 = 0b0011110) (hlow : w.bit 21 = true → w.number 15 10 = 0) :
    decode w = if w.bit 21 then decodeFloatInteger w else decodeFloatFixed w := by
  have h29 : w.bit 29 = false := by
    simp only [number_eq, bit_eq_false] at hclass ⊢
    omega
  rw [decode_of_float hclass, decodeFloat, h29]
  cases h21 : w.bit 21 with
  | false => rfl
  | true => simp [hlow h21]

theorem decodeFloatInteger_of_isFloatToInteger (h : w.IsFloatToInteger p mode signed width fbits)
    (h21 : w.bit 21 = true) : decodeFloatInteger w = usual w (.toInteger p mode signed width fbits) := by
  obtain ⟨-, hprecision, rfl, hmode, hsigned, h⟩ := h
  rw [h21, if_pos rfl] at h
  obtain ⟨-, rfl⟩ := h
  have hopcode : w.number 18 16 = 2 * (mode.code % 4) + (!signed).toNat ∧ w.number 20 19 = mode.code / 4 := by
    rw [← hsigned]
    simp only [number_eq, toNat_bit] at hmode ⊢
    omega
  have hrounding : Rounding.ofCode (w.extractLsb 20 19) = Rounding.ofCode (BitVec.ofNat 2 (mode.code / 4)) := by
    rw [← hopcode.2, number, BitVec.ofNat_toNat]
    rfl
  rw [decodeFloatInteger]
  simp only [hopcode.1, hopcode.2, hrounding, hprecision]
  cases p <;> cases mode <;> cases signed <;> simp [Rounding.code, Rounding.ofCode]

theorem decodeFloatFixed_of_isFloatToInteger (h : w.IsFloatToInteger p mode signed width fbits)
    (h21 : w.bit 21 = false) : decodeFloatFixed w = usual w (.toInteger p mode signed width fbits) := by
  obtain ⟨-, hprecision, rfl, hmode, hsigned, h⟩ := h
  rw [h21, if_neg Bool.false_ne_true] at h
  obtain ⟨rfl, hscale, hle⟩ := h
  obtain rfl : fbits = 64 - w.number 15 10 := by omega
  have hopcode : w.number 20 16 = 24 + (!signed).toNat := by
    rw [← hsigned]
    rw [Rounding.code] at hmode
    simp only [number_eq, toNat_bit] at hmode ⊢
    omega
  rw [decodeFloatFixed, withPrecision]
  simp only [refused_of_places hle, hopcode, hsigned, hprecision]
  cases p <;> cases signed <;> simp

theorem decode_of_isFloatToInteger (h : w.IsFloatToInteger p mode signed width fbits) :
    decode w = usual w (.toInteger p mode signed width fbits) := by
  have hrest := h.2.2.2.2.2
  cases h21 : w.bit 21 with
  | false =>
    rw [decode_of_conversion h.1 (by simp [h21]), h21]
    exact decodeFloatFixed_of_isFloatToInteger h h21
  | true =>
    rw [h21, if_pos rfl] at hrest
    rw [decode_of_conversion h.1 fun _ => hrest.1, h21]
    exact decodeFloatInteger_of_isFloatToInteger h h21

end SimdInstruction

namespace Machine

open AArch64.Float InstructionWord

theorem execute_floatToInteger {w : InstructionWord} {p : Precision} {mode : Rounding} {signed : Bool} {width : Width}
    {fbits : Nat} (h : w.IsFloatToInteger p mode signed width fbits) (m : Machine) :
    let r := toInteger (FloatVectorOp.lane p (m.state.vector w.rn) 0) mode signed width.bits fbits
    (m.execute w).1 = .ok .ready ∧ (m.execute w).2.state = (m.state.raise r.raised).write w.rd r.value :=
  execute_result (group_of_float h.1) (SimdInstruction.decode_of_isFloatToInteger h) m rfl

/-- For the value times `2 ^ fbits` there is one integer that the mode picks. A conversion gives this integer, or the end
of the range next to it, and is invalid exactly where it is outside the range. An infinity is outside on its side, and a
NaN gives zero and is invalid. -/
theorem float_to_integer_exact {p : Precision} (x : Float p) (mode : Rounding) (signed : Bool) (width : Width)
    {fbits : Nat} (hfbits : fbits ≤ 64) :
    let n := width.bits
    let result := toInteger x mode signed n fbits
    (∀ (w : InstructionWord) (m : Machine), w.IsFloatToInteger p mode signed width fbits →
        FloatVectorOp.lane p (m.state.vector w.rn) 0 = x →
        (m.execute w).1 = .ok .ready ∧ (m.execute w).2.state = (m.state.raise result.raised).write w.rd result.value) ∧
      (isNaN x = true → result = Flagged.invalid 0#n) ∧
      (isInfinite x = true → result = Flagged.invalid
        (BitVec.ofInt n (if isNegative x then Lane.least signed n else Lane.greatest signed n))) ∧
      (isNaN x = false → isInfinite x = false → ∃ r : ℤ,
        (∀ r', mode.Picks (rational x * 2 ^ fbits) r' ↔ r' = r) ∧
          result =
            { value := BitVec.ofInt n (max (Lane.least signed n) (min r (Lane.greatest signed n)))
              raised := { invalidOperation := decide (r < Lane.least signed n ∨ Lane.greatest signed n < r) } }) := by
  intro n result
  have hn : n ≤ Precision.double.bias := by cases width <;> decide
  have hbias : fbits ≤ Precision.double.bias := hfbits.trans (by decide)
  refine ⟨?_, fun hnan => ?_, fun hinfinite => toInteger_of_infinite mode signed hinfinite hn hbias,
    fun hnumber hfinite => toInteger_of_finite mode signed hnumber hfinite hn hbias⟩
  · rintro w m h rfl
    exact m.execute_floatToInteger h
  · exact if_pos hnan

/-- `FCVTZS W0, D1` of three thousand million, which saturates, and `FCVTNS X0, D1` and `FCVTAU X0, D1` of five halves. -/
theorem float_to_integer_exact_saturated :
    let big : Machine := withState {} (State.setVector {} 1#5 0x41E65A0BC0000000#128)
    let half : Machine := withState {} (State.setVector {} 1#5 0x4004000000000000#128)
    (big.execute 0x1E780020#32).2.state.slot 0#5 = 0x7FFFFFFF#64 ∧
      (big.execute 0x1E780020#32).2.state.fpsr = { invalidOperation := true } ∧
      (half.execute 0x9E600020#32).2.state.slot 0#5 = 2#64 ∧ (half.execute 0x9E650020#32).2.state.slot 0#5 = 3#64 ∧
      (half.execute 0x9E650020#32).2.state.fpsr = {} := by
  intro big half
  obtain ⟨hbig, -⟩ := float_to_integer_exact (p := .double) 0x41E65A0BC0000000#64 .zero true .w32 (Nat.zero_le 64)
  obtain ⟨-, hbig⟩ := hbig 0x1E780020#32 big (by decide) rfl
  obtain ⟨hnearest, -⟩ := float_to_integer_exact (p := .double) 0x4004000000000000#64 .tiesEven true .w64 (Nat.zero_le 64)
  obtain ⟨-, hnearest⟩ := hnearest 0x9E600020#32 half (by decide) rfl
  obtain ⟨haway, -⟩ := float_to_integer_exact (p := .double) 0x4004000000000000#64 .tiesAway false .w64 (Nat.zero_le 64)
  obtain ⟨-, haway⟩ := haway 0x9E650020#32 half (by decide) rfl
  rw [hbig, hnearest, haway]
  decide +kernel

end Machine
end AArch64
