import AArch64.Interpreter.Float
import AArch64.Proofs.Floats.Widening
import AArch64.Proofs.Interpreter.Vector
import AArch64.Proofs.StatusWords

/-! Floating-point operations put their results together without a shift that is too long, and give what the decoded
operations do. -/
namespace AArch64

open Masked

namespace Precision

variable (p : Precision)

theorem bits_le : p.bits ≤ 64 := by cases p <;> decide

theorem bits_le_vector : p.bits ≤ 128 := by cases p <;> decide

theorem bits_pos : 0 < p.bits := by cases p <;> decide

end Precision

namespace Float

variable {p q : Precision}

theorem isSignalling?_eq (x : Float p) : isSignalling? x = some (isSignalling x) := by
  have hplace : p.fractionBits - 1 < 64 := by cases p <;> decide
  have hpos : 1 ≤ p.fractionBits := by cases p <;> decide
  rw [isSignalling?, isSignalling]
  cases isNaN x with
  | false => rfl
  | true =>
    simp only [if_true, sub?_eq hpos, bit?_eq _ hplace, Option.bind_eq_bind, Option.bind_some, Bool.true_and, raw,
      BitVec.getLsbD_setWidth, decide_eq_true hplace]

theorem quieted?_eq (x : Float p) : quieted? x = some (quieted x) := by
  have hquieted : quieted? x = some (ofRaw p (raw x ||| BitVec.ofNat 64 (quietBit p))) := by cases p <;> rfl
  rw [hquieted, ofRaw, BitVec.setWidth_or, raw, Lane.setWidth_setWidth p.bits_le, BitVec.setWidth_ofNat_of_le p.bits_le]
  rfl

theorem defaultNaN?_eq (p : Precision) : defaultNaN? p = some (defaultNaN p) := by
  cases p <;> decide

theorem ofImmediate?_eq (p : Precision) (imm : BitVec 8) :
    ofImmediate? p (imm.setWidth 32) = some (ofImmediate p imm) := by
  have hall : ∀ imm : BitVec 8, ofImmediate? .single (imm.setWidth 32) = some (ofImmediate .single imm) ∧
      ofImmediate? .double (imm.setWidth 32) = some (ofImmediate .double imm) := by
    decide +kernel
  cases p with
  | single => exact (hall imm).1
  | double => exact (hall imm).2

theorem findM?_eq (xs : List (Float p)) : xs.findM? isSignalling? = some (xs.find? isSignalling) := by
  induction xs with
  | nil => rfl
  | cons x xs ih =>
    rw [List.findM?, isSignalling?_eq, List.find?]
    cases isSignalling x with
    | true => rfl
    | false => exact ih

theorem propagated?_eq (xs : List (Float p)) : propagated? xs = some (propagate? xs) := by
  rw [propagated?, findM?_eq, propagate?]
  cases xs.find? isSignalling with
  | none => rfl
  | some x => simp [quieted?_eq]

theorem withNaNs?_eq (xs : List (Float p)) (r : Option (Float p)) : withNaNs? xs r = some (withNaNs xs r) := by
  simp only [withNaNs?, propagated?_eq, withNaNs, Option.bind_eq_bind, Option.bind_some]
  cases propagate? xs with
  | some n => rfl
  | none =>
    cases r with
    | some y => rfl
    | none => simp [defaultNaN?_eq]

theorem isQuiet?_eq (x : Float p) : isQuiet? x = some (isQuiet x) := by
  rw [isQuiet?, isSignalling?_eq]
  rfl

theorem Binary.result?_eq (op : Binary) (a b : Float p) : op.result? a b = some (op.apply a b) := by
  rw [result?, isQuiet?_eq, isQuiet?_eq, withNaNs?_eq, apply]
  simp only [Option.bind_eq_bind, Option.bind_some]
  split <;> rfl

theorem multiplyAdd?_eq (addend a b : Float p) : multiplyAdd? addend a b = some (multiplyAdd addend a b) :=
  withNaNs?_eq _ _

theorem squareRoot?_eq (x : Float p) : squareRoot? x = some (squareRoot x) := withNaNs?_eq _ _

theorem roundToIntegral?_eq (mode : Rounding) (x : Float p) : roundToIntegral? mode x = some (roundToIntegral mode x) :=
  withNaNs?_eq _ _

theorem objects?_eq (signalling : Bool) (a b : Float p) : objects? signalling a b = some (objects signalling a b) := by
  rw [objects?, isSignalling?_eq, isSignalling?_eq]
  rfl

theorem comparison_eq (a b : Float p) : comparison a b = (compareFlags a b).word := by
  rw [comparison, compareFlags]
  cases order? a b with
  | none => exact NzcvWord.ofNibble_eq_word 0b0011#4
  | some o =>
    cases o with
    | eq => exact NzcvWord.ofNibble_eq_word 0b0110#4
    | lt => exact NzcvWord.ofNibble_eq_word 0b1000#4
    | gt => exact NzcvWord.ofNibble_eq_word 0b0010#4

theorem compareRaising?_eq (signalling : Bool) (a b : Float p) :
    compareRaising? signalling a b =
      some { value := (compareFlags a b).word, raised := (compareRaising signalling a b).raised } := by
  rw [compareRaising?, objects?_eq, comparison_eq]
  rfl

theorem Relation.holdsRaising?_eq (r : Relation) (a b : Float p) :
    r.holdsRaising? a b = some (r.holdsRaising a b) := by
  rw [holdsRaising?, objects?_eq]
  rfl

theorem toNat_raw (x : Float p) : (raw x).toNat = x.toNat := BitVec.toNat_setWidth_of_le p.bits_le

theorem toNat_sign (x : Float p) : (raw x >>> (p.bits - 1)).toNat = (isNegative x).toNat := by
  have hbits : 2 ^ p.bits = 2 * 2 ^ (p.bits - 1) := by cases p <;> rfl
  have hlt := x.isLt
  rw [BitVec.toNat_ushiftRight, toNat_raw, Nat.shiftRight_eq_div_pow, isNegative, BitVec.msb_eq_decide]
  by_cases h : 2 ^ (p.bits - 1) ≤ x.toNat
  · have hone : x.toNat / 2 ^ (p.bits - 1) = 1 := Nat.div_eq_of_lt_le (by omega) (by omega)
    rw [decide_eq_true h, hone]
    rfl
  · rw [decide_eq_false h, Nat.div_eq_of_lt (Nat.lt_of_not_le h)]
    rfl

/-- The payload is neither too wide for a word nor shifted by its length. -/
theorem exists_payload (q : Precision) (x : Float p) :
    ∃ payload, payload? q x = some payload ∧ payload.toNat = convertedFraction q x := by
  have hfraction : (raw (quieted x) &&& ones p.fractionBits).toNat = fraction (quieted x) := by
    have hle : p.fractionBits ≤ 64 := by cases p <;> decide
    rw [Lane.and_ones_eq, BitVec.toNat_setWidth_of_le hle, BitVec.toNat_setWidth, toNat_raw]
    rfl
  have hlt : fraction (quieted x) < 2 ^ p.fractionBits := fraction_lt _
  rw [payload?, quieted?_eq, Option.bind_eq_bind, Option.bind_some, convertedFraction]
  split
  next hle =>
    refine ⟨_, shiftLeft?_eq _ (by cases p <;> cases q <;> decide), ?_⟩
    have hfits : fraction (quieted x) * 2 ^ (q.fractionBits - p.fractionBits) < 2 ^ 64 :=
      calc fraction (quieted x) * 2 ^ (q.fractionBits - p.fractionBits)
          < 2 ^ p.fractionBits * 2 ^ (q.fractionBits - p.fractionBits) := Nat.mul_lt_mul_of_pos_right hlt (Nat.two_pow_pos _)
        _ = 2 ^ q.fractionBits := by rw [← pow_add, Nat.add_sub_of_le hle]
        _ ≤ 2 ^ 64 := by cases q <;> decide
    rw [BitVec.toNat_shiftLeft, hfraction, Nat.shiftLeft_eq, Nat.mod_eq_of_lt hfits,
      Nat.mul_div_assoc _ (Nat.pow_dvd_pow 2 hle), Nat.pow_div hle (by decide)]
  next hgt =>
    have hsplit : 2 ^ p.fractionBits = 2 ^ (p.fractionBits - q.fractionBits) * 2 ^ q.fractionBits := by
      rw [← pow_add, Nat.sub_add_cancel (by omega)]
    refine ⟨_, shiftRight?_eq _ (by cases p <;> cases q <;> decide), ?_⟩
    rw [BitVec.toNat_ushiftRight, hfraction, Nat.shiftRight_eq_div_pow, hsplit,
      Nat.mul_div_mul_right _ _ (Nat.two_pow_pos _)]

/-- The default NaN brings the exponent. Its quiet bit is in the payload already. -/
theorem toNat_defaultNaN_or (q : Precision) (x : Float p) :
    (defaultNaN q).toNat ||| convertedFraction q x = q.infinity + convertedFraction q x := by
  have hlt := convertedFraction_lt q x
  have hle := quietBit_le_convertedFraction q x
  have hquiet : quietBit q < 2 ^ q.fractionBits := by cases q <;> decide
  have hsucc : 2 ^ q.fractionBits = 2 * quietBit q := by cases q <;> rfl
  have hbit : quietBit q ||| convertedFraction q x = convertedFraction q x := by
    have hrest : convertedFraction q x - quietBit q < quietBit q := by omega
    have hor : convertedFraction q x = quietBit q ||| (convertedFraction q x - quietBit q) := by
      have h := Nat.two_pow_add_eq_or_of_lt hrest 1
      rw [Nat.mul_one, ← quietBit] at h
      rw [← h, Nat.add_sub_of_le hle]
    rw [hor, ← Nat.or_assoc, Nat.or_self]
  rw [defaultNaN, toNat_ofParts _ (Precision.infinity_add_lt hquiet), Bool.toNat_false, Nat.zero_mul, Nat.zero_add,
    Precision.infinity, Nat.mul_comm, Nat.two_pow_add_eq_or_of_lt hquiet, Nat.or_assoc, hbit,
    Nat.two_pow_add_eq_or_of_lt hlt]

theorem convertNaN?_eq (q : Precision) (x : Float p) : convertNaN? q x = some (convertNaN q x) := by
  obtain ⟨payload, hpayload, hfraction⟩ := exists_payload q x
  have hp : 1 ≤ p.bits := p.bits_pos
  have hq : 1 ≤ q.bits := q.bits_pos
  have hshiftp : p.bits - 1 < 64 := by cases p <;> decide
  have hshiftq : q.bits - 1 < 64 := by cases q <;> decide
  have hmagnitude := Precision.infinity_add_lt (convertedFraction_lt q x)
  have hsign : (raw x >>> (p.bits - 1) <<< (q.bits - 1)).toNat = 2 ^ (q.bits - 1) * (isNegative x).toNat := by
    have hfits : (isNegative x).toNat * 2 ^ (q.bits - 1) < 2 ^ 64 := by cases isNegative x <;> cases q <;> decide
    rw [BitVec.toNat_shiftLeft, toNat_sign, Nat.shiftLeft_eq, Nat.mod_eq_of_lt hfits, Nat.mul_comm]
  rw [convertNaN?]
  simp only [sub?_eq hp, sub?_eq hq, shiftRight?_eq _ hshiftp, shiftLeft?_eq _ hshiftq, defaultNaN?_eq, hpayload,
    Option.bind_eq_bind, Option.bind_some, Option.some.injEq]
  apply BitVec.eq_of_toNat_eq
  have hword : (raw x >>> (p.bits - 1) <<< (q.bits - 1) ||| raw (defaultNaN q) ||| payload).toNat
      = (convertNaN q x).toNat := by
    rw [BitVec.toNat_or, BitVec.toNat_or, hsign, toNat_raw, hfraction, Nat.or_assoc, toNat_defaultNaN_or,
      ← Nat.two_pow_add_eq_or_of_lt hmagnitude, convertNaN, ← convertedFraction, toNat_ofParts _ hmagnitude, Nat.mul_comm]
  rw [ofRaw, BitVec.toNat_setWidth, hword, Nat.mod_eq_of_lt (BitVec.isLt _)]

theorem convert?_eq (q : Precision) (x : Float p) : convert? q x = some (convert q x) := by
  rw [convert?, convert]
  cases h : isNaN x with
  | false => rfl
  | true => simp [convertNaN?_eq, isSignalling?_eq]

theorem ofInteger?_eq (p : Precision) (signed : Bool) (x : BitVec 64) {n : Nat} (fbits : Nat) (hpos : 0 < n)
    (hn : n ≤ 64) :
    ofInteger? p signed x n fbits = some (ofInteger p (Lane.value signed (x.setWidth n)) fbits) := by
  rw [ofInteger?, Lane.widened?_eq signed x hpos hn]
  rfl

theorem truncated_two_pow {k : Nat} (hk : k ≤ Precision.double.bias) :
    truncated (ofInteger .double (2 ^ k) 0) = 2 ^ k := by
  rw [truncated, (IsInteger.two_pow hk).units_eq, Rounding.apply_mul (Nat.two_pow_pos _)]

theorem setWidth_ones {k n : Nat} (hn : n ≤ 64) : (ones k).setWidth n = BitVec.ofInt n (2 ^ k - 1) := by
  have hpow : ((2 : ℤ) ^ k - 1) = ((2 ^ k - 1 : ℕ) : ℤ) := by
    rw [Nat.cast_sub Nat.one_le_two_pow]
    push_cast
    rfl
  refine BitVec.eq_of_getLsbD_eq fun i hi => ?_
  rw [hpow, BitVec.ofInt_natCast, BitVec.getLsbD_ofNat, Nat.testBit_two_pow_sub_one, BitVec.getLsbD_setWidth, ones_eq,
    Bits.getLsbD_ones, decide_eq_true (Nat.lt_of_lt_of_le hi hn), Bool.and_true]

/-- The ends of the range come out of masks and of the limit. -/
theorem toInteger?_eq (x : Float p) (mode : Rounding) (signed : Bool) {n : Nat} (fbits : Nat) (hpos : 0 < n)
    (hn : n ≤ 64) : toInteger? x mode signed n fbits = some (toInteger x mode signed n fbits) := by
  have hbias : n - 1 ≤ Precision.double.bias := by
    have h64 : 64 ≤ Precision.double.bias := by decide
    omega
  obtain ⟨hpos', hle⟩ := Lane.two_pow_bounds (show n - 1 ≤ 64 by omega)
  have hleast : Lane.wide? (-2 ^ (n - 1)) = some (-2 ^ (n - 1)) := Lane.wide?_eq (by omega)
  rw [toInteger?, toInteger]
  cases isNaN x with
  | true => rfl
  | false =>
    cases signed with
    | false =>
      simp only [integerRange, Bool.false_eq_true, if_false, Option.bind_eq_bind, Option.bind_some, setWidth_ones hn]
      split
      · rfl
      · split <;> rfl
    | true =>
      simp only [integerRange, Bool.false_eq_true, if_false, if_true, sub?_eq hpos, Option.bind_eq_bind,
        Option.bind_some, setWidth_ones hn, truncated_two_pow hbias, hleast]
      split
      · rfl
      · split <;> rfl

end Float

variable {p : Precision}

theorem FloatLane.result?_eq (op : FloatLane) (a b acc : Float p) : op.result? a b acc = some (op.apply a b acc) := by
  cases op with
  | binary op => exact op.result?_eq a b
  | multiplyAdd => exact Float.multiplyAdd?_eq acc a b
  | multiplySub => exact Float.multiplyAdd?_eq acc (Float.neg a) b
  | compare r =>
    rw [result?, r.holdsRaising?_eq]
    rfl

theorem FloatUnary.result?_eq (op : FloatUnary) (x : Float p) : op.result? x = some (op.apply x) := by
  cases op with
  | move | abs | neg => rfl
  | sqrt => exact Float.squareRoot?_eq x
  | round mode => exact Float.roundToIntegral?_eq mode x
  | toInteger mode signed fbits => exact Float.toInteger?_eq x mode signed fbits p.bits_pos p.bits_le
  | fromInteger signed fbits =>
    rw [result?, Float.ofInteger?_eq p signed _ fbits p.bits_pos p.bits_le, Lane.setWidth_setWidth p.bits_le]
    rfl
  | compareZero r =>
    rw [result?, r.holdsRaising?_eq]
    rfl

namespace FloatVectorOp

open Lanes

theorem lane?_eq {i : Nat} (v : BitVec 128) (h : (i + 1) * p.bits ≤ 128) : lane? p v i = some (lane p v i) :=
  get?_eq v h

theorem flaggedScalar?_eq (r : Flagged (Float p)) : flaggedScalar? r = some (r >>= fun x => pure (scalar x)) := by
  rw [flaggedScalar?, scalar?_eq _ p.bits_le_vector]
  rfl

theorem eval?_eq {op : FloatVectorOp} (h : op.InRange) (v : VectorOperands) : op.eval? v = some (op.eval v) := by
  cases op with
  | lanes op p elements =>
    refine buildFlagged?_eq h fun i hi => ?_
    simp [lane?_eq _ (succ_mul_le h hi), op.result?_eq]
  | byElement op p elements index =>
    refine buildFlagged?_eq h.1 fun i hi => ?_
    simp [lane?_eq _ (succ_mul_le h.1 hi), lane?_eq _ h.2, op.result?_eq]
  | pairwise op p elements =>
    refine buildFlagged?_eq h fun i hi => ?_
    have heven : 2 * i < 2 * elements := by omega
    have hodd : 2 * i + 1 < 2 * elements := by omega
    simp [pairLane?, pairLane, VectorOp.pairLane?_eq h heven, VectorOp.pairLane?_eq h hodd, op.result?_eq]
  | unary op p elements =>
    refine buildFlagged?_eq h fun i hi => ?_
    simp [lane?_eq _ (succ_mul_le h hi), op.result?_eq]
  | convert p q =>
    have hlane : (0 + 1) * p.bits ≤ 128 := by cases p <;> decide
    simp [eval?, lane?_eq _ hlane, Float.convert?_eq, flaggedScalar?_eq, eval]
  | widen upper =>
    refine buildFlagged?_eq (by decide) fun i hi => ?_
    have hlane : (if upper then 2 else 0) + i < 4 := by
      cases upper <;> simp <;> omega
    simp [lane?_eq (p := .single) _ (succ_mul_le (by decide) hlane), Float.convert?_eq]
  | narrow upper =>
    rw [eval?, buildFlagged?_eq (by decide) fun i hi => by
      rw [lane?_eq (p := .double) _ (succ_mul_le (by decide) hi), Option.bind_eq_bind, Option.bind_some,
        Float.convert?_eq]]
    simp only [Option.bind_eq_bind, Option.bind_some, VectorOp.half?_eq]
    rfl
  | reducePair op p =>
    have hlanes : 2 * p.bits ≤ 128 := by cases p <;> decide
    simp [eval?, lane?_eq _ (succ_mul_le hlanes (show 0 < 2 by decide)),
      lane?_eq _ (succ_mul_le hlanes (show 1 < 2 by decide)), op.result?_eq, flaggedScalar?_eq, eval]
  | reduceFour op =>
    have hlane {i : Nat} (hi : i < 4) := lane?_eq (p := .single) v.n (succ_mul_le (by decide) hi)
    simp only [eval?, hlane (show 0 < 4 by decide), hlane (show 1 < 4 by decide), hlane (show 2 < 4 by decide),
      hlane (show 3 < 4 by decide), op.result?_eq, Option.bind_eq_bind, Option.bind_some,
      scalar?_eq _ (show Precision.single.bits ≤ 128 by decide)]
    rfl

end FloatVectorOp
end AArch64
