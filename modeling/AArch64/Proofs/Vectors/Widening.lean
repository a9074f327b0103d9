import AArch64.Proofs.Vectors.Forms
import AArch64.Proofs.Vectors.Halves
import AArch64.Proofs.Vectors.LaneShifts
import AArch64.Proofs.Vectors.Saturation

/-! Wide lanes from narrow ones and narrow lanes from wide ones. A wide lane has room for every sum, difference, product
or shifted value of numbers in narrow lanes, so the long operations are exact, and narrowing takes a long shift back. -/
namespace AArch64

namespace Lane

variable {n : Nat} {signed : Bool}

/-- The lane has room for the integer. -/
def Holds (signed : Bool) (n : Nat) (x : Int) : Prop := least signed n ≤ x ∧ x ≤ greatest signed n

theorem holds_unsigned {x : Int} : Holds false n x ↔ 0 ≤ x ∧ x ≤ 2 ^ n - 1 := Iff.rfl

theorem holds_signed {x : Int} : Holds true n x ↔ -(2 ^ (n - 1)) ≤ x ∧ x ≤ 2 ^ (n - 1) - 1 := Iff.rfl

theorem value_ofInt_of_holds {x : Int} (hn : 0 < n) (h : Holds signed n x) : value signed (BitVec.ofInt n x) = x :=
  value_ofInt hn h.1 h.2

theorem holds_value (x : BitVec n) : Holds signed n (value signed x) := ⟨least_le_value x, value_le_greatest x⟩

theorem two_pow_double (hn : 0 < n) : (2 : Int) ^ n = 2 * 2 ^ (n - 1) ∧
    (2 : Int) ^ (2 * n - 1) = 2 * (2 ^ (n - 1) * 2 ^ (n - 1)) ∧ (2 : Int) ^ (2 * n) = 4 * (2 ^ (n - 1) * 2 ^ (n - 1)) := by
  obtain ⟨k, rfl⟩ : ∃ k, n = k + 1 := ⟨n - 1, by omega⟩
  rw [show 2 * (k + 1) - 1 = 2 * k + 1 by omega, Nat.add_sub_cancel]
  refine ⟨?_, ?_, ?_⟩ <;> ring

theorem one_le_two_pow (k : Nat) : (1 : Int) ≤ 2 ^ k := by exact_mod_cast Nat.one_le_two_pow

section Wide

variable {x y : Int} (hn : 0 < n) (hx : Holds signed n x)

include hn hx

/-- A product with a number no larger than the negative bound stays in a wide lane. -/
theorem holds_mul (hlow : signed = false → 0 ≤ y) (hhigh : |y| ≤ if signed then 2 ^ (n - 1) else 2 ^ n - 1) :
    Holds signed (2 * n) (x * y) := by
  obtain ⟨hpow, hdouble, hsquare⟩ := two_pow_double hn
  have hpos := one_le_two_pow (n - 1)
  cases signed with
  | false =>
    simp only [holds_unsigned, hpow, hsquare, Bool.false_eq_true, if_false] at hx hhigh ⊢
    have hy := hlow rfl
    rw [abs_of_nonneg hy] at hhigh
    constructor
    · nlinarith
    · nlinarith
  | true =>
    simp only [holds_signed, hdouble, if_true] at hx hhigh ⊢
    obtain ⟨hmin, hmax⟩ := abs_le.1 hhigh
    constructor
    · nlinarith
    · nlinarith

variable (hy : Holds signed n y)

include hy

theorem holds_add : Holds signed (2 * n) (x + y) := by
  obtain ⟨hpow, hdouble, hsquare⟩ := two_pow_double hn
  have hpos := one_le_two_pow (n - 1)
  cases signed with
  | false =>
    simp only [holds_unsigned, hpow, hsquare] at hx hy ⊢
    constructor
    · omega
    · nlinarith
  | true =>
    simp only [holds_signed, hdouble] at hx hy ⊢
    constructor
    · nlinarith
    · nlinarith

theorem abs_sub_le : |x - y| ≤ 2 ^ n - 1 := by
  obtain ⟨hpow, -, -⟩ := two_pow_double hn
  rw [abs_le]
  cases signed with
  | false =>
    rw [holds_unsigned] at hx hy
    omega
  | true =>
    rw [holds_signed] at hx hy
    omega

theorem holds_abs_sub (signed' : Bool) : Holds signed' (2 * n) |x - y| := by
  have habs := abs_sub_le hn hx hy
  have hnonneg := abs_nonneg (x - y)
  obtain ⟨hpow, hdouble, hsquare⟩ := two_pow_double hn
  have hpos := one_le_two_pow (n - 1)
  cases signed' with
  | false =>
    rw [holds_unsigned, hsquare]
    constructor
    · omega
    · nlinarith
  | true =>
    rw [holds_signed, hdouble]
    constructor
    · nlinarith
    · nlinarith

/-- A difference can be negative, so the wide lane has to be read as a signed number. -/
theorem holds_sub : Holds true (2 * n) (x - y) := by
  obtain ⟨-, hmax⟩ := holds_abs_sub hn hx hy true
  obtain ⟨hlow, hhigh⟩ := abs_le.1 hmax
  simp only [greatest, if_true] at hlow hhigh
  rw [holds_signed]
  constructor
  · omega
  · omega

end Wide

theorem abs_le_of_holds {y : Int} (hy : Holds signed n y) :
    |y| ≤ if signed then 2 ^ (n - 1) else 2 ^ n - 1 := by
  cases signed with
  | false =>
    rw [if_neg Bool.false_ne_true, abs_of_nonneg (holds_unsigned.1 hy).1]
    exact (holds_unsigned.1 hy).2
  | true =>
    obtain ⟨hlow, hhigh⟩ := holds_signed.1 hy
    rw [if_pos rfl]
    exact abs_le.2 ⟨hlow, by omega⟩

theorem abs_two_pow_le {k : Nat} (hk : k < n) : |(2 : Int) ^ k| ≤ if signed then 2 ^ (n - 1) else 2 ^ n - 1 := by
  obtain ⟨hpow, -, -⟩ := two_pow_double (show 0 < n by omega)
  have hpos := one_le_two_pow (n - 1)
  have hle : (2 : Int) ^ k ≤ 2 ^ (n - 1) := pow_le_pow_right₀ (by decide) (by omega)
  rw [abs_of_pos (by positivity)]
  cases signed with
  | false =>
    rw [if_neg Bool.false_ne_true]
    omega
  | true => rwa [if_pos rfl]

/-- What is shifted out at the top of a wide lane is not among the bits that a shift back and a narrow lane leave. -/
theorem emod_shift_back (x : Int) {k : Nat} (hk : k ≤ n) : x * 2 ^ k % 2 ^ (2 * n) / 2 ^ k % 2 ^ n = x % 2 ^ n := by
  have hpow : (2 : Int) ^ (2 * n) = 2 ^ k * 2 ^ (2 * n - k) := by rw [← pow_add, Nat.add_sub_cancel' (by omega)]
  have hpos : (0 : Int) < 2 ^ k := by positivity
  rw [Int.mul_comm x, hpow, Int.mul_emod_mul_of_pos _ _ hpos, Int.mul_ediv_cancel_left _ hpos.ne']
  exact Int.emod_emod_of_dvd x (pow_dvd_pow 2 (by omega))

theorem toNat_ofInt_eq (x : Int) : ((BitVec.ofInt n x).toNat : Int) = x % 2 ^ n := by
  rw [BitVec.toNat_ofInt, Int.toNat_of_nonneg (Int.emod_nonneg _ (by positivity))]
  push_cast
  rfl

end Lane

/-- The operations on narrow lanes that leave wide ones. -/
inductive Widening
  | add | addWide | sub | subWide | accumulateDifference | difference | multiplyAdd | multiplySub | multiply
  | shiftLeft (k : Nat)

namespace Widening

/-- The code of an operation on two sources, in four bits. The shift has one of five bits. -/
def opcode : Widening → Nat
  | add => 0
  | addWide => 1
  | sub => 2
  | subWide => 3
  | accumulateDifference => 5
  | difference => 7
  | multiplyAdd => 8
  | multiplySub => 10
  | multiply => 12
  | shiftLeft _ => 20

/-- The first source has wide lanes as well. -/
def wideFirst : Widening → Bool
  | addWide | subWide => true
  | _ => false

/-- The integer for the numbers `x` and `y` in the lanes of the sources and `z` in that of the old destination. -/
def result (f : Widening) (x y z : Int) : Int :=
  match f with
  | add | addWide => x + y
  | sub | subWide => x - y
  | accumulateDifference => z + |x - y|
  | difference => |x - y|
  | multiplyAdd => z + x * y
  | multiplySub => z - x * y
  | multiply => x * y
  | shiftLeft k => x * 2 ^ k

/-- A wide lane, read like the narrow ones, has room for every result. -/
def neverWraps : Widening → Bool
  | add | difference | multiply | shiftLeft _ => true
  | _ => false

/-- The numbers of places that a word has room for. -/
def Fits (f : Widening) (n : Nat) : Prop :=
  match f with
  | shiftLeft k => k < n
  | _ => True

def op (f : Widening) (signed : Bool) (size : ElementSize) (upper : Bool) : VectorOp :=
  match f with
  | add => .long .add signed false size upper
  | addWide => .long .add signed true size upper
  | sub => .long .sub signed false size upper
  | subWide => .long .sub signed true size upper
  | accumulateDifference => .long .absoluteDifferenceAccumulate signed false size upper
  | difference => .long .absoluteDifference signed false size upper
  | multiplyAdd => .long .multiplyAdd signed false size upper
  | multiplySub => .long .multiplySub signed false size upper
  | multiply => .long .multiply signed false size upper
  | shiftLeft k => .shiftLeftLong signed k size upper

section

open Lane

variable {f : Widening} {n : Nat} {signed : Bool} {x y : Int}

theorem holds_result (hexact : f.neverWraps = true) (hn : 0 < n) (hf : f.Fits n) (hx : Holds signed n x)
    (hy : Holds signed n y) (z : Int) : Holds signed (2 * n) (f.result x y z) := by
  cases f with
  | add => exact holds_add hn hx hy
  | difference => exact holds_abs_sub hn hx hy signed
  | multiply =>
    refine holds_mul hn hx ?_ (abs_le_of_holds hy)
    rintro rfl
    exact hy.1
  | shiftLeft k => exact holds_mul hn hx (fun _ => by positivity) (abs_two_pow_le hf)
  | addWide | sub | subWide | accumulateDifference | multiplyAdd | multiplySub => cases hexact

end

open Lane in
theorem get_long (op : LongOp) (signed wideFirst : Bool) (size : ElementSize) (upper : Bool) (v : VectorOperands) {i : Nat}
    (hi : i < VectorOp.halfLanes size) :
    let first := VectorOp.firstLane size upper
    Lanes.get ((VectorOp.long op signed wideFirst size upper).eval v).value (2 * size.bits) i =
      BitVec.ofInt (2 * size.bits) (op.apply
        (if wideFirst then value signed (Lanes.get v.n (2 * size.bits) i)
          else value signed (Lanes.get v.n size.bits (first + i)))
        (value signed (Lanes.get v.m size.bits (first + i))) (value signed (Lanes.get v.d (2 * size.bits) i))) := by
  refine (Lanes.get_build _ hi (VectorOp.wide_succ_mul_le hi)).trans ?_
  -- The old number counts up to a multiple of the power of two, so its sign does not matter.
  have hold (z : BitVec (2 * size.bits)) : BitVec.ofInt (2 * size.bits) z.toNat = BitVec.ofInt _ (value signed z) := by
    rw [ofInt_value, BitVec.ofInt_natCast, BitVec.ofNat_toNat, BitVec.setWidth_eq]
  rw [VectorOp.longLane]
  cases op with
  | add | sub | absoluteDifference | multiply => rfl
  | absoluteDifferenceAccumulate | multiplyAdd => simp only [LongOp.apply, BitVec.ofInt_add, hold]
  | multiplySub => simp only [LongOp.apply, Int.sub_eq_add_neg, BitVec.ofInt_add, hold]

open Lane in
theorem get_eval_op (f : Widening) (signed : Bool) (size : ElementSize) (upper : Bool) (v : VectorOperands) {i : Nat}
    (hi : i < VectorOp.halfLanes size) :
    let first := VectorOp.firstLane size upper
    Lanes.get ((f.op signed size upper).eval v).value (2 * size.bits) i =
      BitVec.ofInt (2 * size.bits) (f.result
        (if f.wideFirst then value signed (Lanes.get v.n (2 * size.bits) i)
          else value signed (Lanes.get v.n size.bits (first + i)))
        (value signed (Lanes.get v.m size.bits (first + i))) (value signed (Lanes.get v.d (2 * size.bits) i))) := by
  cases f with
  | shiftLeft k => exact Lanes.get_build _ hi (VectorOp.wide_succ_mul_le hi)
  | difference | accumulateDifference =>
    refine (get_long _ signed _ size upper v hi).trans ?_
    simp only [LongOp.apply, Int.natCast_natAbs]
    rfl
  | add | addWide | sub | subWide | multiplyAdd | multiplySub | multiply => exact get_long _ signed _ size upper v hi

end Widening

/-- The operations on wide lanes that leave narrow ones. -/
inductive Narrowing
  | high (subtract : Bool) | truncate | shiftRight (k : Nat)

namespace Narrowing

/-- The integer that a lane of `n` bits receives for the unsigned numbers `x` and `y` in the wide lanes of the sources:
the upper half of a sum or difference, or the lower bits of a number or of a number shifted. -/
def result (f : Narrowing) (n : Nat) (x y : Int) : Int :=
  match f with
  | high subtract => (if subtract then x - y else x + y) % 2 ^ (2 * n) / 2 ^ n
  | truncate => x % 2 ^ n
  | shiftRight k => x / 2 ^ k % 2 ^ n

def op (f : Narrowing) (size : ElementSize) (upper : Bool) : VectorOp :=
  match f with
  | high subtract => .highNarrow subtract size upper
  | truncate => .narrow size upper
  | shiftRight k => .shiftRightNarrow false k size upper

/-- What the operation makes of the wide lanes of the sources. -/
def lane (f : Narrowing) {n : Nat} (x y : BitVec (2 * n)) : BitVec n :=
  match f with
  | high subtract => (if subtract then x - y else x + y).extractLsb' n n
  | truncate => x.setWidth n
  | shiftRight k => (Lane.shiftRight false false k x).setWidth n

theorem toNat_lane (f : Narrowing) {n : Nat} (x y : BitVec (2 * n)) :
    ((f.lane x y).toNat : Int) = f.result n x.toNat y.toNat := by
  cases f with
  | high subtract =>
    have hsum : (if subtract then x - y else x + y) =
        BitVec.ofInt (2 * n) (if subtract then (x.toNat : Int) - y.toNat else x.toNat + y.toNat) := by
      cases subtract with
      | false => simp [BitVec.ofInt_add]
      | true => simp [Int.sub_eq_add_neg, BitVec.ofInt_add, BitVec.ofInt_neg, BitVec.sub_eq_add_neg]
    rw [lane, hsum, BitVec.extractLsb'_toNat, Nat.shiftRight_eq_div_pow]
    push_cast
    rw [Lane.toNat_ofInt_eq]
    refine Int.emod_eq_of_lt (Int.ediv_nonneg (Int.emod_nonneg _ (by positivity)) (by positivity)) ?_
    refine Int.ediv_lt_of_lt_mul (by positivity) ?_
    rw [← pow_add, ← Nat.two_mul]
    exact Int.emod_lt_of_pos _ (by positivity)
  | truncate =>
    rw [lane, BitVec.toNat_setWidth]
    push_cast
    rfl
  | shiftRight k =>
    rw [lane, BitVec.toNat_setWidth, Lane.shiftRight]
    push_cast
    rw [Lane.toNat_ofInt_eq, Int.emod_emod_of_dvd _ (pow_dvd_pow 2 (by omega))]
    simp [Lane.value, result]

theorem eval_op (f : Narrowing) (size : ElementSize) (upper : Bool) (v : VectorOperands) :
    ((f.op size upper).eval v).value = VectorOp.half v.d (Lanes.build (VectorOp.halfLanes size) fun i =>
      f.lane (Lanes.get v.n (2 * size.bits) i) (Lanes.get v.m (2 * size.bits) i)) upper := by
  cases f <;> rfl

/-- A narrow lane of a result of 64 bits, in the half of the register that it is put in. -/
theorem get_half (d r : BitVec 128) (size : ElementSize) (upper : Bool) {i : Nat} (hi : i < VectorOp.halfLanes size) :
    Lanes.get (VectorOp.half d r upper) size.bits (VectorOp.firstLane size upper + i) = Lanes.get r size.bits i := by
  have hhalf : Lanes.get (VectorOp.half d r upper) 64 upper.toNat = Lanes.get r 64 0 := by
    rw [← Lanes.setWidth_eq_get]
    cases upper with
    | false => exact VectorOp.get_half_plain d r
    | true => exact VectorOp.get_half_upper d r
  rw [← VectorOp.extractLsb'_half _ size upper hi, hhalf]
  exact (VectorOp.extractLsb'_half r size false hi).trans (congrArg _ (Nat.zero_add i))

end Narrowing

namespace InstructionWord

variable (w : InstructionWord)

/-- The word is this operation on narrow lanes of this size. -/
def HasWidening (f : Widening) (size : ElementSize) : Prop :=
  size ≠ .double ∧ f.Fits size.bits ∧
    match f with
    | .shiftLeft k => w.IsImmediateShift false f.opcode (size.bits + k)
    | _ => w.IsVectorForm ∧ w.isThreeDifferent = true ∧ w.laneSize = size ∧ w.number 15 12 = f.opcode

/-- The word is this operation with narrow lanes of this size as result. -/
def HasNarrowing (f : Narrowing) (size : ElementSize) : Prop :=
  size ≠ .double ∧ w.bit 29 = false ∧
    match f with
    | .high subtract =>
      w.IsVectorForm ∧ w.isThreeDifferent = true ∧ w.laneSize = size ∧ w.number 15 12 = if subtract then 6 else 4
    | .truncate => w.IsVectorForm ∧ w.isTwoRegister = true ∧ w.laneSize = size ∧ w.number 16 12 = 18
    | .shiftRight k => 1 ≤ k ∧ k ≤ size.bits ∧ w.IsImmediateShift false 16 (2 * size.bits - k)

instance (f : Widening) (size : ElementSize) : Decidable (w.HasWidening f size) :=
  match f with
  | .shiftLeft k => inferInstanceAs (Decidable (_ ∧ k < _ ∧ _))
  | .add | .addWide | .sub | .subWide | .accumulateDifference | .difference | .multiplyAdd | .multiplySub | .multiply =>
    inferInstanceAs (Decidable (_ ∧ True ∧ _ ∧ _))

instance (f : Narrowing) (size : ElementSize) : Decidable (w.HasNarrowing f size) :=
  match f with
  | .high _ | .truncate | .shiftRight _ => inferInstanceAs (Decidable (_ ∧ _ ∧ _ ∧ _ ∧ _))

variable {w} {size : ElementSize}

theorem group_of_hasWidening {f : Widening} (h : w.HasWidening f size) : w.number 27 25 = 0b111 := by
  obtain ⟨_, _, hword⟩ := h
  cases f with
  | shiftLeft k => exact group_of_immediateShift hword
  | _ => exact hword.1.1

theorem group_of_hasNarrowing {f : Narrowing} (h : w.HasNarrowing f size) : w.number 27 25 = 0b111 := by
  obtain ⟨_, _, hword⟩ := h
  cases f with
  | shiftRight k => exact group_of_immediateShift hword.2.2
  | _ => exact hword.1.1

end InstructionWord

namespace SimdInstruction

open InstructionWord

variable {w : InstructionWord} {size : ElementSize}

theorem decode_of_hasWidening {f : Widening} (h : w.HasWidening f size) :
    decode w = usualVector w (f.op (!w.bit 29) size (w.bit 30)) := by
  obtain ⟨hsize, hfits, hword⟩ := h
  cases f with
  | shiftLeft k =>
    have hk : k < size.bits := hfits
    have hlow : size.bits ≤ size.bits + k := Nat.le_add_right _ _
    obtain ⟨hdecode, hshift, himmh⟩ := decode_of_immediateShift hword hlow (by omega)
    rw [hdecode, decodeShift]
    simp [← shiftSize.eq_1, hshift, himmh, hword.2.2.2.2, hsize, Widening.opcode, Widening.op]
  | _ =>
    obtain ⟨hform, hclass, rfl, hopcode⟩ := hword
    rw [decode_of_threeDifferent hform hclass, decodeThreeDifferent]
    simp [← laneSize.eq_1, hsize, hopcode, Widening.opcode, Widening.op, longOp?]

theorem decode_of_hasNarrowing {f : Narrowing} (h : w.HasNarrowing f size) :
    decode w = usualVector w (f.op size (w.bit 30)) := by
  obtain ⟨hsize, h29, hword⟩ := h
  cases f with
  | high subtract =>
    obtain ⟨hform, hclass, rfl, hopcode⟩ := hword
    rw [decode_of_threeDifferent hform hclass, decodeThreeDifferent]
    cases subtract <;> simp [← laneSize.eq_1, hsize, hopcode, h29, Narrowing.op]
  | truncate =>
    obtain ⟨hform, hclass, rfl, hopcode⟩ := hword
    rw [decode_of_twoRegister hform hclass, decodeTwoRegister]
    simp [decodeIntegerMisc, ← laneSize.eq_1, hsize, hopcode, h29, Narrowing.op]
  | shiftRight k =>
    obtain ⟨hone, hk, hword⟩ := hword
    have hlow : size.bits ≤ 2 * size.bits - k := by omega
    obtain ⟨hdecode, hshift, himmh⟩ := decode_of_immediateShift hword hlow (by omega)
    have hplaces : 2 * size.bits - (2 * size.bits - k) = k := by omega
    rw [hdecode, decodeShift]
    simp [← shiftSize.eq_1, hshift, himmh, hword.2.2.2.2, hsize, h29, hplaces, Narrowing.op]

end SimdInstruction

namespace Machine

open InstructionWord Lane Lanes VectorOp

variable {w : InstructionWord} {size : ElementSize} {i : Nat}

theorem get_execute_widening {f : Widening} (h : w.HasWidening f size) (m : Machine) (hi : i < halfLanes size) :
    let number {k : Nat} (x : BitVec k) : Int := value (!w.bit 29) x
    let narrow (r : Register) := number (get (m.state.vector r) size.bits (firstLane size (w.bit 30) + i))
    let wide (r : Register) := number (get (m.state.vector r) (2 * size.bits) i)
    get ((m.execute w).2.state.vector w.rd) (2 * size.bits) i =
      BitVec.ofInt _ (f.result (if f.wideFirst then wide w.rn else narrow w.rn) (narrow w.rm) (wide w.rd)) := by
  intro number narrow wide
  obtain ⟨_, hvector, _⟩ :=
    m.execute_usualVector (group_of_hasWidening h) (SimdInstruction.decode_of_hasWidening h)
  rw [hvector]
  exact f.get_eval_op _ size _ _ hi

theorem execute_narrowing {f : Narrowing} (h : w.HasNarrowing f size) (m : Machine) :
    (m.execute w).2.state.vector w.rd = half (m.state.vector w.rd) (build (halfLanes size) fun i =>
      f.lane (get (m.state.vector w.rn) (2 * size.bits) i) (get (m.state.vector w.rm) (2 * size.bits) i)) (w.bit 30) := by
  obtain ⟨_, hvector, _⟩ :=
    m.execute_usualVector (group_of_hasNarrowing h) (SimdInstruction.decode_of_hasNarrowing h)
  exact hvector.trans (f.eval_op size _ _)

theorem toNat_execute_narrowing {f : Narrowing} (h : w.HasNarrowing f size) (m : Machine) (hi : i < halfLanes size) :
    ((get ((m.execute w).2.state.vector w.rd) size.bits (firstLane size (w.bit 30) + i)).toNat : Int) =
      f.result size.bits (get (m.state.vector w.rn) (2 * size.bits) i).toNat
        (get (m.state.vector w.rm) (2 * size.bits) i).toNat := by
  rw [m.execute_narrowing h, Narrowing.get_half _ _ _ _ hi,
    get_build _ hi (succ_mul_le (halfLanes_mul_le size) hi), Narrowing.toNat_lane]

/-- Numbers in wide lanes that come from a long shift are those in narrow lanes, shifted back. -/
theorem narrow_shiftLeft {k : Nat} (h : w.HasWidening (.shiftLeft k) size) {w' : InstructionWord}
    (h' : w'.HasNarrowing (if k = 0 then .truncate else .shiftRight k) size) {m m' : Machine}
    (hsource : m'.state.vector w'.rn = (m.execute w).2.state.vector w.rd) :
    get ((m'.execute w').2.state.vector w'.rd) 64 (w'.bit 30).toNat = get (m.state.vector w.rn) 64 (w.bit 30).toNat := by
  have hresult (x y : Int) : (if k = 0 then Narrowing.truncate else .shiftRight k).result size.bits x y =
      x / 2 ^ k % 2 ^ size.bits := by
    split
    next hzero => rw [hzero, pow_zero, Int.ediv_one, Narrowing.result]
    next => rfl
  -- A truncation takes a shift by no places back, so both narrowings are compared in the same way, lane by lane.
  refine eq_of_lanes (halfLanes_mul size) fun i hi => ?_
  rw [extractLsb'_half _ _ _ hi, extractLsb'_half _ _ _ hi]
  apply BitVec.eq_of_toNat_eq
  have hk : k ≤ size.bits := Nat.le_of_lt h.2.1
  have hwide : get ((m.execute w).2.state.vector w.rd) (2 * size.bits) i = BitVec.ofInt _
      (value (!w.bit 29) (get (m.state.vector w.rn) size.bits (firstLane size (w.bit 30) + i)) * 2 ^ k) :=
    m.get_execute_widening h hi
  have hnarrow := m'.toNat_execute_narrowing h' hi
  rw [hsource, hwide, hresult, toNat_ofInt_eq, emod_shift_back _ hk, ← toNat_ofInt_eq, ofInt_value] at hnarrow
  exact_mod_cast hnarrow

/-- The long, wide and narrowing words on integers. They complete on every machine. Every wide lane receives the result for
the lanes of the sources modulo the lane, sums, absolute differences, products and shifted numbers without a reduction
and differences as signed numbers. Every narrow lane receives its half or its bits of the result for the wide lanes,
beside the other half of the old destination or below zeros. A narrowing word takes a long shift by as many places
back. -/
theorem widening_exact_and_narrowed_back (m : Machine) (w : InstructionWord) (size : ElementSize) :
    let bits := size.bits
    let first := firstLane size (w.bit 30)
    let narrow (r : Register) (i : Nat) := get (m.state.vector r) bits (first + i)
    let wide (r : Register) (i : Nat) := get (m.state.vector r) (2 * bits) i
    let number {k : Nat} (x : BitVec k) : Int := value (!w.bit 29) x
    let after := (m.execute w).2.state.vector w.rd
    (∀ f, w.HasWidening f size →
        (m.execute w).1 = .ok .ready ∧
          ∀ i < halfLanes size,
            let x := if f.wideFirst then number (wide w.rn i) else number (narrow w.rn i)
            let result := f.result x (number (narrow w.rm i)) (number (wide w.rd i))
            get after (2 * bits) i = BitVec.ofInt _ result ∧
              (f.neverWraps = true → number (get after (2 * bits) i) = result) ∧
              (f = .sub → (get after (2 * bits) i).toInt = result)) ∧
      (∀ f, w.HasNarrowing f size →
        (m.execute w).1 = .ok .ready ∧
          (∀ i < halfLanes size,
            ((get after bits (first + i)).toNat : Int) = f.result bits (wide w.rn i).toNat (wide w.rm i).toNat) ∧
          if w.bit 30 then get after 64 0 = get (m.state.vector w.rd) 64 0 else ZeroFrom 64 after) ∧
      ∀ (k : Nat) (w' : InstructionWord) (m' : Machine), w.HasWidening (.shiftLeft k) size →
        w'.HasNarrowing (if k = 0 then .truncate else .shiftRight k) size → m'.state.vector w'.rn = after →
        get ((m'.execute w').2.state.vector w'.rd) 64 (w'.bit 30).toNat =
          get (m.state.vector w.rn) 64 (w.bit 30).toNat := by
  intro bits first narrow wide number after
  have hpos : 0 < bits := size.bits_pos
  refine ⟨fun f h => ⟨?_, fun i hi => ?_⟩, fun f h => ⟨?_, fun i hi => m.toNat_execute_narrowing h hi, ?_⟩,
    fun k w' m' h h' hsource => narrow_shiftLeft h h' hsource⟩
  · exact (m.execute_usualVector (group_of_hasWidening h) (SimdInstruction.decode_of_hasWidening h)).1
  · intro x result
    have hlane : get after (2 * bits) i = BitVec.ofInt _ result := m.get_execute_widening h hi
    refine ⟨hlane, fun hexact => ?_, ?_⟩
    · have hnarrow : f.wideFirst = false := by cases f <;> first | rfl | cases hexact
      have hx : x = number (narrow w.rn i) := if_neg (by simp [hnarrow])
      rw [hlane]
      exact value_ofInt_of_holds (by omega)
        (Widening.holds_result hexact hpos h.2.1 (hx ▸ holds_value _) (holds_value _) _)
    · rintro rfl
      have hroom : Holds true (2 * bits) result := holds_sub hpos (holds_value _) (holds_value _)
      rw [hlane]
      exact value_ofInt_of_holds (by omega) hroom
  · exact (m.execute_usualVector (group_of_hasNarrowing h) (SimdInstruction.decode_of_hasNarrowing h)).1
  · have hafter : after = _ := m.execute_narrowing h
    rw [hafter]
    cases w.bit 30 with
    | false => exact zeroFrom_sized _ false
    | true => exact get_half_lower _ _

/-- `SMULL V2.8H, V0.8B, V1.8B` on the lowest numbers of a byte, and `SHRN2 V3.16B, V2.8H, #7` after
`SSHLL V2.8H, V0.8B, #7`. -/
theorem widening_exact_and_narrowed_back_lowest :
    let multiply : InstructionWord := 0x0E21C002#32
    let shift : InstructionWord := 0x0F0FA402#32
    let narrow : InstructionWord := 0x4F098443#32
    let m : Machine := withState {} (State.setVector (State.setVector {} 0#5 0x80#128) 1#5 0x80#128)
    multiply.HasWidening .multiply .byte ∧ shift.HasWidening (.shiftLeft 7) .byte ∧
      narrow.HasNarrowing (.shiftRight 7) .byte ∧ (m.execute multiply).1 = .ok .ready ∧
      value (!multiply.bit 29) (get ((m.execute multiply).2.state.vector multiply.rd) 16 0) = 16384 ∧
      get (((m.execute shift).2.execute narrow).2.state.vector narrow.rd) 64 1 = 0x80#64 := by
  intro multiply shift narrow m
  have hmultiply : multiply.HasWidening .multiply .byte := by decide
  have hshift : shift.HasWidening (.shiftLeft 7) .byte := by decide
  have hnarrow : narrow.HasNarrowing (.shiftRight 7) .byte := by decide
  obtain ⟨hwidening, _⟩ := widening_exact_and_narrowed_back m multiply .byte
  obtain ⟨_, _, hback⟩ := widening_exact_and_narrowed_back m shift .byte
  obtain ⟨houtcome, hlanes⟩ := hwidening .multiply hmultiply
  obtain ⟨_, hproduct, _⟩ := hlanes 0 (by decide)
  have hregister : narrow.rn = shift.rd := by decide
  have hsource : get (m.state.vector shift.rn) 64 (shift.bit 30).toNat = 0x80#64 := by decide +kernel
  have hhalf : (narrow.bit 30).toNat = 1 := by decide
  have hundone := hback 7 narrow (m.execute shift).2 hshift hnarrow (congrArg _ hregister)
  rw [hhalf] at hundone
  exact ⟨hmultiply, hshift, hnarrow, houtcome, (hproduct rfl).trans (by decide +kernel), hundone.trans hsource⟩

end Machine

end AArch64
