import AArch64.Proofs.Floats.Values
import AArch64.Proofs.Vectors.Forms

/-! Comparisons of floating-point values. They leave flags for the conditions or an answer in each lane, and both agree
with the places of the values on the number line, where a NaN has none. -/
namespace AArch64

namespace Float

variable {p : Precision}

theorem abs_eq (x : Float p) : abs x = x &&& ~~~BitVec.twoPow p.bits (p.bits - 1) := by
  refine BitVec.eq_of_getLsbD_eq fun i hi => ?_
  rw [abs, magnitude, BitVec.getLsbD_ofNat, Nat.testBit_mod_two_pow, BitVec.getLsbD_and, BitVec.getLsbD_not,
    BitVec.getLsbD_twoPow, BitVec.testBit_toNat, decide_eq_true hi]
  obtain hlow | rfl : i < p.bits - 1 ∨ i = p.bits - 1 := by omega
  · simp [hlow, Nat.ne_of_gt hlow]
  · simp [hi]

/-- What makes a comparison invalid: a signalling NaN if it is quiet, otherwise any NaN. -/
def invalidates (quiet : Bool) (a b : Float p) : Bool :=
  if quiet then isSignalling a || isSignalling b else isNaN a || isNaN b

theorem objects_eq (signalling : Bool) (a b : Float p) : objects signalling a b = invalidates (!signalling) a b := by
  rw [objects, invalidates]
  obtain ⟨hna, -, hsa⟩ | ⟨hna, -, hsa⟩ | ⟨hna, -, hsa⟩ := a.kinds <;>
    obtain ⟨hnb, -, hsb⟩ | ⟨hnb, -, hsb⟩ | ⟨hnb, -, hsb⟩ := b.kinds <;>
    cases signalling <;> simp [hna, hsa, hnb, hsb]

namespace Relation

/-- The condition that answers for the relation after a comparison. -/
def condition : Relation → Condition
  | equal => .eq
  | greaterEqual | absGreaterEqual => .ge
  | greater | absGreater => .gt
  | lessEqual => .ls
  | less => .mi

/-- The comparisons of magnitudes clear the sign bits. -/
def compared (r : Relation) (x : Float p) : Float p :=
  if r = absGreaterEqual ∨ r = absGreater then x &&& ~~~BitVec.twoPow p.bits (p.bits - 1) else x

def Relates (r : Relation) (x y : WithBot (WithTop ℚ)) : Prop :=
  match r with
  | equal => x = y
  | greaterEqual | absGreaterEqual => y ≤ x
  | greater | absGreater => y < x
  | lessEqual => x ≤ y
  | less => x < y

theorem operand_eq (r : Relation) (x : Float p) : r.operand x = r.compared x := by
  cases r <;> first | rfl | exact abs_eq x

theorem holds_eq (r : Relation) (a b : Float p) :
    r.holds a b = r.condition.holds (compareFlags (r.compared a) (r.compared b)) := by
  rw [holds, compareFlags, operand_eq, operand_eq]
  cases order? (r.compared a) (r.compared b) with
  | none => cases r <;> rfl
  | some o => cases o <;> cases r <;> rfl

theorem raised_holdsRaising (r : Relation) (a b : Float p) :
    (r.holdsRaising a b).raised = { invalidOperation := invalidates (r == equal) a b } := by
  rw [holdsRaising, objects_eq]
  cases r <;> simp [invalidates, operand, isNaN_abs]

end Relation

theorem compareFlags_of_isNaN {a b : Float p} (h : (isNaN a || isNaN b) = true) :
    compareFlags a b = Nzcv.ofNibble 0b0011#4 := by
  rw [compareFlags, order?, if_pos h]

theorem compareFlags_of_numbers {a b : Float p} (h : (isNaN a || isNaN b) = false) :
    compareFlags a b =
      match cmp (extended a) (extended b) with
      | .eq => Nzcv.ofNibble 0b0110#4
      | .lt => Nzcv.ofNibble 0b1000#4
      | .gt => Nzcv.ofNibble 0b0010#4 := by
  rw [Bool.or_eq_false_iff] at h
  rw [compareFlags, order?_eq h.1 h.2]
  cases cmp (extended a) (extended b) <;> rfl

/-- The conditions after a comparison tell how two numbers lie to each other. A NaN satisfies none of them. -/
theorem condition_holds_iff (r : Relation) (a b : Float p) : r.condition.holds (compareFlags a b) = true ↔
    (isNaN a || isNaN b) = false ∧ r.Relates (extended a) (extended b) := by
  cases hnan : isNaN a || isNaN b with
  | true =>
    rw [compareFlags_of_isNaN hnan]
    cases r <;> simp <;> rfl
  | false =>
    rw [compareFlags_of_numbers hnan]
    obtain h | h | h := lt_trichotomy (extended a) (extended b)
    · rw [(cmp_eq_lt_iff _ _).2 h]
      cases r <;> simp [Relation.Relates, Relation.condition, Condition.holds, Nzcv.ofNibble, h, h.ne, h.le, h.not_gt,
        h.not_ge]
    · rw [(cmp_eq_eq_iff _ _).2 h, h]
      cases r <;> simp [Relation.Relates, Relation.condition, Condition.holds, Nzcv.ofNibble]
    · rw [(cmp_eq_gt_iff _ _).2 h]
      cases r <;> simp [Relation.Relates, Relation.condition, Condition.holds, Nzcv.ofNibble, h, h.ne', h.le, h.not_gt,
        h.not_ge]

theorem overflow_compareFlags (a b : Float p) : (compareFlags a b).overflow = (isNaN a || isNaN b) := by
  cases hnan : isNaN a || isNaN b with
  | true =>
    rw [compareFlags_of_isNaN hnan]
    rfl
  | false =>
    rw [compareFlags_of_numbers hnan]
    cases cmp (extended a) (extended b) <;> rfl

end Float

theorem Lanes.raised_buildFlagged {esize n : Nat} {f : Nat → Flagged (BitVec esize)} {g : Nat → Bool}
    (h : ∀ i, (f i).raised = { invalidOperation := g i }) :
    (buildFlagged n f).raised = { invalidOperation := decide (∃ i < n, g i = true) } := by
  induction n with
  | zero => simp [buildFlagged]
  | succ n ih =>
    have hlast : decide (∃ i < n + 1, g i = true) = (decide (∃ i < n, g i = true) || g n) := by
      rw [Bool.eq_iff_iff, decide_eq_true_iff, Nat.exists_lt_succ_right, Bool.or_eq_true, decide_eq_true_iff]
    rw [raised_buildFlagged_succ, ih, h, hlast]
    rfl

namespace InstructionWord

variable (w : InstructionWord)

/-- Words with two registers, on vectors or on the first lanes alone. -/
def IsTwoSame (scalar : Bool) : Prop :=
  w.bit 31 = false ∧ w.number 28 24 = (if scalar then 0b11110 else 0b01110) ∧ (scalar = true → w.bit 30 = true) ∧
    w.isTwoRegister = true

instance (scalar : Bool) : Decidable (w.IsTwoSame scalar) := inferInstanceAs (Decidable (_ ∧ _))

/-- Opcode, U bit and bit 23 of the comparisons with the lanes of another register. -/
def registerCompare? (r : Float.Relation) : Option (Nat × Bool × Bool) :=
  match r with
  | .equal => some (28, false, false)
  | .greaterEqual => some (28, true, false)
  | .greater => some (28, true, true)
  | .absGreaterEqual => some (29, true, false)
  | .absGreater => some (29, true, true)
  | .lessEqual | .less => none

/-- Opcode, U bit and bit 23 of the comparisons with zero. -/
def zeroCompare? (r : Float.Relation) : Option (Nat × Bool × Bool) :=
  match r with
  | .greater => some (12, false, true)
  | .greaterEqual => some (12, true, true)
  | .equal => some (13, false, true)
  | .lessEqual => some (13, true, true)
  | .less => some (14, false, true)
  | .absGreaterEqual | .absGreater => none

/-- `FCMEQ`, `FCMGE`, `FCMGT`, `FCMLE`, `FCMLT`, `FACGE` and `FACGT`. -/
def IsLaneCompare (p : Precision) (r : Float.Relation) (zero scalar : Bool) : Prop :=
  SimdInstruction.lanePrecision w = p ∧ w.HasLanes p.size scalar ∧
    match zero with
    | false => w.IsThreeSame scalar ∧ registerCompare? r = some (w.number 15 11, w.bit 29, w.bit 23)
    | true => w.IsTwoSame scalar ∧ zeroCompare? r = some (w.number 16 12, w.bit 29, w.bit 23)

instance (p : Precision) (r : Float.Relation) (zero scalar : Bool) : Decidable (w.IsLaneCompare p r zero scalar) :=
  match zero with
  | false | true => inferInstanceAs (Decidable (_ ∧ _))

def IsFloatCompare (p : Precision) (signalling zero : Bool) : Prop :=
  w.number 31 24 = 0b00011110 ∧ w.number 23 22 = (match p with | .single => 0 | .double => 1) ∧ w.bit 21 = true ∧
    w.number 15 10 = 0b001000 ∧ w.bit 4 = signalling ∧ w.bit 3 = zero ∧ w.number 2 0 = 0

instance (p : Precision) (signalling zero : Bool) : Decidable (w.IsFloatCompare p signalling zero) :=
  inferInstanceAs (Decidable (_ ∧ _))

/-- The values in lane `i` of the sources. The second one can be the zero that the word stands for. -/
def comparands (p : Precision) (zero : Bool) (s : State) (i : Nat) : Float p × Float p :=
  (FloatVectorOp.lane p (s.vector w.rn) i, if zero then Float.zero p else FloatVectorOp.lane p (s.vector w.rm) i)

end InstructionWord

namespace SimdInstruction

open InstructionWord

variable {w : InstructionWord} {p : Precision} {r : Float.Relation} {zero scalar signalling : Bool}

theorem decode_of_twoSame (h : w.IsTwoSame scalar) : decode w = decodeTwoRegister w scalar := by
  obtain ⟨h31, hclass, h30, hregisters⟩ := h
  simp only [isTwoRegister, Bool.and_eq_true, Bool.not_eq_true', beq_iff_eq] at hregisters
  have h28 : w.bit 28 = scalar := by
    cases scalar <;> simp only [number_eq, bit_eq_true, bit_eq_false, Bool.false_eq_true, if_false, if_true] at hclass ⊢ <;>
      omega
  cases scalar with
  | false => simp [decode_of_vector h28, decodeVector, h31, hregisters]
  | true => simp [decode_of_scalar h28 (h30 rfl), decodeScalar, h31, hregisters]

def compareOp (p : Precision) (r : Float.Relation) (zero : Bool) (elements : Nat) : FloatVectorOp :=
  if zero then .unary (.compareZero r) p elements else .lanes (.compare r) p elements

theorem decode_of_isLaneCompare (h : w.IsLaneCompare p r zero scalar) :
    decode w = usualFloat w (compareOp p r zero (w.laneCount p.size scalar)) := by
  obtain ⟨rfl, hlanes, h⟩ := h
  have harrangement : arrangement? w (lanePrecision w).size scalar =
      some { size := (lanePrecision w).size, elements := w.laneCount (lanePrecision w).size scalar } :=
    arrangement?_eq.trans (if_pos hlanes)
  cases zero with
  | false =>
    obtain ⟨hclass, hfields⟩ := h
    rw [decode_of_threeSame hclass, decodeThreeSame]
    cases r <;> simp only [registerCompare?, Option.some.injEq, Prod.mk.injEq, reduceCtorEq] at hfields
    all_goals
      obtain ⟨hcode, hu, h23⟩ := hfields
      simp [decodeFloatThreeSame, ← hcode, ← hu, ← h23, harrangement, withArrangement, floatThreeSame,
        FloatThreeSame.hasScalarForm, compareOp]
  | true =>
    obtain ⟨hclass, hfields⟩ := h
    rw [decode_of_twoSame hclass, decodeTwoRegister]
    cases r <;> simp only [zeroCompare?, Option.some.injEq, Prod.mk.injEq, reduceCtorEq] at hfields
    all_goals
      obtain ⟨hcode, hu, h23⟩ := hfields
      simp [decodeFloatMisc, ← hcode, ← hu, ← h23, harrangement, withArrangement, floatMisc,
        FloatUnary.hasLaneScalarForm, compareOp]

theorem decode_of_isFloatCompare (h : w.IsFloatCompare p signalling zero) :
    decode w = usual w (.compare p signalling zero) := by
  obtain ⟨hclass, hprecision, h21, hcode, rfl, rfl, hlow⟩ := h
  obtain ⟨hfloat, h29, h31⟩ := fields_of_floatData hclass
  obtain ⟨h11, h14, h13, h15⟩ : w.number 11 10 = 0 ∧ w.number 14 10 = 8 ∧ w.number 13 10 = 8 ∧ w.number 15 14 = 0 := by
    simp only [number_eq] at hcode ⊢
    omega
  rw [decode_of_float hfloat]
  simp only [decodeFloat, h29, h21, hcode, h31, h11, h14, h13]
  cases p <;> simp [withPrecision, hprecision, decodeFloatCompare, h15, hlow]

theorem eval_compareOp (p : Precision) (r : Float.Relation) (zero : Bool) (n : Nat) (s : State) :
    (compareOp p r zero n).eval (s.vectorOperands w) = Lanes.buildFlagged n fun i =>
      FloatLane.apply (.compare r) (w.comparands p zero s i).1 (w.comparands p zero s i).2 (Float.zero p) := by
  cases zero <;> rfl

end SimdInstruction

namespace InstructionWord

variable {w : InstructionWord} {p : Precision} {r : Float.Relation} {zero scalar signalling : Bool}

theorem group_of_isLaneCompare (h : w.IsLaneCompare p r zero scalar) : w.number 27 25 = 0b111 := by
  have hclass : w.number 28 24 = if scalar then 0b11110 else 0b01110 := by
    cases zero with
    | false => exact h.2.2.1.2.1
    | true => exact h.2.2.1.2.1
  simp only [number_eq] at hclass ⊢
  split at hclass <;> omega

theorem group_of_isFloatCompare (h : w.IsFloatCompare p signalling zero) : w.number 27 25 = 0b111 :=
  group_of_float (fields_of_floatData h.1).1

end InstructionWord

namespace Machine

open AArch64.Float InstructionWord

variable {w : InstructionWord} {p : Precision} {r : Relation} {zero scalar signalling : Bool}

theorem execute_floatCompare (h : w.IsFloatCompare p signalling zero) (m : Machine) {a b : Float p}
    (hab : w.comparands p zero m.state 0 = (a, b)) :
    (m.execute w).1 = .ok .ready ∧ (m.execute w).2.state =
      (m.state.raise { invalidOperation := invalidates (!signalling) a b }).setFlags (compareFlags a b) := by
  obtain ⟨rfl, rfl⟩ := Prod.mk.inj hab
  rw [← objects_eq]
  exact execute_result (group_of_isFloatCompare h) (SimdInstruction.decode_of_isFloatCompare h) m rfl

theorem execute_laneCompare (h : w.IsLaneCompare p r zero scalar) (m : Machine) :
    let n := w.laneCount p.size scalar
    let pair (i : Nat) := w.comparands p zero m.state i
    (m.execute w).1 = .ok .ready ∧
      (∀ i < n, FloatVectorOp.lane p ((m.execute w).2.state.vector w.rd) i =
        Lane.truth p.bits (r.holds (pair i).1 (pair i).2)) ∧
      (m.execute w).2.state.fpsr = m.state.fpsr.raise
        { invalidOperation := decide (∃ i < n, invalidates (r == .equal) (pair i).1 (pair i).2 = true) } := by
  intro n pair
  obtain ⟨houtcome, hvector, hfpsr⟩ :=
    m.execute_usual (group_of_isLaneCompare h) (SimdInstruction.decode_of_isLaneCompare h) rfl
  have heval := SimdInstruction.eval_compareOp (w := w) p r zero n m.state
  have hraised (i : Nat) : (FloatLane.apply (.compare r) (pair i).1 (pair i).2 (Float.zero p)).raised =
      { invalidOperation := invalidates (r == .equal) (pair i).1 (pair i).2 } := by
    rw [FloatLane.apply, Flagged.raised_bind, Relation.raised_holdsRaising]
    exact Fpsr.raise_none _
  refine ⟨houtcome, fun i hi => ?_, ?_⟩
  · have hfits : (i + 1) * p.bits ≤ 128 := p.bits_size ▸ lane_fits hi
    rw [hvector]
    refine (congrArg (fun v : Flagged (BitVec 128) => FloatVectorOp.lane p v.value i) heval).trans ?_
    rw [Lanes.value_buildFlagged]
    exact Lanes.get_build _ hi hfits
  · rw [hfpsr]
    refine congrArg m.state.fpsr.raise ((congrArg Flagged.raised heval).trans ?_)
    exact Lanes.raised_buildFlagged hraised

/-- Comparing two values by `FCMP` or `FCMPE` and comparing them in a lane. The flags are those of the comparison, a lane
gets the answer of the condition that goes with its relation, and the comparisons of magnitudes those of the values without
their sign bits. The overflow flag tells whether there was a NaN, and without one the other conditions tell the places of
both values on the number line. Quiet comparisons are invalid for signalling NaNs and the others for all NaNs. -/
theorem float_comparisons_agree {p : Precision} (a b : Float p) :
    (∀ (signalling zero : Bool) (w : InstructionWord) (m : Machine), w.IsFloatCompare p signalling zero →
        w.comparands p zero m.state 0 = (a, b) →
        (m.execute w).1 = .ok .ready ∧ (m.execute w).2.state.nzcv = compareFlags a b ∧
          (m.execute w).2.state.fpsr = m.state.fpsr.raise { invalidOperation := invalidates (!signalling) a b }) ∧
      (∀ (r : Relation) (zero scalar : Bool) (w : InstructionWord) (m : Machine), w.IsLaneCompare p r zero scalar →
        (m.execute w).1 = .ok .ready ∧
          (∀ i < w.laneCount p.size scalar, w.comparands p zero m.state i = (a, b) →
            FloatVectorOp.lane p ((m.execute w).2.state.vector w.rd) i =
              if r.condition.holds (compareFlags (r.compared a) (r.compared b)) then BitVec.allOnes p.bits
              else 0#p.bits) ∧
          (m.execute w).2.state.fpsr = m.state.fpsr.raise
            { invalidOperation := decide (∃ i < w.laneCount p.size scalar,
                let (x, y) := w.comparands p zero m.state i
                invalidates (r == .equal) x y = true) }) ∧
      Condition.vs.holds (compareFlags a b) = (isNaN a || isNaN b) ∧
      ∀ r : Relation, r.condition.holds (compareFlags a b) = true ↔
        (isNaN a || isNaN b) = false ∧ r.Relates (extended a) (extended b) := by
  refine ⟨?_, ?_, overflow_compareFlags a b, fun r => condition_holds_iff r a b⟩
  · intro signalling zero w m h hab
    obtain ⟨houtcome, hstate⟩ := m.execute_floatCompare h hab
    rw [hstate]
    exact ⟨houtcome, rfl, rfl⟩
  · intro r zero scalar w m h
    obtain ⟨houtcome, hlanes, hfpsr⟩ := m.execute_laneCompare h
    refine ⟨houtcome, fun i hi hab => ?_, hfpsr⟩
    rw [hlanes i hi]
    simp only [hab, Relation.holds_eq]
    rfl

/-- `FCMP S1, S2` and `FCMGE S0, S1, S2` of the least subnormal number and the negative zero, and `FACGT V0.2S, V1.2S, V2.2S`
of the same in the first lane and a quiet NaN in the second. -/
theorem float_comparisons_agree_once :
    let m : Machine := withState {} (State.setVector (State.setVector {} 1#5 0x7FC0000000000001#128)
      2#5 0x0000000080000000#128)
    (m.execute 0x1E222020#32).2.state.nzcv = { carry := true } ∧
      FloatVectorOp.lane .single ((m.execute 0x7E22E420#32).2.state.vector 0#5) 0 = BitVec.allOnes 32 ∧
      FloatVectorOp.lane .single ((m.execute 0x2EA2EC20#32).2.state.vector 0#5) 0 = BitVec.allOnes 32 ∧
      (m.execute 0x1E222020#32).2.state.fpsr = {} ∧
      (m.execute 0x2EA2EC20#32).2.state.fpsr = { invalidOperation := true } := by
  intro m
  obtain ⟨hcompare, hlanes, _⟩ := float_comparisons_agree (p := .single) 0x00000001#32 0x80000000#32
  obtain ⟨_, hflags, hquiet⟩ := hcompare false false 0x1E222020#32 m (by decide) (by decide +kernel)
  obtain ⟨_, hgreaterEqual, _⟩ := hlanes .greaterEqual false true 0x7E22E420#32 m (by decide)
  obtain ⟨_, habsGreater, hinvalid⟩ := hlanes .absGreater false false 0x2EA2EC20#32 m (by decide)
  exact ⟨hflags.trans (by decide +kernel), (hgreaterEqual 0 (by decide) (by decide +kernel)).trans (if_pos (by decide)),
    (habsGreater 0 (by decide) (by decide +kernel)).trans (if_pos (by decide)), hquiet.trans (by decide +kernel),
    hinvalid.trans (by decide +kernel)⟩

end Machine
end AArch64
