import AArch64.Proofs.Interpreter.Execute
import AArch64.Proofs.Vectors.ThreeSame
import Mathlib.Data.Int.Bitwise
import Mathlib.Data.Rat.Floor

/-! Integer arithmetic in lanes. The words with three registers of the same shape that neither saturate nor shift nor
work on pairs of lanes or on single bits leave in each lane an integer that depends on the numbers in the same lane
alone, reduced to the lane. -/
namespace AArch64

namespace Lane

variable {n : Nat}

/-- Long multiplication in binary, with the partial products added without carries. -/
def carrylessProduct (x y : Nat) : Nat :=
  if y = 0 then 0 else (if y % 2 = 1 then x else 0) ^^^ 2 * carrylessProduct x (y / 2)

/-- The opcodes below 20 that stand neither for the bitwise operations (3) nor for the saturating ones (1 and 5) nor
for the shifts by a register (8 to 11). -/
def isArithmetic (opcode : Nat) : Bool :=
  opcode < 20 && !(opcode == 3 || opcode == 1 || opcode == 5 || (8 ≤ opcode && opcode ≤ 11))

/-- The integer that an opcode and the U bit make of the numbers `x` and `y` in a lane of the sources and `z` in that of
the destination. A lane of ones holds `-1`. -/
def exactLane (opcode : Nat) (u : Bool) (x y z : Int) : Int :=
  match opcode, u with
  | 0, _ => ⌊((x + y : Int) : ℚ) / 2⌋
  | 2, _ => ⌊((x + y + 1 : Int) : ℚ) / 2⌋
  | 4, _ => ⌊((x - y : Int) : ℚ) / 2⌋
  | 6, _ => if x > y then -1 else 0
  | 7, _ => if x ≥ y then -1 else 0
  | 12, _ => max x y
  | 13, _ => min x y
  | 14, _ => |x - y|
  | 15, _ => z + |x - y|
  | 16, false => x + y
  | 16, true => x - y
  | 17, false => if x.land y ≠ 0 then -1 else 0
  | 17, true => if x = y then -1 else 0
  | 18, false => z + x * y
  | 18, true => z - x * y
  | 19, false => x * y
  | 19, true => carrylessProduct x.toNat y.toNat
  | _, _ => 0

theorem ofInt_value (signed : Bool) (x : BitVec n) : BitVec.ofInt n (value signed x) = x := by
  cases signed with
  | false => simp [value]
  | true => simp [value]

theorem floor_half (x : Int) : ⌊(x : ℚ) / 2⌋ = x / 2 := Rat.floor_intCast_div_natCast x 2

theorem toInt_of_msb {x : BitVec n} (h : x.msb = true) : x.toInt = Int.negSucc (~~~x).toNat := by
  have hlt := x.isLt
  rw [BitVec.toInt_eq_msb_cond, if_pos h, BitVec.toNat_not, Int.negSucc_eq]
  omega

theorem land_toInt (x y : BitVec n) : x.toInt.land y.toInt = (x &&& y).toInt := by
  have hldiff (x y : BitVec n) : Nat.ldiff x.toNat (~~~y).toNat = (x &&& y).toNat := by
    apply Nat.eq_of_testBit_eq
    intro i
    rw [Nat.testBit_ldiff, BitVec.testBit_toNat, BitVec.testBit_toNat, BitVec.testBit_toNat, BitVec.getLsbD_not,
      BitVec.getLsbD_and]
    by_cases hi : i < n
    · simp [hi]
    · simp [BitVec.getLsbD_of_ge x i (Nat.not_lt.1 hi)]
  have hand : (x &&& y).msb = (x.msb && y.msb) := BitVec.msb_and
  cases hx : x.msb <;> cases hy : y.msb <;> rw [hx, hy] at hand
  · rw [BitVec.toInt_eq_toNat_of_msb hx, BitVec.toInt_eq_toNat_of_msb hy, BitVec.toInt_eq_toNat_of_msb hand,
      BitVec.toNat_and]
    rfl
  · rw [BitVec.toInt_eq_toNat_of_msb hx, toInt_of_msb hy, BitVec.toInt_eq_toNat_of_msb hand, ← hldiff]
    rfl
  · rw [toInt_of_msb hx, BitVec.toInt_eq_toNat_of_msb hy, BitVec.toInt_eq_toNat_of_msb hand, BitVec.and_comm, ← hldiff]
    rfl
  · rw [toInt_of_msb hx, toInt_of_msb hy, toInt_of_msb hand, BitVec.not_and, BitVec.toNat_or]
    rfl

theorem carrylessProduct_add_twoPow (x : Nat) {y k : Nat} (hy : y < 2 ^ k) (c : Bool) :
    carrylessProduct x (y + 2 ^ k * c.toNat) = carrylessProduct x y ^^^ (if c then x <<< k else 0) := by
  induction k generalizing y with
  | zero =>
    obtain rfl : y = 0 := by omega
    cases c <;> simp [carrylessProduct]
  | succ k ih =>
    have hpow : 2 ^ (k + 1) = 2 * 2 ^ k := by rw [Nat.pow_succ, Nat.mul_comm]
    have hhalf : (y + 2 ^ (k + 1) * c.toNat) / 2 = y / 2 + 2 ^ k * c.toNat := by
      rw [hpow, Nat.mul_assoc, Nat.add_mul_div_left _ _ Nat.two_pos]
    have hparity : (y + 2 ^ (k + 1) * c.toNat) % 2 = y % 2 := by
      rw [hpow, Nat.mul_assoc, Nat.add_mul_mod_self_left]
    have hrec (z : Nat) :
        carrylessProduct x z = (if z % 2 = 1 then x else 0) ^^^ 2 * carrylessProduct x (z / 2) := by
      rw [carrylessProduct.eq_1 x z]
      split
      next hz => simp [hz, carrylessProduct]
      next => rfl
    rw [hrec, hhalf, hparity, ih (by omega), hrec y, Nat.xor_assoc]
    congr 1
    have hdouble (z : Nat) : 2 * z = z <<< 1 := by rw [Nat.shiftLeft_eq, Nat.pow_one, Nat.mul_comm]
    cases c <;> simp [hdouble, Nat.shiftLeft_xor_distrib, Nat.shiftLeft_add]

theorem polynomialProduct_eq (a b : BitVec n) :
    polynomialProduct a b = BitVec.ofNat n (carrylessProduct a.toNat b.toNat) := by
  have hfold (k : Nat) :
      (List.range k).foldl (fun p i => if b.getLsbD i then p ^^^ a <<< i else p) 0#n =
        BitVec.ofNat n (carrylessProduct a.toNat (b.toNat % 2 ^ k)) := by
    induction k with
    | zero => simp [Nat.mod_one, carrylessProduct]
    | succ k ih =>
      have hbit : b.toNat % 2 ^ (k + 1) = b.toNat % 2 ^ k + 2 ^ k * (b.getLsbD k).toNat := by
        rw [Nat.mod_pow_succ, BitVec.getLsbD, Nat.toNat_testBit]
      rw [List.range_succ, List.foldl_append, ih, hbit, carrylessProduct_add_twoPow _ (Nat.mod_lt _ (Nat.two_pow_pos k))]
      cases hk : b.getLsbD k with
      | false => simp [hk]
      | true =>
        apply BitVec.eq_of_toNat_eq
        simp [hk]
  rw [polynomialProduct, hfold, Nat.mod_eq_of_lt b.isLt]

theorem truth_eq (p : Prop) [Decidable p] : truth n (decide p) = BitVec.ofInt n (if p then -1 else 0) := by
  have hones : BitVec.allOnes n = BitVec.ofInt n (-1) := by rw [← BitVec.neg_one_eq_allOnes, BitVec.ofInt_neg]; rfl
  by_cases h : p <;> simp [truth, h, hones]

theorem truth_and_ne_zero (a b : BitVec n) :
    truth n (a &&& b != 0#n) = BitVec.ofInt n (if a.toInt.land b.toInt ≠ 0 then -1 else 0) := by
  have hzero : (a &&& b).toInt ≠ 0 ↔ a &&& b ≠ 0#n := by
    rw [← BitVec.toInt_zero (w := n), Ne, BitVec.toInt_inj]
  rw [← truth_eq, land_toInt]
  congr 1
  rw [Bool.eq_iff_iff, bne_iff_ne, decide_eq_true_eq, hzero]

end Lane

namespace LaneOp

open Lane SimdInstruction

variable {n : Nat}

theorem apply_eq_exactLane {opcode : Nat} {u : Bool} {op : LaneOp} (hop : laneOp? opcode u = some op)
    (hexact : isArithmetic opcode = true) (a b acc : BitVec n) :
    op.apply (!u) a b acc =
      pure (BitVec.ofInt n (exactLane opcode u (value (!u) a) (value (!u) b) (value (!u) acc))) := by
  have hsum (v : Int) : acc + BitVec.ofInt n v = BitVec.ofInt n (value (!u) acc + v) := by
    rw [BitVec.ofInt_add, ofInt_value]
  have hdifference (v : Int) : acc - BitVec.ofInt n v = BitVec.ofInt n (value (!u) acc - v) := by
    rw [Int.sub_eq_add_neg, BitVec.ofInt_add, ofInt_value, BitVec.ofInt_neg, BitVec.sub_eq_add_neg]
  unfold laneOp? at hop
  split at hop
  case h_1 | h_3 | h_4 =>
    cases hop
    simp only [apply, exactLane, floor_half]
  case h_6 | h_7 =>
    cases hop
    exact congrArg pure (truth_eq _)
  case h_9 =>
    cases hop
    simp only [apply, exactLane, max_comm (value (!u) a), max_def]
  case h_11 =>
    cases hop
    simp only [apply, exactLane, min_def]
  case h_13 =>
    cases hop
    simp only [apply, exactLane, Int.natCast_natAbs]
  case h_14 =>
    cases hop
    simp only [apply, exactLane, Int.natCast_natAbs, hsum]
  case h_15 => cases u <;> cases hop <;> rfl
  case h_16 =>
    cases u with
    | false =>
      cases hop
      exact congrArg pure (truth_and_ne_zero a b)
    | true =>
      cases hop
      exact congrArg pure (truth_eq _)
  case h_17 =>
    cases u with
    | false =>
      cases hop
      exact congrArg pure (hsum _)
    | true =>
      cases hop
      exact congrArg pure (hdifference _)
  case h_18 =>
    cases u with
    | false =>
      cases hop
      rfl
    | true =>
      cases hop
      exact congrArg pure ((polynomialProduct_eq a b).trans (BitVec.ofInt_natCast _ _).symm)
  case h_20 => cases hop
  -- The remaining opcodes are not arithmetic.
  all_goals exact absurd hexact (by decide)

/-- Every arithmetic opcode has an operation. Four of them work on lanes of 64 bits. -/
theorem exists_of_isArithmetic {opcode : Nat} (h : isArithmetic opcode = true) (u : Bool) :
    ∃ op, laneOp? opcode u = some op ∧ op.hasWideForm = decide (opcode ∈ [6, 7, 16, 17]) ∧
      (op == .polynomialMultiply) = (opcode == 19 && u) := by
  have hlt : opcode < 20 := by
    simp only [isArithmetic, Bool.and_eq_true, decide_eq_true_eq] at h
    exact h.1
  have htable : ∀ opcode < 20, ∀ u, isArithmetic opcode = true →
      (laneOp? opcode u).map (fun op => (op.hasWideForm, op == .polynomialMultiply)) =
        some (decide (opcode ∈ [6, 7, 16, 17]), opcode == 19 && u) := by
    decide
  obtain ⟨op, hop, hforms⟩ := Option.map_eq_some_iff.1 (htable opcode hlt u h)
  exact ⟨op, hop, congrArg Prod.fst hforms, congrArg Prod.snd hforms⟩

end LaneOp

/-- The arithmetic words that have an instruction: four opcodes work on lanes of 64 bits, in vectors of 128 bits, and the
product of polynomials works on bytes. -/
def InstructionWord.HasArithmetic (w : InstructionWord) : Prop :=
  w.HasLanes w.laneSize false ∧ (w.laneSize = .double → w.number 15 11 ∈ [6, 7, 16, 17]) ∧
    (w.number 15 11 = 19 ∧ w.bit 29 = true → w.laneSize = .byte)

instance (w : InstructionWord) : Decidable w.HasArithmetic := inferInstanceAs (Decidable (_ ∧ _))

namespace SimdInstruction

open InstructionWord Lane

variable {w : InstructionWord}

theorem decode_arithmetic (h : w.IsThreeSame false) (harith : isArithmetic (w.number 15 11) = true) :
    ∃ op, laneOp? (w.number 15 11) (w.bit 29) = some op ∧
      decode w =
        if w.HasArithmetic then
          usualVector w (.lanes op (!w.bit 29) { size := w.laneSize, elements := w.laneCount w.laneSize false })
        else .error .unallocated := by
  obtain ⟨op, hop, hwide, hpoly⟩ := LaneOp.exists_of_isArithmetic harith (w.bit 29)
  have hlow : w.number 15 11 < 20 := by
    simp only [isArithmetic, Bool.and_eq_true, decide_eq_true_eq] at harith
    exact harith.1
  have hsuits : w.Suits op false ↔ w.HasArithmetic := by
    simp only [Suits, HasArithmetic, hwide, ← beq_iff_eq (a := op), hpoly]
    simp
  refine ⟨op, hop, ?_⟩
  simp only [decode_lanes h hlow hop, hsuits]

end SimdInstruction

namespace Machine

open InstructionWord Lane Lanes

variable {w : InstructionWord}

/-- The arithmetic words on three vectors of the same shape. A word either has no instruction or completes on every
machine. Then each lane of the destination is the exact integer for the numbers in this lane of the sources and of the
old destination, modulo the lane; what the other lanes hold does not come into it, and carrying the word out with 128
bits for every intermediate result stops nowhere and comes to the same. -/
theorem three_same_lanes_exact (h : w.IsThreeSame false) (harith : isArithmetic (w.number 15 11) = true) (m : Machine) :
    let lane (m : Machine) (r : Register) (i : Nat) := get (m.state.vector r) w.laneSize.bits i
    let number (r : Register) (i : Nat) := m.state.laneNumber w r i
    (m.execute w).1 = (if w.HasArithmetic then .ok .ready else .error .unallocatedInstruction) ∧
      (w.HasArithmetic →
        Attempt.execute w m.raw = some ((m.execute w).1, (m.execute w).2.raw) ∧
          ∀ i < w.laneCount w.laneSize false,
            lane (m.execute w).2 w.rd i = BitVec.ofInt _
              (exactLane (w.number 15 11) (w.bit 29) (number w.rn i) (number w.rm i) (number w.rd i)) ∧
            ∀ m' : Machine, (∀ r ∈ [w.rn, w.rm, w.rd], lane m' r i = lane m r i) →
              lane (m'.execute w).2 w.rd i = lane (m.execute w).2 w.rd i) := by
  intro lane number
  have hgroup := group_of_threeSame h
  obtain ⟨op, hop, hdecode⟩ := SimdInstruction.decode_arithmetic h harith
  by_cases hhas : w.HasArithmetic
  · rw [if_pos hhas] at hdecode
    have hlane (m' : Machine) {i : Nat} (hi : i < w.laneCount w.laneSize false) :
        lane (m'.execute w).2 w.rd i = (op.apply (!w.bit 29) (lane m' w.rn i) (lane m' w.rm i) (lane m' w.rd i)).value :=
      m'.get_execute_lanes hgroup hdecode hi (lane_fits hi)
    obtain ⟨houtcome, _, _⟩ := m.execute_usualVector hgroup hdecode
    refine ⟨by rw [if_pos hhas, houtcome], fun _ => ⟨Attempt.execute_eq_of_simd hgroup, fun i hi => ⟨?_, fun m' hsame => ?_⟩⟩⟩
    · rw [hlane m hi, LaneOp.apply_eq_exactLane hop harith]
      rfl
    · rw [hlane m' hi, hlane m hi, hsame w.rn (by simp), hsame w.rm (by simp), hsame w.rd (by simp)]
  · rw [if_neg hhas] at hdecode
    rw [m.execute_of_simd_error hgroup hdecode, if_neg hhas]
    exact ⟨rfl, fun h => absurd h hhas⟩

/-- `SABA V2.8B, V0.8B, V1.8B` on `-128`, `127` and `3` in the first lanes, whose sum wraps, below an upper half that
does not count. -/
theorem three_same_lanes_exact_wraps :
    let w : InstructionWord := 0x0E217C02#32
    let m : Machine := withState {} <| State.setVector
      (State.setVector (State.setVector {} 0#5 0xFFFFFFFFFFFFFFFF0000000000000080#128) 1#5 0x7F#128) 2#5 3#128
    w.IsThreeSame false ∧ isArithmetic (w.number 15 11) = true ∧ (m.execute w).1 = .ok .ready ∧
      (m.execute w).2.state.laneNumber w w.rd 0 = 2 := by
  intro w m
  have h : w.IsThreeSame false := by decide
  have harith : isArithmetic (w.number 15 11) = true := by decide
  have hhas : w.HasArithmetic := by decide
  obtain ⟨houtcome, hlanes⟩ := three_same_lanes_exact h harith m
  obtain ⟨_, hlane⟩ := hlanes hhas
  have hfirst : (m.execute w).2.state.laneNumber w w.rd 0 = _ := congrArg (value (!w.bit 29)) (hlane 0 (by decide)).1
  exact ⟨h, harith, houtcome.trans (if_pos hhas), hfirst.trans (by decide +kernel)⟩

end Machine
end AArch64
