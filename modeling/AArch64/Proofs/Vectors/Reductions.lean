import AArch64.Proofs.Vectors.Widening
import Mathlib.Algebra.Order.BigOperators.Group.List

/-! Reductions of all lanes to one. What one pass over the lanes gives, rounds of operations on neighbours give as well,
because the operation on two lanes is associative. A sum in a lane of twice the width is exact. -/
namespace AArch64

namespace Reduction

variable {n : Nat} {signed : Bool}

/-- The code of the word that reduces all lanes to one. -/
def opcode : Reduction → Nat
  | sum => 27
  | max => 10
  | min => 26

/-- The code of the word that reduces neighbours to one lane. -/
def pairOpcode : Reduction → Nat
  | sum => 23
  | max => 20
  | min => 21

def laneOp : Reduction → LaneOp
  | sum => .add
  | max => .max
  | min => .min

/-- What becomes of two lanes. -/
def combine (op : Reduction) (signed : Bool) (x y : BitVec n) : BitVec n := (op.laneOp.apply signed x y 0#n).value

/-- What becomes of all lanes. -/
def gather (op : Reduction) (signed : Bool) (xs : List (BitVec n)) : BitVec n :=
  BitVec.ofInt n (op.apply (xs.map (Lane.value signed)))

/-- Neighbours reduced to one. -/
def pairUp {α : Type} (f : α → α → α) : List α → List α
  | x :: y :: rest => f x y :: pairUp f rest
  | rest => rest

section Lane

open Lane

theorem combine_sum (x y : BitVec n) : sum.combine signed x y = x + y := by
  rw [show sum.combine signed x y = BitVec.ofInt n (value signed x + value signed y) from rfl, BitVec.ofInt_add, ofInt_value,
    ofInt_value]

theorem value_combine_max (x y : BitVec n) :
    value signed (max.combine signed x y) = Max.max (value signed x) (value signed y) := by
  have hcombine : max.combine signed x y = BitVec.ofInt n (Max.max (value signed x) (value signed y)) := by
    rw [max_comm, max_def]
    rfl
  rw [hcombine]
  obtain h | h := max_choice (value signed x) (value signed y) <;> rw [h, ofInt_value]

theorem value_combine_min (x y : BitVec n) :
    value signed (min.combine signed x y) = Min.min (value signed x) (value signed y) := by
  have hcombine : min.combine signed x y = BitVec.ofInt n (Min.min (value signed x) (value signed y)) := by
    rw [min_def]
    rfl
  rw [hcombine]
  obtain h | h := min_choice (value signed x) (value signed y) <;> rw [h, ofInt_value]

theorem eq_of_value_eq (signed : Bool) {x y : BitVec n} (h : value signed x = value signed y) : x = y := by
  rw [← ofInt_value signed x, h, ofInt_value]

theorem combine_assoc (op : Reduction) (x y z : BitVec n) :
    op.combine signed (op.combine signed x y) z = op.combine signed x (op.combine signed y z) := by
  cases op with
  | sum => simp only [combine_sum, BitVec.add_assoc]
  | max => exact eq_of_value_eq signed (by simp only [value_combine_max, max_assoc])
  | min => exact eq_of_value_eq signed (by simp only [value_combine_min, min_assoc])

theorem apply_sum (xs : List Int) : sum.apply xs = xs.sum := List.sum_eq_foldl.symm

/-- The first two lanes may be combined first. -/
theorem gather_combine (op : Reduction) (x y : BitVec n) (xs : List (BitVec n)) :
    op.gather signed (op.combine signed x y :: xs) = op.gather signed (x :: y :: xs) := by
  -- A sum is combined modulo the lane. A maximum or minimum is one of the two numbers, so it is combined exactly.
  cases op with
  | sum =>
    simp only [gather, apply_sum, List.map_cons, List.sum_cons, combine_sum, BitVec.ofInt_add, ofInt_value,
      BitVec.add_assoc]
  | max => simp only [gather, apply, List.map_cons, List.max?_cons', value_combine_max, List.foldl_cons]
  | min => simp only [gather, apply, List.map_cons, List.min?_cons', value_combine_min, List.foldl_cons]

theorem gather_singleton (op : Reduction) (x : BitVec n) : op.gather signed [x] = x := by
  cases op with
  | sum => simp [gather, apply_sum, ofInt_value]
  | max | min => exact ofInt_value signed x

theorem gather_cons (op : Reduction) (x : BitVec n) (xs : List (BitVec n)) :
    op.gather signed (x :: xs) = xs.foldl (op.combine signed) x := by
  induction xs generalizing x with
  | nil => exact op.gather_singleton x
  | cons y xs ih => rw [← gather_combine, ih, List.foldl_cons]

end Lane

theorem foldl_pairUp {α : Type} {f : α → α → α} (hassoc : ∀ x y z, f (f x y) z = f x (f y z)) (a : α) (xs : List α) :
    (pairUp f xs).foldl f a = xs.foldl f a := by
  -- A last element without a neighbour stays as it is, so the number of elements does not matter.
  fun_induction pairUp f xs generalizing a with
  | case1 x y rest ih => rw [List.foldl_cons, List.foldl_cons, List.foldl_cons, ih, hassoc]
  | case2 => rfl

theorem gather_pairUp (op : Reduction) (xs : List (BitVec n)) :
    op.gather signed (pairUp (op.combine signed) xs) = op.gather signed xs := by
  match xs with
  | [] | [_] => rfl
  | x :: y :: rest => rw [pairUp, gather_cons, gather_cons, foldl_pairUp op.combine_assoc, List.foldl_cons]

theorem pairUp_map_range {α : Type} (f : α → α → α) (g : Nat → α) (k : Nat) :
    pairUp f ((List.range (2 * k)).map g) = (List.range k).map fun i => f (g (2 * i)) (g (2 * i + 1)) := by
  induction k generalizing g with
  | zero => rfl
  | succ k ih =>
    have hfront (k : Nat) : List.range (2 * (k + 1)) = 0 :: 1 :: (List.range (2 * k)).map (· + 2) := by
      rw [Nat.mul_succ, List.range_succ_eq_map, List.range_succ_eq_map]
      simp
    rw [hfront, List.map_cons, List.map_cons, List.map_map, pairUp, ih, List.range_succ_eq_map, List.map_cons, List.map_map]
    rfl

open VectorOp in
theorem value_eval_pairwise (op : Reduction) (signed : Bool) (a : Arrangement) (v : VectorOperands) :
    ((VectorOp.pairwise op.laneOp signed a).eval v).value = Lanes.build a.elements fun i =>
      op.combine signed (pairLane v.n v.m a.esize a.elements (2 * i)) (pairLane v.n v.m a.esize a.elements (2 * i + 1)) :=
  Lanes.value_buildFlagged _ _

end Reduction

namespace Lane

variable {n : Nat} {signed : Bool}

/-- A wide lane has room for the sum of as many lanes as there are in a register. -/
theorem holds_sum {xs : List Int} (hn : 0 < n) (hlength : xs.length ≤ 2 ^ (n - 1))
    (h : ∀ x ∈ xs, Holds signed n x) : Holds signed (2 * n) xs.sum := by
  obtain ⟨hpow, hdouble, hsquare⟩ := two_pow_double hn
  have hpos := one_le_two_pow (n - 1)
  have hlow := List.card_nsmul_le_sum xs (least signed n) fun x hx => (h x hx).1
  have hhigh := List.sum_le_card_nsmul xs (greatest signed n) fun x hx => (h x hx).2
  have hcount : (xs.length : Int) ≤ 2 ^ (n - 1) := by exact_mod_cast hlength
  have hnonneg : (0 : Int) ≤ xs.length := Int.natCast_nonneg _
  rw [nsmul_eq_mul] at hlow hhigh
  cases signed with
  | false =>
    simp only [holds_unsigned, least, greatest, Bool.false_eq_true, if_false, hpow, hsquare] at hlow hhigh ⊢
    constructor
    · nlinarith
    · nlinarith
  | true =>
    simp only [holds_signed, least, greatest, if_true, hdouble] at hlow hhigh ⊢
    constructor
    · nlinarith
    · nlinarith

end Lane

namespace InstructionWord

variable (w : InstructionWord)

/-- A reduction to a lane of the same size. A sum does not depend on how the lanes are read, so it has no unsigned form. -/
def IsReductionOf (op : Reduction) : Prop :=
  w.IsVectorForm ∧ w.isReduction = true ∧ w.number 16 12 = op.opcode ∧ (op = .sum → w.bit 29 = false)

instance (op : Reduction) : Decidable (w.IsReductionOf op) := inferInstanceAs (Decidable (_ ∧ _))

/-- A sum in a lane of twice the size. -/
def IsLongSum : Prop := w.IsVectorForm ∧ w.isReduction = true ∧ w.number 16 12 = 3

instance : Decidable w.IsLongSum := inferInstanceAs (Decidable (_ ∧ _))

/-- The vectors that are reduced have at least four lanes. -/
def HasReduction : Prop := w.laneSize ≠ .double ∧ (w.laneSize = .word → w.bit 30 = true)

instance : Decidable w.HasReduction := inferInstanceAs (Decidable (_ ∧ _))

/-- The word reduces neighbours in this register with itself, in lanes of the same shape and in the same way. -/
def IsRound (op : Reduction) (r : Register) (w' : InstructionWord) : Prop :=
  w'.IsThreeSame false ∧ w'.number 15 11 = op.pairOpcode ∧ w'.bit 29 = w.bit 29 ∧ w.SameShape w' ∧ w'.rn = r ∧ w'.rm = r

instance (op : Reduction) (r : Register) (w' : InstructionWord) : Decidable (w.IsRound op r w') :=
  inferInstanceAs (Decidable (_ ∧ _))

/-- Rounds one after the other, each of them on the result of the one before. -/
def IsRounds (op : Reduction) : Register → List InstructionWord → Prop
  | _, [] => True
  | r, w' :: ws => w.IsRound op r w' ∧ IsRounds op w'.rd ws

instance decidableIsRounds (op : Reduction) :
    (r : Register) → (ws : List InstructionWord) → Decidable (w.IsRounds op r ws)
  | _, [] => inferInstanceAs (Decidable True)
  | r, w' :: ws =>
    have := decidableIsRounds op w'.rd ws
    inferInstanceAs (Decidable (w.IsRound op r w' ∧ w.IsRounds op w'.rd ws))

/-- The destination of the last word. -/
def lastDestination (r : Register) (ws : List InstructionWord) : Register := ws.foldl (fun _ w => w.rd) r

variable {w}

theorem hasLanes_of_hasReduction (h : w.HasReduction) : w.HasLanes w.laneSize false := .inr (.inr h.1)

theorem two_pow_log2_laneCount (w : InstructionWord) (size : ElementSize) :
    2 ^ (w.laneCount size false).log2 = w.laneCount size false := by
  cases hfull : w.bit 30 <;> cases size <;> simp [laneCount, hfull, ElementSize.bits] <;> decide

end InstructionWord

namespace SimdInstruction

open InstructionWord

variable {w : InstructionWord}

theorem guard_hasReduction (w : InstructionWord) :
    (w.laneSize == .double || (w.laneSize == .word && !w.bit 30)) = !decide w.HasReduction := by
  cases hsize : w.laneSize <;> cases hfull : w.bit 30 <;> simp [HasReduction, hsize, hfull]

theorem decode_of_isReductionOf {op : Reduction} (h : w.IsReductionOf op) :
    decode w =
      if w.HasReduction then
        usualVector w (.reduce op (!w.bit 29) false { size := w.laneSize, elements := w.laneCount w.laneSize false })
      else .error .unallocated := by
  obtain ⟨hform, hclass, hopcode, hsum⟩ := h
  rw [decode_of_reduction hform hclass, decodeAcross]
  simp only [← laneSize.eq_1, guard_hasReduction]
  by_cases hhas : w.HasReduction
  · have hlanes := vector?_of_hasLanes (hasLanes_of_hasReduction hhas)
    cases op with
    | sum => simp [hopcode, Reduction.opcode, hhas, hlanes, withArrangement, hsum rfl]
    | max | min => simp [hopcode, Reduction.opcode, hhas, hlanes, withArrangement]
  · cases op <;> simp [hopcode, Reduction.opcode, hhas]

theorem decode_of_isLongSum (h : w.IsLongSum) :
    decode w =
      if w.HasReduction then
        usualVector w (.reduce .sum (!w.bit 29) true { size := w.laneSize, elements := w.laneCount w.laneSize false })
      else .error .unallocated := by
  obtain ⟨hform, hclass, hopcode⟩ := h
  rw [decode_of_reduction hform hclass, decodeAcross]
  simp only [← laneSize.eq_1, guard_hasReduction]
  by_cases hhas : w.HasReduction
  · have hlanes := vector?_of_hasLanes (hasLanes_of_hasReduction hhas)
    simp [hopcode, hhas, hlanes, withArrangement]
  · simp [hopcode, hhas]

/-- A word that works on pairs of lanes, of both sources in turn. -/
theorem decode_of_pairOpcode {op : Reduction} (h : w.IsThreeSame false) (hopcode : w.number 15 11 = op.pairOpcode)
    (hsum : op = .sum → w.bit 29 = false) (hsize : w.laneSize ≠ .double) :
    decode w =
      usualVector w (.pairwise op.laneOp (!w.bit 29) { size := w.laneSize, elements := w.laneCount w.laneSize false }) := by
  have hlanes : w.HasLanes w.laneSize false := .inr (.inr hsize)
  rw [decode_of_threeSame h, decodeThreeSame]
  simp only [← laneSize.eq_1, arrangement?_eq, if_pos hlanes]
  cases op with
  | sum => simp [hopcode, Reduction.pairOpcode, Reduction.laneOp, laneOp?, hsum rfl, hsize, withArrangement]
  | max | min => simp [hopcode, Reduction.pairOpcode, Reduction.laneOp, laneOp?, hsize, withArrangement]

end SimdInstruction

namespace Machine

open InstructionWord Lane Lanes

/-- The words complete one after the other, and leave a state that the property holds of. -/
def Completes (P : State → Prop) : List InstructionWord → Machine → Prop
  | [], m => P m.state
  | w :: ws, m => (m.execute w).1 = .ok .ready ∧ Completes P ws (m.execute w).2

variable {w : InstructionWord} {op : Reduction}

/-- A round. Its first results are those for neighbours in the first source. -/
theorem execute_round (h : w.IsThreeSame false) (hopcode : w.number 15 11 = op.pairOpcode)
    (hsum : op = .sum → w.bit 29 = false) (hsize : w.laneSize ≠ .double) (m : Machine) {k : Nat}
    (hk : 2 * k ≤ w.laneCount w.laneSize false) :
    (m.execute w).1 = .ok .ready ∧
      (List.range k).map (get ((m.execute w).2.state.vector w.rd) w.laneSize.bits) =
        Reduction.pairUp (op.combine (!w.bit 29))
          ((List.range (2 * k)).map (get (m.state.vector w.rn) w.laneSize.bits)) := by
  obtain ⟨houtcome, hvector, _⟩ := m.execute_usualVector (group_of_threeSame h)
    (SimdInstruction.decode_of_pairOpcode h hopcode hsum hsize)
  refine ⟨houtcome, ?_⟩
  rw [Reduction.pairUp_map_range]
  refine List.map_congr_left fun i hi => ?_
  have hlane : i < k := List.mem_range.1 hi
  have hin : i < w.laneCount w.laneSize false := by omega
  -- Both neighbours are in the first source, so it does not matter what the second one is.
  have hfirst : 2 * i < w.laneCount w.laneSize false := by omega
  have hsecond : 2 * i + 1 < w.laneCount w.laneSize false := by omega
  rw [hvector, op.value_eval_pairwise]
  refine (get_build _ hin (lane_fits hin)).trans ?_
  simp only [VectorOp.pairLane, if_pos hfirst, if_pos hsecond]
  rfl

/-- Rounds reduce as many lanes as there are after that many doublings, by induction on the rounds that are left. -/
theorem completes_rounds (hsum : op = .sum → w.bit 29 = false) (hsize : w.laneSize ≠ .double)
    {ws : List InstructionWord} {r : Register} (h : w.IsRounds op r ws)
    (hcount : 2 ^ ws.length ≤ w.laneCount w.laneSize false) (m : Machine) :
    m.Completes (fun s => get (s.vector (lastDestination r ws)) w.laneSize.bits 0 =
      op.gather (!w.bit 29) ((List.range (2 ^ ws.length)).map (get (m.state.vector r) w.laneSize.bits))) ws := by
  induction ws generalizing r m with
  | nil => exact (op.gather_singleton _).symm
  | cons w' ws ih =>
    obtain ⟨⟨hsame, hopcode, hsign, hshape, rfl, _⟩, hrest⟩ := h
    have hdouble : 2 ^ (w' :: ws).length = 2 * 2 ^ ws.length := by rw [List.length_cons, Nat.pow_succ, Nat.mul_comm]
    rw [hdouble] at hcount ⊢
    obtain ⟨houtcome, hlanes⟩ := m.execute_round hsame hopcode (hsign ▸ hsum) (hshape.1 ▸ hsize)
      (hcount.trans_eq (laneCount_of_sameShape hshape).symm)
    rw [hshape.1, hsign] at hlanes
    refine ⟨houtcome, ?_⟩
    -- The other rounds reduce the first half of the lanes, which are the results for neighbours among all of them.
    have hreduced := ih hrest (by omega) (m.execute w').2
    rwa [hlanes, op.gather_pairUp] at hreduced

theorem outcome_of_decode {op : VectorOp} (hgroup : w.number 27 25 = 0b111)
    (hdecode : SimdInstruction.decode w =
      if w.HasReduction then SimdInstruction.usualVector w op else .error .unallocated) (m : Machine) :
    (m.execute w).1 = if w.HasReduction then .ok .ready else .error .unallocatedInstruction := by
  by_cases hhas : w.HasReduction
  · rw [if_pos hhas] at hdecode ⊢
    exact (m.execute_usualVector hgroup hdecode).1
  · rw [if_neg hhas] at hdecode ⊢
    rw [m.execute_of_simd_error hgroup hdecode]
    rfl

theorem execute_of_isReductionOf (h : w.IsReductionOf op) (hhas : w.HasReduction) (m : Machine) :
    (m.execute w).1 = .ok .ready ∧
      (m.execute w).2.state.vector w.rd = scalar (op.gather (!w.bit 29)
        ((List.range (w.laneCount w.laneSize false)).map (get (m.state.vector w.rn) w.laneSize.bits))) := by
  have hdecode := SimdInstruction.decode_of_isReductionOf h
  rw [if_pos hhas] at hdecode
  obtain ⟨houtcome, hvector, _⟩ := m.execute_usualVector h.1.1 hdecode
  refine ⟨houtcome, hvector.trans ?_⟩
  rw [Reduction.gather, List.map_map]
  rfl

theorem execute_of_isLongSum (h : w.IsLongSum) (hhas : w.HasReduction) (m : Machine) :
    (m.execute w).1 = .ok .ready ∧
      (m.execute w).2.state.vector w.rd = scalar (BitVec.ofInt (2 * w.laneSize.bits)
        ((List.range (w.laneCount w.laneSize false)).map (m.state.laneNumber w w.rn)).sum) := by
  have hdecode := SimdInstruction.decode_of_isLongSum h
  rw [if_pos hhas] at hdecode
  obtain ⟨houtcome, hvector, _⟩ := m.execute_usualVector h.1.1 hdecode
  refine ⟨houtcome, hvector.trans ?_⟩
  rw [← Reduction.apply_sum]
  rfl

/-- There are few enough lanes. -/
theorem holds_sum_laneNumber (w : InstructionWord) (m : Machine) (r : Register) :
    Holds (!w.bit 29) (2 * w.laneSize.bits)
      ((List.range (w.laneCount w.laneSize false)).map (m.state.laneNumber w r)).sum := by
  refine holds_sum w.laneSize.bits_pos ?_ fun x hx => ?_
  · rw [List.length_map, List.length_range]
    cases hfull : w.bit 30 <;> cases hsize : w.laneSize <;> simp [laneCount, hfull, ElementSize.bits]
  · obtain ⟨i, _, rfl⟩ := List.mem_map.1 hx
    exact holds_value _

/-- The reductions of all lanes of a vector to one. A word has no instruction or completes on every machine, and what it
leaves is one lane below zeros. This lane is the first one after as many rounds of operations on neighbours as it takes
to have one lane left, on whichever registers and machine the rounds are done. A sum in a lane of twice the size is the
sum of the numbers in the lanes, without a reduction. -/
theorem reductions_agree_with_rounds (m : Machine) (w : InstructionWord) :
    let bits := w.laneSize.bits
    let count := w.laneCount w.laneSize false
    let after := (m.execute w).2.state.vector w.rd
    let outcome := if w.HasReduction then .ok .ready else .error .unallocatedInstruction
    (∀ op, w.IsReductionOf op →
        (m.execute w).1 = outcome ∧
          (w.HasReduction → ZeroFrom bits after ∧
            ∀ (ws : List InstructionWord) (r : Register) (m' : Machine), ws.length = count.log2 → w.IsRounds op r ws →
              m'.state.vector r = m.state.vector w.rn →
              m'.Completes (fun s => get (s.vector (lastDestination r ws)) bits 0 = get after bits 0) ws)) ∧
      (w.IsLongSum →
        (m.execute w).1 = outcome ∧
          (w.HasReduction → ZeroFrom (2 * bits) after ∧
            value (!w.bit 29) (get after (2 * bits) 0) =
              ((List.range count).map (m.state.laneNumber w w.rn)).sum)) := by
  intro bits count after outcome
  have hsmall : bits ≤ 64 := w.laneSize.bits_le
  refine ⟨fun op h => ⟨outcome_of_decode h.1.1 (SimdInstruction.decode_of_isReductionOf h) m, fun hhas => ?_⟩,
    fun h => ⟨outcome_of_decode h.1.1 (SimdInstruction.decode_of_isLongSum h) m, fun hhas => ?_⟩⟩
  · obtain ⟨_, hvector⟩ := m.execute_of_isReductionOf h hhas
    have hafter : after = _ := hvector
    rw [hafter, get_scalar _ (by omega)]
    refine ⟨zeroFrom_scalar _, fun ws r m' hlength hrounds hsource => ?_⟩
    have hcount : 2 ^ ws.length = count := by rw [hlength, two_pow_log2_laneCount]
    have hcompletes := m'.completes_rounds h.2.2.2 hhas.1 hrounds hcount.le
    rwa [hcount, hsource] at hcompletes
  · obtain ⟨_, hvector⟩ := m.execute_of_isLongSum h hhas
    have hafter : after = _ := hvector
    rw [hafter, get_scalar _ (by omega)]
    have hpos : 0 < 2 * bits := Nat.mul_pos Nat.two_pos w.laneSize.bits_pos
    exact ⟨zeroFrom_scalar _, value_ofInt_of_holds hpos (holds_sum_laneNumber w m w.rn)⟩

/-- `ADDV B1, V0.8B`, whose sum wraps, beside three rounds of `ADDP`, and `SADDLV H1, V0.8B`, whose sum does not. -/
theorem reductions_agree_with_rounds_wrapped :
    let sum : InstructionWord := 0x0E31B801#32
    let longSum : InstructionWord := 0x0E303801#32
    let rounds : List InstructionWord := [0x0E20BC00#32, 0x0E20BC02#32, 0x0E22BC43#32]
    let m : Machine := withState {} (State.setVector {} 0#5 0x7F7F7F7F7F7F7F7F#128)
    sum.IsReductionOf .sum ∧ sum.HasReduction ∧ sum.IsRounds .sum 0#5 rounds ∧ lastDestination 0#5 rounds = 3#5 ∧
      m.Completes (fun s => get (s.vector 3#5) sum.laneSize.bits 0 = 0xF8#_) rounds ∧
      longSum.IsLongSum ∧ longSum.HasReduction ∧
      value (!longSum.bit 29) (get ((m.execute longSum).2.state.vector longSum.rd) (2 * longSum.laneSize.bits) 0) =
        1016 := by
  intro sum longSum rounds m
  have h : sum.IsReductionOf .sum := by decide
  have hhas : sum.HasReduction := by decide
  have hrounds : sum.IsRounds .sum 0#5 rounds := by decide
  have hlast : lastDestination 0#5 rounds = 3#5 := by decide
  have hlong : longSum.IsLongSum := by decide
  have hhas' : longSum.HasReduction := by decide
  have hresult : get ((m.execute sum).2.state.vector sum.rd) sum.laneSize.bits 0 = 0xF8#_ := by decide +kernel
  obtain ⟨hreductions, _⟩ := reductions_agree_with_rounds m sum
  obtain ⟨_, hsums⟩ := reductions_agree_with_rounds m longSum
  obtain ⟨_, hcompletes⟩ := (hreductions .sum h).2 hhas
  obtain ⟨_, hexact⟩ := (hsums hlong).2 hhas'
  have hagree := hcompletes rounds 0#5 m (by decide) hrounds (by decide +kernel)
  rw [hlast] at hagree
  exact ⟨h, hhas, hrounds, hlast, hresult ▸ hagree, hlong, hhas', hexact.trans (by decide +kernel)⟩

end Machine
end AArch64
