import AArch64.Proofs.Vectors.ThreeSame

/-! Saturating additions and subtractions. Each lane that the word works on receives the nearest number it can hold to the
exact result, and the saturation flag records whether this was another number in one of these lanes. -/
namespace AArch64

namespace Lane

variable {n : Nat} {signed : Bool} {x : Int}

theorem value_ofInt (hn : 0 < n) (hleast : least signed n ≤ x) (hgreatest : x ≤ greatest signed n) :
    value signed (BitVec.ofInt n x) = x := by
  cases signed with
  | false =>
    replace hleast : 0 ≤ x := hleast
    replace hgreatest : x ≤ 2 ^ n - 1 := hgreatest
    have hmod : x % ((2 ^ n : Nat) : Int) = x := by
      push_cast
      exact Int.emod_eq_of_lt hleast (by omega)
    simp only [value, Bool.false_eq_true, if_false, BitVec.toNat_ofInt, hmod, Int.toNat_of_nonneg hleast]
  | true =>
    replace hleast : -(2 ^ (n - 1)) ≤ x := hleast
    replace hgreatest : x ≤ 2 ^ (n - 1) - 1 := hgreatest
    exact BitVec.toInt_ofInt_eq_self hn hleast (by omega)

theorem least_le_value (v : BitVec n) : least signed n ≤ value signed v := by
  cases signed with
  | false => exact Int.natCast_nonneg v.toNat
  | true => exact v.le_toInt

theorem value_le_greatest (v : BitVec n) : value signed v ≤ greatest signed n := by
  cases signed with
  | false =>
    have hlt : (v.toNat : Int) < 2 ^ n := by exact_mod_cast v.isLt
    exact Int.le_sub_one_of_lt hlt
  | true => exact Int.le_sub_one_of_lt v.toInt_lt

/-- The bounds are those of the numbers that a lane can hold, which are all numbers between them. -/
theorem exists_value_eq_iff (hn : 0 < n) :
    (∃ v : BitVec n, value signed v = x) ↔ least signed n ≤ x ∧ x ≤ greatest signed n := by
  constructor
  · rintro ⟨v, rfl⟩
    exact ⟨least_le_value v, value_le_greatest v⟩
  · rintro ⟨hleast, hgreatest⟩
    exact ⟨BitVec.ofInt n x, value_ofInt hn hleast hgreatest⟩

theorem value_saturate (hn : 0 < n) (x : Int) :
    value signed (saturate signed n x).value = max (least signed n) (min (greatest signed n) x) := by
  have hbounds : least signed n ≤ greatest signed n :=
    Int.le_trans (least_le_value 0#n) (value_le_greatest 0#n)
  rw [Int.min_comm]
  exact value_ofInt hn (Int.le_max_left _ _) (Int.max_le.2 ⟨hbounds, Int.min_le_right _ _⟩)

end Lane

/-- The opcodes of the saturating addition and subtraction. -/
def InstructionWord.IsSaturating (w : InstructionWord) : Prop := w.number 15 11 = 1 ∨ w.number 15 11 = 5

instance (w : InstructionWord) : Decidable w.IsSaturating := inferInstanceAs (Decidable (_ ∨ _))

/-- The sum of the numbers in lane `i` of the sources, or their difference if the opcode is that of the subtraction. -/
def State.exactResult (s : State) (w : InstructionWord) (i : Nat) : Int :=
  let x := s.laneNumber w w.rn i
  let y := s.laneNumber w w.rm i
  if w.number 15 11 = 5 then x - y else x + y

namespace SimdInstruction

open InstructionWord

variable {w : InstructionWord} {scalar : Bool}

/-- In contrast to the other operations the saturating ones have a scalar form for every lane size. -/
theorem decode_saturating (h : w.IsThreeSame scalar) (hsat : w.IsSaturating) :
    ∃ op : LaneOp,
      decode w =
          (if w.HasLanes w.laneSize scalar then
            usualVector w (.lanes op (!w.bit 29) { size := w.laneSize, elements := w.laneCount w.laneSize scalar })
          else .error .unallocated) ∧
        ∀ (s : State) (i : Nat) (acc : BitVec w.laneSize.bits),
          op.apply (!w.bit 29) (Lanes.get (s.vector w.rn) w.laneSize.bits i)
            (Lanes.get (s.vector w.rm) w.laneSize.bits i) acc =
              Lane.saturate (!w.bit 29) w.laneSize.bits (s.exactResult w i) := by
  obtain hadd | hsub := hsat
  · refine ⟨.saturatingAdd, ?_, fun s i acc => ?_⟩
    · rw [decode_lanes h (by omega) (by rw [hadd]; rfl)]
      simp [Suits, LaneOp.hasWideForm]
    · simp only [State.exactResult, hadd]
      rfl
  · refine ⟨.saturatingSub, ?_, fun s i acc => ?_⟩
    · rw [decode_lanes h (by omega) (by rw [hsub]; rfl)]
      simp [Suits, LaneOp.hasWideForm]
    · simp only [State.exactResult, hsub]
      rfl

end SimdInstruction

namespace Machine

open InstructionWord Lane Lanes

variable {w : InstructionWord} {scalar : Bool}

/-- Other lanes than those of the word are not visited, so they cannot raise the flag. -/
theorem saturation_execute_iff (h : w.IsThreeSame scalar) (hsat : w.IsSaturating) (hlanes : w.HasLanes w.laneSize scalar)
    (m : Machine) :
    (m.execute w).2.state.fpsr.saturation = true ↔
      m.state.fpsr.saturation = true ∨
        ∃ i < w.laneCount w.laneSize scalar, m.state.exactResult w i < least (!w.bit 29) w.laneSize.bits ∨
          greatest (!w.bit 29) w.laneSize.bits < m.state.exactResult w i := by
  obtain ⟨op, hdecode, hlane⟩ := SimdInstruction.decode_saturating h hsat
  rw [if_pos hlanes] at hdecode
  obtain ⟨_, _, hfpsr⟩ := m.execute_usualVector (group_of_threeSame h) hdecode
  rw [hfpsr]
  simp only [Fpsr.raise, Bool.or_eq_true]
  refine or_congr_right ((bit_raised_buildFlagged _ _ 27).trans (exists_congr fun i => and_congr_right fun _ => ?_))
  have hraised := hlane m.state i (get (m.state.vector w.rd) w.laneSize.bits i)
  exact (iff_of_eq (congrArg (·.raised.saturation = true) hraised)).trans decide_eq_true_iff

/-- The saturating additions and subtractions, of vectors and of scalars. A word either has no instruction or completes
on every machine. Then each lane that it works on holds the exact result brought between the bounds of the lane, the
rest of the destination is zero, and the saturation flag is set if it was or if one of these results was out of bounds.
The other lanes of the sources have no influence on the flag. -/
theorem saturating_lanes_exact (h : w.IsThreeSame scalar) (hsat : w.IsSaturating) (m : Machine) :
    let bits := w.laneSize.bits
    let count := w.laneCount w.laneSize scalar
    let low := least (!w.bit 29) bits
    let high := greatest (!w.bit 29) bits
    let after (m : Machine) := (m.execute w).2.state
    (m.execute w).1 = (if w.HasLanes w.laneSize scalar then .ok .ready else .error .unallocatedInstruction) ∧
      (w.HasLanes w.laneSize scalar →
        (∀ i < count, (after m).laneNumber w w.rd i = max low (min high (m.state.exactResult w i))) ∧
          ZeroFrom (count * bits) ((after m).vector w.rd) ∧
          ((after m).fpsr.saturation = true ↔
            m.state.fpsr.saturation = true ∨
              ∃ i < count, m.state.exactResult w i < low ∨ high < m.state.exactResult w i) ∧
          ∀ m' : Machine, m'.state.fpsr.saturation = m.state.fpsr.saturation →
            (∀ i < count, ∀ r ∈ [w.rn, w.rm], get (m'.state.vector r) bits i = get (m.state.vector r) bits i) →
              (after m').fpsr.saturation = (after m).fpsr.saturation) := by
  intro bits count low high after
  have hgroup := group_of_threeSame h
  obtain ⟨op, hdecode, hlane⟩ := SimdInstruction.decode_saturating h hsat
  by_cases hlanes : w.HasLanes w.laneSize scalar
  · rw [if_pos hlanes] at hdecode ⊢
    obtain ⟨houtcome, hvector, _⟩ := m.execute_usualVector hgroup hdecode
    refine ⟨houtcome, fun _ => ⟨fun i hi => ?_, ?_, m.saturation_execute_iff h hsat hlanes, fun m' hflag hsame => ?_⟩⟩
    · rw [← value_saturate w.laneSize.bits_pos, ← hlane m.state i, State.laneNumber,
        m.get_execute_lanes hgroup hdecode hi (lane_fits hi)]
    · rw [show (after m).vector w.rd = _ from hvector]
      exact zeroFrom_buildFlagged _ _
    · have hexact (i : Nat) (hi : i < count) : m'.state.exactResult w i = m.state.exactResult w i := by
        simp only [State.exactResult, State.laneNumber]
        rw [hsame i hi w.rn (by simp), hsame i hi w.rm (by simp)]
      rw [Bool.eq_iff_iff, m'.saturation_execute_iff h hsat hlanes, m.saturation_execute_iff h hsat hlanes, hflag]
      refine or_congr_right (exists_congr fun i => and_congr_right fun hi => ?_)
      rw [hexact i hi]
  · rw [if_neg hlanes] at hdecode
    rw [m.execute_of_simd_error hgroup hdecode, if_neg hlanes]
    exact ⟨rfl, fun h => absurd h hlanes⟩

/-- `SQADD V2.8B, V0.8B, V1.8B` on `127` and `1` in the first lanes. -/
theorem saturating_lanes_exact_sum :
    let w : InstructionWord := 0x0E210C02#32
    let m : Machine := withState {} (State.setVector (State.setVector {} 0#5 0x7F#128) 1#5 0x01#128)
    w.IsThreeSame false ∧ w.IsSaturating ∧ (m.execute w).1 = .ok .ready ∧
      (m.execute w).2.state.laneNumber w w.rd 0 = 127 ∧ (m.execute w).2.state.fpsr.saturation = true := by
  intro w m
  have h : w.IsThreeSame false := by decide
  have hsat : w.IsSaturating := by decide
  have hlanes : w.HasLanes w.laneSize false := by decide
  have hbeyond : greatest (!w.bit 29) w.laneSize.bits < m.state.exactResult w 0 := by decide +kernel
  obtain ⟨houtcome, hresult⟩ := saturating_lanes_exact h hsat m
  obtain ⟨hlane, _, hflag, _⟩ := hresult hlanes
  exact ⟨h, hsat, houtcome.trans (if_pos hlanes), (hlane 0 (by decide)).trans (by decide +kernel),
    hflag.2 (.inr ⟨0, by decide, .inr hbeyond⟩)⟩

end Machine
end AArch64
