import AArch64.Proofs.Operations
import AArch64.Proofs.StatusWords

/-! The status register over a run. A computation can raise three of the seven status bits and clears none. -/
namespace AArch64

namespace Fpsr

/-- Every flag of the first register is set in the second. -/
instance : LE Fpsr := ⟨fun f g => ∀ i, f.bit i = true → g.bit i = true⟩

variable {f g h : Fpsr}

theorem le_refl (f : Fpsr) : f ≤ f := fun _ hi => hi

theorem le_trans (hfg : f ≤ g) (hgh : g ≤ h) : f ≤ h := fun i hi => hgh i (hfg i hi)

theorem le_raise_left (f g : Fpsr) : f ≤ f.raise g := by
  intro i hi
  rw [bit_raise, hi, Bool.true_or]

theorem le_raise_right (f g : Fpsr) : g ≤ f.raise g := by
  intro i hi
  rw [bit_raise, hi, Bool.or_true]

theorem raise_le (hf : f ≤ h) (hg : g ≤ h) : f.raise g ≤ h := by
  intro i hi
  rw [bit_raise, Bool.or_eq_true] at hi
  exact hi.elim (hf i) (hg i)

theorem none_le (f : Fpsr) : ({} : Fpsr) ≤ f := by
  intro i hi
  unfold bit at hi
  split at hi <;> cases hi

def raisable : Fpsr := { invalidOperation := true, divideByZero := true, saturation := true }

theorem bit_raisable (i : Nat) : raisable.bit i = decide (i ∈ [0, 1, 27]) := by
  unfold bit
  split <;> simp [raisable]
  grind

theorem le_raisable (ho : f.overflow = false) (hu : f.underflow = false) (hi : f.inexact = false)
    (hd : f.inputDenormal = false) : f ≤ raisable := by
  intro i
  unfold bit
  split <;> simp_all [raisable]

end Fpsr

section Raised

open Fpsr

namespace Flagged

variable {α β γ : Type}

theorem pure_bind (x : α) (f : α → Flagged β) : (pure x >>= f) = f x :=
  congrArg (Flagged.mk (f x).value) (f x).raised.none_raise

theorem bind_assoc (x : Flagged α) (f : α → Flagged β) (g : β → Flagged γ) :
    (x >>= f >>= g) = (x >>= fun a => f a >>= g) :=
  congrArg (Flagged.mk _) (x.raised.raise_assoc _ _)

theorem raised_bind_le {x : Flagged α} {k : α → Flagged β} {f : Fpsr} (hx : x.raised ≤ f)
    (hk : (k x.value).raised ≤ f) : (x >>= k).raised ≤ f :=
  raise_le hx hk

theorem raised_invalid_le (x : α) : (invalid x).raised ≤ raisable := le_raisable rfl rfl rfl rfl

end Flagged

open Flagged

theorem Lanes.raised_buildFlagged_le {esize n : Nat} {f : Nat → Flagged (BitVec esize)} {r : Fpsr}
    (h : ∀ i, (f i).raised ≤ r) : (buildFlagged n f).raised ≤ r := by
  induction n with
  | zero => exact none_le r
  | succ n ih => exact raised_bind_le ih (raised_bind_le (h n) (none_le r))

namespace Float

variable {p : Precision}

theorem raised_withNaNs_le (xs : List (Float p)) (r : Option (Float p)) : (withNaNs xs r).raised ≤ raisable := by
  unfold withNaNs
  split
  next n hn =>
    unfold propagate? at hn
    split at hn
    next x _ =>
      cases hn
      exact raised_invalid_le _
    next =>
      obtain ⟨x, _, rfl⟩ := Option.map_eq_some_iff.1 hn
      exact none_le _
  next =>
    split
    · exact none_le _
    · exact raised_invalid_le _

theorem Binary.raised_apply_le (op : Binary) (a b : Float p) : (op.apply a b).raised ≤ raisable := by
  unfold apply
  split
  · exact none_le _
  · exact raise_le (raised_withNaNs_le _ _) (le_raisable rfl rfl rfl rfl)

theorem raised_convert_le (q : Precision) (x : Float p) : (convert q x).raised ≤ raisable := by
  unfold convert
  split
  · exact le_raisable rfl rfl rfl rfl
  · split <;> exact none_le _

theorem raised_toInteger_le (x : Float p) (mode : Rounding) (signed : Bool) (n fbits : Nat) :
    (toInteger x mode signed n fbits).raised ≤ raisable := by
  unfold toInteger
  dsimp only
  repeat' split
  all_goals first
    | exact raised_invalid_le _
    | exact none_le _

theorem raised_compareRaising_le (signalling : Bool) (a b : Float p) :
    (compareRaising signalling a b).raised ≤ raisable :=
  le_raisable rfl rfl rfl rfl

theorem Relation.raised_holdsRaising_le (r : Relation) (a b : Float p) : (r.holdsRaising a b).raised ≤ raisable :=
  le_raisable rfl rfl rfl rfl

end Float

theorem FloatLane.raised_apply_le {p : Precision} (op : FloatLane) (a b acc : Float p) :
    (op.apply a b acc).raised ≤ raisable := by
  cases op with
  | binary op => exact op.raised_apply_le a b
  | multiplyAdd | multiplySub => exact Float.raised_withNaNs_le _ _
  | compare r => exact raised_bind_le (r.raised_holdsRaising_le a b) (none_le _)

theorem FloatUnary.raised_apply_le {p : Precision} (op : FloatUnary) (x : Float p) :
    (op.apply x).raised ≤ raisable := by
  cases op with
  | move | abs | neg | fromInteger => exact none_le _
  | sqrt | round => exact Float.raised_withNaNs_le _ _
  | toInteger mode signed fbits => exact Float.raised_toInteger_le x mode signed p.bits fbits
  | compareZero r => exact raised_bind_le (r.raised_holdsRaising_le x _) (none_le _)

theorem FloatVectorOp.raised_eval_le (op : FloatVectorOp) (v : VectorOperands) : (op.eval v).raised ≤ raisable := by
  cases op with
  | lanes op | byElement op => exact Lanes.raised_buildFlagged_le fun i => op.raised_apply_le _ _ _
  | pairwise op => exact Lanes.raised_buildFlagged_le fun i => op.raised_apply_le _ _
  | unary op => exact Lanes.raised_buildFlagged_le fun i => op.raised_apply_le _
  | convert p q => exact raised_bind_le (Float.raised_convert_le q _) (none_le _)
  | widen upper => exact Lanes.raised_buildFlagged_le fun i => Float.raised_convert_le _ _
  | narrow upper =>
    exact raised_bind_le (Lanes.raised_buildFlagged_le fun i => Float.raised_convert_le _ _) (none_le _)
  | reducePair op p => exact raised_bind_le (op.raised_apply_le _ _) (none_le _)
  | reduceFour op =>
    refine raised_bind_le (op.raised_apply_le _ _) (raised_bind_le (op.raised_apply_le _ _) ?_)
    exact raised_bind_le (op.raised_apply_le _ _) (none_le _)

theorem LaneOp.raised_apply_le {n : Nat} (op : LaneOp) (signed : Bool) (a b acc : BitVec n) :
    (op.apply signed a b acc).raised ≤ raisable := by
  cases op with
  | saturatingAdd | saturatingSub => exact le_raisable rfl rfl rfl rfl
  | _ => exact none_le _

theorem VectorOp.raised_eval_le (op : VectorOp) (v : VectorOperands) : (op.eval v).raised ≤ raisable := by
  cases op with
  | lanes op | pairwise op | byElement op => exact Lanes.raised_buildFlagged_le fun i => op.raised_apply_le _ _ _ _
  | _ => exact none_le _

theorem SimdInstruction.raised_eval_le (i : SimdInstruction) (s : State) : (eval i s).raised ≤ raisable := by
  obtain ⟨rd, rn, rm, op⟩ := i
  cases op with
  | vector op => exact raised_bind_le (op.raised_eval_le _) (none_le _)
  | float op => exact raised_bind_le (op.raised_eval_le _) (none_le _)
  | multiplyAdd => exact raised_bind_le (Float.raised_withNaNs_le _ _) (none_le _)
  | compare => exact raised_bind_le (Float.raised_compareRaising_le _ _ _) (none_le _)
  | conditionalCompare p signalling condition otherwise =>
    simp only [eval]
    split
    · exact raised_bind_le (Float.raised_compareRaising_le _ _ _) (none_le _)
    · exact none_le _
  | toInteger => exact raised_bind_le (Float.raised_toInteger_le _ _ _ _ _) (none_le _)
  | _ => exact none_le _

end Raised

namespace InstructionWord

variable (w : InstructionWord)

def WritesFpsr : Prop := w.number 31 5 = 0x6A8DA21

def WritesNzcv : Prop := w.number 31 5 = 0x6A8DA10

instance : Decidable w.WritesFpsr := inferInstanceAs (Decidable (_ = _))

instance : Decidable w.WritesNzcv := inferInstanceAs (Decidable (_ = _))

variable {w}

theorem toNat_of_ofNumber?_fpsr {n : BitVec 16} (h : SystemRegister.ofNumber? n = some .fpsr) : n.toNat = 0xDA21 := by
  unfold SystemRegister.ofNumber? at h
  repeat' split at h
  all_goals cases h
  next hn =>
    rw [hn]
    rfl

theorem writesFpsr_of_writesSystem (hgroup : w.number 28 26 = 0b101) (h : w.writesSystem .fpsr = true) :
    w.WritesFpsr := by
  simp only [writesSystem, isSystemMove, isSystem, Bool.and_eq_true, beq_iff_eq, KeyTable.key_control] at h
  obtain ⟨⟨⟨⟨⟨h31, h25⟩, h23⟩, _⟩, h21⟩, hnumber⟩ := h
  have h20 : w.number 20 5 = 0xDA21 := toNat_of_ofNumber?_fpsr hnumber
  simp only [WritesFpsr, number_eq, bit_eq_false] at hgroup h31 h25 h23 h21 h20 ⊢
  omega

/-- Of the system instructions only `MSR FPSR` owns the status register, and no group but that of the vectors does. -/
theorem fpsr_footprint (hsimd : w.number 27 25 ≠ 0b111) (hw : ¬w.WritesFpsr) : w.footprint.fpsr = false := by
  have htop := KeyTable.key_topLevel w
  have hkey : KeyTable.topLevel.key w < 16 ∧ KeyTable.topLevel.key w ≠ 7 ∧ KeyTable.topLevel.key w ≠ 15 := by
    simp only [number_eq] at hsimd htop
    omega
  have hcontrol (hgroup : w.number 28 26 = 0b101) : w.controlFootprint.fpsr = false :=
    eq_false_of_ne_true fun h => hw (writesFpsr_of_writesSystem hgroup h)
  unfold footprint
  split
  case h_13 h | h_14 h =>
    refine hcontrol ?_
    simp only [number_eq] at h htop ⊢
    omega
  case h_15 =>
    simp only [imp_false] at *
    omega
  all_goals rfl

end InstructionWord

theorem SimdResult.fpsr_apply (r : SimdResult) (rd : Register) (s : State) : (r.apply rd s).fpsr = s.fpsr := by
  cases r <;> rfl

theorem SimdInstruction.fpsr_execute (i : SimdInstruction) (s : State) :
    (i.execute s).fpsr = s.fpsr.raise (eval i s).raised :=
  (eval i s).value.fpsr_apply i.rd _

namespace Machine

open InstructionWord

variable {w : InstructionWord}

theorem fpsr_execute (m : Machine) (hw : ¬w.WritesFpsr) :
    ∃ r ≤ Fpsr.raisable, (m.execute w).2.state.fpsr = m.state.fpsr.raise r := by
  by_cases hsimd : w.number 27 25 = 0b111
  · cases hd : Instruction.decode w with
    | error e =>
      rw [m.execute_of_decode_error hd]
      exact ⟨{}, Fpsr.none_le _, (Fpsr.raise_none _).symm⟩
    | ok i =>
      obtain ⟨j, _, rfl⟩ := Instruction.exists_simd_of_decode hsimd hd
      have hcore := m.core_execute hd
      refine ⟨_, j.raised_eval_le m.state, ?_⟩
      rw [← j.fpsr_execute]
      exact congrArg (fun c => c.state.fpsr) hcore
  · have hkept := (m.agree_footprint w).core.state.fpsr (fpsr_footprint hsimd hw)
    exact ⟨{}, Fpsr.none_le _, by rw [Fpsr.raise_none]; exact hkept⟩

/-- `MSR` of a system register that can be written, by the sixteen bits of its number. -/
theorem state_execute_of_writesSystem {n : BitVec 16} {r : SystemRegister} (m : Machine)
    (hw : w.number 31 5 = 0x6A80000 + n.toNat) (hn : 0xC000 ≤ n.toNat) (hr : SystemRegister.ofNumber? n = some r)
    (hwrite : r.isReadOnly = false) : (m.execute w).2.state = r.write (m.state.read 64 w.rd) m.state := by
  have hlt : n.toNat < 2 ^ 16 := n.isLt
  have hfields : w.number 31 24 = 0b11010101 ∧ w.number 23 22 = 0 ∧ w.number 20 19 = 3 ∧ w.bit 21 = false ∧
      w.number 20 5 = n.toNat := by
    simp only [number_eq, bit_eq_false] at hw ⊢
    omega
  obtain ⟨h31, h23, h20, h21, h5⟩ := hfields
  have hnumber : w.extractLsb 20 5 = n := BitVec.eq_of_toNat_eq h5
  have hd : Instruction.decode w = .ok (.control (.writeSystem w.rd r)) := by
    rw [Instruction.decode_of_system h31]
    simp [ControlOp.decodeSystem, ControlOp.decodeSystemMove, h23, h20, h21, hnumber, hr, hwrite, Except.map]
  exact congrArg Core.state (m.core_execute hd)

end Machine
end AArch64
