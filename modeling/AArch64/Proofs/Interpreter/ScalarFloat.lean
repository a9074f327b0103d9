import AArch64.Interpreter.ScalarFloat
import AArch64.Proofs.Decoding.Float
import AArch64.Proofs.Interpreter.Simd

/-! The executors of the scalar floating-point instructions carry out the decoded instructions. -/
namespace AArch64

open Masked SimdInstruction Lanes

/-- A vector of one lane is a scalar. -/
theorem Lanes.buildFlagged_one {esize : Nat} (f : Nat → Flagged (BitVec esize)) :
    (buildFlagged 1 f >>= fun v => pure (SimdResult.vector v)) = f 0 >>= fun x => pure (.vector (scalar x)) := by
  have hbuild : buildFlagged 1 f = { value := set 0#128 0 (f 0).value, raised := Fpsr.raise {} ((f 0).raised.raise {}) } :=
    rfl
  rw [hbuild, set_zero, Fpsr.none_raise, Fpsr.raise_none]
  rfl

theorem Lanes.bind_scalar {n : Nat} (r : Flagged (BitVec n)) :
    (r >>= fun x => pure (scalar x)) >>= (fun v => pure (SimdResult.vector v)) =
      r >>= fun x => pure (SimdResult.vector (scalar x)) :=
  congrArg (Flagged.mk _) (Fpsr.raise_none _)

namespace Attempt

variable {m : Machine} {w : InstructionWord} {p : Precision}

theorem readScalar_raw (r : Register) :
    readScalar p r.toNat m.raw = some (.ok (SimdInstruction.scalar m.state p r), m.raw) := by
  have hlane : (0 + 1) * p.bits ≤ 128 := by cases p <;> decide
  exact bind_raw (readV_raw r) (checked_raw (FloatVectorOp.lane?_eq _ hlane))

theorem writeScalar_raw {n : Nat} (x : BitVec n) (hn : n ≤ 128) :
    writeScalar w x m.raw = some (.ok .ready, (m.withState (m.state.setVector w.rd (Lanes.scalar x))).raw) :=
  bind_raw (checked_raw (scalar?_eq x hn)) (writeVector_raw _)

def typeField : Precision → Nat
  | .single => 0 | .double => 1

theorem Performs.withPrecision {f : Precision → Except DecodeError SimdInstruction} {g : Precision → Attempt Completion}
    (h : ∀ p, w.number 23 22 = typeField p → Performs m w (f p) (g p)) :
    Performs m w (SimdInstruction.withPrecision w f) (Attempt.withPrecision w g) := by
  rw [SimdInstruction.withPrecision, Attempt.withPrecision]
  generalize w.number 23 22 = type at h
  split
  · exact h .single rfl
  · exact h .double rfl
  · exact .notYetImplemented
  · (try split) <;> first | contradiction | exact .unallocated

section Instructions

variable {i : SimdInstruction}

theorem Performs.scalar {n : Nat} {x : BitVec n} (hn : n ≤ 128)
    (heval : i.eval m.state = pure (.vector (Lanes.scalar x))) : Performs m w (.ok i) (writeScalar w x) :=
  .read (checked_raw (scalar?_eq x hn)) (.written heval)

theorem Performs.writesFloat {x : Option (Flagged (Float p))} {r : Flagged (Float p)} (hx : x = some r)
    (heval : i.eval m.state = r >>= fun v => pure (.vector (Lanes.scalar v))) :
    Performs m w (.ok i) (writeFloat w x) := by
  intro hd
  have hfits : FitsWord w i := hd i rfl
  refine ends heval ?_ hd
  rw [hfits.rd]
  refine bind_raw (flagged_raw hx) ((writeScalar_raw _ p.bits_le_vector).trans ?_)
  simp [SimdResult.apply]

theorem Performs.general_flagged {n : Nat} {x : Option (Flagged (BitVec n))} {r : Flagged (BitVec n)} (hx : x = some r)
    (heval : i.eval m.state = r >>= fun v => pure (.general v)) :
    Performs m w (.ok i) (do
      let v ← flagged x
      writeX w.rd.toNat v
      pure .ready) := by
  intro hd
  have hfits : FitsWord w i := hd i rfl
  refine ends heval ?_ hd
  rw [hfits.rd]
  refine bind_raw (flagged_raw hx) (bind_raw (writeX_raw _ _ _) ?_)
  simp [SimdResult.apply]

theorem Performs.setsFlags {f : Nzcv} (heval : i.eval m.state = pure (.flags f)) :
    Performs m w (.ok i) (setFlags f.word >>= fun _ => pure .ready) := by
  refine .ends heval (bind_raw (setFlags_raw f) ?_)
  rw [Flagged.raised_pure, State.raise_none]
  rfl

theorem compareScalars_eq {signalling : Bool} {a b : Float p}
    (heval : i.eval m.state = Float.compareRaising signalling a b >>= fun f => pure (.flags f)) :
    Performs m w (.ok i) (compareScalars signalling a b) := by
  refine .ends heval ?_
  refine bind_raw (flagged_raw (Float.compareRaising?_eq signalling a b)) (bind_raw (setFlags_raw _) ?_)
  simp [SimdResult.apply]
  rfl

end Instructions

/-- The source is read once more where its precision changes. -/
theorem floatOneSource_eq (htype : w.number 23 22 = typeField p) : Performs m w (decodeFloatOneSource w p) (floatOneSource w p) := by
  refine .read (readScalar_raw _) ?_
  have hresult (op : FloatUnary) : Performs m w (usualFloat w (.unary op p 1))
      (writeFloat w (op.result? (SimdInstruction.scalar m.state p w.rn))) :=
    .writesFloat (op.result?_eq _) (buildFlagged_one _)
  have hfive (h : w.number 20 15 = 5) : w.bit 15 = true := w.bit_of_number h (i := 0) (by decide)
  have hfour (h : w.number 20 15 = 4) : w.bit 15 = false := w.bit_of_number h (i := 0) (by decide)
  rw [decodeFloatOneSource]
  generalize hopcode : w.number 20 15 = opcode
  dsimp only
  split
  · exact hresult .move
  · exact hresult .abs
  · exact hresult .neg
  · exact hresult .sqrt
  · dsimp only [convertPrecision]
    rw [htype, hfour hopcode]
    cases p with
    | single => exact .unallocated
    | double => exact .read (readScalar_raw _) (.writesFloat (Float.convert?_eq _ _) (bind_scalar _))
  · dsimp only [convertPrecision]
    rw [htype, hfive hopcode]
    cases p with
    | single => exact .read (readScalar_raw _) (.writesFloat (Float.convert?_eq _ _) (bind_scalar _))
    | double => exact .unallocated
  · exact .notYetImplemented
  · exact hresult (.round .tiesEven)
  · exact hresult (.round .plusInfinity)
  · exact hresult (.round .minusInfinity)
  · exact hresult (.round .zero)
  · exact hresult (.round .tiesAway)
  · exact .notYetImplemented
  · exact .notYetImplemented
  · exact .notYetImplemented
  · exact .notYetImplemented
  · exact .notYetImplemented
  · exact .notYetImplemented
  · (try split) <;> first | contradiction | exact .unallocated

theorem floatTwoSource_eq (p : Precision) : Performs m w (decodeFloatTwoSource w p) (floatTwoSource w p) := by
  have hresult (op : Float.Binary) : Performs m w (usualFloat w (.lanes (.binary op) p 1)) (do
      let a ← readScalar p w.rn.toNat
      let b ← readScalar p w.rm.toNat
      writeFloat w (op.result? a b)) :=
    .read (readScalar_raw _) <| .read (readScalar_raw _) <|
      .writesFloat (op.result?_eq _ _) (buildFlagged_one _)
  rw [decodeFloatTwoSource, floatTwoSource]
  generalize w.number 15 12 = opcode
  split
  · exact hresult .mul
  · exact hresult .div
  · exact hresult .add
  · exact hresult .sub
  · exact hresult .max
  · exact hresult .min
  · exact hresult .maxNumber
  · exact hresult .minNumber
  · exact hresult .negatedMul
  · (try split) <;> first | contradiction | exact .unallocated

theorem floatCompare_eq (p : Precision) : Performs m w (decodeFloatCompare w p) (floatCompare w p) := by
  refine .unallocatedIf fun _ => .read (readScalar_raw _) ?_
  cases hzero : w.bit 3 with
  | true =>
    refine .read (pure_apply _ _) (compareScalars_eq ?_)
    rfl
  | false => exact .read (readScalar_raw _) (compareScalars_eq rfl)

theorem floatImmediate_eq (p : Precision) : Performs m w (decodeFloatImmediate w p) (floatImmediate w p) :=
  .unallocatedIf fun _ => .read (checked_raw (Float.ofImmediate?_eq _ _)) <|
    .scalar p.bits_le_vector rfl

theorem floatConditionalCompare_eq (p : Precision) :
    Performs m w (decodeFloatConditionalCompare w p) (floatConditionalCompare w p) := by
  refine .read (holds_raw _) ?_
  cases hcondition : (Condition.ofCode (w.extractLsb 15 12)).holds m.state.nzcv with
  | true =>
    refine .read (readScalar_raw _) <| .read (readScalar_raw _) (compareScalars_eq ?_)
    simp only [eval, hcondition, if_true]
  | false =>
    rw [NzcvWord.ofNibble_eq_word]
    refine .setsFlags ?_
    simp only [eval, hcondition, Bool.false_eq_true, if_false]

theorem floatSelect_eq (p : Precision) : Performs m w (decodeFloatSelect w p) (floatSelect w p) := by
  refine .read (holds_raw _) <| .read (readScalar_raw _) <| .scalar p.bits_le_vector rfl

theorem floatToInteger_eq (p : Precision) (mode : Rounding) (signed : Bool) (fbits : Nat) :
    Performs m w (usual w (.toInteger p mode signed w.width fbits)) (floatToInteger w p mode signed fbits) :=
  .read (readScalar_raw _) (.general_flagged (Float.toInteger?_eq _ _ _ _ (Width.bits_pos _) (Width.bits_le _)) rfl)

theorem integerToFloat_eq (p : Precision) (signed : Bool) (fbits : Nat) :
    Performs m w (usual w (.fromInteger p signed w.width fbits)) (integerToFloat w p signed fbits) :=
  .read (readX_raw _ _ _) <|
    .read (checked_raw (Float.ofInteger?_eq p signed _ fbits (Width.bits_pos _) (Width.bits_le _))) <|
    .scalar p.bits_le_vector (by simp only [eval, State.setWidth_read])

theorem fusedMultiplyAdd_eq (p : Precision) :
    Performs m w (usual w (.multiplyAdd p (w.bit 15 != w.bit 21) (w.bit 21) w.ra)) (fusedMultiplyAdd w p) :=
  .read (readScalar_raw _) <| .read (readScalar_raw _) <| .read (readScalar_raw _) <|
    .writesFloat (Float.multiplyAdd?_eq _ _ _) rfl

theorem floatThreeSource_eq : Performs m w (decodeFusedMultiplyAdd w) (floatThreeSource w) :=
  .unallocatedIf fun _ => .withPrecision fun p _ => fusedMultiplyAdd_eq p

theorem moveGeneral_eq_general : Performs m w
    (usual w (.toGeneral false (if w.bit 31 then .double else .word) 0 w.width)) (moveGeneral w true) := by
  refine .read (readV_raw _) <| .read (checked_raw (get?_eq _ (by decide))) (.general ?_)
  have hmasked {n : Nat} (hn : n ≤ 64) (v : BitVec 128) :
      (Lanes.get v 64 0 &&& ones n).setWidth n = (Lanes.get v n 0).setWidth n := by
    rw [Lane.and_ones_eq, Lane.setWidth_setWidth hn, get_zero, get_zero, BitVec.setWidth_setWidth_of_le _ hn,
      BitVec.setWidth_eq]
  rw [hmasked (Width.bits_le _), InstructionWord.width]
  cases w.bit 31 <;> rfl

theorem moveGeneral_eq_scalar : Performs m w (usual w (.scalarFromGeneral w.width)) (moveGeneral w false) :=
  .read (readX_raw _ _ _) (.scalar (Nat.le_trans (Width.bits_le _) (by decide)) rfl)

theorem moveUpperHalf_eq_general (h : w.bit 31 = true) :
    Performs m w (usual w (.toGeneral false .double 1 w.width)) (moveUpperHalf w true) := by
  have hwidth : w.width = .w64 := congrArg Width.ofBit h
  rw [hwidth]
  exact .read (readV_raw _) <| .read (checked_raw (get?_eq _ (by decide))) (.general rfl)

theorem moveUpperHalf_eq_insert : Performs m w (usual w (.insertGeneral .double 1)) (moveUpperHalf w false) :=
  .read (readX_raw _ _ _) (insertLane_eq (by decide) rfl)

/-- One move after the other instead of both at once. -/
theorem moveGeneral_split (opcode : Nat) (plain : Bool) (rest : Attempt Completion) :
    (if (opcode == 6 || opcode == 7) && plain then moveGeneral w (opcode == 6) else rest) =
      if opcode == 6 && plain then moveGeneral w true
      else if opcode == 7 && plain then moveGeneral w false
      else rest := by
  by_cases h6 : opcode = 6
  · subst h6
    cases plain <;> rfl
  by_cases h7 : opcode = 7
  · subst h7
    cases plain <;> rfl
  · simp [h6, h7]

theorem floatIntegerConversion_eq : Performs m w (decodeFloatInteger w) (floatIntegerConversion w) := by
  have hopcode : w.number 18 16 < 8 := w.number_lt 18 16
  unfold decodeFloatInteger floatIntegerConversion
  dsimp only
  rw [moveGeneral_split]
  refine .ite (fun _ => moveGeneral_eq_general) fun _ => .ite (fun _ => moveGeneral_eq_scalar) fun _ =>
    .ite (fun h => moveUpperHalf_eq_general ?_) fun _ => .ite (fun _ => moveUpperHalf_eq_insert) fun _ =>
    .ite (fun _ => .notYetImplemented) fun _ => .ite (fun _ => .notYetImplemented) fun _ =>
    .ite (fun _ => .unallocated) fun _ => ?_
  · simp only [Bool.and_eq_true] at h
    exact h.2.2
  generalize w.number 18 16 = opcode at hopcode
  generalize (w.number 20 19 == 0) = plain
  match opcode with
  | 0 | 1 => exact floatToInteger_eq _ _ _ _
  | 2 | 3 => exact .ite (fun _ => integerToFloat_eq _ _ _) fun _ => .unallocated
  | 4 | 5 => exact .ite (fun _ => floatToInteger_eq _ _ _ _) fun _ => .unallocated
  | 6 | 7 => exact .unallocated
  | _ + 8 => exact absurd hopcode (by omega)

theorem typeGuarded_eq {f : Precision → Except DecodeError SimdInstruction} {g : Precision → Attempt Completion}
    (h : ∀ p, Performs m w (f p) (g p)) :
    Performs m w (SimdInstruction.withPrecision w f) (do
      notYetImplementedIf (w.number 23 22 == 3)
      Attempt.unallocatedIf (w.number 23 22 == 2)
      g (if w.number 23 22 == 1 then .double else .single)) := by
  have htype : w.number 23 22 < 4 := w.number_lt 23 22
  rw [SimdInstruction.withPrecision]
  generalize w.number 23 22 = type at htype
  obtain rfl | rfl | rfl | rfl : type = 0 ∨ type = 1 ∨ type = 2 ∨ type = 3 := by omega
  · exact .read (pure_apply _ _) <| .read (pure_apply _ _) (h .single)
  · exact .read (pure_apply _ _) <| .read (pure_apply _ _) (h .double)
  · exact .unallocated
  · exact .notYetImplemented

theorem floatFixedConversion_eq : Performs m w (decodeFloatFixed w) (floatFixedConversion w) := by
  have hscale : w.number 15 10 < 64 := w.number_lt 15 10
  refine .unallocatedIf fun _ => .read (checked_raw (sub?_eq (Nat.le_of_lt hscale))) <|
    typeGuarded_eq (g := fun p => fixedConversion w p _) fun p => ?_
  unfold fixedConversion
  generalize w.number 20 16 = opcode
  split
  · exact integerToFloat_eq _ _ _
  · exact integerToFloat_eq _ _ _
  · exact floatToInteger_eq _ _ _ _
  · exact floatToInteger_eq _ _ _ _
  · (try split) <;> first | contradiction | exact .unallocated

theorem floatDataProcessing_eq : Performs m w (decodeFloat w) (floatDataProcessing w) := by
  refine .unallocatedIf fun _ => .ite (fun _ => floatFixedConversion_eq) fun _ =>
    .ite (fun _ => floatIntegerConversion_eq) fun _ => .unallocatedIf fun _ => ?_
  generalize w.number 11 10 = form
  split
  · exact .ite (fun _ => .withPrecision fun _ => floatOneSource_eq) fun _ =>
      .ite (fun _ => .withPrecision fun p _ => floatCompare_eq p) fun _ =>
      .ite (fun _ => .withPrecision fun p _ => floatImmediate_eq p) fun _ => .unallocated
  · exact .withPrecision fun p _ => floatConditionalCompare_eq p
  · exact .withPrecision fun p _ => floatTwoSource_eq p
  · (try split) <;> first | contradiction | exact .withPrecision fun p _ => floatSelect_eq p

theorem simdAndFloat_eq : CarriesOut m .simd (SimdInstruction.decode w) (simdAndFloat w) := by
  refine (show Performs m w (SimdInstruction.decode w) (simdAndFloat w) from ?_) (yields_decode w)
  have hkey : KeyTable.simdAndFloat.key w < 8 := KeyTable.key_lt_entries _ w
  unfold SimdInstruction.decode simdAndFloat dispatch
  generalize KeyTable.simdAndFloat.key w = key at hkey
  match key with
  | 0 | 2 => exact simdVector_eq
  | 1 | 3 => exact simdVectorImmediate_eq
  | 4 => exact floatDataProcessing_eq
  | 5 => exact floatThreeSource_eq
  | 6 => exact simdScalar_eq
  | 7 => exact simdScalarImmediate_eq
  | _ + 8 => exact absurd hkey (by omega)

end Attempt
end AArch64
