import AArch64.Interpreter.Simd
import AArch64.Proofs.Decoding.Simd
import AArch64.Proofs.Interpreter.Float
import AArch64.Proofs.Interpreter.Attempt
import AArch64.Proofs.Vectors.TableLookup

/-! The executors of the vector forms, and of the scalar forms that share their operations, carry out the decoded
instructions. -/
namespace AArch64

open Masked SimdInstruction Lanes

theorem State.raise_none (s : State) : s.raise {} = s := by
  rw [raise, Fpsr.raise_none]

namespace Attempt

variable {α : Type} {m : Machine} {w : InstructionWord}

theorem readSource_raw : readSource w m.raw = some (.ok { n := m.state.vector w.rn, m := 0#128, d := 0#128 }, m.raw) := by
  simp [readSource]

theorem readSources_raw :
    readSources w m.raw = some (.ok { n := m.state.vector w.rn, m := m.state.vector w.rm, d := 0#128 }, m.raw) := by
  simp [readSources]

theorem readOperands_raw :
    readOperands w m.raw =
      some (.ok { n := m.state.vector w.rn, m := m.state.vector w.rm, d := m.state.vector w.rd }, m.raw) := by
  simp [readOperands]

theorem readAccumulated_raw :
    readAccumulated w m.raw = some (.ok { n := m.state.vector w.rn, m := 0#128, d := m.state.vector w.rd }, m.raw) := by
  simp [readAccumulated]

theorem readShifted_raw :
    readShifted w m.raw = some (.ok { n := m.state.vector w.rn, m := 0#128, d := m.state.vector w.rd }, m.raw) := by
  simp [readShifted]

theorem readNarrowed_raw (upper : Bool) :
    readNarrowed w upper m.raw =
      some (.ok { n := m.state.vector w.rn, m := 0#128, d := if upper then m.state.vector w.rd else 0#128 }, m.raw) := by
  cases upper <;> simp [readNarrowed]

theorem writeVector_raw (x : BitVec 128) :
    writeVector w x m.raw = some (.ok .ready, (m.withState (m.state.setVector w.rd x)).raw) := by
  simp [writeVector]

theorem flagged_raw {x : Option (Flagged α)} {r : Flagged α} (h : x = some r) :
    flagged x m.raw = some (.ok r.value, (m.withState (m.state.raise r.raised)).raw) := by
  rw [h, flagged]
  simp

theorem writeResult_raw {x : Option (Flagged (BitVec 128))} {r : Flagged (BitVec 128)} (h : x = some r) :
    writeResult w x m.raw = some (.ok .ready, (m.withState ((m.state.raise r.raised).setVector w.rd r.value)).raw) :=
  bind_raw (flagged_raw h) (writeVector_raw _)

/-- Lanes and shifts in range, the executor carries out what the word decodes to. -/
def Performs (m : Machine) (w : InstructionWord) (d : Except DecodeError SimdInstruction) (x : Attempt Completion) :
    Prop :=
  Yields d (FitsWord w) → CarriesOut m .simd d x

namespace Performs

variable {d d' : Except DecodeError SimdInstruction} {c : Bool} {x y : Attempt Completion} {a : Attempt α}
  {f : α → Attempt Completion} {v : α}

theorem unallocated : Performs m w (.error .unallocated) unallocated := fun _ => rfl

theorem notYetImplemented : Performs m w (.error .notYetImplemented) notYetImplemented := fun _ => rfl

theorem error (e : DecodeError) : Performs m w (.error e) (Attempt.decoded (.error e) >>= f) := fun _ => rfl

theorem error_ite {p : Prop} [Decidable p] {e e' : DecodeError} (hx : Performs m w (.error e) x)
    (hy : Performs m w (.error e') y) : Performs m w (.error (if p then e else e')) (if p then x else y) := by
  split
  · exact hx
  · exact hy

theorem unallocatedIf (h : c = false → Performs m w d x) :
    Performs m w (if c then .error .unallocated else d) (Attempt.unallocatedIf c >>= fun _ => x) := by
  cases c with
  | true => exact unallocated
  | false => exact h rfl

theorem unallocatedIf_or {c' : Bool} (h : c = false → c' = false → Performs m w d x) :
    Performs m w (if c then .error .unallocated else if c' then .error .unallocated else d)
      (Attempt.unallocatedIf (c || c') >>= fun _ => x) := by
  cases c with
  | true => exact unallocated
  | false =>
    simp only [Bool.false_eq_true, if_false, Bool.false_or]
    exact unallocatedIf (h rfl)

theorem unallocatedIf_decide {p : Prop} [Decidable p] (h : ¬p → Performs m w d x) :
    Performs m w (if p then .error .unallocated else d) (Attempt.unallocatedIf (decide p) >>= fun _ => x) := by
  by_cases hp : p
  · rw [if_pos hp, decide_eq_true hp]
    exact unallocated
  · rw [if_neg hp, decide_eq_false hp]
    exact h hp

theorem notYetImplementedIf (h : c = false → Performs m w d x) :
    Performs m w (if c then .error .notYetImplemented else d) (Attempt.notYetImplementedIf c >>= fun _ => x) := by
  cases c with
  | true => exact notYetImplemented
  | false => exact h rfl

theorem ite {p : Prop} [Decidable p] (hx : p → Performs m w d x) (hy : ¬p → Performs m w d' y) :
    Performs m w (if p then d else d') (if p then x else y) := by
  split
  next h => exact hx h
  next h => exact hy h

theorem read (ha : a m.raw = some (.ok v, m.raw)) (h : Performs m w d (f v)) : Performs m w d (a >>= f) :=
  fun hd => .read ha (h hd)

theorem unallocatedIf_early {early : Bool} (h : c = false → Performs m w d x) :
    Performs m w (if c then .error (if early then .unallocated else .notYetImplemented) else d)
      (Attempt.unallocatedIf (c && early) >>= fun _ => Attempt.notYetImplementedIf c >>= fun _ => x) := by
  cases c with
  | false => exact read (pure_apply _ _) (read (pure_apply _ _) (h rfl))
  | true =>
    cases early with
    | true => exact unallocated
    | false => exact read (pure_apply _ _) notYetImplemented

theorem arranged {a : Option Arrangement} {f : Arrangement → Except DecodeError SimdInstruction}
    {g : Arrangement → Attempt Completion} (h : ∀ b, a = some b → Performs m w (f b) (g b)) :
    Performs m w (withArrangement a f) (Attempt.arranged a >>= g) := by
  cases a with
  | none => exact unallocated
  | some b => exact h b rfl

theorem arranged_error {a : Option Arrangement} {g : Arrangement → Attempt Completion}
    (h : ∀ b, Performs m w (.error .unallocated) (g b)) :
    Performs m w (.error .unallocated) (Attempt.arranged a >>= g) := by
  cases a with
  | none => exact unallocated
  | some b => exact h b

section Instructions

variable {i : SimdInstruction}

theorem executeDecoded_simd : m.executeDecoded (.ok (.simd i)) = (.ok .ready, m.withState (i.execute m.state)) := rfl

/-- The result is raised and written as the decoded instruction does it. -/
theorem ends {r : Flagged SimdResult} (heval : i.eval m.state = r)
    (hx : x m.raw = some (.ok .ready, (m.withState (r.value.apply i.rd (m.state.raise r.raised))).raw)) :
    Performs m w (.ok i) x := by
  intro _
  rw [CarriesOut, hx, Except.map, executeDecoded_simd, SimdInstruction.execute, heval]

theorem result {x : Option (Flagged (BitVec 128))} {r : Flagged (BitVec 128)} (hx : i.op.InRange → x = some r)
    (heval : i.eval m.state = r >>= fun v => pure (.vector v)) : Performs m w (.ok i) (writeResult w x) := by
  intro hd
  have hfits : FitsWord w i := hd i rfl
  refine ends heval ?_ hd
  rw [writeResult_raw (hx hfits.inRange), hfits.rd]
  simp [SimdResult.apply]

theorem written {x : BitVec 128} (heval : i.eval m.state = pure (.vector x)) :
    Performs m w (.ok i) (writeVector w x) := by
  intro hd
  have hfits : FitsWord w i := hd i rfl
  refine ends heval ?_ hd
  rw [writeVector_raw, hfits.rd, Flagged.raised_pure, State.raise_none]
  rfl

theorem general {n : Nat} {x : BitVec n} (heval : i.eval m.state = pure (.general x)) :
    Performs m w (.ok i) (writeX w.rd.toNat x >>= fun _ => pure .ready) := by
  intro hd
  have hfits : FitsWord w i := hd i rfl
  refine ends heval ?_ hd
  rw [Flagged.raised_pure, State.raise_none, hfits.rd]
  exact bind_raw (writeX_raw _ _ _) rfl

theorem vector {rm : Register} {op : VectorOp} {v : VectorOperands}
    (h : op.eval { n := m.state.vector w.rn, m := m.state.vector rm, d := m.state.vector w.rd } = op.eval v) :
    Performs m w (.ok { rd := w.rd, rn := w.rn, rm, op := .vector op }) (writeResult w (op.eval? v)) :=
  result (fun hrange => VectorOp.eval?_eq hrange v) (congrArg (· >>= fun v => pure (SimdResult.vector v)) h)

theorem float {rm : Register} {op : FloatVectorOp} {v : VectorOperands}
    (h : op.eval { n := m.state.vector w.rn, m := m.state.vector rm, d := m.state.vector w.rd } = op.eval v) :
    Performs m w (.ok { rd := w.rd, rn := w.rn, rm, op := .float op }) (writeResult w (op.eval? v)) :=
  result (fun hrange => FloatVectorOp.eval?_eq hrange v) (congrArg (· >>= fun v => pure (SimdResult.vector v)) h)

end Instructions

end Performs

theorem vectorLogical_eq :
    Performs m w (usualVector w (.bitwise (bitwiseOp (w.bit 29) (w.extractLsb 23 22)) (w.bit 30))) (vectorLogical w) :=
  .read readOperands_raw (.vector rfl)

theorem floatThreeSame_eq (scalar : Bool) :
    Performs m w (decodeFloatThreeSame w scalar)
      (Attempt.arranged (arrangement? w (lanePrecision w).size scalar) >>= floatThreeSame w scalar (lanePrecision w)) := by
  refine .arranged fun a _ => ?_
  rw [floatThreeSame]
  cases SimdInstruction.floatThreeSame (w.number 15 11) (w.bit 29) (w.bit 23) with
  | error e => exact .error e
  | ok op =>
    refine .read (pure_apply _ _) <| .unallocatedIf fun _ => .read readOperands_raw ?_
    cases op with
    | lanes op => exact .float rfl
    | pairwise op => exact .float rfl

theorem laneOp?_ne {opcode : Nat} {u : Bool} {op : LaneOp} (h : laneOp? opcode u = some op) :
    opcode ≠ 22 ∧ (opcode == 23 && u) = false := by
  refine ⟨?_, ?_⟩
  · rintro rfl
    cases h
  · cases u with
    | false => exact Bool.and_false _
    | true =>
      rw [Bool.and_true, beq_eq_false_iff_ne]
      rintro rfl
      cases h

theorem threeSame_eq (scalar : Bool) : Performs m w (decodeThreeSame w scalar) (threeSame w scalar) := by
  refine .ite (fun _ => floatThreeSame_eq scalar) fun hinteger => .ite (fun _ => ?_) fun _ => ?_
  · exact .unallocatedIf fun _ => vectorLogical_eq
  cases hop : laneOp? (w.number 15 11) (w.bit 29) with
  | none => exact .error_ite .notYetImplemented .unallocated
  | some op =>
    obtain ⟨hopcode, hdead⟩ := laneOp?_ne hop
    refine .unallocatedIf fun _ => ?_
    rw [hdead, Bool.or_false]
    refine .unallocatedIf_or fun _ _ => .arranged fun a _ => ?_
    have hpairs : (decide (20 ≤ w.number 15 11) && w.number 15 11 != 22 && decide (w.number 15 11 ≤ 23))
        = decide (20 ≤ w.number 15 11) := by
      have hle : w.number 15 11 ≤ 23 := by omega
      rw [decide_eq_true hle, bne_iff_ne.2 hopcode, Bool.and_true, Bool.and_true]
    simp only [hpairs, decide_eq_true_eq]
    exact .ite (fun _ => .read readSources_raw (.vector rfl)) fun _ => .read readOperands_raw (.vector rfl)

theorem threeDifferent_eq : Performs m w (decodeThreeDifferent w) (threeDifferent w) := by
  refine .unallocatedIf fun _ => .read readOperands_raw <| .ite (fun _ => ?_) fun hnarrow => ?_
  · exact .notYetImplementedIf fun _ => .vector rfl
  have hopcode : w.number 15 12 < 16 := (w.extractLsb 15 12).isLt
  generalize w.number 15 12 = opcode at hopcode hnarrow
  match opcode with
  | 0 | 1 | 2 | 3 | 5 | 7 | 8 | 10 | 12 => exact .vector rfl
  | 4 | 6 => exact absurd rfl hnarrow
  | 9 | 11 | 13 | 14 => exact .notYetImplemented
  | 15 => exact .unallocated
  | _ + 16 => exact absurd hopcode (by omega)

theorem reverseLanes_eq (size : ElementSize) (container : Nat) :
    Performs m w
      (if container ≤ size.bits then .error .unallocated
      else withArrangement (Arrangement.vector? size (w.bit 30)) fun a => usualVector w (.reverse container a))
      (reverseLanes w size container) :=
  .unallocatedIf_decide fun _ => .arranged fun _ _ => .read readSource_raw (.vector rfl)

theorem addLongPairs_eq (size : ElementSize) (accumulate : Bool) :
    Performs m w
      (if size == .double || (size == .word && !w.bit 30) then .error .unallocated
      else
        usualVector w (.addLongPairs (!w.bit 29) accumulate size ((if w.bit 30 then 64 else 32) / size.bits)))
      (addLongPairs w size accumulate) := by
  rw [addLongPairs]
  cases size <;> cases w.bit 30
  all_goals first
    | exact .unallocated
    | exact .read (pure_apply _ _) <| .read (pure_apply _ _) <| .read readAccumulated_raw <| .vector rfl

theorem mapLanes_eq (op : LaneUnary) (a : Option Arrangement) :
    Performs m w (withArrangement a fun a => usualVector w (.unary op a)) (mapLanes w op a) :=
  .arranged fun _ _ => .read readSource_raw (.vector rfl)

theorem half_eq (d result : BitVec 128) (upper : Bool) :
    VectorOp.half (if upper then d else 0#128) result upper = VectorOp.half d result upper := by
  cases upper <;> rfl

theorem narrowLanes_eq (size : ElementSize) :
    Performs m w (usualVector w (.narrow size (w.bit 30))) (narrowLanes w size) := by
  refine .read (readNarrowed_raw _) (.vector ?_)
  simp only [VectorOp.eval, half_eq]

theorem integerMisc_eq (scalar : Bool) : Performs m w (decodeIntegerMisc w scalar) (integerMisc w scalar) := by
  have hforms (opcode : Nat) :
      (decide (opcode < 8) || decide (11 < opcode)) = !(decide (8 ≤ opcode) && decide (opcode ≤ 11)) := by
    simp [Bool.not_and, ← decide_not]
  refine .notYetImplementedIf fun _ => ?_
  rw [hforms]
  refine .unallocatedIf fun hscalar => ?_
  generalize w.number 16 12 = opcode at hscalar
  generalize hu : w.bit 29 = u at hscalar
  split
  · exact reverseLanes_eq _ _
  · exact reverseLanes_eq _ _
  · exact reverseLanes_eq _ _
  · exact hu ▸ addLongPairs_eq _ _
  · exact hu ▸ addLongPairs_eq _ _
  · exact .notYetImplemented
  · exact .notYetImplemented
  · have hvector : scalar = false := by simpa using hscalar
    subst hvector
    exact .unallocatedIf fun _ => mapLanes_eq _ _
  · exact .ite (fun _ => mapLanes_eq _ _) fun _ => .unallocated
  · exact .ite (fun _ => mapLanes_eq _ _) fun _ => .ite (fun _ => mapLanes_eq _ _) fun _ => .unallocated
  · exact mapLanes_eq _ _
  · exact mapLanes_eq _ _
  · exact mapLanes_eq _ _
  · exact mapLanes_eq _ _
  · exact .unallocatedIf fun _ => narrowLanes_eq _
  · exact .notYetImplemented
  · exact .notYetImplemented
  · exact .notYetImplemented
  · (try split) <;> first | contradiction | exact .unallocated

theorem narrowFloats_eq :
    Performs m w (usualFloat w (.narrow (w.bit 30)))
      (readNarrowed w (w.bit 30) >>= fun v => writeResult w ((FloatVectorOp.narrow (w.bit 30)).eval? v)) := by
  refine .read (readNarrowed_raw _) (.float ?_)
  simp only [FloatVectorOp.eval, half_eq]

theorem convertLongNarrow_eq : Performs m w (decodeConvertLanes w) (convertLongNarrow w) := by
  refine .notYetImplementedIf fun _ => .notYetImplementedIf fun _ => ?_
  generalize w.bit 12 = long
  cases long with
  | true => exact .read readSource_raw (.float rfl)
  | false => exact narrowFloats_eq

theorem floatMisc_eq (scalar : Bool) :
    Performs m w (decodeFloatMisc w scalar)
      (Attempt.arranged (arrangement? w (lanePrecision w).size scalar) >>= floatMisc w scalar (lanePrecision w)) := by
  refine .arranged fun a _ => ?_
  rw [floatMisc]
  cases SimdInstruction.floatMisc (w.number 16 12) (w.bit 29) (w.bit 23) with
  | error e => exact .error e
  | ok op => exact .read (pure_apply _ _) <| .unallocatedIf fun _ => .read readSource_raw (.float rfl)

theorem twoRegisterMisc_eq (scalar : Bool) : Performs m w (decodeTwoRegister w scalar) (twoRegisterMisc w scalar) :=
  .ite (fun _ => integerMisc_eq scalar) fun _ =>
    .ite (fun _ => .notYetImplementedIf fun _ => convertLongNarrow_eq) fun _ => floatMisc_eq scalar

theorem acrossLanes_eq : Performs m w (decodeAcross w) (acrossLanes w) := by
  refine .ite (fun _ => ?_) fun _ => ?_
  · exact .notYetImplementedIf fun _ => .unallocatedIf fun _ => .read readSource_raw (.float rfl)
  refine .unallocatedIf fun _ => ?_
  generalize w.number 16 12 = opcode
  generalize hu : w.bit 29 = u
  split
  · exact .arranged fun _ _ => .read readSource_raw (.vector rfl)
  · exact .arranged fun _ _ => .read readSource_raw (.vector rfl)
  · exact .arranged fun _ _ => .read readSource_raw (.vector rfl)
  · exact .arranged fun _ _ => .read readSource_raw (.vector rfl)
  · refine .arranged_error fun _ => .read readSource_raw ?_
    (try split) <;> first | contradiction | exact .unallocated

theorem permute_eq : Performs m w (decodePermute w) (permute w) := by
  rw [decodePermute, permute]
  generalize w.number 13 12 = form
  split
  · exact .arranged fun _ _ => .read readSources_raw (.vector rfl)
  · exact .arranged fun _ _ => .read readSources_raw (.vector rfl)
  · exact .arranged fun _ _ => .read readSources_raw (.vector rfl)
  · refine .arranged_error fun _ => .read readSources_raw ?_
    (try split) <;> first | contradiction | exact .unallocated

theorem extractVector_eq : Performs m w (decodeExtractVector w) (extractVector w) :=
  .unallocatedIf fun _ => .read readSources_raw (.vector rfl)

theorem shiftLanes_eq (size : ElementSize) (scalar : Bool) {op : Arrangement → VectorOp}
    (hop : ∀ a n m d, (op a).eval { n, m, d } = (op a).eval { n, m := 0#128, d }) :
    Performs m w
      (if scalar && size != .double then .error .unallocated
      else withArrangement (arrangement? w size scalar) fun a => usualVector w (op a))
      (shiftLanes w size scalar op) :=
  .unallocatedIf fun _ => .arranged fun a _ => .read readShifted_raw (.vector (hop a _ _ _))

/-- The precision is that of the lanes, and narrower lanes have none. -/
theorem fixedPointLanes_eq (size : ElementSize) (scalar : Bool) (op : FloatUnary) :
    Performs m w
      (match size with
      | .half => .error .notYetImplemented
      | .byte => .error .unallocated
      | .word => withArrangement (arrangement? w size scalar) fun a => usualFloat w (.unary op .single a.elements)
      | .double => withArrangement (arrangement? w size scalar) fun a => usualFloat w (.unary op .double a.elements))
      (fixedPointLanes w size scalar op) := by
  rw [fixedPointLanes]
  cases size with
  | half => exact .notYetImplemented
  | byte => exact .unallocated
  | word | double =>
    exact .read (pure_apply _ _) <| .read (pure_apply _ _) <| .arranged fun _ _ => .read readSource_raw (.float rfl)

theorem laneBits?_eq (h : w.number 22 19 ≠ 0) :
    laneBits? ((w.extractLsb 22 19).setWidth 32) = some w.shiftSize.bits := by
  have hbits : ∀ immh : BitVec 4, immh.toNat ≠ 0 → laneBits? (immh.setWidth 32) = some (8 * 2 ^ immh.toNat.log2) := by
    decide +kernel
  rw [w.bits_shiftSize h]
  exact hbits _ h

theorem shiftByImmediate_eq (scalar : Bool) : Performs m w (decodeShift w scalar) (shiftByImmediate w scalar) := by
  refine .unallocatedIf fun h => ?_
  have hne : w.number 22 19 ≠ 0 := by simpa using h
  obtain ⟨hlow, hhigh⟩ := w.shiftSize_le_number hne
  refine .read (checked_raw (laneBits?_eq hne)) <| .read (checked_raw (sub?_eq (Nat.le_of_lt hhigh))) <|
    .read (checked_raw (sub?_eq hlow)) ?_
  rw [ElementSize.ofBits_bits]
  have hnarrowed {op : VectorOp} (hop : ∀ n m d,
      op.eval { n, m, d } = op.eval { n, m := 0#128, d := if w.bit 30 then d else 0#128 }) :
      Performs m w (usualVector w op) (readNarrowed w (w.bit 30) >>= fun v => writeResult w (op.eval? v)) :=
    .read (readNarrowed_raw _) (.vector (hop _ _ _))
  refine .unallocatedIf_early fun _ => .unallocatedIf fun _ => ?_
  generalize w.number 22 16 = encoded
  generalize w.number 15 11 = opcode
  generalize w.bit 29 = u
  split
  · exact shiftLanes_eq _ _ fun _ _ _ _ => rfl
  · exact shiftLanes_eq _ _ fun _ _ _ _ => rfl
  · exact shiftLanes_eq _ _ fun _ _ _ _ => rfl
  · exact shiftLanes_eq _ _ fun _ _ _ _ => rfl
  · exact shiftLanes_eq _ _ fun _ _ _ _ => rfl
  · exact shiftLanes_eq _ _ fun _ _ _ _ => rfl
  · exact hnarrowed fun _ _ _ => by simp only [VectorOp.eval, half_eq]
  · exact hnarrowed fun _ _ _ => by simp only [VectorOp.eval, half_eq]
  · exact .read readSource_raw (.vector rfl)
  · exact fixedPointLanes_eq _ _ _
  · exact fixedPointLanes_eq _ _ _
  · exact .notYetImplemented
  · exact .notYetImplemented
  · exact .notYetImplemented
  · exact .notYetImplemented
  · exact .notYetImplemented
  · exact .notYetImplemented
  · (try split) <;> first | contradiction | exact .unallocated

theorem floatByElement_eq (scalar : Bool) : Performs m w (decodeFloatByElement w scalar) (floatByElement w scalar) :=
  .unallocatedIf_early fun _ => .unallocatedIf fun _ => .arranged fun _ _ => .read readOperands_raw (.float rfl)

theorem integerLanesByElement_eq (op : LaneOp) (size : ElementSize) (rm : Register) (index : Nat) :
    Performs m w
      (withArrangement (Arrangement.vector? size (w.bit 30)) fun a =>
        .ok { rd := w.rd, rn := w.rn, rm, op := .vector (.byElement op a index) })
      (integerLanesByElement w op size rm.toNat index) :=
  .arranged fun _ _ => .read (readV_raw _) <| .read (readV_raw _) <| .read (readV_raw _) (.vector rfl)

theorem integerByElement_eq : Performs m w (decodeIntegerByElement w) (integerByElement w) := by
  have hrm : ((w.extractLsb 19 16).setWidth 5).toNat = w.number 19 16 :=
    BitVec.toNat_setWidth_of_le (by decide)
  rw [decodeIntegerByElement, integerByElement, ← hrm]
  generalize w.number 23 22 = size
  split
  · exact integerLanesByElement_eq _ _ _ _
  · exact integerLanesByElement_eq _ _ _ _
  · (try split) <;> first | contradiction | exact .unallocated

theorem multiplyByElement_eq (scalar : Bool) : Performs m w (decodeByElement w scalar) (multiplyByElement w scalar) := by
  rw [decodeByElement, multiplyByElement]
  generalize w.number 15 12 = opcode
  generalize w.bit 29 = u
  split
  · exact floatByElement_eq scalar
  · exact floatByElement_eq scalar
  · exact floatByElement_eq scalar
  · exact .notYetImplementedIf fun _ => integerByElement_eq
  · exact .notYetImplementedIf fun _ => integerByElement_eq
  · exact .notYetImplementedIf fun _ => integerByElement_eq
  · (try split) <;> first | contradiction | exact .notYetImplemented

theorem scalarPairwise_eq : Performs m w (decodeScalarPairwise w) (scalarPairwise w) := by
  refine .ite (fun _ => ?_) fun _ => ?_
  · refine .unallocatedIf fun _ => .read (readV_raw _) <| .read (checked_raw (get?_eq _ (by decide))) <|
      .read (checked_raw (get?_eq _ (by decide))) <| .read (checked_raw (scalar?_eq _ (by decide))) (.written ?_)
    have hsum (x y : BitVec 64) : x + y = BitVec.ofInt 64 (0 + x.toInt + y.toInt) := by
      rw [Int.zero_add, BitVec.ofInt_add, BitVec.ofInt_toInt, BitVec.ofInt_toInt]
    rw [hsum]
    rfl
  cases scalarReduction? (w.number 16 12) (w.bit 23) with
  | none => exact .unallocated
  | some op => exact .notYetImplementedIf fun _ => .read readSource_raw (.float rfl)

theorem byteMask?_eq (imm8 : BitVec 8) : byteMask? (imm8.setWidth 64) = some (byteMask imm8) := by
  revert imm8
  decide +kernel

theorem immediatePattern_eq (cmode : Nat) (op full : Bool) (imm8 : BitVec 8) :
    immediatePattern cmode op full (imm8.setWidth 32) =
      match modifiedImmediate? cmode op full imm8 with
      | some x => pure x
      | none => unallocated := by
  have hwidth : (imm8.setWidth 32).setWidth 64 = imm8.setWidth 64 := by
    have hlt := imm8.isLt
    refine BitVec.eq_of_toNat_eq ?_
    simp only [BitVec.toNat_setWidth]
    omega
  rw [immediatePattern, modifiedImmediate?, hwidth]
  by_cases h8 : cmode < 8
  · simp [h8, shiftLeft?_eq _ (show 8 * (cmode / 2) < 64 by omega), replicate?_eq]
  by_cases h12 : cmode < 12
  · simp [h8, h12, shiftLeft?_eq _ (show 8 * (cmode / 2 % 2) < 64 by omega), replicate?_eq]
  simp only [h8, h12, if_false, replicate?_eq _ (show 0 < 32 by decide)]
  split
  · rfl
  split
  · rfl
  split
  · cases op with
    | false => simp [replicate?_eq]
    | true => simp [byteMask?_eq]
  cases op with
  | false => simp [Float.ofImmediate?_eq, Float.raw]
  | true =>
    cases full with
    | false => rfl
    | true =>
      have hraw (x : Float .double) : Float.raw x = x := BitVec.setWidth_eq x
      simp [Float.ofImmediate?_eq, hraw]
      rfl

theorem modifiedImmediate_eq : Performs m w (decodeModifiedImmediate w) (modifiedImmediate w) := by
  refine .notYetImplementedIf fun _ => ?_
  rw [immediatePattern_eq]
  cases modifiedImmediate? (w.number 15 12) (w.bit 29) (w.bit 30) (w.extractLsb 18 16 ++ w.extractLsb 9 5) with
  | none => exact .unallocated
  | some x =>
    refine .read (pure_apply _ _) <| .ite (fun _ => .read (readV_raw _) (.written ?_)) fun _ => .written ?_
    · cases w.bit 29 <;> rfl
    · cases w.bit 29 && decide (w.number 15 12 < 14) with
      | false => rfl
      | true => exact congrArg (fun y => pure (SimdResult.vector (sized y (w.bit 30)))) (BitVec.not_append).symm

theorem simdVectorImmediate_eq : Performs m w (decodeVectorImmediate w) (simdVectorImmediate w) :=
  .unallocatedIf fun _ => .ite (fun _ => multiplyByElement_eq false) fun _ =>
    .ite (fun _ => modifiedImmediate_eq) fun _ => shiftByImmediate_eq false

theorem simdScalarImmediate_eq : Performs m w (decodeScalarImmediate w) (simdScalarImmediate w) :=
  .unallocatedIf fun _ => .ite (fun _ => shiftByImmediate_eq true) fun _ => multiplyByElement_eq true

/-- A field without a set bit has no lane. -/
theorem Performs.lane {f : ElementSize → Nat → Except DecodeError SimdInstruction}
    {g : ElementSize × Nat → Attempt Completion}
    (h : ∀ size index, (index + 1) * size.bits ≤ 128 → Performs m w (f size index) (g (size, index))) :
    Performs m w
      (match laneNumber? (w.extractLsb 20 16) with
      | none => .error .unallocated
      | some (size, index) => f size index)
      (Attempt.unallocatedIf (w.number 19 16 == 0) >>= fun _ =>
        checked (lanePlace? ((w.extractLsb 20 16).setWidth 32)) >>= g) := by
  have hall : ∀ imm5 : BitVec 5, if imm5.toNat % 16 = 0 then laneNumber? imm5 = none
      else lanePlace? (imm5.setWidth 32) = laneNumber? imm5 ∧ laneNumber? imm5 ≠ none := by
    decide +kernel
  have hlow : w.number 19 16 = (w.extractLsb 20 16).toNat % 16 := by
    simp only [InstructionWord.number, BitVec.extractLsb_toNat, Nat.shiftRight_eq_div_pow]
    omega
  have hfield := hall (w.extractLsb 20 16)
  rw [hlow]
  split at hfield
  next hzero =>
    rw [hfield, beq_iff_eq.2 hzero]
    exact .unallocated
  next hne =>
    obtain ⟨hplace, hsome⟩ := hfield
    rw [beq_eq_false_iff_ne.2 hne, hplace]
    cases hlane : laneNumber? (w.extractLsb 20 16) with
    | none => exact absurd hlane hsome
    | some place => exact .read (pure_apply _ _) <| .read (checked_raw rfl) (h _ _ (laneNumber?_fits hlane))

theorem insertLane_eq {i : SimdInstruction} {size : ElementSize} {index : Nat} {x : BitVec size.bits}
    (h : (index + 1) * size.bits ≤ 128)
    (heval : i.eval m.state = pure (.vector (Lanes.set (m.state.vector w.rd) index x))) :
    Performs m w (.ok i) (insertLane w size index x) :=
  .read (readV_raw _) <| .read (checked_raw (set?_eq _ _ h)) (.written heval)

theorem copy_eq : Performs m w (decodeCopy w) (copy w) := by
  have himm : w.number 14 11 < 16 := w.number_lt 14 11
  refine .lane fun size index hindex => ?_
  have hsource : (8 * w.number 14 11 / size.bits + 1) * size.bits ≤ 128 := by
    cases size <;> simp only [ElementSize.bits] <;> omega
  dsimp only
  generalize w.number 14 11 = imm4 at hsource
  generalize w.bit 29 = u
  split
  · exact .arranged fun _ _ => .read readSource_raw (.vector rfl)
  · refine .arranged fun a ha => ?_
    obtain ⟨-, -, hfits⟩ := Arrangement.fits_of_vector? ha
    refine .read (readX_raw _ _ _) <| .read (checked_raw (build?_eq hfits fun _ _ => rfl)) (.written ?_)
    simp only [eval, State.setWidth_read]
  · refine .ite (fun _ => .read (readX_raw _ _ _) (insertLane_eq hindex ?_)) fun _ => .unallocated
    simp only [eval, State.setWidth_read]
  · refine .ite (fun _ => .read (readV_raw _) <| .read (checked_raw (get?_eq _ hindex)) <|
      .read (checked_raw (signExtended?_setWidth _ size.bits_pos size.bits_le)) (.general ?_)) fun _ => .unallocated
    rw [setWidth_signExtend _ (Width.bits_le _)]
    rfl
  · exact .ite (fun _ => .read (readV_raw _) <| .read (checked_raw (get?_eq _ hindex)) (.general rfl)) fun _ =>
      .unallocated
  · (try split) <;> first | contradiction | exact .unallocated
  · exact .ite (fun _ => .read (readV_raw _) <| .read (checked_raw (get?_eq _ hsource)) (insertLane_eq hindex rfl))
      fun _ => .unallocated

theorem scalarDuplicate_eq : Performs m w (decodeScalarDuplicate w) (scalarDuplicate w) := by
  refine .lane fun size index hindex => .read (readV_raw _) <| .read (checked_raw (get?_eq _ hindex)) ?_
  exact .read (checked_raw (scalar?_eq _ (Nat.le_trans size.bits_le (by decide))))
    (.written (congrArg (fun y => pure (SimdResult.vector y)) (set_zero _)))

theorem toNat_next (r : Register) : r.next.toNat = (r.toNat + 1) % 32 := by
  rw [Register.next, BitVec.toNat_add]
  rfl

theorem readTable_raw (registers : Nat) (r : Register) :
    readTable registers r.toNat m.raw = some (.ok (m.state.table r registers), m.raw) := by
  induction registers generalizing r with
  | zero => rfl
  | succ registers ih =>
    refine bind_raw (readV_raw r) <| bind_raw (a := m.state.table r.next registers) ?_ rfl
    rw [← toNat_next, ih]

theorem lookedUp?_eq (i : SimdInstruction) (s : State) (registers : Nat) (extend : Bool) :
    lookedUp? (s.table i.rn registers) (s.vector i.rm) (s.vector i.rd) extend = some (lookup i s registers extend) := by
  rw [lookup_eq]
  refine build?_eq (by decide) fun k hk => ?_
  have hk : (k + 1) * 8 ≤ 128 := by omega
  rw [get?_eq _ hk, Option.bind_eq_bind, Option.bind_some]
  cases (s.table i.rn registers)[(Lanes.get (s.vector i.rm) 8 k).toNat]? with
  | some x => rfl
  | none =>
    cases extend with
    | true => exact get?_eq _ hk
    | false => rfl

theorem tableLookup_eq : Performs m w (decodeLookup w) (tableLookup w) := by
  let i : SimdInstruction :=
    { rd := w.rd, rn := w.rn, rm := w.rm, op := .lookup (w.number 14 13 + 1) (w.bit 12) (w.bit 30) }
  exact .read (readTable_raw _ _) <| .read (readV_raw _) <| .read (readV_raw _) <|
    .read (checked_raw (lookedUp?_eq i m.state _ _)) (.written rfl)

theorem simdVector_eq : Performs m w (decodeVector w) (simdVector w) := by
  refine .unallocatedIf fun _ => .ite (fun _ => ?_) fun _ =>
    .ite (fun _ => .ite (fun _ => copy_eq) fun _ => .notYetImplemented) fun _ => ?_
  · exact .ite (fun _ => threeSame_eq false) fun _ => .ite (fun _ => threeDifferent_eq) fun _ =>
      .ite (fun _ => twoRegisterMisc_eq false) fun _ => .ite (fun _ => acrossLanes_eq) fun _ => .notYetImplemented
  generalize w.bit 29 = u
  generalize w.bit 11 = b
  split
  · exact .ite (fun _ => .unallocated) fun _ => permute_eq
  · exact .ite (fun _ => tableLookup_eq) fun _ => .unallocated
  · exact .ite (fun _ => extractVector_eq) fun _ => .unallocated

theorem simdScalar_eq : Performs m w (decodeScalar w) (simdScalar w) :=
  .unallocatedIf fun _ => .ite (fun _ => .ite (fun _ => threeSame_eq true) fun _ =>
    .ite (fun _ => .notYetImplemented) fun _ => .ite (fun _ => twoRegisterMisc_eq true) fun _ =>
    .ite (fun _ => scalarPairwise_eq) fun _ => .notYetImplemented) fun _ =>
    .ite (fun _ => scalarDuplicate_eq) fun _ => .notYetImplemented

end Attempt
end AArch64
