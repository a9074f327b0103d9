import AArch64.Interpreter.Control
import AArch64.Proofs.Decoding.Fields
import AArch64.Proofs.Interpreter.Attempt

/-! The executors of branches and system instructions carry out the decoded instructions. -/
namespace AArch64

open Masked

theorem SystemRegister.readWord_raw (s : State) (r : SystemRegister) : r.readWord s.raw = r.read s := by
  cases r <;> rfl

theorem SystemRegister.writeWord_raw (r : SystemRegister) (x : BitVec 64) (s : State) :
    r.writeWord x s.raw = (r.write x s).raw := by
  cases r with
  | nzcv => simp only [writeWord, write, State.raw, NzcvWord.ofBits_eq_word]
  | fpsr => simp only [writeWord, write, State.raw, FpsrWord.ofBits_eq_word]
  | fpcr | threadPointer | cacheType | cacheZero | mainId => rfl

namespace Attempt

variable {w : InstructionWord} {m : Machine}

theorem branchRelative_raw (offset : BitVec 64) :
    branchRelative offset m.raw =
      some (.ok (), (m.withState { m.state with nextPc := m.state.pc + offset <<< 2 }).raw) := rfl

theorem setLink_raw :
    setLink m.raw = some (.ok (), (m.withState (m.state.write Register.link (m.state.pc + 4#64))).raw) :=
  bind_raw readPc_raw (writeX_raw _ _ _)

open ControlOp

theorem branchImmediate_eq : CarriesOut m .control (decodeImmediateBranch w) (branchImmediate w) := by
  rw [decodeImmediateBranch, branchImmediate]
  cases w.bit 31 with
  | false =>
    exact .read (signedField_raw (by decide)) <| bind_raw (branchRelative_raw _) rfl
  | true =>
    exact bind_raw setLink_raw <| bind_raw (signedField_raw (by decide)) <| bind_raw (branchRelative_raw _) rfl

section Branch

variable {test : BranchTest} (offset : BitVec 64)

theorem executeDecoded_branch :
    m.executeDecoded (.ok (.control (.branch test false offset))) =
      (.ok .ready,
        m.withState (if test.holds m.state then { m.state with nextPc := m.state.pc + offset } else m.state)) := rfl

theorem not_bne_eq_beq (a b : Bool) : ((!a) != b) = (a == b) := by
  cases a <;> cases b <;> rfl

theorem branch_taken (h : test.holds m.state = true) :
    CarriesOut m .control (.ok (.branch test false (offset <<< 2)))
      (branchRelative offset >>= fun _ => pure .ready) := by
  refine bind_raw (branchRelative_raw offset) ?_
  rw [Except.map, executeDecoded_branch, if_pos h]
  rfl

theorem branch_skipped (h : test.holds m.state = false) :
    CarriesOut m .control (.ok (.branch test false (offset <<< 2))) (pure .ready) := by
  rw [CarriesOut, Except.map, executeDecoded_branch, h, if_neg Bool.false_ne_true]
  rfl

theorem branch_eq {taken : Bool} (h : test.holds m.state = taken) :
    CarriesOut m .control (.ok (.branch test false (offset <<< 2)))
      (if taken then branchRelative offset >>= fun _ => pure .ready else pure .ready) := by
  cases taken with
  | false => exact branch_skipped offset h
  | true => exact branch_taken offset h

end Branch

theorem compareAndTestBranch_eq : CarriesOut m .control (decodeCompareBranch w) (compareAndTestBranch w) := by
  refine .ite (fun _ => ?_) fun _ => ?_
  · have hbit : 32 * (w.bit 31).toNat + w.number 23 19 < 64 := by
      have hhigh := (w.bit 31).toNat_lt
      have hlow : w.number 23 19 < 32 := (w.extractLsb 23 19).isLt
      omega
    refine .read (readX_raw _ _ _) <| .read (checked_raw (bit?_eq _ hbit)) <| .read (signedField_raw (by decide)) <|
      .read (pure_apply _ _) ?_
    have hholds : (BranchTest.bitIsClear w.rd (32 * (w.bit 31).toNat + w.number 23 19) (w.bit 24)).holds m.state =
        ((m.state.read 64 w.rd).getLsbD (32 * (w.bit 31).toNat + w.number 23 19) == w.bit 24) :=
      not_bne_eq_beq _ _
    exact branch_eq _ hholds
  · refine .read (readX_raw _ _ _) <| .read (signedField_raw (by decide)) <| .read (pure_apply _ _) ?_
    have hholds : (BranchTest.isZero (Width.ofBit (w.bit 31)) w.rd (w.bit 24)).holds m.state =
        ((m.state.read (Width.ofBit (w.bit 31)).bits w.rd != 0) == w.bit 24) := by
      rw [bne, ← not_bne_eq_beq, Bool.not_not]
      rfl
    exact branch_eq _ hholds

theorem conditionalBranch_eq : CarriesOut m .control (decodeConditionalBranch w) (conditionalBranch w) := by
  refine .unallocatedIf fun _ => .ite (fun _ => .notYetImplemented) fun _ => .read (holds_raw _) ?_
  cases hholds : (Condition.ofCode (w.extractLsb 3 0)).holds m.state.nzcv with
  | false => exact branch_skipped _ hholds
  | true => exact .read (signedField_raw (by decide)) <| branch_taken _ hholds

theorem exceptionGeneration_eq : CarriesOut m .control (decodeException w) (exceptionGeneration w) := by
  refine .unallocatedIf fun _ => ?_
  generalize w.number 23 21 = opc
  generalize w.number 1 0 = ll
  split
  next => rfl
  next => exact .notYetImplemented
  next => exact .notYetImplemented
  next => rfl
  next => rfl
  next => exact .notYetImplemented
  next => exact .notYetImplemented
  next => exact .notYetImplemented
  next => (try split) <;> first | contradiction | exact .unallocated

theorem hintsBarriers_eq : CarriesOut m .control (decodeHint w) (hintsBarriers w) := by
  unfold decodeHint hintsBarriers
  generalize w.number 15 12 = crn
  split
  next => exact .ite (fun _ => rfl) fun _ => .unallocated
  next =>
    refine .ite (fun _ => .unallocated) fun _ => .ite (fun _ => rfl) fun _ => ?_
    split
    · rfl
    · exact .unallocated
  next => exact .notYetImplemented
  next => exact .error_ite .notYetImplemented .unallocated
  next => (try split) <;> first | contradiction | exact .unallocated

theorem systemInstruction_eq : CarriesOut m .control (decodeSystemInstruction w) (systemInstruction w) :=
  .ite (fun _ => .notYetImplemented) fun _ => .ite (fun _ => .notYetImplemented) fun _ =>
    .ite (fun _ => .notYetImplemented) fun _ => rfl

theorem systemRegisterMove_eq : CarriesOut m .control (decodeSystemMove w) (systemRegisterMove w) := by
  unfold decodeSystemMove systemRegisterMove
  cases SystemRegister.ofNumber? (w.extractLsb 20 5) with
  | none => exact .notYetImplemented
  | some r =>
    refine .ite (fun _ => .read (v := m.raw) rfl ?_) fun _ => .ite (fun _ => .unallocated) fun _ =>
      .read (readX_raw _ _ _) <| bind_raw (modifyState_raw (r.writeWord_raw _ _)) rfl
    have hread : r.readWord m.raw.state = r.read m.state := r.readWord_raw m.state
    rw [hread]
    exact bind_raw (writeX_raw _ _ _) rfl

theorem system_eq : CarriesOut m .control (decodeSystem w) (system w) := by
  refine .unallocatedIf fun _ => ?_
  generalize w.number 20 19 = op
  generalize w.bit 21 = read
  split
  next => exact hintsBarriers_eq
  next => exact systemInstruction_eq
  next => exact .notYetImplemented
  next => exact .notYetImplemented
  next => exact systemRegisterMove_eq
  next => (try split) <;> first | contradiction | exact .unallocated

theorem branchRegister_eq : CarriesOut m .control (decodeRegisterBranch w) (branchRegister w) := by
  refine .unallocatedIf fun _ => .ite (fun _ => .ite (fun _ => .read (readX_raw _ _ _) ?_) fun _ => .notYetImplemented)
    fun _ => .ite (fun _ => .notYetImplemented) fun _ => .unallocated
  cases w.number 24 21 == 1 with
  | false => exact bind_raw (writeNextPc_raw _) rfl
  | true => exact bind_raw setLink_raw <| bind_raw (writeNextPc_raw _) rfl

theorem exceptionSystemRegisterBranch_eq :
    CarriesOut m .control (decodeRest w) (exceptionSystemRegisterBranch w) := by
  unfold decodeRest exceptionSystemRegisterBranch
  generalize w.number 25 24 = group
  split
  next => exact exceptionGeneration_eq
  next => exact system_eq
  next => (try split) <;> first | contradiction | exact branchRegister_eq

theorem branchExceptionSystem_eq : CarriesOut m .control (decode w) (branchExceptionSystem w) := by
  have hkey : KeyTable.control.key w < 8 := KeyTable.key_lt_entries _ w
  unfold decode branchExceptionSystem dispatch
  generalize KeyTable.control.key w = key at hkey
  match key with
  | 0 | 4 => exact branchImmediate_eq
  | 1 | 5 => exact compareAndTestBranch_eq
  | 2 => exact conditionalBranch_eq
  | 3 | 7 => exact .unallocated
  | 6 => exact exceptionSystemRegisterBranch_eq

theorem hostWord_eq : CarriesOut m .control (decodeHostWord w) (hostWord w) := by
  unfold decodeHostWord hostWord
  split
  · rfl
  split
  · rfl
  split
  · rfl
  split
  · rfl
  · exact .unallocated

end Attempt
end AArch64
