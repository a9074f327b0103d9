import AArch64.Interpreter.Integer
import AArch64.Proofs.Interpreter.Attempt
import AArch64.Proofs.Interpreter.BitMasks

/-! The executors of the integer groups carry out the decoded instructions. -/
namespace AArch64

open Masked DecodeError

theorem ShiftKind.shifted?_eq {n : Nat} (kind : ShiftKind) (x : BitVec n) (hn : 0 < n) (amount : Nat) :
    kind.shifted? x amount = some (kind.apply x amount) := by
  have hmod := Nat.mod_lt amount hn
  cases kind <;>
    simp [shifted?, apply, Nat.ne_of_gt hn, shiftLeft?_eq _ hmod, shiftRight?_eq _ hmod, signedShiftRight?_eq _ hmod]

theorem Extension.extended?_eq (e : Extension) (x : BitVec 64) (shift : Nat) : e.extended? x shift = some (e.apply x shift) :=
  shiftLeft?_eq _ (Nat.mod_lt shift (by decide))

namespace Attempt

variable {w : InstructionWord} {m : Machine}

theorem shiftedOperand_raw : shiftedOperand w m.raw =
    some (.ok ((IntegerInstruction.shiftedOperand w).value m.state w.width.bits), m.raw) := by
  simp only [shiftedOperand, bind_apply, readX_raw, andThen_ok, ShiftKind.shifted?_eq _ _ w.width.bits_pos, checked_some,
    pure_apply]
  rfl

theorem writeWithFlags_raw {n : Nat} (x : BitVec n) (flags : Option Nzcv) (role : Role) :
    writeWithFlags w x flags role m.raw =
      some (.ok .ready, (m.withState (IntegerResult.apply { value := some x, flags } w.rd role m.state)).raw) := by
  cases flags with
  | none => simp [writeWithFlags, IntegerResult.apply]
  | some f => simp [writeWithFlags, IntegerResult.apply]

theorem writeDestination_raw {n : Nat} (x : BitVec n) :
    writeDestination w x m.raw = some (.ok .ready, (m.withState (m.state.write w.rd x)).raw) := by
  simp [writeDestination]

theorem writeSum_raw {n : Nat} (r : Sum n) (role : Role) :
    writeSum w r role m.raw =
      some (.ok .ready,
        (m.withState (IntegerResult.apply { value := some r.result, flags := if w.bit 29 then some r.flags else none }
          w.rd (if w.bit 29 then .zero else role) m.state)).raw) :=
  writeWithFlags_raw _ _ _

theorem executeDecoded_integer (i : IntegerInstruction) :
    m.executeDecoded (.ok (.integer i)) = (.ok .ready, m.withState (i.execute m.state)) := rfl

namespace CarriesOut

variable {i : IntegerInstruction} {x : Attempt Completion}

theorem setsFlags {f : Nzcv} (heval : i.op.eval m.state i.rd i.width.bits = { flags := some f })
    (hx : x m.raw = some (.ok .ready, (m.withState (m.state.setFlags f)).raw)) : CarriesOut m .integer (.ok i) x := by
  rw [CarriesOut, hx, Except.map, executeDecoded_integer, IntegerInstruction.execute, heval]
  rfl

theorem writes {v : BitVec i.width.bits} (heval : i.op.eval m.state i.rd i.width.bits = { value := some v })
    (hx : x m.raw = some (.ok .ready, (m.withState (m.state.write i.rd v i.role)).raw)) :
    CarriesOut m .integer (.ok i) x := by
  rw [CarriesOut, hx, Except.map, executeDecoded_integer, IntegerInstruction.execute, heval]
  rfl

end CarriesOut

theorem setNzcv_ready (f : Nzcv) :
    (setNzcv f >>= fun _ => pure Completion.ready) m.raw =
      some (.ok .ready, (m.withState (m.state.setFlags f)).raw) := by
  simp

open IntegerInstruction

theorem pcRelative_eq : CarriesOut m .integer (decodeAddress w) (pcRelative w) := by
  have himm := signExtended?_setWidth (w.extractLsb 23 5 ++ w.extractLsb 30 29) (by decide) (by decide)
  rw [decodeAddress, pcRelative, himm, checked_some]
  refine .read (pure_apply _ _) <| .read readPc_raw ?_
  generalize w.bit 31 = page
  cases page <;> exact writeDestination_raw _

theorem addSubImmediate_eq : CarriesOut m .integer (decodeAddSubImmediate w) (addSubImmediate w) := by
  refine .read (readX_raw _ _ _) ?_
  rw [decodeAddSubImmediate]
  generalize w.bit 22 = shifted
  cases shifted with
  | false =>
    simp only [Bool.false_eq_true, if_false, BitVec.shiftLeft_zero]
    exact writeSum_raw _ _
  | true => exact writeSum_raw _ _

theorem logicalImmediate_eq : CarriesOut m .integer (decodeLogicalImmediate w) (logicalImmediate w) := by
  refine .unallocatedIf fun _ => ?_
  have himm : BitMasks.immediate? (w.number 22 10) = _ := BitMasks.immediate?_eq (w.extractLsb 22 10)
  rw [himm, checked_some]
  refine .read (pure_apply _ _) ?_
  cases hcode : BitMasks.logicalImmediate (w.extractLsb 22 10) with
  | none =>
    rw [BitMasks.value_eq_zero_iff.2 hcode]
    exact .unallocated
  | some imm =>
    have hne : ¬BitMasks.value (w.extractLsb 22 10) = 0#64 := by
      rw [BitMasks.value_eq_zero_iff, hcode]
      exact nofun
    rw [beq_eq_false_iff_ne.2 hne]
    have hvalue : BitMasks.value (w.extractLsb 22 10) = imm := by rw [BitMasks.value, hcode, Option.getD_some]
    rw [hvalue]
    exact .read (pure_apply _ _) <| .read (readX_raw _ _ _) <| writeWithFlags_raw _ _ _

theorem moveWide_eq : CarriesOut m .integer (decodeMoveWide w) (moveWide w) := by
  have hplace : w.number 22 21 * 16 < 64 := by
    have hhw : w.number 22 21 < 4 := (w.extractLsb 22 21).isLt
    omega
  unfold decodeMoveWide moveWide
  simp only [shiftLeft?_eq _ hplace, checked_some, Nat.mul_comm 16]
  have hopc : w.number 30 29 < 4 := (w.extractLsb 30 29).isLt
  generalize w.number 30 29 = opc at hopc
  match opc with
  | 0 => exact .unallocatedIf fun _ => .read (pure_apply _ _) <| .read (pure_apply _ _) <| writeDestination_raw _
  | 1 => exact .unallocated
  | 2 => exact .unallocatedIf fun _ => .read (pure_apply _ _) <| .read (pure_apply _ _) <| writeDestination_raw _
  | 3 =>
    refine .unallocatedIf fun _ => .read (pure_apply _ _) <| .read (readX_raw _ _ _) ?_
    exact .read (pure_apply _ _) <| .read (pure_apply _ _) <| writeDestination_raw _

theorem setWidth_ones {n : Nat} (hn : n ≤ 64) : (ones n).setWidth n = BitVec.allOnes n := by
  refine BitVec.eq_of_getLsbD_eq fun i hi => ?_
  rw [ones_eq, BitVec.getLsbD_setWidth, Bits.getLsbD_ones, BitVec.getLsbD_allOnes]
  simp [hi, Nat.lt_of_lt_of_le hi hn]

theorem bitfieldMove?_eq {n : Nat} (hpos : 0 < n) (hn : n ≤ 64) (kind : BitfieldKind) (dst src : BitVec n)
    (rotation : Nat) {signBit : Nat} (hsign : signBit < 64) (wmask tmask : BitVec 64) :
    ∃ x, bitfieldMove? kind (dst.setWidth 64) (src.setWidth 64) rotation signBit n wmask tmask = some x ∧
      x.setWidth n = bitfieldMove kind dst src rotation signBit (wmask.setWidth n) (tmask.setWidth n) := by
  have hback (x : BitVec n) : (x.setWidth 64).setWidth n = x := by
    rw [BitVec.setWidth_setWidth_of_le _ hn, BitVec.setWidth_eq]
  have hrotate : (Bits.rotateRight (src.setWidth 64) rotation n).setWidth n = src.rotateRight rotation := by
    rw [Bits.rotateRight, hback, hback]
  have hbit : (src.setWidth 64).getLsbD signBit = src.getLsbD signBit := by
    rw [BitVec.getLsbD_setWidth, decide_eq_true hsign, Bool.true_and]
  simp only [bitfieldMove?, bitfieldMove, rotateRight?_eq _ hpos hn, bit?_eq _ hsign, Option.bind_eq_bind,
    Option.bind_some, hbit]
  cases kind with
  | signed =>
    refine ⟨_, rfl, ?_⟩
    cases src.getLsbD signBit with
    | false => simp [BitVec.setWidth_and, hrotate]
    | true => simp [BitVec.setWidth_or, BitVec.setWidth_and, BitVec.setWidth_not hn, setWidth_ones hn, hrotate]
  | inserting =>
    refine ⟨_, rfl, ?_⟩
    simp only [BitVec.setWidth_or, BitVec.setWidth_and, BitVec.setWidth_not hn, hrotate, hback]
  | unsigned =>
    refine ⟨_, rfl, ?_⟩
    simp only [BitVec.setWidth_and, hrotate]

theorem bitfield_eq : CarriesOut m .integer (decodeBitfield w) (bitfield w) := by
  have himms : (w.extractLsb 15 10).toNat < 64 := (w.extractLsb 15 10).isLt
  have hmoved (kind : BitfieldKind) (wmask tmask : BitVec 64) :
      CarriesOut m .integer
        (.ok
          { width := w.width, rd := w.rd
            op := .bitfield kind w.rn (w.extractLsb 21 16).toNat (w.extractLsb 15 10).toNat wmask tmask })
        (do
          let src ← readX w.width.bits w.rn.toNat
          let dst ← readX w.width.bits w.rd.toNat
          let x ← checked (bitfieldMove? kind (dst.setWidth 64) (src.setWidth 64) (w.extractLsb 21 16).toNat
            (w.extractLsb 15 10).toNat w.width.bits wmask tmask)
          writeDestination w (x.setWidth w.width.bits)) := by
    obtain ⟨x, hx, hmove⟩ := bitfieldMove?_eq w.width.bits_pos w.width.bits_le kind (m.state.read w.width.bits w.rd)
      (m.state.read w.width.bits w.rn) (w.extractLsb 21 16).toNat himms wmask tmask
    refine .read (readX_raw _ _ _) <| .read (readX_raw _ _ _) <| .read (checked_raw hx) ?_
    rw [hmove]
    exact writeDestination_raw _
  have hopc : w.number 30 29 < 4 := (w.extractLsb 30 29).isLt
  unfold decodeBitfield bitfield
  generalize w.number 30 29 = opc at hopc
  match opc with
  | 0 | 1 | 2 =>
    refine .unallocatedIf fun _ => .read (checked_raw (BitMasks.decode?_eq _ _ _ _ _)) ?_
    cases BitMasks.decode (w.bit 22) (w.extractLsb 15 10) (w.extractLsb 21 16) false w.width.bits with
    | none => exact .unallocated
    | some masks => exact hmoved _ masks.1 masks.2
  | 3 => exact .unallocated

theorem getLsbD_concat {n k i : Nat} (hn : n ≤ 64) (a b : BitVec n) (hi : i < n) :
    ((a.setWidth 128 <<< n ||| b.setWidth 128) >>> k).getLsbD i = ((a ++ b) >>> k).getLsbD i := by
  rw [BitVec.getLsbD_ushiftRight, BitVec.getLsbD_ushiftRight, BitVec.getLsbD_append, BitVec.getLsbD_or,
    BitVec.getLsbD_shiftLeft, BitVec.getLsbD_setWidth, BitVec.getLsbD_setWidth]
  have hfits : i < 64 := Nat.lt_of_lt_of_le hi hn
  by_cases hlow : k + i < n
  · have hlt : k + i < 128 := by omega
    simp [hlow, hlt]
  · have hzero := b.getLsbD_of_ge (k + i) (Nat.le_of_not_lt hlow)
    by_cases hhigh : k + i - n < n
    · have hlt : k + i < 128 := by omega
      have hlt' : k + i - n < 128 := by omega
      simp [hlow, hzero, hlt, hlt']
    · simp [hlow, hzero, a.getLsbD_of_ge (k + i - n) (Nat.le_of_not_lt hhigh)]

theorem setWidth_extract {n : Nat} (hn : n ≤ 64) (a b : BitVec n) (k : Nat) :
    ((((a.setWidth 128 <<< n ||| b.setWidth 128) >>> k).setWidth 64) &&& ones n).setWidth n =
      ((a ++ b) >>> k).setWidth n := by
  refine BitVec.eq_of_getLsbD_eq fun i hi => ?_
  have hlt : i < 64 := Nat.lt_of_lt_of_le hi hn
  rw [BitVec.getLsbD_setWidth, BitVec.getLsbD_setWidth, and_ones, BitVec.getLsbD_setWidth, getLsbD_concat hn a b hi]
  simp [hi, hlt]

theorem extract_eq : CarriesOut m .integer (decodeExtract w) (extract w) := by
  have hn := w.width.bits_le
  have hlsb : w.number 15 10 < 64 := (w.extractLsb 15 10).isLt
  refine .unallocatedIf fun h => .read (readX_raw _ _ _) <| .read (checked_raw (shiftLeft?_eq _ (by omega))) <|
    .read (readX_raw _ _ _) <| .read (checked_raw (shiftRight?_eq _ (by omega))) <| .writes ?_ (writeDestination_raw _)
  simp only [IntegerOp.eval, setWidth_extract hn]

theorem logicalShiftedRegister_eq : CarriesOut m .integer (decodeLogicalShifted w) (logicalShiftedRegister w) :=
  .unallocatedIf fun _ => .read (readX_raw _ _ _) <| .read shiftedOperand_raw <| writeWithFlags_raw _ _ _

theorem addSubShiftedRegister_eq : CarriesOut m .integer (decodeAddSubShifted w) (addSubShiftedRegister w) := by
  refine .unallocatedIf fun _ => .read (readX_raw _ _ _) <| .read shiftedOperand_raw ?_
  rw [CarriesOut, writeSum_raw, ite_self]
  rfl

theorem addSubExtendedRegister_eq : CarriesOut m .integer (decodeAddSubExtended w) (addSubExtendedRegister w) := by
  refine .unallocatedIf fun _ => .read (readX_raw _ _ _) <| .read (readX_raw _ _ _) ?_
  rw [Extension.extended?_eq, checked_some]
  exact .read (pure_apply _ _) <| writeSum_raw _ _

theorem addSubCarry_eq : CarriesOut m .integer (decodeAddSubCarry w) (addSubCarry w) := by
  refine .ite (fun _ => .notYetImplemented) fun _ => ?_
  refine .read (readX_raw _ _ _) <| .read (readX_raw _ _ _) <| .read (holds_raw _) ?_
  rw [CarriesOut, writeSum_raw, ite_self]
  rfl

theorem conditionalCompare_eq : CarriesOut m .integer (decodeConditionalCompare w) (conditionalCompare w) := by
  refine .unallocatedIf fun _ => .read (holds_raw _) ?_
  generalize w.bit 11 = immediate
  cases hholds : (Condition.ofCode (w.extractLsb 15 12)).holds m.state.nzcv with
  | false =>
    rw [NzcvWord.ofNibble_eq_word]
    refine .setsFlags (f := Nzcv.ofNibble (w.extractLsb 3 0)) ?_ rfl
    simp [IntegerOp.eval, hholds]
  | true =>
    refine .read (readX_raw _ _ _) ?_
    cases immediate with
    | false =>
      refine .read (readX_raw _ _ _) <| .setsFlags ?_ (setNzcv_ready _)
      simp [IntegerOp.eval, hholds, Operand.value, ShiftKind.apply]
    | true =>
      refine .read (pure_apply _ _) <| .setsFlags ?_ (setNzcv_ready _)
      simp [IntegerOp.eval, hholds, Operand.value]

theorem conditionalSelect_eq : CarriesOut m .integer (decodeConditionalSelect w) (conditionalSelect w) := by
  refine .unallocatedIf fun _ => .read (holds_raw _) ?_
  cases hholds : (Condition.ofCode (w.extractLsb 15 12)).holds m.state.nzcv with
  | false =>
    refine .read (readX_raw _ _ _) <| .read (pure_apply _ _) <| .writes ?_ (writeDestination_raw _)
    simp only [IntegerOp.eval, hholds]
    rfl
  | true =>
    refine .read (readX_raw _ _ _) <| .writes ?_ (writeDestination_raw _)
    simp [IntegerOp.eval, hholds]

theorem leadingZeros?_eq {n : Nat} (hn : n ≤ 64) (x : BitVec n) : leadingZeros? x = some x.clz := by
  have hsize : x.toNat.size ≤ n := Nat.size_le.2 x.isLt
  have hnat : (x.setWidth 64).clz.toNat = 64 - x.toNat.size := by
    rw [LeadingBits.toNat_clz, BitVec.toNat_setWidth_of_le hn]
  have hsub : 64 - x.toNat.size - (64 - n) = n - x.toNat.size := by omega
  rw [leadingZeros?, hnat, sub?_eq hn, Option.bind_eq_bind, Option.bind_some, sub?_eq (by omega), Option.bind_some,
    hsub, ← LeadingBits.toNat_clz, BitVec.ofNat_toNat, BitVec.setWidth_eq]

theorem dataProcessing1Source_eq : CarriesOut m .integer (decodeOneSource w) (dataProcessing1Source w) := by
  refine .unallocatedIf fun _ => .ite (fun _ => .notYetImplemented) fun _ => .read (readX_raw _ _ _) ?_
  generalize w.number 15 10 = opcode
  split
  next => exact .read (pure_apply _ _) <| writeDestination_raw _
  next => exact .read (pure_apply _ _) <| writeDestination_raw _
  next => exact .read (pure_apply _ _) <| writeDestination_raw _
  next => exact .ite (fun _ => .read (pure_apply _ _) <| writeDestination_raw _) fun _ => .unallocated
  next =>
    simp only [leadingZeros?_eq w.width.bits_le]
    exact .read (pure_apply _ _) <| writeDestination_raw _
  next => exact .read (pure_apply _ _) <| writeDestination_raw _
  next => exact .notYetImplemented
  next => exact .notYetImplemented
  next => exact .notYetImplemented
  next => (try split) <;> first | contradiction | exact .unallocated

theorem quotientOrZero?_eq {n : Nat} (signed : Bool) (a b : BitVec n) :
    quotientOrZero? signed a b = some (if signed then a.sdiv b else a / b) := by
  by_cases h : b = 0#n
  · cases signed <;> simp [quotientOrZero?, h, BitVec.sdiv_zero]
  · rw [quotientOrZero?, if_neg h, quotient?, if_neg h]

/-- The amount loses its upper half before it is cut to the width. -/
theorem shifted?_amount (kind : ShiftKind) (width : Width) (a b : BitVec width.bits) :
    kind.shifted? a (b.setWidth 32).toNat = some (kind.apply a b.toNat) := by
  have hdvd : width.bits ∣ 2 ^ 32 := by cases width <;> decide
  have hamount : (b.setWidth 32).toNat % width.bits = b.toNat % width.bits := by
    rw [BitVec.toNat_setWidth, Nat.mod_mod_of_dvd _ hdvd]
  rw [kind.shifted?_eq a width.bits_pos]
  cases kind <;> simp only [ShiftKind.apply, hamount]

theorem dataProcessing2Source_eq : CarriesOut m .integer (decodeTwoSource w) (dataProcessing2Source w) := by
  refine .ite (fun _ => .error_ite .notYetImplemented .unallocated) fun _ => ?_
  refine .read (readX_raw _ _ _) <| .read (readX_raw _ _ _) ?_
  generalize w.number 15 10 = opcode
  split
  next => exact .read (checked_raw (quotientOrZero?_eq _ _ _)) <| writeDestination_raw _
  next => exact .read (checked_raw (quotientOrZero?_eq _ _ _)) <| writeDestination_raw _
  next => exact .read (checked_raw (shifted?_amount _ _ _ _)) <| writeDestination_raw _
  next => exact .read (checked_raw (shifted?_amount _ _ _ _)) <| writeDestination_raw _
  next => exact .read (checked_raw (shifted?_amount _ _ _ _)) <| writeDestination_raw _
  next => exact .read (checked_raw (shifted?_amount _ _ _ _)) <| writeDestination_raw _
  next => exact .notYetImplemented
  next => exact .notYetImplemented
  next => exact .notYetImplemented
  next => exact .notYetImplemented
  next => (try split) <;> (try split) <;> first | contradiction | exact .notYetImplemented | exact .unallocated

theorem unsigned?_mul {n k : Nat} (hk : k = 2 * n) (a b : BitVec n) :
    unsigned? k (a.toNat * b.toNat) = some (a.toNat * b.toNat) := by
  subst hk
  refine if_pos ?_
  calc a.toNat * b.toNat < 2 ^ n * 2 ^ n := Nat.mul_lt_mul'' a.isLt b.isLt
    _ = 2 ^ (2 * n) := by rw [← Nat.pow_add, Nat.two_mul]

/-- Even the product of the two least numbers is below the greatest. -/
theorem signed?_mul {n k : Nat} (hn : 0 < n) (hk : k = 2 * n) (a b : BitVec n) :
    signed? k (a.toInt * b.toInt) = some (a.toInt * b.toInt) := by
  subst hk
  have habs (x : BitVec n) : x.toInt.natAbs ≤ 2 ^ (n - 1) := by
    have hle := BitVec.le_toInt x
    have hlt := BitVec.toInt_lt (x := x)
    have hcast : ((2 ^ (n - 1) : Nat) : Int) = 2 ^ (n - 1) := by push_cast; rfl
    omega
  have hproduct : (a.toInt * b.toInt).natAbs ≤ 2 ^ (n - 1) * 2 ^ (n - 1) := by
    rw [Int.natAbs_mul]
    exact Nat.mul_le_mul (habs a) (habs b)
  have hpow : 2 ^ (n - 1) * 2 ^ (n - 1) < 2 ^ (2 * n - 1) := by
    rw [← Nat.pow_add]
    exact Nat.pow_lt_pow_right Nat.one_lt_two (by omega)
  have hcast : ((2 ^ (2 * n - 1) : Nat) : Int) = 2 ^ (2 * n - 1) := by push_cast; rfl
  exact if_pos ⟨by omega, by omega⟩

theorem ofNat_unsigned?_mul {n k : Nat} (hk : k = 2 * n) (a b : BitVec n) :
    (unsigned? k (a.toNat * b.toNat)).map (BitVec.ofNat k) = some (a.setWidth k * b.setWidth k) := by
  rw [unsigned?_mul hk, Option.map_some, BitVec.ofNat_mul, BitVec.ofNat_toNat, BitVec.ofNat_toNat]

theorem ofInt_signed?_mul {n k : Nat} (hn : 0 < n) (hk : k = 2 * n) (a b : BitVec n) :
    (signed? k (a.toInt * b.toInt)).map (BitVec.ofInt k) = some (a.signExtend k * b.signExtend k) := by
  rw [signed?_mul hn hk, Option.map_some, BitVec.ofInt_mul]
  rfl

theorem longProduct?_eq (signed : Bool) (a b : BitVec 32) :
    longProduct? signed a b = some (longOperand signed a * longOperand signed b) := by
  cases signed with
  | false => exact ofNat_unsigned?_mul rfl a b
  | true => exact ofInt_signed?_mul (by decide) rfl a b

theorem highProduct?_eq (signed : Bool) (a b : BitVec 64) :
    highProduct? signed a b = some (highProduct signed a b) := by
  cases signed with
  | false =>
    have hproduct := congrArg (Option.map (BitVec.extractLsb 127 64)) (ofNat_unsigned?_mul (k := 128) rfl a b)
    rwa [Option.map_map] at hproduct
  | true =>
    have hproduct := congrArg (Option.map (BitVec.extractLsb 127 64)) (ofInt_signed?_mul (k := 128) (by decide) rfl a b)
    rwa [Option.map_map] at hproduct

theorem dataProcessing3Source_eq : CarriesOut m .integer (decodeThreeSource w) (dataProcessing3Source w) := by
  unfold decodeThreeSource dataProcessing3Source
  generalize w.number 23 21 = op
  cases w.number 30 29 != 0 with
  | true => exact .unallocated
  | false =>
    cases hsf : w.bit 31 with
    | false =>
      by_cases hop : op = 0
      · subst hop
        exact .read (pure_apply _ _) <| .read (readX_raw _ _ _) <| .read (readX_raw _ _ _) <| .read (readX_raw _ _ _) <|
          .read (pure_apply _ _) <| writeDestination_raw _
      · have hrefused : (false || !false && op != 0) = true := by simp [hop]
        simp only [hrefused, Bool.false_eq_true, if_false]
        (try split) <;> first | contradiction | exact .unallocated | (split <;> exact .unallocated)
    | true =>
      have hwidth : w.width = .w64 := congrArg Width.ofBit hsf
      rw [hwidth]
      simp only [Bool.false_eq_true, if_true, if_false, Width.bits]
      refine .read (pure_apply _ _) <| .read (readX_raw _ _ _) <| .read (readX_raw _ _ _) <| .read (readX_raw _ _ _) ?_
      split
      next => exact .read (pure_apply _ _) <| writeDestination_raw _
      next =>
        refine .read (checked_raw (longProduct?_eq _ _ _)) <| .read (pure_apply _ _) <| .writes ?_ (writeDestination_raw _)
        simp [IntegerOp.eval, Width.bits, State.setWidth_read]
      next =>
        refine .read (checked_raw (longProduct?_eq _ _ _)) <| .read (pure_apply _ _) <| .writes ?_ (writeDestination_raw _)
        simp [IntegerOp.eval, Width.bits, State.setWidth_read]
      next =>
        refine .ite (fun _ => .unallocated) fun _ => ?_
        rw [highProduct?_eq, Option.map_some, BitVec.setWidth_eq]
        exact .read (pure_apply _ _) <| .writes (by simp [IntegerOp.eval, Width.bits]) (writeDestination_raw _)
      next =>
        refine .ite (fun _ => .unallocated) fun _ => ?_
        rw [highProduct?_eq, Option.map_some, BitVec.setWidth_eq]
        exact .read (pure_apply _ _) <| .writes (by simp [IntegerOp.eval, Width.bits]) (writeDestination_raw _)
      next => (try split) <;> first | contradiction | exact .unallocated

theorem dataProcessingSource_eq :
    CarriesOut m .integer (if w.bit 30 then decodeOneSource w else decodeTwoSource w) (dataProcessingSource w) :=
  .ite (fun _ => dataProcessing1Source_eq) fun _ => dataProcessing2Source_eq

theorem dataProcessingRegisterMisc_eq :
    CarriesOut m .integer (decodeRegisterMisc w) (dataProcessingRegisterMisc w) := by
  have hkey : KeyTable.registerMisc.key w < 4 := KeyTable.key_lt_entries _ w
  unfold decodeRegisterMisc dataProcessingRegisterMisc dispatch
  generalize KeyTable.registerMisc.key w = key at hkey
  match key with
  | 0 => exact addSubCarry_eq
  | 1 => exact conditionalCompare_eq
  | 2 => exact conditionalSelect_eq
  | 3 => exact dataProcessingSource_eq

theorem dataProcessingRegister_eq : CarriesOut m .integer (decodeRegister w) (dataProcessingRegister w) := by
  have hkey : KeyTable.register.key w < 8 := KeyTable.key_lt_entries _ w
  unfold decodeRegister dataProcessingRegister dispatch
  generalize KeyTable.register.key w = key at hkey
  match key with
  | 0 | 1 => exact logicalShiftedRegister_eq
  | 2 => exact addSubShiftedRegister_eq
  | 3 => exact addSubExtendedRegister_eq
  | 4 => exact dataProcessingRegisterMisc_eq
  | 5 => exact .unallocated
  | 6 | 7 => exact dataProcessing3Source_eq

theorem dataProcessingImmediate_eq : CarriesOut m .integer (decodeImmediate w) (dataProcessingImmediate w) := by
  have hkey : KeyTable.immediate.key w < 8 := KeyTable.key_lt_entries _ w
  unfold decodeImmediate dataProcessingImmediate dispatch
  generalize KeyTable.immediate.key w = key at hkey
  match key with
  | 0 | 1 => exact pcRelative_eq
  | 2 => exact addSubImmediate_eq
  | 3 => exact .notYetImplemented
  | 4 => exact logicalImmediate_eq
  | 5 => exact moveWide_eq
  | 6 => exact bitfield_eq
  | 7 => exact extract_eq

end Attempt
end AArch64
