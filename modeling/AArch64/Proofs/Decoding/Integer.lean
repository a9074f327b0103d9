import AArch64.Integer.Decode
import AArch64.Proofs.Decoding.Fields

/-! Decoded integer instructions: where they write. -/
namespace AArch64

theorem Width.bits_ofBit (sf : Bool) : (Width.ofBit sf).bits = if sf then 64 else 32 := by
  cases sf <;> rfl

theorem BitMasks.elementSize?_bounds {n : Bool} {imms : BitVec 6} {esize : Nat}
    (h : elementSize? n imms = some esize) : 2 ≤ esize ∧ esize ≤ 64 := by
  have hlt : (BitVec.ofBool n ++ ~~~imms).toNat < 2 ^ 7 := BitVec.isLt _
  simp only [elementSize?] at h
  generalize (BitVec.ofBool n ++ ~~~imms).toNat = c at h hlt
  split at h
  next => cases h
  next hc =>
    have hlow : 1 ≤ c.log2 := (Nat.le_log2 (by omega)).2 (by omega)
    have hhigh : c.log2 < 7 := (Nat.log2_lt (by omega)).2 hlt
    have hpow {i j : Nat} (hij : i ≤ j) : 2 ^ i ≤ 2 ^ j := Nat.pow_le_pow_right (by decide) hij
    cases h
    exact ⟨hpow hlow, hpow (Nat.le_of_lt_succ hhigh)⟩

namespace IntegerInstruction

/-- The destination is the first field of the word, read as the stack pointer at most where `stack` allows it. -/
structure FitsWord (w : InstructionWord) (stack : Bool) (i : IntegerInstruction) : Prop where
  rd : i.rd = w.rd
  role : i.role = .stackPointer → stack = true

theorem FitsWord.of_plain {w : InstructionWord} {stack : Bool} {i : IntegerInstruction} (h : FitsWord w false i) :
    FitsWord w stack i where
  rd := h.rd
  role hr := absurd (h.role hr) Bool.false_ne_true

variable (w : InstructionWord)

theorem role_destinationRole {setFlags : Bool} (h : destinationRole setFlags = .stackPointer) :
    (!setFlags) = true := by
  cases setFlags <;> simp_all [destinationRole]

theorem yields_decodeAddress : Yields (decodeAddress w) (FitsWord w false) :=
  .ok ⟨rfl, nofun⟩

theorem yields_decodeAddSubImmediate : Yields (decodeAddSubImmediate w) (FitsWord w (!w.bit 29)) :=
  .ok ⟨rfl, role_destinationRole⟩

theorem yields_decodeLogicalImmediate :
    Yields (decodeLogicalImmediate w) (FitsWord w (w.number 30 29 != 3)) := by
  refine .guard fun _ => ?_
  split
  · exact .error _
  · exact .ok ⟨rfl, role_destinationRole⟩

theorem yields_decodeMoveWide : Yields (decodeMoveWide w) (FitsWord w false) := by
  unfold decodeMoveWide
  split
  all_goals first
    | exact .error _
    | exact .guard fun _ => .ok ⟨rfl, nofun⟩

theorem yields_decodeBitfield : Yields (decodeBitfield w) (FitsWord w false) := by
  unfold decodeBitfield
  split
  case h_4 => exact .error _
  all_goals
    refine .guard fun _ => ?_
    split
    · exact .error _
    · exact .ok ⟨rfl, nofun⟩

theorem yields_decodeExtract : Yields (decodeExtract w) (FitsWord w false) :=
  .guard fun _ => .ok ⟨rfl, nofun⟩

/-- The immediate forms of addition, subtraction and logic can write the stack pointer. -/
def stackImmediate : Bool :=
  (KeyTable.immediate.key w == 2 && !w.bit 29) || (KeyTable.immediate.key w == 4 && w.number 30 29 != 3)

theorem yields_decodeImmediate : Yields (decodeImmediate w) (FitsWord w (stackImmediate w)) := by
  unfold decodeImmediate
  split
  next => exact (yields_decodeAddress w).mono fun _ => .of_plain
  next => exact (yields_decodeAddress w).mono fun _ => .of_plain
  next hkey =>
    have hstack : stackImmediate w = !w.bit 29 := by simp [stackImmediate, hkey]
    rw [hstack]
    exact yields_decodeAddSubImmediate w
  next => exact .error _
  next hkey =>
    have hstack : stackImmediate w = (w.number 30 29 != 3) := by simp [stackImmediate, hkey]
    rw [hstack]
    exact yields_decodeLogicalImmediate w
  next => exact (yields_decodeMoveWide w).mono fun _ => .of_plain
  next => exact (yields_decodeBitfield w).mono fun _ => .of_plain
  next => exact (yields_decodeExtract w).mono fun _ => .of_plain

theorem yields_decodeLogicalShifted : Yields (decodeLogicalShifted w) (FitsWord w false) :=
  .guard fun _ => .ok ⟨rfl, nofun⟩

theorem yields_decodeAddSubShifted : Yields (decodeAddSubShifted w) (FitsWord w false) :=
  .guard fun _ => .ok ⟨rfl, nofun⟩

theorem yields_decodeAddSubExtended : Yields (decodeAddSubExtended w) (FitsWord w (!w.bit 29)) :=
  .guard fun _ => .ok ⟨rfl, role_destinationRole⟩

theorem yields_decodeOneSource : Yields (decodeOneSource w) (FitsWord w false) := by
  refine .guard fun _ => .guard fun _ => ?_
  split
  all_goals first
    | exact .error _
    | exact .ok ⟨rfl, nofun⟩
    | exact .require fun _ => .ok ⟨rfl, nofun⟩

theorem yields_decodeTwoSource : Yields (decodeTwoSource w) (FitsWord w false) := by
  refine .guard fun _ => ?_
  split
  all_goals first
    | exact .error _
    | exact .ok ⟨rfl, nofun⟩

theorem yields_decodeThreeSource : Yields (decodeThreeSource w) (FitsWord w false) := by
  have hwide (op : IntegerOp) : Yields
      (if w.bit 31 then .ok { width := w.width, rd := w.rd, op := op : IntegerInstruction } else .error .unallocated)
      (FitsWord w false) :=
    .require fun _ => .ok ⟨rfl, nofun⟩
  refine .guard fun _ => ?_
  split
  · exact .ok ⟨rfl, nofun⟩
  · exact hwide _
  · exact hwide _
  · exact .guard fun _ => hwide _
  · exact .guard fun _ => hwide _
  · exact .error _

theorem yields_decodeRegisterMisc : Yields (decodeRegisterMisc w) (FitsWord w false) := by
  unfold decodeRegisterMisc
  split
  · rw [decodeAddSubCarry]
    exact .guard fun _ => .ok ⟨rfl, nofun⟩
  · rw [decodeConditionalCompare]
    exact .guard fun _ => .ok ⟨rfl, nofun⟩
  · rw [decodeConditionalSelect]
    exact .guard fun _ => .ok ⟨rfl, nofun⟩
  · exact .ite (fun _ => yields_decodeOneSource w) fun _ => yields_decodeTwoSource w

/-- Of the forms with register operands only the extended one can write the stack pointer. -/
def stackRegister : Bool := KeyTable.register.key w == 3 && !w.bit 29

theorem yields_decodeRegister : Yields (decodeRegister w) (FitsWord w (stackRegister w)) := by
  unfold decodeRegister
  split
  next => exact (yields_decodeLogicalShifted w).mono fun _ => .of_plain
  next => exact (yields_decodeLogicalShifted w).mono fun _ => .of_plain
  next => exact (yields_decodeAddSubShifted w).mono fun _ => .of_plain
  next hkey =>
    have hstack : stackRegister w = !w.bit 29 := by simp [stackRegister, hkey]
    rw [hstack]
    exact yields_decodeAddSubExtended w
  next => exact (yields_decodeRegisterMisc w).mono fun _ => .of_plain
  next => exact .error _
  next => exact (yields_decodeThreeSource w).mono fun _ => .of_plain

end IntegerInstruction
end AArch64
