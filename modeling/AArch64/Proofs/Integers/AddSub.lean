import AArch64.Proofs.Comparison
import AArch64.Proofs.Execution

/-! Additions and subtractions that set the flags. The same sum can be written with registers, with an extended
register, with an immediate, with the carry or as a conditional comparison. Every form gives the same flags and the
same result, those of exact arithmetic on its two operands. -/
namespace AArch64

attribute [ext] Nzcv

instance {w : Nat} {x : Int} : Decidable (FitsSigned w x) := inferInstanceAs (Decidable (_ ∧ _))

/-- The flags of a sum or a difference by exact arithmetic. Carry means that a sum is out of the unsigned range, or
that a difference is not below zero. -/
def exactFlags {w : Nat} (subtract : Bool) (a b : BitVec w) : Nzcv :=
  let result := if subtract then a - b else a + b
  let exact : Int := if subtract then a.toInt - b.toInt else a.toInt + b.toInt
  { negative := result.msb
    zero := result == 0#w
    carry := if subtract then decide (b.toNat ≤ a.toNat) else decide (2 ^ w ≤ a.toNat + b.toNat)
    overflow := !decide (FitsSigned w exact) }

section Exact

variable {w : Nat} (subtract : Bool) (a b : BitVec w)

theorem addOrSub_eq :
    addOrSub subtract a b = addWithCarry a (if subtract then ~~~b else b) subtract := by
  cases subtract <;> rfl

theorem result_addOrSub : (addOrSub subtract a b).result = if subtract then a - b else a + b := by
  cases subtract with
  | true => exact result_difference
  | false => simp [addOrSub, addWithCarry]

theorem flags_addOrSub (hw : 0 < w) : (addOrSub subtract a b).flags = exactFlags subtract a b := by
  apply Nzcv.ext
  case negative =>
    have hn : (addOrSub subtract a b).flags.negative = (addOrSub subtract a b).result.msb := by rw [addOrSub_eq]; rfl
    rw [hn, result_addOrSub, exactFlags]
  case zero =>
    have hz : (addOrSub subtract a b).flags.zero = ((addOrSub subtract a b).result == 0#w) := by rw [addOrSub_eq]; rfl
    rw [hz, result_addOrSub, exactFlags]
  case carry =>
    cases subtract with
    | true => exact Bool.eq_iff_iff.2 (carry_difference.trans decide_eq_true_iff.symm)
    | false => exact Bool.eq_iff_iff.2 (carry_sum.trans decide_eq_true_iff.symm)
  case overflow =>
    rw [exactFlags, ← decide_not]
    cases subtract with
    | true => exact Bool.eq_iff_iff.2 ((overflow_difference hw).trans decide_eq_true_iff.symm)
    | false => exact Bool.eq_iff_iff.2 ((overflow_sum hw).trans decide_eq_true_iff.symm)

end Exact

/-- How a word writes an addition or a subtraction. The registers of the first two forms are neither shifted nor
narrowed, and the comparisons are under the condition that always holds. -/
inductive AddSubForm
  | shifted | extended | immediate | withCarry | compare | compareImmediate

/-- The fixed bits of each form. -/
def InstructionWord.HasForm (w : InstructionWord) (f : AddSubForm) (width : Width) (subtract : Bool) : Prop :=
  w.width = width ∧ w.bit 30 = subtract ∧
    match f with
    | .shifted => w.number 29 21 = 0b101011000 ∧ w.number 15 10 = 0b000000
    | .extended => w.number 29 21 = 0b101011001 ∧ w.number 15 10 = 0b011000
    | .immediate => w.number 29 23 = 0b1100010
    | .withCarry => w.number 29 21 = 0b111010000 ∧ w.number 15 10 = 0b000000
    | .compare => w.number 29 21 = 0b111010010 ∧ w.number 15 10 = 0b111000 ∧ w.bit 4 = false
    | .compareImmediate => w.number 29 21 = 0b111010010 ∧ w.number 15 10 = 0b111010 ∧ w.bit 4 = false

instance {w : InstructionWord} {f : AddSubForm} {width : Width} {subtract : Bool} :
    Decidable (w.HasForm f width subtract) :=
  match f with
  | .shifted | .extended | .immediate | .withCarry | .compare | .compareImmediate =>
    inferInstanceAs (Decidable (_ ∧ _))

namespace AddSubForm

variable (f : AddSubForm) (w : InstructionWord) (subtract : Bool) (s : State)

/-- What a first operand of number 31 stands for. -/
def baseRole : AddSubForm → Role
  | extended | immediate => .stackPointer
  | _ => .zero

/-- The comparisons set nothing but the flags. -/
def writes : AddSubForm → Bool
  | compare | compareImmediate => false
  | _ => true

def operand (n : Nat) : BitVec n :=
  match f with
  | immediate => BitVec.ofNat n (w.number 21 10 * if w.bit 22 then 2 ^ 12 else 1)
  | compareImmediate => BitVec.ofNat n (w.number 20 16)
  | _ => s.read n w.rm

/-- A difference starts with the carry set, since the carry means that nothing was borrowed. -/
def carryIn : Bool :=
  match f with
  | withCarry => s.nzcv.carry
  | _ => subtract

/-- The sum that a word of this form computes. -/
def sum (n : Nat) : Sum n :=
  let v := f.operand w s n
  addWithCarry (s.read n w.rn f.baseRole) (if subtract then ~~~v else v) (f.carryIn subtract s)

def op : IntegerOp :=
  match f with
  | shifted => .addSub subtract true w.rn .zero (.shifted w.rm .lsl 0)
  | extended => .addSub subtract true w.rn .stackPointer (.extended w.rm .uxtx 0)
  | immediate =>
    let imm := (w.extractLsb 21 10).setWidth 64
    .addSub subtract true w.rn .stackPointer (.immediate (if w.bit 22 then imm <<< 12 else imm))
  | withCarry => .addSubCarry subtract true w.rn w.rm
  | compare => .conditionalCompare subtract .al w.rn (.shifted w.rm .lsl 0) (.ofNibble (w.extractLsb 3 0))
  | compareImmediate =>
    .conditionalCompare subtract .al w.rn (.immediate ((w.extractLsb 20 16).setWidth 64)) (.ofNibble (w.extractLsb 3 0))

variable {f w subtract s}

theorem sum_eq {n : Nat} (h : f.carryIn subtract s = subtract) :
    f.sum w subtract s n = addOrSub subtract (s.read n w.rn f.baseRole) (f.operand w s n) := by
  rw [sum, h, addOrSub_eq]

theorem read_baseRole {n : Nat} (h : w.rn ≠ Register.stackPointer) : s.read n w.rn f.baseRole = s.read n w.rn := by
  cases f <;> simp [baseRole, State.read, GeneralRegisters.get, GeneralRegisters.isZero, h]

variable (f w subtract s)

/-- Each form computes its sum, although every operation has its own complement, carry and truncation. -/
theorem eval_op (width : Width) (rd : Register) :
    (f.op w subtract).eval s rd width.bits =
      { value := if f.writes then some (f.sum w subtract s width.bits).result else none
        flags := some (f.sum w subtract s width.bits).flags } := by
  have himmediate (high : Bool) :
      (if high then (w.extractLsb 21 10).setWidth 64 <<< 12 else (w.extractLsb 21 10).setWidth 64).setWidth width.bits =
        BitVec.ofNat width.bits (w.number 21 10 * if high then 2 ^ 12 else 1) := by
    have hlt : (w.extractLsb 21 10).toNat < 2 ^ 12 := BitVec.isLt _
    apply BitVec.eq_of_toNat_eq
    rw [BitVec.toNat_setWidth, BitVec.toNat_ofNat, InstructionWord.number]
    cases high with
    | false =>
      rw [if_neg Bool.false_ne_true, if_neg Bool.false_ne_true, BitVec.toNat_setWidth, Nat.mul_one,
        Nat.mod_eq_of_lt (by omega : _ < 2 ^ 64)]
    | true =>
      rw [if_pos rfl, if_pos rfl, BitVec.toNat_shiftLeft, BitVec.toNat_setWidth, Nat.shiftLeft_eq,
        Nat.mod_eq_of_lt (by omega : (w.extractLsb 21 10).toNat < 2 ^ 64), Nat.mod_eq_of_lt (by omega : _ < 2 ^ 64)]
  have hshort : ((w.extractLsb 20 16).setWidth 64).setWidth width.bits = BitVec.ofNat width.bits (w.number 20 16) := by
    have hlt : (w.extractLsb 20 16).toNat < 2 ^ 5 := BitVec.isLt _
    apply BitVec.eq_of_toNat_eq
    cases width <;> simp [Width.bits, InstructionWord.number] at *
  cases f with
  | shifted =>
    rw [sum_eq rfl]
    simp [op, IntegerOp.eval, Operand.value, ShiftKind.apply, baseRole, operand, writes]
  | extended =>
    rw [sum_eq rfl]
    simp [op, IntegerOp.eval, Operand.value, Extension.apply, Extension.extend, baseRole, operand, writes, State.read]
  | immediate =>
    rw [sum_eq rfl]
    simp [op, IntegerOp.eval, Operand.value, baseRole, operand, writes, himmediate]
  | withCarry => simp [op, IntegerOp.eval, sum, operand, baseRole, writes, carryIn]
  | compare =>
    rw [sum_eq rfl]
    simp [op, IntegerOp.eval, Operand.value, ShiftKind.apply, baseRole, operand, writes, Condition.holds]
  | compareImmediate =>
    rw [sum_eq rfl]
    simp [op, IntegerOp.eval, Operand.value, baseRole, operand, writes, Condition.holds, hshort]

end AddSubForm

section Words

open InstructionWord KeyTable IntegerInstruction

variable {w : InstructionWord} {f : AddSubForm} {width : Width} {subtract : Bool}

theorem Instruction.decode_of_hasForm (h : w.HasForm f width subtract) :
    decode w = .ok (.integer { width, rd := w.rd, op := f.op w subtract }) := by
  obtain ⟨rfl, rfl, h⟩ := h
  have hlsl (h : w.number 23 22 = 0) : ShiftKind.ofCode (w.extractLsb 23 22) = .lsl :=
    congrArg ShiftKind.ofCode (BitVec.eq_of_toNat_eq h : w.extractLsb 23 22 = 0#2)
  have huxtx (h : w.number 15 13 = 3) : Extension.ofCode (w.extractLsb 15 13) = .uxtx :=
    congrArg Extension.ofCode (BitVec.eq_of_toNat_eq h : w.extractLsb 15 13 = 3#3)
  have hal (h : w.number 15 12 = 14) : Condition.ofCode (w.extractLsb 15 12) = .al :=
    congrArg Condition.ofCode (BitVec.eq_of_toNat_eq h : w.extractLsb 15 12 = 14#4)
  cases f with
  | shifted =>
    have hfields : w.number 27 25 = 0b101 ∧ register.key w = 2 ∧ w.bit 29 = true ∧ w.number 23 22 = 0 ∧
        w.bit 15 = false := by
      simp only [key_register, number_eq, toNat_bit, bit_eq_true, bit_eq_false] at h ⊢
      omega
    obtain ⟨hgroup, hkey, hflags, hkind, hshort⟩ := hfields
    rw [decode_of_register hgroup]
    simp [decodeRegister, hkey, decodeAddSubShifted, shiftedOperand, hflags, hkind, hlsl, hshort, h.2, AddSubForm.op,
      Except.map]
  | extended =>
    have hfields : w.number 27 25 = 0b101 ∧ register.key w = 3 ∧ w.bit 29 = true ∧ w.number 23 22 = 0 ∧
        w.number 15 13 = 3 ∧ w.number 12 10 = 0 := by
      simp only [key_register, number_eq, toNat_bit, bit_eq_true] at h ⊢
      omega
    obtain ⟨hgroup, hkey, hflags, hzero, hextension, hshift⟩ := hfields
    rw [decode_of_register hgroup]
    simp [decodeRegister, hkey, decodeAddSubExtended, hflags, hzero, huxtx, hextension, hshift, AddSubForm.op,
      destinationRole, Except.map]
  | immediate =>
    have hfields : w.number 28 26 = 0b100 ∧ KeyTable.immediate.key w = 2 ∧ w.bit 29 = true := by
      simp only [key_immediate, number_eq, bit_eq_true] at h ⊢
      omega
    obtain ⟨hgroup, hkey, hflags⟩ := hfields
    rw [decode_of_immediate hgroup]
    simp [decodeImmediate, hkey, decodeAddSubImmediate, hflags, AddSubForm.op, destinationRole, Except.map]
  | withCarry =>
    have hfields : w.number 27 25 = 0b101 ∧ register.key w = 4 ∧ registerMisc.key w = 0 ∧ w.bit 29 = true := by
      simp only [key_register, key_registerMisc, number_eq, toNat_bit, bit_eq_true] at h ⊢
      omega
    obtain ⟨hgroup, hkey, hmisc, hflags⟩ := hfields
    rw [decode_of_register hgroup]
    simp [decodeRegister, hkey, decodeRegisterMisc, hmisc, decodeAddSubCarry, hflags, h.2, AddSubForm.op, Except.map]
  | compare =>
    have hfields : w.number 27 25 = 0b101 ∧ register.key w = 4 ∧ registerMisc.key w = 1 ∧ w.bit 29 = true ∧
        w.number 15 12 = 14 ∧ w.bit 11 = false ∧ w.bit 10 = false := by
      simp only [key_register, key_registerMisc, number_eq, toNat_bit, bit_eq_true, bit_eq_false] at h ⊢
      omega
    obtain ⟨hgroup, hkey, hmisc, hflags, hcondition, hregister, hfixed⟩ := hfields
    rw [decode_of_register hgroup]
    simp [decodeRegister, hkey, decodeRegisterMisc, hmisc, decodeConditionalCompare, hflags, hal, hcondition, hregister,
      hfixed, h.2.2, AddSubForm.op, Except.map]
  | compareImmediate =>
    have hfields : w.number 27 25 = 0b101 ∧ register.key w = 4 ∧ registerMisc.key w = 1 ∧ w.bit 29 = true ∧
        w.number 15 12 = 14 ∧ w.bit 11 = true ∧ w.bit 10 = false := by
      simp only [key_register, key_registerMisc, number_eq, toNat_bit, bit_eq_true, bit_eq_false] at h ⊢
      omega
    obtain ⟨hgroup, hkey, hmisc, hflags, hcondition, himmediate, hfixed⟩ := hfields
    rw [decode_of_register hgroup]
    simp [decodeRegister, hkey, decodeRegisterMisc, hmisc, decodeConditionalCompare, hflags, hal, hcondition,
      himmediate, hfixed, h.2.2, AddSubForm.op, Except.map]

namespace Machine

/-- A word of one of the forms puts its sum into the destination, unless it compares, and always sets the flags. -/
theorem execute_of_hasForm (m : Machine) (h : w.HasForm f width subtract) :
    let sum := f.sum w subtract m.state width.bits
    let flagged := m.state.setFlags sum.flags
    m.execute w = (.ok .ready, m.withState (if f.writes then flagged.write w.rd sum.result else flagged)) := by
  intro sum flagged
  rw [m.execute_integer (Instruction.decode_of_hasForm h), IntegerInstruction.execute, f.eval_op w subtract m.state]
  cases f.writes <;> rfl

/-- The first operand `a` and the second operand `v` alone decide what an addition or a subtraction does. Whatever form
it is written in, whatever the upper halves of the registers hold and whatever the machine does besides, it sets the
flags of the exact sum or difference, and unless it is a comparison it puts the result into its destination. The form
with the carry has to find the carry that the others start with. -/
theorem add_sub_forms_agree (m : Machine) (width : Width) (subtract : Bool) (a v : BitVec width.bits)
    (h : w.HasForm f width subtract) (hrn : w.rn ≠ Register.stackPointer) (ha : m.state.read width.bits w.rn = a)
    (hv : f.operand w m.state width.bits = v) (hcarry : f.carryIn subtract m.state = subtract) :
    let flagged := m.state.setFlags (exactFlags subtract a v)
    m.execute w = (.ok .ready,
      m.withState (if f.writes then flagged.write w.rd (if subtract then a - v else a + v) else flagged)) := by
  subst ha hv
  rw [← AddSubForm.read_baseRole (f := f) hrn, ← flags_addOrSub _ _ _ width.bits_pos, ← result_addOrSub,
    ← AddSubForm.sum_eq hcarry]
  exact m.execute_of_hasForm h

/-- `SUBS W0, W1, W2, UXTX` and `CCMP W1, #7, #0, AL`, with 5 and 7 below upper halves that differ. -/
theorem add_sub_forms_agree_five_less_seven :
    let subs : InstructionWord := 0x6B226020#32
    let ccmp : InstructionWord := 0x7A47E820#32
    let m : Machine := withState {} ((State.write {} 1#5 0xFFFFFFFF00000005#64).write 2#5 0xAAAAAAAA00000007#64)
    subs.HasForm .extended .w32 true ∧ ccmp.HasForm .compareImmediate .w32 true ∧
      (m.execute subs).2.state.nzcv = { negative := true } ∧ (m.execute ccmp).2.state.nzcv = { negative := true } ∧
      (m.execute subs).2.state.slot 0#5 = 0xFFFFFFFE#64 := by
  intro subs ccmp m
  have hsubs : subs.HasForm .extended .w32 true := by decide
  have hccmp : ccmp.HasForm .compareImmediate .w32 true := by decide
  have hflags : @exactFlags Width.w32.bits true 5#32 7#32 = { negative := true } := by decide +kernel
  have hrn : m.state.read 32 subs.rn = 5#32 ∧ m.state.read 32 ccmp.rn = 5#32 := by decide +kernel
  have hv : AddSubForm.operand .extended subs m.state 32 = 7#32 := by decide +kernel
  have hv' : AddSubForm.operand .compareImmediate ccmp m.state 32 = 7#32 := by decide +kernel
  have hexecuteSubs := m.add_sub_forms_agree .w32 true 5#32 7#32 hsubs (by decide) hrn.1 hv rfl
  have hexecuteCcmp := m.add_sub_forms_agree .w32 true 5#32 7#32 hccmp (by decide) hrn.2 hv' rfl
  rw [hexecuteSubs, hexecuteCcmp, hflags]
  exact ⟨hsubs, hccmp, rfl, rfl, by decide +kernel⟩

end Machine
end Words
end AArch64
