import AArch64.Proofs.Execution

/-! The 32-bit forms of the integer instructions. They see the low halves of the registers alone, whatever the upper
halves hold, and leave zeros in the upper half of the register that they write. -/
namespace AArch64

namespace Extension

variable {x y : BitVec 64}

theorem setWidth_extend (e : Extension) (h : x.setWidth 32 = y.setWidth 32) :
    (e.extend x).setWidth 32 = (e.extend y).setWidth 32 := by
  have hbyte : x.setWidth 8 = y.setWidth 8 := by
    rw [← BitVec.setWidth_setWidth_of_le x (by decide : 8 ≤ 32), h, BitVec.setWidth_setWidth_of_le y (by decide)]
  have hhalf : x.setWidth 16 = y.setWidth 16 := by
    rw [← BitVec.setWidth_setWidth_of_le x (by decide : 16 ≤ 32), h, BitVec.setWidth_setWidth_of_le y (by decide)]
  cases e <;> simp only [extend, hbyte, hhalf, h]

/-- An extended operand is computed in 64 bits, but its low half comes from that of the register. -/
theorem setWidth_apply (e : Extension) (shift : Nat) (h : x.setWidth 32 = y.setWidth 32) :
    (e.apply x shift).setWidth 32 = (e.apply y shift).setWidth 32 := by
  rw [apply, apply, BitVec.setWidth_shiftLeft_of_le (by decide), BitVec.setWidth_shiftLeft_of_le (by decide),
    e.setWidth_extend h]

end Extension

namespace State

/-- The same flags and the same low half in every slot. -/
structure AgreeLow (s t : State) : Prop where
  nzcv : s.nzcv = t.nzcv
  low : ∀ r, (s.slot r).setWidth 32 = (t.slot r).setWidth 32

namespace AgreeLow

variable {s t : State}

theorem read (h : AgreeLow s t) (r : Register) (role : Role) : s.read 32 r role = t.read 32 r role := by
  simp only [State.read, GeneralRegisters.get_eq_slot]
  split
  · rfl
  · exact h.low r

theorem readExtended (h : AgreeLow s t) (e : Extension) (shift : Nat) (r : Register) (role : Role) :
    (e.apply (s.read 64 r role) shift).setWidth 32 = (e.apply (t.read 64 r role) shift).setWidth 32 := by
  refine e.setWidth_apply shift ?_
  have hread := h.read r role
  simpa only [State.read, BitVec.setWidth_eq] using hread

theorem operand (h : AgreeLow s t) (o : Operand) : o.value s 32 = o.value t 32 := by
  cases o with
  | immediate x => rfl
  | shifted rm kind amount => simp only [Operand.value, h.read]
  | extended rm e shift => exact h.readExtended e shift rm .zero

end AgreeLow
end State

/-- The operands and the result have the width of the instruction, and the program counter is not among them. -/
def IntegerOp.OneWidth : IntegerOp → Prop
  | address _ _ | multiplyLong _ _ _ _ _ | multiplyHigh _ _ _ => False
  | _ => True

theorem IntegerOp.eval_of_agreeLow {op : IntegerOp} {s t : State} (hop : op.OneWidth) (h : s.AgreeLow t)
    (rd : Register) : op.eval s rd 32 = op.eval t rd 32 := by
  cases op with
  | address | multiplyLong | multiplyHigh => exact hop.elim
  | moveWide kind imm position =>
    cases kind with
    | inverted | zeroing => rfl
    | keeping => simp only [eval, BitVec.setWidth_or, BitVec.setWidth_and, State.setWidth_read, h.read]
  | _ => simp only [eval, h.read, h.operand, h.nzcv]

namespace IntegerResult

variable {n : Nat} (x : IntegerResult n) (rd : Register) (role : Role)

theorem nzcv_apply (s : State) : (x.apply rd role s).nzcv = x.flags.getD s.nzcv := by
  obtain ⟨_ | _, _ | _⟩ := x <;> rfl

theorem slot_apply (s : State) (r : Register) :
    (x.apply rd role s).slot r = match x.value with
      | some y => if r = rd ∧ GeneralRegisters.isZero rd role = false then y.setWidth 64 else s.slot r
      | none => s.slot r := by
  obtain ⟨_ | y, _ | f⟩ := x
  · rfl
  · rfl
  · exact s.slot_write r rd y role
  · exact (s.setFlags f).slot_write r rd y role

theorem agreeLow_apply {s t : State} (h : s.AgreeLow t) : (x.apply rd role s).AgreeLow (x.apply rd role t) where
  nzcv := by rw [nzcv_apply, nzcv_apply, h.nzcv]
  low r := by
    rw [slot_apply, slot_apply]
    split
    · split
      · rfl
      · exact h.low r
    · exact h.low r

end IntegerResult

namespace IntegerInstruction

/-- The slot that is written: none for a comparison, and none where the destination reads as zero. -/
def destination? (i : IntegerInstruction) : Option Register :=
  match i.op with
  | .conditionalCompare .. => none
  | _ => if GeneralRegisters.isZero i.rd i.role then none else some i.rd

variable {i : IntegerInstruction} {r : Register}

theorem toNat_slot_execute_lt (h : i.destination? = some r) (s : State) :
    ((i.execute s).slot r).toNat < 2 ^ i.width.bits := by
  obtain ⟨width, rd, role, op⟩ := i
  have hlt {c : Prop} [Decidable c] (hc : c) (x : BitVec width.bits) (y : BitVec 64) :
      (if c then x.setWidth 64 else y).toNat < 2 ^ width.bits := by
    rw [if_pos hc, BitVec.toNat_setWidth]
    exact Nat.lt_of_le_of_lt (Nat.mod_le _ _) x.isLt
  rw [execute, IntegerResult.slot_apply]
  cases op
  case conditionalCompare => cases h
  all_goals
    obtain ⟨hzero, hrd⟩ := Option.ite_none_left_eq_some.1 h
    exact hlt ⟨(Option.some.inj hrd).symm, Bool.not_eq_true _ ▸ hzero⟩ _ _

theorem slot_execute_of_ne (h : i.destination? ≠ some r) (s : State) : (i.execute s).slot r = s.slot r := by
  obtain ⟨width, rd, role, op⟩ := i
  rw [execute, IntegerResult.slot_apply]
  cases op
  case conditionalCompare => rfl
  all_goals
    refine if_neg ?_
    rintro ⟨rfl, hzero⟩
    exact h (if_neg (ne_true_of_eq_false hzero))

end IntegerInstruction

namespace InstructionWord

variable (w : InstructionWord)

def IsImmediate : Prop := w.number 28 26 = 0b100

def IsRegister : Prop := w.number 27 25 = 0b101

/-- Destination 31 is the stack pointer in addition and subtraction of an immediate, in logic with an immediate and in
addition and subtraction of an extended register, where these do not set the flags. -/
def WritesStackPointer : Prop :=
  (w.number 28 23 = 0b100010 ∧ w.bit 29 = false) ∨ (w.number 28 23 = 0b100100 ∧ w.number 30 29 ≠ 3) ∨
    (w.number 28 24 = 0b01011 ∧ w.bit 21 = true ∧ w.bit 29 = false)

instance : Decidable w.IsImmediate := inferInstanceAs (Decidable (_ = _))

instance : Decidable w.IsRegister := inferInstanceAs (Decidable (_ = _))

instance : Decidable w.WritesStackPointer := inferInstanceAs (Decidable (_ ∨ _))

/-- The destination field as a slot: none where it reads as zero. -/
def slot? (role : Role) : Option Register :=
  if GeneralRegisters.isZero w.rd role then none else some w.rd

/-- The slot that a data processing word writes: none for a conditional comparison. -/
def destination? : Option Register :=
  if w.number 28 21 = 0b11010010 then none
  else w.slot? (if w.WritesStackPointer then .stackPointer else .zero)

variable {w}

theorem destination?_eq {role : Role} (hcompare : w.number 28 21 ≠ 0b11010010)
    (hrole : role = .stackPointer ↔ w.WritesStackPointer) : w.destination? = w.slot? role := by
  cases role <;> simp_all [destination?]

end InstructionWord

namespace IntegerInstruction

/-- A 32-bit instruction on operands of that width, with the slot that it writes. -/
structure Narrow (d : Option Register) (i : IntegerInstruction) : Prop where
  width : i.width = .w32
  op : i.op.OneWidth
  destination : i.destination? = d

theorem Narrow.agreeLow_execute {d : Option Register} {i : IntegerInstruction} (hi : Narrow d i) {s t : State}
    (h : s.AgreeLow t) : (i.execute s).AgreeLow (i.execute t) := by
  obtain ⟨width, rd, role, op⟩ := i
  obtain ⟨rfl, hop, _⟩ := hi
  have heval : op.eval s rd 32 = op.eval t rd 32 := IntegerOp.eval_of_agreeLow hop h rd
  change ((op.eval s rd 32).apply rd role s).AgreeLow ((op.eval t rd 32).apply rd role t)
  rw [heval]
  exact IntegerResult.agreeLow_apply _ rd role h

theorem destinationRole_eq_stackPointer {setFlags : Bool} :
    destinationRole setFlags = .stackPointer ↔ setFlags = false := by
  cases setFlags <;> simp [destinationRole]

section Decoders

open InstructionWord

variable {w : InstructionWord} (h : w.bit 31 = false)

include h

theorem width_of_bit : w.width = .w32 := by
  rw [InstructionWord.width, h]
  rfl

theorem narrow_decodeAddSubImmediate :
    Yields (decodeAddSubImmediate w) (Narrow (w.slot? (destinationRole (w.bit 29)))) :=
  .ok ⟨width_of_bit h, trivial, rfl⟩

theorem narrow_decodeLogicalImmediate :
    Yields (decodeLogicalImmediate w) (Narrow (w.slot? (destinationRole (w.number 30 29 == 3)))) := by
  refine .guard fun _ => ?_
  split
  · exact .error _
  · exact .ok ⟨width_of_bit h, trivial, rfl⟩

theorem narrow_decodeMoveWide : Yields (decodeMoveWide w) (Narrow (w.slot? .zero)) := by
  unfold decodeMoveWide
  split
  case h_4 => exact .error _
  all_goals exact .guard fun _ => .ok ⟨width_of_bit h, trivial, rfl⟩

theorem narrow_decodeBitfield : Yields (decodeBitfield w) (Narrow (w.slot? .zero)) := by
  unfold decodeBitfield
  split
  case h_4 => exact .error _
  all_goals
    refine .guard fun _ => ?_
    split
    · exact .error _
    · exact .ok ⟨width_of_bit h, trivial, rfl⟩

theorem narrow_decodeExtract : Yields (decodeExtract w) (Narrow (w.slot? .zero)) :=
  .guard fun _ => .ok ⟨width_of_bit h, trivial, rfl⟩

theorem narrow_decodeLogicalShifted : Yields (decodeLogicalShifted w) (Narrow (w.slot? .zero)) :=
  .guard fun _ => .ok ⟨width_of_bit h, trivial, rfl⟩

theorem narrow_decodeAddSubShifted : Yields (decodeAddSubShifted w) (Narrow (w.slot? .zero)) :=
  .guard fun _ => .ok ⟨width_of_bit h, trivial, rfl⟩

theorem narrow_decodeAddSubExtended :
    Yields (decodeAddSubExtended w) (Narrow (w.slot? (destinationRole (w.bit 29)))) :=
  .guard fun _ => .ok ⟨width_of_bit h, trivial, rfl⟩

theorem narrow_decodeAddSubCarry : Yields (decodeAddSubCarry w) (Narrow (w.slot? .zero)) :=
  .guard fun _ => .ok ⟨width_of_bit h, trivial, rfl⟩

theorem narrow_decodeConditionalCompare : Yields (decodeConditionalCompare w) (Narrow none) :=
  .guard fun _ => .ok ⟨width_of_bit h, trivial, rfl⟩

theorem narrow_decodeConditionalSelect : Yields (decodeConditionalSelect w) (Narrow (w.slot? .zero)) :=
  .guard fun _ => .ok ⟨width_of_bit h, trivial, rfl⟩

theorem narrow_decodeOneSource : Yields (decodeOneSource w) (Narrow (w.slot? .zero)) := by
  refine .guard fun _ => .guard fun _ => ?_
  split
  case h_4 => exact .require fun _ => .ok ⟨width_of_bit h, trivial, rfl⟩
  all_goals first
    | exact .error _
    | exact .ok ⟨width_of_bit h, trivial, rfl⟩

theorem narrow_decodeTwoSource : Yields (decodeTwoSource w) (Narrow (w.slot? .zero)) := by
  refine .guard fun _ => ?_
  split
  all_goals first
    | exact .error _
    | exact .ok ⟨width_of_bit h, trivial, rfl⟩

/-- The products that do not fit a register have no 32-bit form. -/
theorem narrow_decodeThreeSource : Yields (decodeThreeSource w) (Narrow (w.slot? .zero)) := by
  have hwide {op : IntegerOp} : Yields
      (if w.bit 31 then .ok { width := w.width, rd := w.rd, op := op : IntegerInstruction }
        else .error .unallocated) (Narrow (w.slot? .zero)) :=
    .require fun h31 => absurd h31 (ne_true_of_eq_false h)
  refine .guard fun _ => ?_
  split
  · exact .ok ⟨width_of_bit h, trivial, rfl⟩
  · exact hwide
  · exact hwide
  · exact .guard fun _ => hwide
  · exact .guard fun _ => hwide
  · exact .error _

/-- The address of a nearby datum is the one immediate form that depends on the program counter. -/
theorem narrow_decodeImmediate (hgroup : w.IsImmediate) (haddress : w.number 28 24 ≠ 0b10000) :
    Yields (decodeImmediate w) (Narrow w.destination?) := by
  have hkey := KeyTable.key_immediate w
  simp only [IsImmediate] at hgroup
  have hcompare : w.number 28 21 ≠ 0b11010010 := by
    simp only [number_eq] at hgroup ⊢
    omega
  have hzero (hk : w.number 25 23 ≠ 2 ∧ w.number 25 23 ≠ 4) : w.destination? = w.slot? .zero := by
    refine destination?_eq hcompare ⟨nofun, fun hstack => ?_⟩
    simp only [WritesStackPointer, number_eq] at hgroup hk hstack
    omega
  unfold decodeImmediate
  rw [hkey]
  split
  case h_1 hk | h_2 hk =>
    simp only [number_eq] at hgroup hk haddress
    omega
  case h_3 hk =>
    have hrole : destinationRole (w.bit 29) = .stackPointer ↔ w.WritesStackPointer := by
      rw [destinationRole_eq_stackPointer]
      simp only [WritesStackPointer, number_eq, bit_eq_false] at hgroup hk ⊢
      omega
    rw [destination?_eq hcompare hrole]
    exact narrow_decodeAddSubImmediate h
  case h_4 => exact .error _
  case h_5 hk =>
    have hrole : destinationRole (w.number 30 29 == 3) = .stackPointer ↔ w.WritesStackPointer := by
      rw [destinationRole_eq_stackPointer, beq_eq_false_iff_ne]
      simp only [WritesStackPointer, number_eq, bit_eq_false] at hgroup hk ⊢
      omega
    rw [destination?_eq hcompare hrole]
    exact narrow_decodeLogicalImmediate h
  case h_6 hk =>
    rw [hzero (by omega)]
    exact narrow_decodeMoveWide h
  case h_7 hk =>
    rw [hzero (by omega)]
    exact narrow_decodeBitfield h
  case h_8 hk _ _ hlogical _ _ =>
    rw [hzero ⟨by assumption, hlogical⟩]
    exact narrow_decodeExtract h

theorem narrow_decodeRegisterMisc :
    Yields (decodeRegisterMisc w) (Narrow (if w.number 23 22 = 1 then none else w.slot? .zero)) := by
  unfold decodeRegisterMisc
  rw [KeyTable.key_registerMisc]
  split
  case h_1 hk =>
    rw [hk]
    exact narrow_decodeAddSubCarry h
  case h_2 hk =>
    rw [hk]
    exact narrow_decodeConditionalCompare h
  case h_3 hk =>
    rw [hk]
    exact narrow_decodeConditionalSelect h
  case h_4 hcompare _ =>
    rw [if_neg hcompare]
    exact .ite (fun _ => narrow_decodeOneSource h) fun _ => narrow_decodeTwoSource h

theorem narrow_decodeRegister (hgroup : w.IsRegister) : Yields (decodeRegister w) (Narrow w.destination?) := by
  have hkey := KeyTable.key_register w
  simp only [IsRegister, number_eq, toNat_bit] at hgroup hkey
  have hzero (hk : KeyTable.register.key w ≠ 3 ∧ KeyTable.register.key w ≠ 4) : w.destination? = w.slot? .zero := by
    refine destination?_eq ?_ ⟨nofun, fun hstack => ?_⟩
    · simp only [number_eq]
      omega
    · simp only [WritesStackPointer, number_eq, bit_eq_true] at hstack
      omega
  unfold decodeRegister
  split
  case h_1 hk | h_2 hk =>
    rw [hzero (by omega)]
    exact narrow_decodeLogicalShifted h
  case h_3 hk =>
    rw [hzero (by omega)]
    exact narrow_decodeAddSubShifted h
  case h_4 hk =>
    have hcompare : w.number 28 21 ≠ 0b11010010 := by
      simp only [number_eq]
      omega
    have hrole : destinationRole (w.bit 29) = .stackPointer ↔ w.WritesStackPointer := by
      rw [destinationRole_eq_stackPointer]
      simp only [WritesStackPointer, number_eq, bit_eq_true, bit_eq_false]
      omega
    rw [destination?_eq hcompare hrole]
    exact narrow_decodeAddSubExtended h
  case h_5 hk =>
    have hcompare : w.number 28 21 = 0b11010010 ↔ w.number 23 22 = 1 := by
      simp only [number_eq]
      omega
    have hstack : ¬w.WritesStackPointer := by
      simp only [WritesStackPointer, number_eq, bit_eq_true]
      omega
    have hdestination : w.destination? = if w.number 23 22 = 1 then none else w.slot? .zero := by
      simp only [InstructionWord.destination?, hcompare, hstack, if_false]
    rw [hdestination]
    exact narrow_decodeRegisterMisc h
  case h_6 => exact .error _
  case h_7 hextended hmisc _ =>
    rw [hzero ⟨hextended, hmisc⟩]
    exact narrow_decodeThreeSource h

end Decoders
end IntegerInstruction

namespace Machine

open InstructionWord

variable {w : InstructionWord}

theorem narrow_of_decode (hgroup : w.IsImmediate ∨ w.IsRegister) (hwidth : w.bit 31 = false)
    (haddress : w.number 28 24 ≠ 0b10000) :
    Yields (Instruction.decode w) fun i => ∃ j, i = .integer j ∧ j.Narrow w.destination? := by
  obtain himmediate | hregister := hgroup
  · rw [Instruction.decode_of_immediate himmediate]
    exact (IntegerInstruction.narrow_decodeImmediate hwidth himmediate haddress).exists_map _
  · rw [Instruction.decode_of_register hregister]
    exact (IntegerInstruction.narrow_decodeRegister hwidth hregister).exists_map _

/-- A 32-bit integer instruction cannot tell two machines apart that agree on the flags and on the low halves of the
registers: it ends alike on both, and they agree in the same way afterwards. Only the slot of its destination changes,
and where it has one the upper half of that slot is zero. -/
theorem narrow_forms_use_low_halves (hgroup : w.IsImmediate ∨ w.IsRegister) (hwidth : w.bit 31 = false)
    (haddress : w.number 28 24 ≠ 0b10000) {m n : Machine} (h : m.state.AgreeLow n.state) :
    (m.execute w).1 = (n.execute w).1 ∧ (m.execute w).2.state.AgreeLow (n.execute w).2.state ∧
      (∀ c r, (m.execute w).1 = .ok c → w.destination? = some r → ((m.execute w).2.state.slot r).toNat < 2 ^ 32) ∧
      ∀ r, w.destination? ≠ some r → (m.execute w).2.state.slot r = m.state.slot r := by
  cases hd : Instruction.decode w with
  | error e =>
    rw [m.execute_of_decode_error hd, n.execute_of_decode_error hd]
    exact ⟨rfl, h, nofun, fun _ _ => rfl⟩
  | ok i =>
    obtain ⟨j, rfl, hj⟩ := narrow_of_decode hgroup hwidth haddress i hd
    have hm : (m.execute w).2.state = j.execute m.state := congrArg Core.state (m.core_execute hd)
    have hn : (n.execute w).2.state = j.execute n.state := congrArg Core.state (n.core_execute hd)
    rw [hm, hn, m.outcome_execute hd, n.outcome_execute hd, ← hj.destination]
    refine ⟨rfl, hj.agreeLow_execute h, fun _ r _ hr => ?_, fun r hr => j.slot_execute_of_ne hr m.state⟩
    · have hlt := j.toNat_slot_execute_lt hr m.state
      rwa [hj.width] at hlt

/-- A shift by a register whose upper half is not zero shifts the low half by the low half. -/
theorem narrow_forms_use_low_halves_shift :
    let lsl : InstructionWord := 0x1AC22020#32
    let m : Machine := withState {} ((State.write {} 1#5 0xFFFFFFFF00000005#64).write 2#5 0xFFFFFFFF00000004#64)
    let n : Machine := withState {} ((State.write {} 1#5 5#64).write 2#5 4#64)
    lsl.IsRegister ∧ m.state.AgreeLow n.state ∧ (m.execute lsl).1 = .ok .ready ∧
      (m.execute lsl).2.state.AgreeLow (n.execute lsl).2.state ∧
      ((m.execute lsl).2.state.slot 0#5).toNat < 2 ^ 32 := by
  intro lsl m n
  have hregister : lsl.IsRegister := by decide
  have hlow : m.state.AgreeLow n.state := ⟨rfl, by decide +kernel⟩
  have hok : (m.execute lsl).1 = .ok .ready := outcome_of_toOption (by decide +kernel)
  obtain ⟨_, hagree, hzero, _⟩ := narrow_forms_use_low_halves (.inr hregister) (by decide) (by decide) hlow
  exact ⟨hregister, hlow, hok, hagree, hzero .ready 0#5 hok (by decide)⟩

end Machine
end AArch64
