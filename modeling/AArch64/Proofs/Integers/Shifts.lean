import AArch64.Proofs.Integers.Bitfields

/-! Shifts and rotations by a number of bits below the width. A shift can be written with the amount in a register, as
the shift of an operand or as a bitfield move, and a rotation also as a cut out of a register next to itself. Whatever
way is taken, the result is the same product, quotient or rotation. -/
namespace AArch64

namespace ShiftKind

variable {n k : Nat}

/-- What shifting by `k` bits means. The shifts to the right round down, one of them for signed values. What a rotation
moves out below comes back on top. -/
def shifted (kind : ShiftKind) (x : BitVec n) (k : Nat) : BitVec n :=
  match kind with
  | lsl => BitVec.ofNat n (x.toNat * 2 ^ k)
  | lsr => BitVec.ofNat n (x.toNat / 2 ^ k)
  | asr => BitVec.ofInt n (x.toInt / 2 ^ k)
  | ror => BitVec.ofNat n (x.toNat / 2 ^ k + x.toNat % 2 ^ k * 2 ^ (n - k))

theorem toNat_rotateRight_of_lt (x : BitVec n) (h : k < n) :
    (x.rotateRight k).toNat = x.toNat / 2 ^ k + x.toNat % 2 ^ k * 2 ^ (n - k) := by
  have hpow : 2 ^ n = 2 ^ k * 2 ^ (n - k) := by rw [← Nat.pow_add, Nat.add_sub_cancel' (Nat.le_of_lt h)]
  have hlow : x.toNat / 2 ^ k < 2 ^ (n - k) := Nat.div_lt_of_lt_mul (hpow ▸ x.isLt)
  rw [BitVec.toNat_rotateRight, Nat.mod_eq_of_lt h, Nat.shiftRight_eq_div_pow, Nat.shiftLeft_eq, hpow,
    Nat.mul_mod_mul_right, Nat.or_comm, ← Nat.shiftLeft_eq, ← Nat.shiftLeft_add_eq_or_of_lt hlow, Nat.shiftLeft_eq,
    Nat.add_comm]

theorem apply_eq_shifted (kind : ShiftKind) (x : BitVec n) {amount : Nat} (h : amount % n = k) (hk : k < n) :
    kind.apply x amount = kind.shifted x k := by
  cases kind with
  | lsl =>
    apply BitVec.eq_of_toNat_eq
    rw [apply, h, shifted, BitVec.toNat_shiftLeft, Nat.shiftLeft_eq, BitVec.toNat_ofNat]
  | lsr =>
    apply BitVec.eq_of_toNat_eq
    rw [apply, h, shifted, BitVec.toNat_ushiftRight, Nat.shiftRight_eq_div_pow, BitVec.toNat_ofNat,
      Nat.mod_eq_of_lt (Nat.lt_of_le_of_lt (Nat.div_le_self _ _) x.isLt)]
  | asr =>
    rw [apply, h, shifted, BitVec.sshiftRight, Int.shiftRight_eq_div_pow, Int.natCast_pow]
    rfl
  | ror =>
    apply BitVec.eq_of_toNat_eq
    rw [apply, h, shifted, toNat_rotateRight_of_lt x hk, BitVec.toNat_ofNat, ← toNat_rotateRight_of_lt x hk,
      Nat.mod_eq_of_lt (BitVec.isLt _)]

/-- The bitfield move that is a shift by `k` bits, with its two numbers. No move is a rotation. -/
def bitfield? (kind : ShiftKind) (n k : Nat) : Option (BitfieldKind × Nat × Nat) :=
  match kind with
  | lsl => some (.unsigned, (n - k) % n, n - 1 - k)
  | lsr => some (.unsigned, k, n - 1)
  | asr => some (.signed, k, n - 1)
  | ror => none

variable {kind : ShiftKind} {b : BitfieldKind} {immr imms : Nat}

theorem bitfield?_lt (h : kind.bitfield? n k = some (b, immr, imms)) (hk : k < n) : immr < n ∧ imms < n := by
  have hmod := Nat.mod_lt (n - k) (Nat.zero_lt_of_lt hk)
  cases kind <;> cases h <;> omega

/-- The field of such a move is what a shift leaves of the register, at the place where the shift leaves it. -/
theorem bitfieldResult_of_bitfield? (h : kind.bitfield? n k = some (b, immr, imms)) (hk : k < n) (dst x : BitVec n) :
    bitfieldResult b dst x immr imms = kind.apply x k := by
  have hmod : k % n = k := Nat.mod_eq_of_lt hk
  refine BitVec.eq_of_getLsbD_eq fun i hi => ?_
  cases kind with
  | lsl =>
    cases h
    have hplace : bitfieldResult .unsigned dst x ((n - k) % n) (n - 1 - k) =
        moveField .unsigned dst x (n - 1 - k) 0 k := by
      rw [bitfieldResult]
      by_cases hzero : k = 0
      · subst hzero
        rw [Nat.sub_zero, Nat.mod_self, if_pos (Nat.zero_le _)]
      · rw [Nat.mod_eq_of_lt (by omega), if_neg (by omega), Nat.sub_sub_self (Nat.le_of_lt hk)]
    rw [hplace, getLsbD_moveField _ _ _ hi (Nat.zero_le _), apply, hmod, BitVec.getLsbD_shiftLeft]
    by_cases hin : k ≤ i
    · rw [if_pos (by omega), Nat.zero_add]
      simp [hi, hin]
    · rw [if_neg (by omega)]
      simp [BitfieldKind.outside, Nat.lt_of_not_le hin]
  | lsr =>
    cases h
    rw [bitfieldResult, if_pos (by omega), getLsbD_moveField _ _ _ hi (by omega), apply, hmod,
      BitVec.getLsbD_ushiftRight]
    by_cases hin : k + i < n
    · rw [if_pos (by omega), Nat.sub_zero]
    · rw [if_neg (by omega), BitVec.getLsbD_of_ge _ _ (Nat.le_of_not_lt hin)]
      rfl
  | asr =>
    cases h
    rw [bitfieldResult, if_pos (by omega), getLsbD_moveField _ _ _ hi (by omega), apply, hmod,
      BitVec.getLsbD_sshiftRight]
    by_cases hin : k + i < n
    · rw [if_pos (by omega), Nat.sub_zero]
      simp [hi, hin]
    · have habove : n - 1 - k < i := by omega
      rw [if_neg (by omega)]
      simp [BitfieldKind.outside, Nat.not_le_of_lt hi, hin, habove, BitVec.msb_eq_getLsbD_last]
  | ror => cases h

/-- A register next to itself holds all its rotations. -/
theorem extract_self (x : BitVec n) (hk : k < n) : ((x ++ x) >>> k).setWidth n = ror.apply x k := by
  refine BitVec.eq_of_getLsbD_eq fun i hi => ?_
  rw [apply, Nat.mod_eq_of_lt hk, getLsbD_rotateRight_mod x k hi, BitVec.getLsbD_setWidth, BitVec.getLsbD_ushiftRight,
    BitVec.getLsbD_append, decide_eq_true hi, Bool.true_and, Nat.add_comm k i]
  by_cases hin : i + k < n
  · rw [if_pos hin, Nat.mod_eq_of_lt hin]
  · rw [if_neg hin, Nat.mod_eq_sub_mod (by omega), Nat.mod_eq_of_lt (by omega)]

end ShiftKind

/-- How a word writes a shift. -/
inductive ShiftForm
  | byRegister | operand | bitfield | extract

/-- The fixed bits of each form, and its amount where the word holds it. The shifted operand is combined with zero. -/
def InstructionWord.HasShift (w : InstructionWord) (f : ShiftForm) (kind : ShiftKind) (width : Width) (k : Nat) :
    Prop :=
  w.width = width ∧
    match f with
    | .byRegister =>
      w.number 30 21 = 0b0011010110 ∧ w.number 15 12 = 0b0010 ∧ ShiftKind.ofCode (w.extractLsb 11 10) = kind
    | .operand =>
      w.number 30 24 = 0b0101010 ∧ w.bit 21 = false ∧ ShiftKind.ofCode (w.extractLsb 23 22) = kind ∧
        w.number 15 10 = k ∧ w.rn = Register.stackPointer
    | .bitfield =>
      w.number 28 23 = 0b100110 ∧ w.bit 22 = w.bit 31 ∧
        ∃ move ∈ kind.bitfield? width.bits k,
          BitfieldKind.ofCode? (w.number 30 29) = some move.1 ∧ w.number 21 16 = move.2.1 ∧ w.number 15 10 = move.2.2
    | .extract =>
      w.number 30 23 = 0b00100111 ∧ w.bit 22 = w.bit 31 ∧ w.bit 21 = false ∧ kind = .ror ∧ w.number 15 10 = k ∧
        w.rm = w.rn

instance {w : InstructionWord} {f : ShiftForm} {kind : ShiftKind} {width : Width} {k : Nat} :
    Decidable (w.HasShift f kind width k) :=
  match f with
  | .byRegister | .operand | .bitfield | .extract => inferInstanceAs (Decidable (_ ∧ _))

namespace ShiftForm

variable (f : ShiftForm) (w : InstructionWord) (kind : ShiftKind) (width : Width) (k : Nat)

def source : Register :=
  match f with
  | operand => w.rm
  | byRegister | bitfield | extract => w.rn

/-- The amount that the word or a register gives counts modulo the width. -/
def AmountIs (s : State) : Prop :=
  match f with
  | byRegister => (s.read 64 w.rm).toNat % width.bits = k
  | operand | bitfield | extract => True

instance (s : State) : Decidable (f.AmountIs w width k s) :=
  match f with
  | byRegister => inferInstanceAs (Decidable (_ = _))
  | operand | bitfield | extract => inferInstanceAs (Decidable True)

open InstructionWord in
def op : IntegerOp :=
  match f with
  | byRegister => .shiftVariable kind w.rn w.rm
  | operand => .logical .or false false w.rn (.shifted w.rm kind k)
  | bitfield =>
    let (b, immr, imms) := (kind.bitfield? width.bits k).getD (.unsigned, 0, 0)
    let masks := fieldMasks width.bits immr imms
    .bitfield b w.rn immr imms masks.1 masks.2
  | extract => .extract w.rn w.rm k

variable {f w kind width k}

/-- Each form computes the shift of its source, one from the amount, one by masks and one in twice the width. -/
theorem eval_op {s : State} (h : w.HasShift f kind width k) (hk : k < width.bits) (ha : f.AmountIs w width k s)
    (rd : Register) :
    (f.op w kind width k).eval s rd width.bits =
      { value := some (kind.shifted (s.read width.bits (f.source w)) k) } := by
  have hmod : k % width.bits = k := Nat.mod_eq_of_lt hk
  cases f with
  | byRegister =>
    have hamount : (s.read width.bits w.rm).toNat % width.bits = k := by
      rw [← ha]
      cases width <;> simp [State.read, Width.bits]
    rw [source, ← ShiftKind.apply_eq_shifted kind _ hamount hk]
    rfl
  | operand =>
    have hzero : s.read width.bits w.rn = 0#_ := by
      simp [State.read, GeneralRegisters.get, GeneralRegisters.isZero, h.2.2.2.2.2]
    rw [source, ← ShiftKind.apply_eq_shifted kind _ hmod hk]
    simp [op, IntegerOp.eval, BitwiseOp.apply, Operand.value, hzero]
  | bitfield =>
    obtain ⟨_, _, _, ⟨b, immr, imms⟩, hmove, _⟩ := h
    rw [Option.mem_def] at hmove
    obtain ⟨hr, hs⟩ := ShiftKind.bitfield?_lt hmove hk
    rw [source, ← ShiftKind.apply_eq_shifted kind _ hmod hk,
      ← ShiftKind.bitfieldResult_of_bitfield? hmove hk (s.read width.bits rd), ← bitfieldMove_fieldMasks b _ _ hr hs]
    simp [op, IntegerOp.eval, hmove]
  | extract =>
    obtain ⟨_, _, _, _, rfl, _, hsame⟩ := h
    rw [source, ← ShiftKind.apply_eq_shifted .ror _ hmod hk, ← ShiftKind.extract_self _ hk]
    simp [op, IntegerOp.eval, hsame]

end ShiftForm

section Words

open InstructionWord KeyTable IntegerInstruction

variable {w : InstructionWord} {f : ShiftForm} {kind : ShiftKind} {width : Width} {k : Nat}

/-- An amount below the narrow width has no sixth bit. -/
theorem InstructionWord.amount_short (h : w.number 15 10 < w.width.bits) : (!w.bit 31 && w.bit 15) = false := by
  rw [InstructionWord.width, Width.bits_ofBit] at h
  cases hsf : w.bit 31 with
  | true => rfl
  | false =>
    simp only [hsf, Bool.false_eq_true, if_false, number_eq] at h
    rw [Bool.not_false, Bool.true_and, bit_eq_false]
    omega

theorem Instruction.decode_of_hasShift (h : w.HasShift f kind width k) (hk : k < width.bits) :
    decode w = .ok (.integer { width, rd := w.rd, op := f.op w kind width k }) := by
  obtain ⟨rfl, h⟩ := h
  cases f with
  | byRegister =>
    obtain ⟨hclass, hshift, rfl⟩ := h
    have hfields : w.number 27 25 = 0b101 ∧ register.key w = 4 ∧ registerMisc.key w = 3 ∧ w.bit 30 = false ∧
        w.bit 29 = false ∧ w.number 15 10 = 8 + w.number 11 10 := by
      simp only [key_register, key_registerMisc, number_eq, toNat_bit, bit_eq_false] at hclass hshift ⊢
      omega
    obtain ⟨hgroup, hkey, hmisc, htwo, hflags, hopcode⟩ := hfields
    have hlt : w.number 11 10 < 4 := w.number_lt 11 10
    have hcode : w.extractLsb 11 10 = BitVec.ofNat 2 (w.number 11 10) := by
      rw [number, BitVec.ofNat_toNat, BitVec.setWidth_eq]
    rw [decode_of_register hgroup, hcode]
    simp only [decodeRegister, hkey, decodeRegisterMisc, hmisc, htwo, decodeTwoSource, hflags, hopcode]
    obtain h | h | h | h : w.number 11 10 = 0 ∨ w.number 11 10 = 1 ∨ w.number 11 10 = 2 ∨ w.number 11 10 = 3 := by omega
    all_goals
      rw [h]
      rfl
  | operand =>
    obtain ⟨hclass, hplain, rfl, rfl, _⟩ := h
    have hfields : w.number 27 25 = 0b101 ∧ register.key w = 0 ∧ w.number 30 29 = 1 := by
      simp only [key_register, number_eq, toNat_bit, bit_eq_false] at hclass hplain ⊢
      omega
    obtain ⟨hgroup, hkey, hop⟩ := hfields
    have hor : logicalOp (w.extractLsb 30 29) = .or :=
      congrArg logicalOp (BitVec.eq_of_toNat_eq hop : w.extractLsb 30 29 = 1#2)
    rw [decode_of_register hgroup]
    simp [decodeRegister, hkey, decodeLogicalShifted, shiftedOperand, amount_short hk, hor, hop, hplain, ShiftForm.op,
      Except.map]
  | bitfield =>
    obtain ⟨hclass, hwidth, ⟨b, immr, imms⟩, hmove, hkind, rfl, rfl⟩ := h
    rw [Option.mem_def] at hmove
    have hfits : w.HasBitfield := ⟨hwidth, ShiftKind.bitfield?_lt hmove hk⟩
    obtain ⟨hgroup, hkey⟩ := Instruction.key_immediate_of_number (k := 6) (by decide) hclass
    rw [decode_of_immediate hgroup]
    simp [decodeImmediate, hkey, decodeBitfield_eq, hkind, hfits, ShiftForm.op, hmove, Except.map]
  | extract =>
    obtain ⟨hclass, hwidth, hplain, rfl, rfl, _⟩ := h
    have hfields : w.number 28 26 = 0b100 ∧ immediate.key w = 7 ∧ w.number 30 29 = 0 := by
      simp only [key_immediate, number_eq] at hclass ⊢
      omega
    obtain ⟨hgroup, hkey, hop⟩ := hfields
    rw [decode_of_immediate hgroup]
    simp [decodeImmediate, hkey, decodeExtract, amount_short hk, hwidth, hop, hplain, ShiftForm.op, Except.map]

end Words

namespace Machine

/-- A source `x` and an amount below the width decide alone what a shift does, whatever it is written as: the
destination gets the same exact result and nothing else changes. The amount in a register counts modulo the width. -/
theorem shift_forms_agree (m : Machine) {w : InstructionWord} {f : ShiftForm} {kind : ShiftKind} (width : Width)
    {k : Nat} (x : BitVec width.bits) (hk : k < width.bits) (h : w.HasShift f kind width k)
    (hx : m.state.read width.bits (f.source w) = x) (ha : f.AmountIs w width k m.state) :
    m.execute w = (.ok .ready, m.withState (m.state.write w.rd (kind.shifted x k))) := by
  rw [m.execute_integer (Instruction.decode_of_hasShift h hk), IntegerInstruction.execute,
    ShiftForm.eval_op h hk ha, hx]
  rfl

/-- The number 0x80000F01, below an upper half that does not count, is shifted by four bits in three ways and rotated by
four bits in another: `ASR W0, W1, W2` with the amount 36 in the register, `ORR W0, WZR, W1, ASR #4`,
`SBFM W0, W1, #4, #31` and `EXTR W0, W1, W1, #4`. -/
theorem shift_forms_agree_by_four :
    let m : Machine := withState {} ((State.write {} 1#5 0xAAAAAAAA80000F01#64).write 2#5 0x5555555500000024#64)
    let shifts : List (InstructionWord × ShiftForm) :=
      [(0x1AC22820#32, .byRegister), (0x2A8113E0#32, .operand), (0x13047C20#32, .bitfield)]
    let extr : InstructionWord := 0x13811020#32
    (∀ p ∈ shifts, p.1.HasShift p.2 .asr .w32 4 ∧ (m.execute p.1).2.state.slot 0#5 = 0xF80000F0#64) ∧
      extr.HasShift .extract .ror .w32 4 ∧ (m.execute extr).2.state.slot 0#5 = 0x180000F0#64 := by
  intro m shifts extr
  have hk : 4 < Width.w32.bits := by decide
  have hextr : extr.HasShift .extract .ror .w32 4 := by decide
  refine ⟨fun p hp => ?_, hextr, ?_⟩
  · have hform : ∀ p ∈ shifts, p.1.HasShift p.2 .asr .w32 4 ∧ m.state.read 32 (p.2.source p.1) = 0x80000F01#32 ∧
        p.2.AmountIs p.1 .w32 4 m.state ∧ p.1.rd = 0#5 := by
      decide +kernel
    obtain ⟨hshift, hx, hamount, hrd⟩ := hform p hp
    rw [m.shift_forms_agree .w32 0x80000F01#32 hk hshift hx hamount, hrd]
    exact ⟨hshift, by decide +kernel⟩
  · have hx : m.state.read 32 (ShiftForm.source .extract extr) = 0x80000F01#32 := by decide +kernel
    rw [m.shift_forms_agree .w32 0x80000F01#32 hk hextr hx trivial]
    decide +kernel

end Machine
end AArch64
