import AArch64.Proofs.Decoding.Control
import AArch64.Proofs.Decoding.Float
import AArch64.Proofs.Decoding.Integer
import AArch64.Proofs.Decoding.Transfer

/-! What the groups of instruction words own. A decoded instruction changes nothing that its word does not own. -/
namespace AArch64

namespace InstructionWord

variable (w : InstructionWord)

/-- The destination, which is the stack pointer only where `stack` says so, and the flags. -/
def integerFootprint (stack : Bool) : Footprint :=
  { Footprint.register w.rd (if stack then .stackPointer else .zero) with nzcv := true }

/-- Whether the word writes this system register. -/
def writesSystem (r : SystemRegister) : Bool :=
  w.isSystemMove false && SystemRegister.ofNumber? (w.extractLsb 20 5) == some r

/-- The link register and the staged program counter belong to the branches, the rest to the system instructions. -/
def controlFootprint : Footprint where
  general r := r == Register.link || (w.isSystemMove true && r == w.rd && r != Register.stackPointer)
  nextPc := true
  nzcv := w.writesSystem .nzcv
  fpcr := w.writesSystem .fpcr
  fpsr := w.writesSystem .fpsr
  tpidr := w.writesSystem .threadPointer
  monitor := w.isSystem
  callout := true

def simdFootprint : Footprint where
  general r := r == w.rd && r != Register.stackPointer
  vectors r := r == w.rd
  nzcv := true
  fpsr := true

/-- The parts of a machine that the group of a word owns. -/
def footprint : Footprint :=
  match KeyTable.topLevel.key w with
  | 0 => { callout := true }
  | 1 | 2 | 3 => {}
  | 4 | 6 | 12 | 14 => w.transferFootprint
  | 5 | 13 => w.integerFootprint (IntegerInstruction.stackRegister w)
  | 8 | 9 => w.integerFootprint (IntegerInstruction.stackImmediate w)
  | 10 | 11 => w.controlFootprint
  | _ => w.simdFootprint

end InstructionWord

theorem IntegerInstruction.FitsWord.footprint_within {w : InstructionWord} {stack : Bool} {i : IntegerInstruction}
    (h : FitsWord w stack i) : i.footprint.Within (w.integerFootprint stack) := by
  have hregister : (Footprint.register i.rd i.role).Within (w.integerFootprint stack) := by
    refine Footprint.register_within fun hz => ?_
    rw [h.rd] at hz ⊢
    cases hrole : i.role with
    | stackPointer => simp [InstructionWord.integerFootprint, Footprint.register, h.role hrole]
    | zero =>
      cases stack with
      | true => simp [InstructionWord.integerFootprint, Footprint.register]
      | false => simpa [InstructionWord.integerFootprint, Footprint.register, hrole] using hz
  exact { hregister with nzcv := fun hn => by cases hn }

theorem ControlOp.FitsWord.footprint_within {w : InstructionWord} {op : ControlOp} (h : FitsWord w op) :
    op.footprint.Within w.controlFootprint := by
  cases op with
  | nothing | halt | breakpoint => constructor <;> intros <;> rfl
  | callout kind =>
    constructor
    case callout => nofun
    all_goals intros; rfl
  | branch test link offset | branchRegister link rn =>
    have hlink : (Footprint.base link Register.link).Within w.controlFootprint :=
      Footprint.base_within fun _ => by simp [InstructionWord.controlFootprint]
    exact { hlink with nextPc := nofun }
  | clearExclusive =>
    have hsystem : w.isSystem = true := h
    constructor
    case monitor => simp [InstructionWord.controlFootprint, hsystem]
    all_goals intros; rfl
  | readSystem rt r =>
    obtain ⟨hmove, rfl⟩ := h
    exact Footprint.register_within fun hz => by
      simpa [InstructionWord.controlFootprint, hmove] using Or.inr hz
  | writeSystem rt r =>
    obtain ⟨hmove, _, hr⟩ := h
    have hwrites : w.writesSystem r = true := by simp [InstructionWord.writesSystem, hmove, hr]
    cases r <;> constructor <;> simp [footprint, InstructionWord.controlFootprint, hwrites]

theorem SimdInstruction.FitsWord.footprint_within {w : InstructionWord} {i : SimdInstruction} (h : FitsWord w i) :
    i.footprint.Within w.simdFootprint := by
  have hrd := h.rd
  have hregisters : (Footprint.register i.rd ∪ Footprint.vector i.rd).Within w.simdFootprint := by
    refine Footprint.union_within (Footprint.register_within fun hz => ?_) (Footprint.vector_within ?_)
    · simpa [InstructionWord.simdFootprint, hrd] using hz
    · simp [InstructionWord.simdFootprint, hrd]
  exact { hregisters with nzcv := nofun, fpsr := nofun }

namespace Instruction

theorem yields_decode (w : InstructionWord) : Yields (decode w) fun i => i.footprint.Within w.footprint := by
  have hinteger {e : Except DecodeError IntegerInstruction} {stack : Bool}
      (he : Yields e (IntegerInstruction.FitsWord w stack)) (hw : w.footprint = w.integerFootprint stack) :
      Yields (e.map integer) fun i => i.footprint.Within w.footprint :=
    .map (he.mono fun i hi => hw ▸ hi.footprint_within)
  have htransfer (hw : w.footprint = w.transferFootprint) :
      Yields ((TransferOp.decode w).map transfer) fun i => i.footprint.Within w.footprint :=
    .map ((TransferOp.yields_decode w).mono fun op (hop : op.footprint.Within _) => hw ▸ hop)
  have hcontrol (hw : w.footprint = w.controlFootprint) :
      Yields ((ControlOp.decode w).map control) fun i => i.footprint.Within w.footprint :=
    .map ((ControlOp.yields_decode w).mono fun op hop => hw ▸ hop.footprint_within)
  have hsimd (hw : w.footprint = w.simdFootprint) :
      Yields ((SimdInstruction.decode w).map simd) fun i => i.footprint.Within w.footprint :=
    .map ((SimdInstruction.yields_decode w).mono fun i hi => hw ▸ hi.footprint_within)
  unfold decode
  split
  next hkey =>
    refine .map ((ControlOp.yields_decodeHostWord w).mono ?_)
    intro op hkind
    have hw : w.footprint = { callout := true } := by simp only [InstructionWord.footprint, hkey]
    rw [hw]
    rcases hkind with rfl | rfl | ⟨kind, rfl⟩ <;> constructor <;> simp [footprint, ControlOp.footprint]
  next => exact .error _
  next => exact .error _
  next => exact .error _
  next hkey => exact htransfer (by simp only [InstructionWord.footprint, hkey])
  next hkey => exact htransfer (by simp only [InstructionWord.footprint, hkey])
  next hkey => exact htransfer (by simp only [InstructionWord.footprint, hkey])
  next hkey => exact htransfer (by simp only [InstructionWord.footprint, hkey])
  next hkey =>
    exact hinteger (IntegerInstruction.yields_decodeRegister w) (by simp only [InstructionWord.footprint, hkey])
  next hkey =>
    exact hinteger (IntegerInstruction.yields_decodeRegister w) (by simp only [InstructionWord.footprint, hkey])
  next hkey =>
    exact hinteger (IntegerInstruction.yields_decodeImmediate w) (by simp only [InstructionWord.footprint, hkey])
  next hkey =>
    exact hinteger (IntegerInstruction.yields_decodeImmediate w) (by simp only [InstructionWord.footprint, hkey])
  next hkey => exact hcontrol (by simp only [InstructionWord.footprint, hkey])
  next hkey => exact hcontrol (by simp only [InstructionWord.footprint, hkey])
  next => exact hsimd (by simp [InstructionWord.footprint, *])

section Groups

open InstructionWord KeyTable

variable {w : InstructionWord}

theorem decode_of_immediate (h : w.number 28 26 = 0b100) :
    decode w = (IntegerInstruction.decodeImmediate w).map integer := by
  have htop : topLevel.key w = 8 ∨ topLevel.key w = 9 := by
    rw [key_topLevel]
    simp only [number_eq] at h ⊢
    omega
  obtain htop | htop := htop <;> simp only [decode, htop]

/-- The three bits below the class of the immediate forms say which of them a word is. -/
theorem key_immediate_of_number {k : Nat} (hk : k < 8) (h : w.number 28 23 = 0b100000 + k) :
    w.number 28 26 = 0b100 ∧ immediate.key w = k := by
  rw [key_immediate]
  simp only [number_eq] at h ⊢
  omega

theorem decode_of_register (h : w.number 27 25 = 0b101) :
    decode w = (IntegerInstruction.decodeRegister w).map integer := by
  have htop : topLevel.key w = 5 ∨ topLevel.key w = 13 := by
    rw [key_topLevel]
    simp only [number_eq] at h ⊢
    omega
  obtain htop | htop := htop <;> simp only [decode, htop]

theorem decode_of_exclusive (h : w.number 29 25 = 0b00100) :
    decode w = (TransferOp.decodeExclusive w).map transfer := by
  have htop : topLevel.key w = 4 := by
    rw [key_topLevel]
    simp only [number_eq] at h ⊢
    omega
  have hload : loadStore.key w = 0 := by
    rw [key_loadStore]
    simp only [number_eq, toNat_bit] at h ⊢
    omega
  simp only [decode, TransferOp.decode, htop, hload]

theorem decode_of_structures (h : w.number 29 25 = 0b00110) :
    decode w = (TransferOp.decodeStructures w).map transfer := by
  have htop : topLevel.key w = 6 := by
    rw [key_topLevel]
    simp only [number_eq] at h ⊢
    omega
  have hload : loadStore.key w = 1 := by
    rw [key_loadStore]
    simp only [number_eq, toNat_bit] at h ⊢
    omega
  simp only [decode, TransferOp.decode, htop, hload]

theorem decode_of_literal (h : w.number 29 27 = 0b011) (h25 : w.bit 25 = false) :
    decode w = (TransferOp.decodeLiteral w).map transfer := by
  have htop : topLevel.key w = 12 ∨ topLevel.key w = 14 := by
    rw [key_topLevel]
    simp only [number_eq, bit_eq_false] at h h25 ⊢
    omega
  have hload : loadStore.key w = 2 ∨ loadStore.key w = 3 := by
    rw [key_loadStore]
    simp only [number_eq, toNat_bit] at h ⊢
    omega
  obtain htop | htop := htop <;> obtain hload | hload := hload <;> simp only [decode, TransferOp.decode, htop, hload]

theorem decode_of_pair (h : w.number 29 27 = 0b101) (h25 : w.bit 25 = false) :
    decode w = (TransferOp.decodePair w).map transfer := by
  have htop : topLevel.key w = 4 ∨ topLevel.key w = 6 := by
    rw [key_topLevel]
    simp only [number_eq, bit_eq_false] at h h25 ⊢
    omega
  have hload : loadStore.key w = 4 ∨ loadStore.key w = 5 := by
    rw [key_loadStore]
    simp only [number_eq, toNat_bit] at h ⊢
    omega
  obtain htop | htop := htop <;> obtain hload | hload := hload <;> simp only [decode, TransferOp.decode, htop, hload]

theorem decode_of_single (h : w.number 29 27 = 0b111) (h25 : w.bit 25 = false) :
    decode w = (TransferOp.decodeSingle w).map transfer := by
  have htop : topLevel.key w = 12 ∨ topLevel.key w = 14 := by
    rw [key_topLevel]
    simp only [number_eq, bit_eq_false] at h h25 ⊢
    omega
  have hload : loadStore.key w = 6 ∨ loadStore.key w = 7 := by
    rw [key_loadStore]
    simp only [number_eq, toNat_bit] at h ⊢
    omega
  obtain htop | htop := htop <;> obtain hload | hload := hload <;> simp only [decode, TransferOp.decode, htop, hload]

theorem decode_of_system (h : w.number 31 24 = 0b11010101) :
    decode w = (ControlOp.decodeSystem w).map control := by
  have htop : topLevel.key w = 10 := by
    rw [key_topLevel]
    simp only [number_eq] at h ⊢
    omega
  have hcontrol : KeyTable.control.key w = 6 := by
    rw [key_control]
    simp only [number_eq] at h ⊢
    omega
  have hgroup : w.number 25 24 = 1 := by
    simp only [number_eq] at h ⊢
    omega
  simp only [decode, ControlOp.decode, ControlOp.decodeRest, htop, hcontrol, hgroup]

theorem decode_of_simd (h : w.number 27 25 = 0b111) : decode w = (SimdInstruction.decode w).map simd := by
  have htop : topLevel.key w = 7 ∨ topLevel.key w = 15 := by
    rw [key_topLevel]
    simp only [number_eq] at h ⊢
    omega
  obtain htop | htop := htop <;> simp only [decode, htop]

theorem exists_simd_of_decode (h : w.number 27 25 = 0b111) {i : Instruction} (hd : decode w = .ok i) :
    ∃ j, SimdInstruction.decode w = .ok j ∧ i = simd j := by
  rw [decode_of_simd h] at hd
  cases hj : SimdInstruction.decode w with
  | error e =>
    rw [hj] at hd
    cases hd
  | ok j =>
    rw [hj] at hd
    cases hd
    exact ⟨j, rfl, rfl⟩

end Groups

end Instruction
end AArch64
