import AArch64.Proofs.Transfers.Moving

/-! Loads and stores of one register, as the bits of a word describe them: the form of the address, what is done with
the register and how many bytes move. Everything that is decoded from such a word does just that. -/
namespace AArch64

/-- The ordered forms have a base and nothing else, the literals start from the program counter. -/
inductive AddressForm
  | unsigned | unscaled | unprivileged | preIndex | postIndex | register | ordered | literal

namespace InstructionWord

variable (w : InstructionWord)

/-- The fixed bits of each form. -/
def HasAddress : AddressForm → Prop
  | .unsigned => w.number 29 27 = 0b111 ∧ w.number 25 24 = 0b01
  | .unscaled => w.number 29 27 = 0b111 ∧ w.number 25 24 = 0b00 ∧ w.bit 21 = false ∧ w.number 11 10 = 0b00
  | .postIndex => w.number 29 27 = 0b111 ∧ w.number 25 24 = 0b00 ∧ w.bit 21 = false ∧ w.number 11 10 = 0b01
  | .unprivileged => w.number 29 27 = 0b111 ∧ w.number 25 24 = 0b00 ∧ w.bit 21 = false ∧ w.number 11 10 = 0b10
  | .preIndex => w.number 29 27 = 0b111 ∧ w.number 25 24 = 0b00 ∧ w.bit 21 = false ∧ w.number 11 10 = 0b11
  | .register => w.number 29 27 = 0b111 ∧ w.number 25 24 = 0b00 ∧ w.bit 21 = true ∧ w.number 11 10 = 0b10
  | .ordered => w.number 29 24 = 0b001000 ∧ w.bit 23 = true ∧ w.bit 21 = false
  | .literal => w.number 29 27 = 0b011 ∧ w.number 25 24 = 0b00

instance {f : AddressForm} : Decidable (w.HasAddress f) :=
  match f with
  | .unsigned | .unscaled | .unprivileged | .preIndex | .postIndex | .register | .ordered | .literal =>
    inferInstanceAs (Decidable (_ ∧ _))

/-- A size field that counts in powers of two, a bit for the vector registers, and a code in two bits. Sixteen bytes
have a code of their own. -/
def MovesRegister (kind : TransferKind) (size : Nat) : Prop :=
  match kind with
  | .store => w.bit 26 = false ∧ w.number 23 22 = 0b00 ∧ size = 2 ^ w.number 31 30
  | .load => w.bit 26 = false ∧ w.number 23 22 = 0b01 ∧ size = 2 ^ w.number 31 30
  | .loadSigned .w64 => w.bit 26 = false ∧ w.number 23 22 = 0b10 ∧ size = 2 ^ w.number 31 30 ∧ size ≤ 4
  | .loadSigned .w32 => w.bit 26 = false ∧ w.number 23 22 = 0b11 ∧ size = 2 ^ w.number 31 30 ∧ size ≤ 2
  | .storeVector => w.bit 26 = true ∧ w.bit 22 = false ∧
      if w.bit 23 then w.number 31 30 = 0 ∧ size = 16 else size = 2 ^ w.number 31 30
  | .loadVector => w.bit 26 = true ∧ w.bit 22 = true ∧
      if w.bit 23 then w.number 31 30 = 0 ∧ size = 16 else size = 2 ^ w.number 31 30
  | .prefetch => False

def MovesOrdered (kind : TransferKind) (size : Nat) : Prop :=
  match kind with
  | .store => w.bit 22 = false ∧ size = 2 ^ w.number 31 30
  | .load => w.bit 22 = true ∧ size = 2 ^ w.number 31 30
  | _ => False

def LoadsLiteral (kind : TransferKind) (size : Nat) : Prop :=
  match kind with
  | .load => w.bit 26 = false ∧ w.number 31 30 ≤ 1 ∧ size = 4 * 2 ^ w.number 31 30
  | .loadSigned .w64 => w.bit 26 = false ∧ w.number 31 30 = 2 ∧ size = 4
  | .loadVector => w.bit 26 = true ∧ w.number 31 30 ≤ 2 ∧ size = 4 * 2 ^ w.number 31 30
  | _ => False

def Moves (f : AddressForm) (kind : TransferKind) (size : Nat) : Prop :=
  match f with
  | .ordered => w.MovesOrdered kind size
  | .literal => w.LoadsLiteral kind size
  | .unsigned | .unscaled | .unprivileged | .preIndex | .postIndex | .register => w.MovesRegister kind size

theorem Moves.pos {w : InstructionWord} {f : AddressForm} {kind : TransferKind} {size : Nat}
    (h : w.Moves f kind size) : 0 < size := by
  have hpow (k : Nat) : 0 < 2 ^ k := Nat.two_pow_pos k
  cases f <;> simp only [Moves, MovesRegister, MovesOrdered, LoadsLiteral] at h <;> split at h <;> grind

/-- The index in a register: its low half without or with a sign, or all of it. -/
def index (s : State) : Int :=
  match w.number 15 13 with
  | 2 => (s.read 32 w.rm).toNat
  | 6 => (s.read 32 w.rm).toInt
  | _ => (s.read 64 w.rm).toNat

end InstructionWord

namespace AddressForm

variable (f : AddressForm) (w : InstructionWord)

/-- The address that `size` bytes are moved to or from. -/
def address (size : Nat) (c : Core) : BitVec 64 :=
  match f with
  | unsigned => c.base w.rn + BitVec.ofNat 64 (w.number 21 10 * size)
  | unscaled | unprivileged | preIndex => c.base w.rn + BitVec.ofInt 64 (w.extractLsb 20 12).toInt
  | register => c.base w.rn + BitVec.ofInt 64 (w.index c.state * if w.bit 12 then size else 1)
  | postIndex | ordered => c.base w.rn
  | literal => c.state.pc + BitVec.ofInt 64 (4 * (w.extractLsb 23 5).toInt)

/-- The base register and where it goes, if it is moved. -/
def movedBase? (c : Core) : Option (Register × BitVec 64) :=
  match f with
  | preIndex | postIndex => some (w.rn, c.base w.rn + BitVec.ofInt 64 (w.extractLsb 20 12).toInt)
  | unsigned | unscaled | unprivileged | register | ordered | literal => none

/-- The indexing and the offset that the form stands for. -/
structure Indexes (scale : Nat) (p : Indexing × AddressOffset) : Prop where
  address : ∀ c : Core, Core.indexed p.1 (c.base w.rn) (p.2.value c.state) = f.address w (2 ^ scale) c
  moved : ∀ c : Core, (if p.1.writesBack then some (w.rn, c.base w.rn + p.2.value c.state) else none) =
    f.movedBase? w c

/-- The decoded instruction is the transfer that the bits describe. -/
structure Describes (kind : TransferKind) (size : Nat) (op : TransferOp) : Prop where
  plain : op.Plain
  start : ∀ c : Core, op.start c = f.address w size c
  moveFrom : ∀ (c : Core) (a : BitVec 64), op.moveFrom a c = c.move kind a size w.rd
  moved : ∀ c : Core, op.movedBase? c = f.movedBase? w c
  /-- A general register that is transferred is not moved as the base as well. -/
  apart : ∀ c : Core, f.movedBase? w c ≠ none → kind.isVector = false → w.rn = w.rd → w.rn = Register.stackPointer

end AddressForm

theorem ofInt_shiftLeft (z : Int) (k : Nat) : BitVec.ofInt 64 z <<< k = BitVec.ofInt 64 (z * (2 ^ k : Nat)) := by
  have htwo : BitVec.twoPow 64 k = BitVec.ofNat 64 (2 ^ k) := by
    apply BitVec.eq_of_toNat_eq
    simp [BitVec.toNat_twoPow]
  rw [BitVec.shiftLeft_eq_mul_twoPow, BitVec.ofInt_mul, BitVec.ofInt_natCast, htwo]

namespace TransferOp

open InstructionWord DecodeError

variable {w : InstructionWord} {f : AddressForm} {kind : TransferKind} {size : Nat}

section Register

theorem singleAddress_of_indexed (pre : Bool) (h24 : w.bit 24 = false) (h21 : w.bit 21 = false)
    (hform : w.number 11 10 = 2 * pre.toNat + 1) (kind : TransferKind) (scale : Nat) :
    singleAddress w kind scale =
      if kind == .prefetch then .error unallocated
      else .ok (if pre then .preIndex else .postIndex, .immediate (w.offset 20 12)) := by
  cases pre <;> simp [singleAddress, h24, h21, hform]

theorem extend_index (h14 : w.bit 14 = true) (s : State) :
    (Extension.ofCode (w.extractLsb 15 13)).extend (s.read 64 w.rm) = BitVec.ofInt 64 (w.index s) := by
  have hcode : (w.extractLsb 15 13).toNat = w.number 15 13 := rfl
  have hoption : w.number 15 13 = 2 ∨ w.number 15 13 = 3 ∨ w.number 15 13 = 6 ∨ w.number 15 13 = 7 := by
    simp only [number_eq, bit_eq_true] at h14 ⊢
    omega
  have hword : s.read 64 w.rm = BitVec.ofInt 64 (s.read 64 w.rm).toNat := by
    rw [BitVec.ofInt_natCast, BitVec.ofNat_toNat, BitVec.setWidth_eq]
  simp only [Extension.ofCode, hcode, index]
  obtain h | h | h | h := hoption
  · simp only [h, Extension.extend, State.setWidth_read]
    rw [BitVec.ofInt_natCast, BitVec.ofNat_toNat]
  · simpa only [h, Extension.extend] using hword
  · simp only [h, Extension.extend, State.setWidth_read]
    rfl
  · simpa only [h, Extension.extend] using hword

theorem apply_index (h14 : w.bit 14 = true) {scale : Nat} (hscale : scale < 64) (s : State) :
    (Extension.ofCode (w.extractLsb 15 13)).apply (s.read 64 w.rm) (if w.bit 12 then scale else 0) =
      BitVec.ofInt 64 (w.index s * (if w.bit 12 then 2 ^ scale else 1 : Nat)) := by
  rw [Extension.apply, extend_index h14, ofInt_shiftLeft]
  cases w.bit 12
  · rfl
  · simp only [if_true, Nat.mod_eq_of_lt hscale]

theorem indexes_singleAddress (hf : w.HasAddress f) (hsingle : w.number 29 27 = 0b111) (kind : TransferKind)
    {scale : Nat} (hscale : scale < 64) : Yields (singleAddress w kind scale) (f.Indexes w scale) := by
  have hoffset {g : AddressForm} (haddress : ∀ c : Core, g.address w (2 ^ scale) c =
      c.base w.rn + BitVec.ofInt 64 (w.extractLsb 20 12).toInt) (hmoved : ∀ c, g.movedBase? w c = none) :
      g.Indexes w scale (.offset, .immediate (w.offset 20 12)) :=
    ⟨fun c => (haddress c).symm, fun c => (hmoved c).symm⟩
  have hzero (h : w.number 25 24 = 0) : w.bit 24 = false := w.bit_of_number (i := 0) h (by decide)
  cases f with
  | unsigned =>
    have h24 : w.bit 24 = true := w.bit_of_number (i := 0) hf.2 (by decide)
    simp only [singleAddress, h24, if_true]
    refine .ok ⟨fun c => congrArg (c.base w.rn + ·) ?_, fun c => rfl⟩
    apply BitVec.eq_of_toNat_eq
    simp [AddressOffset.value, BitVec.toNat_shiftLeft, Nat.shiftLeft_eq, number]
  | unscaled =>
    obtain ⟨-, hgroup, h21, hform⟩ := hf
    simp only [singleAddress, hzero hgroup, h21, hform]
    exact .ok (hoffset (fun _ => rfl) fun _ => rfl)
  | unprivileged =>
    obtain ⟨-, hgroup, h21, hform⟩ := hf
    simp only [singleAddress, hzero hgroup, h21, hform]
    exact .guard fun _ => .ok (hoffset (fun _ => rfl) fun _ => rfl)
  | preIndex =>
    obtain ⟨-, hgroup, h21, hform⟩ := hf
    rw [singleAddress_of_indexed true (hzero hgroup) h21 hform]
    exact .guard fun _ => .ok ⟨fun _ => rfl, fun _ => rfl⟩
  | postIndex =>
    obtain ⟨-, hgroup, h21, hform⟩ := hf
    rw [singleAddress_of_indexed false (hzero hgroup) h21 hform]
    exact .guard fun _ => .ok ⟨fun _ => rfl, fun _ => rfl⟩
  | register =>
    obtain ⟨-, hgroup, h21, hform⟩ := hf
    simp only [singleAddress, hzero hgroup, h21, hform]
    refine .guard fun h14 => .ok ⟨fun c => ?_, fun c => rfl⟩
    have h14 : w.bit 14 = true := by simpa using h14
    exact congrArg (c.base w.rn + ·) (apply_index h14 hscale c.state)
  | ordered =>
    have hgroup := hf.1
    simp only [number_eq] at hgroup hsingle
    omega
  | literal =>
    rw [hf.1] at hsingle
    cases hsingle

theorem singleKind_of_moves (h : w.MovesRegister kind size) :
    ∃ scale, scale < 64 ∧ size = 2 ^ scale ∧ singleKind w = .ok (kind, scale) := by
  have hlt : w.number 31 30 < 4 := w.number_lt 31 30
  have hvector (hv : w.bit 26 = true)
      (hsize : if w.bit 23 then w.number 31 30 = 0 ∧ size = 16 else size = 2 ^ w.number 31 30) :
      ∃ scale, scale < 64 ∧ size = 2 ^ scale ∧
        singleKind w = .ok (if w.bit 22 then .loadVector else .storeVector, scale) := by
    cases h23 : w.bit 23 with
    | false =>
      simp only [h23] at hsize
      refine ⟨w.number 31 30, by omega, hsize, ?_⟩
      simp [singleKind, hv, h23]
      omega
    | true =>
      simp only [h23] at hsize
      exact ⟨4, by omega, hsize.2, by simp [singleKind, hv, h23, hsize.1]⟩
  cases kind with
  | store => exact ⟨w.number 31 30, by omega, h.2.2, by simp [singleKind, h.1, h.2.1]⟩
  | load => exact ⟨w.number 31 30, by omega, h.2.2, by simp [singleKind, h.1, h.2.1]⟩
  | loadSigned width =>
    cases width with
    | w32 =>
      obtain ⟨hgeneral, hcode, rfl, hle⟩ := h
      have hscale : w.number 31 30 ≤ 1 := (Nat.pow_le_pow_iff_right (by decide)).1 hle
      exact ⟨w.number 31 30, by omega, rfl, by simp [singleKind, hgeneral, hcode, hscale]⟩
    | w64 =>
      obtain ⟨hgeneral, hcode, rfl, hle⟩ := h
      have hscale : w.number 31 30 ≤ 2 := (Nat.pow_le_pow_iff_right (by decide)).1 hle
      exact ⟨w.number 31 30, by omega, rfl, by simp [singleKind, hgeneral, hcode]; omega⟩
  | storeVector => simpa [h.2.1] using hvector h.1 h.2.2
  | loadVector => simpa [h.2.1] using hvector h.1 h.2.2
  | prefetch => exact h.elim

theorem describes_decodeSingle (hf : w.HasAddress f) (hsingle : w.number 29 27 = 0b111)
    (h : w.MovesRegister kind size) : Yields (decodeSingle w) (f.Describes w kind size) := by
  obtain ⟨scale, hscale, rfl, hkind⟩ := singleKind_of_moves h
  simp only [decodeSingle, hkind]
  split
  next => exact .error _
  next indexing offset ha =>
    obtain ⟨haddress, hmoved⟩ := indexes_singleAddress hf hsingle kind hscale _ ha
    refine .guard fun hshared => .ok ⟨trivial, haddress, fun _ _ => rfl, hmoved, fun c hm hv heq => ?_⟩
    have hmoves : indexing.writesBack = true := by
      rw [← hmoved c] at hm
      simpa using hm
    simpa [hmoves, hv, heq] using hshared

end Register

theorem describes_decodeLiteral (h : w.LoadsLiteral kind size) :
    Yields (decodeLiteral w) (AddressForm.literal.Describes w kind size) := by
  have hoffset : w.offset 23 5 <<< 2 = BitVec.ofInt 64 (4 * (w.extractLsb 23 5).toInt) := by
    rw [Int.mul_comm]
    exact ofInt_shiftLeft _ 2
  have hdescribes {kind : TransferKind} {size : Nat} :
      Yields (.ok (.literal kind size w.rd (w.offset 23 5 <<< 2))) (AddressForm.literal.Describes w kind size) := by
    refine .ok ⟨trivial, fun c => ?_, fun _ _ => rfl, fun _ => rfl, fun _ hm => absurd rfl hm⟩
    exact congrArg (c.state.pc + ·) hoffset
  refine .guard fun _ => ?_
  cases kind with
  | load =>
    obtain ⟨hgeneral, hle, rfl⟩ := h
    obtain hn | hn : w.number 31 30 = 0 ∨ w.number 31 30 = 1 := by omega
    all_goals simpa only [hn, hgeneral] using hdescribes
  | loadSigned width =>
    cases width with
    | w32 => exact h.elim
    | w64 =>
      obtain ⟨hgeneral, hn, rfl⟩ := h
      simpa only [hn, hgeneral] using hdescribes
  | loadVector =>
    obtain ⟨hvector, hle, rfl⟩ := h
    obtain hn | hn | hn : w.number 31 30 = 0 ∨ w.number 31 30 = 1 ∨ w.number 31 30 = 2 := by omega
    all_goals simpa only [hn, hvector] using hdescribes
  | _ => exact h.elim

theorem describes_decodeExclusive (hf : w.HasAddress .ordered) (h : w.MovesOrdered kind size) :
    Yields (decodeExclusive w) (AddressForm.ordered.Describes w kind size) := by
  obtain ⟨-, h23, h21⟩ := hf
  have hdescribes {kind : TransferKind} {size : Nat} :
      Yields (.ok (.single kind size w.rd w.rn .offset (.immediate 0#64)))
        (AddressForm.ordered.Describes w kind size) := by
    refine .ok ⟨trivial, fun c => ?_, fun _ _ => rfl, fun _ => rfl, fun _ hm => absurd rfl hm⟩
    exact BitVec.add_zero _
  refine .guard fun _ => ?_
  simp only [h21, h23]
  cases kind with
  | store => simpa [h.1, h.2] using hdescribes
  | load => simpa [h.1, h.2] using hdescribes
  | _ => exact h.elim

theorem describes_of_decode (hf : w.HasAddress f) (h : w.Moves f kind size) :
    Yields (Instruction.decode w) fun i => ∃ op, i = .transfer op ∧ f.Describes w kind size op := by
  have hregister (hsingle : w.number 29 27 = 0b111) (h25 : w.bit 25 = false) (hm : w.MovesRegister kind size) :
      Yields (Instruction.decode w) fun i => ∃ op, i = .transfer op ∧ f.Describes w kind size op := by
    rw [Instruction.decode_of_single hsingle h25]
    exact (describes_decodeSingle hf hsingle hm).exists_map _
  cases f with
  | unsigned => exact hregister hf.1 (w.bit_of_number (i := 1) hf.2 (by decide)) h
  | unscaled | unprivileged | preIndex | postIndex | register =>
    exact hregister hf.1 (w.bit_of_number (i := 1) hf.2.1 (by decide)) h
  | ordered =>
    have hexclusive : w.number 29 25 = 0b00100 := by
      have hgroup := hf.1
      simp only [number_eq] at hgroup ⊢
      omega
    rw [Instruction.decode_of_exclusive hexclusive]
    exact (describes_decodeExclusive hf h).exists_map _
  | literal =>
    rw [Instruction.decode_of_literal hf.1 (w.bit_of_number (i := 1) hf.2 (by decide))]
    exact (describes_decodeLiteral h).exists_map _

end TransferOp

/-- An allocated word that moves one register. -/
structure InstructionWord.Transfers (w : InstructionWord) (f : AddressForm) (kind : TransferKind) (size : Nat) :
    Prop where
  form : w.HasAddress f
  moves : w.Moves f kind size
  allocated : ∃ i, Instruction.decode w = .ok i

theorem InstructionWord.Transfers.exists_op {w : InstructionWord} {f : AddressForm} {kind : TransferKind} {size : Nat}
    (h : w.Transfers f kind size) : ∃ op, Instruction.decode w = .ok (.transfer op) ∧ f.Describes w kind size op := by
  obtain ⟨i, hi⟩ := h.allocated
  obtain ⟨op, rfl, hop⟩ := TransferOp.describes_of_decode h.form h.moves i hi
  exact ⟨op, hi, hop⟩

/-- No general register but the stack pointer is transferred and moved as the base. -/
theorem InstructionWord.Transfers.apart {w : InstructionWord} {f : AddressForm} {kind : TransferKind} {size : Nat}
    (h : w.Transfers f kind size) {c : Core} {p : Register × BitVec 64} (hmoved : f.movedBase? w c = some p)
    (hgeneral : kind.isVector = false) (heq : p.1 = w.rd) : p.1 = Register.stackPointer := by
  obtain ⟨op, _, hop⟩ := h.exists_op
  have hbase : p.1 = w.rn := by
    unfold AddressForm.movedBase? at hmoved
    split at hmoved <;> cases hmoved <;> rfl
  rw [hbase] at heq ⊢
  exact hop.apart c (by simp [hmoved]) hgeneral heq

end AArch64
