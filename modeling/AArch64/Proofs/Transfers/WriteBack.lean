import AArch64.Proofs.Transfers.Addressing

/-! Loads and stores that move their base register. The registers are moved from the old base or from the new one, and
the base follows only if no access has faulted. A general register that is also the base is never transferred. -/
namespace AArch64

/-- Single registers and pairs are transferred from the new base or from the old one, structures from the old one. -/
inductive WriteBackForm
  | single (pre : Bool) | pair (pre : Bool) | structures

namespace InstructionWord

variable (w : InstructionWord)

/-- The fixed bits of each form. -/
def HasWriteBack : WriteBackForm → Prop
  | .single pre =>
    w.number 29 27 = 0b111 ∧ w.number 25 24 = 0b00 ∧ w.bit 21 = false ∧ w.bit 11 = pre ∧ w.bit 10 = true
  | .pair pre => w.number 29 27 = 0b101 ∧ w.bit 25 = false ∧ w.bit 24 = pre ∧ w.bit 23 = true
  | .structures => w.number 29 25 = 0b00110 ∧ w.bit 23 = true

instance {f : WriteBackForm} : Decidable (w.HasWriteBack f) :=
  match f with
  | .single _ | .pair _ | .structures => inferInstanceAs (Decidable (_ ∧ _))

/-- Bytes of each register of a pair. -/
def pairBytes : Nat :=
  if w.bit 26 then 4 * 2 ^ w.number 31 30 else if w.number 31 30 = 2 then 8 else 4

/-- Logarithm of the bytes of an element where a single structure is moved. -/
def elementScale : Nat :=
  match w.number 15 14 with
  | 2 => 2 + (w.bit 10).toNat
  | 3 => w.number 11 10
  | scale => scale

/-- Bytes of all structures of a word: whole registers or halves, or one element for each register. -/
def structureBytes : Nat :=
  w.structureRegisters * if w.bit 24 then 2 ^ w.elementScale else if w.bit 30 then 16 else 8

end InstructionWord

namespace WriteBackForm

variable (f : WriteBackForm) (w : InstructionWord)

/-- Whether the transfer starts from the new base. -/
def isPre : WriteBackForm → Bool
  | single pre | pair pre => pre
  | structures => false

/-- How far the base goes: by an encoded number, which counts registers in a pair, or past the structures or by the
value of a register. -/
def offset (s : State) : Int :=
  match f with
  | single _ => (w.extractLsb 20 12).toInt
  | pair _ => (w.extractLsb 21 15).toInt * w.pairBytes
  | structures => if w.rm = Register.stackPointer then w.structureBytes else (s.read 64 w.rm).toNat

/-- A general register that is transferred is also the base, and not the stack pointer. -/
def SharesBase : Prop :=
  w.bit 26 = false ∧ w.rn ≠ Register.stackPointer ∧
    match f with
    | single _ => w.rd = w.rn
    | pair _ => w.rd = w.rn ∨ w.ra = w.rn
    | structures => False

/-- The pair of general registers that would be stored with a tag. -/
def StoresTag : Prop :=
  match f with
  | pair _ => w.number 31 30 = 1 ∧ w.bit 26 = false ∧ w.bit 22 = false
  | single _ | structures => False

instance : Decidable (f.SharesBase w) :=
  match f with
  | single _ | pair _ | structures => inferInstanceAs (Decidable (_ ∧ _))

instance : Decidable (f.StoresTag w) :=
  match f with
  | pair _ => inferInstanceAs (Decidable (_ ∧ _))
  | single _ | structures => inferInstanceAs (Decidable False)

/-- What the decoded instruction does with the base. No register that it has written by the time it faults is the
base. -/
structure Fits (op : TransferOp) : Prop where
  plain : op.Plain
  start : ∀ c : Core, op.start c =
    if f.isPre then c.base w.rn + BitVec.ofInt 64 (f.offset w c.state) else c.base w.rn
  moved : ∀ c : Core, op.movedBase? c = some (w.rn, c.base w.rn + BitVec.ofInt 64 (f.offset w c.state))
  kept : op.faultFootprint.general w.rn = false

end WriteBackForm

/-- A general register that is loaded leaves other slots alone, and as number 31 also its own. -/
theorem TransferKind.general_footprint {kind : TransferKind} {rt rn : Register}
    (h : kind.isVector = false → rn ≠ Register.stackPointer → rt ≠ rn) : (kind.footprint rt).general rn = false := by
  have hregister (hv : kind.isVector = false) : (Footprint.register rt).general rn = false := by
    by_cases hrn : rn = Register.stackPointer
    · simp only [Footprint.register, hrn, GeneralRegisters.isZero_zero]
      grind
    · simp [Footprint.register, Ne.symm (h hv hrn)]
  cases kind with
  | store | prefetch | storeVector => rfl
  | load | loadSigned width => simp [footprint, Footprint.access, hregister rfl]
  | loadVector => rfl

namespace TransferOp

open InstructionWord DecodeError

variable {w : InstructionWord}

section Single

variable {pre : Bool}

theorem singleAddress_of_hasWriteBack (h : w.HasWriteBack (.single pre)) (kind : TransferKind) (scale : Nat) :
    singleAddress w kind scale =
      if kind == .prefetch then .error unallocated
      else .ok (if pre then .preIndex else .postIndex, .immediate (w.offset 20 12)) := by
  obtain ⟨-, hgroup, h21, h11, h10⟩ := h
  have h24 : w.bit 24 = false := w.bit_of_number (i := 0) hgroup (by decide)
  have hform : w.number 11 10 = 2 * pre.toNat + 1 := by
    subst h11
    simp only [number_eq, toNat_bit, bit_eq_true] at h10 ⊢
    omega
  exact singleAddress_of_indexed pre h24 h21 hform kind scale

theorem fits_decodeSingle (h : w.HasWriteBack (.single pre)) :
    Yields (decodeSingle w) ((WriteBackForm.single pre).Fits w) := by
  unfold decodeSingle
  split
  next => exact .error _
  next kind scale _ =>
    rw [singleAddress_of_hasWriteBack h]
    split
    next => exact .error _
    next indexing offset ha =>
      split at ha
      next => cases ha
      next =>
        cases ha
        refine .guard fun hshared => .ok ?_
        have hrt (hv : kind.isVector = false) (hrn : w.rn ≠ Register.stackPointer) : w.rd ≠ w.rn := by
          rintro heq
          exact hshared (by cases pre <;> simp [Indexing.writesBack, hv, heq, hrn])
        constructor
        case plain => trivial
        case start => cases pre <;> exact fun c => rfl
        case moved => cases pre <;> exact fun c => rfl
        case kept => exact TransferKind.general_footprint hrt

theorem singleKind_eq_error {e : DecodeError} (h : singleKind w = .error e) : e = unallocated := by
  unfold singleKind at h
  grind

theorem decodeSingle_of_shared (h : w.HasWriteBack (.single pre)) (hgeneral : w.bit 26 = false)
    (hrn : w.rn ≠ Register.stackPointer) (hrd : w.rd = w.rn) : decodeSingle w = .error unallocated := by
  unfold decodeSingle
  split
  next e he => rw [singleKind_eq_error he]
  next kind scale hk =>
    have hv : kind.isVector = false := (yields_singleKind w _ hk).1.trans hgeneral
    rw [singleAddress_of_hasWriteBack h]
    have hshared : ((if pre then Indexing.preIndex else .postIndex).writesBack && !kind.isVector && w.rn == w.rd
        && w.rn != Register.stackPointer) = true := by
      cases pre <;> simp [Indexing.writesBack, hv, hrd, hrn]
    cases hp : kind == .prefetch with
    | true => rfl
    | false => exact if_pos hshared

end Single

section Pair

variable {pre : Bool}

theorem pairIndexing_of_hasWriteBack (h : w.HasWriteBack (.pair pre)) :
    pairIndexing w = if pre then .preIndex else .postIndex := by
  obtain ⟨-, -, h24, h23⟩ := h
  have hform : w.number 24 23 = 2 * pre.toNat + 1 := by
    subst h24
    simp only [number_eq, toNat_bit, bit_eq_true] at h23 ⊢
    omega
  cases pre <;> simp [pairIndexing, hform]

theorem bytes_pairKind (w : InstructionWord) : Yields (pairKind w) fun k => k.2 = w.pairBytes := by
  unfold pairKind
  split
  next hn hv => exact .ok (by simp [pairBytes, hn, hv])
  next hn hv => exact .guard fun _ => .require fun _ => .ok (by simp [pairBytes, hn, hv])
  next hn hv => exact .ok (by simp [pairBytes, hn, hv])
  next hn hv => exact .ok (by simp [pairBytes, hn, hv])
  next hn hv => exact .ok (by simp [pairBytes, hn, hv])
  next hn hv => exact .ok (by simp [pairBytes, hn, hv])
  next => exact .error _

theorem fits_decodePair (h : w.HasWriteBack (.pair pre)) :
    Yields (decodePair w) ((WriteBackForm.pair pre).Fits w) := by
  unfold decodePair
  split
  next => exact .error _
  next kind size hk =>
    obtain rfl : size = w.pairBytes := bytes_pairKind w _ hk
    have hv : kind.isVector = w.bit 26 := (yields_pairKind w _ hk).1
    rw [pairIndexing_of_hasWriteBack h]
    refine .guard fun hshared => .guard fun _ => .ok ?_
    have hoffset : w.offset 21 15 * BitVec.ofNat 64 w.pairBytes =
        BitVec.ofInt 64 ((w.extractLsb 21 15).toInt * w.pairBytes) := by
      rw [BitVec.ofInt_mul, BitVec.ofInt_natCast]
      rfl
    have hrt (r : Register) (hr : r = w.rd ∨ r = w.ra) (hgeneral : kind.isVector = false)
        (hrn : w.rn ≠ Register.stackPointer) : r ≠ w.rn := by
      rintro rfl
      rw [hv] at hgeneral
      refine hshared ?_
      obtain hr | hr := hr <;> cases pre <;> simp [Indexing.writesBack, hgeneral, hrn, ← hr]
    constructor
    case plain => trivial
    case start =>
      intro c
      rw [hoffset]
      cases pre <;> rfl
    case moved =>
      intro c
      rw [hoffset]
      cases pre <;> rfl
    case kept =>
      have hfirst := TransferKind.general_footprint (hrt w.rd (.inl rfl))
      have hsecond := TransferKind.general_footprint (hrt w.ra (.inr rfl))
      simp only [faultFootprint, Footprint.general_union, hfirst, hsecond, Bool.or_false]

/-- The one form that is refused in another way. -/
theorem decodePair_of_storesTag (h : (WriteBackForm.pair pre).StoresTag w) :
    decodePair w = .error notYetImplemented := by
  obtain ⟨hopc, hgeneral, hstore⟩ := h
  simp [decodePair, pairKind, hopc, hgeneral, hstore]

theorem pairKind_eq_error (hindexed : w.bit 23 = true)
    (hstores : ¬(WriteBackForm.pair pre).StoresTag w) {e : DecodeError} (h : pairKind w = .error e) :
    e = unallocated := by
  have hform : w.number 24 23 ≠ 0 := by
    simp only [number_eq, bit_eq_true] at hindexed ⊢
    omega
  unfold pairKind at h
  split at h
  next => cases h
  next hn hv =>
    cases hload : w.bit 22 with
    | false => exact absurd ⟨hn, hv, hload⟩ hstores
    | true => simp [hload, hform] at h
  next => cases h
  next => cases h
  next => cases h
  next => cases h
  next =>
    cases h
    rfl

theorem decodePair_of_shared (h : w.HasWriteBack (.pair pre)) (hgeneral : w.bit 26 = false)
    (hrn : w.rn ≠ Register.stackPointer) (hrd : w.rd = w.rn ∨ w.ra = w.rn)
    (hstores : ¬(WriteBackForm.pair pre).StoresTag w) : decodePair w = .error unallocated := by
  unfold decodePair
  split
  next e he => rw [pairKind_eq_error h.2.2.2 hstores he]
  next kind size hk =>
    rw [pairIndexing_of_hasWriteBack h]
    refine if_pos ?_
    cases pre <;> simp [Indexing.writesBack, hgeneral, hrn, hrd]

end Pair

section Structures

theorem bytesMoved_singleStructure (h24 : w.bit 24 = true) :
    Yields (singleStructure w) fun p => p.2.bytesMoved p.1 = w.structureBytes := by
  have hlane {shape : StructureShape} {ebytes : Nat}
      (hshape : shape.bytesMoved ebytes = (2 * (w.bit 13).toNat + (w.bit 21).toNat + 1) * ebytes)
      (hbytes : 2 ^ w.elementScale = ebytes) :
      Yields (.ok (ebytes, shape)) fun p => p.2.bytesMoved p.1 = w.structureBytes :=
    .ok (by simp [hshape, structureBytes, structureRegisters, h24, hbytes])
  have hsize : w.number 11 10 = 2 * (w.bit 11).toNat + (w.bit 10).toNat := by
    simp only [number_eq, toNat_bit]
    omega
  unfold singleStructure
  split
  next hn => exact hlane rfl (by simp [elementScale, hn])
  next hn => exact .guard fun _ => hlane rfl (by simp [elementScale, hn])
  next hn =>
    refine .guard fun h11 => ?_
    have h11 : w.bit 11 = false := by
      simp only [Bool.or_eq_true, not_or] at h11
      exact eq_false_of_ne_true h11.1
    refine .ite (fun hzero => hlane rfl ?_) fun hone => hlane rfl ?_
    · have h10 : w.bit 10 = false := by simpa [hsize, h11] using hzero
      simp [elementScale, hn, h10]
    · have h10 : w.bit 10 = true := by simpa [hsize, h11] using hone
      simp [elementScale, hn, h10]
  next h0 h1 h2 =>
    have hlt : w.number 15 14 < 4 := w.number_lt 15 14
    have hn : w.number 15 14 = 3 := by
      simp only [imp_false] at h0 h1 h2
      omega
    exact .guard fun _ => hlane rfl (by simp [elementScale, hn])

theorem bytesMoved_multipleStructures (h24 : w.bit 24 = false) :
    Yields (multipleStructures w) fun p => p.2.bytesMoved p.1 = w.structureBytes := by
  refine .guard fun _ => ?_
  split
  next => exact .error _
  next repeats members hshape =>
    have hcount := structureRegisters_of_multipleShape? w h24 hshape
    have hlanes := elements_mul_bytes (w.bit 30) (w.number_lt 11 10)
    refine .guard fun _ => .ok ?_
    simp [StructureShape.bytesMoved, structureBytes, hcount, h24, Nat.mul_assoc, hlanes]

theorem fits_decodeStructures (h : w.HasWriteBack .structures) :
    Yields (decodeStructures w) (WriteBackForm.structures.Fits w) := by
  obtain ⟨-, h23⟩ := h
  refine .guard fun _ => ?_
  split
  next => exact .error _
  next ebytes shape hshape =>
    have hbytes : shape.bytesMoved ebytes = w.structureBytes := by
      cases h24 : w.bit 24 with
      | false => exact bytesMoved_multipleStructures h24 _ (by simpa [h24] using hshape)
      | true => exact bytesMoved_singleStructure h24 _ (by simpa [h24] using hshape)
    refine .ok ?_
    constructor
    case plain => trivial
    case start => exact fun c => rfl
    case moved =>
      intro c
      simp only [movedBase?, structureAdvance, h23, WriteBackForm.offset]
      by_cases hrm : w.rm = Register.stackPointer
      · simp [hrm, hbytes, BitVec.ofInt_natCast]
      · simp [hrm, BitVec.ofInt_natCast]
    case kept => rfl

end Structures

theorem decode_of_sharesBase {f : WriteBackForm} (h : w.HasWriteBack f) (hshares : f.SharesBase w) :
    Instruction.decode w = .error (if f.StoresTag w then notYetImplemented else unallocated) := by
  obtain ⟨hgeneral, hrn, hshared⟩ := hshares
  cases f with
  | single pre =>
    have h25 : w.bit 25 = false := w.bit_of_number (i := 1) h.2.1 (by decide)
    rw [Instruction.decode_of_single h.1 h25, decodeSingle_of_shared h hgeneral hrn hshared]
    rfl
  | pair pre =>
    rw [Instruction.decode_of_pair h.1 h.2.1]
    split
    next hstores => rw [decodePair_of_storesTag hstores, Except.map]
    next hstores => rw [decodePair_of_shared h hgeneral hrn hshared hstores, Except.map]
  | structures => exact hshared.elim

theorem decode_of_storesTag {f : WriteBackForm} (h : w.HasWriteBack f) (hstores : f.StoresTag w) :
    Instruction.decode w = .error notYetImplemented := by
  cases f with
  | pair pre => rw [Instruction.decode_of_pair h.1 h.2.1, decodePair_of_storesTag hstores, Except.map]
  | single _ | structures => exact hstores.elim

theorem fits_of_decode {f : WriteBackForm} (h : w.HasWriteBack f) :
    Yields (Instruction.decode w) fun i => ∃ op, i = .transfer op ∧ f.Fits w op := by
  cases f with
  | single pre =>
    rw [Instruction.decode_of_single h.1 (w.bit_of_number (i := 1) h.2.1 (by decide))]
    exact (fits_decodeSingle h).exists_map _
  | pair pre =>
    rw [Instruction.decode_of_pair h.1 h.2.1]
    exact (fits_decodePair h).exists_map _
  | structures =>
    rw [Instruction.decode_of_structures h.1]
    exact (fits_decodeStructures h).exists_map _

end TransferOp

namespace Machine

/-- The registers are transferred from the old base or the new one. If that leaves no fault the base is moved, and
otherwise the fault is reported and the base is the old one. Words that would transfer the base as a general register
are refused, and so is every pair with a tag. -/
theorem execute_writeBack (m : Machine) {f : WriteBackForm} {w : InstructionWord} (h : w.HasWriteBack f) :
    let base := m.core.base w.rn
    let moved := base + BitVec.ofInt 64 (f.offset w m.state)
    (∀ i, Instruction.decode w = .ok i → ∃ op, i = .transfer op ∧
      let transferred := op.moveFrom (if f.isPre then moved else base) m.core
      match transferred.memory.fault with
      | none =>
        m.execute w = (.ok .ready, { m with core := transferred.setBase w.rn moved }) ∧
          (m.execute w).2.core.base w.rn = moved
      | some fault =>
        (m.execute w).1 = .error .memoryException ∧ (m.execute w).2.fault = some fault ∧
          (m.execute w).2.core.base w.rn = base) ∧
    (f.SharesBase w →
      m.execute w = (.error (if f.StoresTag w then .notYetImplemented else .unallocatedInstruction), m)) ∧
    (f.StoresTag w → m.execute w = (.error .notYetImplemented, m)) := by
  intro base moved
  refine ⟨fun i hi => ?_, fun hshares => ?_, fun hstores => ?_⟩
  · obtain ⟨op, rfl, hfits⟩ := TransferOp.fits_of_decode h i hi
    refine ⟨op, rfl, ?_⟩
    have hstart : op.start m.core = if f.isPre then moved else base := hfits.start m.core
    intro transferred
    rw [m.execute_transfer hi]
    split
    next hnone =>
      rw [op.execute_of_no_fault hfits.plain (by rwa [hstart]), hstart, hfits.moved]
      exact ⟨rfl, Core.base_setBase _ _ _⟩
    next fault hfault =>
      have hx : (op.execute m.core).2 = some fault := TransferOp.execute_of_fault hfits.plain (by rwa [hstart])
      have hagree := op.agree_of_fault (c := m.core) (by simp [hx])
      generalize op.execute m.core = result at hx hagree
      obtain ⟨core, _⟩ := result
      cases hx
      exact ⟨rfl, rfl, hagree.state.read hfits.kept 64 .stackPointer⟩
  · rw [m.execute_of_decode_error (TransferOp.decode_of_sharesBase h hshares)]
    split <;> rfl
  · rw [m.execute_of_decode_error (TransferOp.decode_of_storesTag h hstores)]
    rfl

/-- `LDP X1, X2, [SP], #-16` from 0x8 on moves the stack pointer below zero and around. Where only the first of the two
registers is in memory, the second access faults and the stack pointer stays. -/
theorem execute_writeBack_pair :
    let ldp : InstructionWord := 0xA8FF0BE1#32
    let m (len : Nat) : Machine :=
      { core := {
          state := ({} : State).setSp 8#64
          memory := { blocks := [Block.ofBytes 8#64 len false (List.replicate 12 7#8)] } } }
    ldp.HasWriteBack (.pair false) ∧
      ((m 16).execute ldp).1 = .ok .ready ∧ ((m 16).execute ldp).2.state.sp = 0xFFFFFFFFFFFFFFF8#64 ∧
      ((m 16).execute ldp).2.state.slot 2#5 = 0x07070707#64 ∧
      ((m 15).execute ldp).1 = .error .memoryException ∧ ((m 15).execute ldp).2.state.sp = 8#64 := by
  intro ldp m
  have hldp : ldp.HasWriteBack (.pair false) := by decide
  have hd : Instruction.decode 0xA8FF0BE1#32 =
      .ok (.transfer (.pair .load 8 1#5 2#5 31#5 .postIndex 0xFFFFFFFFFFFFFFF0#64)) := rfl
  obtain ⟨op, hop, hfull⟩ := ((m 16).execute_writeBack hldp).1 _ hd
  obtain ⟨op', hop', hshort⟩ := ((m 15).execute_writeBack hldp).1 _ hd
  cases hop
  cases hop'
  have hrn : ldp.rn = Register.stackPointer := by decide
  have hsp (n : Machine) : n.core.base ldp.rn = n.state.sp := hrn ▸ n.core.base_stackPointer
  dsimp only at hfull hshort
  rw [if_neg (by decide), hsp, hsp] at hfull hshort
  split at hfull
  next =>
    obtain ⟨hrun, hmoved⟩ := hfull
    split at hshort
    next hnone => exact absurd hnone (by decide +kernel)
    next =>
      obtain ⟨herror, -, hkept⟩ := hshort
      exact ⟨hldp, by rw [hrun], hmoved.trans (by decide), by decide +kernel, herror, hkept.trans (by decide)⟩
  next fault hfault => exact absurd (Option.isSome_of_eq_some hfault) (by decide +kernel)

/-- Not every word that would transfer its base is unallocated: the pairs stored with a tag, here
`STGP X0, X1, [X0], #16`, do not exist at all. -/
theorem tagged_pair_not_unallocated :
    let stgp : InstructionWord := 0x68808400#32
    let m : Machine := {}
    stgp.HasWriteBack (.pair false) ∧ (WriteBackForm.pair false).SharesBase stgp ∧
      (m.execute stgp).1 = .error .notYetImplemented ∧ (m.execute stgp).1 ≠ .error .unallocatedInstruction := by
  intro stgp m
  have hd : Instruction.decode 0x68808400#32 = .error .notYetImplemented := rfl
  have hx : m.execute stgp = (.error .notYetImplemented, m) := m.execute_of_decode_error hd
  rw [hx]
  exact ⟨by decide, by decide, rfl, nofun⟩

end Machine

end AArch64
