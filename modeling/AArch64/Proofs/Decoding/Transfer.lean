import AArch64.Proofs.Decoding.Fields
import AArch64.Proofs.Frame
import AArch64.Transfer.Decode

/-! Decoded loads and stores: their sizes and lanes are in range, and they change only what the word names. -/
namespace AArch64

/-- A general register holds up to eight bytes and a vector register up to sixteen, in powers of two. -/
def TransferKind.Fits (kind : TransferKind) (size : Nat) : Prop :=
  ∃ k ≤ if kind.isVector then 4 else 3, size = 2 ^ k

/-- The lanes of the structures lie in their registers. -/
def StructureShape.InRange (ebytes : Nat) : StructureShape → Prop
  | multiple _ _ elements => elements * (8 * ebytes) ≤ 128
  | lane _ index => (index + 1) * (8 * ebytes) ≤ 128
  | replicated _ => True

namespace InstructionWord

variable (w : InstructionWord)

def isExclusive : Bool := KeyTable.loadStore.key w == 0

/-- Status and data of an exclusive store are in different fields. -/
def isExclusiveStore : Bool := w.isExclusive && !w.bit 22 && !w.bit 23

def isStructure : Bool := KeyTable.loadStore.key w == 1

def isPair : Bool := KeyTable.loadStore.key w == 4 || KeyTable.loadStore.key w == 5

def writesBack : Bool :=
  match KeyTable.loadStore.key w with
  | 0 | 2 | 3 => false
  | 1 => w.bit 23
  | 4 | 5 => (TransferOp.pairIndexing w).writesBack
  | _ => !w.bit 24 && !w.bit 21 && w.bit 10

/-- Number of consecutive registers that structures are moved to or from. -/
def structureRegisters : Nat :=
  if w.bit 24 then 2 * (w.bit 13).toNat + (w.bit 21).toNat + 1
  else
    match w.number 15 12 with
    | 0 | 2 => 4
    | 4 | 6 => 3
    | 8 | 10 => 2
    | _ => 1

def transferGeneral (r : Register) : Bool :=
  !w.bit 26 && r != Register.stackPointer &&
    (r == w.rd || (w.isPair && r == w.ra) || (w.isExclusiveStore && r == w.rm))

def transferVectors (r : Register) : Bool :=
  w.bit 26 &&
    (r == w.rd || (w.isPair && r == w.ra)
      || (w.isStructure && (consecutive w.rd w.structureRegisters).contains r))

def transferFootprint : Footprint where
  general r := w.transferGeneral r || (w.writesBack && r == w.rn)
  vectors := w.transferVectors
  memory := true
  monitor := w.isExclusive
  fault := true

theorem loadStore_key_mod_two : KeyTable.loadStore.key w % 2 = (w.bit 26).toNat := by
  have hbit : (w.bit 26).toNat < 2 := Bool.toNat_lt _
  rw [KeyTable.key_loadStore]
  omega

end InstructionWord

namespace TransferOp

def FitsWord (w : InstructionWord) (op : TransferOp) : Prop := op.footprint.Within w.transferFootprint

variable (w : InstructionWord)

theorem rd_within {kind : TransferKind} (h : kind.isVector = w.bit 26) :
    (kind.footprint w.rd).Within w.transferFootprint := by
  refine TransferKind.footprint_within rfl rfl (fun hv => ?_) fun hg hne => ?_
  · rw [h] at hv
    simp [InstructionWord.transferFootprint, InstructionWord.transferVectors, hv]
  · rw [h] at hg
    simp [InstructionWord.transferFootprint, InstructionWord.transferGeneral, hg, hne]

theorem base_within {moves : Bool} (h : moves = true → w.writesBack = true) :
    (Footprint.base moves w.rn).Within w.transferFootprint :=
  Footprint.base_within fun hm => by simp [InstructionWord.transferFootprint, h hm]

theorem yields_decodeLiteral : Yields (decodeLiteral w) (FitsWord w) := by
  have hok {kind : TransferKind} {size : Nat} (h : kind.isVector = w.bit 26) :
      Yields (.ok (.literal kind size w.rd (w.offset 23 5 <<< 2))) (FitsWord w) :=
    .ok (rd_within w h)
  refine .guard fun _ => ?_
  split
  next hv => exact hok hv.symm
  next hv => exact hok hv.symm
  next hv => exact hok hv.symm
  next => exact .ok (by constructor <;> intros <;> rfl)
  next hv => exact hok hv.symm
  next hv => exact hok hv.symm
  next hv => exact hok hv.symm
  next => exact .error _

theorem yields_decodeExclusive (h : w.isExclusive = true) : Yields (decodeExclusive w) (FitsWord w) := by
  have hgeneral : w.bit 26 = false := by
    have hkey := w.loadStore_key_mod_two
    simp only [InstructionWord.isExclusive, beq_iff_eq] at h
    cases hb : w.bit 26 <;> simp [h, hb] at hkey ⊢
  refine .guard fun _ => .guard fun _ => .ite (fun _ => ?_) fun hfirst => .ite (fun _ => ?_) fun hload =>
    .guard fun _ => ?_
  · refine .ok (Footprint.union_within (rd_within w ?_) (base_within w nofun))
    cases w.bit 22 <;> simp [hgeneral, TransferKind.isVector]
  · have hrd : (TransferKind.load.footprint w.rd).Within w.transferFootprint := rd_within w hgeneral.symm
    refine .ok ?_
    exact { hrd with monitor := fun hm => by simp [InstructionWord.transferFootprint, h] at hm }
  · have hstatus : (Footprint.access ∪ .register w.rm).Within w.transferFootprint := by
      refine Footprint.union_within (Footprint.access_within rfl rfl) (Footprint.register_within fun hz => ?_)
      have hstore : w.isExclusiveStore = true := by
        simp [InstructionWord.isExclusiveStore, h, hfirst, hload]
      have hne : w.rm ≠ Register.stackPointer := by simpa using hz
      simp [InstructionWord.transferFootprint, InstructionWord.transferGeneral, hgeneral, hstore, hne]
    refine .ok ?_
    exact { hstatus with monitor := fun hm => by simp [InstructionWord.transferFootprint, h] at hm }

theorem yields_pairKind : Yields (pairKind w) fun k => k.1.isVector = w.bit 26 ∧ k.1.Fits k.2 := by
  have hplain {size : Nat} (hv : w.bit 26 = false) (h : ∃ k ≤ 3, size = 2 ^ k) :
      Yields (.ok (if w.bit 22 then .load else .store, size))
        fun k : TransferKind × Nat => k.1.isVector = w.bit 26 ∧ k.1.Fits k.2 := by
    refine .ok ?_
    cases w.bit 22 <;> exact ⟨hv.symm, h⟩
  have hvector {size : Nat} (hv : w.bit 26 = true) (h : ∃ k ≤ 4, size = 2 ^ k) :
      Yields (.ok (if w.bit 22 then .loadVector else .storeVector, size))
        fun k : TransferKind × Nat => k.1.isVector = w.bit 26 ∧ k.1.Fits k.2 := by
    refine .ok ?_
    cases w.bit 22 <;> exact ⟨hv.symm, h⟩
  unfold pairKind
  split
  next hv => exact hplain hv ⟨2, by decide, rfl⟩
  next hv => exact .guard fun _ => .require fun _ => .ok ⟨hv.symm, 2, by decide, rfl⟩
  next hv => exact hplain hv ⟨3, by decide, rfl⟩
  next hv => exact hvector hv ⟨2, by decide, rfl⟩
  next hv => exact hvector hv ⟨3, by decide, rfl⟩
  next hv => exact hvector hv ⟨4, by decide, rfl⟩
  next => exact .error _

theorem ra_within {kind : TransferKind} (hpair : w.isPair = true) (h : kind.isVector = w.bit 26) :
    (kind.footprint w.ra).Within w.transferFootprint := by
  refine TransferKind.footprint_within rfl rfl (fun hv => ?_) fun hg hne => ?_
  · rw [h] at hv
    simp [InstructionWord.transferFootprint, InstructionWord.transferVectors, hv, hpair]
  · rw [h] at hg
    simp [InstructionWord.transferFootprint, InstructionWord.transferGeneral, hg, hne, hpair]

theorem yields_decodePair (hpair : w.isPair = true) (hbase : w.writesBack = (pairIndexing w).writesBack) :
    Yields (decodePair w) (FitsWord w) := by
  unfold decodePair
  split
  next => exact .error _
  next kind size hk =>
    obtain ⟨hv, _⟩ := yields_pairKind w _ hk
    refine .guard fun _ => .guard fun _ => .ok ?_
    have hregisters := Footprint.union_within (rd_within w hv) (ra_within w hpair hv)
    exact Footprint.union_within hregisters (base_within w fun hm => hbase.trans hm)

theorem yields_singleKind :
    Yields (singleKind w) fun k => k.1.isVector = w.bit 26 ∧ k.2 ≤ if k.1.isVector then 4 else 3 := by
  have hsize : w.number 31 30 ≤ 3 := Nat.le_of_lt_succ (w.number_lt 31 30)
  have hplain {kind : TransferKind} (hv : w.bit 26 = false) (h : kind.isVector = false) :
      kind.isVector = w.bit 26 ∧ w.number 31 30 ≤ if kind.isVector then 4 else 3 := by
    rw [h, hv]
    exact ⟨rfl, hsize⟩
  refine .ite (fun hv => .guard fun hscale => .ok ?_) fun hv => ?_
  · have hle := Nat.le_of_not_lt hscale
    cases w.bit 22 <;> exact ⟨hv.symm, hle⟩
  · have hv := eq_false_of_ne_true hv
    split
    · exact .ok (hplain hv rfl)
    · exact .ok (hplain hv rfl)
    · exact .ok (hplain hv (by split <;> rfl))
    · exact .require fun _ => .ok (hplain hv rfl)

theorem yields_singleAddress (kind : TransferKind) (scale : Nat) :
    Yields (singleAddress w kind scale) fun a =>
      a.1.writesBack = true → (!w.bit 24 && !w.bit 21 && w.bit 10) = true := by
  have hodd : w.bit 10 = (w.number 11 10).testBit 0 := by simp [w.testBit_number 11 10 0]
  have hnumber : w.number 11 10 < 4 := w.number_lt 11 10
  have hplain {o : AddressOffset} : Yields (.ok (Indexing.offset, o)) fun a =>
      a.1.writesBack = true → (!w.bit 24 && !w.bit 21 && w.bit 10) = true :=
    .ok nofun
  refine .ite (fun _ => hplain) fun h24 => .ite (fun h21 => ?_) fun _ => .guard fun _ => .guard fun _ => hplain
  split
  next => exact hplain
  next => exact .guard fun _ => hplain
  next hone =>
    refine .guard fun _ => .ok fun _ => ?_
    simp_all
  next h0 h2 h1 =>
    have hthree : w.number 11 10 = 3 := by
      simp only [imp_false] at h0 h2 h1
      omega
    refine .guard fun _ => .ok fun _ => ?_
    simp_all

theorem yields_decodeSingle (hbase : w.writesBack = (!w.bit 24 && !w.bit 21 && w.bit 10)) :
    Yields (decodeSingle w) (FitsWord w) := by
  unfold decodeSingle
  split
  next => exact .error _
  next kind scale hk =>
    obtain ⟨hv, _⟩ := yields_singleKind w _ hk
    split
    next => exact .error _
    next indexing offset ha =>
      have hmoves := yields_singleAddress w kind scale _ ha
      refine .guard fun _ => .ok ?_
      exact Footprint.union_within (rd_within w hv) (base_within w fun hm => hbase.trans (hmoves hm))

/-- Structures have elements of up to eight bytes, lanes in range and as many registers as the word says. -/
structure StructureFits (w : InstructionWord) (p : Nat × StructureShape) : Prop where
  size : TransferKind.load.Fits p.1
  inRange : p.2.InRange p.1
  registers : ∀ rt, p.2.registers rt = consecutive rt w.structureRegisters

theorem structureRegisters_of_multipleShape? {repeats members : Nat} (h24 : w.bit 24 = false)
    (h : multipleShape? w = some (repeats, members)) : w.structureRegisters = repeats * members := by
  unfold multipleShape? at h
  split at h <;> cases h <;> simp_all [InstructionWord.structureRegisters]

theorem yields_multipleStructures (h24 : w.bit 24 = false) : Yields (multipleStructures w) (StructureFits w) := by
  have hsize : w.number 11 10 ≤ 3 := Nat.le_of_lt_succ (w.number_lt 11 10)
  refine .guard fun _ => ?_
  split
  next => exact .error _
  next repeats members hshape =>
    refine .guard fun _ => .ok ⟨⟨_, hsize, rfl⟩, ?_, fun rt => ?_⟩
    · have hlanes := Nat.div_mul_le_self (if w.bit 30 then 16 else 8) (2 ^ w.number 11 10)
      have hfull : (if w.bit 30 then 16 else 8) ≤ 16 := by cases w.bit 30 <;> decide
      change (if w.bit 30 then 16 else 8) / 2 ^ w.number 11 10 * (8 * 2 ^ w.number 11 10) ≤ 128
      rw [Nat.mul_left_comm]
      omega
    · simp [StructureShape.registers, structureRegisters_of_multipleShape? w h24 hshape]

theorem yields_singleStructure (h24 : w.bit 24 = true) : Yields (singleStructure w) (StructureFits w) := by
  have hq : (w.bit 30).toNat < 2 := Bool.toNat_lt _
  have hs : (w.bit 12).toNat < 2 := Bool.toNat_lt _
  have hsize : w.number 11 10 < 4 := w.number_lt 11 10
  have hcount : w.structureRegisters = 2 * (w.bit 13).toNat + (w.bit 21).toNat + 1 := by
    simp [InstructionWord.structureRegisters, h24]
  have hlane {k index : Nat} (hk : k ≤ 3) (h : (index + 1) * (8 * 2 ^ k) ≤ 128) : Yields
      (.ok (2 ^ k, .lane (2 * (w.bit 13).toNat + (w.bit 21).toNat + 1) index)) (StructureFits w) :=
    .ok ⟨⟨k, hk, rfl⟩, h, fun rt => by simp [StructureShape.registers, hcount]⟩
  unfold singleStructure
  split
  · exact hlane (k := 0) (by decide) (by omega)
  · exact .guard fun _ => hlane (k := 1) (by decide) (by omega)
  · exact .guard fun _ =>
      .ite (fun _ => hlane (k := 2) (by decide) (by omega)) fun _ => hlane (k := 3) (by decide) (by omega)
  · refine .guard fun _ => .ok ⟨⟨_, Nat.le_of_lt_succ hsize, rfl⟩, trivial, fun rt => ?_⟩
    simp [StructureShape.registers, hcount]

theorem yields_structures :
    Yields (if w.bit 24 then singleStructure w else multipleStructures w) (StructureFits w) :=
  .ite (fun h24 => yields_singleStructure w h24) fun h24 => yields_multipleStructures w (eq_false_of_ne_true h24)

theorem yields_decodeStructures (h : w.isStructure = true) (hbase : w.writesBack = w.bit 23) :
    Yields (decodeStructures w) (FitsWord w) := by
  have hvector : w.bit 26 = true := by
    have hkey := w.loadStore_key_mod_two
    simp only [InstructionWord.isStructure, beq_iff_eq] at h
    cases hb : w.bit 26 <;> simp [h, hb] at hkey ⊢
  refine .guard fun _ => ?_
  split
  next => exact .error _
  next ebytes shape hshape =>
    have hfits : StructureFits w (ebytes, shape) := yields_structures w _ hshape
    have hadvance (hm : (structureAdvance w).moves = true) : w.writesBack = true := by
      unfold structureAdvance at hm
      rw [hbase]
      cases h23 : w.bit 23 <;> simp_all [Advance.moves]
    have hrest := Footprint.union_within (Footprint.access_within (f := w.transferFootprint) rfl rfl)
      (base_within w hadvance)
    refine .ok { hrest with vectors := fun r hr => ?_ }
    have hout : (consecutive w.rd w.structureRegisters).contains r = false := by
      simp only [InstructionWord.transferFootprint, InstructionWord.transferVectors, hvector, h] at hr
      simp_all
    simp only [footprint, hfits.registers, hout, Bool.and_false]

theorem yields_decode : Yields (decode w) (FitsWord w) := by
  unfold decode
  split
  next hkey => exact yields_decodeExclusive w (by simp [InstructionWord.isExclusive, hkey])
  next hkey =>
    exact yields_decodeStructures w (by simp [InstructionWord.isStructure, hkey])
      (by simp [InstructionWord.writesBack, hkey])
  next => exact yields_decodeLiteral w
  next => exact yields_decodeLiteral w
  next hkey =>
    exact yields_decodePair w (by simp [InstructionWord.isPair, hkey]) (by simp [InstructionWord.writesBack, hkey])
  next hkey =>
    exact yields_decodePair w (by simp [InstructionWord.isPair, hkey]) (by simp [InstructionWord.writesBack, hkey])
  next => exact yields_decodeSingle w (by simp [InstructionWord.writesBack])

/-- No access of the instruction is empty. -/
def Sized : TransferOp → Prop
  | nothing => True
  | literal _ size _ _ | single _ size _ _ _ _ | pair _ size _ _ _ _ _ | loadExclusive size _ _
  | storeExclusive size _ _ _ => 0 < size
  | structures _ ebytes _ _ _ _ _ => 0 < ebytes

theorem pos_of_fits {kind : TransferKind} {size : Nat} (h : kind.Fits size) : 0 < size := by
  obtain ⟨k, _, rfl⟩ := h
  exact Nat.two_pow_pos k

theorem sized_decodeLiteral : Yields (decodeLiteral w) Sized := by
  have hok {kind : TransferKind} {size : Nat} (h : 0 < size) :
      Yields (.ok (.literal kind size w.rd (w.offset 23 5 <<< 2))) Sized := .ok h
  refine .guard fun _ => ?_
  split
  next => exact hok (by decide)
  next => exact hok (by decide)
  next => exact hok (by decide)
  next => exact .ok trivial
  next => exact hok (by decide)
  next => exact hok (by decide)
  next => exact hok (by decide)
  next => exact .error _

theorem sized_decodeExclusive : Yields (decodeExclusive w) Sized := by
  have hpos : 0 < 2 ^ w.number 31 30 := Nat.two_pow_pos _
  exact .guard fun _ => .guard fun _ => .ite (fun _ => .ok hpos) fun _ => .ite (fun _ => .ok hpos) fun _ =>
    .guard fun _ => .ok hpos

theorem sized_decodePair : Yields (decodePair w) Sized := by
  unfold decodePair
  split
  next => exact .error _
  next kind size hk =>
    have hpos : 0 < size := pos_of_fits (yields_pairKind w _ hk).2
    exact .guard fun _ => .guard fun _ => .ok hpos

theorem sized_decodeSingle : Yields (decodeSingle w) Sized := by
  unfold decodeSingle
  split
  next => exact .error _
  next kind scale _ =>
    have hpos : 0 < 2 ^ scale := Nat.two_pow_pos scale
    split
    next => exact .error _
    next => exact .guard fun _ => .ok hpos

theorem sized_decodeStructures : Yields (decodeStructures w) Sized := by
  refine .guard fun _ => ?_
  split
  next => exact .error _
  next ebytes shape hshape => exact .ok (pos_of_fits (yields_structures w _ hshape).size)

theorem sized_decode : Yields (decode w) Sized := by
  unfold decode
  split
  next => exact sized_decodeExclusive w
  next => exact sized_decodeStructures w
  next => exact sized_decodeLiteral w
  next => exact sized_decodeLiteral w
  next => exact sized_decodePair w
  next => exact sized_decodePair w
  next => exact sized_decodeSingle w

end TransferOp
end AArch64
