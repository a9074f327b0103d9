import AArch64.Proofs.Execution
import AArch64.Proofs.Integers.BitMasks

/-! Bitfield moves. The masks and the rotation that compute such a move come down to one field of the source and the
place where it goes: bits `immr` to `imms` go to bit 0, or where `imms` is below `immr` the bits up to `imms` go as far
up as a rotation right by `immr` takes them. -/
namespace AArch64

section Fields

variable {n : Nat}

/-- The value with the bits from `place` on replaced by a field. -/
def replaceField {k : Nat} (x : BitVec n) (place : Nat) (field : BitVec k) : BitVec n :=
  (x.extractLsb' (place + k) (n - (place + k)) ++ field ++ x.extractLsb' 0 place).setWidth n

/-- Bits `lo` to `hi` of the source moved to start at bit `place`: with zeros around them, with zeros below them and
copies of the top one above, or in the middle of the old destination. -/
def moveField (kind : BitfieldKind) (dst src : BitVec n) (hi lo place : Nat) : BitVec n :=
  let field := src.extractLsb hi lo
  match kind with
  | .unsigned => field.setWidth n <<< place
  | .signed => field.signExtend n <<< place
  | .inserting => replaceField dst place field

/-- What a bit holds that the field does not reach, `sign` being what a signed move puts there. -/
def BitfieldKind.outside (kind : BitfieldKind) (dst : BitVec n) (sign : Bool) (i : Nat) : Bool :=
  match kind with
  | .unsigned => false
  | .signed => sign
  | .inserting => dst.getLsbD i

theorem getLsbD_replaceField {k : Nat} (x : BitVec n) {place i : Nat} (field : BitVec k) (h : i < n) :
    (replaceField x place field).getLsbD i =
      if place ≤ i ∧ i < place + k then field.getLsbD (i - place) else x.getLsbD i := by
  rw [replaceField, BitVec.getLsbD_setWidth, BitVec.getLsbD_append, BitVec.getLsbD_append]
  simp only [h, decide_true, Bool.true_and, BitVec.getLsbD_extractLsb', Nat.zero_add]
  by_cases hlow : i < place
  · rw [if_pos hlow, if_neg (by omega), decide_eq_true hlow, Bool.true_and]
  · by_cases hfield : i - place < k
    · rw [if_neg hlow, if_pos hfield, if_pos (by omega)]
    · have hsplit : place + k + (i - place - k) = i := by omega
      rw [if_neg hlow, if_neg hfield, if_neg (by omega), hsplit, decide_eq_true (by omega), Bool.true_and]

theorem getLsbD_moveField (kind : BitfieldKind) (dst src : BitVec n) {hi lo place i : Nat} (h : i < n)
    (hlo : lo ≤ hi) :
    (moveField kind dst src hi lo place).getLsbD i =
      if place ≤ i ∧ i ≤ place + (hi - lo) then src.getLsbD (lo + (i - place))
      else kind.outside dst (decide (place + (hi - lo) < i) && src.getLsbD hi) i := by
  have hfield (j : Nat) : (src.extractLsb hi lo).getLsbD j =
      if j ≤ hi - lo then src.getLsbD (lo + j) else false := by
    rw [BitVec.getLsbD_extractLsb]
    by_cases hj : j ≤ hi - lo
    · rw [if_pos hj, decide_eq_true (Nat.lt_succ_of_le hj), Bool.true_and]
    · rw [if_neg hj, decide_eq_false (by omega), Bool.false_and]
  have hsign : (src.extractLsb hi lo).msb = src.getLsbD hi := by
    rw [BitVec.msb_eq_getLsbD_last, hfield, if_pos (by omega), Nat.add_sub_cancel, Nat.add_sub_cancel' hlo]
  have hshift (x : BitVec n) : (x <<< place).getLsbD i = if i < place then false else x.getLsbD (i - place) := by
    rw [BitVec.getLsbD_shiftLeft, decide_eq_true h, Bool.true_and]
    by_cases hlow : i < place <;> simp [hlow]
  have hrange : i - place < n := by omega
  -- in each kind the index lies below, in or above the field
  cases kind with
  | unsigned =>
    simp only [moveField, BitfieldKind.outside, hshift, BitVec.getLsbD_setWidth, hfield, hrange, decide_true,
      Bool.true_and]
    grind
  | signed =>
    simp only [moveField, BitfieldKind.outside, hshift, BitVec.getLsbD_signExtend, hfield, hsign, hrange, decide_true,
      Bool.true_and]
    grind
  | inserting =>
    simp only [moveField, BitfieldKind.outside, getLsbD_replaceField _ _ h, hfield]
    grind

/-- A move by masks, bit by bit: the rotated source inside both masks, and elsewhere what the kind of move leaves
there, the bit `s` of the source counting as the sign above the upper mask alone. -/
theorem getLsbD_bitfieldMove (kind : BitfieldKind) (dst src : BitVec n) (r s : Nat) (wmask tmask : BitVec n) {i : Nat}
    (h : i < n) :
    (bitfieldMove kind dst src r s wmask tmask).getLsbD i =
      if tmask.getLsbD i && wmask.getLsbD i then src.getLsbD ((i + r) % n)
      else kind.outside dst (!tmask.getLsbD i && src.getLsbD s) i := by
  have hrotate := getLsbD_rotateRight_mod src r h
  have hfill (b : Bool) : (if b then BitVec.allOnes n else 0#n).getLsbD i = b := by cases b <;> simp [h]
  cases kind <;> cases htmask : tmask.getLsbD i <;> cases hwmask : wmask.getLsbD i <;>
    simp only [bitfieldMove, BitfieldKind.outside, BitVec.getLsbD_or, BitVec.getLsbD_and, BitVec.getLsbD_not, hrotate,
      hfill, htmask, hwmask, h, decide_true, Bool.true_and, Bool.not_true, Bool.not_false, Bool.and_true,
      Bool.and_false, Bool.or_false, Bool.false_or, Bool.false_and, if_true, if_false, Bool.false_eq_true]

/-- The field that a move by `immr` and `imms` puts into the destination. -/
def bitfieldResult (kind : BitfieldKind) (dst src : BitVec n) (immr imms : Nat) : BitVec n :=
  if immr ≤ imms then moveField kind dst src imms immr 0 else moveField kind dst src imms 0 (n - immr)

/-- The masks of a move select its field. Where `imms` is below `immr` the rotation carries the low bits around the end
of the register, and the run of the upper mask ends at the top bit of the field in both cases. -/
theorem bitfieldMove_eq (kind : BitfieldKind) (dst src : BitVec n) {immr imms : Nat} {wmask tmask : BitVec n}
    (hr : immr < n) (hs : imms < n) (hwmask : ∀ i < n, wmask.getLsbD i = decide ((i + immr) % n < imms + 1))
    (htmask : ∀ i < n, tmask.getLsbD i = decide (i < (imms + n - immr) % n + 1)) :
    bitfieldMove kind dst src immr imms wmask tmask = bitfieldResult kind dst src immr imms := by
  refine BitVec.eq_of_getLsbD_eq fun i h => ?_
  rw [getLsbD_bitfieldMove kind dst src immr imms wmask tmask h, hwmask i h, htmask i h, bitfieldResult]
  by_cases hle : immr ≤ imms
  · have htop : (imms + n - immr) % n = imms - immr := by
      rw [Nat.mod_eq_sub_mod (by omega), Nat.mod_eq_of_lt (by omega)]
      omega
    rw [if_pos hle, getLsbD_moveField kind dst src h hle, htop]
    by_cases hin : i ≤ imms - immr
    · have hplace : (i + immr) % n = immr + i := by rw [Nat.mod_eq_of_lt (by omega), Nat.add_comm]
      rw [if_pos (by simp; omega), if_pos (by omega), hplace, Nat.sub_zero]
    · rw [if_neg (by simp; omega), if_neg (by omega), decide_eq_false (by omega), decide_eq_true (by omega)]
      rfl
  · have htop : (imms + n - immr) % n = imms + n - immr := Nat.mod_eq_of_lt (by omega)
    rw [if_neg hle, getLsbD_moveField kind dst src h (Nat.zero_le _), htop]
    by_cases hbelow : i < n - immr
    · have hplace : (i + immr) % n = i + immr := Nat.mod_eq_of_lt (by omega)
      rw [hplace, if_neg (by simp; omega), if_neg (by omega), decide_eq_true (by omega), decide_eq_false (by omega)]
      rfl
    · have hplace : (i + immr) % n = 0 + (i - (n - immr)) := by
        rw [Nat.mod_eq_sub_mod (by omega), Nat.mod_eq_of_lt (by omega)]
        omega
      rw [hplace]
      by_cases hin : i ≤ n - immr + imms
      · rw [if_pos (by simp; omega), if_pos (by omega)]
      · rw [if_neg (by simp; omega), if_neg (by omega), decide_eq_false (by omega), decide_eq_true (by omega)]
        rfl

open Bits in
def fieldMasks (n immr imms : Nat) : BitVec 64 × BitVec 64 :=
  (replicate (rotateRight (ones (imms + 1)) immr n) n &&& ones n,
    replicate (ones ((imms + n - immr) % n + 1)) n &&& ones n)

open Bits BitMasks in
theorem bitfieldMove_fieldMasks {width : Width} (kind : BitfieldKind) (dst src : BitVec width.bits) {immr imms : Nat}
    (hr : immr < width.bits) (hs : imms < width.bits) :
    let masks := fieldMasks width.bits immr imms
    bitfieldMove kind dst src immr imms (masks.1.setWidth width.bits) (masks.2.setWidth width.bits) =
      bitfieldResult kind dst src immr imms := by
  intro masks
  have hpos : 0 < width.bits := Nat.zero_lt_of_lt hr
  have h64 {i : Nat} (h : i < width.bits) : i < 64 := Nat.lt_of_lt_of_le h width.bits_le
  have hkeep (x : BitVec 64) {i : Nat} (h : i < width.bits) :
      ((x &&& ones width.bits).setWidth width.bits).getLsbD i = x.getLsbD i := by
    rw [BitVec.getLsbD_setWidth, BitVec.getLsbD_and, getLsbD_ones, decide_eq_true h, decide_eq_true (h64 h),
      Bool.and_true, Bool.and_true, Bool.true_and]
  apply bitfieldMove_eq kind dst src hr hs
  · intro i h
    exact (hkeep _ h).trans (getLsbD_rotatedRun _ _ hpos width.bits_le (h64 h))
  · intro i h
    have hrun := getLsbD_run ((imms + width.bits - immr) % width.bits + 1) hpos width.bits_le (h64 h)
    rw [Nat.mod_eq_of_lt h] at hrun
    exact (hkeep _ h).trans hrun

end Fields

/-- The kinds of bitfield moves; the fourth code is free. -/
def BitfieldKind.ofCode? : Nat → Option BitfieldKind
  | 0 => some .signed
  | 1 => some .inserting
  | 2 => some .unsigned
  | _ => none

/-- A bitfield move needs one bit that repeats the width, and both numbers below the width. -/
def InstructionWord.HasBitfield (w : InstructionWord) : Prop :=
  w.bit 22 = w.bit 31 ∧ w.number 21 16 < w.width.bits ∧ w.number 15 10 < w.width.bits

instance {w : InstructionWord} : Decidable w.HasBitfield := inferInstanceAs (Decidable (_ ∧ _))

theorem BitMasks.elementSize?_full {sf : Bool} {imms : BitVec 6} (h : imms.toNat < (Width.ofBit sf).bits) :
    elementSize? sf imms = some (Width.ofBit sf).bits := by
  rw [elementSize?_eq_some]
  have hlt : imms.toNat < 2 ^ 6 := imms.isLt
  cases sf with
  | true => exact ⟨6, by decide, rfl, by simp, by simp; omega⟩
  | false => exact ⟨5, by decide, rfl, by simp [Width.ofBit, Width.bits] at *; omega, by simp; omega⟩

namespace IntegerInstruction

open InstructionWord

variable (w : InstructionWord)

theorem rejects_bitfield_iff :
    (w.bit 31 != w.bit 22 || (!w.bit 31 && (w.bit 21 || w.bit 15))) = true ↔ ¬w.HasBitfield := by
  have hr : w.number 21 16 < 64 := w.number_lt 21 16
  have hs : w.number 15 10 < 64 := w.number_lt 15 10
  have hr' : w.bit 21 = true ↔ ¬w.number 21 16 < 32 := by
    rw [bit_eq_true, number_eq]
    omega
  have hs' : w.bit 15 = true ↔ ¬w.number 15 10 < 32 := by
    rw [bit_eq_true, number_eq]
    omega
  rw [HasBitfield, InstructionWord.width, Width.bits_ofBit]
  cases w.bit 31 with
  | true => simp [hr, hs]
  | false =>
    rw [Bool.or_eq_true, Bool.not_false, Bool.true_and, Bool.or_eq_true, hr', hs', bne_iff_ne]
    simp only [Bool.false_eq_true, if_false]
    grind

theorem decode_fieldMasks (h : w.HasBitfield) :
    BitMasks.decode (w.bit 22) (w.extractLsb 15 10) (w.extractLsb 21 16) false w.width.bits =
      some (fieldMasks w.width.bits (w.number 21 16) (w.number 15 10)) := by
  have hr : (w.extractLsb 21 16).toNat % w.width.bits = w.number 21 16 := Nat.mod_eq_of_lt h.2.1
  have hs : (w.extractLsb 15 10).toNat % w.width.bits = w.number 15 10 := Nat.mod_eq_of_lt h.2.2
  have hfull : BitMasks.elementSize? (w.bit 22) (w.extractLsb 15 10) = some w.width.bits := by
    rw [h.1]
    exact BitMasks.elementSize?_full h.2.2
  rw [BitMasks.decode_eq hfull, if_neg (by simp), hr, hs]
  rfl

theorem decodeBitfield_eq :
    decodeBitfield w =
      match BitfieldKind.ofCode? (w.number 30 29) with
      | none => .error .unallocated
      | some kind =>
        if w.HasBitfield then
          let masks := fieldMasks w.width.bits (w.number 21 16) (w.number 15 10)
          .ok
            { width := w.width, rd := w.rd
              op := .bitfield kind w.rn (w.number 21 16) (w.number 15 10) masks.1 masks.2 }
        else .error .unallocated := by
  have hlt := w.number_lt 30 29
  have hopc : w.number 30 29 = 0 ∨ w.number 30 29 = 1 ∨ w.number 30 29 = 2 ∨ w.number 30 29 = 3 := by omega
  by_cases h : w.HasBitfield
  · have hguard := mt (rejects_bitfield_iff w).1 (not_not_intro h)
    simp only [decodeBitfield, if_neg hguard, decode_fieldMasks w h, if_pos h]
    obtain hopc | hopc | hopc | hopc := hopc <;> rw [hopc] <;> rfl
  · have hguard := (rejects_bitfield_iff w).2 h
    simp only [decodeBitfield, if_pos hguard, if_neg h]
    obtain hopc | hopc | hopc | hopc := hopc <;> rw [hopc] <;> rfl

end IntegerInstruction

namespace Machine

open InstructionWord IntegerInstruction

/-- At both widths, for all numbers below the width and whatever the registers hold, a bitfield move puts the field of
its source into its destination and changes nothing else. Every other combination of the width bits, the code and the
numbers is refused and leaves the machine as it is. -/
theorem bitfield_moves (m : Machine) {w : InstructionWord} (hgroup : w.number 28 23 = 0b100110) :
    m.execute w =
      match BitfieldKind.ofCode? (w.number 30 29) with
      | none => (.error .unallocatedInstruction, m)
      | some kind =>
        if w.HasBitfield then
          let dst := m.state.read w.width.bits w.rd
          let src := m.state.read w.width.bits w.rn
          (.ok .ready, m.withState (m.state.write w.rd (bitfieldResult kind dst src (w.number 21 16) (w.number 15 10))))
        else (.error .unallocatedInstruction, m) := by
  obtain ⟨hclass, hkey⟩ := Instruction.key_immediate_of_number (k := 6) (by decide) hgroup
  have hdecode : Instruction.decode w = (decodeBitfield w).map .integer := by
    rw [Instruction.decode_of_immediate hclass]
    simp only [decodeImmediate, hkey]
  rw [decodeBitfield_eq] at hdecode
  cases hkind : BitfieldKind.ofCode? (w.number 30 29) with
  | none =>
    rw [hkind] at hdecode
    exact m.execute_of_decode_error hdecode
  | some kind =>
    rw [hkind] at hdecode
    by_cases h : w.HasBitfield
    · simp only [if_pos h] at hdecode ⊢
      rw [m.execute_integer hdecode, ← bitfieldMove_fieldMasks kind _ _ h.2.1 h.2.2]
      rfl
    · simp only [if_neg h] at hdecode ⊢
      exact m.execute_of_decode_error hdecode

/-- `BFI W0, W1, #8, #4` puts four bits into the middle of a register and clears its upper half; with the other bit
for the width it is no instruction. -/
theorem bitfield_moves_insert :
    let bfi : InstructionWord := 0x33180C20#32
    let mixed : InstructionWord := 0x33580C20#32
    let m : Machine := withState {} ((State.write {} 0#5 0xFFFFFFFFFFFFFFFF#64).write 1#5 0xABCDEF0123456785#64)
    bfi.number 28 23 = 0b100110 ∧ mixed.number 28 23 = 0b100110 ∧
      (m.execute bfi).2.state.slot 0#5 = 0x00000000FFFFF5FF#64 ∧
      m.execute mixed = (.error .unallocatedInstruction, m) := by
  intro bfi mixed m
  have hbfi : bfi.number 28 23 = 0b100110 := by decide
  have hmixed : mixed.number 28 23 = 0b100110 := by decide
  have hkind : BitfieldKind.ofCode? (mixed.number 30 29) = some .inserting := by decide
  have hrefused : ¬mixed.HasBitfield := by decide
  rw [m.bitfield_moves hbfi, m.bitfield_moves hmixed, hkind]
  exact ⟨hbfi, hmixed, by decide +kernel, if_neg hrefused⟩

end Machine
end AArch64
