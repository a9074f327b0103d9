import AArch64.Proofs.Integers.ByteOrder
import AArch64.Proofs.Integers.LeadingBits

/-! Reversing and counting bits in the general registers and in vectors. What a general register holds and the lower half
of a vector are treated alike. -/
namespace AArch64

/-- The operations with one source by their codes. Eight bytes are reversed in wide registers alone. -/
def OneSource.ofCode? (width : Width) (code : Nat) : Option OneSource :=
  match code, width with
  | 0, _ => some .reverseBits
  | 1, _ => some (.reverseBytes 2)
  | 2, _ => some (.reverseBytes 4)
  | 3, .w64 => some (.reverseBytes 8)
  | 4, _ => some .leadingZeros
  | 5, _ => some .leadingSigns
  | _, _ => none

/-- The operation on lanes that counts the same. -/
def OneSource.lane? : OneSource → Option LaneUnary
  | leadingZeros => some .leadingZeros
  | leadingSigns => some .leadingSigns
  | reverseBits | reverseBytes _ => none

/-- Opcode, U bit and size field of the operations on lanes of this size. -/
def LaneUnary.fields? (op : LaneUnary) (size : ElementSize) : Option (Nat × Bool × ElementSize) :=
  match op, size with
  | leadingZeros, .byte | leadingZeros, .half | leadingZeros, .word => some (4, true, size)
  | leadingSigns, .byte | leadingSigns, .half | leadingSigns, .word => some (4, false, size)
  | reverseBits, .byte => some (5, true, .half)
  | _, _ => none

namespace InstructionWord

variable (w : InstructionWord)

/-- Words with one source in a general register. -/
def IsOneSource (op : OneSource) (width : Width) : Prop :=
  w.width = width ∧ w.number 30 16 = 0b101101011000000 ∧ OneSource.ofCode? width (w.number 15 10) = some op

instance (op : OneSource) (width : Width) : Decidable (w.IsOneSource op width) := inferInstanceAs (Decidable (_ ∧ _))

/-- Words that do this to each lane of a vector. -/
def IsUnary (op : LaneUnary) (size : ElementSize) (full : Bool) : Prop :=
  w.IsVectorForm ∧ w.isTwoRegister = true ∧ w.bit 30 = full ∧
    op.fields? size = some (w.number 16 12, w.bit 29, w.laneSize)

instance (op : LaneUnary) (size : ElementSize) (full : Bool) : Decidable (w.IsUnary op size full) :=
  inferInstanceAs (Decidable (_ ∧ _))

/-- Reversals of the bytes in each container of the lower half of a vector. -/
def IsByteReversal (container : Nat) : Prop := w.IsReversal container ∧ w.laneSize = .byte ∧ w.bit 30 = false

instance (container : Nat) : Decidable (w.IsByteReversal container) := inferInstanceAs (Decidable (_ ∧ _))

/-- The word takes the value of its source to this value of its destination. -/
def Maps {n : Nat} (x r : BitVec n) : Prop := w.Puts (fun s => s.read n w.rn = x) r

end InstructionWord

section Words

open InstructionWord KeyTable IntegerInstruction

variable {w : InstructionWord}

theorem Instruction.decode_of_isOneSource {op : OneSource} {width : Width} (h : w.IsOneSource op width) :
    decode w = .ok (.integer { width, rd := w.rd, op := .oneSource op w.rn }) := by
  obtain ⟨rfl, hclass, hop⟩ := h
  have hfields : w.number 27 25 = 0b101 ∧ register.key w = 4 ∧ registerMisc.key w = 3 ∧ w.bit 30 = true ∧
      w.bit 29 = false ∧ w.number 20 16 = 0 := by
    simp only [key_register, key_registerMisc, number_eq, toNat_bit, bit_eq_true, bit_eq_false] at hclass ⊢
    omega
  obtain ⟨hgroup, hkey, hmisc, hone, hflags, hopcode⟩ := hfields
  rw [decode_of_register hgroup]
  simp only [decodeRegister, hkey, decodeRegisterMisc, hmisc, hone, decodeOneSource, hflags, hopcode]
  unfold OneSource.ofCode? at hop
  split at hop <;> cases hop
  all_goals
    next hcode =>
      simp only [hcode]
      first
        | rfl
        | simp_all [InstructionWord.width, Width.ofBit, Except.map]

theorem SimdInstruction.decode_of_isUnary {op : LaneUnary} {size : ElementSize} {full : Bool}
    (h : w.IsUnary op size full) :
    decode w = usualVector w (.unary op { size, elements := w.laneCount size false }) := by
  obtain ⟨hform, hclass, _, hfields⟩ := h
  rw [decode_of_twoRegister hform hclass, decodeTwoRegister]
  unfold LaneUnary.fields? at hfields
  have hbytes : Arrangement.vector? .byte (w.bit 30) = some { size := .byte, elements := w.laneCount .byte false } :=
    vector?_of_hasLanes (.inr (.inr (by decide)))
  split at hfields
  case h_8 => cases hfields
  all_goals
    simp only [Option.some.injEq, Prod.mk.injEq] at hfields
    obtain ⟨hcode, hu, hsize⟩ := hfields
    simp [decodeIntegerMisc, ← hcode, ← hu, ← laneSize.eq_1, ← hsize, arrangement?_eq, hbytes, HasLanes, withArrangement]

end Words

namespace InstructionWord

open Lanes Word ByteOrder

variable {w : InstructionWord}

theorem maps_oneSource {op : OneSource} {width : Width} (h : w.IsOneSource op width) (x : BitVec width.bits) :
    w.Maps x (op.apply x) :=
  puts_of_integer (Instruction.decode_of_isOneSource h) fun s hs => by
    rw [← hs]
    rfl

theorem gives_unary {op : LaneUnary} {size : ElementSize} {full : Bool} (h : w.IsUnary op size full)
    (u v : BitVec 128) :
    w.Gives u v (build ((if full then 128 else 64) / size.bits) fun i => op.apply (get u size.bits i)) := by
  refine gives_of_usualVector h.1.1 (SimdInstruction.decode_of_isUnary h) fun d => ?_
  rw [laneCount, h.2.2.1]
  rfl

theorem gives_byteReversal {container : Nat} (h : w.IsByteReversal container) (hsize : 8 < container)
    (u v : BitVec 128) : w.Gives u v (build 8 fun i => get u 8 (mirror (container / 8) i)) := by
  obtain ⟨hreversal, hbyte, hlow⟩ := h
  have hgives := gives_reversed hreversal (by rwa [hbyte]) u v
  rw [reversed, laneCount, hbyte, hlow] at hgives
  exact hgives

theorem extractLsb'_setWidth (u : BitVec 128) {esize i : Nat} (hi : (i + 1) * esize ≤ 64) :
    (u.setWidth 64).extractLsb' (i * esize) esize = get u esize i := by
  rw [Nat.succ_mul] at hi
  refine BitVec.eq_of_getLsbD_eq fun j hj => ?_
  rw [Lanes.get, BitVec.getLsbD_extractLsb', BitVec.getLsbD_extractLsb', BitVec.getLsbD_setWidth,
    decide_eq_true (show i * esize + j < 64 by omega), Bool.true_and]

theorem byte_setWidth (u : BitVec 128) {i : Nat} (hi : i < 8) : byte (u.setWidth 64) i = get u 8 i := by
  rw [← extractLsb'_setWidth u (by omega), Nat.mul_comm]
  rfl

/-- The bytes of a number in the lower half of a vector. -/
theorem build_byte (x : BitVec 64) : build 8 (byte x) = x.setWidth 128 := by
  have hx : (x.setWidth 128).setWidth 64 = x := by simp
  have hbyte (i : Nat) (hi : i < 8) : byte x i = get (x.setWidth 128) 8 i := by
    rw [← byte_setWidth _ hi, hx]
  have hlow : build 8 (get (x.setWidth 128) 8) = sized (x.setWidth 128) false := VectorOp.build_get_eq_sized _ rfl
  rw [build_congr hbyte, hlow, sized, if_neg (by decide), clearFrom, hx]

theorem hasContainer_of_isOneSource {container : Nat} {width : Width}
    (h : w.IsOneSource (.reverseBytes container) width) : HasContainer width.bits container := by
  have hop := h.2.2
  unfold OneSource.ofCode? at hop
  cases width <;> split at hop <;> cases hop
  all_goals first
    | contradiction
    | decide

/-- Reversing the bits in each byte and then the bytes. -/
theorem gives_reverse {w₀ w : InstructionWord} (h₀ : w₀.IsUnary .reverseBits .byte false) (h : w.IsByteReversal 64)
    (u : BitVec 128) :
    ∃ z, (∀ v, w₀.Gives u v z) ∧ ∀ v, w.Gives z v ((u.setWidth 64).reverse.setWidth 128) := by
  refine ⟨_, gives_unary h₀ u, fun v => ?_⟩
  have hgives := gives_byteReversal h (by decide) (build 8 fun i => (get u 8 i).reverse) v
  have hbytes (i : Nat) (hi : i < 8) :
      get (build 8 fun i => (get u 8 i).reverse) 8 (mirror 8 i) = byte (u.setWidth 64).reverse i := by
    have hplace : mirror 8 i = 8 - 1 - i := by
      rw [mirror]
      omega
    rw [hplace, get_build _ (by omega) (by omega), byte_reverse _ (n := 8) rfl hi, byte_setWidth _ (by omega)]
  rwa [build_congr hbytes, build_byte] at hgives

theorem gives_reverseBytes {container : Nat} (hcontainer : HasContainer 64 container)
    (h : w.IsByteReversal (8 * container)) (u v : BitVec 128) :
    w.Gives u v ((reverseBytes container (u.setWidth 64)).setWidth 128) := by
  have hpos := hcontainer.pos
  have hgives := gives_byteReversal h (by have := hcontainer.2.2; grind) u v
  have hbytes (i : Nat) (hi : i < 8) :
      get u 8 (mirror (8 * container / 8) i) = byte (reverseBytes container (u.setWidth 64)) i := by
    rw [Nat.mul_div_cancel_left _ (by decide), hcontainer.byte_reverseBytes _ hi,
      byte_setWidth _ (hcontainer.mirror_lt hi)]
  rwa [build_congr hbytes, build_byte] at hgives

theorem apply_lane {op : OneSource} {lane : LaneUnary} (h : op.lane? = some lane) {n : Nat} (hn : 0 < n)
    (x : BitVec n) : lane.apply x = op.apply x := by
  cases op <;> cases h
  · rfl
  · exact LeadingBits.laneLeadingSigns_eq x hn

end InstructionWord

namespace OneSource

/-- The operations that put bits or bytes in another order. -/
def reverses : OneSource → Bool
  | reverseBits | reverseBytes _ => true
  | leadingZeros | leadingSigns => false

end OneSource

namespace Machine

open InstructionWord Lanes

/-- Bits of a general register and of the lower half of a vector with the same value. Reversing all bits in the register
is the same as reversing them in each byte of the vector and then the bytes. The reversals of bytes and the counts of
leading bits are the same on both sides. A reversal undoes itself, and the copies of the sign are one less than the
zeros at the top of a number that is combined with itself, shifted down by one bit. -/
theorem bit_manipulation_agrees (u : BitVec 128) :
    (∀ rbit bits rev : InstructionWord, rbit.IsOneSource .reverseBits .w64 → bits.IsUnary .reverseBits .byte false →
        rev.IsByteReversal 64 →
        ∃ z, rbit.Maps (u.setWidth 64) (u.setWidth 64).reverse ∧ (∀ v, bits.Gives u v z) ∧
          ∀ v, rev.Gives z v ((u.setWidth 64).reverse.setWidth 128)) ∧
      (∀ (container : Nat) (rev lanes : InstructionWord), rev.IsOneSource (.reverseBytes container) .w64 →
        lanes.IsByteReversal (8 * container) →
        ∃ r, rev.Maps (u.setWidth 64) r ∧ (∀ v, lanes.Gives u v (r.setWidth 128)) ∧
          ∀ i < 8, Word.byte r i = Word.byte (u.setWidth 64) (ByteOrder.mirror container i)) ∧
      (∀ (op : OneSource) (lane : LaneUnary) (count lanes : InstructionWord), op.lane? = some lane →
        count.IsOneSource op .w32 → lanes.IsUnary lane .word false →
        ∃ z, (∀ v, lanes.Gives u v z) ∧ ∀ k < 2, count.Maps ((u.setWidth 64).extractLsb' (k * 32) 32) (get z 32 k)) ∧
      ∀ width : Width,
        (∀ (op : OneSource) (w w' : InstructionWord), op.reverses = true → w.IsOneSource op width →
          w'.IsOneSource op width → ∀ y : BitVec width.bits, ∃ z, w.Maps y z ∧ w'.Maps z y) ∧
        ∀ cls clz : InstructionWord, cls.IsOneSource .leadingSigns width → clz.IsOneSource .leadingZeros width →
          ∀ h : BitVec width.bits, ∃ s z, cls.Maps h s ∧ clz.Maps (h ^^^ h.sshiftRight 1) z ∧
            s.toNat + 1 = z.toNat := by
  refine ⟨?_, ?_, ?_, fun width => ⟨?_, ?_⟩⟩
  · intro rbit bits rev hrbit hbits hrev
    obtain ⟨z, hz, hreversed⟩ := gives_reverse hbits hrev u
    exact ⟨z, maps_oneSource hrbit _, hz, hreversed⟩
  · intro container rev lanes hrev hlanes
    have hcontainer := hasContainer_of_isOneSource hrev
    exact ⟨_, maps_oneSource hrev _, gives_reverseBytes hcontainer hlanes u, fun i => hcontainer.byte_reverseBytes _⟩
  · intro op lane count lanes hop hcount hlanes
    refine ⟨_, gives_unary hlanes u, fun k hk => ?_⟩
    have hlane : get (build 2 fun i => lane.apply (get u 32 i)) 32 k =
        op.apply ((u.setWidth 64).extractLsb' (k * 32) 32) := by
      rw [get_build _ hk (by omega), extractLsb'_setWidth u (by omega), apply_lane hop (by decide)]
    exact hlane ▸ maps_oneSource hcount _
  · intro op w w' hop hw hw' y
    refine ⟨_, maps_oneSource hw y, ?_⟩
    have hmaps := maps_oneSource hw' (op.apply y)
    have hself : op.apply (op.apply y) = y := by
      cases op with
      | reverseBits => exact BitVec.reverse_reverse_eq
      | reverseBytes container => exact (hasContainer_of_isOneSource hw).reverseBytes_reverseBytes y
      | leadingZeros | leadingSigns => cases hop
    rwa [hself] at hmaps
  · intro cls clz hcls hclz h
    exact ⟨_, _, maps_oneSource hcls h, maps_oneSource hclz _,
      LeadingBits.leadingSigns_add_one h (by cases width <;> decide)⟩

/-- A number in `X1` and in the lower half of `V1`: its bits in the opposite order by `RBIT X0, X1`, and by
`RBIT V0.8B, V1.8B` and `REV64 V0.8B, V0.8B` in a row, its bytes in pairs by `REV16 X0, X1` and `REV16 V0.8B, V1.8B`, and
the copies of the sign of its lower half by `CLS W0, W1` and `CLS V0.2S, V1.2S`. -/
theorem bit_manipulation_agrees_once :
    let m : Machine := withState {} (State.setVector (State.write {} 1#5 0xFF00000001020304#64) 1#5
      0xFF00000001020304#128)
    let slot (w : InstructionWord) := (m.execute w).2.state.slot 0#5
    let vector (w : InstructionWord) := (m.execute w).2.state.vector 0#5
    slot 0xDAC00020#32 = 0x20C04080000000FF#64 ∧
      ((m.execute 0x2E605820#32).2.execute 0x0E200800#32).2.state.vector 0#5 = 0x20C04080000000FF#128 ∧
      vector 0x0E201820#32 = (slot 0xDAC00420#32).setWidth 128 ∧ slot 0xDAC00420#32 = 0x00FF000002010403#64 ∧
      get (vector 0x0EA04820#32) 32 0 = (slot 0x5AC01420#32).setWidth 32 ∧ slot 0x5AC01420#32 = 6#64 := by
  intro m slot vector
  obtain ⟨hreverse, hbytes, hcount, _⟩ := bit_manipulation_agrees 0xFF00000001020304#128
  obtain ⟨z, hrbit, hbits, hrev⟩ :=
    hreverse 0xDAC00020#32 0x2E605820#32 0x0E200800#32 (by decide) (by decide) (by decide)
  obtain ⟨r, hpairs, hlanes, _⟩ := hbytes 2 0xDAC00420#32 0x0E201820#32 (by decide) (by decide)
  obtain ⟨c, hsigns, hcounts⟩ :=
    hcount .leadingSigns .leadingSigns 0x5AC01420#32 0x0EA04820#32 rfl (by decide) (by decide)
  have hbits := (hbits _ m (by decide +kernel) rfl).2
  have hrev := (hrev _ (m.execute 0x2E605820#32).2 hbits rfl).2
  have hlanes := (hlanes _ m (by decide +kernel) rfl).2
  have hsigns := (hsigns _ m (by decide +kernel) rfl).2
  have hrbit := hrbit.slot (m := m) (by decide +kernel) (by decide)
  have hpairs := hpairs.slot (m := m) (by decide +kernel) (by decide)
  have hcounts := (hcounts 0 (by decide)).slot (m := m) (by decide +kernel) (by decide)
  refine ⟨hrbit.trans (by decide +kernel), hrev.trans (by decide +kernel), ?_, by decide +kernel, ?_, by decide +kernel⟩
  · exact hlanes.trans (congrArg (BitVec.setWidth 128) (hpairs.trans (BitVec.setWidth_eq r)).symm)
  · refine (congrArg (get · 32 0) hsigns).trans ?_
    rw [← BitVec.setWidth_eq (get c 32 0), ← BitVec.setWidth_setWidth_of_le _ (show 32 ≤ 64 by decide)]
    exact congrArg (BitVec.setWidth 32) hcounts.symm

end Machine
end AArch64
