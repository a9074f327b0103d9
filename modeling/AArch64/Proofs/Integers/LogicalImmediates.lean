import AArch64.Proofs.Execution
import AArch64.Proofs.Integers.BitMasks

/-! Logical immediates. A code of thirteen bits is looked up as a pattern of 64 bits, and the patterns that have a code
are the repetitions of a rotated run of ones. The code holds no run length as such: the complement of six bits holds
the element size in its highest set bit and what the run lacks of the element in the bits below. -/
namespace AArch64

namespace BitMasks

open Bits

/-- A run of `len` ones in `e` bits, rotated right by `r`. -/
def rotatedRun (e len r : Nat) : BitVec e := (BitVec.ofNat e (2 ^ len - 1)).rotateRight r

/-- Copies of an element side by side, as many as fit into 64 bits. -/
def repeated {e : Nat} (x : BitVec e) : BitVec 64 := (x.replicate (64 / e)).setWidth 64

theorem getLsbD_repeated_rotatedRun {e : Nat} (len r : Nat) (he : 0 < e) (hdvd : e ∣ 64) {i : Nat} (hi : i < 64) :
    (repeated (rotatedRun e len r)).getLsbD i = decide ((i + r) % e < len) := by
  have hcover : i < e * (64 / e) := by rwa [Nat.mul_div_cancel' hdvd]
  have hmod := Nat.mod_lt i he
  have hmod' := Nat.mod_lt (i + r) he
  rw [repeated, BitVec.getLsbD_setWidth, BitVec.getLsbD_replicate, decide_eq_true hi, decide_eq_true hcover,
    Bool.true_and, Bool.true_and, rotatedRun, getLsbD_rotateRight_mod _ _ hmod, Nat.mod_add_mod, BitVec.getLsbD_ofNat,
    Nat.testBit_two_pow_sub_one, decide_eq_true hmod', Bool.true_and]

def elementSizes : List Nat := [2, 4, 8, 16, 32, 64]

theorem mem_elementSizes_iff {e : Nat} : e ∈ elementSizes ↔ ∃ k, k < 7 ∧ 0 < k ∧ e = 2 ^ k := by
  have hlog : ∀ e ∈ elementSizes, ∃ k, k < 7 ∧ 0 < k ∧ e = 2 ^ k := by decide
  have hpow : ∀ k < 7, 0 < k → 2 ^ k ∈ elementSizes := by decide
  constructor
  · exact hlog e
  · rintro ⟨k, hk7, hk, rfl⟩
    exact hpow k hk7 hk

theorem size_fits {e : Nat} (h : e ∈ elementSizes) : 0 < e ∧ e ≤ 64 ∧ e ∣ 64 := by
  have hsizes : ∀ e ∈ elementSizes, 0 < e ∧ e ≤ 64 ∧ e ∣ 64 := by decide
  exact hsizes e h

/-- The patterns that a logical immediate can have. -/
structure IsPattern (v : BitVec 64) (e len r : Nat) : Prop where
  size : e ∈ elementSizes
  nonempty : 0 < len
  short : len < e
  eq : v = repeated (rotatedRun e len r)

/-- Some bit is at the start of the run. -/
theorem IsPattern.ne_zero {v : BitVec 64} {e len r : Nat} (h : IsPattern v e len r) : v ≠ 0#64 := by
  intro hzero
  obtain ⟨hpos, hle, hdvd⟩ := size_fits h.size
  have hr := Nat.mod_lt r hpos
  have hstart : ((e - r % e) % e + r) % e = 0 := by
    rw [Nat.mod_add_mod, ← Nat.add_mod_mod, Nat.sub_add_cancel (Nat.le_of_lt hr), Nat.mod_self]
  have hset : v.getLsbD ((e - r % e) % e) = true := by
    rw [h.eq, getLsbD_repeated_rotatedRun len r hpos hdvd (Nat.lt_of_lt_of_le (Nat.mod_lt _ hpos) hle), hstart,
      decide_eq_true h.nonempty]
  rw [hzero, BitVec.getLsbD_zero] at hset
  exact Bool.false_ne_true hset

theorem size_mem {n : Bool} {imms : BitVec 6} {e : Nat} (h : elementSize? n imms = some e) : e ∈ elementSizes := by
  obtain ⟨k, hk, rfl, hle, -⟩ := elementSize?_eq_some.1 h
  have hn : n.toNat < 2 := n.toNat_lt
  have hk7 : 2 ^ k < 2 ^ 7 := by omega
  exact mem_elementSizes_iff.2 ⟨k, (Nat.pow_lt_pow_iff_right (by decide)).1 hk7, hk, rfl⟩

/-- A code for a run as long as its element is free, and every other code of the element size has a pattern. -/
theorem decode_immediate {n : Bool} {imms immr : BitVec 6} {e : Nat} (h : elementSize? n imms = some e) :
    (decode n imms immr true 64).map Prod.fst =
      if imms.toNat % e = e - 1 then none
      else some (repeated (rotatedRun e (imms.toNat % e + 1) (immr.toNat % e))) := by
  obtain ⟨hpos, hle, hdvd⟩ := size_fits (size_mem h)
  have hrun : replicate (rotateRight (ones (imms.toNat % e + 1)) (immr.toNat % e) e) e &&& ones 64 =
      repeated (rotatedRun e (imms.toNat % e + 1) (immr.toNat % e)) := by
    refine BitVec.eq_of_getLsbD_eq fun i hi => ?_
    rw [BitVec.getLsbD_and, getLsbD_ones, decide_eq_true hi, Bool.and_true, Bool.and_true,
      getLsbD_rotatedRun _ _ hpos hle hi, getLsbD_repeated_rotatedRun _ _ hpos hdvd hi]
  rw [decode_eq h]
  by_cases hfull : imms.toNat % e = e - 1
  · rw [if_pos (.inr ⟨rfl, hfull⟩), if_pos hfull, Option.map_none]
  · rw [if_neg (by omega), if_neg hfull, Option.map_some, hrun]

theorem logicalImmediate_sound {code : BitVec 13} {v : BitVec 64} (h : logicalImmediate code = some v) :
    ∃ e len r, IsPattern v e len r := by
  rw [logicalImmediate] at h
  cases hsize : elementSize? (code.getLsbD 12) (code.extractLsb 5 0) with
  | none =>
    rw [decode, hsize] at h
    cases h
  | some e =>
    have hmod := Nat.mod_lt (code.extractLsb 5 0).toNat (size_fits (size_mem hsize)).1
    rw [decode_immediate hsize] at h
    split at h
    next => cases h
    next hfree => exact ⟨e, _, _, size_mem hsize, Nat.succ_pos _, by omega, (Option.some.inj h).symm⟩

def code (n : Bool) (immr imms : BitVec 6) : BitVec 13 := BitVec.ofBool n ++ immr ++ imms

theorem logicalImmediate_code (n : Bool) (immr imms : BitVec 6) :
    logicalImmediate (code n immr imms) = (decode n imms immr true 64).map Prod.fst := by
  have hn : (code n immr imms).getLsbD 12 = n := by
    rw [code, BitVec.getLsbD_append, if_neg (by decide), BitVec.getLsbD_append, if_neg (by decide)]
    cases n <;> rfl
  have himms : (code n immr imms).extractLsb 5 0 = imms := by
    refine BitVec.eq_of_getLsbD_eq fun i hi => ?_
    rw [code, BitVec.getLsbD_extractLsb, BitVec.getLsbD_append, if_pos (by omega), decide_eq_true hi, Bool.true_and,
      Nat.zero_add]
  have himmr : (code n immr imms).extractLsb 11 6 = immr := by
    refine BitVec.eq_of_getLsbD_eq fun i hi => ?_
    rw [code, BitVec.getLsbD_extractLsb, BitVec.getLsbD_append, if_neg (by omega), BitVec.getLsbD_append,
      if_pos (by omega), decide_eq_true hi, Bool.true_and, Nat.add_sub_cancel_left]
  rw [logicalImmediate, hn, himms, himmr]

/-- The seven bits of length are `2 * e - len`. Their highest set bit is that of `e`, as `len` is below `e`, and the
complement of the bits below it is `len - 1`. -/
theorem logicalImmediate_complete {v : BitVec 64} {e len r : Nat} (h : IsPattern v e len r) :
    ∃ code, logicalImmediate code = some v := by
  obtain ⟨k, hk7, hk, rfl⟩ := mem_elementSizes_iff.1 h.size
  obtain ⟨hpos, hsmall, -⟩ := size_fits h.size
  have hlen := h.nonempty
  have hshort := h.short
  have hr := Nat.mod_lt r hpos
  have hdouble : 2 ^ (k + 1) = 2 * 2 ^ k := Nat.pow_succ'
  let c := 2 * 2 ^ k - len
  let imms := BitVec.ofNat 6 (63 - c % 64)
  let immr := BitVec.ofNat 6 (r % 2 ^ k)
  have hn : (decide (64 ≤ c)).toNat = c / 64 := by
    by_cases hc : 64 ≤ c
    · rw [decide_eq_true hc, Bool.toNat_true]
      omega
    · rw [decide_eq_false hc, Bool.toNat_false]
      omega
  have himms : imms.toNat = 63 - c % 64 := by
    rw [BitVec.toNat_ofNat]
    omega
  have himmr : immr.toNat % 2 ^ k = r % 2 ^ k := by
    rw [BitVec.toNat_ofNat, Nat.mod_eq_of_lt (Nat.lt_of_lt_of_le hr hsmall), Nat.mod_mod]
  have hsize : elementSize? (decide (64 ≤ c)) imms = some (2 ^ k) := by
    refine elementSize?_eq_some.2 ⟨k, hk, rfl, ?_⟩
    rw [hn, himms]
    omega
  have hrest : imms.toNat % 2 ^ k = len - 1 := by
    rw [himms]
    -- linear once the element size is a number
    have hcases : k = 1 ∨ k = 2 ∨ k = 3 ∨ k = 4 ∨ k = 5 ∨ k = 6 := by omega
    obtain rfl | rfl | rfl | rfl | rfl | rfl := hcases <;> omega
  refine ⟨code (decide (64 ≤ c)) immr imms, ?_⟩
  rw [logicalImmediate_code, decode_immediate hsize, hrest, himmr, if_neg (by omega), Nat.sub_add_cancel hlen, h.eq,
    rotatedRun, BitVec.rotateRight_mod_eq_rotateRight]
  rfl

/-- The pattern that a code is looked up as; zero stands for a free code. -/
def value (code : BitVec 13) : BitVec 64 := (logicalImmediate code).getD 0#64

theorem value_eq_zero_iff {code : BitVec 13} : value code = 0#64 ↔ logicalImmediate code = none := by
  rw [value]
  cases h : logicalImmediate code with
  | none => simp
  | some v =>
    obtain ⟨_, _, _, hv⟩ := logicalImmediate_sound h
    simp [hv.ne_zero]

theorem exists_value_iff {v : BitVec 64} :
    (∃ code, value code = v ∧ v ≠ 0#64) ↔ ∃ e len r, IsPattern v e len r := by
  constructor
  · rintro ⟨code, rfl, hv⟩
    obtain ⟨x, hx⟩ := Option.ne_none_iff_exists'.1 (mt value_eq_zero_iff.2 hv)
    rw [value, hx]
    exact logicalImmediate_sound hx
  · rintro ⟨e, len, r, hv⟩
    obtain ⟨code, hcode⟩ := logicalImmediate_complete hv
    exact ⟨code, by rw [value, hcode, Option.getD_some], hv.ne_zero⟩

end BitMasks

/-- A word whose immediate is free, or too long for the narrow form. -/
def InstructionWord.LacksImmediate (w : InstructionWord) : Prop :=
  (w.bit 31 = false ∧ w.bit 22 = true) ∨ BitMasks.value (w.extractLsb 22 10) = 0#64

instance {w : InstructionWord} : Decidable w.LacksImmediate := inferInstanceAs (Decidable (_ ∨ _))

def logicalResult {n : Nat} (opc : Nat) (a b : BitVec n) : BitVec n :=
  match opc with
  | 1 => a ||| b
  | 2 => a ^^^ b
  | _ => a &&& b

/-- The state after a logical instruction with an immediate. Only the fourth operation sets the flags, and the others
can write the stack pointer. -/
def State.afterLogical (s : State) {n : Nat} (opc : Nat) (rd : Register) (result : BitVec n) : State :=
  if opc = 3 then (s.setFlags { negative := result.msb, zero := result == 0#n }).write rd result
  else s.write rd result .stackPointer

namespace IntegerInstruction

variable (w : InstructionWord)

theorem decodeLogicalImmediate_eq :
    decodeLogicalImmediate w =
      if w.LacksImmediate then .error .unallocated
      else
        let setFlags := w.number 30 29 == 3
        let imm := BitMasks.value (w.extractLsb 22 10)
        .ok
          { width := w.width, rd := w.rd, role := destinationRole setFlags
            op := .logical (logicalOp (w.extractLsb 30 29)) false setFlags w.rn (.immediate imm) } := by
  have hlacks : w.LacksImmediate ↔
      (!w.bit 31 && w.bit 22) = true ∨ BitMasks.logicalImmediate (w.extractLsb 22 10) = none := by
    rw [InstructionWord.LacksImmediate, BitMasks.value_eq_zero_iff, Bool.and_eq_true, Bool.not_eq_true']
  rw [decodeLogicalImmediate]
  by_cases hnarrow : (!w.bit 31 && w.bit 22) = true
  · rw [if_pos hnarrow, if_pos (hlacks.2 (.inl hnarrow))]
  · rw [if_neg hnarrow]
    cases hcode : BitMasks.logicalImmediate (w.extractLsb 22 10) with
    | none => rw [if_pos (hlacks.2 (.inr hcode))]
    | some imm =>
      have hfound : ¬w.LacksImmediate := by
        rw [hlacks, hcode, not_or]
        exact ⟨hnarrow, nofun⟩
      rw [if_neg hfound, BitMasks.value, hcode]
      rfl

theorem apply_logicalOp {n : Nat} (opc : BitVec 2) (a b : BitVec n) :
    (logicalOp opc).apply a b = logicalResult opc.toNat a b := by
  have hopc : ∀ opc : BitVec 2, opc = 0#2 ∨ opc = 1#2 ∨ opc = 2#2 ∨ opc = 3#2 := by decide
  obtain rfl | rfl | rfl | rfl := hopc opc <;> rfl

theorem execute_logicalImmediate (imm : BitVec 64) (s : State) :
    let setFlags := w.number 30 29 == 3
    let i : IntegerInstruction :=
      { width := w.width, rd := w.rd, role := destinationRole setFlags
        op := .logical (logicalOp (w.extractLsb 30 29)) false setFlags w.rn (.immediate imm) }
    i.execute s =
      s.afterLogical (w.number 30 29) w.rd
        (logicalResult (w.number 30 29) (s.read w.width.bits w.rn) (imm.setWidth w.width.bits)) := by
  intro setFlags i
  have hresult {n : Nat} (a b : BitVec n) :
      (logicalOp (w.extractLsb 30 29)).apply a b = logicalResult (w.number 30 29) a b := apply_logicalOp _ a b
  rw [State.afterLogical, ← hresult]
  by_cases hflags : w.number 30 29 = 3
  · have hset : setFlags = true := beq_iff_eq.2 hflags
    rw [if_pos hflags]
    simp [i, IntegerInstruction.execute, IntegerOp.eval, IntegerResult.apply, Operand.value, hset, destinationRole,
      logicalFlags]
  · have hset : setFlags = false := beq_eq_false_iff_ne.2 hflags
    rw [if_neg hflags]
    simp [i, IntegerInstruction.execute, IntegerOp.eval, IntegerResult.apply, Operand.value, hset, destinationRole]

end IntegerInstruction

namespace Machine

open InstructionWord IntegerInstruction BitMasks

/-- The immediates that have a code are the repetitions of rotated runs, and a word of the group is refused where it
lacks an immediate and computes with the immediate of its code otherwise, in the low half of it for a narrow register.
Refused, it leaves the machine as it is. -/
theorem logical_immediates_exact (m : Machine) {w : InstructionWord} (hgroup : w.number 28 23 = 0b100100) :
    (∀ v : BitVec 64, (∃ code, value code = v ∧ v ≠ 0#64) ↔ ∃ e len r, IsPattern v e len r) ∧
      m.execute w =
        if w.LacksImmediate then (.error .unallocatedInstruction, m)
        else
          let opc := w.number 30 29
          let imm := (value (w.extractLsb 22 10)).setWidth w.width.bits
          let result := logicalResult opc (m.state.read w.width.bits w.rn) imm
          (.ok .ready, m.withState (m.state.afterLogical opc w.rd result)) := by
  refine ⟨fun v => exists_value_iff, ?_⟩
  obtain ⟨hclass, hkey⟩ := Instruction.key_immediate_of_number (k := 4) (by decide) hgroup
  have hdecode : Instruction.decode w = (decodeLogicalImmediate w).map .integer := by
    rw [Instruction.decode_of_immediate hclass]
    simp only [decodeImmediate, hkey]
  rw [decodeLogicalImmediate_eq] at hdecode
  by_cases h : w.LacksImmediate
  · simp only [if_pos h] at hdecode ⊢
    exact m.execute_of_decode_error hdecode
  · simp only [if_neg h] at hdecode ⊢
    rw [m.execute_integer hdecode, execute_logicalImmediate]

/-- `ANDS W0, W1, #0x80000000` keeps the sign bit of the low half. No narrow word has an element of 64 bits. Every
second bit is a run of one in an element of two. -/
theorem logical_immediates_exact_sign_bit :
    let ands : InstructionWord := 0x72010020#32
    let wide : InstructionWord := 0x72410020#32
    let m : Machine := withState {} (State.write {} 1#5 0xFFFFFFFF90000001#64)
    ands.number 28 23 = 0b100100 ∧ wide.number 28 23 = 0b100100 ∧
      (m.execute ands).2.state.slot 0#5 = 0x80000000#64 ∧ (m.execute ands).2.state.nzcv = { negative := true } ∧
      m.execute wide = (.error .unallocatedInstruction, m) ∧ ∃ code, value code = 0x5555555555555555#64 := by
  intro ands wide m
  have hands : ands.number 28 23 = 0b100100 := by decide
  have hwide : wide.number 28 23 = 0b100100 := by decide
  have hlacks : wide.LacksImmediate := .inl (by decide)
  have hpattern : IsPattern 0x5555555555555555#64 2 1 0 := ⟨by decide, by decide, by decide, by decide +kernel⟩
  obtain ⟨hvalues, hexecute⟩ := m.logical_immediates_exact hands
  obtain ⟨code, hcode, _⟩ := (hvalues _).2 ⟨2, 1, 0, hpattern⟩
  rw [(m.logical_immediates_exact hwide).2, hexecute]
  exact ⟨hands, hwide, by decide +kernel, by decide +kernel, if_pos hlacks, code, hcode⟩

end Machine
end AArch64
