import AArch64.Proofs.Memory.Flat
import AArch64.Proofs.Stepping

/-! Where a step leaves the program counter. The branches are told by their bit patterns, without the tables of the
decoder, and every other instruction is followed by the one behind it. -/
namespace AArch64

namespace InstructionWord

section Patterns

variable (w : InstructionWord)

def IsImmediateBranch : Prop := w.number 30 26 = 0b00101

def IsConditionalBranch : Prop := w.number 31 24 = 0b01010100 ∧ w.bit 4 = false

def IsCompareBranch : Prop := w.number 30 25 = 0b011010

def IsTestBranch : Prop := w.number 30 25 = 0b011011

def IsRegisterBranch : Prop :=
  w.number 31 25 = 0b1101011 ∧ w.number 24 21 ≤ 2 ∧ w.number 20 16 = 31 ∧ w.number 15 10 = 0 ∧ w.number 4 0 = 0

def IsBranch : Prop :=
  w.IsImmediateBranch ∨ w.IsConditionalBranch ∨ w.IsCompareBranch ∨ w.IsTestBranch ∨ w.IsRegisterBranch

instance : Decidable w.IsImmediateBranch := inferInstanceAs (Decidable (_ = _))

instance : Decidable w.IsConditionalBranch := inferInstanceAs (Decidable (_ ∧ _))

instance : Decidable w.IsCompareBranch := inferInstanceAs (Decidable (_ = _))

instance : Decidable w.IsTestBranch := inferInstanceAs (Decidable (_ = _))

instance : Decidable w.IsRegisterBranch := inferInstanceAs (Decidable (_ ∧ _))

/-- Four times the signed immediate in the bits `hi` to `lo` away from `pc`, modulo `2 ^ 64`. -/
def relativeTarget (pc : BitVec 64) (hi lo : Nat) : BitVec 64 :=
  BitVec.ofInt 64 (pc.toNat + 4 * (w.extractLsb hi lo).toInt)

/-- Where the word branches to from a state, if it is a branch that is taken there. -/
def target? (s : State) : Option (BitVec 64) :=
  if w.IsImmediateBranch then some (w.relativeTarget s.pc 25 0)
  else if w.IsConditionalBranch then
    if (Condition.ofCode (w.extractLsb 3 0)).holds s.nzcv then some (w.relativeTarget s.pc 23 5) else none
  else if w.IsCompareBranch then
    -- the comparison is with zero, and bit 24 asks for a difference
    if s.read (if w.bit 31 then 64 else 32) w.rd = 0 ↔ w.bit 24 = false then some (w.relativeTarget s.pc 23 5)
    else none
  else if w.IsTestBranch then
    if (s.read 64 w.rd).getLsbD (32 * (w.bit 31).toNat + w.number 23 19) = w.bit 24 then
      some (w.relativeTarget s.pc 18 5)
    else none
  else if w.IsRegisterBranch then some (s.read 64 w.rn)
  else none

end Patterns

variable {w : InstructionWord}

theorem relativeTarget_eq (w : InstructionWord) (pc : BitVec 64) (hi lo : Nat) :
    w.relativeTarget pc hi lo = pc + ControlOp.branchOffset w hi lo := by
  have hoffset : ControlOp.branchOffset w hi lo = BitVec.ofInt 64 (4 * (w.extractLsb hi lo).toInt) := by
    rw [ControlOp.branchOffset, BitVec.shiftLeft_eq_mul_twoPow, BitVec.mul_comm, BitVec.ofInt_mul]
    rfl
  rw [relativeTarget, hoffset, BitVec.ofInt_add, BitVec.ofInt_natCast, BitVec.ofNat_toNat, BitVec.setWidth_eq]

theorem target?_eq_none (h : ¬w.IsBranch) (s : State) : w.target? s = none := by
  simp only [IsBranch, not_or] at h
  simp [target?, h]

theorem not_isBranch_of_group (h : w.number 28 26 ≠ 5) : ¬w.IsBranch := by
  simp only [IsBranch, IsImmediateBranch, IsConditionalBranch, IsCompareBranch, IsTestBranch, IsRegisterBranch,
    number_eq] at h ⊢
  omega

/-- Exceptions and system instructions share their group with the register branches. -/
theorem not_isBranch_of_system (hkey : w.number 31 29 = 6) (h : w.number 25 24 ≤ 1) : ¬w.IsBranch := by
  simp only [IsBranch, IsImmediateBranch, IsConditionalBranch, IsCompareBranch, IsTestBranch, IsRegisterBranch,
    number_eq] at hkey h ⊢
  omega

end InstructionWord

namespace ControlOp

variable {w : InstructionWord}

/-- Going on where the word branches to, or behind it. -/
def Follows (w : InstructionWord) (op : ControlOp) : Prop :=
  ∀ s, (op.apply s).nextPc = (w.target? s).getD s.nextPc

theorem nextPc_branch (test : BranchTest) (offset : BitVec 64) (s : State) :
    (apply (.branch test false offset) s).nextPc
      = (if test.holds s = true then some (s.pc + offset) else none).getD s.nextPc := by
  cases h : test.holds s <;> simp [apply, setLink, h]

theorem isZero_holds (b : Bool) (rt : Register) (negate : Bool) (s : State) :
    (BranchTest.isZero (Width.ofBit b) rt negate).holds s = true ↔
      (s.read (if b then 64 else 32) rt = 0 ↔ negate = false) := by
  have hzero (n : Nat) (x : BitVec n) : ((x == 0) != negate) = true ↔ (x = 0 ↔ negate = false) := by
    cases negate <;> simp
  cases b with
  | false => exact hzero 32 (s.read 32 rt)
  | true => exact hzero 64 (s.read 64 rt)

theorem bitIsClear_holds (rt : Register) (bit : Nat) (negate : Bool) (s : State) :
    (BranchTest.bitIsClear rt bit negate).holds s = true ↔ (s.read 64 rt).getLsbD bit = negate := by
  cases negate <;> simp [BranchTest.holds]

theorem Plain.follows {op : ControlOp} (h : Plain w op) (hw : ¬w.IsBranch) : Follows w op := by
  intro s
  rw [InstructionWord.target?_eq_none hw]
  exact (op.agree_apply s).nextPc h.1

section Branches

open InstructionWord

theorem follows_decodeImmediateBranch (h : w.number 28 26 = 5) (hkey : w.number 30 29 = 0) :
    Yields (decodeImmediateBranch w) (Follows w) := by
  have hpattern : w.IsImmediateBranch := by
    simp only [IsImmediateBranch, number_eq] at h hkey ⊢
    omega
  refine .ok fun s => ?_
  rw [target?, if_pos hpattern, relativeTarget_eq]
  cases w.bit 31 <;> rfl

theorem follows_decodeCompareBranch (h : w.number 28 26 = 5) (hkey : w.number 30 29 = 1) :
    Yields (decodeCompareBranch w) (Follows w) := by
  have hothers : ¬w.IsImmediateBranch ∧ ¬w.IsConditionalBranch := by
    simp only [IsImmediateBranch, IsConditionalBranch, number_eq] at h hkey ⊢
    omega
  refine .ite (fun htest => .ok fun s => ?_) fun hcompare => .ok fun s => ?_
  · have hpattern : ¬w.IsCompareBranch ∧ w.IsTestBranch := by
      simp only [IsCompareBranch, IsTestBranch, number_eq, bit_eq_true] at h hkey htest ⊢
      omega
    simp only [nextPc_branch, bitIsClear_holds, target?, hothers, hpattern, if_false, if_true, relativeTarget_eq]
  · have hpattern : w.IsCompareBranch := by
      simp only [IsCompareBranch, number_eq, bit_eq_true] at h hkey hcompare ⊢
      omega
    simp only [nextPc_branch, isZero_holds, target?, hothers, hpattern, if_false, if_true, relativeTarget_eq]

theorem follows_decodeConditionalBranch (h : w.number 28 26 = 5) (hkey : w.number 31 29 = 2) :
    Yields (decodeConditionalBranch w) (Follows w) := by
  refine .guard fun hzero => .guard fun hbit => .ok fun s => ?_
  simp only [Bool.or_eq_true, not_or, Bool.not_eq_true] at hzero hbit
  have hother : ¬w.IsImmediateBranch := by
    simp only [IsImmediateBranch, number_eq] at h hkey ⊢
    omega
  have hpattern : w.IsConditionalBranch := by
    refine ⟨?_, hbit⟩
    simp only [number_eq, bit_eq_false] at h hkey hzero ⊢
    omega
  simp only [nextPc_branch, target?, hother, hpattern, if_false, if_true, relativeTarget_eq]
  rfl

theorem follows_decodeRegisterBranch (h : w.number 28 26 = 5) (hkey : w.number 31 29 = 6)
    (h24 : w.number 25 24 ≠ 0) (h25 : w.number 25 24 ≠ 1) : Yields (decodeRegisterBranch w) (Follows w) := by
  refine .guard fun hop2 => .ite (fun hopc => .require fun hrest => .ok fun s => ?_) fun _ => .guard fun _ => .error _
  simp only [bne_iff_ne, ne_eq, Decidable.not_not, Bool.and_eq_true, beq_iff_eq] at hop2 hrest
  have hothers : ¬w.IsImmediateBranch ∧ ¬w.IsConditionalBranch ∧ ¬w.IsCompareBranch ∧ ¬w.IsTestBranch := by
    simp only [IsImmediateBranch, IsConditionalBranch, IsCompareBranch, IsTestBranch, number_eq] at h hkey ⊢
    omega
  have hpattern : w.IsRegisterBranch := by
    refine ⟨?_, hopc, hop2, hrest.1, hrest.2⟩
    simp only [number_eq] at h hkey h24 h25 hopc ⊢
    omega
  simp only [target?, hothers, hpattern, if_false, if_true]
  rfl

theorem follows_decode (h : w.number 28 26 = 5) : Yields (decode w) (Follows w) := by
  unfold decode
  rw [KeyTable.key_control]
  split
  next hkey => exact follows_decodeImmediateBranch h (by simp only [number_eq] at hkey ⊢; omega)
  next hkey => exact follows_decodeImmediateBranch h (by simp only [number_eq] at hkey ⊢; omega)
  next hkey => exact follows_decodeCompareBranch h (by simp only [number_eq] at hkey ⊢; omega)
  next hkey => exact follows_decodeCompareBranch h (by simp only [number_eq] at hkey ⊢; omega)
  next hkey => exact follows_decodeConditionalBranch h hkey
  next hkey =>
    unfold decodeRest
    split
    next hgroup =>
      have hw := not_isBranch_of_system hkey (by omega)
      exact plain_decodeException.mono fun _ hop => hop.follows hw
    next hgroup =>
      have hw := not_isBranch_of_system hkey (by omega)
      have hsystem : w.number 31 24 = 0b11010101 := by
        simp only [number_eq] at h hkey hgroup ⊢
        omega
      exact (plain_decodeSystem hsystem).mono fun _ hop => hop.follows hw
    next h24 h25 => exact follows_decodeRegisterBranch h hkey h24 h25
  next => exact .error _

end Branches

end ControlOp

theorem InstructionWord.nextPc_footprint {w : InstructionWord} (h : w.number 28 26 ≠ 5) :
    w.footprint.nextPc = false := by
  have hkey : KeyTable.topLevel.key w ≠ 10 ∧ KeyTable.topLevel.key w ≠ 11 := by
    rw [KeyTable.key_topLevel]
    simp only [number_eq] at h ⊢
    omega
  unfold footprint
  split <;> simp_all [integerFootprint, simdFootprint, transferFootprint, Footprint.register]

theorem Instruction.state_execute_control (op : ControlOp) (c : Core) :
    ((control op).execute c).1.state = op.apply c.state := by
  cases op <;> rfl

theorem Instruction.yields_control {w : InstructionWord} (h : w.number 28 26 = 5) :
    Yields (decode w) fun i => ∃ op, i = control op ∧ op.Follows w := by
  have hkey : KeyTable.topLevel.key w = 10 ∨ KeyTable.topLevel.key w = 11 := by
    rw [KeyTable.key_topLevel]
    simp only [InstructionWord.number_eq] at h ⊢
    omega
  have hdecode : decode w = (ControlOp.decode w).map control := by
    obtain hkey | hkey := hkey <;> simp only [decode, hkey]
  rw [hdecode]
  exact (ControlOp.follows_decode h).exists_map _

namespace Machine

variable {m : Machine}

/-- A word that completes stages the address it branches to, and leaves what is staged if it does not branch. -/
theorem nextPc_execute {w : InstructionWord} (m : Machine) {c : Completion} (hok : (m.execute w).1 = .ok c) :
    (m.execute w).2.state.nextPc = (w.target? m.state).getD m.state.nextPc := by
  by_cases hgroup : w.number 28 26 = 5
  · cases hd : Instruction.decode w with
    | error e => simp [m.execute_of_decode_error hd] at hok
    | ok i =>
      obtain ⟨op, rfl, hop⟩ := Instruction.yields_control hgroup i hd
      have hstate : (m.execute w).2.state = op.apply m.state := by
        rw [state, m.core_execute hd]
        exact Instruction.state_execute_control op m.core
      rw [hstate]
      exact hop m.state
  · rw [InstructionWord.target?_eq_none (InstructionWord.not_isBranch_of_group hgroup)]
    exact (m.agree_footprint w).core.state.nextPc (InstructionWord.nextPc_footprint hgroup)

section Step

/-- What a step of a running machine returns when the program counter moves. -/
def Moves (r : Status × Machine) : Prop :=
  r.1 = .ready ∨ r.1 = .breakpoint ∨ r.1 = .callout ∨ (r.1 = .error ∧ r.2.error = some .stackOverflow)

instance (r : Status × Machine) : Decidable (Moves r) :=
  inferInstanceAs (Decidable (_ ∨ _))

theorem moves_checkStack (h : m.status = .ready) : Moves m.checkStack ∧ m.checkStack.2.state = m.state := by
  obtain hcheck | hcheck := m.checkStack_eq
  · rw [hcheck]
    exact ⟨.inl h, rfl⟩
  · rw [hcheck]
    exact ⟨.inr (.inr (.inr ⟨rfl, rfl⟩)), rfl⟩

/-- Behind an instruction that has completed, other than by halting. -/
theorem moves_finish {c : Completion} (h : m.status = .ready) (hc : c ≠ .halt) :
    Moves (finish (.ok c, m)) ∧ (finish (.ok c, m)).2.state.pc = m.state.nextPc := by
  have hcheck := moves_checkStack (m := m.commit) h
  cases c with
  | ready => exact ⟨hcheck.1, congrArg State.pc hcheck.2⟩
  | halt => exact absurd rfl hc
  | callout => exact ⟨.inr (.inr (.inl rfl)), rfl⟩
  | breakpoint =>
    simp only [finish]
    obtain heq | heq := m.commit.checkStack_eq
    · have hready : m.commit.status = .ready := h
      rw [heq, hready]
      exact ⟨.inr (.inl rfl), rfl⟩
    · rw [heq]
      exact ⟨.inr (.inr (.inr ⟨rfl, rfl⟩)), rfl⟩

/-- Behind one that has halted the machine or failed. -/
theorem not_moves_finish {r : Except ErrorKind Completion} (h : r = .ok .halt ∨ ∃ e ≠ .stackOverflow, r = .error e) :
    ¬Moves (finish (r, m)) ∧ (finish (r, m)).2.state.pc = m.state.pc := by
  obtain rfl | ⟨e, he, rfl⟩ := h
  · exact ⟨by simp [Moves, finish, stop], rfl⟩
  · exact ⟨by simp [Moves, finish, fail, he], rfl⟩

theorem pc_finish {r : Except ErrorKind Completion} (h : m.status = .ready) (hr : r ≠ .error .stackOverflow) :
    (Moves (finish (r, m)) ↔ ∃ c ≠ .halt, r = .ok c) ∧
      (finish (r, m)).2.state.pc = if Moves (finish (r, m)) then m.state.nextPc else m.state.pc := by
  by_cases hcompleted : ∃ c ≠ .halt, r = .ok c
  · obtain ⟨c, hc, rfl⟩ := hcompleted
    obtain ⟨hmoves, hpc⟩ := moves_finish h hc
    exact ⟨iff_of_true hmoves ⟨c, hc, rfl⟩, by rw [if_pos hmoves, hpc]⟩
  · have hended : r = .ok .halt ∨ ∃ e ≠ .stackOverflow, r = .error e := by
      cases r with
      | error e => exact .inr ⟨e, fun he => hr (congrArg Except.error he), rfl⟩
      | ok c =>
        refine .inl (congrArg Except.ok ?_)
        exact Decidable.byContradiction fun hc => hcompleted ⟨c, hc, rfl⟩
    obtain ⟨hstays, hpc⟩ := not_moves_finish (m := m) hended
    exact ⟨iff_of_false hstays hcompleted, by rw [if_neg hstays, hpc]⟩

end Step

section Fetch

/-- The word at the program counter lies inside a block. -/
def Readable (m : Machine) : Prop := ∃ b ∈ m.core.memory.blocks, FlatMemory.Covers b.extent m.state.pc 4

instance (m : Machine) : Decidable m.Readable :=
  inferInstanceAs (Decidable (∃ b ∈ m.core.memory.blocks, _))

/-- The fault of a fetch from outside the blocks. -/
def fetchFault (m : Machine) : Fault := { address := m.state.pc, size := 4, access := .read }

theorem fault_fetchMemory_of_readable (hpending : m.core.memory.fault = none) (h : m.Readable) :
    m.fetchMemory.fault = none := by
  obtain ⟨b, hb, hcovers⟩ := h
  obtain ⟨i, offset, hresolve⟩ := Memory.exists_resolve_of_covers hb hcovers
  simp only [fetchMemory, Memory.read, hresolve]
  exact hpending

theorem fetchMemory_of_not_readable (hpending : m.core.memory.fault = none) (h : ¬m.Readable) :
    m.fetchMemory = { m.core.memory with fault := some m.fetchFault } := by
  have hresolve : m.core.memory.resolve m.state.pc 4 = none := by
    cases hr : m.core.memory.resolve m.state.pc 4 with
    | none => rfl
    | some hit =>
      obtain ⟨b, hb, hoffset⟩ := m.core.memory.exists_block_of_resolve hr
      exact absurd ⟨b, List.mem_of_getElem? hb, (Block.offset?_eq_some_iff_covers.1 hoffset).1⟩ h
  simp only [fetchMemory, Memory.read, hresolve, Memory.record, hpending]
  rfl

theorem unfetched_fetchFault (hpending : m.core.memory.fault = none) (h : ¬m.Readable) :
    m.unfetched m.fetchFault = { m with fault := some m.fetchFault } := by
  have hmemory : { m.core.memory with fault := none } = m.core.memory := by rw [← hpending]
  simp only [unfetched, fetchMemory_of_not_readable hpending h]
  rw [hmemory]

end Fetch

/-- A step of a running machine at the return address only says so, and where no word can be fetched it only reports
the fault. Any other step counts one instruction. The program counter then moves if the instruction has completed
without halting the machine, to where its word branches from the state before, and behind the word if it does not. -/
theorem step_program_counter (m : Machine) (hready : m.status = .ready) (hpending : m.core.memory.fault = none) :
    (m.state.pc = returnAddress → m.step = (.returned, { m with status := .returned })) ∧
      (m.state.pc ≠ returnAddress → ¬m.Readable → m.step =
        (.error, { m with status := .error, error := some .memoryException, fault := some m.fetchFault })) ∧
      (m.state.pc ≠ returnAddress → m.Readable →
        m.step.2.instruction = m.nextWord ∧ m.step.2.retired = m.retired + 1 ∧
          (Moves m.step ↔ ∃ c ≠ .halt, (m.fetched.execute m.nextWord).1 = .ok c) ∧
          (Moves m.step → m.step.2.state.pc = (m.nextWord.target? m.state).getD (m.state.pc + 4#64)) ∧
          (¬Moves m.step → m.step.2.state.pc = m.state.pc)) := by
  have hstepped := m.stepped
  generalize m.step = r at hstepped ⊢
  cases hstepped with
  | idle h => exact absurd hready h
  | returned _ hpc => exact ⟨fun _ => rfl, fun hne => absurd hpc hne, fun hne => absurd hpc hne⟩
  | unfetched h f hf =>
    have hreadable : ¬m.Readable := fun hr => by
      rw [fault_fetchMemory_of_readable hpending hr] at hf
      cases hf
    have hfault : f = m.fetchFault := by
      rw [fetchMemory_of_not_readable hpending hreadable] at hf
      exact (Option.some.inj hf).symm
    refine ⟨fun hpc => absurd hpc h.2, fun _ _ => ?_, fun _ hr => absurd hr hreadable⟩
    rw [hfault, unfetched_fetchFault hpending hreadable]
    rfl
  | executed h hf =>
    have hreadable : m.Readable := by
      refine Decidable.byContradiction fun hr => ?_
      rw [fetchMemory_of_not_readable hpending hr] at hf
      cases hf
    refine ⟨fun hpc => absurd hpc h.2, fun _ hr => absurd hreadable hr, fun _ _ => ?_⟩
    have hagree := m.fetched.agree_footprint m.nextWord
    have htarget {c : Completion} := m.fetched.nextPc_execute (w := m.nextWord) (c := c)
    have herror := m.fetched.execute_ne_stackOverflow m.nextWord
    generalize m.fetched.execute m.nextWord = e at hagree htarget herror ⊢
    obtain ⟨r, n⟩ := e
    have hstatus : n.status = .ready := hagree.status.trans hready
    obtain ⟨pc, status, error, hfinish⟩ := finish_eq r n
    refine ⟨by rw [hfinish]; exact hagree.instruction, by rw [hfinish]; exact hagree.retired, ?_⟩
    obtain ⟨hmoves, hpc⟩ := pc_finish hstatus herror
    refine ⟨hmoves, fun h => ?_, fun h => ?_⟩
    · obtain ⟨c, _, hc⟩ := hmoves.1 h
      rw [hpc, if_pos h]
      exact htarget hc
    · rw [hpc, if_neg h]
      exact hagree.core.state.pc

/-- A branch back from the first address goes to the top of the address space, and a call through the link register
goes where the register pointed before. -/
theorem step_program_counter_wraps_and_calls :
    let code (bytes : List (BitVec 8)) : Memory := { blocks := [Block.ofBytes 0#64 4 false bytes] }
    let back : Machine := { core := { memory := code [0xFF#8, 0xFF#8, 0xFF#8, 0x17#8] } }
    let call : Machine :=
      { core := {
          state := ({} : State).write Register.link 0x2000#64
          memory := code [0xC0#8, 0x03#8, 0x3F#8, 0xD6#8] } }
    (back.status = .ready ∧ back.core.memory.fault = none ∧ back.Readable ∧
        back.step.2.state.pc = 0xFFFFFFFFFFFFFFFC#64) ∧
      call.status = .ready ∧ call.core.memory.fault = none ∧ call.Readable ∧ call.step.2.state.pc = 0x2000#64 := by
  intro code back call
  have hback : back.Readable ∧ Moves back.step := by decide +kernel
  have hcall : call.Readable ∧ Moves call.step := by decide +kernel
  have hbackTarget : (back.nextWord.target? back.state).getD (back.state.pc + 4#64) = 0xFFFFFFFFFFFFFFFC#64 := by
    decide +kernel
  have hcallTarget : (call.nextWord.target? call.state).getD (call.state.pc + 4#64) = 0x2000#64 := by
    decide +kernel
  obtain ⟨_, _, hback'⟩ := step_program_counter back rfl rfl
  obtain ⟨_, _, hcall'⟩ := step_program_counter call rfl rfl
  obtain ⟨_, _, _, hbackPc, _⟩ := hback' (by decide) hback.1
  obtain ⟨_, _, _, hcallPc, _⟩ := hcall' (by decide) hcall.1
  refine ⟨⟨rfl, rfl, hback.1, ?_⟩, rfl, rfl, hcall.1, ?_⟩
  · exact (hbackPc hback.2).trans hbackTarget
  · exact (hcallPc hcall.2).trans hcallTarget

end Machine
end AArch64
