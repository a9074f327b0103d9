import AArch64.Proofs.RegisterAccess
import AArch64.Proofs.Stepping

/-! The stack limit. A program that has been set up never goes on with its stack pointer below the heap: only a
completed instruction moves the stack pointer, and the machine looks at it before the next one. -/
namespace AArch64

/-- As a plain operand, register 31 is not the stack pointer. -/
theorem Footprint.general_register_stackPointer (r : Register) :
    (Footprint.register r).general Register.stackPointer = false := by
  by_cases h : r = Register.stackPointer
  · simp [Footprint.register, h]
  · simp [Footprint.register, Ne.symm h]

theorem TransferKind.general_footprint_stackPointer (kind : TransferKind) (rt : Register) :
    (kind.footprint rt).general Register.stackPointer = false := by
  have hregister := Footprint.general_register_stackPointer rt
  cases kind <;> simp [footprint, Footprint.access, Footprint.vector, hregister]

/-- A faulting access has not come to its write-back, so the base register may be the stack pointer. -/
theorem TransferOp.general_faultFootprint_stackPointer (op : TransferOp) :
    op.faultFootprint.general Register.stackPointer = false := by
  cases op <;> simp [faultFootprint, TransferKind.general_footprint_stackPointer, Footprint.access]

namespace Instruction

theorem sp_of_fault {i : Instruction} {c : Core} (h : (i.execute c).2 ≠ none) :
    (i.execute c).1.state.sp = c.state.sp := by
  cases i with
  | integer i => exact absurd rfl h
  | simd i => exact absurd rfl h
  | control op => cases op <;> exact absurd rfl h
  | transfer op =>
    have hagree := TransferOp.agree_of_fault h
    exact hagree.state.general Register.stackPointer op.general_faultFootprint_stackPointer

/-- Halting, breaking and calling out leave the registers alone. -/
theorem sp_of_completion {i : Instruction} {c : Core} (h : i.completion ≠ .ready) :
    (i.execute c).1.state.sp = c.state.sp := by
  cases i with
  | integer i => exact absurd rfl h
  | simd i => exact absurd rfl h
  | transfer op => exact absurd rfl h
  | control op =>
    cases op with
    | halt | breakpoint | callout _ => rfl
    | _ => exact absurd rfl h

end Instruction

namespace Machine

variable {m : Machine} {limit : BitVec 64}

/-- Only an instruction that completes without a stop moves the stack pointer. -/
theorem sp_execute {w : InstructionWord} (h : (m.execute w).1 ≠ .ok .ready) :
    (m.execute w).2.state.sp = m.state.sp := by
  cases hd : Instruction.decode w with
  | error e => rw [m.execute_of_decode_error hd]
  | ok i =>
    rw [state, m.core_execute hd]
    rw [m.outcome_execute hd] at h
    cases hf : (i.execute m.core).2 with
    | some fault => exact Instruction.sp_of_fault (by rw [hf]; nofun)
    | none =>
      rw [hf] at h
      exact Instruction.sp_of_completion fun hready => h (congrArg Except.ok hready)

/-- The stack pointer is above the limit, or the machine has stopped because it is not. -/
structure Guarded (limit : BitVec 64) (m : Machine) : Prop where
  stackLimit : m.stackLimit = some limit
  above : limit.toNat ≤ m.state.sp.toNat ∨ (m.status = .error ∧ m.error = some .stackOverflow)

namespace Guarded

theorem le_sp (h : m.Guarded limit) (hready : m.status = .ready) : limit.toNat ≤ m.state.sp.toNat := by
  obtain hle | ⟨herror, _⟩ := h.above
  · exact hle
  · rw [hready] at herror
    cases herror

theorem checkStack (h : m.stackLimit = some limit) : m.checkStack.2.Guarded limit := by
  unfold Machine.checkStack
  split
  next => exact ⟨h, .inr ⟨rfl, rfl⟩⟩
  next hbelow =>
    simp only [belowLimit, h, decide_eq_true_eq, Nat.not_lt] at hbelow
    exact ⟨h, .inl hbelow⟩

/-- An instruction that went on or broke is checked here; behind any other the stack pointer is where it was. -/
theorem finish {r : Except ErrorKind Completion} (h : m.stackLimit = some limit)
    (hsp : r ≠ .ok .ready → limit.toNat ≤ m.state.sp.toNat) : (finish (r, m)).2.Guarded limit := by
  match r with
  | .ok .ready => exact checkStack h
  | .ok .breakpoint =>
    rw [machine_finish_breakpoint]
    exact checkStack h
  | .ok .callout => exact ⟨h, .inl (hsp nofun)⟩
  | .ok .halt => exact ⟨h, .inl (hsp nofun)⟩
  | .error e => exact ⟨h, .inl (hsp nofun)⟩

theorem step (h : m.Guarded limit) : m.step.2.Guarded limit := by
  have hstepped := m.stepped
  generalize m.step = r at hstepped ⊢
  cases hstepped with
  | idle hidle => exact h
  | returned hready hpc => exact ⟨h.stackLimit, .inl (h.le_sp hready)⟩
  | unfetched hfetches f hf => exact ⟨h.stackLimit, .inl (h.le_sp hfetches.1)⟩
  | executed hfetches hf =>
    have hlimit := (m.fetched.agree_footprint m.nextWord).stackLimit
    have hsp := m.fetched.sp_execute (w := m.nextWord)
    generalize m.fetched.execute m.nextWord = e at hlimit hsp
    obtain ⟨r, n⟩ := e
    refine finish (hlimit.trans h.stackLimit) fun hr => ?_
    rw [hsp hr]
    exact h.le_sp hfetches.1

theorem runFor (n : Nat) (h : m.Guarded limit) : (runFor n m).2.Guarded limit := by
  induction n generalizing m with
  | zero => exact h
  | succ n ih =>
    have hstep := h.step
    unfold Machine.runFor
    split
    next _ m' hm' =>
      rw [hm'] at hstep
      exact ih hstep
    next => exact hstep

end Guarded

theorem sp_entryState (m : Machine) (entry : BitVec 64) : (m.entryState entry).sp = m.settings.stackTop := by
  have hlink : Register.stackPointer ≠ Register.link := by decide
  have hframe : Register.stackPointer ≠ Register.framePointer := by decide
  change GeneralRegisters.slot _ Register.stackPointer = m.settings.stackTop
  simp [entryState, State.write, State.setSp, GeneralRegisters.slot_set, hlink, hframe]

/-- The stack pointer starts at the top of the stack, which is above the heap. -/
theorem guarded_init {entry : BitVec 64} {start : Option (BitVec 64)} (h : (m.init entry start).1 = .ok ()) :
    (m.init entry start).2.Guarded (m.heapStart start) := by
  obtain ⟨e, he⟩ | ⟨memory, hlt, hok⟩ := m.init_cases entry start
  · rw [he] at h
    cases h
  · rw [hok]
    refine ⟨rfl, .inl ?_⟩
    change _ ≤ (m.entryState entry).sp.toNat
    rw [sp_entryState]
    exact Nat.le_of_lt hlt

end Machine

/-- Whether the program stays set up and its stack pointer is left to it. -/
def Operation.SparesStackPointer : Operation → Prop
  | init _ _ => False
  | writeRegister n _ => n ≠ 31
  | _ => True

namespace Machine

variable {m : Machine} {limit : BitVec 64}

theorem eq_of_fitting_stackPointer {n available : Nat}
    (h : DebugRegister.fitting? n available = some (.general Register.stackPointer)) : n = 31 :=
  (DebugRegister.fitting?_eq_some_iff.1 h).1

/-- Poking any register but number 31 leaves the stack pointer alone. -/
theorem sp_set {r : DebugRegister} (h : r ≠ .general Register.stackPointer) (x : BitVec 64) (s : State) :
    (r.set x s).sp = s.sp := by
  cases r with
  | vectorLow | pc | nzcv | fpsr => rfl
  | general r =>
    have hne : Register.stackPointer ≠ r := fun heq => h (congrArg DebugRegister.general heq.symm)
    change (s.write r x .stackPointer).slot Register.stackPointer = s.slot Register.stackPointer
    rw [State.slot_write, if_neg fun hr => hne hr.1]

namespace Guarded

theorem withMemory (h : m.Guarded limit) (memory : Memory) :
    ({ m with core := { m.core with memory } } : Machine).Guarded limit :=
  ⟨h.stackLimit, h.above⟩

theorem resume (h : m.Guarded limit) : (m.resume.toOption.getD m).Guarded limit := by
  unfold Machine.resume
  split
  next hcallout =>
    obtain hle | ⟨herror, _⟩ := h.above
    · exact ⟨h.stackLimit, .inl hle⟩
    · rw [hcallout] at herror
      cases herror
  next => exact h

theorem writeRegister (h : m.Guarded limit) {n : Nat} (hn : n ≠ 31) (bytes : List (BitVec 8)) :
    ((m.writeRegister n bytes).toOption.getD m).Guarded limit := by
  unfold Machine.writeRegister
  split
  next r hr =>
    have hne : r ≠ .general Register.stackPointer := by
      rintro rfl
      exact hn (eq_of_fitting_stackPointer hr)
    refine ⟨h.stackLimit, ?_⟩
    change limit.toNat ≤ (r.set _ m.state).sp.toNat ∨ _
    rw [sp_set hne]
    exact h.above
  next => exact h

theorem perform (h : m.Guarded limit) {op : Operation} (hop : op.SparesStackPointer) :
    (m.perform op).Guarded limit := by
  cases op with
  | init entry start => exact hop.elim
  | load segments =>
    obtain ⟨memory, hmemory⟩ := load_eq segments m
    rw [Machine.perform, hmemory]
    exact h.withMemory memory
  | step => exact h.step
  | run => exact h.runFor m.budget
  | resume => exact h.resume
  | readRegister n buffer => exact h
  | writeRegister n bytes => exact h.writeRegister hop bytes
  | readMemory a n => exact h.withMemory _
  | writeMemory a bytes => exact h.withMemory _

theorem foldl_perform (h : m.Guarded limit) (ops : List Operation) (hops : ∀ op ∈ ops, op.SparesStackPointer) :
    (ops.foldl Machine.perform m).Guarded limit := by
  induction ops generalizing m with
  | nil => exact h
  | cons op ops ih =>
    have hnext := h.perform (hops op List.mem_cons_self)
    exact ih hnext fun o ho => hops o (List.mem_cons_of_mem op ho)

end Guarded

/-- From its set-up on, wherever a machine stands between two operations or between two steps of a run, its stack
pointer is at or above the heap or it has stopped with a stack overflow, and no word is fetched but in the first
case. -/
theorem stack_pointer_above_heap {entry : BitVec 64} {start : Option (BitVec 64)} {ops : List Operation}
    (hinit : (m.init entry start).1 = .ok ()) (hops : ∀ op ∈ ops, op.SparesStackPointer) (k : Nat) :
    let n := (runFor k (ops.foldl perform (m.init entry start).2)).2
    ((m.heapStart start).toNat ≤ n.state.sp.toNat ∨ (n.status = .error ∧ n.error = some .stackOverflow)) ∧
      (n.Fetches → (m.heapStart start).toNat ≤ n.state.sp.toNat) := by
  intro n
  have hguarded : n.Guarded (m.heapStart start) := ((guarded_init hinit).foldl_perform ops hops).runFor k
  exact ⟨hguarded.above, fun hfetches => hguarded.le_sp hfetches.1⟩

/-- A program that calls its host and then takes more than all of its stack. -/
theorem stack_pointer_above_heap_overflow :
    let code : Block := Block.ofBytes 0x1000#64 8 false [0x01#8, 0x00#8, 0x00#8, 0xD4#8, 0xFF#8, 0x07#8, 0x40#8, 0xD1#8]
    let m : Machine := { core := { memory := { blocks := [code] } } }
    let start : Option (BitVec 64) := some 0x07FFF001#64
    let ops : List Operation := [.run, .writeRegister 0 [0#8, 0#8, 0#8, 0#8, 0#8, 0#8, 0#8, 0#8], .resume]
    let n (k : Nat) : Machine := (runFor k (ops.foldl perform (m.init 0x1000#64 start).2)).2
    (n 0).Fetches ∧ (m.heapStart start).toNat ≤ (n 0).state.sp.toNat ∧
      (n 1).state.sp.toNat < (m.heapStart start).toNat ∧ (n 1).error = some .stackOverflow := by
  intro code m start ops n
  have hok : (m.init 0x1000#64 start).1.isOk = true := by decide +kernel
  have hinit : (m.init 0x1000#64 start).1 = .ok () := by
    cases h : (m.init 0x1000#64 start).1 with
    | ok => rfl
    | error e => simp [h, Except.isOk, Except.toBool] at hok
  have hops : ∀ op ∈ ops, op.SparesStackPointer := by simp [ops, Operation.SparesStackPointer]
  have hfirst : (n 0).status = .ready ∧ (n 0).state.pc ≠ returnAddress := by decide +kernel
  have hlast : (n 1).state.sp.toNat < (m.heapStart start).toNat := by decide +kernel
  obtain ⟨_, hfetches⟩ := stack_pointer_above_heap hinit hops 0
  obtain ⟨hle | ⟨_, herror⟩, _⟩ := stack_pointer_above_heap hinit hops 1
  · exact absurd hle (Nat.not_le.2 hlast)
  · exact ⟨hfirst, hfetches hfirst, hlast, herror⟩

end Machine
end AArch64
