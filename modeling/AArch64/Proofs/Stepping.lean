import AArch64.Proofs.Operations

/-! The anatomy of a step. A step is one of four things, and what comes behind an executed instruction touches no more
than the program counter, the status and the error. -/
namespace AArch64.Machine

section Fetch

variable (m : Machine)

/-- Whether a step would read a word at the program counter. -/
def Fetches : Prop := m.status = .ready ∧ m.state.pc ≠ returnAddress

def nextWord : InstructionWord := (m.core.memory.read m.state.pc 4).1

def fetchMemory : Memory := (m.core.memory.read m.state.pc 4).2

def fetched : Machine :=
  ({ m with
    core := { m.core with memory := m.fetchMemory }
    instruction := m.nextWord
    retired := m.retired + 1 } : Machine).stage

def unfetched (f : Fault) : Machine :=
  { m with core := { m.core with memory := { m.fetchMemory with fault := none } }, fault := some f }

theorem fetch_of_fault {f : Fault} (h : m.fetchMemory.fault = some f) : m.fetch = (none, m.unfetched f) := by
  have hread : (m.core.memory.read m.state.pc 4).2.fault = some f := h
  simp only [fetch, takeFault, Memory.takeFault, hread]
  rfl

theorem fetch_of_no_fault (h : m.fetchMemory.fault = none) :
    m.fetch = (some m.nextWord, { m with core := { m.core with memory := m.fetchMemory } }) := by
  have hread : (m.core.memory.read m.state.pc 4).2.fault = none := h
  have htaken : { m.fetchMemory with fault := none } = m.fetchMemory := by rw [← h]
  simp only [fetch, takeFault, Memory.takeFault, hread]
  exact congrArg (fun memory => (some m.nextWord, { m with core := { m.core with memory } })) htaken

end Fetch

/-- What a step of a machine comes to. -/
inductive Stepped (m : Machine) : Status × Machine → Prop
  | idle (h : m.status ≠ .ready) : Stepped m (m.status, m)
  | returned (h : m.status = .ready) (hpc : m.state.pc = returnAddress) : Stepped m (m.stop .returned)
  | unfetched (h : m.Fetches) (f : Fault) (hf : m.fetchMemory.fault = some f) :
      Stepped m ((m.unfetched f).fail .memoryException)
  | executed (h : m.Fetches) (hf : m.fetchMemory.fault = none) :
      Stepped m (finish (m.fetched.execute m.nextWord))

theorem stepped (m : Machine) : Stepped m m.step := by
  unfold step
  split
  next h => exact .idle h
  next h =>
    have hready : m.status = .ready := Decidable.not_not.1 h
    split
    next hpc => exact .returned hready hpc
    next hpc =>
      cases hf : m.fetchMemory.fault with
      | some f =>
        rw [m.fetch_of_fault hf]
        exact .unfetched ⟨hready, hpc⟩ f hf
      | none =>
        rw [m.fetch_of_no_fault hf]
        exact .executed ⟨hready, hpc⟩ hf

section Finish

variable {m : Machine}

theorem checkStack_eq (m : Machine) :
    m.checkStack = (m.status, m) ∨ m.checkStack = m.fail .stackOverflow := by
  unfold checkStack
  split
  · exact .inr rfl
  · exact .inl rfl

theorem finish_eq (r : Except ErrorKind Completion) (m : Machine) : ∃ pc status error,
    (finish (r, m)).2 =
      { m with core := { m.core with state := { m.state with pc } }, status, error } := by
  have hcheck : ∃ pc status error,
      m.commit.checkStack.2 = { m with core := { m.core with state := { m.state with pc } }, status, error } := by
    obtain h | h := m.commit.checkStack_eq <;> rw [h] <;> exact ⟨_, _, _, rfl⟩
  match r with
  | .ok .ready => exact hcheck
  | .ok .breakpoint =>
    rw [machine_finish_breakpoint]
    exact hcheck
  | .ok .callout => exact ⟨_, _, _, rfl⟩
  | .ok .halt => exact ⟨_, _, _, rfl⟩
  | .error e => exact ⟨_, _, _, rfl⟩

end Finish

end AArch64.Machine
