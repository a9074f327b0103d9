import AArch64.Proofs.Budget
import AArch64.Proofs.Loading
import AArch64.Proofs.ReadOnly

/-! Setting a machine up. It is done as a whole or not at all, and it is done once: from then on the byte below the top
of the stack is in a block, blocks are only ever added, and another stack would need that byte too. -/
namespace AArch64.Machine

variable {m : Machine}

def stackBlock (m : Machine) (start : Option (BitVec 64)) : Block :=
  Block.ofBytes (m.heapStart start) (m.settings.stackTop.toNat - (m.heapStart start).toNat) true []

def started (m : Machine) (entry : BitVec 64) (start : Option (BitVec 64)) : Machine where
  core := {
    state := m.entryState entry
    memory := { m.core.memory with blocks := m.core.memory.blocks ++ [m.stackBlock start] }
    monitor := m.core.monitor }
  settings := m.settings
  instruction := m.instruction
  stackLimit := some (m.heapStart start)

/-- The heap would start at or above the top of the stack, or a block is in the way of the one for both. -/
inductive SetupFails (m : Machine) (start : Option (BitVec 64)) : SetupError → Prop
  | emptyStack (h : m.settings.stackTop.toNat ≤ (m.heapStart start).toNat) :
    SetupFails m start (.emptyStack (m.heapStart start) m.settings.stackTop)
  | overlap {o : BlockOverlap} (hlt : (m.heapStart start).toNat < m.settings.stackTop.toNat)
    (h : m.core.memory.addBlock (m.stackBlock start) = .error o) : SetupFails m start (.overlap o)

theorem init_atomic (m : Machine) (entry : BitVec 64) (start : Option (BitVec 64)) :
    (∃ e, m.SetupFails start e ∧ m.init entry start = (.error e, m)) ∨
      (m.heapStart start).toNat < m.settings.stackTop.toNat ∧ (∀ e, ¬m.SetupFails start e) ∧
        m.init entry start = (.ok (), m.started entry start) := by
  unfold init
  simp only
  split
  next hle => exact .inl ⟨_, .emptyStack hle, rfl⟩
  next hlt =>
    have hlt := Nat.lt_of_not_le hlt
    cases hadd : m.core.memory.addBlock (m.stackBlock start) with
    | error o =>
      refine .inl ⟨_, .overlap hlt hadd, ?_⟩
      rw [addBlock, ← stackBlock, hadd]
    | ok memory =>
      refine .inr ⟨hlt, fun e hfails => ?_, ?_⟩
      · cases hfails with
        | emptyStack hle => omega
        | overlap _ ho => rw [hadd] at ho; cases ho
      obtain ⟨_, rfl⟩ := Memory.addBlock_eq_ok_iff.1 hadd
      rw [addBlock, ← stackBlock, hadd]
      rfl

theorem settings_perform (m : Machine) (op : Operation) : (m.perform op).settings = m.settings := by
  by_cases hstep : op = .step
  · subst hstep
    exact m.progress_step.settings
  · by_cases hrun : op = .run
    · subst hrun
      exact m.progress_run.settings
    · exact (m.keptByHost_perform hstep hrun).settings

theorem layout_append (memory : Memory) (bs : List Block) :
    memory.layout <+: ({ memory with blocks := memory.blocks ++ bs } : Memory).layout := by
  rw [Memory.layout, Memory.layout, List.map_append]
  exact List.prefix_append _ _

/-- The host adds blocks. Nobody takes one away or changes its extent. -/
theorem layout_perform (m : Machine) (op : Operation) :
    m.core.memory.layout <+: (m.perform op).core.memory.layout := by
  have hsame (h : (m.perform op).core.memory.layout = m.core.memory.layout) :
      m.core.memory.layout <+: (m.perform op).core.memory.layout := h ▸ List.prefix_rfl
  have hexecutes (hop : op.Executes) := hsame (m.accesses_perform hop).layout
  cases op with
  | step | run | resume => exact hexecutes trivial
  | readRegister n buffer => exact hsame rfl
  | writeRegister n bytes =>
    refine hsame ?_
    simp only [perform, writeRegister]
    split <;> rfl
  | readMemory a n => exact hsame (m.core.memory.layout_loadBlock a n)
  | writeMemory a bytes => exact hsame (m.core.memory.layout_storeBlock a bytes)
  | load segments =>
    obtain ⟨_, hload⟩ | ⟨before, s, e, _, _, hload⟩ := load_cases segments m
    · rw [perform, hload]
      exact layout_append _ _
    · rw [perform, hload]
      exact layout_append _ _
  | init entry start =>
    obtain ⟨e, _, hinit⟩ | ⟨_, _, hinit⟩ := m.init_atomic entry start
    · exact hsame (by rw [perform, hinit])
    · rw [perform, hinit]
      exact layout_append _ _

/-- That byte is in a block. -/
def HasStack (m : Machine) : Prop :=
  ∃ e ∈ m.core.memory.layout,
    e.1.toNat < m.settings.stackTop.toNat ∧ m.settings.stackTop.toNat ≤ e.1.toNat + e.2.1

theorem hasStack_started {entry : BitVec 64} {start : Option (BitVec 64)}
    (h : (m.heapStart start).toNat < m.settings.stackTop.toNat) : (m.started entry start).HasStack := by
  have hmem : (m.stackBlock start).extent ∈ (m.started entry start).core.memory.layout :=
    List.mem_map_of_mem (List.mem_append_right _ (List.mem_singleton.2 rfl))
  refine ⟨_, hmem, ?_⟩
  simp only [Block.extent, stackBlock, Block.base_ofBytes, Block.len_ofBytes, started]
  omega

theorem HasStack.perform (h : m.HasStack) (op : Operation) : (m.perform op).HasStack := by
  obtain ⟨e, he, hbounds⟩ := h
  refine ⟨e, (m.layout_perform op).subset he, ?_⟩
  rw [settings_perform]
  exact hbounds

theorem HasStack.foldl_perform (h : m.HasStack) (ops : List Operation) : (ops.foldl Machine.perform m).HasStack := by
  induction ops generalizing m with
  | nil => exact h
  | cons op ops ih => exact ih (h.perform op)

/-- A second stack would share that byte with the block that has it. -/
theorem HasStack.refuses (h : m.HasStack) {start : Option (BitVec 64)}
    (hlt : (m.heapStart start).toNat < m.settings.stackTop.toNat) :
    ∃ o, m.core.memory.addBlock (m.stackBlock start) = .error o := by
  obtain ⟨e, he, hbase, htop⟩ := h
  obtain ⟨c, hc, rfl⟩ := List.mem_map.1 he
  refine Memory.addBlock_error_iff.2 ⟨c, hc, Block.overlaps_eq_true.2 ?_⟩
  have hmax : m.settings.stackTop.toNat < 2 ^ 64 := m.settings.stackTop.isLt
  simp only [Block.extent] at hbase htop
  simp only [stackBlock, Block.bound, Block.base_ofBytes, Block.len_ofBytes]
  omega

theorem HasStack.init_fails (h : m.HasStack) (entry : BitVec 64) (start : Option (BitVec 64)) :
    ∃ e, m.SetupFails start e ∧ m.init entry start = (.error e, m) := by
  obtain ⟨e, hfails, hinit⟩ | ⟨hlt, haccepted, _⟩ := m.init_atomic entry start
  · exact ⟨e, hfails, hinit⟩
  · obtain ⟨o, ho⟩ := h.refuses hlt
    exact absurd (.overlap hlt ho) (haccepted _)

/-- A failed setup leaves the machine as it was. Behind one that went through, all others fail, whatever the host and
the program have done in between. -/
theorem setup_atomic_and_once (m : Machine) (entry : BitVec 64) (start : Option (BitVec 64)) :
    (∀ e, (m.init entry start).1 = .error e → m.SetupFails start e ∧ (m.init entry start).2 = m) ∧
      ((m.init entry start).1 = .ok () → ∀ (ops : List Operation) entry' start',
        let n := ops.foldl perform (m.init entry start).2
        ∃ e, n.SetupFails start' e ∧ n.init entry' start' = (.error e, n)) := by
  obtain ⟨e, hfails, hinit⟩ | ⟨hlt, _, hinit⟩ := m.init_atomic entry start <;> rw [hinit]
  · refine ⟨?_, nofun⟩
    rintro _ ⟨⟩
    exact ⟨hfails, rfl⟩
  · refine ⟨nofun, fun _ ops entry' start' => ?_⟩
    exact ((hasStack_started hlt).foldl_perform ops).init_fails entry' start'

end AArch64.Machine
