import AArch64.Proofs.Operations

/-! Guests and read-only blocks. Whatever is executed, every block stays where it is, and a block that is not writable
keeps all its bytes. -/
namespace AArch64

namespace Memory

variable {m m' : Memory} {i : Nat} {b : Block}

theorem blocks_read (m : Memory) (a : BitVec 64) (n : Nat) : (m.read a n).2.blocks = m.blocks := by
  unfold read
  split <;> rfl

/-- The block that a write goes to is asked whether it is writable, also if it is the active one. -/
theorem write_keeps_read_only (hb : m.blocks[i]? = some b) (hw : b.writable = false) {w : Nat} (a : BitVec 64)
    (n : Nat) (x : BitVec w) : (m.write a n x).blocks[i]? = some b := by
  unfold write
  split
  next j offset hr =>
    by_cases hj : m.writableAt j = true
    -- the write takes place, so it is another block that it goes to
    · have hne : j ≠ i := by
        rintro rfl
        simp [writableAt, hb, hw] at hj
      rw [if_pos hj]
      simp [storeAt, activate, hne, hb]
    · rw [if_neg hj]
      exact hb
  next => exact hb

theorem Accesses.keeps_read_only (h : Accesses m m') (hb : m.blocks[i]? = some b) (hw : b.writable = false) :
    m'.blocks[i]? = some b := by
  induction h with
  | refl => exact hb
  | @read m' _ a n ih =>
    rw [m'.blocks_read]
    exact ih
  | write _ a n x ih => exact write_keeps_read_only ih hw a n x
  | takeFault _ ih => exact ih

end Memory

/-- Whether the operation lets the guest go on. The others are the host's own. -/
def Operation.Executes : Operation → Prop
  | step | run | resume => True
  | _ => False

namespace Machine

open Memory (Accesses)

theorem memory_checkStack (m : Machine) : m.checkStack.2.core.memory = m.core.memory := by
  unfold checkStack
  split <;> rfl

theorem memory_finish (r : Except ErrorKind Completion × Machine) :
    (finish r).2.core.memory = r.2.core.memory := by
  obtain ⟨result, m⟩ := r
  match result with
  | .error e => rfl
  | .ok .halt => rfl
  | .ok .callout => rfl
  | .ok .ready => exact m.commit.memory_checkStack
  | .ok .breakpoint =>
    rw [machine_finish_breakpoint]
    exact m.commit.memory_checkStack

theorem accesses_fetch (m : Machine) : Accesses m.core.memory m.fetch.2.core.memory := by
  have hread : Accesses m.core.memory (m.core.memory.read m.state.pc 4).2.takeFault.2 :=
    ((Accesses.refl m.core.memory).read m.state.pc 4).takeFault
  simp only [fetch, Machine.takeFault, Memory.takeFault] at hread ⊢
  cases (m.core.memory.read m.state.pc 4).2.fault <;> exact hread

theorem accesses_step (m : Machine) : Accesses m.core.memory m.step.2.core.memory := by
  have hfetch := m.accesses_fetch
  unfold step
  split
  next => exact .refl _
  next =>
    split
    next => exact .refl _
    next =>
      split
      next n hn =>
        rw [hn] at hfetch
        exact hfetch
      next word n hn =>
        rw [hn] at hfetch
        have hword := agree_footprint ({ n with instruction := word, retired := n.retired + 1 } : Machine).stage word
        rw [memory_finish]
        exact hfetch.trans hword.core.accesses

theorem accesses_runFor (n : Nat) (m : Machine) : Accesses m.core.memory (runFor n m).2.core.memory := by
  induction n generalizing m with
  | zero => exact .refl _
  | succ n ih =>
    have hstep := m.accesses_step
    unfold runFor
    split
    next _ n' hready =>
      rw [hready] at hstep
      exact hstep.trans (ih n')
    next => exact hstep

theorem accesses_perform (m : Machine) {op : Operation} (h : op.Executes) :
    Accesses m.core.memory (m.perform op).core.memory := by
  cases op with
  | step => exact m.accesses_step
  | run => exact m.accesses_runFor m.budget
  | resume =>
    simp only [perform, Machine.resume]
    split <;> exact .refl _
  | load | init | readRegister | writeRegister | readMemory | writeMemory => exact h.elim

/-- The guest reaches the memory through its loads and stores only, for as long as it runs. -/
theorem accesses_foldl_perform (m : Machine) (ops : List Operation) (h : ∀ op ∈ ops, op.Executes) :
    Accesses m.core.memory (ops.foldl perform m).core.memory := by
  induction ops generalizing m with
  | nil => exact .refl _
  | cons op ops ih =>
    have hop := m.accesses_perform (h op List.mem_cons_self)
    exact hop.trans (ih _ fun o ho => h o (List.mem_cons_of_mem op ho))

/-- Executing does not move, resize, add or remove a block, nor make one writable or read-only. A block that is not
writable is the same after it, byte for byte. -/
theorem execution_keeps_read_only (m : Machine) (ops : List Operation) (h : ∀ op ∈ ops, op.Executes) :
    (ops.foldl perform m).core.memory.layout = m.core.memory.layout ∧
      ∀ (i : Nat) (b : Block), m.core.memory.blocks[i]? = some b → b.writable = false →
        (ops.foldl perform m).core.memory.blocks[i]? = some b := by
  have haccesses := m.accesses_foldl_perform ops h
  exact ⟨haccesses.layout, fun i b hb hw => haccesses.keeps_read_only hb hw⟩

/-- A guest that stores to its own first instruction, which it may not. -/
theorem execution_keeps_read_only_code :
    let code : Block := Block.ofBytes 0#64 8 false [0x20#8, 0x00#8, 0x00#8, 0xF9#8]
    let m : Machine := { core := { memory := { blocks := [code] } } }
    let ops : List Operation := [.run, .resume, .step]
    (ops.foldl perform m).error = some .memoryException ∧
      (ops.foldl perform m).core.memory.blocks[0]? = some code := by
  intro code m ops
  have hops : ∀ op ∈ ops, op.Executes := by simp [ops, Operation.Executes]
  obtain ⟨_, hkept⟩ := execution_keeps_read_only m ops hops
  exact ⟨by decide +kernel, hkept 0 code rfl rfl⟩

end Machine
end AArch64
