import AArch64.Machine.Debugger
import AArch64.Machine.Run
import AArch64.Machine.Setup
import AArch64.Proofs.Execution

/-! The operations of a host, and what holds of every machine they lead to. Status, error, recorded fault and callout
always tell the same story, and no fault is left pending in the memory. -/
namespace AArch64

inductive Operation
  | load (segments : List Segment)
  | init (entry : BitVec 64) (start : Option (BitVec 64))
  | step
  | run
  | resume
  | readRegister (n : Nat) (buffer : List (BitVec 8))
  | writeRegister (n : Nat) (bytes : List (BitVec 8))
  | readMemory (a : BitVec 64) (n : Nat)
  | writeMemory (a : BitVec 64) (bytes : List (BitVec 8))

def Machine.perform (m : Machine) : Operation → Machine
  | .load segments => (load segments m).2
  | .init entry start => (m.init entry start).2
  | .step => m.step.2
  | .run => m.run.2
  | .resume => m.resume.toOption.getD m
  | .readRegister _ _ => m
  | .writeRegister n bytes => (m.writeRegister n bytes).toOption.getD m
  | .readMemory a n => (m.readMemory a n).2
  | .writeMemory a bytes => (m.writeMemory a bytes).2

def Machine.after (settings : Settings) (ops : List Operation) : Machine :=
  ops.foldl perform { settings }

/-- No fault waits to be taken, and the cache is as an access needs it. -/
structure Memory.Settled (m : Memory) : Prop where
  pending : m.fault = none
  cache : m.CacheInRange

namespace Memory.Settled

variable {m : Memory}

theorem empty : ({} : Memory).Settled := ⟨rfl, fun _ h => absurd h (Option.not_mem_none _)⟩

theorem addBlock (h : m.Settled) {b : Block} {n : Memory} (hn : m.addBlock b = .ok n) : n.Settled where
  pending := by
    obtain ⟨_, rfl⟩ := addBlock_eq_ok_iff.1 hn
    exact h.pending
  cache := cacheInRange_addBlock h.cache hn

theorem loadBlock (h : m.Settled) (a : BitVec 64) (n : Nat) : (m.loadBlock a n).2.Settled where
  pending := by
    unfold Memory.loadBlock
    split <;> exact h.pending
  cache := m.cacheInRange_loadBlock h.cache a n

theorem storeBlock (h : m.Settled) (a : BitVec 64) (xs : List (BitVec 8)) : (m.storeBlock a xs).2.Settled where
  pending := by
    unfold Memory.storeBlock
    split <;> exact h.pending
  cache := m.cacheInRange_storeBlock h.cache a xs

end Memory.Settled

namespace Core

variable {c : Core}

/-- An access that has been settled leaves no fault behind. -/
theorem pending_andThen {t : Transferred} {f : Core → Transferred} (ht : t.1.memory.fault = none)
    (hf : ∀ d : Core, d.memory.fault = none → (f d).1.memory.fault = none) :
    (t.andThen f).1.memory.fault = none := by
  unfold Transferred.andThen
  split
  · exact hf t.1 ht
  · exact ht

theorem pending_writeBack (h : c.memory.fault = none) (indexing : Indexing) (rn : Register) (x : BitVec 64) :
    (c.writeBack indexing rn x).memory.fault = none := by
  unfold writeBack
  split <;> exact h

end Core

theorem TransferOp.pending_execute {op : TransferOp} {c : Core} (h : c.memory.fault = none) :
    (op.execute c).1.memory.fault = none := by
  cases op with
  | nothing => exact h
  | literal kind size rt offset => rfl
  | single kind size rt rn indexing offset =>
    exact Core.pending_andThen rfl fun d hd => Core.pending_writeBack hd indexing rn _
  | pair kind size rt rt2 rn indexing offset =>
    refine Core.pending_andThen rfl fun d _ => Core.pending_andThen rfl fun e he => ?_
    exact Core.pending_writeBack he indexing rn _
  | loadExclusive size rt rn => exact Core.pending_andThen rfl fun d hd => hd
  | storeExclusive size rs rt rn =>
    simp only [execute, Core.storeExclusive]
    split
    · exact Core.pending_andThen rfl fun d hd => hd
    · exact h
  | structures load ebytes rt rn full shape advance =>
    refine Core.pending_andThen rfl fun d hd => ?_
    cases advance <;> exact hd

theorem Instruction.pending_execute {i : Instruction} {c : Core} (h : c.memory.fault = none) :
    (i.execute c).1.memory.fault = none := by
  cases i with
  | transfer op => exact TransferOp.pending_execute h
  | integer i => exact h
  | simd i => exact h
  | control op => cases op <;> exact h

theorem Instruction.settled_execute {i : Instruction} {c : Core} (h : c.memory.Settled) :
    (i.execute c).1.memory.Settled where
  pending := Instruction.pending_execute h.pending
  cache := (i.agree_execute c).accesses.cacheInRange h.cache

namespace Machine

theorem pending_execute {m : Machine} (h : m.core.memory.fault = none) (w : InstructionWord) :
    (m.execute w).2.core.memory.fault = none := by
  cases hd : Instruction.decode w with
  | error e =>
    rw [m.execute_of_decode_error hd]
    exact h
  | ok i =>
    rw [m.core_execute hd]
    exact Instruction.pending_execute h

theorem settled_execute {m : Machine} (h : m.core.memory.Settled) (w : InstructionWord) :
    (m.execute w).2.core.memory.Settled :=
  ⟨pending_execute h.pending w, cacheInRange_execute h.cache w⟩

/-- What a host can rely on between two operations. -/
structure Consistent (m : Machine) : Prop where
  status : m.status ≠ .breakpoint
  callout : m.status = .callout ↔ m.callout.isSome = true
  error : m.status = .error ↔ m.error.isSome = true
  fault : m.error = some .memoryException ↔ m.fault.isSome = true
  client : m.error ≠ some .clientError
  memory : m.core.memory.Settled

structure Running (m : Machine) : Prop where
  status : m.status = .ready
  callout : m.callout = none
  error : m.error = none
  fault : m.fault = none
  memory : m.core.memory.Settled

variable {m : Machine}

theorem Running.consistent (h : m.Running) : m.Consistent := by
  constructor <;> simp [h.status, h.callout, h.error, h.fault, h.memory]

theorem Consistent.running (h : m.Consistent) (hready : m.status = .ready) : m.Running where
  status := hready
  callout := by simpa [hready] using h.callout
  error := by simpa [hready] using h.error
  fault := by
    have herror : m.error = none := by simpa [hready] using h.error
    simpa [herror] using h.fault
  memory := h.memory

theorem Running.commit (h : m.Running) : m.commit.Running :=
  ⟨h.status, h.callout, h.error, h.fault, h.memory⟩

theorem Running.fail (h : m.Running) {e : ErrorKind} (hclient : e ≠ .clientError) (hmemory : e ≠ .memoryException) :
    (m.fail e).2.Consistent := by
  constructor <;> simp [Machine.fail, h.callout, h.fault, h.memory, hclient, hmemory]

/-- A memory exception goes with its fault. -/
theorem Running.failMemory (h : m.Running) {core : Core} (hcore : core.memory.Settled) (f : Fault) :
    ({ m with core, fault := some f } : Machine).fail .memoryException |>.2.Consistent := by
  constructor <;> simp [Machine.fail, h.callout, hcore]

theorem Running.checkStack (h : m.Running) : m.checkStack.2.Consistent := by
  unfold Machine.checkStack
  split
  · exact h.fail (by decide) (by decide)
  · exact h.consistent

theorem Running.stop (h : m.Running) {s : Status} (hs : s = .returned ∨ s = .halted) : (m.stop s).2.Consistent := by
  constructor <;> rcases hs with rfl | rfl <;> simp [Machine.stop, h.callout, h.error, h.fault, h.memory]

/-- The stack check decides what a breakpoint is reported as, not what becomes of the machine. -/
theorem machine_finish_breakpoint (m : Machine) : (finish (.ok .breakpoint, m)).2 = m.commit.checkStack.2 := by
  simp only [finish]
  generalize m.commit.checkStack = r
  obtain ⟨status, n⟩ := r
  cases status <;> rfl

theorem Running.finish_breakpoint (h : m.Running) : (finish (.ok .breakpoint, m)).2.Consistent := by
  rw [machine_finish_breakpoint]
  exact h.commit.checkStack

theorem Running.finish_callout (h : m.Running) {core : Core} (hcore : core.memory.Settled) (c : Callout) :
    (finish (.ok .callout, { m with core, callout := some c })).2.Consistent := by
  constructor <;> simp [finish, Machine.commit, Machine.withState, Machine.stop, h.error, h.fault, hcore]

theorem completion_eq_callout {i : Instruction} : i.completion = .callout ↔ i.callout?.isSome = true := by
  cases i with
  | control op => cases op <;> simp [Instruction.completion, Instruction.callout?]
  | integer i => simp [Instruction.completion, Instruction.callout?]
  | transfer op => simp [Instruction.completion, Instruction.callout?]
  | simd i => simp [Instruction.completion, Instruction.callout?]

theorem Running.finish_execute (h : m.Running) (w : InstructionWord) : (finish (m.execute w)).2.Consistent := by
  cases hd : Instruction.decode w with
  | error e =>
    rw [m.execute_of_decode_error hd]
    exact h.fail (by cases e <;> decide) (by cases e <;> decide)
  | ok i =>
    have hsettled := Instruction.settled_execute (i := i) h.memory
    simp only [execute, hd]
    generalize i.execute m.core = r at hsettled ⊢
    obtain ⟨core, _ | fault⟩ := r
    case some => exact h.failMemory hsettled fault
    case none =>
      cases hcall : i.callout? with
      | some kind =>
        rw [completion_eq_callout.2 (by simp [hcall])]
        exact h.finish_callout hsettled _
      | none =>
        have hn : ({ m with core } : Machine).Running := ⟨h.status, h.callout, h.error, h.fault, hsettled⟩
        cases hc : i.completion with
        | ready => exact hn.commit.checkStack
        | halt => exact hn.stop (.inr rfl)
        | breakpoint => exact hn.finish_breakpoint
        | callout => simp [completion_eq_callout, hcall] at hc

/-- A fetch moves the cache, or ends in a fault that is taken at once. -/
theorem Running.fetch (h : m.Running) :
    (m.fetch.1.isSome = true → m.fetch.2.Running) ∧
      (m.fetch.1 = none → (m.fetch.2.fail .memoryException).2.Consistent) := by
  have hcache := Memory.cacheInRange_read m.core.memory h.memory.cache m.state.pc 4
  simp only [Machine.fetch, Machine.takeFault, Memory.takeFault]
  generalize m.core.memory.read m.state.pc 4 = r at hcache ⊢
  obtain ⟨word, memory⟩ := r
  have hsettled : ({ memory with fault := none } : Memory).Settled := ⟨rfl, hcache⟩
  cases hf : memory.fault with
  | none => exact ⟨fun _ => ⟨h.status, h.callout, h.error, h.fault, hsettled⟩, nofun⟩
  | some fault => exact ⟨nofun, fun _ => h.failMemory hsettled fault⟩

theorem Consistent.step (h : m.Consistent) : m.step.2.Consistent := by
  unfold Machine.step
  split
  next => exact h
  next hready =>
    have hrun := h.running (Decidable.not_not.1 hready)
    split
    next => exact hrun.stop (.inl rfl)
    next =>
      obtain ⟨hsome, hnone⟩ := hrun.fetch
      split
      next n hf =>
        rw [hf] at hnone
        exact hnone rfl
      next word n hf =>
        rw [hf] at hsome
        have hn := hsome rfl
        have hstaged : ({ n with instruction := word, retired := n.retired + 1 } : Machine).stage.Running :=
          ⟨hn.status, hn.callout, hn.error, hn.fault, hn.memory⟩
        exact hstaged.finish_execute word

theorem Consistent.runFor (n : Nat) (h : m.Consistent) : (runFor n m).2.Consistent := by
  induction n generalizing m with
  | zero => exact h
  | succ n ih =>
    have hstep := h.step
    unfold Machine.runFor
    split
    next _ hnext =>
      rw [hnext] at hstep
      exact ih hstep
    next => exact hstep

theorem Consistent.withMemory (h : m.Consistent) {memory : Memory} (hmemory : memory.Settled) :
    ({ m with core := { m.core with memory } } : Machine).Consistent :=
  ⟨h.status, h.callout, h.error, h.fault, h.client, hmemory⟩

theorem addBlock_eq {b : Block} {n : Machine} (h : m.addBlock b = .ok n) :
    ∃ memory, n = { m with core := { m.core with memory } } := by
  unfold addBlock at h
  split at h
  next memory _ => exact ⟨memory, (Except.ok.inj h).symm⟩
  next => cases h

theorem loadSegment_eq {s : Segment} {n : Machine} (h : m.loadSegment s = .ok n) :
    ∃ memory, n = { m with core := { m.core with memory } } := by
  unfold loadSegment at h
  split at h
  · exact ⟨m.core.memory, (Except.ok.inj h).symm⟩
  · split at h
    · cases h
    · exact addBlock_eq h

theorem load_eq (segments : List Segment) (m : Machine) :
    ∃ memory, (load segments m).2 = { m with core := { m.core with memory } } := by
  induction segments generalizing m with
  | nil => exact ⟨m.core.memory, rfl⟩
  | cons s segments ih =>
    unfold load
    split
    next n hn =>
      obtain ⟨first, rfl⟩ := loadSegment_eq hn
      obtain ⟨memory, hmemory⟩ := ih { m with core := { m.core with memory := first } }
      exact ⟨memory, hmemory⟩
    next => exact ⟨m.core.memory, rfl⟩

theorem settled_addBlock (h : m.core.memory.Settled) {b : Block} {n : Machine} (hn : m.addBlock b = .ok n) :
    n.core.memory.Settled := by
  unfold Machine.addBlock at hn
  split at hn
  next memory hmemory =>
    cases hn
    exact h.addBlock hmemory
  next => cases hn

theorem settled_loadSegment (h : m.core.memory.Settled) {s : Segment} {n : Machine} (hn : m.loadSegment s = .ok n) :
    n.core.memory.Settled := by
  unfold Machine.loadSegment at hn
  split at hn
  · cases hn
    exact h
  · split at hn
    · cases hn
    · exact settled_addBlock h hn

theorem settled_load (segments : List Segment) (h : m.core.memory.Settled) :
    (load segments m).2.core.memory.Settled := by
  induction segments generalizing m with
  | nil => exact h
  | cons s segments ih =>
    unfold Machine.load
    split
    next n hn => exact ih (settled_loadSegment h hn)
    next => exact h

theorem settled_init (h : m.core.memory.Settled) (entry : BitVec 64) (start : Option (BitVec 64)) :
    (m.init entry start).2.core.memory.Settled := by
  unfold Machine.init
  simp only
  split
  · exact h
  · split
    next => exact h
    next n hn =>
      have hsettled : n.core.memory.Settled := settled_addBlock h hn
      exact hsettled

theorem Consistent.load (segments : List Segment) (h : m.Consistent) : (load segments m).2.Consistent := by
  have hsettled := settled_load segments h.memory
  obtain ⟨memory, hmemory⟩ := load_eq segments m
  rw [hmemory] at hsettled ⊢
  exact h.withMemory hsettled

theorem Consistent.init (h : m.Consistent) (entry : BitVec 64) (start : Option (BitVec 64)) :
    (m.init entry start).2.Consistent := by
  unfold Machine.init
  simp only
  split
  · exact h
  · split
    next => exact h
    next n hn =>
      have hsettled : n.core.memory.Settled := settled_addBlock h.memory hn
      constructor <;> simp [hsettled]

theorem Consistent.perform (h : m.Consistent) (op : Operation) : (m.perform op).Consistent := by
  cases op with
  | load segments => exact h.load segments
  | init entry start => exact h.init entry start
  | step => exact h.step
  | run => exact h.runFor m.budget
  | resume =>
    simp only [Machine.perform, Machine.resume]
    split
    next hcallout =>
      have herror : m.error = none := by simpa [hcallout] using h.error
      have hfault := h.fault
      constructor <;> simp_all [Except.toOption, h.memory]
    next => exact h
  | readRegister n buffer => exact h
  | writeRegister n bytes =>
    simp only [Machine.perform, Machine.writeRegister]
    split
    · exact ⟨h.status, h.callout, h.error, h.fault, h.client, h.memory⟩
    · exact h
  | readMemory a n => exact h.withMemory (h.memory.loadBlock a n)
  | writeMemory a bytes => exact h.withMemory (h.memory.storeBlock a bytes)

theorem consistent_after (settings : Settings) (ops : List Operation) : (after settings ops).Consistent := by
  have hrun (m : Machine) (h : m.Consistent) : (ops.foldl Machine.perform m).Consistent := by
    induction ops generalizing m with
    | nil => exact h
    | cons op ops ih => exact ih _ (h.perform op)
  exact hrun { settings } (by constructor <;> simp [Memory.Settled.empty])

/-- Setting up fails and does nothing, or it starts the machine anew above its heap. -/
theorem init_cases (m : Machine) (entry : BitVec 64) (start : Option (BitVec 64)) :
    (∃ e, m.init entry start = (.error e, m)) ∨
      ∃ memory, (m.heapStart start).toNat < m.settings.stackTop.toNat ∧ m.init entry start = (.ok (),
        { m with
          core := { m.core with state := m.entryState entry, memory }
          status := .ready
          error := none
          callout := none
          fault := none
          retired := 0
          stackLimit := some (m.heapStart start) }) := by
  unfold init
  simp only
  split
  next => exact .inl ⟨_, rfl⟩
  next hlt =>
    split
    next e _ => exact .inl ⟨_, rfl⟩
    next n hn =>
      obtain ⟨memory, rfl⟩ := addBlock_eq hn
      exact .inr ⟨memory, Nat.lt_of_not_le hlt, rfl⟩

/-- What is left of a machine by everything that a host does itself, without letting it execute. -/
structure KeptByHost (m n : Machine) : Prop where
  settings : n.settings = m.settings
  monitor : n.core.monitor = m.core.monitor
  /-- Setting up counts anew. -/
  retired : n.retired = m.retired ∨ n.retired = 0

theorem keptByHost_perform (m : Machine) {op : Operation} (hstep : op ≠ .step) (hrun : op ≠ .run) :
    KeptByHost m (m.perform op) := by
  cases op with
  | step => exact absurd rfl hstep
  | run => exact absurd rfl hrun
  | load segments =>
    obtain ⟨memory, hmemory⟩ := load_eq segments m
    rw [perform, hmemory]
    exact ⟨rfl, rfl, .inl rfl⟩
  | init entry start =>
    obtain ⟨e, he⟩ | ⟨memory, _, hok⟩ := m.init_cases entry start
    · rw [perform, he]
      exact ⟨rfl, rfl, .inl rfl⟩
    · rw [perform, hok]
      exact ⟨rfl, rfl, .inr rfl⟩
  | resume =>
    simp only [perform, resume]
    split <;> exact ⟨rfl, rfl, .inl rfl⟩
  | writeRegister k bytes =>
    simp only [perform, writeRegister]
    split <;> exact ⟨rfl, rfl, .inl rfl⟩
  | readRegister | readMemory | writeMemory => exact ⟨rfl, rfl, .inl rfl⟩

theorem step_of_stopped (h : m.status ≠ .ready) : m.step = (m.status, m) := if_pos h

theorem runFor_of_stopped (h : m.status ≠ .ready) (n : Nat) : runFor n m = (m.status, m) := by
  cases n with
  | zero => rfl
  | succ n =>
    unfold runFor
    rw [step_of_stopped h]
    cases hs : m.status <;> simp_all

theorem resume_of_not_callout (h : m.status ≠ .callout) : m.resume = .error .clientError := if_neg h

/-- The invariant holds after any operations, and a machine that has returned, halted or failed stays as it is. -/
theorem after_consistent_and_stopped (settings : Settings) (ops : List Operation) :
    (after settings ops).Consistent ∧
      ((after settings ops).status ∈ [.returned, .halted, .error] → ∀ op ∈ [Operation.step, .run, .resume],
        (after settings ops).perform op = after settings ops) := by
  refine ⟨consistent_after settings ops, fun hstopped op hop => ?_⟩
  generalize after settings ops = m at hstopped ⊢
  simp only [List.mem_cons, List.not_mem_nil, or_false] at hstopped hop
  have hready : m.status ≠ .ready := by rcases hstopped with h | h | h <;> simp [h]
  have hcallout : m.status ≠ .callout := by rcases hstopped with h | h | h <;> simp [h]
  rcases hop with rfl | rfl | rfl
  · simp [perform, step_of_stopped hready]
  · simp [perform, run, runFor_of_stopped hready]
  · simp [perform, resume_of_not_callout hcallout, Except.toOption]

end Machine
end AArch64
