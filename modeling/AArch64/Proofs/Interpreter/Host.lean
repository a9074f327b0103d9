import AArch64.Interpreter.Host
import AArch64.Proofs.Interpreter.Execute
import AArch64.Proofs.ReadOnly
import AArch64.Proofs.Stepping

/-! An interpreter and the machine behind its words go the same way, whatever their host does with them. All that it takes
is a memory without a pending fault and with a block behind its cache, and these last. -/
namespace AArch64

namespace Memory

variable {m : Memory}

theorem loadBlock?_eq (h : m.CacheInRange) (a : BitVec 64) (n : Nat) : m.loadBlock? a n = some (m.loadBlock a n) := by
  simp only [loadBlock?, resolve?_eq h, Option.bind_eq_bind, Option.bind_some, loadBlock]
  cases hit : m.resolve a n with
  | none => rfl
  | some found =>
    obtain ⟨i, offset⟩ := found
    obtain ⟨b, hb, hle⟩ := m.exists_room_of_resolve hit
    have hbytes : b.bytes? offset n = some (b.load offset n) := if_pos hle
    simp only [hb, Option.bind_some, hbytes, bytesAt]

theorem storeBlock?_eq (h : m.CacheInRange) (a : BitVec 64) (xs : List (BitVec 8)) :
    m.storeBlock? a xs = some (m.storeBlock a xs) := by
  simp only [storeBlock?, resolve?_eq h, Option.bind_eq_bind, Option.bind_some, storeBlock]
  cases hit : m.resolve a xs.length with
  | none => rfl
  | some found =>
    obtain ⟨i, offset⟩ := found
    obtain ⟨b, hb, hle⟩ := m.exists_room_of_resolve hit
    have hstore : b.store? offset xs = some (b.store offset xs) := if_pos hle
    simp only [hb, Option.bind_some, hstore]
    rw [storeAt, ← modify_blocks hb]
    rfl

end Memory

theorem DebugRegister.getWord_raw (r : DebugRegister) (s : State) : r.getWord s.raw = r.get s := by
  cases r with
  | general r => exact (BitVec.setWidth_eq _).symm
  | vectorLow | pc | nzcv | fpsr => rfl

theorem DebugRegister.setWord_raw (r : DebugRegister) (x : BitVec 64) (s : State) :
    r.setWord x s.raw = (r.set x s).raw := by
  cases r with
  | general r => simp only [setWord, set, State.write, State.raw, BitVec.setWidth_eq]
  | nzcv => simp only [setWord, set, State.raw, NzcvWord.ofBits_eq_word]
  | fpsr => simp only [setWord, set, State.raw, FpsrWord.ofBits_eq_word]
  | vectorLow | pc => rfl

namespace Attempt

variable {m : Machine}

theorem checkMemory_of_none (h : m.core.memory.fault = none) : checkMemory m.raw = some (.ok (), m.raw) := by
  have hmemory : m.raw.memory.fault = none := h
  have htaken : { m.raw.memory with fault := none } = m.raw.memory := by rw [← hmemory]
  simp only [checkMemory, Memory.takeFault, hmemory, htaken]

end Attempt

namespace Interpreter

variable {m : Machine}

theorem checkStack_raw (m : Machine) : m.raw.checkStack = (m.checkStack.1, m.checkStack.2.raw) := by
  unfold checkStack Machine.checkStack
  have hlimit : m.raw.belowLimit = m.belowLimit := rfl
  rw [hlimit]
  split <;> rfl

theorem finish_raw (r : Except ErrorKind Completion) (m : Machine) :
    finish (r, m.raw) = ((Machine.finish (r, m)).1, (Machine.finish (r, m)).2.raw) := by
  match r with
  | .ok .ready => exact checkStack_raw m.commit
  | .ok .breakpoint =>
    have hcheck := checkStack_raw m.commit
    simp only [finish, Machine.finish]
    rw [show m.raw.commit = m.commit.raw from rfl, hcheck]
    obtain ⟨status, n⟩ := m.commit.checkStack
    cases status <;> rfl
  | .ok .callout | .ok .halt | .error _ => rfl

theorem cycle_of_fault (h : m.core.memory.Settled) {f : Fault} (hf : m.fetchMemory.fault = some f) :
    cycle m.raw = some (.error .memoryException, (m.unfetched f).raw) := by
  refine Attempt.bind_raw Attempt.readPc_raw <| Attempt.bind_raw (Attempt.readMemory_raw h.cache _ _) ?_
  have hread : (m.core.memory.read m.state.pc 4).2.fault = some f := hf
  simp only [Attempt.bind_apply, Attempt.checkMemory, Memory.takeFault, Machine.raw, Machine.withCore, hread]
  rfl

theorem cycle_of_no_fault (h : m.core.memory.Settled) (hf : m.fetchMemory.fault = none) :
    cycle m.raw = some ((m.fetched.execute m.nextWord).1, (m.fetched.execute m.nextWord).2.raw) := by
  have hsettled : m.fetched.core.memory.Settled := ⟨hf, Memory.cacheInRange_read _ h.cache _ _⟩
  have hpending := (Machine.settled_execute hsettled m.nextWord).pending
  refine Attempt.bind_raw Attempt.readPc_raw <| Attempt.bind_raw (Attempt.readMemory_raw h.cache _ _) <|
    Attempt.bind_raw (Attempt.checkMemory_of_none hf) ?_
  have hexecute : Attempt.execute m.nextWord m.fetched.raw = _ := Attempt.execute_eq hsettled.cache
  show Attempt.andThen (Attempt.execute m.nextWord m.fetched.raw) _ = _
  rw [hexecute]
  cases hr : (m.fetched.execute m.nextWord).1 with
  | error e => rfl
  | ok c => exact Attempt.bind_raw (Attempt.checkMemory_of_none hpending) rfl

theorem step_raw (h : m.core.memory.Settled) : m.raw.step = some (m.step.1, m.step.2.raw) := by
  have hstatus : m.raw.status = m.status := rfl
  have hpc : m.raw.state.pc = m.state.pc := rfl
  unfold step Machine.step
  rw [hstatus, hpc]
  split
  · rfl
  split
  · rfl
  cases hf : m.fetchMemory.fault with
  | some f =>
    rw [cycle_of_fault h hf, m.fetch_of_fault hf]
    rfl
  | none =>
    rw [cycle_of_no_fault h hf, m.fetch_of_no_fault hf]
    exact congrArg some (finish_raw _ _)

theorem settled_step (h : m.core.memory.Settled) : m.step.2.core.memory.Settled where
  pending := by
    have hstepped := m.stepped
    generalize m.step = r at hstepped ⊢
    cases hstepped with
    | idle | returned => exact h.pending
    | unfetched => rfl
    | executed hfetches hf =>
      rw [Machine.memory_finish]
      exact Machine.pending_execute hf _
  cache := m.accesses_step.cacheInRange h.cache

theorem runFor_raw (n : Nat) (h : m.core.memory.Settled) :
    runFor n m.raw = some ((Machine.runFor n m).1, (Machine.runFor n m).2.raw) ∧
      (Machine.runFor n m).2.core.memory.Settled := by
  induction n generalizing m with
  | zero => exact ⟨rfl, h⟩
  | succ n ih =>
    have hstep := settled_step h
    unfold runFor Machine.runFor
    rw [step_raw h]
    generalize m.step = r at hstep
    obtain ⟨status, m'⟩ := r
    cases status with
    | ready => exact ih hstep
    | returned | halted | breakpoint | callout | error => exact ⟨rfl, hstep⟩

theorem addBlock_raw (m : Machine) (b : Block) : m.raw.addBlock b = (m.addBlock b).map Machine.raw := by
  have hmemory : m.raw.memory = m.core.memory := rfl
  unfold addBlock Machine.addBlock
  rw [hmemory]
  cases m.core.memory.addBlock b <;> rfl

theorem loadSegment_raw (m : Machine) (s : Segment) : m.raw.loadSegment s = (m.loadSegment s).map Machine.raw := by
  unfold loadSegment Machine.loadSegment
  split
  · rfl
  split
  · rfl
  · exact addBlock_raw m _

theorem load_raw (segments : List Segment) (m : Machine) :
    load segments m.raw = ((Machine.load segments m).1, (Machine.load segments m).2.raw) := by
  induction segments generalizing m with
  | nil => rfl
  | cons s segments ih =>
    unfold load Machine.load
    rw [loadSegment_raw]
    cases m.loadSegment s with
    | error e => rfl
    | ok n => exact ih n

theorem init_raw (m : Machine) (entry : BitVec 64) (start : Option (BitVec 64)) :
    m.raw.init entry start = ((m.init entry start).1, (m.init entry start).2.raw) := by
  have hheap : m.raw.heapStart start = m.heapStart start := rfl
  have hsettings : m.raw.settings = m.settings := rfl
  have hentry : m.raw.entryState entry = (m.entryState entry).raw := by
    simp only [entryState, Machine.entryState, State.setSp, State.write, State.raw, BitVec.setWidth_eq]
    rfl
  unfold init Machine.init
  rw [hheap, hsettings]
  dsimp only
  split
  · rfl
  rw [addBlock_raw, hentry]
  cases m.addBlock _ <;> rfl

theorem resume_raw (m : Machine) : m.raw.resume = m.resume.map Machine.raw := by
  have hstatus : m.raw.status = m.status := rfl
  unfold resume Machine.resume
  rw [hstatus]
  split <;> rfl

theorem readRegister_raw (m : Machine) (n : Nat) (buffer : List (BitVec 8)) :
    m.raw.readRegister n buffer = m.readRegister n buffer := by
  have hget (r : DebugRegister) : r.getWord m.raw.state = r.get m.state := r.getWord_raw m.state
  unfold readRegister Machine.readRegister
  cases DebugRegister.fitting? n buffer.length with
  | none => rfl
  | some r =>
    dsimp only
    rw [hget]

theorem writeRegister_raw (m : Machine) (n : Nat) (bytes : List (BitVec 8)) :
    m.raw.writeRegister n bytes = (m.writeRegister n bytes).map Machine.raw := by
  have hset (r : DebugRegister) (x : BitVec 64) : r.setWord x m.raw.state = (r.set x m.state).raw :=
    r.setWord_raw x m.state
  simp only [writeRegister, Machine.writeRegister, hset]
  cases DebugRegister.fitting? n bytes.length <;> rfl

theorem readMemory_raw (h : m.core.memory.CacheInRange) (a : BitVec 64) (n : Nat) :
    m.raw.readMemory a n = some ((m.readMemory a n).1, (m.readMemory a n).2.raw) := by
  have hload : m.raw.memory.loadBlock? a n = some (m.core.memory.loadBlock a n) := Memory.loadBlock?_eq h a n
  rw [readMemory, hload]
  rfl

theorem writeMemory_raw (h : m.core.memory.CacheInRange) (a : BitVec 64) (bytes : List (BitVec 8)) :
    m.raw.writeMemory a bytes = some ((m.writeMemory a bytes).1, (m.writeMemory a bytes).2.raw) := by
  have hstore : m.raw.memory.storeBlock? a bytes = some (m.core.memory.storeBlock a bytes) :=
    Memory.storeBlock?_eq h a bytes
  rw [writeMemory, hstore]
  rfl

end Interpreter

/-- What happens to an interpreter: an operation of its host, or a word that is executed where it stands. -/
inductive Action
  | operation (op : Operation)
  | word (w : InstructionWord)

def Machine.act (m : Machine) : Action → Machine
  | .operation op => m.perform op
  | .word w => (m.execute w).2

namespace Interpreter

variable {m : Machine}

def perform (i : Interpreter) : Operation → Option Interpreter
  | .load segments => some (load segments i).2
  | .init entry start => some (i.init entry start).2
  | .step => i.step.map Prod.snd
  | .run => i.run.map Prod.snd
  | .resume => some (i.resume.toOption.getD i)
  | .readRegister _ _ => some i
  | .writeRegister n bytes => some ((i.writeRegister n bytes).toOption.getD i)
  | .readMemory a n => (i.readMemory a n).map Prod.snd
  | .writeMemory a bytes => (i.writeMemory a bytes).map Prod.snd

def act (i : Interpreter) : Action → Option Interpreter
  | .operation op => i.perform op
  | .word w => (Attempt.execute w i).map Prod.snd

/-- A fresh interpreter after some actions. -/
def after (settings : Settings) (actions : List Action) : Option Interpreter :=
  actions.foldlM act { settings }

theorem perform_raw (h : m.core.memory.Settled) (op : Operation) :
    m.raw.perform op = some (m.perform op).raw ∧ (m.perform op).core.memory.Settled := by
  cases op with
  | load segments =>
    exact ⟨congrArg (some <| Prod.snd ·) (load_raw segments m), Machine.settled_load segments h⟩
  | init entry start =>
    exact ⟨congrArg (some <| Prod.snd ·) (init_raw m entry start), Machine.settled_init h entry start⟩
  | step => exact ⟨congrArg (Option.map Prod.snd) (step_raw h), settled_step h⟩
  | run =>
    obtain ⟨hrun, hsettled⟩ := runFor_raw m.budget h
    exact ⟨congrArg (Option.map Prod.snd) hrun, hsettled⟩
  | resume =>
    simp only [perform, Machine.perform, resume_raw, Machine.resume]
    split <;> exact ⟨rfl, h⟩
  | readRegister n buffer => exact ⟨rfl, h⟩
  | writeRegister n bytes =>
    simp only [perform, Machine.perform, writeRegister_raw, Machine.writeRegister]
    split <;> exact ⟨rfl, h⟩
  | readMemory a n => exact ⟨congrArg (Option.map Prod.snd) (readMemory_raw h.cache a n), h.loadBlock a n⟩
  | writeMemory a bytes =>
    exact ⟨congrArg (Option.map Prod.snd) (writeMemory_raw h.cache a bytes), h.storeBlock a bytes⟩

theorem act_raw (h : m.core.memory.Settled) (action : Action) :
    m.raw.act action = some (m.act action).raw ∧ (m.act action).core.memory.Settled := by
  cases action with
  | operation op => exact perform_raw h op
  | word w => exact ⟨congrArg (Option.map Prod.snd) (Attempt.execute_eq h.cache), Machine.settled_execute h w⟩

/-- An interpreter gets through any history, and its words are those of the machine with the same history. -/
theorem after_eq (settings : Settings) (actions : List Action) :
    after settings actions = some (actions.foldl Machine.act { settings }).raw := by
  have hrun (m : Machine) (h : m.core.memory.Settled) :
      actions.foldlM act m.raw = some (actions.foldl Machine.act m).raw := by
    induction actions generalizing m with
    | nil => rfl
    | cons action actions ih =>
      obtain ⟨hact, hsettled⟩ := act_raw h action
      rw [List.foldlM_cons, hact, List.foldl_cons]
      exact ih _ hsettled
  have hnzcv : ({} : Nzcv).word = {} := NzcvWord.ext (by decide)
  have hfpsr : ({} : Fpsr).word = {} := FpsrWord.ext (by decide)
  have hfresh : ({ settings } : Interpreter) = ({ settings } : Machine).raw := by
    simp only [Machine.raw, Machine.state, State.raw, hnzcv, hfpsr]
  rw [after, hfresh]
  exact hrun { settings } .empty

end Interpreter
end AArch64
