import AArch64.Proofs.Memory.Flat
import AArch64.Proofs.Operations

/-! Machines that differ only in how their memories are stored. Whatever the host asks for, two of them give the same
answer and go on differing in nothing else, so the order of the blocks and the cache stay out of sight. -/
namespace AArch64

/-- Both hold the same array of bytes. -/
def Memory.Alike (m n : Memory) : Prop := ∃ f, m.Represents f ∧ n.Represents f

namespace Memory.Alike

variable {m n : Memory}

theorem read (h : m.Alike n) (a : BitVec 64) (k : Nat) :
    (m.read a k).1 = (n.read a k).1 ∧ (m.read a k).2.Alike (n.read a k).2 := by
  obtain ⟨f, hm, hn⟩ := h
  obtain ⟨hxm, hm'⟩ := hm.read a k
  obtain ⟨hxn, hn'⟩ := hn.read a k
  exact ⟨hxm.trans hxn.symm, _, hm', hn'⟩

theorem write (h : m.Alike n) (a : BitVec 64) {k : Nat} (hk : 0 < k) {w : Nat} (x : BitVec w) :
    (m.write a k x).Alike (n.write a k x) := by
  obtain ⟨f, hm, hn⟩ := h
  exact ⟨_, hm.write a hk x, hn.write a hk x⟩

theorem takeFault (h : m.Alike n) : m.takeFault.1 = n.takeFault.1 ∧ m.takeFault.2.Alike n.takeFault.2 := by
  obtain ⟨f, hm, hn⟩ := h
  exact ⟨hm.fault.trans hn.fault.symm, _, hm.takeFault.2, hn.takeFault.2⟩

theorem loadBlock (h : m.Alike n) (a : BitVec 64) (k : Nat) :
    (m.loadBlock a k).1 = (n.loadBlock a k).1 ∧ (m.loadBlock a k).2.Alike (n.loadBlock a k).2 := by
  obtain ⟨f, hm, hn⟩ := h
  obtain ⟨hxm, hm'⟩ := hm.loadBlock a k
  obtain ⟨hxn, hn'⟩ := hn.loadBlock a k
  exact ⟨hxm.trans hxn.symm, _, hm', hn'⟩

theorem storeBlock (h : m.Alike n) (a : BitVec 64) (xs : List (BitVec 8)) :
    (m.storeBlock a xs).1 = (n.storeBlock a xs).1 ∧ (m.storeBlock a xs).2.Alike (n.storeBlock a xs).2 := by
  obtain ⟨f, hm, hn⟩ := h
  obtain ⟨hxm, hm'⟩ := hm.storeBlock a xs
  obtain ⟨hxn, hn'⟩ := hn.storeBlock a xs
  exact ⟨hxm.trans hxn.symm, _, hm', hn'⟩

/-- Two memories that are alike take the same blocks. The block must not reach the last address, where the overlap
test would not see that two blocks share it. -/
theorem addBlock (h : m.Alike n) {b : Block} (hb : b.base.toNat + b.len < 2 ^ 64) :
    (∃ o, m.addBlock b = .error o ∧ n.addBlock b = .error o) ∨
      ∃ m' n', m.addBlock b = .ok m' ∧ n.addBlock b = .ok n' ∧ m'.Alike n' := by
  obtain ⟨f, hm, hn⟩ := h
  have hlayout : m.layout.Perm n.layout := hm.layout.trans hn.layout.symm
  have hany : n.blocks.any (·.overlaps b) = m.blocks.any (·.overlaps b) := by
    rw [any_overlaps_eq_layout, any_overlaps_eq_layout]
    exact hlayout.symm.any_eq
  cases hover : m.blocks.any (·.overlaps b) with
  | true => exact .inl ⟨_, if_pos hover, if_pos (hany.trans hover)⟩
  | false =>
    have hadd {k : Memory} (hk : k.Represents f) (hfree : k.blocks.any (·.overlaps b) = false) :
        ∃ k', k.addBlock b = .ok k' ∧ k'.Represents (f.addBlock b) := by
      have hapart : ∀ c ∈ k.blocks, c.overlaps b = false := by simpa using hfree
      have hok := addBlock_eq_ok_iff.2 ⟨hapart, rfl⟩
      refine ⟨_, hok, hk.addBlock hok fun c hc hshares => ?_⟩
      have hcb := Block.overlaps_iff.2 (.inl (hshares.belowLast hb))
      rw [hapart c hc] at hcb
      cases hcb
    obtain ⟨m', hm', hmf⟩ := hadd hm hover
    obtain ⟨n', hn', hnf⟩ := hadd hn (hany.trans hover)
    exact .inr ⟨m', n', hm', hn', _, hmf, hnf⟩

end Memory.Alike

structure Core.Alike (c d : Core) : Prop where
  state : c.state = d.state
  monitor : c.monitor = d.monitor
  memory : c.memory.Alike d.memory

/-- The same fault, if any, and cores that are alike. -/
structure Transferred.Alike (t u : Transferred) : Prop where
  core : t.1.Alike u.1
  fault : t.2 = u.2

theorem Transferred.Alike.andThen {t u : Transferred} {f g : Core → Transferred} (h : t.Alike u)
    (hfg : ∀ c d : Core, c.Alike d → (f c).Alike (g d)) : (t.andThen f).Alike (u.andThen g) := by
  unfold Transferred.andThen
  rw [h.fault]
  split
  · exact hfg t.1 u.1 h.core
  · exact h

namespace Core.Alike

variable {c d : Core}

theorem withState (h : c.Alike d) (s : State) : Core.Alike { c with state := s } { d with state := s } :=
  ⟨rfl, h.monitor, h.memory⟩

theorem withMonitor (h : c.Alike d) (x : Option (BitVec 64 × Nat)) :
    Core.Alike { c with monitor := x } { d with monitor := x } :=
  ⟨h.state, rfl, h.memory⟩

theorem done (h : c.Alike d) : Transferred.Alike (c, none) (d, none) := ⟨h, rfl⟩

theorem settle (h : c.Alike d) : c.settle.Alike d.settle := by
  obtain ⟨hfault, hmemory⟩ := h.memory.takeFault
  exact ⟨⟨h.state, h.monitor, hmemory⟩, hfault⟩

theorem load (h : c.Alike d) (a : BitVec 64) (size : Nat) (put : BitVec (8 * size) → State → State) :
    (c.load a size put).Alike (d.load a size put) := by
  obtain ⟨hword, hmemory⟩ := h.memory.read a size
  refine ⟨?_, h.monitor, hmemory⟩
  simp only [Core.load]
  rw [hword, h.state]

theorem store (h : c.Alike d) (a : BitVec 64) {size : Nat} (hsize : 0 < size) {n : Nat} (x : BitVec n) :
    (c.store a size x).Alike (d.store a size x) :=
  ⟨h.state, h.monitor, h.memory.write a hsize x⟩

theorem move (h : c.Alike d) (kind : TransferKind) (a : BitVec 64) {size : Nat} (hsize : 0 < size) (rt : Register) :
    (c.move kind a size rt).Alike (d.move kind a size rt) := by
  cases kind with
  | store | storeVector =>
    simp only [Core.move, h.state]
    exact h.store a hsize _
  | prefetch => exact h
  | load | loadSigned width | loadVector =>
    rw [Core.move, Core.move]
    exact h.load a size _

theorem transfer (h : c.Alike d) (kind : TransferKind) (a : BitVec 64) {size : Nat} (hsize : 0 < size)
    (rt : Register) : (c.transfer kind a size rt).Alike (d.transfer kind a size rt) :=
  (h.move kind a hsize rt).settle

theorem base_eq (h : c.Alike d) (rn : Register) : c.base rn = d.base rn := by
  simp only [Core.base, h.state]

theorem setBase (h : c.Alike d) (rn : Register) (x : BitVec 64) : (c.setBase rn x).Alike (d.setBase rn x) := by
  simp only [Core.setBase, h.state]
  exact h.withState _

theorem writeBack (h : c.Alike d) (indexing : Indexing) (rn : Register) (x : BitVec 64) :
    (c.writeBack indexing rn x).Alike (d.writeBack indexing rn x) := by
  unfold Core.writeBack
  split
  · exact h.setBase rn x
  · exact h

theorem moveLane (h : c.Alike d) (load : Bool) {ebytes : Nat} (hsize : 0 < ebytes) (a : BitVec 64) (rt : Register)
    (i : Nat) : (c.moveLane load ebytes a rt i).Alike (d.moveLane load ebytes a rt i) := by
  cases load with
  | true =>
    rw [Core.moveLane, Core.moveLane, if_pos rfl, if_pos rfl]
    exact h.load a ebytes _
  | false =>
    simp only [Core.moveLane, h.state]
    exact h.store a hsize _

theorem moveLanes (h : c.Alike d) (load : Bool) {ebytes : Nat} (hsize : 0 < ebytes) (lanes : List (Register × Nat))
    (a : BitVec 64) : (Core.moveLanes load ebytes lanes a c).Alike (Core.moveLanes load ebytes lanes a d) := by
  induction lanes generalizing a c d with
  | nil => exact h
  | cons t lanes ih => exact ih (h.moveLane load hsize a t.1 t.2) _

theorem loadReplicated (h : c.Alike d) (ebytes : Nat) (full : Bool) (rts : List Register) (a : BitVec 64) :
    (Core.loadReplicated ebytes full rts a c).Alike (Core.loadReplicated ebytes full rts a d) := by
  induction rts generalizing a c d with
  | nil => exact h
  | cons rt rts ih => exact ih (h.load a ebytes _) _

theorem halve (h : c.Alike d) (rts : List Register) : (c.halve rts).Alike (d.halve rts) := by
  simp only [Core.halve, h.state]
  exact h.withState _

theorem moveStructures (h : c.Alike d) (shape : StructureShape) (load : Bool) {ebytes : Nat} (hsize : 0 < ebytes)
    (rt : Register) (full : Bool) (a : BitVec 64) :
    (shape.move load ebytes rt full a c).Alike (shape.move load ebytes rt full a d) := by
  cases shape with
  | multiple repeats members elements =>
    have hlanes := h.moveLanes load hsize (interleaved rt repeats members elements) a
    simp only [StructureShape.move]
    split
    · exact hlanes.halve _
    · exact hlanes
  | lane members index => exact h.moveLanes load hsize _ a
  | replicated members => exact h.loadReplicated ebytes full _ a

theorem transferOp (h : c.Alike d) {op : TransferOp} (hop : op.Sized) : (op.execute c).Alike (op.execute d) := by
  cases op with
  | nothing => exact h.done
  | literal kind size rt offset =>
    simp only [TransferOp.execute, h.state]
    exact h.transfer kind _ hop rt
  | single kind size rt rn indexing offset =>
    simp only [TransferOp.execute, Core.transferSingle, h.state, h.base_eq]
    exact (h.transfer kind _ hop rt).andThen fun c d h => (h.writeBack indexing rn _).done
  | pair kind size rt rt2 rn indexing offset =>
    simp only [TransferOp.execute, Core.transferPair, h.base_eq]
    refine (h.transfer kind _ hop rt).andThen fun c d h => ?_
    exact (h.transfer kind _ hop rt2).andThen fun c d h => (h.writeBack indexing rn _).done
  | loadExclusive size rt rn =>
    simp only [TransferOp.execute, Core.loadExclusive, h.base_eq]
    exact (h.transfer .load _ hop rt).andThen fun c d h => (h.withMonitor _).done
  | storeExclusive size rs rt rn =>
    have hcleared := h.withMonitor none
    have hstatus (x : BitVec 32) (c d : Core) (h : c.Alike d) : Transferred.Alike
        ({ c with state := c.state.write rs x }, none) ({ d with state := d.state.write rs x }, none) := by
      rw [h.state]
      exact (h.withState _).done
    -- whether the store takes place is up to the monitor, which is the same in both
    simp only [TransferOp.execute, Core.storeExclusive, h.base_eq, h.monitor]
    split
    · exact (hcleared.transfer .store _ hop rt).andThen (hstatus 0#32)
    · exact hstatus 1#32 _ _ hcleared
  | structures load ebytes rt rn full shape advance =>
    simp only [TransferOp.execute, Core.transferStructures, h.base_eq]
    refine (h.moveStructures shape load hop rt full _).settle.andThen fun c d h => ?_
    cases advance with
    | none => exact h.done
    | bytesMoved =>
      simp only [h.base_eq]
      exact (h.setBase rn _).done
    | register rm =>
      simp only [h.base_eq, h.state]
      exact (h.setBase rn _).done

end Core.Alike

namespace Instruction

def Sized : Instruction → Prop
  | transfer op => op.Sized
  | _ => True

theorem sized_decode (w : InstructionWord) : Yields (decode w) Sized := by
  have htransfer : Yields ((TransferOp.decode w).map transfer) Sized := .map (TransferOp.sized_decode w)
  have hinteger (e : Except DecodeError IntegerInstruction) : Yields (e.map integer) Sized := .map fun _ _ => trivial
  have hcontrol (e : Except DecodeError ControlOp) : Yields (e.map control) Sized := .map fun _ _ => trivial
  have hsimd (e : Except DecodeError SimdInstruction) : Yields (e.map simd) Sized := .map fun _ _ => trivial
  unfold decode
  split
  next => exact hcontrol _
  next => exact .error _
  next => exact .error _
  next => exact .error _
  next => exact htransfer
  next => exact htransfer
  next => exact htransfer
  next => exact htransfer
  next => exact hinteger _
  next => exact hinteger _
  next => exact hinteger _
  next => exact hinteger _
  next => exact hcontrol _
  next => exact hcontrol _
  next => exact hsimd _

end Instruction

theorem Core.Alike.instruction {c d : Core} (h : c.Alike d) {i : Instruction} (hi : i.Sized) :
    (i.execute c).Alike (i.execute d) := by
  cases i with
  | integer i =>
    simp only [Instruction.execute, h.state]
    exact (h.withState _).done
  | simd i =>
    simp only [Instruction.execute, h.state]
    exact (h.withState _).done
  | transfer op => exact h.transferOp hi
  | control op =>
    cases op with
    | clearExclusive => exact (h.withMonitor none).done
    | _ =>
      simp only [Instruction.execute, h.state]
      exact (h.withState _).done

namespace Machine

def withMemory (m : Machine) (memory : Memory) : Machine := { m with core := { m.core with memory } }

structure Alike (m n : Machine) : Prop where
  core : m.core.Alike n.core
  settings : m.settings = n.settings
  status : m.status = n.status
  error : m.error = n.error
  instruction : m.instruction = n.instruction
  retired : m.retired = n.retired
  fault : m.fault = n.fault
  callout : m.callout = n.callout
  stackLimit : m.stackLimit = n.stackLimit

/-- The same result, and machines that are alike. -/
structure EndAlike {α : Type} (p q : α × Machine) : Prop where
  result : p.1 = q.1
  machine : p.2.Alike q.2

theorem EndAlike.exists_eq {α : Type} {p q : α × Machine} (h : EndAlike p q) :
    ∃ r m n, p = (r, m) ∧ q = (r, n) ∧ m.Alike n :=
  ⟨p.1, p.2, q.2, rfl, Prod.ext h.result.symm rfl, h.machine⟩

namespace Alike

variable {m n : Machine}

theorem state (h : m.Alike n) : m.state = n.state := h.core.state

theorem withState (h : m.Alike n) (s : State) : (m.withState s).Alike (n.withState s) :=
  { h with core := h.core.withState s }

theorem withMemory (h : m.Alike n) {μ ν : Memory} (hmemory : μ.Alike ν) : (m.withMemory μ).Alike (n.withMemory ν) :=
  { h with core := ⟨h.core.state, h.core.monitor, hmemory⟩ }

theorem stage (h : m.Alike n) : m.stage.Alike n.stage := by
  simp only [Machine.stage, h.state]
  exact h.withState _

theorem commit (h : m.Alike n) : m.commit.Alike n.commit := by
  simp only [Machine.commit, h.state]
  exact h.withState _

theorem stop (h : m.Alike n) (s : Status) : EndAlike (m.stop s) (n.stop s) :=
  ⟨rfl, { h with status := rfl }⟩

theorem fail (h : m.Alike n) (e : ErrorKind) : EndAlike (m.fail e) (n.fail e) :=
  ⟨rfl, { h with status := rfl, error := rfl }⟩

theorem checkStack (h : m.Alike n) : EndAlike m.checkStack n.checkStack := by
  have hbelow : m.belowLimit = n.belowLimit := by
    simp only [belowLimit, h.stackLimit, h.state]
  unfold Machine.checkStack
  rw [hbelow]
  split
  · exact h.fail .stackOverflow
  · exact ⟨h.status, h⟩

theorem execute (h : m.Alike n) (w : InstructionWord) : EndAlike (m.execute w) (n.execute w) := by
  cases hd : Instruction.decode w with
  | error e =>
    rw [m.execute_of_decode_error hd, n.execute_of_decode_error hd]
    exact ⟨rfl, h⟩
  | ok i =>
    have hi := h.core.instruction (Instruction.sized_decode w i hd)
    -- both outcomes are named before the case split on the fault, which is one and the same
    simp only [Machine.execute, hd]
    generalize i.execute m.core = t at hi ⊢
    generalize i.execute n.core = u at hi ⊢
    obtain ⟨c, fault⟩ := t
    obtain ⟨d, _⟩ := u
    obtain ⟨hcore, rfl⟩ := hi
    cases fault with
    | some f => exact ⟨rfl, { h with core := hcore, fault := rfl }⟩
    | none =>
      refine ⟨rfl, { h with core := hcore, callout := ?_ }⟩
      simp only [h.instruction, h.state, h.callout]

theorem finish {p q : Except ErrorKind Completion × Machine} (h : EndAlike p q) :
    EndAlike (Machine.finish p) (Machine.finish q) := by
  obtain ⟨r, m, n, rfl, rfl, hm⟩ := h.exists_eq
  match r with
  | .error e => exact hm.fail e
  | .ok .ready => exact hm.commit.checkStack
  | .ok .halt => exact hm.stop .halted
  | .ok .callout => exact hm.commit.stop .callout
  | .ok .breakpoint =>
    obtain ⟨status, m', n', hm', hn', hstack⟩ := hm.commit.checkStack.exists_eq
    simp only [Machine.finish, hm', hn']
    cases status <;> exact ⟨rfl, hstack⟩

theorem takeFault (h : m.Alike n) : EndAlike m.takeFault n.takeFault := by
  obtain ⟨hfault, hmemory⟩ := h.core.memory.takeFault
  simp only [Machine.takeFault, hfault]
  refine ⟨rfl, ?_⟩
  split
  · exact { h.withMemory hmemory with fault := rfl }
  · exact h.withMemory hmemory

theorem fetch (h : m.Alike n) : EndAlike m.fetch n.fetch := by
  obtain ⟨hword, hread⟩ := h.core.memory.read m.state.pc 4
  obtain ⟨fault, m', n', hm', hn', htaken⟩ := (h.withMemory hread).takeFault.exists_eq
  simp only [Machine.withMemory] at hm' hn'
  simp only [Machine.fetch, ← h.state, hword, hm', hn']
  cases fault <;> exact ⟨rfl, htaken⟩

theorem step (h : m.Alike n) : EndAlike m.step n.step := by
  obtain ⟨word, m', n', hm', hn', hfetch⟩ := h.fetch.exists_eq
  unfold Machine.step
  rw [← h.status, ← h.state, hm', hn']
  split
  next => exact ⟨rfl, h⟩
  next =>
    split
    next => exact h.stop .returned
    next =>
      cases word with
      | none => exact hfetch.fail .memoryException
      | some word =>
        have hfetched : Alike { m' with instruction := word, retired := m'.retired + 1 }
            { n' with instruction := word, retired := n'.retired + 1 } :=
          { hfetch with instruction := rfl, retired := congrArg (· + 1) hfetch.retired }
        exact finish (hfetched.stage.execute word)

theorem runFor (h : m.Alike n) (k : Nat) : EndAlike (Machine.runFor k m) (Machine.runFor k n) := by
  induction k generalizing m n with
  | zero => exact ⟨h.status, h⟩
  | succ k ih =>
    obtain ⟨status, m', n', hm', hn', hstep⟩ := h.step.exists_eq
    unfold Machine.runFor
    rw [hm', hn']
    cases status with
    | ready => exact ih hstep
    | returned | halted | breakpoint | callout | error => exact ⟨rfl, hstep⟩

theorem run (h : m.Alike n) : EndAlike m.run n.run := by
  have hbudget : m.budget = n.budget := by simp only [budget, h.settings, h.retired]
  unfold Machine.run
  rw [hbudget]
  exact h.runFor n.budget

theorem readMemory (h : m.Alike n) (a : BitVec 64) (k : Nat) : EndAlike (m.readMemory a k) (n.readMemory a k) := by
  obtain ⟨hbytes, hmemory⟩ := h.core.memory.loadBlock a k
  exact ⟨congrArg (Except.mapError fun _ => ErrorKind.memoryException) hbytes, h.withMemory hmemory⟩

theorem writeMemory (h : m.Alike n) (a : BitVec 64) (bytes : List (BitVec 8)) :
    EndAlike (m.writeMemory a bytes) (n.writeMemory a bytes) := by
  obtain ⟨hdone, hmemory⟩ := h.core.memory.storeBlock a bytes
  exact ⟨congrArg (Except.mapError fun _ => ErrorKind.memoryException) hdone, h.withMemory hmemory⟩

end Alike
end Machine
end AArch64
