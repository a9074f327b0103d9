import AArch64.Proofs.Execution

/-! A load or store as two halves: the registers are moved to or from memory from one address on, and the base register
goes where the form takes it. The second half happens exactly if the first one has left no fault. -/
namespace AArch64

namespace Memory

variable {m : Memory} {f : Fault}

theorem fault_read_of_fault (h : m.fault = some f) (a : BitVec 64) (n : Nat) : (m.read a n).2.fault = some f := by
  unfold read
  split
  · exact h
  · simp [record, h]

theorem fault_write_of_fault (h : m.fault = some f) (a : BitVec 64) (n : Nat) {k : Nat} (x : BitVec k) :
    (m.write a n x).fault = some f := by
  unfold write
  split
  · split
    · exact h
    · simp [record, activate, h]
  · simp [record, h]

theorem takeFault_of_none (h : m.fault = none) : m.takeFault = (none, m) := by
  obtain ⟨blocks, active, fault⟩ := m
  cases h
  rfl

end Memory

theorem State.AgreeOutside.read {f : Footprint} {s t : State} (h : State.AgreeOutside f s t) {r : Register}
    (hr : f.general r = false) (n : Nat) (role : Role) : t.read n r role = s.read n r role := by
  have hslot : t.registers.slot r = s.registers.slot r := h.general r hr
  simp only [State.read, GeneralRegisters.get_eq_slot, hslot]

namespace Core

variable {c : Core}

theorem settle_of_none (h : c.memory.fault = none) : c.settle = (c, none) := by
  rw [settle, Memory.takeFault_of_none h]

theorem snd_settle (c : Core) : c.settle.2 = c.memory.fault := rfl

theorem fault_move_of_fault {f : Fault} (h : c.memory.fault = some f) (kind : TransferKind) (a : BitVec 64) (size : Nat)
    (rt : Register) : (c.move kind a size rt).memory.fault = some f := by
  cases kind with
  | store | storeVector => exact Memory.fault_write_of_fault h a size _
  | load | loadSigned width | loadVector => exact Memory.fault_read_of_fault h a size
  | prefetch => exact h

theorem base_stackPointer (c : Core) : c.base Register.stackPointer = c.state.sp := BitVec.setWidth_eq _

/-- Puts the base register where a form takes it. -/
def moveBase (c : Core) : Option (Register × BitVec 64) → Core
  | none => c
  | some (rn, x) => c.setBase rn x

@[simp] theorem memory_moveBase (c : Core) (x : Option (Register × BitVec 64)) : (c.moveBase x).memory = c.memory := by
  cases x <;> rfl

@[simp] theorem vector_moveBase (c : Core) (x : Option (Register × BitVec 64)) (q : Register) :
    (c.moveBase x).state.vector q = c.state.vector q := by
  cases x <;> rfl

/-- The stack pointer is moved in its slot like every other base. -/
theorem slot_moveBase (c : Core) (x : Option (Register × BitVec 64)) (q : Register) : (c.moveBase x).state.slot q =
    match x with
    | some (rn, y) => if q = rn then y else c.state.slot q
    | none => c.state.slot q := by
  cases x with
  | none => rfl
  | some p => simp [moveBase, setBase, State.slot_write]

@[simp] theorem base_setBase (c : Core) (rn : Register) (x : BitVec 64) : (c.setBase rn x).base rn = x := by
  simp [base, setBase, State.read_write]

end Core

/-- The elements of a register fill all of it, or its lower half. -/
theorem elements_mul_bytes (full : Bool) {scale : Nat} (hscale : scale < 4) :
    (if full then 16 else 8) / 2 ^ scale * 2 ^ scale = if full then 16 else 8 := by
  have height : 2 ^ scale ∣ 8 := Nat.pow_dvd_pow 2 (Nat.le_of_lt_succ hscale)
  refine Nat.div_mul_cancel ?_
  split
  · exact Nat.dvd_trans height (by decide)
  · exact height

namespace TransferOp

/-- The registers of an instruction moved to or from memory, from an address on. -/
def moveFrom (op : TransferOp) (a : BitVec 64) (c : Core) : Core :=
  match op with
  | literal kind size rt _ | single kind size rt _ _ _ => c.move kind a size rt
  | pair kind size rt rt2 _ _ _ => (c.move kind a size rt).move kind (a + BitVec.ofNat 64 size) size rt2
  | structures load ebytes rt _ full shape _ => shape.move load ebytes rt full a c
  | nothing | loadExclusive _ _ _ | storeExclusive _ _ _ _ => c

/-- The address that an instruction starts from. -/
def start (op : TransferOp) (c : Core) : BitVec 64 :=
  match op with
  | literal _ _ _ offset => c.state.pc + offset
  | single _ _ _ rn indexing offset => Core.indexed indexing (c.base rn) (offset.value c.state)
  | pair _ _ _ _ rn indexing offset => Core.indexed indexing (c.base rn) offset
  | loadExclusive _ _ rn | storeExclusive _ _ _ rn | structures _ _ _ rn _ _ _ => c.base rn
  | nothing => 0#64

/-- The base register that an instruction moves, and where it moves it. -/
def movedBase? (op : TransferOp) (c : Core) : Option (Register × BitVec 64) :=
  match op with
  | single _ _ _ rn indexing offset =>
    if indexing.writesBack then some (rn, c.base rn + offset.value c.state) else none
  | pair _ _ _ _ rn indexing offset => if indexing.writesBack then some (rn, c.base rn + offset) else none
  | structures _ ebytes _ rn _ shape advance =>
    match advance with
    | .none => none
    | .bytesMoved => some (rn, c.base rn + BitVec.ofNat 64 (shape.bytesMoved ebytes))
    | .register rm => some (rn, c.base rn + c.state.read 64 rm)
  | nothing | literal _ _ _ _ | loadExclusive _ _ _ | storeExclusive _ _ _ _ => none

/-- Instructions that only move registers, their base among them. -/
def Plain : TransferOp → Prop
  | literal _ _ _ _ | single _ _ _ _ _ _ | pair _ _ _ _ _ _ _ | structures _ _ _ _ _ _ _ => True
  | nothing | loadExclusive _ _ _ | storeExclusive _ _ _ _ => False

variable {op : TransferOp} {c : Core}

theorem moveBase_writeBack (c : Core) (indexing : Indexing) (rn : Register) (x : BitVec 64) :
    c.moveBase (if indexing.writesBack then some (rn, x) else none) = c.writeBack indexing rn x := by
  rw [Core.writeBack]
  split <;> rfl

theorem execute_of_no_fault (hop : op.Plain) (h : (op.moveFrom (op.start c) c).memory.fault = none) :
    op.execute c = ((op.moveFrom (op.start c) c).moveBase (op.movedBase? c), none) := by
  cases op with
  | nothing | loadExclusive | storeExclusive => exact hop.elim
  | literal kind size rt offset => exact Core.settle_of_none h
  | single kind size rt rn indexing offset =>
    simp only [moveFrom, start, movedBase?] at h ⊢
    rw [moveBase_writeBack, execute, Core.transferSingle, Core.transfer, Core.settle_of_none h]
    rfl
  | pair kind size rt rt2 rn indexing offset =>
    simp only [moveFrom, start, movedBase?] at h ⊢
    -- a fault of the first half would still be there
    have hfirst : (c.move kind (Core.indexed indexing (c.base rn) offset) size rt).memory.fault = none := by
      refine Option.eq_none_iff_forall_ne_some.2 fun f hf => ?_
      rw [Core.fault_move_of_fault hf] at h
      cases h
    rw [moveBase_writeBack, execute, Core.transferPair, Core.transfer, Core.settle_of_none hfirst]
    simp only [Transferred.andThen]
    rw [Core.transfer, Core.settle_of_none h]
  | structures load ebytes rt rn full shape advance =>
    simp only [moveFrom, start, movedBase?] at h ⊢
    have hagree := shape.agree_move
      (f := { memory := true, vectors := fun _ => true }) load ebytes rt full (c.base rn) c rfl fun _ _ _ => rfl
    rw [execute, Core.transferStructures, Core.settle_of_none h]
    generalize shape.move load ebytes rt full (c.base rn) c = d at hagree
    have hread (r : Register) (role : Role) : d.state.read 64 r role = c.state.read 64 r role :=
      hagree.state.read rfl 64 role
    cases advance with
    | none => rfl
    | bytesMoved => simp only [Transferred.andThen, Core.moveBase, Core.base, hread]
    | register rm => simp only [Transferred.andThen, Core.moveBase, Core.base, hread]

/-- The first fault of the accesses is the one that is reported. -/
theorem execute_of_fault (hop : op.Plain) {f : Fault} (h : (op.moveFrom (op.start c) c).memory.fault = some f) :
    (op.execute c).2 = some f := by
  cases op with
  | nothing | loadExclusive | storeExclusive => exact hop.elim
  | literal kind size rt offset => exact h
  | single kind size rt rn indexing offset =>
    simp only [moveFrom, start] at h
    simp only [execute, Core.transferSingle, Transferred.andThen, Core.transfer, Core.snd_settle, h]
  | pair kind size rt rt2 rn indexing offset =>
    simp only [moveFrom, start] at h
    cases hfirst : (c.move kind (Core.indexed indexing (c.base rn) offset) size rt).memory.fault with
    | some g =>
      rw [Core.fault_move_of_fault hfirst] at h
      cases h
      simp only [execute, Core.transferPair, Transferred.andThen, Core.transfer, Core.snd_settle, hfirst]
    | none =>
      simp only [execute, Core.transferPair, Transferred.andThen, Core.transfer, Core.settle_of_none hfirst,
        Core.snd_settle, h]
  | structures load ebytes rt rn full shape advance =>
    simp only [moveFrom, start] at h
    simp only [execute, Core.transferStructures, Transferred.andThen, Core.snd_settle, h]

end TransferOp

/-- How a load or store ends, by the fault it has left. -/
theorem Machine.execute_transfer {w : InstructionWord} {op : TransferOp} (m : Machine)
    (hd : Instruction.decode w = .ok (.transfer op)) :
    m.execute w =
      match op.execute m.core with
      | (core, none) => (.ok .ready, { m with core })
      | (core, some fault) => (.error .memoryException, { m with core, fault := some fault }) := by
  simp only [execute, hd, Instruction.execute]
  obtain ⟨core, _ | fault⟩ := op.execute m.core <;> rfl

end AArch64
