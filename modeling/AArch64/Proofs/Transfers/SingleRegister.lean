import AArch64.Proofs.Memory.Ranges
import AArch64.Proofs.Transfers.Addressing

/-! A register that is stored and loaded again. The bytes in memory are the low bytes of the register, and the target
of the load gets them back in the way its word says, whatever the forms of the two addresses are. -/
namespace AArch64

namespace TransferKind

def isStore : TransferKind → Bool
  | store | storeVector => true
  | load | loadSigned _ | prefetch | loadVector => false

def isLoad : TransferKind → Bool
  | load | loadSigned _ | loadVector => true
  | store | prefetch | storeVector => false

/-- What a general register gets from the bytes that are loaded: zeros above them, or copies of their sign up to the
width of the operand. -/
def extend (kind : TransferKind) {n : Nat} (x : BitVec n) : BitVec 64 :=
  match kind with
  | loadSigned .w32 => (x.signExtend 32).setWidth 64
  | loadSigned .w64 => x.signExtend 64
  | load | store | prefetch | storeVector | loadVector => x.setWidth 64

end TransferKind

namespace State

/-- The low bytes of a register. General register 31 is zero. -/
def lowBytes (s : State) (vector : Bool) (n : Nat) (rt : Register) : BitVec (8 * n) :=
  if vector then (s.vector rt).setWidth (8 * n) else s.read (8 * n) rt

/-- What a load does to the registers. -/
def loaded (s : State) (kind : TransferKind) (rt : Register) {n : Nat} (x : BitVec n) : State :=
  if kind.isVector then s.setVector rt (x.setWidth 128) else s.write rt (kind.extend x)

end State

namespace Core

variable (c : Core)

theorem move_of_isStore {kind : TransferKind} (h : kind.isStore = true) (a : BitVec 64) (size : Nat) (rt : Register) :
    c.move kind a size rt = { c with memory := c.memory.write a size (c.state.lowBytes kind.isVector size rt) } := by
  cases kind with
  | store =>
    simp only [State.lowBytes, TransferKind.isVector, Bool.false_eq_true, if_false, ← c.state.setWidth_read (8 * size),
      Memory.write_setWidth]
    rfl
  | storeVector =>
    simp only [State.lowBytes, TransferKind.isVector, if_true, Memory.write_setWidth]
    rfl
  | load | loadSigned width | prefetch | loadVector => cases h

theorem move_of_isLoad {kind : TransferKind} (h : kind.isLoad = true) {a : BitVec 64} {size : Nat} (rt : Register)
    {x : BitVec (8 * size)} {m : Memory} (hr : c.memory.read a size = (x, m)) :
    c.move kind a size rt = { c with memory := m, state := c.state.loaded kind rt x } := by
  cases kind with
  | load => simp [move, Core.load, hr, State.loaded, TransferKind.isVector, TransferKind.extend, State.write]
  | loadSigned width =>
    cases width <;>
      simp [move, Core.load, hr, State.loaded, TransferKind.isVector, TransferKind.extend, State.write, Width.bits]
  | loadVector => simp [move, Core.load, hr, State.loaded, TransferKind.isVector]
  | store | prefetch | storeVector => cases h

end Core

theorem State.slot_loaded (s : State) (kind : TransferKind) (rt : Register) {n : Nat} (x : BitVec n) (q : Register) :
    (s.loaded kind rt x).slot q =
      if kind.isVector = false ∧ q = rt ∧ q ≠ Register.stackPointer then kind.extend x else s.slot q := by
  unfold loaded
  cases kind.isVector with
  | true => simp [setVector, slot]
  | false =>
    simp only [Bool.false_eq_true, if_false, slot_write, GeneralRegisters.isZero_zero, BitVec.setWidth_eq]
    grind

theorem State.vector_loaded (s : State) (kind : TransferKind) (rt : Register) {n : Nat} (x : BitVec n) (q : Register) :
    (s.loaded kind rt x).vector q = if kind.isVector = true ∧ q = rt then x.setWidth 128 else s.vector q := by
  unfold loaded
  cases kind.isVector with
  | true => simp
  | false => simp [write, vector]

namespace Machine

variable {m : Machine} {w : InstructionWord} {f : AddressForm} {kind : TransferKind} {size : Nat} {a : BitVec 64}

theorem execute_transfers (h : w.Transfers f kind size) {moved : Core}
    (hmove : m.core.move kind (f.address w size m.core) size w.rd = moved) (hserved : moved.memory.fault = none) :
    m.execute w = (.ok .ready, { m with core := moved.moveBase (f.movedBase? w m.core) }) := by
  obtain ⟨op, hd, hop⟩ := h.exists_op
  have hfrom : op.moveFrom (op.start m.core) m.core = moved := by rw [hop.moveFrom, hop.start, hmove]
  rw [m.execute_transfer hd, op.execute_of_no_fault hop.plain (by rwa [hfrom]), hfrom, hop.moved]

theorem execute_store (h : w.Transfers f kind size) (hkind : kind.isStore = true)
    (hpending : m.core.memory.fault = none) (hr : m.core.memory.WritableRange (f.address w size m.core) size) :
    let x := m.state.lowBytes kind.isVector size w.rd
    let stored : Core := { m.core with memory := m.core.memory.write (f.address w size m.core) size x }
    m.execute w = (.ok .ready, { m with core := stored.moveBase (f.movedBase? w m.core) }) := by
  intro x stored
  obtain ⟨i, offset, hresolve, hw⟩ := hr.exists_resolve
  exact execute_transfers h (m.core.move_of_isStore hkind _ size w.rd)
    ((Memory.fault_write hresolve hw x).trans hpending)

theorem execute_load (h : w.Transfers f kind size) (hkind : kind.isLoad = true) {x : BitVec (8 * size)}
    {memory : Memory} (hread : m.core.memory.read (f.address w size m.core) size = (x, memory)) (hfault : memory.fault = none) :
    let loaded : Core := { m.core with memory, state := m.state.loaded kind w.rd x }
    m.execute w = (.ok .ready, { m with core := loaded.moveBase (f.movedBase? w m.core) }) :=
  execute_transfers h (m.core.move_of_isLoad hkind w.rd hread) hfault

open FlatMemory (Covers)

/-- A store to a writable block puts the low bytes of its register into memory and changes no others. On any machine
that has this memory, a load of as many bytes from the same address gives them to its target, and changes no other
register than the base that its form moves. As general register 31 nothing is loaded. The overlap test lets two blocks
have the last address, and a store there may go to the other one. -/
theorem store_then_load (m n : Machine) {ws wl : InstructionWord} {fs fl : AddressForm} {ks kl : TransferKind}
    {size : Nat} {a : BitVec 64} {b : Block} (hstore : ws.Transfers fs ks size) (hload : wl.Transfers fl kl size)
    (hks : ks.isStore = true) (hkl : kl.isLoad = true) (hpending : m.core.memory.fault = none)
    (hadmitted : m.core.memory.Admitted) (hb : b ∈ m.core.memory.blocks) (hwritable : b.writable = true)
    (hcovers : Covers b.extent a size)
    (hlast : a = Block.lastAddress → ∀ c ∈ m.core.memory.blocks, c.Contains a → c = b)
    (hsa : fs.address ws size m.core = a) (hn : n.core.memory = (m.execute ws).2.core.memory)
    (hla : fl.address wl size n.core = a) :
    let x := m.state.lowBytes ks.isVector size ws.rd
    let s := n.state
    let t := (n.execute wl).2.state
    (m.execute ws).1 = .ok .ready ∧ m.core.memory.AgreeOutside a.toNat size (m.execute ws).2.core.memory ∧
      (n.execute wl).1 = .ok .ready ∧ (n.execute wl).2.core.memory = n.core.memory ∧
      (∀ q, t.slot q =
        if kl.isVector = false ∧ q = wl.rd ∧ q ≠ Register.stackPointer then kl.extend x
        else match fl.movedBase? wl n.core with
          | some (rn, y) => if q = rn then y else s.slot q
          | none => s.slot q) ∧
      ∀ q, t.vector q = if kl.isVector = true ∧ q = wl.rd then x.setWidth 128 else s.vector q := by
  intro x s t
  have hr : m.core.memory.WritableRange a size :=
    hadmitted.writableFrom hstore.moves.pos (Nat.le_refl size) hb hwritable hcovers hlast
  obtain ⟨i, offset, hresolve, hw⟩ := hr.exists_resolve
  have hfirst := execute_store hstore hks hpending (by rwa [hsa])
  simp only [hsa] at hfirst
  have hstored : (m.execute ws).2.core.memory = m.core.memory.write a size x := by
    rw [hfirst, Core.memory_moveBase]
  have hmemory : n.core.memory = m.core.memory.write a size x := hn.trans hstored
  have hread : n.core.memory.read (fl.address wl size n.core) size = (x, n.core.memory) := by
    rw [hla, hmemory, Memory.read_write hresolve hw, BitVec.setWidth_eq]
  have hfault : n.core.memory.fault = none := by rw [hmemory, Memory.fault_write hresolve hw, hpending]
  have hsecond := execute_load hload hkl hread hfault
  have ht : t = (({ n.core with state := s.loaded kl wl.rd x } : Core).moveBase (fl.movedBase? wl n.core)).state := by
    simp only [t, hsecond]
    rfl
  refine ⟨by rw [hfirst], ?_, by rw [hsecond], by rw [hsecond, Core.memory_moveBase], fun q => ?_, fun q => ?_⟩
  · rw [hstored]
    exact .write _ a size x
  · have hslot : ({ n.core with state := s.loaded kl wl.rd x } : Core).state.slot q =
        if kl.isVector = false ∧ q = wl.rd ∧ q ≠ Register.stackPointer then kl.extend x else s.slot q :=
      s.slot_loaded kl wl.rd x q
    rw [ht, Core.slot_moveBase, hslot]
    cases hbase : fl.movedBase? wl n.core with
    | none => rfl
    | some p =>
      have hapart := hload.apart hbase
      by_cases hq : q = p.1
      · subst hq
        grind
      · simp [hq]
  · rw [ht, Core.vector_moveBase]
    exact s.vector_loaded kl wl.rd x q

/-- `STRH W1, [SP, #-8]!` and then `LDRSH W2, [X4, W3, SXTW #1]` from the same address, with the index -1. The sign
goes up to bit 31 and no further. -/
theorem store_then_load_half :
    let strh : InstructionWord := 0x781F8FE1#32
    let ldrsh : InstructionWord := 0x78E3D882#32
    let s : State := ((((({} : State).setSp 0x1008#64).write 1#5 0xABCD8001#64).write 2#5 (-1#64)).write 3#5
      0xFFFFFFFF#64).write 4#5 0x1002#64
    let m : Machine := { core := { state := s, memory := { blocks := [Block.ofBytes 0x1000#64 2 true []] } } }
    let n := (m.execute strh).2
    strh.Transfers .preIndex .store 2 ∧ ldrsh.Transfers .register (.loadSigned .w32) 2 ∧ n.state.sp = 0x1000#64 ∧
      (n.execute ldrsh).1 = .ok .ready ∧ (n.execute ldrsh).2.state.slot 2#5 = 0xFFFF8001#64 := by
  intro strh ldrsh s m n
  have hdecode : (∃ i, Instruction.decode 0x781F8FE1#32 = .ok i) ∧ ∃ i, Instruction.decode 0x78E3D882#32 = .ok i :=
    ⟨⟨_, rfl⟩, _, rfl⟩
  have hstrh : strh.Transfers .preIndex .store 2 := ⟨by decide, ⟨by decide, by decide, by decide⟩, hdecode.1⟩
  have hldrsh : ldrsh.Transfers .register (.loadSigned .w32) 2 :=
    ⟨by decide, ⟨by decide, by decide, by decide, by decide⟩, hdecode.2⟩
  obtain ⟨-, -, hready, -, hslot, -⟩ :=
    m.store_then_load n (a := 0x1000#64) hstrh hldrsh rfl rfl rfl (List.pairwise_singleton _ _) List.mem_cons_self rfl
      (by decide) (fun ha => absurd ha (by decide)) (by decide +kernel) rfl (by decide +kernel)
  exact ⟨hstrh, hldrsh, by decide +kernel, hready, (hslot 2#5).trans (by decide +kernel)⟩

/-- `STRB W1, [X2]` to the last address, which a read-only block that was added first has as well. The byte lies in a
writable block, and the store faults. -/
theorem store_at_shared_last_address_faults :
    let strb : InstructionWord := 0x39000041#32
    let readOnly : Block := { base := 0xFFFFFFFFFFFFFFF0#64, len := 16, writable := false }
    let last : Block := { base := Block.lastAddress, len := 1, writable := true }
    let memory := ({} : Memory).addBlocks [readOnly, last]
    let m : Machine := { core := { state := ({} : State).write 2#5 Block.lastAddress, memory } }
    strb.Transfers .unsigned .store 1 ∧ memory.Admitted ∧ last ∈ memory.blocks ∧ last.writable = true ∧
      Covers last.extent Block.lastAddress 1 ∧ AddressForm.unsigned.address strb 1 m.core = Block.lastAddress ∧
      m.core.memory.fault = none ∧ (m.execute strb).1 = .error .memoryException := by
  intro strb readOnly last memory m
  let op : TransferOp := .single .store 1 1#5 2#5 .offset (.immediate 0#64)
  have hd : Instruction.decode 0x39000041#32 = .ok (.transfer op) := rfl
  have hfaults : (m.execute strb).1 = .error .memoryException := by
    obtain ⟨f, hf⟩ := Option.isSome_iff_exists.1 (show (op.execute m.core).2.isSome = true by decide +kernel)
    rw [m.execute_transfer hd]
    generalize op.execute m.core = result at hf
    obtain ⟨core, _⟩ := result
    cases hf
    rfl
  exact ⟨⟨by decide, ⟨by decide, by decide, by decide⟩, _, hd⟩, Memory.admitted_addBlocks _,
    List.mem_cons_of_mem _ (List.mem_singleton.2 rfl), rfl, by decide, by decide +kernel, rfl, hfaults⟩

end Machine
end AArch64
