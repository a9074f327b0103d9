import AArch64.Proofs.Decoding.Instruction
import AArch64.Proofs.Registers

/-! Executing any word on any machine: the word alone decides how it can end, and only the parts that its group owns can
change. -/
namespace AArch64.Machine

theorem outcome_of_toOption {x : Except ErrorKind Completion} {c : Completion} (h : x.toOption = some c) :
    x = .ok c := by
  cases x with
  | error e => cases h
  | ok d => exact congrArg Except.ok (Option.some.inj h)

/-- A word without an instruction is reported and nothing else happens. A word with one ends as that instruction
does, or in a memory exception. -/
theorem execute_cases (m : Machine) (w : InstructionWord) :
    (∃ e, Instruction.decode w = .error e ∧ m.execute w = (.error e.kind, m)) ∨
      ∃ i, Instruction.decode w = .ok i ∧
        ((m.execute w).1 = .ok i.completion ∨ (m.execute w).1 = .error .memoryException) := by
  cases hd : Instruction.decode w with
  | error e => exact .inl ⟨e, rfl, m.execute_of_decode_error hd⟩
  | ok i =>
    refine .inr ⟨i, rfl, ?_⟩
    rw [m.outcome_execute hd]
    cases (i.execute m.core).2 with
    | none => exact .inl rfl
    | some fault => exact .inr rfl

theorem execute_integer {w : InstructionWord} {i : IntegerInstruction} (m : Machine)
    (hd : Instruction.decode w = .ok (.integer i)) : m.execute w = (.ok .ready, m.withState (i.execute m.state)) := by
  simp only [execute, hd, Instruction.execute]
  rfl

theorem execute_simd {w : InstructionWord} {j : SimdInstruction} (m : Machine) (hgroup : w.number 27 25 = 0b111)
    (hj : SimdInstruction.decode w = .ok j) :
    (m.execute w).1 = .ok .ready ∧ (m.execute w).2.state = j.execute m.state := by
  have hd : Instruction.decode w = .ok (.simd j) := by rw [Instruction.decode_of_simd hgroup, hj]; rfl
  exact ⟨m.outcome_execute hd, congrArg Core.state (m.core_execute hd)⟩

theorem exists_simd_of_execute {w : InstructionWord} {m : Machine} {c : Completion} (hgroup : w.number 27 25 = 0b111)
    (hok : (m.execute w).1 = .ok c) : ∃ j, SimdInstruction.decode w = .ok j := by
  obtain ⟨e, _, he⟩ | ⟨i, hd, _⟩ := m.execute_cases w
  · rw [he] at hok
    cases hok
  · obtain ⟨j, hj, _⟩ := Instruction.exists_simd_of_decode hgroup hd
    exact ⟨j, hj⟩

theorem execute_ne_stackOverflow (m : Machine) (w : InstructionWord) :
    (m.execute w).1 ≠ .error .stackOverflow := by
  obtain ⟨e, _, he⟩ | ⟨i, _, hok | hmemory⟩ := m.execute_cases w
  · rw [he]
    cases e <;> nofun
  · rw [hok]
    nofun
  · rw [hmemory]
    nofun

theorem agree_footprint (m : Machine) (w : InstructionWord) : AgreeOutside w.footprint m (m.execute w).2 := by
  cases hd : Instruction.decode w with
  | error e =>
    rw [m.execute_of_decode_error hd]
    exact .refl _ m
  | ok i => exact (m.agree_execute hd).mono (Instruction.yields_decode w i hd)

theorem cacheInRange_execute {m : Machine} (h : m.core.memory.CacheInRange) (w : InstructionWord) :
    (m.execute w).2.core.memory.CacheInRange :=
  (m.agree_footprint w).core.accesses.cacheInRange h

/-- Outside the footprint of its group a word changes nothing, whatever it ends in. The program counter is in no
footprint, and memory only in that of the loads and stores. -/
theorem execute_footprint (m : Machine) (w : InstructionWord) :
    AgreeOutside w.footprint m (m.execute w).2 ∧ (m.execute w).2.state.pc = m.state.pc ∧
      (m.execute w).2.core.memory.layout = m.core.memory.layout ∧
      (KeyTable.topLevel.key w ∉ [4, 6, 12, 14] → (m.execute w).2.core.memory = m.core.memory) := by
  have hagree := m.agree_footprint w
  refine ⟨hagree, hagree.core.state.pc, hagree.core.accesses.layout, fun hkey => hagree.core.memory ?_⟩
  simp only [List.mem_cons, List.not_mem_nil, or_false, not_or] at hkey
  unfold InstructionWord.footprint
  split <;> simp_all [InstructionWord.integerFootprint, InstructionWord.controlFootprint,
    InstructionWord.simdFootprint, Footprint.register]

end AArch64.Machine

namespace AArch64.InstructionWord

/-- On every machine in such a state the word completes, puts `r` into its destination and does nothing else. -/
def Puts {n : Nat} (w : InstructionWord) (P : State → Prop) (r : BitVec n) : Prop :=
  ∀ m : Machine, P m.state → m.execute w = (.ok .ready, m.withState (m.state.write w.rd r))

theorem puts_of_integer {w : InstructionWord} {width : Width} {op : IntegerOp} {P : State → Prop}
    {r : BitVec width.bits} (hd : Instruction.decode w = .ok (.integer { width, rd := w.rd, op }))
    (hr : ∀ s, P s → op.eval s w.rd width.bits = { value := some r }) : w.Puts P r := by
  intro m hm
  rw [m.execute_integer hd, IntegerInstruction.execute, hr _ hm]
  rfl

theorem Puts.slot {n : Nat} {w : InstructionWord} {P : State → Prop} {r : BitVec n} (h : w.Puts P r) {m : Machine}
    (hm : P m.state) (hrd : w.rd ≠ Register.stackPointer) : (m.execute w).2.state.slot w.rd = r.setWidth 64 := by
  rw [h m hm]
  exact (m.state.slot_write ..).trans (if_pos ⟨rfl, by simp [GeneralRegisters.isZero, hrd]⟩)

end AArch64.InstructionWord
