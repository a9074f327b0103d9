import AArch64.State

/-! Slots of the register files. A slot holds one value whatever role an operand gives it: slot 31 is where the
stack pointer lives, and a write through the role that reads as zero is dropped. -/
namespace AArch64

namespace Register

theorem index_inj {q r : Register} : q.index = r.index ↔ q = r := by
  constructor
  · intro h
    apply BitVec.eq_of_toNat_eq
    exact congrArg Fin.val h
  · rintro rfl
    rfl

@[simp] theorem get_store {α : Type} (q r : Register) (slots : Vector α 32) (x : α) :
    (r.store slots x).get q.index = if q = r then x else slots.get q.index := by
  change (slots.set r.index x r.index.isLt)[q.index.val] = if q = r then x else slots[q.index.val]
  rw [Vector.getElem_set]
  by_cases h : q = r
  · simp [h]
  · have hi : r.index.val ≠ q.index.val := fun hv => h (index_inj.1 (Fin.ext hv.symm))
    simp [h, hi]

end Register

namespace GeneralRegisters

def slot (g : GeneralRegisters) (r : Register) : BitVec 64 := g.get r .stackPointer

@[simp] theorem isZero_stackPointer (r : Register) : isZero r .stackPointer = false := by
  simp [isZero]

@[simp] theorem isZero_zero (r : Register) : isZero r .zero = decide (r = Register.stackPointer) := by
  by_cases h : r = Register.stackPointer <;> simp [isZero, h]

theorem get_eq_slot (g : GeneralRegisters) (r : Register) (role : Role) :
    g.get r role = if isZero r role then 0#64 else g.slot r := by
  simp [get, slot]

theorem slot_set (g : GeneralRegisters) (q r : Register) (role : Role) (x : BitVec 64) :
    (g.set r role x).slot q = if q = r ∧ isZero r role = false then x else g.slot q := by
  cases h : isZero r role with
  | true => simp [set, h]
  | false => simp [set, h, slot, get]

end GeneralRegisters

namespace State

variable (s : State)

def slot (r : Register) : BitVec 64 := s.registers.slot r

theorem slot_write {n : Nat} (q r : Register) (x : BitVec n) (role : Role) :
    (s.write r x role).slot q =
      if q = r ∧ GeneralRegisters.isZero r role = false then x.setWidth 64 else s.slot q :=
  GeneralRegisters.slot_set ..

theorem read_write {n k : Nat} (q r : Register) (x : BitVec k) (role role' : Role) :
    (s.write r x role).read n q role' =
      if q = r ∧ GeneralRegisters.isZero r role = false ∧ GeneralRegisters.isZero q role' = false then
        (x.setWidth 64).setWidth n
      else s.read n q role' := by
  simp only [read, write, GeneralRegisters.get_eq_slot, GeneralRegisters.slot_set]
  grind

@[simp] theorem vector_setVector (q r : Register) (x : BitVec 128) :
    (s.setVector r x).vector q = if q = r then x else s.vector q := by
  simp [setVector, vector, VectorRegisters.get, VectorRegisters.set]

end State
end AArch64
