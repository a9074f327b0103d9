import AArch64.Interpreter.Attempt
import AArch64.Proofs.Integers.Masked
import AArch64.Proofs.StatusWords

/-! Attempts on the interpreter of a machine. Each step of an executor, started from the words that stand for the state of
a machine, ends at those of another one. -/
namespace AArch64

theorem Register.ofNat?_toNat (r : Register) : ofNat? r.toNat = some r := by
  simp [ofNat?, r.isLt]

namespace Machine

variable (m : Machine)

@[simp] theorem state_withState (s : State) : (m.withState s).state = s := rfl

@[simp] theorem withState_withState (s t : State) : (m.withState s).withState t = m.withState t := rfl

@[simp] theorem memory_withState (s : State) : (m.withState s).core.memory = m.core.memory := rfl

@[simp] theorem monitor_withState (s : State) : (m.withState s).core.monitor = m.core.monitor := rfl

/-- What comes of a decoded instruction, or of a word that has none. -/
def executeDecoded (d : Except DecodeError Instruction) : Except ErrorKind Completion × Machine :=
  match d with
  | .error e => (.error e.kind, m)
  | .ok i =>
    match i.execute m.core with
    | (core, some fault) => (.error .memoryException, { m with core, fault := some fault })
    | (core, none) =>
      let callout := match i.callout? with
        | some kind => some { kind, instruction := m.instruction, pc := m.state.pc }
        | none => m.callout
      (.ok i.completion, { m with core, callout })

theorem execute_eq_executeDecoded (w : InstructionWord) : m.execute w = m.executeDecoded (Instruction.decode w) := rfl

end Machine

namespace Attempt

variable {α β ι : Type} {m : Machine}

@[simp] theorem andThen_ok (a : α) (i : Interpreter) (f : α → Attempt β) : andThen (some (.ok a, i)) f = f a i := rfl

@[simp] theorem andThen_error (e : ErrorKind) (i : Interpreter) (f : α → Attempt β) :
    andThen (some (.error e, i)) f = some (.error e, i) := rfl

@[simp] theorem pure_apply (a : α) (i : Interpreter) : (pure a : Attempt α) i = some (.ok a, i) := rfl

@[simp] theorem bind_apply (x : Attempt α) (f : α → Attempt β) (i : Interpreter) :
    (x >>= f) i = andThen (x i) f := rfl

@[simp] theorem fail_apply (e : ErrorKind) (i : Interpreter) : (fail e : Attempt α) i = some (.error e, i) := rfl

@[simp] theorem unallocated_apply (i : Interpreter) :
    (unallocated : Attempt α) i = some (.error .unallocatedInstruction, i) := rfl

@[simp] theorem notYetImplemented_apply (i : Interpreter) :
    (notYetImplemented : Attempt α) i = some (.error .notYetImplemented, i) := rfl

@[simp] theorem unallocatedIf_true : unallocatedIf true = unallocated := rfl

@[simp] theorem unallocatedIf_false : unallocatedIf false = pure () := rfl

@[simp] theorem checked_some (a : α) : checked (some a) = pure a := rfl

theorem checked_raw {x : Option α} {a : α} (h : x = some a) : checked x m.raw = some (.ok a, m.raw) := by
  rw [h]
  rfl

theorem signExtended?_setWidth {n : Nat} (x : BitVec n) (hpos : 0 < n) (hn : n ≤ 64) :
    Masked.signExtended? (x.setWidth 64) n = some (x.signExtend 64) := by
  rw [Masked.signExtended?_eq _ hpos hn, Bits.signExtendFrom, BitVec.setWidth_setWidth_of_le _ hn, BitVec.setWidth_eq]

theorem setWidth_signExtend {n k : Nat} (x : BitVec n) (h : k ≤ 64) : (x.signExtend 64).setWidth k = x.signExtend k := by
  apply BitVec.eq_of_getLsbD_eq
  intro i hi
  have hi64 : i < 64 := Nat.lt_of_lt_of_le hi h
  rw [BitVec.getLsbD_setWidth, BitVec.getLsbD_signExtend, BitVec.getLsbD_signExtend]
  simp [hi, hi64]

theorem signedField_raw {w : InstructionWord} {hi lo : Nat} (h : hi - lo < 64) :
    signedField w hi lo m.raw = some (.ok (w.offset hi lo), m.raw) :=
  checked_raw (signExtended?_setWidth _ (Nat.succ_pos _) h)

@[simp] theorem readX_raw (n : Nat) (r : Register) (role : Role) :
    readX n r.toNat role m.raw = some (.ok (m.state.read n r role), m.raw) := by
  rw [readX, Register.ofNat?_toNat]
  rfl

@[simp] theorem writeX_raw {n : Nat} (r : Register) (x : BitVec n) (role : Role) :
    writeX r.toNat x role m.raw = some (.ok (), (m.withState (m.state.write r x role)).raw) := by
  rw [writeX, Register.ofNat?_toNat]
  rfl

@[simp] theorem readV_raw (r : Register) : readV r.toNat m.raw = some (.ok (m.state.vector r), m.raw) := by
  rw [readV, Register.ofNat?_toNat]
  rfl

@[simp] theorem writeV_raw (r : Register) (x : BitVec 128) :
    writeV r.toNat x m.raw = some (.ok (), (m.withState (m.state.setVector r x)).raw) := by
  rw [writeV, Register.ofNat?_toNat]
  rfl

@[simp] theorem readPc_raw : readPc m.raw = some (.ok m.state.pc, m.raw) := rfl

@[simp] theorem writeNextPc_raw (x : BitVec 64) :
    writeNextPc x m.raw = some (.ok (), (m.withState { m.state with nextPc := x }).raw) := rfl

@[simp] theorem holds_raw (c : Condition) : holds c m.raw = some (.ok (c.holds m.state.nzcv), m.raw) := by
  have hview : m.raw.state.nzcv.view = m.state.nzcv := m.state.nzcv.view_word
  simp [holds, get, hview]

/-- A step leaves a machine to the rest. -/
theorem bind_raw {x : Attempt α} {f : α → Attempt β} {a : α} {m' : Machine}
    {r : Option (Except ErrorKind β × Interpreter)} (hx : x m.raw = some (.ok a, m'.raw)) (hf : f a m'.raw = r) :
    (x >>= f) m.raw = r := by
  rw [bind_apply, hx, andThen_ok, hf]

theorem modifyState_raw {f : RawState → RawState} {s : State} (h : f m.state.raw = s.raw) :
    modifyState f m.raw = some (.ok (), (m.withState s).raw) := by
  have hstate : f m.raw.state = s.raw := h
  rw [modifyState, modify, hstate]
  rfl

theorem setFlags_raw (f : Nzcv) : setFlags f.word m.raw = some (.ok (), (m.withState (m.state.setFlags f)).raw) := rfl

@[simp] theorem setNzcv_raw (f : Nzcv) : setNzcv f m.raw = some (.ok (), (m.withState (m.state.setFlags f)).raw) := by
  rw [setNzcv, NzcvWord.ofFlags_eq_word]
  rfl

@[simp] theorem raise_raw (f : Fpsr) : raise f m.raw = some (.ok (), (m.withState (m.state.raise f)).raw) := by
  refine modifyState_raw ?_
  simp only [State.raw, FpsrWord.raise_word]
  rfl

def CarriesOut (m : Machine) (kind : ι → Instruction) (d : Except DecodeError ι) (x : Attempt Completion) : Prop :=
  x m.raw = some ((m.executeDecoded (d.map kind)).1, (m.executeDecoded (d.map kind)).2.raw)

namespace CarriesOut

variable {kind : ι → Instruction} {d d' : Except DecodeError ι} {c : Bool} {x y : Attempt Completion} {a : Attempt α}
  {f : α → Attempt Completion} {v : α}

theorem unallocated : CarriesOut m kind (.error .unallocated) unallocated := rfl

theorem notYetImplemented : CarriesOut m kind (.error .notYetImplemented) notYetImplemented := rfl

theorem error (e : DecodeError) {f : α → Attempt Completion} :
    CarriesOut m kind (.error e) (decoded (.error e) >>= f) := rfl

theorem fails {e : DecodeError} (ha : a m.raw = some (.error e.kind, m.raw)) : CarriesOut m kind (.error e) (a >>= f) := by
  rw [CarriesOut, bind_apply, ha]
  rfl

theorem unallocatedIf (h : c = false → CarriesOut m kind d x) :
    CarriesOut m kind (if c then .error .unallocated else d) (Attempt.unallocatedIf c >>= fun _ => x) := by
  cases c with
  | true => rfl
  | false => exact h rfl

theorem ite {p : Prop} [Decidable p] (hx : p → CarriesOut m kind d x) (hy : ¬p → CarriesOut m kind d' y) :
    CarriesOut m kind (if p then d else d') (if p then x else y) := by
  split
  next h => exact hx h
  next h => exact hy h

theorem error_ite {p : Prop} [Decidable p] {e e' : DecodeError} (hx : CarriesOut m kind (.error e) x)
    (hy : CarriesOut m kind (.error e') y) : CarriesOut m kind (.error (if p then e else e')) (if p then x else y) := by
  split
  · exact hx
  · exact hy

/-- What is read from the machine, or computed within its range, is put into the rest. -/
theorem read (ha : a m.raw = some (.ok v, m.raw)) (h : CarriesOut m kind d (f v)) : CarriesOut m kind d (a >>= f) := by
  rw [CarriesOut, bind_apply, ha, andThen_ok]
  exact h

end CarriesOut

end Attempt
end AArch64
