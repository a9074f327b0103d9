import AArch64.Proofs.Footprint

/-! The footprint of each instruction. What an instruction leaves behind agrees with what it found on every part
outside its footprint. -/
namespace AArch64

namespace Footprint

/-- The slot of a general register, which as a plain operand has none if its number is 31. -/
def register (r : Register) (role : Role := .zero) : Footprint where
  general q := q == r && !GeneralRegisters.isZero r role

def vector (r : Register) : Footprint where
  vectors q := q == r

def base (moves : Bool) (r : Register) : Footprint where
  general q := moves && q == r

/-- An access can leave a fault wherever it goes. -/
def access : Footprint where
  memory := true
  fault := true

theorem register_within {f : Footprint} {r : Register} {role : Role}
    (h : GeneralRegisters.isZero r role = false → f.general r = true) : (register r role).Within f := by
  constructor
  case general =>
    intro q hq
    by_cases hz : GeneralRegisters.isZero r role = false
    · have hne : q ≠ r := by
        rintro rfl
        simp [h hz] at hq
      simp [register, hne]
    · simp [register, hz]
  all_goals intros; rfl

theorem vector_within {f : Footprint} {r : Register} (h : f.vectors r = true) : (vector r).Within f := by
  constructor
  case vectors =>
    intro q hq
    have hne : q ≠ r := by
      rintro rfl
      simp [h] at hq
    simp [vector, hne]
  all_goals intros; rfl

theorem base_within {f : Footprint} {moves : Bool} {r : Register} (h : moves = true → f.general r = true) :
    (base moves r).Within f := by
  constructor
  case general =>
    intro q hq
    simp only [base, Bool.and_eq_false_imp, beq_eq_false_iff_ne]
    rintro hm rfl
    simp [h hm] at hq
  all_goals intros; rfl

theorem access_within {f : Footprint} (hm : f.memory = true) (hf : f.fault = true) : access.Within f := by
  constructor
  case memory => simp [hm]
  case fault => simp [hf]
  all_goals intros; rfl

end Footprint

namespace IntegerInstruction

def footprint (i : IntegerInstruction) : Footprint :=
  { Footprint.register i.rd i.role with nzcv := true }

theorem agree_execute (i : IntegerInstruction) (s : State) : State.AgreeOutside i.footprint s (i.execute s) := by
  have hwrite (t : State) (x : BitVec i.width.bits) : State.AgreeOutside i.footprint t (t.write i.rd x i.role) :=
    .write t i.rd x i.role fun hz => by simp [footprint, Footprint.register, hz]
  have hflags (x : Nzcv) : State.AgreeOutside i.footprint s (s.setFlags x) := .setFlags s x rfl
  unfold execute
  obtain ⟨value, flags⟩ := i.op.eval s i.rd i.width.bits
  cases value with
  | none =>
    cases flags with
    | none => exact .refl _ s
    | some f => exact hflags f
  | some x =>
    cases flags with
    | none => exact hwrite s x
    | some f => exact (hflags f).trans (hwrite _ x)

end IntegerInstruction

namespace ControlOp

def footprint : ControlOp → Footprint
  | nothing | halt | breakpoint => {}
  | branch _ link _ | branchRegister link _ => { Footprint.base link Register.link with nextPc := true }
  | callout _ => { callout := true }
  | clearExclusive => { monitor := true }
  | readSystem rt _ => .register rt
  | writeSystem _ .nzcv => { nzcv := true }
  | writeSystem _ .fpcr => { fpcr := true }
  | writeSystem _ .fpsr => { fpsr := true }
  | writeSystem _ .threadPointer => { tpidr := true }
  | writeSystem _ _ => {}

theorem agree_setLink {f : Footprint} (link : Bool) (s : State) (h : link = true → f.general Register.link = true) :
    State.AgreeOutside f s (setLink link s) := by
  cases link with
  | false => exact .refl f s
  | true => exact .write s Register.link _ .zero fun _ => h rfl

theorem agree_apply (op : ControlOp) (s : State) : State.AgreeOutside op.footprint s (op.apply s) := by
  cases op with
  | nothing | halt | breakpoint | callout _ | clearExclusive => exact .refl _ s
  | branch test link offset =>
    have hlink := agree_setLink (f := footprint (.branch test link offset)) link s fun h => by
      simp [footprint, Footprint.base, h]
    simp only [apply]
    split
    · exact hlink.trans (.setNextPc _ _ rfl)
    · exact hlink
  | branchRegister link rn =>
    have hlink := agree_setLink (f := footprint (.branchRegister link rn)) link s fun h => by
      simp [footprint, Footprint.base, h]
    exact hlink.trans (.setNextPc _ _ rfl)
  | readSystem rt r =>
    refine .write s rt _ .zero fun hz => ?_
    simp [footprint, Footprint.register, hz]
  | writeSystem rt r =>
    cases r <;> constructor <;> simp [footprint, apply, SystemRegister.write] <;> intros <;> rfl

end ControlOp

namespace SimdInstruction

def footprint (i : SimdInstruction) : Footprint :=
  { Footprint.register i.rd ∪ Footprint.vector i.rd with nzcv := true, fpsr := true }

theorem agree_execute (i : SimdInstruction) (s : State) : State.AgreeOutside i.footprint s (i.execute s) := by
  have hraise := State.AgreeOutside.raise (f := i.footprint) s (eval i s).raised rfl
  refine hraise.trans ?_
  change State.AgreeOutside _ _ ((eval i s).value.apply i.rd _)
  cases (eval i s).value with
  | vector x => exact .setVector _ i.rd x (by simp [footprint, Footprint.vector])
  | general x =>
    refine .write _ i.rd x .zero fun hz => ?_
    simp [footprint, Footprint.register, hz]
  | flags f => exact .setFlags _ f rfl

end SimdInstruction

/-- What a transfer does to the register it moves. -/
def TransferKind.footprint (kind : TransferKind) (rt : Register) : Footprint :=
  match kind with
  | store | storeVector | prefetch => .access
  | load | loadSigned _ => Footprint.access ∪ .register rt
  | loadVector => Footprint.access ∪ .vector rt

theorem TransferKind.footprint_within {f : Footprint} {kind : TransferKind} {rt : Register} (hm : f.memory = true)
    (hf : f.fault = true) (hv : kind.isVector = true → f.vectors rt = true)
    (hg : kind.isVector = false → rt ≠ Register.stackPointer → f.general rt = true) :
    (kind.footprint rt).Within f := by
  have haccess := Footprint.access_within hm hf
  cases kind with
  | store | storeVector | prefetch => exact haccess
  | load | loadSigned _ =>
    exact Footprint.union_within haccess (Footprint.register_within fun hz => hg rfl (by simpa using hz))
  | loadVector => exact Footprint.union_within haccess (Footprint.vector_within (hv rfl))

namespace Core

variable {f : Footprint} (c : Core)

theorem agree_settle (h : f.memory = true) : AgreeOutside f c c.settle.1 :=
  .withMemory c h (.takeFault (.refl c.memory))

theorem agree_store {n : Nat} (h : f.memory = true) (a : BitVec 64) (size : Nat) (x : BitVec n) :
    AgreeOutside f c (c.store a size x) :=
  .withMemory c h (.write (.refl c.memory) a size x)

theorem agree_load (h : f.memory = true) (a : BitVec 64) (size : Nat) (put : BitVec (8 * size) → State → State)
    (hput : ∀ x, State.AgreeOutside f c.state (put x c.state)) : AgreeOutside f c (c.load a size put) := by
  have hread : AgreeOutside f c { c with memory := (c.memory.read a size).2 } :=
    .withMemory c h (.read (.refl c.memory) a size)
  exact hread.trans (.withState _ (hput (c.memory.read a size).1))

theorem agree_setBase (rn : Register) (x : BitVec 64) (h : f.general rn = true) : AgreeOutside f c (c.setBase rn x) :=
  .withState c (.write c.state rn x .stackPointer fun _ => h)

theorem agree_move (kind : TransferKind) (a : BitVec 64) (size : Nat) (rt : Register) :
    AgreeOutside (kind.footprint rt) c (c.move kind a size rt) := by
  have hwrite {n : Nat} (x : BitVec n) :
      State.AgreeOutside (Footprint.access ∪ .register rt) c.state (c.state.write rt x) :=
    .mono (.write c.state rt x .zero fun hz => by simp [Footprint.register, hz]) (Footprint.within_union_right _ _)
  cases kind with
  | store | storeVector => exact c.agree_store rfl a size _
  | prefetch => exact .refl _ c
  | load =>
    rw [move]
    exact c.agree_load rfl a size _ fun x => hwrite x
  | loadSigned width =>
    rw [move]
    exact c.agree_load rfl a size _ fun x => hwrite (x.signExtend width.bits)
  | loadVector =>
    rw [move]
    refine c.agree_load rfl a size _ fun x => ?_
    exact .mono (.setVector c.state rt _ (by simp [Footprint.vector])) (Footprint.within_union_right _ _)

theorem agree_transfer (kind : TransferKind) (a : BitVec 64) (size : Nat) (rt : Register) :
    AgreeOutside (kind.footprint rt) c (c.transfer kind a size rt).1 :=
  (c.agree_move kind a size rt).trans (agree_settle _ (by cases kind <;> rfl))

theorem agree_writeBack (indexing : Indexing) (rn : Register) (x : BitVec 64)
    (h : indexing.writesBack = true → f.general rn = true) : AgreeOutside f c (c.writeBack indexing rn x) := by
  unfold writeBack
  split
  next hw => exact c.agree_setBase rn x (h hw)
  next => exact .refl f c

end Core

def StructureShape.registers (rt : Register) : StructureShape → List Register
  | multiple repeats members _ => consecutive rt (repeats * members)
  | lane members _ | replicated members => consecutive rt members

theorem mem_consecutive {r rt : Register} {n : Nat} :
    r ∈ consecutive rt n ↔ ∃ i < n, r = rt + BitVec.ofNat 5 i := by
  simp [consecutive, eq_comm]

/-- Repeats start one register apart, so no element lies beyond the product of the two numbers. -/
theorem mem_consecutive_of_mem_interleaved {rt : Register} {repeats members elements : Nat} {t : Register × Nat}
    (h : t ∈ interleaved rt repeats members elements) :
    t.1 ∈ consecutive rt (repeats * members) ∧ t.2 < elements := by
  simp only [interleaved, List.mem_flatMap, List.mem_map, List.mem_range, mem_consecutive] at h
  obtain ⟨r, hr, e, he, _, ⟨i, hi, rfl⟩, rfl⟩ := h
  refine ⟨mem_consecutive.2 ⟨r + i, ?_, ?_⟩, he⟩
  · have hmul : (r + 1) * (i + 1) ≤ repeats * members := Nat.mul_le_mul hr hi
    rw [Nat.succ_mul, Nat.mul_succ] at hmul
    omega
  · rw [BitVec.add_assoc, BitVec.ofNat_add]

namespace Core

variable {f : Footprint}

theorem agree_moveLane (c : Core) (load : Bool) (ebytes : Nat) (a : BitVec 64) (rt : Register) (i : Nat)
    (hm : f.memory = true) (hv : load = true → f.vectors rt = true) :
    AgreeOutside f c (c.moveLane load ebytes a rt i) := by
  cases load with
  | false => exact c.agree_store hm a ebytes _
  | true =>
    rw [moveLane, if_pos rfl]
    exact c.agree_load hm a ebytes _ fun x => .setVector c.state rt _ (hv rfl)

theorem agree_moveLanes (load : Bool) (ebytes : Nat) (lanes : List (Register × Nat)) (a : BitVec 64) (c : Core)
    (hm : f.memory = true) (hv : load = true → ∀ t ∈ lanes, f.vectors t.1 = true) :
    AgreeOutside f c (moveLanes load ebytes lanes a c) := by
  induction lanes generalizing a c with
  | nil => exact .refl f c
  | cons t lanes ih =>
    have hfirst := c.agree_moveLane load ebytes a t.1 t.2 hm fun hl => hv hl t (by simp)
    exact hfirst.trans (ih _ _ fun hl u hu => hv hl u (by simp [hu]))

theorem agree_loadReplicated (ebytes : Nat) (full : Bool) (rts : List Register) (a : BitVec 64) (c : Core)
    (hm : f.memory = true) (hv : ∀ r ∈ rts, f.vectors r = true) :
    AgreeOutside f c (loadReplicated ebytes full rts a c) := by
  induction rts generalizing a c with
  | nil => exact .refl f c
  | cons rt rts ih =>
    rw [loadReplicated]
    refine (c.agree_load hm a ebytes _ fun x => ?_).trans (ih _ _ fun r hr => hv r (by simp [hr]))
    exact .setVector c.state rt _ (hv rt (by simp))

theorem agree_halve (c : Core) (rts : List Register) (hv : ∀ r ∈ rts, f.vectors r = true) :
    AgreeOutside f c (c.halve rts) := by
  refine .withState c ?_
  generalize c.state = s
  induction rts generalizing s with
  | nil => exact .refl f s
  | cons rt rts ih =>
    have hfirst := State.AgreeOutside.setVector s rt (Lanes.sized (s.vector rt) false) (hv rt (by simp))
    exact hfirst.trans (ih (fun r hr => hv r (by simp [hr])) _)

end Core

theorem StructureShape.agree_move (shape : StructureShape) (load : Bool) (ebytes : Nat) (rt : Register)
    (full : Bool) (a : BitVec 64) (c : Core) {f : Footprint} (hm : f.memory = true)
    (hv : load = true ∨ (∃ n, shape = replicated n) → ∀ r ∈ shape.registers rt, f.vectors r = true) :
    Core.AgreeOutside f c (shape.move load ebytes rt full a c) := by
  cases shape with
  | multiple repeats members elements =>
    have hlanes := Core.agree_moveLanes (f := f) load ebytes (interleaved rt repeats members elements) a c hm
      fun hl t ht => hv (.inl hl) t.1 (mem_consecutive_of_mem_interleaved ht).1
    simp only [move]
    split
    next hl =>
      have hload : load = true := by
        cases load <;> simp at hl ⊢
      exact hlanes.trans (Core.agree_halve _ _ (hv (.inl hload)))
    next => exact hlanes
  | lane members index =>
    refine Core.agree_moveLanes load ebytes _ a c hm fun hl t ht => ?_
    obtain ⟨r, hr, rfl⟩ := List.mem_map.1 ht
    exact hv (.inl hl) r hr
  | replicated members =>
    exact Core.agree_loadReplicated ebytes full _ a c hm (hv (.inr ⟨members, rfl⟩))

def Advance.moves : Advance → Bool
  | none => false
  | bytesMoved | register _ => true

/-- Replication has a load form only. -/
def StructureShape.loads (shape : StructureShape) (load : Bool) : Bool :=
  match shape with
  | multiple _ _ _ | lane _ _ => load
  | replicated _ => true

theorem StructureShape.loads_eq_true {shape : StructureShape} {load : Bool}
    (h : load = true ∨ ∃ n, shape = replicated n) : shape.loads load = true := by
  rcases h with rfl | ⟨n, rfl⟩
  · cases shape <;> rfl
  · rfl

namespace TransferOp

def footprint : TransferOp → Footprint
  | nothing => {}
  | literal kind _ rt _ => kind.footprint rt
  | single kind _ rt rn indexing _ => kind.footprint rt ∪ .base indexing.writesBack rn
  | pair kind _ rt rt2 rn indexing _ =>
    (kind.footprint rt ∪ kind.footprint rt2) ∪ .base indexing.writesBack rn
  | loadExclusive _ rt _ => { TransferKind.load.footprint rt with monitor := true }
  | storeExclusive _ rs _ _ => { Footprint.access ∪ .register rs with monitor := true }
  | structures load _ rt rn _ shape advance =>
    { Footprint.access ∪ .base advance.moves rn with
      vectors := fun r => shape.loads load && (shape.registers rt).contains r }

theorem agree_execute (op : TransferOp) (c : Core) : Core.AgreeOutside op.footprint c (op.execute c).1 := by
  cases op with
  | nothing => exact .refl _ c
  | literal kind size rt offset => exact c.agree_transfer kind _ size rt
  | single kind size rt rn indexing offset =>
    refine .andThen ((c.agree_transfer kind _ size rt).mono (Footprint.within_union_left _ _)) fun d => ?_
    refine d.agree_writeBack indexing rn _ fun hw => ?_
    simp [footprint, Footprint.base, hw]
  | pair kind size rt rt2 rn indexing offset =>
    have hfirst : (kind.footprint rt).Within (footprint (.pair kind size rt rt2 rn indexing offset)) :=
      (Footprint.within_union_left _ _).trans (Footprint.within_union_left _ _)
    have hsecond : (kind.footprint rt2).Within (footprint (.pair kind size rt rt2 rn indexing offset)) :=
      (Footprint.within_union_right _ _).trans (Footprint.within_union_left _ _)
    refine .andThen ((c.agree_transfer kind _ size rt).mono hfirst) fun d => ?_
    refine .andThen ((d.agree_transfer kind _ size rt2).mono hsecond) fun e => ?_
    refine e.agree_writeBack indexing rn _ fun hw => ?_
    simp [footprint, Footprint.base, hw]
  | loadExclusive size rt rn =>
    have hload : (TransferKind.load.footprint rt).Within (footprint (.loadExclusive size rt rn)) := by
      constructor <;> simp [footprint]
    refine .andThen ((c.agree_transfer .load _ size rt).mono hload) fun d => ?_
    exact .withMonitor d _ rfl
  | storeExclusive size rs rt rn =>
    have hclear : Core.AgreeOutside (footprint (.storeExclusive size rs rt rn)) c { c with monitor := none } :=
      .withMonitor c none rfl
    have hstatus (d : Core) (x : BitVec 32) :
        Core.AgreeOutside (footprint (.storeExclusive size rs rt rn)) d { d with state := d.state.write rs x } :=
      .withState d (.write d.state rs x .zero fun hz => by
        simp [footprint, Footprint.register, hz])
    simp only [execute, Core.storeExclusive]
    split
    next =>
      have hstore : (TransferKind.store.footprint rt).Within (footprint (.storeExclusive size rs rt rn)) := by
        constructor <;> simp [footprint, TransferKind.footprint, Footprint.access]
      refine .andThen (hclear.trans ((Core.agree_transfer _ .store _ size rt).mono hstore)) fun d => ?_
      exact hstatus d 0#32
    next => exact hclear.trans (hstatus _ 1#32)
  | structures load ebytes rt rn full shape advance =>
    have hmove := shape.agree_move (f := footprint (.structures load ebytes rt rn full shape advance)) load ebytes rt
      full (c.base rn) c rfl fun hl r hr => by simp [footprint, StructureShape.loads_eq_true hl, hr]
    have hbase (d : Core) (x : BitVec 64) (hmoves : advance.moves = true) :
        Core.AgreeOutside (footprint (.structures load ebytes rt rn full shape advance)) d (d.setBase rn x) :=
      d.agree_setBase rn x (by simp [footprint, Footprint.base, hmoves])
    refine .andThen (hmove.trans (Core.agree_settle _ rfl)) fun d => ?_
    cases advance with
    | none => exact .refl _ d
    | bytesMoved => exact hbase d _ rfl
    | register rm => exact hbase d _ rfl

/-- What an access can have changed by the time it faults: neither the base register nor the status of an exclusive
store. -/
def faultFootprint : TransferOp → Footprint
  | nothing => {}
  | literal kind _ rt _ | single kind _ rt _ _ _ => kind.footprint rt
  | pair kind _ rt rt2 _ _ _ => kind.footprint rt ∪ kind.footprint rt2
  | loadExclusive _ rt _ => TransferKind.load.footprint rt
  | storeExclusive _ _ _ _ => { Footprint.access with monitor := true }
  | structures load _ rt _ _ shape _ =>
    { Footprint.access with vectors := fun r => shape.loads load && (shape.registers rt).contains r }

theorem agree_of_fault {op : TransferOp} {c : Core} (h : (op.execute c).2 ≠ none) :
    Core.AgreeOutside op.faultFootprint c (op.execute c).1 := by
  cases op with
  | nothing => exact .refl _ c
  | literal kind size rt offset => exact c.agree_transfer kind _ size rt
  | single kind size rt rn indexing offset =>
    exact .andThen_of_fault (c.agree_transfer kind _ size rt) (fun _ hd => absurd rfl hd) h
  | pair kind size rt rt2 rn indexing offset =>
    refine .andThen_of_fault ((c.agree_transfer kind _ size rt).mono (Footprint.within_union_left _ _))
      (fun d hd => ?_) h
    exact .andThen_of_fault ((d.agree_transfer kind _ size rt2).mono (Footprint.within_union_right _ _))
      (fun _ he => absurd rfl he) hd
  | loadExclusive size rt rn =>
    exact .andThen_of_fault (c.agree_transfer .load _ size rt) (fun _ hd => absurd rfl hd) h
  | storeExclusive size rs rt rn =>
    have hclear : Core.AgreeOutside (faultFootprint (.storeExclusive size rs rt rn)) c { c with monitor := none } :=
      .withMonitor c none rfl
    have hstore : (TransferKind.store.footprint rt).Within (faultFootprint (.storeExclusive size rs rt rn)) :=
      Footprint.access_within rfl rfl
    simp only [execute, Core.storeExclusive] at h ⊢
    split at h
    next harmed =>
      rw [if_pos harmed]
      exact .andThen_of_fault (hclear.trans ((Core.agree_transfer _ .store _ size rt).mono hstore))
        (fun _ hd => absurd rfl hd) h
    next => exact absurd rfl h
  | structures load ebytes rt rn full shape advance =>
    have hmove := shape.agree_move (f := faultFootprint (.structures load ebytes rt rn full shape advance)) load ebytes
      rt full (c.base rn) c rfl fun hl r hr => by simp [faultFootprint, StructureShape.loads_eq_true hl, hr]
    refine .andThen_of_fault (hmove.trans (Core.agree_settle _ rfl)) (fun d hd => ?_) h
    cases advance <;> exact absurd rfl hd

end TransferOp

namespace Instruction

def footprint : Instruction → Footprint
  | integer i => i.footprint
  | control op => op.footprint
  | transfer op => op.footprint
  | simd i => i.footprint

theorem agree_execute (i : Instruction) (c : Core) : Core.AgreeOutside i.footprint c (i.execute c).1 := by
  cases i with
  | integer i => exact .withState c (i.agree_execute c.state)
  | transfer op => exact op.agree_execute c
  | simd i => exact .withState c (i.agree_execute c.state)
  | control op =>
    have hstate := op.agree_apply c.state
    cases op with
    | clearExclusive => exact .withMonitor c none rfl
    | _ => exact .withState c hstate

theorem fault_footprint {i : Instruction} {c : Core} (h : i.footprint.fault = false) : (i.execute c).2 = none := by
  cases i with
  | integer i => rfl
  | simd i => rfl
  | control op => cases op <;> rfl
  | transfer op =>
    cases op with
    | nothing => rfl
    | literal kind => cases kind <;> cases h
    | single kind => cases kind <;> cases h
    | pair kind => cases kind <;> cases h
    | loadExclusive | storeExclusive | structures => cases h

theorem callout_footprint {i : Instruction} (h : i.footprint.callout = false) : i.callout? = none := by
  cases i with
  | integer i => rfl
  | simd i => rfl
  | transfer op => rfl
  | control op =>
    cases op with
    | callout kind => cases h
    | _ => rfl

end Instruction

namespace Machine

theorem execute_of_decode_error {w : InstructionWord} {e : DecodeError} (m : Machine)
    (h : Instruction.decode w = .error e) : m.execute w = (.error e.kind, m) := by
  simp [execute, h]

theorem core_execute {w : InstructionWord} {i : Instruction} (m : Machine) (h : Instruction.decode w = .ok i) :
    (m.execute w).2.core = (i.execute m.core).1 := by
  simp only [execute, h]
  split
  next core fault hx => rw [hx]
  next core hx => rw [hx]

theorem outcome_execute {w : InstructionWord} {i : Instruction} (m : Machine) (h : Instruction.decode w = .ok i) :
    (m.execute w).1 = match (i.execute m.core).2 with
      | none => .ok i.completion
      | some _ => .error .memoryException := by
  simp only [execute, h]
  split
  next core fault hx => rw [hx]
  next core hx => rw [hx]

theorem agree_execute {w : InstructionWord} {i : Instruction} (m : Machine) (h : Instruction.decode w = .ok i) :
    AgreeOutside i.footprint m (m.execute w).2 := by
  have hcore := i.agree_execute m.core
  have hfault := i.fault_footprint (c := m.core)
  simp only [execute, h]
  split
  next core fault hx =>
    rw [hx] at hcore hfault
    constructor
    case core => exact hcore
    case fault => intro hf; cases hfault hf
    all_goals intros; rfl
  next core hx =>
    rw [hx] at hcore
    constructor
    case core => exact hcore
    case callout =>
      intro hf
      simp [Instruction.callout_footprint hf]
    all_goals intros; rfl

end Machine
end AArch64
