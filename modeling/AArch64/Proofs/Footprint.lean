import AArch64.Machine.Basic
import AArch64.Proofs.Memory.Accesses
import AArch64.Proofs.Registers

/-! Sets of machine parts, and states, cores and machines that agree on all other parts. An executor is followed
write by write with one footprint from its start to its end. -/
namespace AArch64

/-- Parts of a machine that an instruction may change. The program counter is never one of them. -/
structure Footprint where
  general : Register → Bool := fun _ => false
  vectors : Register → Bool := fun _ => false
  nextPc : Bool := false
  nzcv : Bool := false
  fpsr : Bool := false
  fpcr : Bool := false
  tpidr : Bool := false
  /-- The bytes of the blocks, the cache and the pending fault. -/
  memory : Bool := false
  monitor : Bool := false
  /-- The fault recorded for the error text. -/
  fault : Bool := false
  callout : Bool := false

namespace Footprint

def full : Footprint where
  general _ := true
  vectors _ := true
  nextPc := true
  nzcv := true
  fpsr := true
  fpcr := true
  tpidr := true
  memory := true
  monitor := true
  fault := true
  callout := true

def union (f g : Footprint) : Footprint where
  general r := f.general r || g.general r
  vectors r := f.vectors r || g.vectors r
  nextPc := f.nextPc || g.nextPc
  nzcv := f.nzcv || g.nzcv
  fpsr := f.fpsr || g.fpsr
  fpcr := f.fpcr || g.fpcr
  tpidr := f.tpidr || g.tpidr
  memory := f.memory || g.memory
  monitor := f.monitor || g.monitor
  fault := f.fault || g.fault
  callout := f.callout || g.callout

instance : Union Footprint := ⟨union⟩

section Fields

variable (f g : Footprint) (r : Register)

@[simp] theorem general_union : (f ∪ g).general r = (f.general r || g.general r) := rfl

@[simp] theorem vectors_union : (f ∪ g).vectors r = (f.vectors r || g.vectors r) := rfl

@[simp] theorem nextPc_union : (f ∪ g).nextPc = (f.nextPc || g.nextPc) := rfl

@[simp] theorem nzcv_union : (f ∪ g).nzcv = (f.nzcv || g.nzcv) := rfl

@[simp] theorem fpsr_union : (f ∪ g).fpsr = (f.fpsr || g.fpsr) := rfl

@[simp] theorem fpcr_union : (f ∪ g).fpcr = (f.fpcr || g.fpcr) := rfl

@[simp] theorem tpidr_union : (f ∪ g).tpidr = (f.tpidr || g.tpidr) := rfl

@[simp] theorem memory_union : (f ∪ g).memory = (f.memory || g.memory) := rfl

@[simp] theorem monitor_union : (f ∪ g).monitor = (f.monitor || g.monitor) := rfl

@[simp] theorem fault_union : (f ∪ g).fault = (f.fault || g.fault) := rfl

@[simp] theorem callout_union : (f ∪ g).callout = (f.callout || g.callout) := rfl

end Fields

/-- What the second footprint leaves out the first one leaves out as well. -/
structure Within (f g : Footprint) : Prop where
  general : ∀ r, g.general r = false → f.general r = false
  vectors : ∀ r, g.vectors r = false → f.vectors r = false
  nextPc : g.nextPc = false → f.nextPc = false
  nzcv : g.nzcv = false → f.nzcv = false
  fpsr : g.fpsr = false → f.fpsr = false
  fpcr : g.fpcr = false → f.fpcr = false
  tpidr : g.tpidr = false → f.tpidr = false
  memory : g.memory = false → f.memory = false
  monitor : g.monitor = false → f.monitor = false
  fault : g.fault = false → f.fault = false
  callout : g.callout = false → f.callout = false

theorem Within.trans {f g h : Footprint} (hfg : f.Within g) (hgh : g.Within h) : f.Within h where
  general r hr := hfg.general r (hgh.general r hr)
  vectors r hr := hfg.vectors r (hgh.vectors r hr)
  nextPc hh := hfg.nextPc (hgh.nextPc hh)
  nzcv hh := hfg.nzcv (hgh.nzcv hh)
  fpsr hh := hfg.fpsr (hgh.fpsr hh)
  fpcr hh := hfg.fpcr (hgh.fpcr hh)
  tpidr hh := hfg.tpidr (hgh.tpidr hh)
  memory hh := hfg.memory (hgh.memory hh)
  monitor hh := hfg.monitor (hgh.monitor hh)
  fault hh := hfg.fault (hgh.fault hh)
  callout hh := hfg.callout (hgh.callout hh)

theorem within_union_left (f g : Footprint) : f.Within (f ∪ g) := by
  constructor <;> simp +contextual

theorem within_union_right (f g : Footprint) : g.Within (f ∪ g) := by
  constructor <;> simp +contextual

theorem union_within {f g h : Footprint} (hf : f.Within h) (hg : g.Within h) : (f ∪ g).Within h where
  general r hr := by simp [hf.general r hr, hg.general r hr]
  vectors r hr := by simp [hf.vectors r hr, hg.vectors r hr]
  nextPc hh := by simp [hf.nextPc hh, hg.nextPc hh]
  nzcv hh := by simp [hf.nzcv hh, hg.nzcv hh]
  fpsr hh := by simp [hf.fpsr hh, hg.fpsr hh]
  fpcr hh := by simp [hf.fpcr hh, hg.fpcr hh]
  tpidr hh := by simp [hf.tpidr hh, hg.tpidr hh]
  memory hh := by simp [hf.memory hh, hg.memory hh]
  monitor hh := by simp [hf.monitor hh, hg.monitor hh]
  fault hh := by simp [hf.fault hh, hg.fault hh]
  callout hh := by simp [hf.callout hh, hg.callout hh]

end Footprint

variable {f g : Footprint}

structure State.AgreeOutside (f : Footprint) (s t : State) : Prop where
  general : ∀ r, f.general r = false → t.slot r = s.slot r
  vectors : ∀ r, f.vectors r = false → t.vector r = s.vector r
  pc : t.pc = s.pc
  nextPc : f.nextPc = false → t.nextPc = s.nextPc
  nzcv : f.nzcv = false → t.nzcv = s.nzcv
  fpsr : f.fpsr = false → t.fpsr = s.fpsr
  fpcr : f.fpcr = false → t.fpcr = s.fpcr
  tpidr : f.tpidr = false → t.tpidr = s.tpidr

/-- The memory comes about by accesses alone, so its blocks stay where they are. -/
structure Core.AgreeOutside (f : Footprint) (c d : Core) : Prop where
  state : State.AgreeOutside f c.state d.state
  memory : f.memory = false → d.memory = c.memory
  accesses : Memory.Accesses c.memory d.memory
  monitor : f.monitor = false → d.monitor = c.monitor

/-- The fields that drive a run and face the host agree whatever the footprint. -/
structure Machine.AgreeOutside (f : Footprint) (m n : Machine) : Prop where
  core : Core.AgreeOutside f m.core n.core
  fault : f.fault = false → n.fault = m.fault
  callout : f.callout = false → n.callout = m.callout
  settings : n.settings = m.settings
  status : n.status = m.status
  error : n.error = m.error
  instruction : n.instruction = m.instruction
  retired : n.retired = m.retired
  stackLimit : n.stackLimit = m.stackLimit

namespace State.AgreeOutside

variable {s t u : State}

theorem refl (f : Footprint) (s : State) : AgreeOutside f s s := by
  constructor <;> intros <;> rfl

theorem trans (h : AgreeOutside f s t) (h' : AgreeOutside f t u) : AgreeOutside f s u where
  general r hr := (h'.general r hr).trans (h.general r hr)
  vectors r hr := (h'.vectors r hr).trans (h.vectors r hr)
  pc := h'.pc.trans h.pc
  nextPc hf := (h'.nextPc hf).trans (h.nextPc hf)
  nzcv hf := (h'.nzcv hf).trans (h.nzcv hf)
  fpsr hf := (h'.fpsr hf).trans (h.fpsr hf)
  fpcr hf := (h'.fpcr hf).trans (h.fpcr hf)
  tpidr hf := (h'.tpidr hf).trans (h.tpidr hf)

theorem mono (h : AgreeOutside f s t) (hfg : f.Within g) : AgreeOutside g s t where
  general r hr := h.general r (hfg.general r hr)
  vectors r hr := h.vectors r (hfg.vectors r hr)
  pc := h.pc
  nextPc hg := h.nextPc (hfg.nextPc hg)
  nzcv hg := h.nzcv (hfg.nzcv hg)
  fpsr hg := h.fpsr (hfg.fpsr hg)
  fpcr hg := h.fpcr (hfg.fpcr hg)
  tpidr hg := h.tpidr (hfg.tpidr hg)

/-- A write that the zero role drops needs no place in the footprint. -/
theorem write {n : Nat} (s : State) (r : Register) (x : BitVec n) (role : Role)
    (h : GeneralRegisters.isZero r role = false → f.general r = true) :
    AgreeOutside f s (s.write r x role) := by
  constructor
  case general =>
    intro q hq
    rw [slot_write, if_neg]
    rintro ⟨rfl, hz⟩
    simp [h hz] at hq
  all_goals intros; rfl

theorem setVector (s : State) (r : Register) (x : BitVec 128) (h : f.vectors r = true) :
    AgreeOutside f s (s.setVector r x) := by
  constructor
  case vectors =>
    intro q hq
    rw [vector_setVector, if_neg]
    rintro rfl
    simp [h] at hq
  all_goals intros; rfl

theorem setFlags (s : State) (x : Nzcv) (h : f.nzcv = true) : AgreeOutside f s (s.setFlags x) := by
  constructor
  case nzcv => simp [h]
  all_goals intros; rfl

theorem raise (s : State) (x : Fpsr) (h : f.fpsr = true) : AgreeOutside f s (s.raise x) := by
  constructor
  case fpsr => simp [h]
  all_goals intros; rfl

theorem setNextPc (s : State) (x : BitVec 64) (h : f.nextPc = true) :
    AgreeOutside f s { s with nextPc := x } := by
  constructor
  case nextPc => simp [h]
  all_goals intros; rfl

end State.AgreeOutside

namespace Core.AgreeOutside

variable {c d e : Core}

theorem refl (f : Footprint) (c : Core) : AgreeOutside f c c :=
  ⟨.refl f c.state, fun _ => rfl, .refl c.memory, fun _ => rfl⟩

theorem trans (h : AgreeOutside f c d) (h' : AgreeOutside f d e) : AgreeOutside f c e where
  state := h.state.trans h'.state
  memory hf := (h'.memory hf).trans (h.memory hf)
  accesses := h.accesses.trans h'.accesses
  monitor hf := (h'.monitor hf).trans (h.monitor hf)

theorem mono (h : AgreeOutside f c d) (hfg : f.Within g) : AgreeOutside g c d where
  state := h.state.mono hfg
  memory hg := h.memory (hfg.memory hg)
  accesses := h.accesses
  monitor hg := h.monitor (hfg.monitor hg)

theorem withState (c : Core) {t : State} (h : State.AgreeOutside f c.state t) :
    AgreeOutside f c { c with state := t } :=
  ⟨h, fun _ => rfl, .refl c.memory, fun _ => rfl⟩

theorem withMonitor (c : Core) (x : Option (BitVec 64 × Nat)) (h : f.monitor = true) :
    AgreeOutside f c { c with monitor := x } where
  state := .refl f c.state
  memory _ := rfl
  accesses := .refl c.memory
  monitor hf := by simp [h] at hf

theorem andThen {t : Transferred} {k : Core → Transferred} (ht : AgreeOutside f c t.1)
    (hk : ∀ d, AgreeOutside f d (k d).1) : AgreeOutside f c (t.andThen k).1 := by
  unfold Transferred.andThen
  split
  · exact ht.trans (hk t.1)
  · exact ht

/-- Where the last access has faulted, what would come behind it has not happened. -/
theorem andThen_of_fault {t : Transferred} {k : Core → Transferred} (ht : AgreeOutside f c t.1)
    (hk : ∀ d, (k d).2 ≠ none → AgreeOutside f d (k d).1) (h : (t.andThen k).2 ≠ none) :
    AgreeOutside f c (t.andThen k).1 := by
  unfold Transferred.andThen at h ⊢
  split at h
  next => exact ht.trans (hk t.1 h)
  next => exact ht

/-- A load may change the memory as well: it moves the cache and can leave a fault. -/
theorem withMemory (c : Core) {m : Memory} (h : f.memory = true) (hm : Memory.Accesses c.memory m) :
    AgreeOutside f c { c with memory := m } where
  state := .refl f c.state
  memory hf := by simp [h] at hf
  accesses := hm
  monitor _ := rfl

end Core.AgreeOutside

theorem Machine.AgreeOutside.refl (f : Footprint) (m : Machine) : AgreeOutside f m m := by
  constructor
  case core => exact .refl f m.core
  all_goals intros; rfl

theorem Machine.AgreeOutside.mono {m n : Machine} (h : AgreeOutside f m n) (hfg : f.Within g) :
    AgreeOutside g m n :=
  { h with
    core := h.core.mono hfg
    fault := fun hg => h.fault (hfg.fault hg)
    callout := fun hg => h.callout (hfg.callout hg) }

end AArch64
