import AArch64.Proofs.Stepping

/-! The exclusive monitor over a run. Three kinds of words are events for it, whatever stands between them, and an
exclusive store writes exactly if the last event was a load of the same place. -/
namespace AArch64

namespace InstructionWord

variable (w : InstructionWord)

def LoadsExclusive : Prop := w.number 29 21 = 0b001000010

/-- `STXR` and `STLXR`, unless the status register is also the data or, but for number 31, the base. -/
def StoresExclusive : Prop :=
  w.number 29 21 = 0b001000000 ∧ w.rm ≠ w.rd ∧ (w.rm ≠ w.rn ∨ w.rn = Register.stackPointer)

def exclusiveSize : Nat := 2 ^ w.number 31 30

instance : Decidable w.LoadsExclusive := inferInstanceAs (Decidable (_ = _))

instance : Decidable w.StoresExclusive := inferInstanceAs (Decidable (_ ∧ _))

end InstructionWord

section Decoding

open InstructionWord

variable {w : InstructionWord}

theorem decode_of_loadsExclusive (h : w.LoadsExclusive) :
    Instruction.decode w = .ok (.transfer (.loadExclusive w.exclusiveSize w.rd w.rn)) := by
  have hgroup : w.number 29 25 = 0b00100 := by
    simp only [LoadsExclusive, number_eq] at h ⊢
    omega
  have hbits : w.bit 24 = false ∧ w.bit 21 = false ∧ w.bit 23 = false ∧ w.bit 22 = true := by
    simp only [LoadsExclusive, number_eq, bit_eq_false, bit_eq_true] at h ⊢
    omega
  rw [Instruction.decode_of_exclusive hgroup]
  simp [TransferOp.decodeExclusive, hbits, exclusiveSize, Except.map]

theorem decode_of_storesExclusive (h : w.StoresExclusive) :
    Instruction.decode w = .ok (.transfer (.storeExclusive w.exclusiveSize w.rm w.rd w.rn)) := by
  obtain ⟨h, hdata, hbase⟩ := h
  have hgroup : w.number 29 25 = 0b00100 := by
    simp only [number_eq] at h ⊢
    omega
  have hbits : w.bit 24 = false ∧ w.bit 21 = false ∧ w.bit 23 = false ∧ w.bit 22 = false := by
    simp only [number_eq, bit_eq_false] at h ⊢
    omega
  have hallocated : ¬(w.rm = w.rn ∧ ¬w.rn = Register.stackPointer) :=
    fun hreserved => hbase.elim (fun hne => hne hreserved.1) hreserved.2
  rw [Instruction.decode_of_exclusive hgroup]
  simp [TransferOp.decodeExclusive, hbits, hdata, hallocated, exclusiveSize, Except.map]

theorem decode_of_clearsExclusive (h : w.ClearsExclusive) : Instruction.decode w = .ok (.control .clearExclusive) := by
  obtain ⟨hhigh, hlow⟩ := h
  have hgroup : w.number 31 24 = 0b11010101 := by
    simp only [number_eq] at hhigh ⊢
    omega
  have hfields : w.number 23 22 = 0 ∧ w.number 20 19 = 0 ∧ w.bit 21 = false ∧ w.number 18 16 = 3 ∧
      w.number 15 12 = 3 ∧ w.number 4 0 = 31 ∧ w.number 7 5 = 2 := by
    simp only [number_eq, bit_eq_false] at hhigh hlow ⊢
    omega
  rw [Instruction.decode_of_system hgroup]
  simp [ControlOp.decodeSystem, ControlOp.decodeHint, hfields, Except.map]

def ActsOnMonitor (w : InstructionWord) : Prop := w.LoadsExclusive ∨ w.StoresExclusive ∨ w.ClearsExclusive

theorem TransferOp.acts_decodeExclusive (h : w.number 29 25 = 0b00100) :
    Yields (decodeExclusive w) fun op => op.footprint.monitor = true → ActsOnMonitor w := by
  refine .guard fun h24 => .guard fun h21 => .ite (fun _ => .ok fun hmonitor => ?_) fun h23 =>
    .ite (fun h22 => .ok fun _ => .inl ?_) fun h22 => .guard fun hreserved => .ok fun _ => .inr (.inl ⟨?_, ?_⟩)
  · cases hload : w.bit 22 <;> rw [hload] at hmonitor <;> cases hmonitor
  · simp only [LoadsExclusive, number_eq, bit_eq_true] at h h24 h21 h23 h22 ⊢
    omega
  · simp only [number_eq, bit_eq_true] at h h24 h21 h23 h22 ⊢
    omega
  · simpa [Decidable.imp_iff_not_or] using hreserved

/-- Only two groups of words own the monitor. -/
theorem InstructionWord.number_of_monitor (h : w.footprint.monitor = true) :
    w.number 29 25 = 0b00100 ∨ w.number 31 24 = 0b11010101 := by
  have htop := KeyTable.key_topLevel w
  unfold footprint at h
  -- of the other groups the footprint itself says that they do not
  split at h <;> simp only [transferFootprint, integerFootprint, controlFootprint, simdFootprint, Footprint.register,
    Bool.false_eq_true, isExclusive, isSystem, Bool.and_eq_true, beq_iff_eq, KeyTable.key_loadStore,
    KeyTable.key_control] at h
  all_goals
    simp only [*, number_eq, toNat_bit] at htop h ⊢
    omega

/-- No other instruction has the monitor in its footprint. -/
theorem Instruction.acts_decode (w : InstructionWord) :
    Yields (decode w) fun i => i.footprint.monitor = true → ActsOnMonitor w := by
  intro i hi hmonitor
  have hw : w.footprint.monitor = true := by
    refine Decidable.byContradiction fun hne => ?_
    rw [(yields_decode w i hi).monitor (eq_false_of_ne_true hne)] at hmonitor
    cases hmonitor
  obtain hexclusive | hsystem := InstructionWord.number_of_monitor hw
  · rw [decode_of_exclusive hexclusive] at hi
    have hacts := Yields.map (f := transfer) (R := fun i => i.footprint.monitor = true → ActsOnMonitor w)
      (TransferOp.acts_decodeExclusive hexclusive)
    exact hacts i hi hmonitor
  · rw [decode_of_system hsystem] at hi
    have hacts := Yields.map (f := control) (R := fun i => i.footprint.monitor = true → ActsOnMonitor w)
      ((ControlOp.plain_decodeSystem hsystem).mono fun op hop hmonitor => .inr (.inr (hop.2 hmonitor)))
    exact hacts i hi hmonitor

end Decoding

namespace Core

variable (c : Core) (size : Nat) (rs rt rn : Register)

/-- The memory that an exclusive store would leave. -/
def writtenExclusive : Memory := c.memory.write (c.base rn) size (c.state.read 64 rt)

theorem monitor_loadExclusive :
    ((c.loadExclusive size rt rn).2 = none → (c.loadExclusive size rt rn).1.monitor = some (c.base rn, size)) ∧
      ((c.loadExclusive size rt rn).2 ≠ none → (c.loadExclusive size rt rn).1.monitor = c.monitor) := by
  have hkept : (c.transfer .load (c.base rn) size rt).1.monitor = c.monitor :=
    (c.agree_transfer .load (c.base rn) size rt).monitor rfl
  simp only [loadExclusive]
  generalize c.transfer .load (c.base rn) size rt = t at hkept ⊢
  obtain ⟨d, _ | fault⟩ := t
  · exact ⟨fun _ => rfl, fun h => absurd rfl h⟩
  · exact ⟨fun h => absurd h (Option.some_ne_none fault), fun _ => hkept⟩

variable {c size rt rn}

theorem storeExclusive_of_armed (h : c.monitor = some (c.base rn, size)) : c.storeExclusive size rs rt rn =
    match (c.writtenExclusive size rt rn).fault with
    | none => ({ c with
        state := c.state.write rs 0#32, memory := c.writtenExclusive size rt rn, monitor := none }, none)
    | some f => ({ c with
        memory := { c.writtenExclusive size rt rn with fault := none }, monitor := none }, some f) := by
  rw [storeExclusive, if_pos h]
  have htransfer : transfer { c with monitor := none } .store (c.base rn) size rt =
      ({ c with memory := { c.writtenExclusive size rt rn with fault := none }, monitor := none },
        (c.writtenExclusive size rt rn).fault) := rfl
  rw [htransfer]
  cases hf : (c.writtenExclusive size rt rn).fault with
  | none =>
    have htaken : { c.writtenExclusive size rt rn with fault := none } = c.writtenExclusive size rt rn := by
      rw [← hf]
    simp only [Transferred.andThen, htaken]
  | some f => rfl

theorem storeExclusive_of_not_armed (h : c.monitor ≠ some (c.base rn, size)) :
    c.storeExclusive size rs rt rn = ({ c with state := c.state.write rs 1#32, monitor := none }, none) :=
  if_neg h

theorem monitor_storeExclusive : (c.storeExclusive size rs rt rn).1.monitor = none := by
  by_cases h : c.monitor = some (c.base rn, size)
  · rw [storeExclusive_of_armed rs h]
    split <;> rfl
  · rw [storeExclusive_of_not_armed rs h]

end Core

/-- What a word does to the monitor. -/
inductive MonitorEvent
  | loadExclusive (address : BitVec 64) (size : Nat) | storeExclusive | clearExclusive
  deriving DecidableEq

/-- The monitor behind an event. -/
def MonitorEvent.reservation : MonitorEvent → Option (BitVec 64 × Nat)
  | loadExclusive a size => some (a, size)
  | storeExclusive | clearExclusive => none

namespace Machine

/-- The event that a word is for the monitor when a machine executes it. A load that faults is none. -/
def monitorEvent? (m : Machine) (w : InstructionWord) : Option MonitorEvent :=
  if w.LoadsExclusive then
    match (m.execute w).1 with
    | .ok _ => some (.loadExclusive (m.core.base w.rn) w.exclusiveSize)
    | .error _ => none
  else if w.StoresExclusive then some .storeExclusive
  else if w.ClearsExclusive then some .clearExclusive
  else none

theorem monitorEvent?_of_storesExclusive {w : InstructionWord} (m : Machine) (h : w.StoresExclusive) :
    m.monitorEvent? w = some .storeExclusive := by
  have hload : ¬w.LoadsExclusive := by
    intro hload
    rw [InstructionWord.LoadsExclusive, h.1] at hload
    cases hload
  rw [monitorEvent?, if_neg hload, if_pos h]

theorem of_monitorEvent?_eq_loadExclusive {m : Machine} {w : InstructionWord} {a : BitVec 64} {size : Nat}
    (h : m.monitorEvent? w = some (.loadExclusive a size)) :
    w.LoadsExclusive ∧ m.core.base w.rn = a ∧ w.exclusiveSize = size := by
  unfold monitorEvent? at h
  split at h
  next hload =>
    split at h
    · cases h
      exact ⟨hload, rfl, rfl⟩
    · cases h
  next => repeat' first | cases h | split at h

/-- A word moves the monitor by its event, and leaves it where it is no event. -/
theorem monitor_execute (m : Machine) (w : InstructionWord) :
    (m.execute w).2.core.monitor = (m.monitorEvent? w).elim m.core.monitor MonitorEvent.reservation := by
  unfold monitorEvent?
  split
  next hload =>
    have hd := decode_of_loadsExclusive hload
    obtain ⟨hdone, hfaulted⟩ := m.core.monitor_loadExclusive w.exclusiveSize w.rd w.rn
    have houtcome := m.outcome_execute hd
    rw [m.core_execute hd]
    simp only [Instruction.execute, TransferOp.execute] at houtcome ⊢
    cases hf : (m.core.loadExclusive w.exclusiveSize w.rd w.rn).2 with
    | none =>
      rw [hf] at houtcome
      rw [houtcome]
      exact hdone hf
    | some f =>
      rw [hf] at houtcome
      rw [houtcome]
      exact hfaulted (by rw [hf]; exact Option.some_ne_none f)
  next hload =>
    split
    next hstore =>
      rw [m.core_execute (decode_of_storesExclusive hstore)]
      exact Core.monitor_storeExclusive w.rm
    next hstore =>
      split
      next hclear =>
        rw [m.core_execute (decode_of_clearsExclusive hclear)]
        rfl
      next hclear =>
        cases hd : Instruction.decode w with
        | error e => rw [m.execute_of_decode_error hd]; rfl
        | ok i =>
          refine (m.agree_execute hd).core.monitor (eq_false_of_ne_true fun hmonitor => ?_)
          obtain h | h | h := Instruction.acts_decode w i hd hmonitor
          · exact hload h
          · exact hstore h
          · exact hclear h

/-- The machines and words of a run, the latest first. Between two words anything may happen to the machine that leaves
the monitor alone and no fault pending. -/
inductive Executed : List (Machine × InstructionWord) → Machine → Prop
  | start {m : Machine} (hmonitor : m.core.monitor = none) (hpending : m.core.memory.fault = none) : Executed [] m
  | word {log : List (Machine × InstructionWord)} {m : Machine} (h : Executed log m) (w : InstructionWord) :
      Executed ((m, w) :: log) (m.execute w).2
  | between {log : List (Machine × InstructionWord)} {m n : Machine} (h : Executed log m)
      (hmonitor : n.core.monitor = m.core.monitor) (hpending : n.core.memory.fault = none) : Executed log n

def lastEvent? (log : List (Machine × InstructionWord)) : Option MonitorEvent :=
  log.findSome? fun e => e.1.monitorEvent? e.2

theorem lastEvent?_cons (m : Machine) (w : InstructionWord) (log : List (Machine × InstructionWord)) :
    lastEvent? ((m, w) :: log) = (m.monitorEvent? w).or (lastEvent? log) := by
  rw [lastEvent?, List.findSome?_cons]
  cases m.monitorEvent? w <;> rfl

theorem Executed.pending {log : List (Machine × InstructionWord)} {m : Machine} (h : Executed log m) :
    m.core.memory.fault = none := by
  induction h with
  | start _ hpending => exact hpending
  | word _ w ih => exact pending_execute ih w
  | between _ _ hpending => exact hpending

theorem Executed.monitor {log : List (Machine × InstructionWord)} {m : Machine} (h : Executed log m) :
    m.core.monitor = (lastEvent? log).bind MonitorEvent.reservation := by
  induction h with
  | start hmonitor _ => exact hmonitor
  | @word log m _ w ih =>
    rw [monitor_execute, ih, lastEvent?_cons]
    cases m.monitorEvent? w <;> rfl
  | between _ hmonitor _ ih => exact hmonitor.trans ih

theorem Executed.armed_iff {log : List (Machine × InstructionWord)} {m : Machine} (h : Executed log m)
    (a : BitVec 64) (size : Nat) :
    m.core.monitor = some (a, size) ↔ lastEvent? log = some (.loadExclusive a size) := by
  rw [h.monitor]
  cases lastEvent? log with
  | none => simp
  | some e => cases e <;> simp [MonitorEvent.reservation]

def written (m : Machine) (w : InstructionWord) : Memory := m.core.writtenExclusive w.exclusiveSize w.rd w.rn

/-- The store has been tried. Either it has been done and the status register is zero, or it has faulted. -/
def TriesStore (m : Machine) (w : InstructionWord) : Prop :=
  ((m.written w).fault = none ∧ (m.execute w).1 = .ok .ready ∧ (m.execute w).2.core.memory = m.written w ∧
      (m.execute w).2.state = m.state.write w.rm 0#32) ∨
    ((m.written w).fault ≠ none ∧ (m.execute w).1 = .error .memoryException ∧
      (m.execute w).2.core.memory.blocks = m.core.memory.blocks ∧ (m.execute w).2.state = m.state)

/-- The store has been left out, and the status register is one. -/
def SkipsStore (m : Machine) (w : InstructionWord) : Prop :=
  (m.execute w).1 = .ok .ready ∧ (m.execute w).2.core.memory = m.core.memory ∧
    (m.execute w).2.state = m.state.write w.rm 1#32

theorem triesStore {m : Machine} {w : InstructionWord} (hpending : m.core.memory.fault = none) (hw : w.StoresExclusive)
    (h : m.core.monitor = some (m.core.base w.rn, w.exclusiveSize)) : m.TriesStore w := by
  have hd := decode_of_storesExclusive hw
  have hexecute : (Instruction.transfer (.storeExclusive w.exclusiveSize w.rm w.rd w.rn)).execute m.core = _ :=
    Core.storeExclusive_of_armed w.rm h
  have houtcome := m.outcome_execute hd
  have hcore := m.core_execute hd
  rw [hexecute] at houtcome hcore
  cases hf : (m.written w).fault with
  | none =>
    rw [written] at hf
    rw [hf] at houtcome hcore
    exact .inl ⟨hf, houtcome, by rw [hcore]; rfl, by rw [state, hcore]; rfl⟩
  | some f =>
    have hne : (m.written w).fault ≠ none := by
      rw [hf]
      nofun
    rw [written] at hf
    rw [hf] at houtcome hcore
    refine .inr ⟨hne, houtcome, ?_, by rw [state, hcore]; rfl⟩
    rw [hcore]
    exact m.core.memory.blocks_write_of_fault hpending hne

theorem skipsStore {m : Machine} {w : InstructionWord} (hw : w.StoresExclusive)
    (h : m.core.monitor ≠ some (m.core.base w.rn, w.exclusiveSize)) : m.SkipsStore w := by
  have hd := decode_of_storesExclusive hw
  have hexecute : (Instruction.transfer (.storeExclusive w.exclusiveSize w.rm w.rd w.rn)).execute m.core = _ :=
    Core.storeExclusive_of_not_armed w.rm h
  have houtcome := m.outcome_execute hd
  have hcore := m.core_execute hd
  rw [hexecute] at houtcome hcore
  exact ⟨houtcome, by rw [hcore], by rw [state, hcore]; rfl⟩

section Histories

variable {log : List (Machine × InstructionWord)} {m : Machine}

theorem Executed.step (h : Executed log m) : ∃ later, Executed (later ++ log) m.step.2 := by
  have hstepped := m.stepped
  generalize m.step = r at hstepped ⊢
  cases hstepped with
  | idle => exact ⟨[], h⟩
  | returned => exact ⟨[], h.between rfl h.pending⟩
  | unfetched => exact ⟨[], h.between rfl rfl⟩
  | executed hfetches hf =>
    have hfetched : Executed log m.fetched := h.between rfl hf
    have hword := hfetched.word m.nextWord
    refine ⟨[(m.fetched, m.nextWord)], ?_⟩
    generalize m.fetched.execute m.nextWord = e at hword ⊢
    obtain ⟨r, n⟩ := e
    obtain ⟨pc, status, error, hfinish⟩ := finish_eq r n
    exact hword.between (by rw [hfinish]) (by rw [hfinish]; exact hword.pending)

theorem Executed.runFor (n : Nat) (h : Executed log m) : ∃ later, Executed (later ++ log) (runFor n m).2 := by
  induction n generalizing log m with
  | zero => exact ⟨[], h⟩
  | succ n ih =>
    obtain ⟨first, hstep⟩ := h.step
    unfold Machine.runFor
    split
    next _ m' hm' =>
      rw [hm'] at hstep
      obtain ⟨later, hrest⟩ := ih hstep
      exact ⟨later ++ first, by rwa [List.append_assoc]⟩
    next => exact ⟨first, hstep⟩

theorem Executed.perform (h : Executed log m) (hm : m.Consistent) (op : Operation) :
    ∃ later, Executed (later ++ log) (m.perform op) := by
  by_cases hstep : op = .step
  · rw [hstep]
    exact h.step
  · by_cases hrun : op = .run
    · rw [hrun]
      exact h.runFor m.budget
    · exact ⟨[], h.between (m.keptByHost_perform hstep hrun).monitor (hm.perform op).memory.pending⟩

/-- Whatever a host does with a machine from the beginning is such a run. -/
theorem executed_after (settings : Settings) (ops : List Operation) : ∃ log, Executed log (after settings ops) := by
  have hrun (m : Machine) (hm : m.Consistent) (log : List (Machine × InstructionWord)) (h : Executed log m) :
      ∃ log', Executed log' (ops.foldl Machine.perform m) := by
    induction ops generalizing m log with
    | nil => exact ⟨log, h⟩
    | cons op ops ih =>
      obtain ⟨later, hnext⟩ := h.perform hm op
      exact ih _ (hm.perform op) _ hnext
  exact hrun { settings } (consistent_after settings []) [] (.start rfl rfl)

end Histories

/-- The load that arms the monitor is a word of the run, and no exclusive store lies behind it. -/
theorem exists_load_of_lastEvent? {log : List (Machine × InstructionWord)} {a : BitVec 64} {size : Nat}
    (h : lastEvent? log = some (.loadExclusive a size)) : ∃ later n v earlier, log = later ++ (n, v) :: earlier ∧
      v.LoadsExclusive ∧ n.core.base v.rn = a ∧ v.exclusiveSize = size ∧ ∀ e ∈ later, ¬e.2.StoresExclusive := by
  obtain ⟨later, ⟨n, v⟩, earlier, rfl, hevent, hlater⟩ := List.findSome?_eq_some_iff.1 h
  obtain ⟨hload, rfl, rfl⟩ := of_monitorEvent?_eq_loadExclusive hevent
  refine ⟨later, n, v, earlier, rfl, hload, rfl, rfl, fun e he hstore => ?_⟩
  have hnone := hlater e he
  rw [e.1.monitorEvent?_of_storesExclusive hstore] at hnone
  cases hnone

/-- In a run from a machine without a reservation an exclusive store is tried if the last event for the monitor was an
exclusive load of the same address and size, and left out otherwise; the reservation is gone in either case. A word that
is no event leaves the reservation as it is. Between a store that is tried and the load that lets it there is no other
exclusive store, so a load does so for one store only. -/
theorem exclusive_monitor {log : List (Machine × InstructionWord)} {m : Machine} (h : Executed log m)
    (w : InstructionWord) :
    (w.StoresExclusive →
      (m.execute w).2.core.monitor = none ∧
        if lastEvent? log = some (.loadExclusive (m.core.base w.rn) w.exclusiveSize) then m.TriesStore w
        else m.SkipsStore w) ∧
      (m.monitorEvent? w = none → (m.execute w).2.core.monitor = m.core.monitor) ∧
      ∀ a size, lastEvent? log = some (.loadExclusive a size) → ∃ later n v earlier,
        log = later ++ (n, v) :: earlier ∧ v.LoadsExclusive ∧ n.core.base v.rn = a ∧ v.exclusiveSize = size ∧
          ∀ e ∈ later, ¬e.2.StoresExclusive := by
  refine ⟨fun hw => ⟨?_, ?_⟩, fun hnone => ?_, fun _ _ => exists_load_of_lastEvent?⟩
  · rw [monitor_execute, m.monitorEvent?_of_storesExclusive hw]
    rfl
  · split
    next hlast => exact triesStore h.pending hw ((h.armed_iff _ _).2 hlast)
    next hlast => exact skipsStore hw fun harmed => hlast ((h.armed_iff _ _).1 harmed)
  · rw [monitor_execute, hnone]
    rfl

/-- After one exclusive load the first exclusive store is tried and the second one is left out. -/
theorem exclusive_monitor_load_store_store :
    let load : InstructionWord := 0xC85F7C41#32
    let store : InstructionWord := 0xC8037C44#32
    let m₀ : Machine :=
      { core := {
          state := ({} : State).write 2#5 0x1000#64
          memory := { blocks := [Block.ofBytes 0x1000#64 8 true []] } } }
    let m₁ : Machine := (m₀.execute load).2
    let m₂ : Machine := (m₁.execute store).2
    Executed [(m₁, store), (m₀, load)] m₂ ∧ store.StoresExclusive ∧ m₁.TriesStore store ∧ m₂.SkipsStore store := by
  intro load store m₀ m₁ m₂
  have hstore : store.StoresExclusive := by decide +kernel
  have hfirst : Executed [(m₀, load)] m₁ := .word (.start rfl rfl) load
  have hsecond : Executed [(m₁, store), (m₀, load)] m₂ := .word hfirst store
  have harmed : lastEvent? [(m₀, load)] = some (.loadExclusive (m₁.core.base store.rn) store.exclusiveSize) := by
    decide +kernel
  have hgone : lastEvent? [(m₁, store), (m₀, load)] ≠
      some (.loadExclusive (m₂.core.base store.rn) store.exclusiveSize) := by
    decide +kernel
  obtain ⟨_, htries⟩ := (exclusive_monitor hfirst store).1 hstore
  obtain ⟨_, hskips⟩ := (exclusive_monitor hsecond store).1 hstore
  rw [if_pos harmed] at htries
  rw [if_neg hgone] at hskips
  exact ⟨hsecond, hstore, htries, hskips⟩

end Machine
end AArch64
