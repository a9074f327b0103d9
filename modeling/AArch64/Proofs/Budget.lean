import AArch64.CommandLine.Session
import AArch64.Proofs.Stepping

/-! The instruction budget. A run is a loop that looks at the budget before each step, and a host is a loop that runs
its machine on behind breakpoints and callouts. With a budget both loops end, and every run but the last one spends
something of it. -/
namespace AArch64.Machine

/-- What becomes of a machine in at most `k` steps. -/
structure Progress (k : Nat) (m : Machine) (r : Status × Machine) : Prop where
  settings : r.2.settings = m.settings
  grows : m.retired ≤ r.2.retired
  bounded : r.2.retired ≤ m.retired + k
  /-- A machine is left ready only if each step was an instruction. -/
  full : r.1 = .ready → r.2.retired = m.retired + k
  /-- Without an instruction the machine has not moved or has come to its end. -/
  still : r.2.retired = m.retired → r.1 = m.status ∨ r.1 = .returned ∨ r.1 = .error
  /-- A breakpoint is reported and not kept. -/
  status : r.1 = r.2.status ∨ (r.1 = .breakpoint ∧ r.2.status = .ready)

theorem status_checkStack (m : Machine) : m.checkStack.1 = m.checkStack.2.status := by
  obtain h | h := m.checkStack_eq
  · rw [h]
  · rw [h]
    rfl

theorem status_finish (r : Except ErrorKind Completion) (m : Machine) :
    (finish (r, m)).1 = (finish (r, m)).2.status ∨
      ((finish (r, m)).1 = .breakpoint ∧ (finish (r, m)).2.status = .ready) := by
  have hcheck := m.commit.status_checkStack
  match r with
  | .ok .ready => exact .inl hcheck
  | .ok .callout => exact .inl rfl
  | .ok .halt => exact .inl rfl
  | .error e => exact .inl rfl
  | .ok .breakpoint =>
    simp only [finish]
    generalize m.commit.checkStack = s at hcheck ⊢
    obtain ⟨status, n⟩ := s
    cases status with
    | ready => exact .inr ⟨rfl, hcheck.symm⟩
    | _ => exact .inl hcheck

theorem progress_step (m : Machine) : Progress 1 m m.step := by
  have hstepped := m.stepped
  generalize m.step = r at hstepped ⊢
  cases hstepped with
  | idle h =>
    exact ⟨rfl, Nat.le_refl _, Nat.le_succ _, fun hready => absurd hready h, fun _ => .inl rfl, .inl rfl⟩
  | returned h hpc =>
    exact ⟨rfl, Nat.le_refl _, Nat.le_succ _, nofun, fun _ => .inr (.inl rfl), .inl rfl⟩
  | unfetched h f hf =>
    exact ⟨rfl, Nat.le_refl _, Nat.le_succ _, nofun, fun _ => .inr (.inr rfl), .inl rfl⟩
  | executed h hf =>
    have hagree := m.fetched.agree_footprint m.nextWord
    generalize m.fetched.execute m.nextWord = e at hagree ⊢
    obtain ⟨r, n⟩ := e
    have hstatus := status_finish r n
    obtain ⟨pc, status, error, heq⟩ := finish_eq r n
    have hsettings : (finish (r, n)).2.settings = m.settings := by
      rw [heq]
      exact hagree.settings
    have hretired : (finish (r, n)).2.retired = m.retired + 1 := by
      rw [heq]
      exact hagree.retired
    exact ⟨hsettings, by omega, by omega, fun _ => hretired, fun hstill => by omega, hstatus⟩

theorem progress_runFor (k : Nat) (m : Machine) : Progress k m (runFor k m) := by
  induction k generalizing m with
  | zero => exact ⟨rfl, Nat.le_refl _, Nat.le_refl _, fun _ => rfl, fun _ => .inl rfl, .inl rfl⟩
  | succ k ih =>
    have hstep := m.progress_step
    unfold runFor
    split
    next n hn =>
      rw [hn] at hstep
      have hrest := ih n
      have hone : n.retired = m.retired + 1 := hstep.full rfl
      have hgrows := hrest.grows
      have hbounded := hrest.bounded
      exact ⟨hrest.settings.trans hstep.settings, by omega, by omega,
        fun hready => by rw [hrest.full hready]; omega, fun hstill => by omega, hrest.status⟩
    next hstop =>
      have hne : m.step.1 ≠ .ready := fun hready => hstop m.step.2 (Prod.ext hready rfl)
      have hbounded := hstep.bounded
      exact { hstep with bounded := by omega, full := fun hready => absurd hready hne }

theorem progress_run (m : Machine) : Progress m.budget m m.run := progress_runFor m.budget m

def Spent (m : Machine) : Prop := ∃ n, m.settings.maxInstructions = some n ∧ n.toNat ≤ m.retired

/-- A run as a loop that nothing but its own test and steps brings to an end. -/
inductive RunsTo : Machine → Status × Machine → Prop
  | spent {m : Machine} (h : m.Spent) : RunsTo m (m.status, m)
  | stopped {m : Machine} (h : ¬m.Spent) (hstop : m.step.1 ≠ .ready) : RunsTo m m.step
  | stepped {m : Machine} {r : Status × Machine} (h : ¬m.Spent) (hready : m.step.1 = .ready) (hr : RunsTo m.step.2 r) :
      RunsTo m r

theorem RunsTo.unique {m : Machine} {r r' : Status × Machine} (h : RunsTo m r) (h' : RunsTo m r') : r = r' := by
  induction h with
  | spent hspent =>
    cases h' with
    | spent => rfl
    | stopped hnot | stepped hnot => exact absurd hspent hnot
  | stopped hnot hstop =>
    cases h' with
    | spent hspent => exact absurd hspent hnot
    | stopped => rfl
    | stepped _ hready => exact absurd hready hstop
  | stepped hnot hready _ ih =>
    cases h' with
    | spent hspent => exact absurd hspent hnot
    | stopped _ hstop => exact absurd hready hstop
    | stepped _ _ hr => exact ih hr

section Bounded

variable {m : Machine} {n : BitVec 64}

theorem spent_iff (hmax : m.settings.maxInstructions = some n) : m.Spent ↔ n.toNat ≤ m.retired := by
  simp [Spent, hmax]

theorem budget_eq (hmax : m.settings.maxInstructions = some n) : m.budget = n.toNat - m.retired := by
  simp [budget, hmax]

theorem runsTo_runFor (k : Nat) (hmax : m.settings.maxInstructions = some n) (hk : n.toNat - m.retired = k) :
    RunsTo m (runFor k m) := by
  induction k generalizing m with
  | zero => exact .spent ((spent_iff hmax).2 (by omega))
  | succ k ih =>
    have hnot : ¬m.Spent := fun hspent => by
      have hle := (spent_iff hmax).1 hspent
      omega
    have hstep := m.progress_step
    unfold runFor
    split
    next m' hm' =>
      rw [hm'] at hstep
      have hone : m'.retired = m.retired + 1 := hstep.full rfl
      have hrest : RunsTo m' (runFor k m') := ih (by rw [hstep.settings, hmax]) (by omega)
      refine .stepped hnot (congrArg Prod.fst hm') ?_
      rw [hm']
      exact hrest
    next hstop => exact .stopped hnot fun hready => hstop m.step.2 (Prod.ext hready rfl)

/-- With a budget the loop of a run ends, and it ends as `run` does. -/
theorem runsTo_iff (hmax : m.settings.maxInstructions = some n) (r : Status × Machine) : RunsTo m r ↔ r = m.run := by
  have hrun : RunsTo m m.run := runsTo_runFor m.budget hmax (budget_eq hmax).symm
  constructor
  · intro h
    exact h.unique hrun
  · rintro rfl
    exact hrun

theorem retired_run_le (hmax : m.settings.maxInstructions = some n) (hle : m.retired ≤ n.toNat) :
    m.run.2.retired ≤ n.toNat := by
  have hbounded := m.progress_run.bounded
  rw [budget_eq hmax] at hbounded
  omega

theorem retired_run_of_ready (hmax : m.settings.maxInstructions = some n) (hle : m.retired ≤ n.toNat)
    (hready : m.run.1 = .ready) : m.run.2.retired = n.toNat := by
  have hfull := m.progress_run.full hready
  rw [budget_eq hmax] at hfull
  omega

/-- A run that comes to a breakpoint, or to a callout that was not pending, has executed something. -/
theorem lt_retired_run (hm : m.Consistent)
    (h : m.run.1 = .breakpoint ∨ (m.run.1 = .callout ∧ m.status = .ready)) : m.retired < m.run.2.retired := by
  refine Nat.lt_of_le_of_ne m.progress_run.grows fun heq => ?_
  have hstill := m.progress_run.still heq.symm
  obtain hbreak | ⟨hcall, hready⟩ := h
  · simp [hbreak, Ne.symm hm.status] at hstill
  · simp [hcall, hready] at hstill

end Bounded

/-- A host runs the machine on behind breakpoints, and behind callouts once it has acknowledged them. The number counts
the runs. -/
inductive HostRuns : Nat → Machine → Status × Machine → Prop
  | ended {m : Machine} (hbreak : m.run.1 ≠ .breakpoint) (hcall : m.run.1 ≠ .callout) : HostRuns 1 m m.run
  | breakpoint {m : Machine} {k : Nat} {r : Status × Machine} (h : m.run.1 = .breakpoint) (hr : HostRuns k m.run.2 r) :
      HostRuns (k + 1) m r
  | callout {m n : Machine} {k : Nat} {r : Status × Machine} (h : m.run.1 = .callout) (hn : m.run.2.resume = .ok n)
      (hr : HostRuns k n r) : HostRuns (k + 1) m r
  | refused {m : Machine} {e : ErrorKind} (h : m.run.1 = .callout) (he : m.run.2.resume = .error e) :
      HostRuns 1 m (.callout, m.run.2)

/-- A machine that a host runs on, with what is left of its budget. -/
structure Runnable (n : BitVec 64) (m : Machine) : Prop where
  consistent : m.Consistent
  status : m.status = .ready
  settings : m.settings.maxInstructions = some n
  retired : m.retired ≤ n.toNat

namespace Runnable

variable {m : Machine} {n : BitVec 64}

theorem of_run (h : m.Runnable n) (hready : m.run.2.status = .ready) : m.run.2.Runnable n where
  consistent := h.consistent.runFor m.budget
  status := hready
  settings := by rw [m.progress_run.settings, h.settings]
  retired := retired_run_le h.settings h.retired

theorem of_breakpoint (h : m.Runnable n) (hbreak : m.run.1 = .breakpoint) : m.run.2.Runnable n := by
  refine h.of_run ?_
  obtain heq | ⟨_, hready⟩ := m.progress_run.status
  · exact absurd (heq.symm.trans hbreak) (h.consistent.runFor m.budget).status
  · exact hready

theorem exists_of_callout (h : m.Runnable n) (hcall : m.run.1 = .callout) :
    ∃ m', m.run.2.resume = .ok m' ∧ m'.Runnable n ∧ m'.retired = m.run.2.retired := by
  have hpending : m.run.2.status = .callout := by
    obtain heq | ⟨hbreak, _⟩ := m.progress_run.status
    · exact heq.symm.trans hcall
    · rw [hcall] at hbreak
      cases hbreak
  have hresume : m.run.2.resume = .ok { m.run.2 with status := .ready, callout := none } := if_pos hpending
  have hconsistent : (m.run.2.perform .resume).Consistent := (h.consistent.runFor m.budget).perform .resume
  have hperform : m.run.2.perform .resume = { m.run.2 with status := .ready, callout := none } := by
    simp only [perform, hresume]
    rfl
  rw [hperform] at hconsistent
  refine ⟨_, hresume, ⟨hconsistent, rfl, ?_, retired_run_le h.settings h.retired⟩, rfl⟩
  exact (congrArg Settings.maxInstructions m.progress_run.settings).trans h.settings

end Runnable

theorem runOn_succ_of_breakpoint {m : Machine} (k : Nat) (h : m.run.1 = .breakpoint) :
    runOn (k + 1) m = runOn k m.run.2 := by
  have hrun : m.run = (.breakpoint, m.run.2) := Prod.ext h rfl
  rw [runOn, hrun]

theorem runOn_succ_of_callout {m n : Machine} (k : Nat) (h : m.run.1 = .callout) (hn : m.run.2.resume = .ok n) :
    runOn (k + 1) m = runOn k n := by
  have hrun : m.run = (.callout, m.run.2) := Prod.ext h rfl
  rw [runOn, hrun]
  simp only [hn]

theorem runOn_succ_of_ended {m : Machine} (k : Nat) (hbreak : m.run.1 ≠ .breakpoint) (hcall : m.run.1 ≠ .callout) :
    runOn (k + 1) m = m.run := by
  rw [runOn]
  split
  next hrun => exact absurd (congrArg Prod.fst hrun) hbreak
  next hrun => exact absurd (congrArg Prod.fst hrun) hcall
  next => rfl

/-- Every run but the last one takes something from what is left of the budget. -/
theorem hostRuns_runOn {n : BitVec 64} (fuel : Nat) {m : Machine} (h : m.Runnable n)
    (hfuel : n.toNat - m.retired < fuel) :
    ∃ calls ≤ n.toNat - m.retired + 1, HostRuns calls m (runOn fuel m) ∧
      (runOn fuel m).1 ∈ [.ready, .returned, .halted, .error] := by
  induction fuel generalizing m with
  | zero => omega
  | succ fuel ih =>
    have hle := retired_run_le h.settings h.retired
    by_cases hbreak : m.run.1 = .breakpoint
    · have hlt := lt_retired_run h.consistent (.inl hbreak)
      obtain ⟨calls, hcalls, hrest, hend⟩ := ih (h.of_breakpoint hbreak) (by omega)
      rw [runOn_succ_of_breakpoint fuel hbreak]
      exact ⟨calls + 1, by omega, .breakpoint hbreak hrest, hend⟩
    by_cases hcall : m.run.1 = .callout
    · have hlt := lt_retired_run h.consistent (.inr ⟨hcall, h.status⟩)
      obtain ⟨m', hresume, hnext, hretired⟩ := h.exists_of_callout hcall
      obtain ⟨calls, hcalls, hrest, hend⟩ := ih hnext (by omega)
      rw [runOn_succ_of_callout fuel hcall hresume]
      exact ⟨calls + 1, by omega, .callout hcall hresume hrest, hend⟩
    · rw [runOn_succ_of_ended fuel hbreak hcall]
      refine ⟨1, by omega, .ended hbreak hcall, ?_⟩
      cases hstatus : m.run.1 <;> simp_all

theorem within_budget_perform {m : Machine} {n : BitVec 64} {op : Operation}
    (hmax : m.settings.maxInstructions = some n) (hle : m.retired ≤ n.toNat) (hop : op ≠ .step) :
    (m.perform op).settings.maxInstructions = some n ∧ (m.perform op).retired ≤ n.toNat := by
  by_cases hrun : op = .run
  · rw [hrun]
    exact ⟨(congrArg Settings.maxInstructions m.progress_run.settings).trans hmax, retired_run_le hmax hle⟩
  · have hkept := m.keptByHost_perform hop hrun
    refine ⟨by rw [hkept.settings, hmax], ?_⟩
    obtain heq | hzero := hkept.retired
    · rwa [heq]
    · rw [hzero]
      exact Nat.zero_le _

theorem within_budget_foldl {m : Machine} {n : BitVec 64} (ops : List Operation)
    (hmax : m.settings.maxInstructions = some n) (hle : m.retired ≤ n.toNat) (hops : ∀ op ∈ ops, op ≠ .step) :
    (ops.foldl perform m).settings.maxInstructions = some n ∧ (ops.foldl perform m).retired ≤ n.toNat := by
  induction ops generalizing m with
  | nil => exact ⟨hmax, hle⟩
  | cons op ops ih =>
    obtain ⟨hmax', hle'⟩ := within_budget_perform hmax hle (hops op List.mem_cons_self)
    exact ih hmax' hle' fun o ho => hops o (List.mem_cons_of_mem op ho)

theorem machineWith_eq_after {settings : Settings} {path : String} {image : Elf.Image} {m : Machine}
    (h : CommandLine.machineWith settings path image = .ok m) :
    m = after settings [.load image.segments, .init image.entry image.heapStart] ∧ m.status = .ready := by
  simp only [CommandLine.machineWith] at h
  split at h
  next => cases h
  next =>
    split at h
    next => cases h
    next loaded hloaded =>
      split at h
      next => cases h
      next =>
        split at h
        next => cases h
        next n hn =>
          cases h
          have hafter : after settings [.load image.segments, .init image.entry image.heapStart]
              = (loaded.init image.entry image.heapStart).2 := by
            simp only [after, List.foldl_cons, List.foldl_nil, perform, hloaded]
          obtain ⟨e, he⟩ | ⟨memory, _, hok⟩ := loaded.init_cases image.entry image.heapStart
          · rw [hn] at he
            cases he
          · rw [hafter, hn]
            rw [hn] at hok
            exact ⟨rfl, congrArg (fun r => r.2.status) hok⟩

/-- In a history whose instructions are executed by runs alone, the count of instructions stays within the budget. The
loop of a run ends, at the full count if it leaves the machine ready, and a stop that the host goes on behind has cost
at least one instruction, so the host's own loop over an image ends after as many runs as the budget has
instructions and one more. -/
theorem run_within_budget {settings : Settings} {n : BitVec 64} {ops : List Operation}
    (hmax : settings.maxInstructions = some n) (hops : ∀ op ∈ ops, op ≠ .step) :
    let m := after settings ops
    m.retired ≤ n.toNat ∧ (∀ r, RunsTo m r ↔ r = m.run) ∧ (m.run.1 = .ready → m.run.2.retired = n.toNat) ∧
      (m.run.1 = .breakpoint ∨ (m.run.1 = .callout ∧ m.status = .ready) → m.retired < m.run.2.retired) ∧
      ∀ path image c, CommandLine.machineWith settings path image = .ok c →
        ∃ calls ≤ n.toNat + 1, HostRuns calls c c.runToEnd ∧ c.runToEnd.1 ∈ [.ready, .returned, .halted, .error] := by
  intro m
  obtain ⟨hset, hle⟩ := within_budget_foldl (m := { settings }) ops hmax (Nat.zero_le _) hops
  refine ⟨hle, runsTo_iff hset, retired_run_of_ready hset hle, lt_retired_run (consistent_after settings ops), ?_⟩
  intro path image c hc
  obtain ⟨rfl, hready⟩ := machineWith_eq_after hc
  obtain ⟨hset', hle'⟩ := within_budget_foldl (m := { settings })
    [.load image.segments, .init image.entry image.heapStart] hmax (Nat.zero_le _) (by simp)
  have hrunnable : Runnable n (after settings [.load image.segments, .init image.entry image.heapStart]) :=
    ⟨consistent_after settings _, hready, hset', hle'⟩
  have hbudget := budget_eq hset'
  obtain ⟨calls, hcalls, hruns, hend⟩ := hostRuns_runOn _ hrunnable (Nat.lt_succ_of_le (Nat.le_of_eq hbudget.symm))
  exact ⟨calls, by omega, hruns, hend⟩

/-- Two instructions, a call of the host and a breakpoint, spend a budget of two. -/
theorem run_within_budget_two :
    let settings : Settings := { maxInstructions := some 2#64 }
    let code : Segment :=
      { base := 0x1000#64, bytes := [0x01#8, 0x00#8, 0x00#8, 0xD4#8, 0x00#8, 0x00#8, 0x20#8, 0xD4#8], memLen := 8#64,
        writable := false }
    let ops : List Operation := [.load [code], .init 0x1000#64 none, .run, .resume, .run]
    (after settings ops).retired ≤ (2#64).toNat ∧ (after settings ops).run.1 = .ready ∧
      (after settings ops).run.2.retired = (2#64).toNat := by
  intro settings code ops
  have hops : ∀ op ∈ ops, op ≠ .step := by simp [ops]
  have hready : (after settings ops).run.1 = .ready := by decide +kernel
  obtain ⟨hle, _, hspent, _⟩ := @run_within_budget settings 2#64 ops rfl hops
  -- from here on nothing may be evaluated
  clear_value settings ops
  exact ⟨hle, hready, hspent hready⟩

end AArch64.Machine
