import AArch64.Machine.Basic

/-! Stepping a machine and running it to its next stop. -/
namespace AArch64.Machine

variable (m : Machine)

def belowLimit : Bool :=
  match m.stackLimit with
  | some limit => decide (m.state.sp.toNat < limit.toNat)
  | none => false

def checkStack : Status × Machine :=
  if m.belowLimit then m.fail .stackOverflow else (m.status, m)

def stop (s : Status) : Status × Machine :=
  (s, { m with status := s })

/-- What an executed instruction means for the run. A breakpoint is reported once and leaves the machine ready
to go on behind it. -/
def finish (r : Except ErrorKind Completion × Machine) : Status × Machine :=
  match r with
  | (.ok .ready, m) => m.commit.checkStack
  | (.ok .breakpoint, m) =>
    match m.commit.checkStack with
    | (.ready, m) => (.breakpoint, m)
    | stopped => stopped
  | (.ok .callout, m) => m.commit.stop .callout
  | (.ok .halt, m) => m.stop .halted
  | (.error e, m) => m.fail e

/-- The word at the program counter, or the machine with the fault of the failed fetch. -/
def fetch : Option InstructionWord × Machine :=
  let (word, memory) := m.core.memory.read m.state.pc 4
  match { m with core := { m.core with memory } : Machine }.takeFault with
  | (none, m) => (some word, m)
  | (some _, m) => (none, m)

def step : Status × Machine :=
  if m.status ≠ .ready then (m.status, m)
  else if m.state.pc = returnAddress then m.stop .returned
  else
    match m.fetch with
    | (none, m) => m.fail .memoryException
    | (some word, m) =>
      finish (({ m with instruction := word, retired := m.retired + 1 } : Machine).stage.execute word)

/-- Steps until something other than readiness comes up, at most `n` times. -/
def runFor : (n : Nat) → (m : Machine) → Status × Machine
  | 0, m => (m.status, m)
  | n + 1, m =>
    match m.step with
    | (.ready, m) => runFor n m
    | stopped => stopped

/-- Instructions left in the budget. The count is of 64 bits, so it bounds a run without a budget too. -/
def budget : Nat :=
  (match m.settings.maxInstructions with
    | some n => n.toNat
    | none => 2 ^ 64) - m.retired

def run : Status × Machine :=
  runFor m.budget m

def resume : Except ErrorKind Machine :=
  if m.status = .callout then .ok { m with status := .ready, callout := none }
  else .error .clientError

end AArch64.Machine
