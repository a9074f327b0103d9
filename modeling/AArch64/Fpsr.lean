/-! The floating-point status register and values that come with the status flags their computation raised.
The flags are cumulative: an instruction can set them and never clears one. -/
namespace AArch64

structure Fpsr where
  invalidOperation : Bool := false
  divideByZero : Bool := false
  overflow : Bool := false
  underflow : Bool := false
  inexact : Bool := false
  inputDenormal : Bool := false
  saturation : Bool := false
  deriving DecidableEq, Inhabited

namespace Fpsr

/-- The flags held by a system register value; its other bits are reserved and dropped. -/
def ofBits (x : BitVec 32) : Fpsr where
  invalidOperation := x.getLsbD 0
  divideByZero := x.getLsbD 1
  overflow := x.getLsbD 2
  underflow := x.getLsbD 3
  inexact := x.getLsbD 4
  inputDenormal := x.getLsbD 7
  saturation := x.getLsbD 27

def toBits (f : Fpsr) : BitVec 32 :=
  0#4 ++ BitVec.ofBool f.saturation ++ 0#19 ++ BitVec.ofBool f.inputDenormal ++ 0#2
    ++ BitVec.ofBool f.inexact ++ BitVec.ofBool f.underflow ++ BitVec.ofBool f.overflow
    ++ BitVec.ofBool f.divideByZero ++ BitVec.ofBool f.invalidOperation

def raise (f g : Fpsr) : Fpsr where
  invalidOperation := f.invalidOperation || g.invalidOperation
  divideByZero := f.divideByZero || g.divideByZero
  overflow := f.overflow || g.overflow
  underflow := f.underflow || g.underflow
  inexact := f.inexact || g.inexact
  inputDenormal := f.inputDenormal || g.inputDenormal
  saturation := f.saturation || g.saturation

@[simp] theorem ofBits_toBits (f : Fpsr) : ofBits f.toBits = f := by
  rcases f with ⟨_ | _, _ | _, _ | _, _ | _, _ | _, _ | _, _ | _⟩ <;> rfl

@[simp] theorem raise_none (f : Fpsr) : f.raise {} = f := by
  simp [raise]

@[simp] theorem none_raise (f : Fpsr) : raise {} f = f := by
  simp [raise]

theorem raise_assoc (f g h : Fpsr) : (f.raise g).raise h = f.raise (g.raise h) := by
  simp [raise, Bool.or_assoc]

end Fpsr

/-- A result and the status flags raised on the way to it. -/
structure Flagged (α : Type) where
  value : α
  raised : Fpsr := {}

namespace Flagged

instance : Monad Flagged where
  pure x := { value := x }
  bind x f := { value := (f x.value).value, raised := x.raised.raise (f x.value).raised }

def invalid {α : Type} (x : α) : Flagged α :=
  { value := x, raised := { invalidOperation := true } }

@[simp] theorem value_pure {α : Type} (x : α) : (pure x : Flagged α).value = x := rfl

@[simp] theorem raised_pure {α : Type} (x : α) : (pure x : Flagged α).raised = {} := rfl

@[simp] theorem value_bind {α β : Type} (x : Flagged α) (f : α → Flagged β) :
    (x >>= f).value = (f x.value).value := rfl

@[simp] theorem raised_bind {α β : Type} (x : Flagged α) (f : α → Flagged β) :
    (x >>= f).raised = x.raised.raise (f x.value).raised := rfl

end Flagged
end AArch64
