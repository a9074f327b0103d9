import AArch64.Flags
import AArch64.Float.Encoding
import AArch64.Fpsr

/-! Comparison of floating-point values. Zeros of either sign are equal, and a NaN is unordered with everything. -/
namespace AArch64.Float

variable {p : Precision}

def order? (a b : Float p) : Option Ordering :=
  if isNaN a || isNaN b then none else some (compare (units a) (units b))

/-- Flags of a comparison. An unordered pair has its own pattern. -/
def compareFlags (a b : Float p) : Nzcv :=
  match order? a b with
  | none => Nzcv.ofNibble 0b0011#4
  | some .eq => Nzcv.ofNibble 0b0110#4
  | some .lt => Nzcv.ofNibble 0b1000#4
  | some .gt => Nzcv.ofNibble 0b0010#4

/-- A signalling comparison objects to every NaN, a quiet one to signalling NaNs only. -/
def objects (signalling : Bool) (a b : Float p) : Bool :=
  isSignalling a || isSignalling b || (signalling && (isNaN a || isNaN b))

def compareRaising (signalling : Bool) (a b : Float p) : Flagged Nzcv :=
  { value := compareFlags a b, raised := { invalidOperation := objects signalling a b } }

/-- Comparisons whose answer fills a lane. -/
inductive Relation
  | equal | greaterEqual | greater | absGreaterEqual | absGreater | lessEqual | less
  deriving DecidableEq

namespace Relation

def ofOrder : Relation → Ordering → Bool
  | equal, o => o.isEq
  | greaterEqual, o | absGreaterEqual, o => o.isGE
  | greater, o | absGreater, o => o.isGT
  | lessEqual, o => o.isLE
  | less, o => o.isLT

/-- The comparisons of magnitudes drop the signs first. -/
def operand (r : Relation) (x : Float p) : Float p :=
  match r with
  | absGreaterEqual | absGreater => abs x
  | _ => x

def holds (r : Relation) (a b : Float p) : Bool :=
  match order? (r.operand a) (r.operand b) with
  | some o => r.ofOrder o
  | none => false

/-- Only the test for equality is quiet. -/
def holdsRaising (r : Relation) (a b : Float p) : Flagged Bool :=
  { value := r.holds a b
    raised := { invalidOperation := objects (r != equal) (r.operand a) (r.operand b) } }

end Relation
end AArch64.Float
