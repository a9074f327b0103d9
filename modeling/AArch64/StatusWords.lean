import AArch64.Bits
import AArch64.Flags
import AArch64.Fpsr

/-! The condition flags and the status register as the words that hold them. A raw value loses its reserved bits on the
way in, and a flag is one bit of the word. -/
namespace AArch64

inductive ConditionFlag
  | negative | zero | carry | overflow
  deriving DecidableEq

def ConditionFlag.place : ConditionFlag → Nat
  | negative => 31 | zero => 30 | carry => 29 | overflow => 28

/-- The bits of the system register that hold flags; the others are reserved. -/
def Nzcv.defined : BitVec 32 := 0xF0000000#32

@[ext] structure NzcvWord where
  bits : BitVec 32 := 0#32
  deriving DecidableEq

namespace NzcvWord

def ofBits (x : BitVec 32) : NzcvWord where
  bits := x &&& Nzcv.defined

/-- The flags in the four lowest bits of a field of the instruction. -/
def ofNibble (x : BitVec 32) : NzcvWord where
  bits := (x &&& 0xF#32) <<< 28

def ofFlags (negative zero carry overflow : Bool) : NzcvWord where
  bits := (BitVec.ofBool negative).setWidth 32 <<< 31 ||| (BitVec.ofBool zero).setWidth 32 <<< 30
    ||| (BitVec.ofBool carry).setWidth 32 <<< 29 ||| (BitVec.ofBool overflow).setWidth 32 <<< 28

def flag (r : NzcvWord) (f : ConditionFlag) : Bool := r.bits.getLsbD f.place

def setFlag (r : NzcvWord) (f : ConditionFlag) (on : Bool) : NzcvWord where
  bits := Bits.setBit r.bits f.place on

def view (r : NzcvWord) : Nzcv where
  negative := r.flag .negative
  zero := r.flag .zero
  carry := r.flag .carry
  overflow := r.flag .overflow

def Clean (r : NzcvWord) : Prop := r.bits &&& ~~~Nzcv.defined = 0#32

instance (r : NzcvWord) : Decidable r.Clean := inferInstanceAs (Decidable (_ = _))

end NzcvWord

def Nzcv.word (f : Nzcv) : NzcvWord where
  bits := f.toBits

inductive StatusFlag
  | invalidOperation | divideByZero | overflow | underflow | inexact | inputDenormal | saturation
  deriving DecidableEq

def StatusFlag.place : StatusFlag → Nat
  | invalidOperation => 0 | divideByZero => 1 | overflow => 2 | underflow => 3 | inexact => 4
  | inputDenormal => 7 | saturation => 27

def Fpsr.defined : BitVec 32 := 0x0800009F#32

@[ext] structure FpsrWord where
  bits : BitVec 32 := 0#32
  deriving DecidableEq

namespace FpsrWord

def ofBits (x : BitVec 32) : FpsrWord where
  bits := x &&& Fpsr.defined

def setFlag (r : FpsrWord) (f : StatusFlag) (on : Bool) : FpsrWord where
  bits := Bits.setBit r.bits f.place on

/-- A flag that was not raised keeps its value. -/
def raiseFlag (r : FpsrWord) (f : StatusFlag) (raised : Bool) : FpsrWord :=
  if raised then r.setFlag f true else r

def raise (r : FpsrWord) (f : Fpsr) : FpsrWord :=
  ((((((r.raiseFlag .invalidOperation f.invalidOperation).raiseFlag .divideByZero f.divideByZero).raiseFlag .overflow
    f.overflow).raiseFlag .underflow f.underflow).raiseFlag .inexact f.inexact).raiseFlag .inputDenormal
    f.inputDenormal).raiseFlag .saturation f.saturation

def Clean (r : FpsrWord) : Prop := r.bits &&& ~~~Fpsr.defined = 0#32

instance (r : FpsrWord) : Decidable r.Clean := inferInstanceAs (Decidable (_ = _))

end FpsrWord

def Fpsr.word (f : Fpsr) : FpsrWord where
  bits := f.toBits

end AArch64
