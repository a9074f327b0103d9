import AArch64.Flags
import AArch64.Power

/-! Addition with a carry in and the flags of its result. Subtraction is addition of the complement with the
carry set, so the carry flag of a difference means "no borrow". -/
namespace AArch64

variable {w : Nat}

structure Sum (w : Nat) where
  result : BitVec w
  flags : Nzcv

/-- Carry is the bit beyond the top; overflow is a result whose sign differs from that of both operands. -/
def addWithCarry (a b : BitVec w) (carry : Bool) : Sum w :=
  let result := a + b + BitVec.ofNat w carry.toNat
  { result
    flags :=
      { negative := result.msb
        zero := result == 0#w
        carry := decide (2 ^ w ≤ a.toNat + b.toNat + carry.toNat)
        overflow := a.msb == b.msb && a.msb != result.msb } }

def addOrSub (subtract : Bool) (a b : BitVec w) : Sum w :=
  if subtract then addWithCarry a (~~~b) true else addWithCarry a b false

/-- Flags of a result that has no carry and no overflow. -/
def logicalFlags (x : BitVec w) : Nzcv :=
  { negative := x.msb, zero := x == 0#w }

end AArch64
