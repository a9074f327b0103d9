import AArch64.Lanes
import AArch64.Registers

/-! The thirty-two vector registers. Scalar floating-point values live in lane 0 and clear the rest of the
register when they are written. -/
namespace AArch64

structure VectorRegisters where
  values : Vector (BitVec 128) 32 := Vector.replicate 32 0#128
  deriving Inhabited

namespace VectorRegisters

def get (v : VectorRegisters) (r : Register) : BitVec 128 :=
  v.values.get r.index

def set (v : VectorRegisters) (r : Register) (x : BitVec 128) : VectorRegisters :=
  { values := r.store v.values x }

end VectorRegisters
end AArch64
