import AArch64.Machine.Setup

/-! Blocks that are larger than any host can hold. -/
namespace AArch64

/-- The most bytes that one block may have. -/
def Block.capacity : Nat := 2 ^ 63 - 1

/-- Whether the segment has its place in memory but cannot be held there. -/
def Segment.overflows (s : Segment) : Bool :=
  !s.debug && decide (s.bytes.length ≤ s.memLen.toNat) && decide (Block.capacity < s.memLen.toNat)

namespace Machine

variable (m : Machine)

def loadOverflows : (segments : List Segment) → (m : Machine) → Bool
  | [], _ => false
  | s :: rest, m =>
    s.overflows ||
      match m.loadSegment s with
      | .ok m => loadOverflows rest m
      | .error _ => false

def initOverflows (start : Option (BitVec 64)) : Bool :=
  decide (Block.capacity < m.settings.stackTop.toNat - (m.heapStart start).toNat)

end Machine
end AArch64
