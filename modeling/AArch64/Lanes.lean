import AArch64.Fpsr

/-! A vector value is one 128-bit number. Lane `i` of the view with `esize`-bit lanes is its bits from
`i * esize` on, so views of different lane widths overlap on the bits they share. -/
namespace AArch64

inductive ElementSize
  | byte | half | word | double
  deriving DecidableEq

namespace ElementSize

def bits : ElementSize → Nat
  | byte => 8 | half => 16 | word => 32 | double => 64

def ofCode (code : BitVec 2) : ElementSize :=
  match code.toNat with
  | 0 => byte | 1 => half | 2 => word | _ => double

/-- The size with that many bits; every number that is not the width of a narrow lane means 64. -/
def ofBits (n : Nat) : ElementSize :=
  if n = 8 then byte else if n = 16 then half else if n = 32 then word else double

end ElementSize

namespace Lanes

variable {esize : Nat}

def get (v : BitVec 128) (esize i : Nat) : BitVec esize :=
  v.extractLsb' (i * esize) esize

def set (v : BitVec 128) (i : Nat) (x : BitVec esize) : BitVec 128 :=
  v &&& ~~~((BitVec.allOnes esize).setWidth 128 <<< (i * esize)) ||| x.setWidth 128 <<< (i * esize)

def inRange (esize i : Nat) : Bool :=
  decide ((i + 1) * esize ≤ 128)

def get? (v : BitVec 128) (esize i : Nat) : Option (BitVec esize) :=
  if inRange esize i then some (get v esize i) else none

def set? (v : BitVec 128) (i : Nat) (x : BitVec esize) : Option (BitVec 128) :=
  if inRange esize i then some (set v i x) else none

/-- The value whose first `n` lanes are given by `f`; the rest is zero. -/
def build : (n : Nat) → (f : Nat → BitVec esize) → BitVec 128
  | 0, _ => 0#128
  | n + 1, f => set (build n f) n (f n)

def buildFlagged : (n : Nat) → (f : Nat → Flagged (BitVec esize)) → Flagged (BitVec 128)
  | 0, _ => pure 0#128
  | n + 1, f => do
    let v ← buildFlagged n f
    let x ← f n
    pure (set v n x)

def scalar (x : BitVec esize) : BitVec 128 :=
  x.setWidth 128

def clearFrom (v : BitVec 128) (k : Nat) : BitVec 128 :=
  (v.setWidth (8 * k)).setWidth 128

/-- There are sixteen bytes, so the clearing may start no later than byte 16. -/
def clearFrom? (v : BitVec 128) (k : Nat) : Option (BitVec 128) :=
  if k ≤ 16 then some (clearFrom v k) else none

def sized (v : BitVec 128) (full : Bool) : BitVec 128 :=
  if full then v else clearFrom v 8

def double (x : BitVec 64) : BitVec 128 :=
  x ++ x

theorem value_buildFlagged (n : Nat) (f : Nat → Flagged (BitVec esize)) :
    (buildFlagged n f).value = build n fun i => (f i).value := by
  induction n with
  | zero => rfl
  | succ n ih => simp [buildFlagged, build, ih]

end Lanes
end AArch64
