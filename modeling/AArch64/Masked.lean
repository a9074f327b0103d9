import AArch64.Power

/-! Bits, fields and rotations by shifts and masks. Where a shift amount, a bit number or a width is out of range there
is no result. -/
namespace AArch64.Masked

variable {w : Nat}

def shiftLeft? (x : BitVec w) (k : Nat) : Option (BitVec w) :=
  if k < w then some (x <<< k) else none

def shiftRight? (x : BitVec w) (k : Nat) : Option (BitVec w) :=
  if k < w then some (x >>> k) else none

def signedShiftRight? (x : BitVec w) (k : Nat) : Option (BitVec w) :=
  if k < w then some (x.sshiftRight k) else none

def sub? (a b : Nat) : Option Nat :=
  if b ≤ a then some (a - b) else none

def unsigned? (n x : Nat) : Option Nat :=
  if x < 2 ^ n then some x else none

def signed? (n : Nat) (x : Int) : Option Int :=
  if -2 ^ (n - 1) ≤ x ∧ x < 2 ^ (n - 1) then some x else none

def bit? (x : BitVec w) (i : Nat) : Option Bool := do
  some (((← shiftRight? x i) &&& 1#w) == 1#w)

def setBit? (x : BitVec w) (i : Nat) (b : Bool) : Option (BitVec w) := do
  let mask ← shiftLeft? 1#w i
  some (if b then x ||| mask else x &&& ~~~mask)

/-- Ones in the lowest bits of a word, and in all of it when there are too many of them. -/
def low? (w length : Nat) : Option (BitVec w) :=
  if w ≤ length then some (BitVec.allOnes w) else do some ((← shiftLeft? 1#w length) - 1#w)

def bits? (x : BitVec w) (lo hi : Nat) : Option (BitVec w) := do
  let length := (← sub? hi lo) + 1
  if w < lo + length then none
  else
    let mask ← low? w length
    some ((← shiftRight? x lo) &&& mask)

/-- The sign goes up to the top bit and comes back with its copies. -/
def signExtended? (x : BitVec w) (n : Nat) : Option (BitVec w) :=
  if n = 0 then none
  else do
    let shift ← sub? w n
    signedShiftRight? (← shiftLeft? x shift) shift

def field? (x : BitVec 64) (hi lo : Nat) : Option (BitVec 64) :=
  if lo ≤ hi then bits? x lo hi else bits? x hi lo

def signedField? (x : BitVec 64) (hi lo : Nat) : Option Int := do
  let length := if lo ≤ hi then hi - lo + 1 else lo - hi + 1
  some (← signExtended? (← field? x hi lo) length).toInt

def ones (count : Nat) : BitVec 64 :=
  if 64 ≤ count then BitVec.allOnes 64 else 1#64 <<< count - 1#64

def mask? (hi lo : Nat) : Option (BitVec 64) :=
  if lo ≤ hi then shiftLeft? (ones (hi - lo + 1)) lo else shiftLeft? (ones (lo - hi + 1)) hi

def pick? (x : BitVec 64) (hi lo place : Nat) : Option (BitVec 64) := do
  shiftLeft? (← field? x hi lo) place

/-- No amount is shifted by the whole width, which a rotation by nothing would need. -/
def rotateRight? (x : BitVec 64) (amount width : Nat) : Option (BitVec 64) :=
  if width = 0 then none
  else
    let x := x &&& ones width
    let amount := amount % width
    if amount = 0 then some x
    else do
      let low ← shiftRight? x amount
      let high ← shiftLeft? x (width - amount)
      some ((low ||| high) &&& ones width)

/-- The copies from bit `place` on, over those that are there. -/
def replicateFrom (element : BitVec 64) (esize place : Nat) (result : BitVec 64) : BitVec 64 :=
  if place < 64 ∧ 0 < esize then
    replicateFrom element esize (place + esize) (result ||| element <<< place)
  else result
termination_by 64 - place

/-- Without a size the copies would never be done. -/
def replicate? (element : BitVec 64) (esize : Nat) : Option (BitVec 64) :=
  if esize = 0 then none else some (replicateFrom (element &&& ones esize) esize 0 0#64)

end AArch64.Masked
