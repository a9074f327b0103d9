import AArch64.Power

/-! Fields, masks and rotations of machine words. Bit 0 is the least significant bit, and a field is
named by the numbers of its first and last bit, both included. -/
namespace AArch64.Bits

variable {w : Nat}

def slice (x : BitVec w) (lo hi : Nat) : BitVec w :=
  (x.extractLsb hi lo).setWidth w

def signExtendFrom (n : Nat) (x : BitVec w) : BitVec w :=
  (x.setWidth n).signExtend w

def setBit (x : BitVec w) (i : Nat) (b : Bool) : BitVec w :=
  if b then x ||| BitVec.twoPow w i else x &&& ~~~BitVec.twoPow w i

def allSet (x : BitVec w) (lo hi : Nat) : Bool :=
  (List.range (hi + 1 - lo)).all fun i => x.getLsbD (lo + i)

/-- The field between two bit numbers given in either order. -/
def field (x : BitVec 64) (hi lo : Nat) : BitVec 64 :=
  slice x (min hi lo) (max hi lo)

def signedField (x : BitVec 64) (hi lo : Nat) : Int :=
  (x.extractLsb (max hi lo) (min hi lo)).toInt

/-- The `n` lowest bits set; all of them from 64 on. -/
def ones (n : Nat) : BitVec 64 :=
  BitVec.ofNat 64 (2 ^ min n 64 - 1)

def mask (hi lo : Nat) : BitVec 64 :=
  ones (max hi lo - min hi lo + 1) <<< min hi lo

def pick (x : BitVec 64) (hi lo place : Nat) : BitVec 64 :=
  field x hi lo <<< place

def signedValue (x : BitVec 64) (n : Nat) : Int :=
  (x.setWidth n).toInt

/-- The low `width` bits rotated right, with zeros above. -/
def rotateRight (x : BitVec 64) (amount width : Nat) : BitVec 64 :=
  ((x.setWidth width).rotateRight amount).setWidth 64

/-- Copies of the low `esize` bits side by side, cut off at bit 64. -/
def replicate (x : BitVec 64) (esize : Nat) : BitVec 64 :=
  ((x.setWidth esize).replicate ((64 + esize - 1) / esize)).setWidth 64

/-- Leading bits equal to the sign bit, without the sign bit itself. -/
def leadingSigns (x : BitVec w) : BitVec w :=
  ((x ^^^ x <<< 1) ||| 1#w).clz

end AArch64.Bits
