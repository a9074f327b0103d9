import AArch64.Bits

/-! The bit patterns of the logical immediates and of the bitfield moves. Six bits of length and six bits of
rotation, with one more bit for the largest element, describe a run of ones in an element of 2, 4, 8, 16, 32 or
64 bits that is rotated right and repeated over the register. A run as long as its element is reserved as an
immediate. -/
namespace AArch64.BitMasks

/-- The element size is the power of two at the highest set bit of `n` and the complement of `imms`. -/
def elementSize? (n : Bool) (imms : BitVec 6) : Option Nat :=
  let c := (BitVec.ofBool n ++ ~~~imms).toNat
  if c < 2 then none else some (2 ^ c.log2)

/-- The rotated run, and the run whose length is the difference of the two numbers. -/
def decode (n : Bool) (imms immr : BitVec 6) (immediate : Bool) (datasize : Nat) :
    Option (BitVec 64 × BitVec 64) := do
  let esize ← elementSize? n imms
  let s := imms.toNat % esize
  let r := immr.toNat % esize
  if datasize < esize ∨ (immediate ∧ s = esize - 1) then none
  else
    let d := (s + esize - r) % esize
    let keep := Bits.ones datasize
    some (Bits.replicate (Bits.rotateRight (Bits.ones (s + 1)) r esize) esize &&& keep,
      Bits.replicate (Bits.ones (d + 1)) esize &&& keep)

/-- The 64-bit operand that thirteen bits `n:immr:imms` encode, if they encode one. -/
def logicalImmediate (code : BitVec 13) : Option (BitVec 64) :=
  (decode (code.getLsbD 12) (code.extractLsb 5 0) (code.extractLsb 11 6) true 64).map Prod.fst

end AArch64.BitMasks
