import AArch64.Memory.Word
import AArch64.VectorRegisters

/-! A vector register as the sixteen bytes that hold it, the least significant one first. A lane is read from the front of
the bytes that start with it, and is written over them; where these are too few there is no result. -/
namespace AArch64

@[ext] structure VectorBytes where
  bytes : List (BitVec 8)
  sixteen : bytes.length = 16

namespace VectorBytes

variable (v : VectorBytes) {n : Nat}

def ofNumber (x : BitVec 128) : VectorBytes where
  bytes := Word.bytes 16 x
  sixteen := Word.length_bytes 16 x

def byte (k : Nat) : BitVec 8 :=
  v.bytes.getD k 0#8

def number : BitVec 128 :=
  Word.ofBytes 16 v.byte

def zero : VectorBytes where
  bytes := List.replicate 16 0#8
  sixteen := rfl

/-- A lane of `n` bytes begins with byte `i * n`. -/
def lane? (n i : Nat) : Option (BitVec (8 * n)) :=
  let rest := v.bytes.drop (i * n)
  if i * n ≤ v.bytes.length ∧ n ≤ rest.length then some (Word.ofBytes n fun k => rest.getD k 0#8) else none

def setLane? (i : Nat) (x : BitVec (8 * n)) : Option VectorBytes :=
  if h : i * n ≤ v.bytes.length ∧ n ≤ (v.bytes.drop (i * n)).length then
    some {
      bytes := v.bytes.take (i * n) ++ (Word.bytes n x ++ (v.bytes.drop (i * n)).drop n)
      sixteen := by
        simp only [List.length_drop, v.sixteen] at h
        simp only [List.length_append, List.length_take, List.length_drop, Word.length_bytes, v.sixteen]
        omega }
  else none

/-- Sizes other than 8, 16 and 32 bits stand for 64. -/
def element? (i esize : Nat) : Option (BitVec 64) :=
  match esize with
  | 8 => (v.lane? 1 i).map (·.setWidth 64)
  | 16 => (v.lane? 2 i).map (·.setWidth 64)
  | 32 => (v.lane? 4 i).map (·.setWidth 64)
  | _ => v.lane? 8 i

def signedElement? (i esize : Nat) : Option (BitVec 64) :=
  match esize with
  | 8 => (v.lane? 1 i).map (·.signExtend 64)
  | 16 => (v.lane? 2 i).map (·.signExtend 64)
  | 32 => (v.lane? 4 i).map (·.signExtend 64)
  | _ => v.lane? 8 i

def setElement? (i esize : Nat) (x : BitVec 64) : Option VectorBytes :=
  match esize with
  | 8 => v.setLane? (n := 1) i (x.setWidth 8)
  | 16 => v.setLane? (n := 2) i (x.setWidth 16)
  | 32 => v.setLane? (n := 4) i (x.setWidth 32)
  | _ => v.setLane? (n := 8) i x

def clearFrom (k : Nat) (hk : k ≤ 16) : VectorBytes where
  bytes := v.bytes.take k ++ List.replicate (16 - k) 0#8
  sixteen := by
    simp only [List.length_append, List.length_take, List.length_replicate, v.sixteen]
    omega

def clearFrom? (k : Nat) : Option VectorBytes :=
  if hk : k ≤ 16 then some (v.clearFrom k hk) else none

def sized (full : Bool) : VectorBytes :=
  if full then v else v.clearFrom 8 (by decide)

/-- A value in lane 0 of a register that is zero. -/
def scalar? (x : BitVec (8 * n)) : Option VectorBytes :=
  zero.setLane? 0 x

end VectorBytes
end AArch64
