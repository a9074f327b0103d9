import AArch64.Power
import AArch64.Text.Hex
import Std.Data.ExtTreeMap.Basic

/-! A contiguous range of guest memory. Bytes that were never stored are zero, so a large block costs no more
than what was written to it. -/
namespace AArch64

structure Block where
  base : BitVec 64
  len : Nat
  writable : Bool
  stored : Std.ExtTreeMap Nat (BitVec 8) := ∅

namespace Block

variable (b : Block)

def byte (i : Nat) : BitVec 8 :=
  b.stored.getD i 0#8

def store : (offset : Nat) → (xs : List (BitVec 8)) → (b : Block) → Block
  | _, [], b => b
  | i, x :: xs, b => store (i + 1) xs { b with stored := b.stored.insert i x }

/-- A block that starts with as many of the given bytes as fit and goes on with zeros. -/
def ofBytes (base : BitVec 64) (len : Nat) (writable : Bool) (xs : List (BitVec 8)) : Block :=
  store 0 (xs.take len) { base, len, writable }

def load (offset n : Nat) : List (BitVec 8) :=
  (List.range n).map fun i => b.byte (offset + i)

/-- One past the last address, but never past the top of the address space. -/
def bound : Nat :=
  min (b.base.toNat + b.len) (2 ^ 64 - 1)

/-- Offset of an address, if the block covers all `size` bytes from there. -/
def offset? (a : BitVec 64) (size : Nat) : Option Nat :=
  if b.base.toNat ≤ a.toNat ∧ a.toNat - b.base.toNat + size ≤ b.len then
    some (a.toNat - b.base.toNat)
  else none

def overlaps (c : Block) : Bool :=
  decide (b.base.toNat < c.bound) && decide (c.base.toNat < b.bound)

def text : String :=
  "MemoryBlock \x7b base: " ++ Hex.address b.base ++ ", len: 0x" ++ Hex.digits b.len
    ++ ", writable: " ++ toString b.writable ++ " \x7d"

@[simp] theorem store_nil (i : Nat) : store i [] b = b := rfl

@[simp] theorem base_store (i : Nat) (xs : List (BitVec 8)) : (store i xs b).base = b.base := by
  induction xs generalizing i b with
  | nil => rfl
  | cons x xs ih => exact ih _ _

@[simp] theorem len_store (i : Nat) (xs : List (BitVec 8)) : (store i xs b).len = b.len := by
  induction xs generalizing i b with
  | nil => rfl
  | cons x xs ih => exact ih _ _

@[simp] theorem writable_store (i : Nat) (xs : List (BitVec 8)) :
    (store i xs b).writable = b.writable := by
  induction xs generalizing i b with
  | nil => rfl
  | cons x xs ih => exact ih _ _

@[simp] theorem base_ofBytes (base : BitVec 64) (len : Nat) (writable : Bool) (xs : List (BitVec 8)) :
    (ofBytes base len writable xs).base = base := by
  simp [ofBytes]

@[simp] theorem len_ofBytes (base : BitVec 64) (len : Nat) (writable : Bool) (xs : List (BitVec 8)) :
    (ofBytes base len writable xs).len = len := by
  simp [ofBytes]

end Block
end AArch64
