import AArch64.Power

/-! Little-endian words: byte `i` of a word is its bits from `8 * i` on. -/
namespace AArch64.Word

/-- The number whose `n` bytes are given by `f`, the least significant one first. -/
def compose : (n : Nat) → (f : Nat → BitVec 8) → Nat
  | 0, _ => 0
  | n + 1, f => (f 0).toNat + 256 * compose n fun i => f (i + 1)

def ofBytes (n : Nat) (f : Nat → BitVec 8) : BitVec (8 * n) :=
  BitVec.ofNat (8 * n) (compose n f)

def byte {w : Nat} (x : BitVec w) (i : Nat) : BitVec 8 :=
  x.extractLsb' (8 * i) 8

def bytes {w : Nat} (n : Nat) (x : BitVec w) : List (BitVec 8) :=
  (List.range n).map (byte x)

theorem compose_lt (n : Nat) (f : Nat → BitVec 8) : compose n f < 2 ^ (8 * n) := by
  induction n generalizing f with
  | zero => simp [compose]
  | succ n ih =>
    have hr := ih fun i => f (i + 1)
    have hb := (f 0).isLt
    rw [compose, Nat.mul_succ, Nat.pow_add]
    generalize 2 ^ (8 * n) = p at hr ⊢
    omega

@[simp] theorem length_bytes {w : Nat} (n : Nat) (x : BitVec w) : (bytes n x).length = n := by
  simp [bytes]

end AArch64.Word
