/-! The condition flags N, Z, C and V. In the system register they are bits 31 to 28, and an instruction
carries them as a four-bit field in the same order. -/
namespace AArch64

structure Nzcv where
  negative : Bool := false
  zero : Bool := false
  carry : Bool := false
  overflow : Bool := false
  deriving DecidableEq, Inhabited

namespace Nzcv

def ofNibble (n : BitVec 4) : Nzcv where
  negative := n.getLsbD 3
  zero := n.getLsbD 2
  carry := n.getLsbD 1
  overflow := n.getLsbD 0

def nibble (f : Nzcv) : BitVec 4 :=
  BitVec.ofBool f.negative ++ BitVec.ofBool f.zero ++ BitVec.ofBool f.carry ++ BitVec.ofBool f.overflow

/-- The flags held by a system register value; its other bits are reserved and dropped. -/
def ofBits (x : BitVec 32) : Nzcv :=
  ofNibble (x.extractLsb 31 28)

def toBits (f : Nzcv) : BitVec 32 :=
  f.nibble ++ 0#28

/-- The flag letters in order, a dash for each clear flag. -/
def text (f : Nzcv) : String :=
  String.ofList [letter f.negative 'N', letter f.zero 'Z', letter f.carry 'C', letter f.overflow 'V']
where
  letter (on : Bool) (c : Char) : Char := if on then c else '-'

@[simp] theorem ofNibble_nibble (f : Nzcv) : ofNibble f.nibble = f := by
  rcases f with ⟨_ | _, _ | _, _ | _, _ | _⟩ <;> rfl

@[simp] theorem nibble_ofNibble (n : BitVec 4) : (ofNibble n).nibble = n := by
  revert n; decide

end Nzcv
end AArch64
