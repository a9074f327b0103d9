/-! Shifts and extensions that an instruction applies to its second register operand. -/
namespace AArch64

variable {w : Nat}

inductive ShiftKind
  | lsl | lsr | asr | ror
  deriving DecidableEq

namespace ShiftKind

def ofCode (code : BitVec 2) : ShiftKind :=
  match code.toNat with
  | 0 => lsl | 1 => lsr | 2 => asr | _ => ror

def name : ShiftKind → String
  | lsl => "LSL" | lsr => "LSR" | asr => "ASR" | ror => "ROR"

/-- The amount counts modulo the width. -/
def apply (kind : ShiftKind) (x : BitVec w) (amount : Nat) : BitVec w :=
  match kind with
  | lsl => x <<< (amount % w)
  | lsr => x >>> (amount % w)
  | asr => x.sshiftRight (amount % w)
  | ror => x.rotateRight (amount % w)

end ShiftKind

inductive Extension
  | uxtb | uxth | uxtw | uxtx | sxtb | sxth | sxtw | sxtx
  deriving DecidableEq

namespace Extension

def ofCode (code : BitVec 3) : Extension :=
  match code.toNat with
  | 0 => uxtb | 1 => uxth | 2 => uxtw | 3 => uxtx | 4 => sxtb | 5 => sxth | 6 => sxtw | _ => sxtx

def name : Extension → String
  | uxtb => "Uxtb" | uxth => "Uxth" | uxtw => "Uxtw" | uxtx => "Uxtx"
  | sxtb => "Sxtb" | sxth => "Sxth" | sxtw => "Sxtw" | sxtx => "Sxtx"

def extend (e : Extension) (x : BitVec 64) : BitVec 64 :=
  match e with
  | uxtb => (x.setWidth 8).setWidth 64
  | uxth => (x.setWidth 16).setWidth 64
  | uxtw => (x.setWidth 32).setWidth 64
  | uxtx | sxtx => x
  | sxtb => (x.setWidth 8).signExtend 64
  | sxth => (x.setWidth 16).signExtend 64
  | sxtw => (x.setWidth 32).signExtend 64

/-- The extended operand, shifted left by an amount that counts modulo 64. -/
def apply (e : Extension) (x : BitVec 64) (shift : Nat) : BitVec 64 :=
  e.extend x <<< (shift % 64)

end Extension
end AArch64
