import AArch64.Text.Hex

/-! A guest memory access that no block can serve. -/
namespace AArch64

inductive Access
  | read | write
  deriving DecidableEq

def Access.text : Access → String
  | read => "read"
  | write => "write"

structure Fault where
  address : BitVec 64
  size : Nat
  access : Access
  deriving DecidableEq

def Fault.text (f : Fault) : String :=
  f.access.text ++ " of " ++ toString f.size ++ " bytes at " ++ Hex.address f.address
    ++ " is outside guest memory"

end AArch64
