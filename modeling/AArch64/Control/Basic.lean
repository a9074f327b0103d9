import AArch64.State

/-! Branches, system instructions and requests to the host. Branches write the staged program counter only. -/
namespace AArch64

inductive CalloutKind
  | call | callWithResult | supervisor (imm : BitVec 16)
  deriving DecidableEq

inductive SystemRegister
  | nzcv | fpcr | fpsr | threadPointer | cacheType | cacheZero | mainId
  deriving DecidableEq

namespace SystemRegister

/-- The register with the five-part number `op0:op1:CRn:CRm:op2`. -/
def ofNumber? (n : BitVec 16) : Option SystemRegister :=
  if n = number 3 3 4 2 0 then some nzcv
  else if n = number 3 3 4 4 0 then some fpcr
  else if n = number 3 3 4 4 1 then some fpsr
  else if n = number 3 3 13 0 2 then some threadPointer
  else if n = number 3 3 0 0 1 then some cacheType
  else if n = number 3 3 0 0 7 then some cacheZero
  else if n = number 3 0 0 0 0 then some mainId
  else none
where
  number (op0 : BitVec 2) (op1 : BitVec 3) (crn crm : BitVec 4) (op2 : BitVec 3) : BitVec 16 :=
    op0 ++ op1 ++ crn ++ crm ++ op2

def isReadOnly : SystemRegister → Bool
  | cacheType | cacheZero | mainId => true
  | _ => false

/-- The identification registers describe 64-byte cache lines, no zeroing by line, and a small core. -/
def read (s : State) : SystemRegister → BitVec 64
  | nzcv => s.nzcv.toBits.setWidth 64
  | fpcr => s.fpcr.setWidth 64
  | fpsr => s.fpsr.toBits.setWidth 64
  | threadPointer => s.tpidr
  | cacheType => 0x8444C004#64
  | cacheZero => 0x10#64
  | mainId => 0x410FD034#64

def write (r : SystemRegister) (x : BitVec 64) (s : State) : State :=
  match r with
  | nzcv => { s with nzcv := Nzcv.ofBits (x.setWidth 32) }
  | fpcr => { s with fpcr := x.setWidth 32 }
  | fpsr => { s with fpsr := Fpsr.ofBits (x.setWidth 32) }
  | threadPointer => { s with tpidr := x }
  | cacheType | cacheZero | mainId => s

end SystemRegister

inductive BranchTest
  | always
  | condition (c : Condition)
  | isZero (width : Width) (rt : Register) (negate : Bool)
  | bitIsClear (rt : Register) (bit : Nat) (negate : Bool)

def BranchTest.holds (t : BranchTest) (s : State) : Bool :=
  match t with
  | always => true
  | condition c => c.holds s.nzcv
  | isZero width rt negate => (s.read width.bits rt == 0) != negate
  | bitIsClear rt bit negate => (!(s.read 64 rt).getLsbD bit) != negate

inductive ControlOp
  | nothing
  | branch (test : BranchTest) (link : Bool) (offset : BitVec 64)
  | branchRegister (link : Bool) (rn : Register)
  | halt
  | breakpoint
  | callout (kind : CalloutKind)
  | clearExclusive
  | readSystem (rt : Register) (r : SystemRegister)
  | writeSystem (rt : Register) (r : SystemRegister)

namespace ControlOp

def setLink (link : Bool) (s : State) : State :=
  if link then s.write Register.link (s.pc + 4#64) else s

/-- The effect on the architectural state. Halting, breaking, calling out and clearing the exclusive monitor
have none. -/
def apply (op : ControlOp) (s : State) : State :=
  match op with
  | branch test link offset =>
    let s := setLink link s
    if test.holds s then { s with nextPc := s.pc + offset } else s
  | branchRegister link rn => { setLink link s with nextPc := s.read 64 rn }
  | readSystem rt r => s.write rt (r.read s)
  | writeSystem rt r => r.write (s.read 64 rt) s
  | nothing | halt | breakpoint | callout _ | clearExclusive => s

end ControlOp
end AArch64
