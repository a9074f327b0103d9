import AArch64.Bits
import AArch64.Memory.Word
import AArch64.Shift
import AArch64.State

/-! Integer data processing. An operation reads registers and flags at one operand width and gives at most one
register value of that width and at most one setting of the flags. -/
namespace AArch64

inductive Operand
  | immediate (value : BitVec 64)
  | shifted (rm : Register) (kind : ShiftKind) (amount : Nat)
  | extended (rm : Register) (extension : Extension) (shift : Nat)

def Operand.value (o : Operand) (s : State) (n : Nat) : BitVec n :=
  match o with
  | immediate x => x.setWidth n
  | shifted rm kind amount => kind.apply (s.read n rm) amount
  | extended rm e shift => (e.apply (s.read 64 rm) shift).setWidth n

inductive BitwiseOp
  | and | or | xor
  deriving DecidableEq

def BitwiseOp.apply {n : Nat} : BitwiseOp → BitVec n → BitVec n → BitVec n
  | and, a, b => a &&& b
  | or, a, b => a ||| b
  | xor, a, b => a ^^^ b

/-- What a wide move does with the rest of the register. -/
inductive MoveKind
  | inverted | zeroing | keeping
  deriving DecidableEq

inductive BitfieldKind
  | signed | inserting | unsigned
  deriving DecidableEq

inductive OneSource
  | reverseBits | reverseBytes (container : Nat) | leadingZeros | leadingSigns
  deriving DecidableEq

def swapBytes {n : Nat} (x : BitVec n) : BitVec n :=
  (Word.ofBytes (n / 8) fun i => Word.byte x (n / 8 - 1 - i)).setWidth n

/-- The bytes of every `container` of them in the opposite order. Pairs of bytes trade places by a mask, and words of
four bytes are swapped one by one. -/
def reverseBytes {n : Nat} (container : Nat) (x : BitVec n) : BitVec n :=
  match container with
  | 2 =>
    let low := BitVec.ofNat n 0x00FF00FF00FF00FF
    (x &&& low) <<< 8 ||| x >>> 8 &&& low
  | 4 => (swapBytes (x.extractLsb' 32 32) ++ swapBytes (x.setWidth 32)).setWidth n
  | _ => swapBytes x

def OneSource.apply {n : Nat} : OneSource → BitVec n → BitVec n
  | reverseBits, x => x.reverse
  | reverseBytes container, x => AArch64.reverseBytes container x
  | leadingZeros, x => x.clz
  | leadingSigns, x => Bits.leadingSigns x

inductive IntegerOp
  | address (page : Bool) (offset : BitVec 64)
  | addSub (subtract setFlags : Bool) (rn : Register) (role : Role) (operand : Operand)
  | addSubCarry (subtract setFlags : Bool) (rn rm : Register)
  | logical (op : BitwiseOp) (invert setFlags : Bool) (rn : Register) (operand : Operand)
  | moveWide (kind : MoveKind) (imm : BitVec 16) (position : Nat)
  | bitfield (kind : BitfieldKind) (rn : Register) (rotation signBit : Nat) (wmask tmask : BitVec 64)
  | extract (rn rm : Register) (lsb : Nat)
  | conditionalCompare (subtract : Bool) (condition : Condition) (rn : Register) (operand : Operand)
      (otherwise : Nzcv)
  | conditionalSelect (condition : Condition) (rn rm : Register) (invert increment : Bool)
  | oneSource (op : OneSource) (rn : Register)
  | divide (signed : Bool) (rn rm : Register)
  | shiftVariable (kind : ShiftKind) (rn rm : Register)
  | multiply (subtract : Bool) (rn rm ra : Register)
  | multiplyLong (signed subtract : Bool) (rn rm ra : Register)
  | multiplyHigh (signed : Bool) (rn rm : Register)

structure IntegerResult (n : Nat) where
  value : Option (BitVec n) := none
  flags : Option Nzcv := none

def longOperand (signed : Bool) (x : BitVec 32) : BitVec 64 :=
  if signed then x.signExtend 64 else x.setWidth 64

def highProduct (signed : Bool) (a b : BitVec 64) : BitVec 64 :=
  if signed then (a.signExtend 128 * b.signExtend 128).extractLsb 127 64
  else (a.setWidth 128 * b.setWidth 128).extractLsb 127 64

def accumulate {n : Nat} (subtract : Bool) (a product : BitVec n) : BitVec n :=
  if subtract then a - product else a + product

/-- The rotated field in the bits of both masks; above them the sign, the old value or zeros. -/
def bitfieldMove {n : Nat} (kind : BitfieldKind) (dst src : BitVec n) (rotation signBit : Nat)
    (wmask tmask : BitVec n) : BitVec n :=
  let bottom := src.rotateRight rotation &&& wmask
  match kind with
  | .signed =>
    let top := if src.getLsbD signBit then BitVec.allOnes n else 0#n
    top &&& ~~~tmask ||| bottom &&& tmask
  | .inserting => dst &&& ~~~tmask ||| (dst &&& ~~~wmask ||| bottom) &&& tmask
  | .unsigned => bottom &&& tmask

namespace IntegerOp

/-- The operation at operand width `n`; the old value of the destination counts for the moves that keep
some of it. -/
def eval (op : IntegerOp) (s : State) (rd : Register) (n : Nat) : IntegerResult n :=
  match op with
  | address page offset =>
    let base := if page then s.pc &&& ~~~0xFFF#64 else s.pc
    { value := some ((base + offset).setWidth n) }
  | addSub subtract setFlags rn role operand =>
    let r := addOrSub subtract (s.read n rn role) (operand.value s n)
    { value := some r.result, flags := if setFlags then some r.flags else none }
  | addSubCarry subtract setFlags rn rm =>
    let b := s.read n rm
    let r := addWithCarry (s.read n rn) (if subtract then ~~~b else b) s.nzcv.carry
    { value := some r.result, flags := if setFlags then some r.flags else none }
  | logical op invert setFlags rn operand =>
    let b := operand.value s n
    let r := op.apply (s.read n rn) (if invert then ~~~b else b)
    { value := some r, flags := if setFlags then some (logicalFlags r) else none }
  | moveWide kind imm position =>
    let x := imm.setWidth 64 <<< position
    let moved :=
      match kind with
      | .inverted => ~~~x
      | .zeroing => x
      | .keeping => s.read 64 rd &&& ~~~(0xFFFF#64 <<< position) ||| x
    { value := some (moved.setWidth n) }
  | bitfield kind rn rotation signBit wmask tmask =>
    { value := some <| bitfieldMove kind (s.read n rd) (s.read n rn) rotation signBit
        (wmask.setWidth n) (tmask.setWidth n) }
  | extract rn rm lsb =>
    { value := some (((s.read n rn ++ s.read n rm) >>> lsb).setWidth n) }
  | conditionalCompare subtract condition rn operand otherwise =>
    { flags := some <|
        if condition.holds s.nzcv then (addOrSub subtract (s.read n rn) (operand.value s n)).flags
        else otherwise }
  | conditionalSelect condition rn rm invert increment =>
    let b := s.read n rm
    { value := some <|
        if condition.holds s.nzcv then s.read n rn
        else
          match invert, increment with
          | false, false => b
          | false, true => b + 1#n
          | true, false => ~~~b
          | true, true => -b }
  | oneSource op rn => { value := some (op.apply (s.read n rn)) }
  | divide signed rn rm =>
    let a := s.read n rn
    let b := s.read n rm
    { value := some (if signed then a.sdiv b else a / b) }
  | shiftVariable kind rn rm => { value := some (kind.apply (s.read n rn) (s.read n rm).toNat) }
  | multiply subtract rn rm ra =>
    { value := some (accumulate subtract (s.read n ra) (s.read n rn * s.read n rm)) }
  | multiplyLong signed subtract rn rm ra =>
    let product := longOperand signed (s.read 32 rn) * longOperand signed (s.read 32 rm)
    { value := some ((accumulate subtract (s.read 64 ra) product).setWidth n) }
  | multiplyHigh signed rn rm =>
    { value := some ((highProduct signed (s.read 64 rn) (s.read 64 rm)).setWidth n) }

end IntegerOp

/-- An integer operation with its width, its destination and what destination 31 means. -/
structure IntegerInstruction where
  width : Width
  rd : Register
  role : Role := .zero
  op : IntegerOp

def IntegerResult.apply {n : Nat} (r : IntegerResult n) (rd : Register) (role : Role) (s : State) : State :=
  let s := match r.flags with
    | some f => s.setFlags f
    | none => s
  match r.value with
  | some x => s.write rd x role
  | none => s

def IntegerInstruction.execute (i : IntegerInstruction) (s : State) : State :=
  (i.op.eval s i.rd i.width.bits).apply i.rd i.role s

end AArch64
