import AArch64.Flags

/-! The sixteen conditions of the conditional instructions. The last code, unlike its name, always holds. -/
namespace AArch64

inductive Condition
  | eq | ne | cs | cc | mi | pl | vs | vc | hi | ls | ge | lt | gt | le | al | nv
  deriving DecidableEq

namespace Condition

def ofCode (code : BitVec 4) : Condition :=
  match code.toNat with
  | 0 => eq | 1 => ne | 2 => cs | 3 => cc | 4 => mi | 5 => pl | 6 => vs | 7 => vc
  | 8 => hi | 9 => ls | 10 => ge | 11 => lt | 12 => gt | 13 => le | 14 => al | _ => nv

def suffix : Condition → String
  | eq => "EQ" | ne => "NE" | cs => "CS" | cc => "CC" | mi => "MI" | pl => "PL" | vs => "VS" | vc => "VC"
  | hi => "HI" | ls => "LS" | ge => "GE" | lt => "LT" | gt => "GT" | le => "LE" | al => "AL" | nv => "NV"

def holds (c : Condition) (f : Nzcv) : Bool :=
  match c with
  | eq => f.zero
  | ne => !f.zero
  | cs => f.carry
  | cc => !f.carry
  | mi => f.negative
  | pl => !f.negative
  | vs => f.overflow
  | vc => !f.overflow
  | hi => f.carry && !f.zero
  | ls => !f.carry || f.zero
  | ge => f.negative == f.overflow
  | lt => f.negative != f.overflow
  | gt => !f.zero && f.negative == f.overflow
  | le => f.zero || f.negative != f.overflow
  | al | nv => true

end Condition
end AArch64
