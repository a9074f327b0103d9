import AArch64.Power

/-! Unsigned 64-bit numbers, read from text. -/
namespace AArch64

inductive NumberError
  | empty | invalidDigit | tooLarge
  deriving DecidableEq

def NumberError.text : NumberError → String
  | empty => "cannot parse integer from empty string"
  | invalidDigit => "invalid digit found in string"
  | tooLarge => "number too large to fit in target type"

namespace Number

/-- Value of an ASCII digit or letter that is a digit in the base. -/
def digit? (base : Nat) (c : Char) : Option Nat :=
  let d :=
    if '0' ≤ c ∧ c ≤ '9' then c.toNat - '0'.toNat
    else if 'a' ≤ c ∧ c ≤ 'z' then c.toNat - 'a'.toNat + 10
    else if 'A' ≤ c ∧ c ≤ 'Z' then c.toNat - 'A'.toNat + 10
    else base
  if d < base then some d else none

/-- Reads digits that follow others of the value `v`. -/
def digits (base : Nat) : (v : Nat) → List Char → Except NumberError (BitVec 64)
  | v, [] => .ok (BitVec.ofNat 64 v)
  | v, c :: rest =>
    match digit? base c with
    | none => .error .invalidDigit
    | some d => if base * v + d < 2 ^ 64 then digits base (base * v + d) rest else .error .tooLarge

/-- One plus sign may stand in front. -/
def parse (base : Nat) : List Char → Except NumberError (BitVec 64)
  | [] => .error .empty
  | ['+'] => .error .invalidDigit
  | '+' :: rest => digits base 0 rest
  | cs => digits base 0 cs

def decimal (s : String) : Except NumberError (BitVec 64) :=
  parse 10 s.toList

def afterHexMark : List Char → List Char
  | '0' :: 'x' :: rest => rest
  | '0' :: 'X' :: rest => rest
  | cs => cs

/-- Underscores may stand anywhere behind the mark of the base, which may be missing. -/
def hex (s : String) : Except NumberError (BitVec 64) :=
  parse 16 ((afterHexMark s.toList).filter (· ≠ '_'))

end Number
end AArch64
