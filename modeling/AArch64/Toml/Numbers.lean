import AArch64.Text.Number
import AArch64.Toml.Reader

/-! Integers and floating-point numbers. -/
namespace AArch64.Toml

open Reader

/-- Digits in the base. One underscore may stand between two of them. -/
def digits (base : Nat) : Reader (List Nat) := do
  let digit : Reader Nat
    | [] => none
    | c :: rest => (Number.digit? base c).map (·, rest)
  return (← digit) :: (← repeated (digit <|> char '_' *> digit))

def valueOf (base : Nat) (ds : List Nat) : Nat :=
  ds.foldl (fun n d => base * n + d) 0

def sign : Reader Bool :=
  (char '-').map (fun _ => true) <|> (char '+').map (fun _ => false) <|> pure false

/-- The digits of a decimal number. None is written with zeros in front. -/
def decimalDigits : Reader (List Nat) := do
  let ds ← digits 10
  guard (ds.head? ≠ some 0 ∨ ds.length = 1)
  return ds

def marked (mark : String) (base : Nat) : Reader Int := do
  word mark
  return valueOf base (← digits base)

def decimalInteger : Reader Int := do
  let negative ← sign
  let n := valueOf 10 (← decimalDigits)
  return if negative then -(n : Int) else n

/-- Integers have 64 bits. -/
def integer : Reader Int := do
  let n ← marked "0x" 16 <|> marked "0o" 8 <|> marked "0b" 2 <|> decimalInteger
  guard (-2 ^ 63 ≤ n ∧ n < 2 ^ 63)
  return n

/-- The least number that rounds to infinity in double precision. -/
def infinityBound : Nat := 2 ^ 1024 - 2 ^ 970

/-- Whether the number of these digits, times a power of ten, rounds to infinity. -/
def overflows (ds : List Nat) (exponent : Int) : Bool :=
  let n := valueOf 10 ds
  match exponent with
  | .ofNat k => n != 0 && (decide (310 < k) || decide (infinityBound ≤ n * 10 ^ k))
  | .negSucc k => decide (k + 1 ≤ ds.length) && decide (infinityBound * 10 ^ (k + 1) ≤ n)

def exponentPart : Reader Int := do
  let _ ← next fun c => c == 'e' || c == 'E'
  let negative ← sign
  let n := valueOf 10 (← digits 10)
  return if negative then -(n : Int) else n

def finiteFloat : Reader Unit := do
  let negative ← sign
  let whole ← decimalDigits
  let fraction ← optional (char '.' *> digits 10)
  let exponent ← optional exponentPart
  guard (fraction.isSome ∨ exponent.isSome)
  let fraction := fraction.getD []
  guard (negative ∨ ¬overflows (whole ++ fraction) (exponent.getD 0 - fraction.length))

def specialFloat : Reader Unit := do
  let _ ← sign
  word "inf" <|> word "nan"

def float : Reader String :=
  spelling (finiteFloat <|> specialFloat)

end AArch64.Toml
