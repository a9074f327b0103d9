/-! Numbers in upper-case hexadecimal, with or without leading zeros. -/
namespace AArch64.Hex

def digits (n : Nat) : String :=
  (String.ofList (Nat.toDigits 16 n)).map Char.toUpper

def padded (width n : Nat) : String :=
  let d := digits n
  "".pushn '0' (width - d.length) ++ d

def address (x : BitVec 64) : String :=
  "0x" ++ padded 16 x.toNat

def word (x : BitVec 32) : String :=
  "0x" ++ padded 8 x.toNat

end AArch64.Hex
