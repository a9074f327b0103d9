/-! Well-formed UTF-8: shortest forms of scalar values only. -/
namespace AArch64.Utf8

def within (lo hi b : BitVec 8) : Bool :=
  lo ≤ b && b ≤ hi

def continues (b : BitVec 8) : Bool :=
  within 0x80#8 0xBF#8 b

/-- Second bytes that may follow the first byte of a form of three bytes. -/
def second3 (b0 b1 : BitVec 8) : Bool :=
  if b0 = 0xE0#8 then within 0xA0#8 0xBF#8 b1
  else if b0 = 0xED#8 then within 0x80#8 0x9F#8 b1
  else continues b1

/-- Second bytes that may follow the first byte of a form of four bytes. -/
def second4 (b0 b1 : BitVec 8) : Bool :=
  if b0 = 0xF0#8 then within 0x90#8 0xBF#8 b1
  else if b0 = 0xF4#8 then within 0x80#8 0x8F#8 b1
  else continues b1

def wellFormed : List (BitVec 8) → Bool
  | [] => true
  | b0 :: r0 =>
    if b0 < 0x80#8 then wellFormed r0
    else
      match r0 with
      | [] => false
      | b1 :: r1 =>
        if within 0xC2#8 0xDF#8 b0 then continues b1 && wellFormed r1
        else
          match r1 with
          | [] => false
          | b2 :: r2 =>
            if within 0xE0#8 0xEF#8 b0 then second3 b0 b1 && continues b2 && wellFormed r2
            else
              match r2 with
              | [] => false
              | b3 :: r3 =>
                within 0xF0#8 0xF4#8 b0 && second4 b0 b1 && continues b2 && continues b3
                  && wellFormed r3

end AArch64.Utf8
