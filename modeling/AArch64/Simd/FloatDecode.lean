import AArch64.Simd.Decode

/-! Decoding of the scalar floating-point instructions. -/
namespace AArch64.SimdInstruction

open DecodeError

variable (w : InstructionWord)

def withPrecision (f : Precision → Except DecodeError SimdInstruction) :
    Except DecodeError SimdInstruction :=
  match w.number 23 22 with
  | 0 => f .single
  | 1 => f .double
  | 3 => .error notYetImplemented
  | _ => .error unallocated

def decodeFloatOneSource (p : Precision) : Except DecodeError SimdInstruction :=
  let ok (op : FloatUnary) : Except DecodeError SimdInstruction := usualFloat w (.unary op p 1)
  match w.number 20 15 with
  | 0 => ok .move
  | 1 => ok .abs
  | 2 => ok .neg
  | 3 => ok .sqrt
  | 4 => if p = .double then usualFloat w (.convert .double .single) else .error unallocated
  | 5 => if p = .single then usualFloat w (.convert .single .double) else .error unallocated
  | 7 => .error notYetImplemented
  | 8 => ok (.round .tiesEven)
  | 9 => ok (.round .plusInfinity)
  | 10 => ok (.round .minusInfinity)
  | 11 => ok (.round .zero)
  | 12 => ok (.round .tiesAway)
  | 14 | 15 | 16 | 17 | 18 | 19 => .error notYetImplemented
  | _ => .error unallocated

def decodeFloatTwoSource (p : Precision) : Except DecodeError SimdInstruction :=
  let ok (op : Float.Binary) : Except DecodeError SimdInstruction :=
    usualFloat w (.lanes (.binary op) p 1)
  match w.number 15 12 with
  | 0 => ok .mul
  | 1 => ok .div
  | 2 => ok .add
  | 3 => ok .sub
  | 4 => ok .max
  | 5 => ok .min
  | 6 => ok .maxNumber
  | 7 => ok .minNumber
  | 8 => ok .negatedMul
  | _ => .error unallocated

def decodeFloatCompare (p : Precision) : Except DecodeError SimdInstruction :=
  if w.number 15 14 != 0 || w.number 2 0 != 0 then .error unallocated
  else usual w (.compare p (w.bit 4) (w.bit 3))

def decodeFloatImmediate (p : Precision) : Except DecodeError SimdInstruction :=
  if w.number 9 5 != 0 then .error unallocated
  else usual w (.floatImmediate p (w.extractLsb 20 13))

def decodeFloatConditionalCompare (p : Precision) : Except DecodeError SimdInstruction :=
  usual w (.conditionalCompare p (w.bit 4) (Condition.ofCode (w.extractLsb 15 12))
    (Nzcv.ofNibble (w.extractLsb 3 0)))

def decodeFloatSelect (p : Precision) : Except DecodeError SimdInstruction :=
  usual w (.select p (Condition.ofCode (w.extractLsb 15 12)))

def decodeFloatInteger : Except DecodeError SimdInstruction :=
  let sf := w.bit 31
  let width := Width.ofBit sf
  let type := w.number 23 22
  let mode := w.number 20 19
  let opcode := w.number 18 16
  let p : Precision := if type == 0 then .single else .double
  let plain := (mode == 0 && type == 0 && !sf) || (mode == 0 && type == 1 && sf)
  let upper := mode == 1 && type == 2 && sf
  if opcode == 6 && plain then
    usual w (.toGeneral false (if sf then .double else .word) 0 width)
  else if opcode == 7 && plain then usual w (.scalarFromGeneral width)
  else if opcode == 6 && upper then usual w (.toGeneral false .double 1 width)
  else if opcode == 7 && upper then usual w (.insertGeneral .double 1)
  else if type == 3 then .error notYetImplemented
  else if opcode == 6 && mode == 3 && type == 1 && !sf then .error notYetImplemented
  else if type == 2 then .error unallocated
  else
    match opcode with
    | 0 | 1 =>
      usual w (.toInteger p (Rounding.ofCode (w.extractLsb 20 19)) (opcode == 0) width 0)
    | 4 | 5 =>
      if mode == 0 then usual w (.toInteger p .tiesAway (opcode == 4) width 0)
      else .error unallocated
    | 2 | 3 =>
      if mode == 0 then usual w (.fromInteger p (opcode == 2) width 0) else .error unallocated
    | _ => .error unallocated

def decodeFloatFixed : Except DecodeError SimdInstruction :=
  let width := Width.ofBit (w.bit 31)
  let scale := w.number 15 10
  let signed := !w.bit 16
  if !w.bit 31 && scale < 32 then .error unallocated
  else
    withPrecision w fun p =>
      match w.number 20 16 with
      | 2 | 3 => usual w (.fromInteger p signed width (64 - scale))
      | 24 | 25 => usual w (.toInteger p .zero signed width (64 - scale))
      | _ => .error unallocated

def decodeFloat : Except DecodeError SimdInstruction :=
  if w.bit 29 then .error unallocated
  else if !w.bit 21 then decodeFloatFixed w
  else if w.number 15 10 == 0 then decodeFloatInteger w
  else if w.bit 31 then .error unallocated
  else
    match w.number 11 10 with
    | 0 =>
      if w.number 14 10 == 16 then withPrecision w (decodeFloatOneSource w)
      else if w.number 13 10 == 8 then withPrecision w (decodeFloatCompare w)
      else if w.number 12 10 == 4 then withPrecision w (decodeFloatImmediate w)
      else .error unallocated
    | 1 => withPrecision w (decodeFloatConditionalCompare w)
    | 2 => withPrecision w (decodeFloatTwoSource w)
    | _ => withPrecision w (decodeFloatSelect w)

def decodeFusedMultiplyAdd : Except DecodeError SimdInstruction :=
  if w.bit 31 || w.bit 29 then .error unallocated
  else
    withPrecision w fun p =>
      usual w (.multiplyAdd p (w.bit 15 != w.bit 21) (w.bit 21) w.ra)

def decode : Except DecodeError SimdInstruction :=
  match KeyTable.simdAndFloat.key w with
  | 0 | 2 => decodeVector w
  | 1 | 3 => decodeVectorImmediate w
  | 4 => decodeFloat w
  | 5 => decodeFusedMultiplyAdd w
  | 6 => decodeScalar w
  | _ => decodeScalarImmediate w

end AArch64.SimdInstruction
