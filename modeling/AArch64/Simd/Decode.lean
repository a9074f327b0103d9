import AArch64.Decode.KeyTable
import AArch64.Simd.Basic

/-! Decoding of the vector forms and of the scalar forms that share their operations. -/
namespace AArch64
namespace SimdInstruction

open DecodeError

variable (w : InstructionWord)

def usual (op : SimdOp) : Except DecodeError SimdInstruction :=
  .ok { rd := w.rd, rn := w.rn, rm := w.rm, op := op }

def usualVector (op : VectorOp) : Except DecodeError SimdInstruction := usual w (.vector op)

def usualFloat (op : FloatVectorOp) : Except DecodeError SimdInstruction := usual w (.float op)

/-- The single lane of a scalar form, or the vector that bit 30 selects. -/
def arrangement? (size : ElementSize) (scalar : Bool) : Option Arrangement :=
  if scalar then some (Arrangement.scalar size) else Arrangement.vector? size (w.bit 30)

def withArrangement (a : Option Arrangement) (f : Arrangement → Except DecodeError SimdInstruction) :
    Except DecodeError SimdInstruction :=
  match a with
  | some a => f a
  | none => .error unallocated

def lanePrecision : Precision := if w.bit 22 then .double else .single

def laneOp? (opcode : Nat) (u : Bool) : Option LaneOp :=
  match opcode with
  | 0 => some .halvingAdd
  | 1 => some .saturatingAdd
  | 2 => some .roundingHalvingAdd
  | 4 => some .halvingSub
  | 5 => some .saturatingSub
  | 6 => some .greater
  | 7 => some .greaterEqual
  | 8 => some .shiftLeft
  | 12 | 20 => some .max
  | 13 | 21 => some .min
  | 14 => some .absoluteDifference
  | 15 => some .absoluteDifferenceAccumulate
  | 16 => some (if u then .sub else .add)
  | 17 => some (if u then .equal else .test)
  | 18 => some (if u then .multiplySub else .multiplyAdd)
  | 19 => some (if u then .polynomialMultiply else .multiply)
  | 23 => if u then none else some .add
  | _ => none

def bitwiseOp (u : Bool) (size : BitVec 2) : VectorBitwise :=
  match u, size.toNat with
  | false, 0 => .and
  | false, 1 => .andNot
  | false, 2 => .or
  | false, _ => .orNot
  | true, 0 => .xor
  | true, 1 => .select
  | true, 2 => .insertIfTrue
  | true, _ => .insertIfFalse

inductive FloatThreeSame
  | lanes (op : FloatLane)
  | pairwise (op : Float.Binary)

def floatThreeSame (opcode : Nat) (u a : Bool) : Except DecodeError FloatThreeSame :=
  match opcode, u, a with
  | 24, false, false => .ok (.lanes (.binary .maxNumber))
  | 24, false, true => .ok (.lanes (.binary .minNumber))
  | 24, true, false => .ok (.pairwise .maxNumber)
  | 24, true, true => .ok (.pairwise .minNumber)
  | 25, false, false => .ok (.lanes .multiplyAdd)
  | 25, false, true => .ok (.lanes .multiplySub)
  | 26, false, false => .ok (.lanes (.binary .add))
  | 26, false, true => .ok (.lanes (.binary .sub))
  | 26, true, false => .ok (.pairwise .add)
  | 26, true, true => .ok (.lanes (.binary .absoluteDifference))
  | 27, true, false => .ok (.lanes (.binary .mul))
  | 28, false, false => .ok (.lanes (.compare .equal))
  | 28, true, false => .ok (.lanes (.compare .greaterEqual))
  | 28, true, true => .ok (.lanes (.compare .greater))
  | 29, true, false => .ok (.lanes (.compare .absGreaterEqual))
  | 29, true, true => .ok (.lanes (.compare .absGreater))
  | 30, false, false => .ok (.lanes (.binary .max))
  | 30, false, true => .ok (.lanes (.binary .min))
  | 30, true, false => .ok (.pairwise .max)
  | 30, true, true => .ok (.pairwise .min)
  | 31, true, false => .ok (.lanes (.binary .div))
  | 27, false, false => .error notYetImplemented
  | 31, false, _ => .error notYetImplemented
  | _, _, _ => .error unallocated

def FloatThreeSame.hasScalarForm : FloatThreeSame → Bool
  | lanes (.compare _) | lanes (.binary .absoluteDifference) => true
  | _ => false

def decodeFloatThreeSame (scalar : Bool) : Except DecodeError SimdInstruction :=
  let p := lanePrecision w
  withArrangement (arrangement? w p.size scalar) fun a =>
    match floatThreeSame (w.number 15 11) (w.bit 29) (w.bit 23) with
    | .error e => .error e
    | .ok op =>
      if scalar && !op.hasScalarForm then .error unallocated
      else
        match op with
        | .lanes op => usualFloat w (.lanes op p a.elements)
        | .pairwise op => usualFloat w (.pairwise op p a.elements)

def decodeThreeSame (scalar : Bool) : Except DecodeError SimdInstruction :=
  let u := w.bit 29
  let opcode := w.number 15 11
  let size := ElementSize.ofCode (w.extractLsb 23 22)
  if 24 ≤ opcode then decodeFloatThreeSame w scalar
  else if opcode == 3 then
    if scalar then .error unallocated
    else usualVector w (.bitwise (bitwiseOp u (w.extractLsb 23 22)) (w.bit 30))
  else
    match laneOp? opcode u with
    | none =>
      .error (if opcode == 9 || opcode == 10 || opcode == 11 || opcode == 22 then notYetImplemented
        else unallocated)
    | some op =>
      let saturating := op == .saturatingAdd || op == .saturatingSub
      if scalar && (!op.hasWideForm || opcode == 23 || (size != .double && !saturating)) then
        .error unallocated
      else if size == .double && !op.hasWideForm then .error unallocated
      else if op == .polynomialMultiply && size != .byte then .error unallocated
      else
        withArrangement (arrangement? w size scalar) fun a =>
          if 20 ≤ opcode then usualVector w (.pairwise op (!u) a)
          else usualVector w (.lanes op (!u) a)

/-- The operations with a wide result, and whether their first operand is wide as well. -/
def longOp? (opcode : Nat) : Option (LongOp × Bool) :=
  match opcode with
  | 0 => some (.add, false)
  | 1 => some (.add, true)
  | 2 => some (.sub, false)
  | 3 => some (.sub, true)
  | 5 => some (.absoluteDifferenceAccumulate, false)
  | 7 => some (.absoluteDifference, false)
  | 8 => some (.multiplyAdd, false)
  | 10 => some (.multiplySub, false)
  | 12 => some (.multiply, false)
  | _ => none

/-- Long, wide and narrowing forms. Bit 30 selects the upper half of the narrow operands. -/
def decodeThreeDifferent : Except DecodeError SimdInstruction :=
  let u := w.bit 29
  let upper := w.bit 30
  let opcode := w.number 15 12
  let size := ElementSize.ofCode (w.extractLsb 23 22)
  if size == .double then .error unallocated
  else if opcode == 4 || opcode == 6 then
    if u then .error notYetImplemented else usualVector w (.highNarrow (opcode == 6) size upper)
  else
    match longOp? opcode with
    | some (op, wideFirst) => usualVector w (.long op (!u) wideFirst size upper)
    | none => .error (if opcode == 15 then unallocated else notYetImplemented)

def zeroTest (opcode : Nat) (u : Bool) : ZeroTest :=
  match opcode, u with
  | 8, false => .positive
  | 8, true => .nonNegative
  | 9, false => .zero
  | 9, true => .nonPositive
  | _, _ => .negative

def decodeIntegerMisc (scalar : Bool) : Except DecodeError SimdInstruction :=
  let u := w.bit 29
  let full := w.bit 30
  let opcode := w.number 16 12
  let size := ElementSize.ofCode (w.extractLsb 23 22)
  let reverse (container : Nat) : Except DecodeError SimdInstruction :=
    if container ≤ size.bits then .error unallocated
    else
      withArrangement (Arrangement.vector? size full) fun a => usualVector w (.reverse (container) a)
  let bytes (op : LaneUnary) : Except DecodeError SimdInstruction :=
    withArrangement (Arrangement.vector? .byte full) fun a => usualVector w (.unary op a)
  let each (op : LaneUnary) : Except DecodeError SimdInstruction :=
    withArrangement (arrangement? w size scalar) fun a => usualVector w (.unary op a)
  if scalar && (opcode == 3 || opcode == 7 || opcode == 18 || opcode == 20) then
    .error notYetImplemented
  else if scalar && (opcode < 8 || 11 < opcode || size != .double || (opcode == 10 && u)) then
    .error unallocated
  else
    match opcode, u with
    | 0, false => reverse 64
    | 0, true => reverse 32
    | 1, false => reverse 16
    | 2, _ | 6, _ =>
      if size == .double || (size == .word && !full) then .error unallocated
      else
        usualVector w
          (.addLongPairs (!u) (opcode == 6) size ((if full then 64 else 32) / size.bits))
    | 3, _ | 7, _ => .error notYetImplemented
    | 4, _ =>
      if size == .double then .error unallocated
      else each (if u then .leadingZeros else .leadingSigns)
    | 5, false => if size == .byte then bytes .popCount else .error unallocated
    | 5, true =>
      if size == .byte then bytes .not
      else if size == .half then bytes .reverseBits
      else .error unallocated
    | 8, _ | 9, _ | 10, false => each (.compareZero (zeroTest opcode u))
    | 11, _ => each (if u then .neg else .abs)
    | 18, false =>
      if size == .double then .error unallocated else usualVector w (.narrow size full)
    | 18, true | 19, true | 20, _ => .error notYetImplemented
    | _, _ => .error unallocated

def decodeConvertLanes : Except DecodeError SimdInstruction :=
  if w.bit 29 then .error notYetImplemented
  else if !w.bit 22 then .error notYetImplemented
  else usualFloat w (if w.bit 12 then .widen (w.bit 30) else .narrow (w.bit 30))

def floatMisc (opcode : Nat) (u a : Bool) : Except DecodeError FloatUnary :=
  match opcode, u, a with
  | 12, false, true => .ok (.compareZero .greater)
  | 12, true, true => .ok (.compareZero .greaterEqual)
  | 13, false, true => .ok (.compareZero .equal)
  | 13, true, true => .ok (.compareZero .lessEqual)
  | 14, false, true => .ok (.compareZero .less)
  | 15, false, true => .ok .abs
  | 15, true, true => .ok .neg
  | 31, true, true => .ok .sqrt
  | 24, false, false => .ok (.round .tiesEven)
  | 24, false, true => .ok (.round .plusInfinity)
  | 25, false, false => .ok (.round .minusInfinity)
  | 25, false, true => .ok (.round .zero)
  | 24, true, false => .ok (.round .tiesAway)
  | 26, _, false => .ok (.toInteger .tiesEven (!u) 0)
  | 26, _, true => .ok (.toInteger .plusInfinity (!u) 0)
  | 27, _, false => .ok (.toInteger .minusInfinity (!u) 0)
  | 27, _, true => .ok (.toInteger .zero (!u) 0)
  | 28, _, false => .ok (.toInteger .tiesAway (!u) 0)
  | 29, _, false => .ok (.fromInteger (!u) 0)
  | 25, true, _ => .error notYetImplemented
  | 28, _, true | 29, _, true | 30, _, _ | 31, false, true => .error notYetImplemented
  | _, _, _ => .error unallocated

end SimdInstruction

def FloatUnary.hasLaneScalarForm : FloatUnary → Bool
  | compareZero _ | toInteger _ _ _ | fromInteger _ _ => true
  | _ => false

namespace SimdInstruction

open DecodeError

variable (w : InstructionWord)

def decodeFloatMisc (scalar : Bool) : Except DecodeError SimdInstruction :=
  let p := lanePrecision w
  withArrangement (arrangement? w p.size scalar) fun a =>
    match floatMisc (w.number 16 12) (w.bit 29) (w.bit 23) with
    | .error e => .error e
    | .ok op =>
      if scalar && !op.hasLaneScalarForm then .error unallocated
      else usualFloat w (.unary op p a.elements)

def decodeTwoRegister (scalar : Bool) : Except DecodeError SimdInstruction :=
  let opcode := w.number 16 12
  if opcode ≤ 11 || (18 ≤ opcode && opcode ≤ 20) then decodeIntegerMisc w scalar
  else if opcode == 22 || opcode == 23 then
    if scalar then .error notYetImplemented else decodeConvertLanes w
  else decodeFloatMisc w scalar

/-- The reductions of floating-point lanes; the second form is selected by bit 23. -/
def numberReduction (opcode : Nat) (second : Bool) : Float.Binary :=
  match opcode, second with
  | 12, false => .maxNumber
  | 12, true => .minNumber
  | _, false => .max
  | _, true => .min

def decodeAcross : Except DecodeError SimdInstruction :=
  let u := w.bit 29
  let full := w.bit 30
  let opcode := w.number 16 12
  let size := ElementSize.ofCode (w.extractLsb 23 22)
  let ok (op : Reduction) (long : Bool) : Except DecodeError SimdInstruction :=
    withArrangement (Arrangement.vector? size full) fun a => usualVector w (.reduce op (!u) long a)
  if opcode == 12 || opcode == 15 then
    if !u then .error notYetImplemented
    else if w.bit 22 || !full then .error unallocated
    else usualFloat w (.reduceFour (numberReduction opcode (w.bit 23)))
  else if size == .double || (size == .word && !full) then .error unallocated
  else
    match opcode, u with
    | 3, _ => ok .sum true
    | 10, _ => ok .max false
    | 26, _ => ok .min false
    | 27, false => ok .sum false
    | _, _ => .error unallocated

/-- Lane size and number that a five-bit field encodes: its lowest set bit gives the size. -/
def laneNumber? (imm5 : BitVec 5) : Option (ElementSize × Nat) :=
  let k := imm5.toNat
  if imm5.getLsbD 0 then some (.byte, k / 2)
  else if imm5.getLsbD 1 then some (.half, k / 4)
  else if imm5.getLsbD 2 then some (.word, k / 8)
  else if imm5.getLsbD 3 then some (.double, k / 16)
  else none

def decodeCopy : Except DecodeError SimdInstruction :=
  let full := w.bit 30
  let imm4 := w.number 14 11
  match laneNumber? (w.extractLsb 20 16) with
  | none => .error unallocated
  | some (size, index) =>
    match w.bit 29, imm4 with
    | false, 0 =>
      withArrangement (Arrangement.vector? size full) fun a => usualVector w (.duplicate index a)
    | false, 1 =>
      withArrangement (Arrangement.vector? size full) fun a => usual w (.duplicateGeneral a)
    | false, 3 => if full then usual w (.insertGeneral size index) else .error unallocated
    | false, 5 =>
      if size == .byte || size == .half || (size == .word && full) then
        usual w (.toGeneral true size index (Width.ofBit full))
      else .error unallocated
    | false, 7 =>
      if (size == .double) == full then usual w (.toGeneral false size index (Width.ofBit full))
      else .error unallocated
    | false, _ => .error unallocated
    | true, _ =>
      if full then usualVector w (.insert size index (8 * imm4 / size.bits)) else .error unallocated

def decodePermute : Except DecodeError SimdInstruction :=
  let ok (op : Permutation) : Except DecodeError SimdInstruction :=
    withArrangement (Arrangement.vector? (ElementSize.ofCode (w.extractLsb 23 22)) (w.bit 30))
      fun a => usualVector w (.permute op (w.bit 14).toNat a)
  match w.number 13 12 with
  | 1 => ok .unzip
  | 2 => ok .transpose
  | 3 => ok .zip
  | _ => .error unallocated

def decodeLookup : Except DecodeError SimdInstruction :=
  usual w (.lookup (w.number 14 13 + 1) (w.bit 12) (w.bit 30))

def decodeExtractVector : Except DecodeError SimdInstruction :=
  let position := w.number 14 11
  if !w.bit 30 && 8 ≤ position then .error unallocated
  else usualVector w (.extract position (w.bit 30))

def decodeVector : Except DecodeError SimdInstruction :=
  if w.bit 31 then .error unallocated
  else if w.bit 21 then
    if w.bit 10 then decodeThreeSame w false
    else if !w.bit 11 then decodeThreeDifferent w
    else if w.number 20 17 == 0 then decodeTwoRegister w false
    else if w.number 20 17 == 8 then decodeAcross w
    else .error notYetImplemented
  else
    let plain := w.number 23 22 == 0 && !w.bit 15
    if w.bit 10 then if plain then decodeCopy w else .error notYetImplemented
    else
      match w.bit 29, w.bit 11 with
      | false, true => if w.bit 15 then .error unallocated else decodePermute w
      | false, false => if plain then decodeLookup w else .error unallocated
      | true, _ => if plain then decodeExtractVector w else .error unallocated

def byteMask (imm8 : BitVec 8) : BitVec 64 :=
  (List.range 8).foldl (fun m i => if imm8.getLsbD i then m ||| 0xFF#64 <<< (8 * i) else m) 0#64

/-- The 64 bits that a modified immediate stands for, before they are inverted. -/
def modifiedImmediate? (cmode : Nat) (op full : Bool) (imm8 : BitVec 8) : Option (BitVec 64) :=
  let x := imm8.setWidth 64
  if cmode < 8 then some (Bits.replicate (x <<< (8 * (cmode / 2))) 32)
  else if cmode < 12 then some (Bits.replicate (x <<< (8 * (cmode / 2 % 2))) 16)
  else if cmode = 12 then some (Bits.replicate (x <<< 8 ||| 0xFF#64) 32)
  else if cmode = 13 then some (Bits.replicate (x <<< 16 ||| 0xFFFF#64) 32)
  else if cmode = 14 then some (if op then byteMask imm8 else Bits.replicate x 8)
  else if !op then some (Bits.replicate ((Float.ofImmediate .single imm8).setWidth 64) 32)
  else if full then some (Float.ofImmediate .double imm8)
  else none

def decodeModifiedImmediate : Except DecodeError SimdInstruction :=
  let op := w.bit 29
  let full := w.bit 30
  let cmode := w.number 15 12
  if w.bit 11 then .error notYetImplemented
  else
    match modifiedImmediate? cmode op full (w.extractLsb 18 16 ++ w.extractLsb 9 5) with
    | none => .error unallocated
    | some x =>
      if cmode < 12 && cmode % 2 == 1 then
        usualVector w (.immediate (if op then .clear else .set) x full)
      else usualVector w (.immediate .write (if op && cmode < 14 then ~~~x else x) full)

/-- Shifts by an immediate. The highest set bit of the field from bit 22 gives the lane size, and the rest of the
field the amount. -/
def decodeShift (scalar : Bool) : Except DecodeError SimdInstruction :=
  let u := w.bit 29
  let upper := w.bit 30
  let opcode := w.number 15 11
  let size := ElementSize.ofBits (8 * 2 ^ (w.number 22 19).log2)
  let right := 2 * size.bits - w.number 22 16
  let left := w.number 22 16 - size.bits
  let each (f : Arrangement → VectorOp) : Except DecodeError SimdInstruction :=
    if scalar && size != .double then .error unallocated
    else withArrangement (arrangement? w size scalar) fun a => usualVector w (f a)
  let fixed (op : FloatUnary) : Except DecodeError SimdInstruction :=
    match size with
    | .half => .error notYetImplemented
    | .byte => .error unallocated
    | .word => withArrangement (arrangement? w size scalar) fun a =>
      usualFloat w (.unary op .single a.elements)
    | .double => withArrangement (arrangement? w size scalar) fun a =>
      usualFloat w (.unary op .double a.elements)
  if w.number 22 19 == 0 then .error unallocated
  else if 16 ≤ opcode && opcode ≤ 20 && scalar then
    .error (if opcode == 20 || (opcode ≤ 17 && !u) then unallocated else notYetImplemented)
  else if 16 ≤ opcode && opcode ≤ 20 && size == .double then .error unallocated
  else
    match opcode, u with
    | 0, _ => each (.shiftRight (!u) false false right)
    | 2, _ => each (.shiftRight (!u) false true right)
    | 4, _ => each (.shiftRight (!u) true false right)
    | 6, _ => each (.shiftRight (!u) true true right)
    | 8, true => each (.shiftRightInsert right)
    | 10, _ => each (.shiftLeft u left)
    | 16, false => usualVector w (.shiftRightNarrow false right size upper)
    | 17, false => usualVector w (.shiftRightNarrow true right size upper)
    | 20, _ => usualVector w (.shiftLeftLong (!u) left size upper)
    | 28, _ => fixed (.fromInteger (!u) right)
    | 31, _ => fixed (.toInteger .zero (!u) right)
    | 12, _ | 14, _ | 16, true | 17, true | 18, _ | 19, _ => .error notYetImplemented
    | _, _ => .error unallocated

/-- Floating-point products with one lane of the second source. -/
def decodeFloatByElement (scalar : Bool) : Except DecodeError SimdInstruction :=
  let low := w.bit 21
  let high := (w.bit 11).toNat
  let double := w.bit 22
  let p := lanePrecision w
  let op : FloatLane :=
    match w.number 15 12 with
    | 1 => .multiplyAdd
    | 5 => .multiplySub
    | _ => .binary .mul
  if !w.bit 23 then .error (if double then unallocated else notYetImplemented)
  else if double && low then .error unallocated
  else
    let index := if double then high else 2 * high + low.toNat
    withArrangement (arrangement? w p.size scalar) fun a =>
      usualFloat w (.byElement op p a.elements index)

/-- Integer products with one lane of the second source. Half-word lanes leave four bits for its number. -/
def decodeIntegerByElement : Except DecodeError SimdInstruction :=
  let op : LaneOp :=
    match w.number 15 12 with
    | 8 => .multiply
    | 0 => .multiplyAdd
    | _ => .multiplySub
  let low := 2 * (w.bit 11).toNat + (w.bit 21).toNat
  let ok (size : ElementSize) (rm : Register) (index : Nat) : Except DecodeError SimdInstruction :=
    withArrangement (Arrangement.vector? size (w.bit 30)) fun a =>
      .ok { rd := w.rd, rn := w.rn, rm, op := .vector (.byElement op a index) }
  match w.number 23 22 with
  | 1 => ok .half ((w.extractLsb 19 16).setWidth 5) (2 * low + (w.bit 20).toNat)
  | 2 => ok .word w.rm low
  | _ => .error unallocated

def decodeByElement (scalar : Bool) : Except DecodeError SimdInstruction :=
  match w.number 15 12, w.bit 29 with
  | 1, false | 5, false | 9, false => decodeFloatByElement w scalar
  | 8, false | 0, true | 4, true =>
    if scalar then .error notYetImplemented else decodeIntegerByElement w
  | _, _ => .error notYetImplemented

def decodeVectorImmediate : Except DecodeError SimdInstruction :=
  if w.bit 31 then .error unallocated
  else if !w.bit 10 then decodeByElement w false
  else if w.number 22 19 == 0 then decodeModifiedImmediate w
  else decodeShift w false

def scalarReduction? (opcode : Nat) (second : Bool) : Option Float.Binary :=
  match opcode, second with
  | 12, _ | 15, _ => some (numberReduction opcode second)
  | 13, false => some .add
  | _, _ => none

def decodeScalarPairwise : Except DecodeError SimdInstruction :=
  let u := w.bit 29
  let opcode := w.number 16 12
  if opcode == 27 then
    if u || w.number 23 22 != 3 then .error unallocated
    else usualVector w (.reduce .sum true false { size := .double, elements := 2 })
  else
    match scalarReduction? opcode (w.bit 23) with
    | none => .error unallocated
    | some op =>
      if !u then .error notYetImplemented else usualFloat w (.reducePair op (lanePrecision w))

def decodeScalarDuplicate : Except DecodeError SimdInstruction :=
  match laneNumber? (w.extractLsb 20 16) with
  | none => .error unallocated
  | some (size, index) => usualVector w (.duplicate index (Arrangement.scalar size))

def decodeScalar : Except DecodeError SimdInstruction :=
  if w.bit 31 then .error unallocated
  else if w.bit 21 then
    if w.bit 10 then decodeThreeSame w true
    else if !w.bit 11 then .error notYetImplemented
    else if w.number 20 17 == 0 then decodeTwoRegister w true
    else if w.number 20 17 == 8 then decodeScalarPairwise w
    else .error notYetImplemented
  else if w.bit 10 && w.number 23 22 == 0 && !w.bit 29 && w.number 15 11 == 0 then
    decodeScalarDuplicate w
  else .error notYetImplemented

def decodeScalarImmediate : Except DecodeError SimdInstruction :=
  if w.bit 31 then .error unallocated
  else if w.bit 10 then decodeShift w true
  else decodeByElement w true

end SimdInstruction
end AArch64
