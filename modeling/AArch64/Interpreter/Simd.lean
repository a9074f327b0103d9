import AArch64.Interpreter.Attempt
import AArch64.Interpreter.Float
import AArch64.Simd.FloatDecode

/-! The executors of the vector forms and of the scalar forms that share their operations. -/
namespace AArch64

open Masked SimdInstruction

/-- Size and number of the lane that a field encodes, by its lowest set bit. -/
def lanePlace? (imm5 : BitVec 32) : Option (ElementSize × Nat) := do
  let size := imm5.ctz.toNat
  let esize ← shiftLeft? 8#32 size
  let index ← shiftRight? imm5 (size + 1)
  some (.ofBits esize.toNat, index.toNat)

/-- Bits of the lanes that a field encodes, by its highest set bit. -/
def laneBits? (immh : BitVec 32) : Option Nat := do
  let esize ← shiftLeft? 8#32 (← sub? 31 immh.clz.toNat)
  some esize.toNat

def lookedUp? (table : List (BitVec 8)) (indices d : BitVec 128) (extend : Bool) : Option (BitVec 128) :=
  Lanes.build? 16 fun k => do
    let index ← Lanes.get? indices 8 k
    match table[index.toNat]? with
    | some x => some x
    | none => if extend then Lanes.get? d 8 k else some 0#8

def byteMask? (imm8 : BitVec 64) : Option (BitVec 64) :=
  (List.range 8).foldlM (fun mask i => do
    let byte ← shiftLeft? 0xFF#64 (8 * i)
    some (if ← bit? imm8 i then mask ||| byte else mask)) 0#64

namespace Attempt

variable (w : InstructionWord)

def notYetImplementedIf (c : Bool) : Attempt Unit := if c then notYetImplemented else pure ()

/-- There may be no vector with such lanes. -/
def arranged (a : Option Arrangement) : Attempt Arrangement :=
  match a with
  | some a => pure a
  | none => unallocated

/-- Each executor reads the operands that it needs. The others count as zero. -/
def readSource : Attempt VectorOperands := do
  let n ← readV w.rn.toNat
  pure { n, m := 0#128, d := 0#128 }

def readSources : Attempt VectorOperands := do
  let n ← readV w.rn.toNat
  let m ← readV w.rm.toNat
  pure { n, m, d := 0#128 }

def readOperands : Attempt VectorOperands := do
  let n ← readV w.rn.toNat
  let m ← readV w.rm.toNat
  let d ← readV w.rd.toNat
  pure { n, m, d }

def readAccumulated : Attempt VectorOperands := do
  let n ← readV w.rn.toNat
  let d ← readV w.rd.toNat
  pure { n, m := 0#128, d }

def readShifted : Attempt VectorOperands := do
  let d ← readV w.rd.toNat
  let n ← readV w.rn.toNat
  pure { n, m := 0#128, d }

/-- The old destination matters only where the result goes to its upper half. -/
def readNarrowed (upper : Bool) : Attempt VectorOperands := do
  let n ← readV w.rn.toNat
  if upper then do
    let d ← readV w.rd.toNat
    pure { n, m := 0#128, d }
  else pure { n, m := 0#128, d := 0#128 }

def writeVector (x : BitVec 128) : Attempt Completion := do
  writeV w.rd.toNat x
  pure .ready

/-- Flags are raised before the register is written. -/
def writeResult (r : Option (Flagged (BitVec 128))) : Attempt Completion := do writeVector w (← flagged r)

def vectorLogical : Attempt Completion := do
  let v ← readOperands w
  writeResult w ((VectorOp.bitwise (bitwiseOp (w.bit 29) (w.extractLsb 23 22)) (w.bit 30)).eval? v)

def floatThreeSame (scalar : Bool) (p : Precision) (a : Arrangement) : Attempt Completion := do
  let op ← decoded (SimdInstruction.floatThreeSame (w.number 15 11) (w.bit 29) (w.bit 23))
  unallocatedIf (scalar && !op.hasScalarForm)
  let v ← readOperands w
  match op with
  | .lanes op => writeResult w ((FloatVectorOp.lanes op p a.elements).eval? v)
  | .pairwise op => writeResult w ((FloatVectorOp.pairwise op p a.elements).eval? v)

def intLanes (op : LaneOp) (signed : Bool) (a : Arrangement) : Attempt Completion := do
  let v ← readOperands w
  writeResult w ((VectorOp.lanes op signed a).eval? v)

def intPairwise (op : LaneOp) (signed : Bool) (a : Arrangement) : Attempt Completion := do
  let v ← readSources w
  writeResult w ((VectorOp.pairwise op signed a).eval? v)

def threeSame (scalar : Bool) : Attempt Completion :=
  let u := w.bit 29
  let opcode := w.number 15 11
  let size := ElementSize.ofCode (w.extractLsb 23 22)
  if 24 ≤ opcode then do
    let p := lanePrecision w
    let a ← arranged (arrangement? w p.size scalar)
    floatThreeSame w scalar p a
  else if opcode == 3 then do
    unallocatedIf scalar
    vectorLogical w
  else
    match laneOp? opcode u with
    | none =>
      if opcode == 9 || opcode == 10 || opcode == 11 || opcode == 22 then notYetImplemented else unallocated
    | some op => do
      let saturating := op == .saturatingAdd || op == .saturatingSub
      unallocatedIf (scalar && (!op.hasWideForm || opcode == 23 || (size != .double && !saturating)))
      unallocatedIf (size == .double && !op.hasWideForm || op == .polynomialMultiply && size != .byte
        || opcode == 23 && u)
      let a ← arranged (arrangement? w size scalar)
      if 20 ≤ opcode && opcode != 22 && opcode ≤ 23 then intPairwise w op (!u) a else intLanes w op (!u) a

/-- The operands are read before the forms that are not there are told apart. -/
def threeDifferent : Attempt Completion := do
  let u := w.bit 29
  let upper := w.bit 30
  let opcode := w.number 15 12
  let size := ElementSize.ofCode (w.extractLsb 23 22)
  unallocatedIf (size == .double)
  let v ← readOperands w
  if opcode == 4 || opcode == 6 then do
    notYetImplementedIf u
    writeResult w ((VectorOp.highNarrow (opcode == 6) size upper).eval? v)
  else if opcode == 9 || opcode == 11 || opcode == 13 || opcode == 14 then notYetImplemented
  else if opcode == 15 then unallocated
  else
    let (op, wideFirst) := (longOp? opcode).getD (.multiply, false)
    writeResult w ((VectorOp.long op (!u) wideFirst size upper).eval? v)

def reverseLanes (size : ElementSize) (container : Nat) : Attempt Completion := do
  unallocatedIf (decide (container ≤ size.bits))
  let a ← arranged (Arrangement.vector? size (w.bit 30))
  let v ← readSource w
  writeResult w ((VectorOp.reverse container a).eval? v)

/-- The arrangement is that of the wide lanes. -/
def addLongPairs (size : ElementSize) (accumulate : Bool) : Attempt Completion := do
  unallocatedIf (size == .double)
  let a ← arranged (Arrangement.vector? (.ofBits (size.bits * 2)) (w.bit 30))
  let v ← readAccumulated w
  writeResult w ((VectorOp.addLongPairs (!w.bit 29) accumulate size a.elements).eval? v)

def mapLanes (op : LaneUnary) (a : Option Arrangement) : Attempt Completion := do
  let a ← arranged a
  let v ← readSource w
  writeResult w ((VectorOp.unary op a).eval? v)

def narrowLanes (size : ElementSize) : Attempt Completion := do
  let v ← readNarrowed w (w.bit 30)
  writeResult w ((VectorOp.narrow size (w.bit 30)).eval? v)

def integerMisc (scalar : Bool) : Attempt Completion := do
  let u := w.bit 29
  let full := w.bit 30
  let opcode := w.number 16 12
  let size := ElementSize.ofCode (w.extractLsb 23 22)
  let bytes := Arrangement.vector? .byte full
  let each := arrangement? w size scalar
  notYetImplementedIf (scalar && (opcode == 3 || opcode == 7 || opcode == 18 || opcode == 20))
  unallocatedIf (scalar && (!(8 ≤ opcode && opcode ≤ 11) || size != .double || opcode == 10 && u))
  match opcode, u with
  | 0, false => reverseLanes w size 64
  | 0, true => reverseLanes w size 32
  | 1, false => reverseLanes w size 16
  | 2, _ | 6, _ => addLongPairs w size (opcode == 6)
  | 3, _ | 7, _ => notYetImplemented
  | 4, _ => do
    unallocatedIf (size == .double)
    mapLanes w (if u then .leadingZeros else .leadingSigns) (Arrangement.vector? size full)
  | 5, false => if size == .byte then mapLanes w .popCount bytes else unallocated
  | 5, true =>
    if size == .byte then mapLanes w .not bytes
    else if size == .half then mapLanes w .reverseBits bytes
    else unallocated
  | 8, _ | 9, _ | 10, false => mapLanes w (.compareZero (zeroTest opcode u)) each
  | 11, _ => mapLanes w (if u then .neg else .abs) each
  | 18, false => do
    unallocatedIf (size == .double)
    narrowLanes w size
  | 18, true | 19, true | 20, _ => notYetImplemented
  | _, _ => unallocated

def convertLongNarrow : Attempt Completion := do
  notYetImplementedIf (w.bit 29)
  notYetImplementedIf (!w.bit 22)
  let upper := w.bit 30
  if w.bit 12 then do
    let v ← readSource w
    writeResult w ((FloatVectorOp.widen upper).eval? v)
  else do
    let v ← readNarrowed w upper
    writeResult w ((FloatVectorOp.narrow upper).eval? v)

def floatMisc (scalar : Bool) (p : Precision) (a : Arrangement) : Attempt Completion := do
  let op ← decoded (SimdInstruction.floatMisc (w.number 16 12) (w.bit 29) (w.bit 23))
  unallocatedIf (scalar && !op.hasLaneScalarForm)
  let v ← readSource w
  writeResult w ((FloatVectorOp.unary op p a.elements).eval? v)

def twoRegisterMisc (scalar : Bool) : Attempt Completion :=
  let opcode := w.number 16 12
  if opcode ≤ 11 || (18 ≤ opcode && opcode ≤ 20) then integerMisc w scalar
  else if opcode == 22 || opcode == 23 then do
    notYetImplementedIf scalar
    convertLongNarrow w
  else do
    let p := lanePrecision w
    let a ← arranged (arrangement? w p.size scalar)
    floatMisc w scalar p a

/-- The source is read before the operation is known. -/
def acrossLanes : Attempt Completion := do
  let u := w.bit 29
  let full := w.bit 30
  let opcode := w.number 16 12
  let size := ElementSize.ofCode (w.extractLsb 23 22)
  if opcode == 12 || opcode == 15 then do
    notYetImplementedIf !u
    unallocatedIf (w.bit 22 || !full)
    let v ← readSource w
    writeResult w ((FloatVectorOp.reduceFour (numberReduction opcode (w.bit 23))).eval? v)
  else do
    unallocatedIf (size == .double || (size == .word && !full))
    let a ← arranged (Arrangement.vector? size full)
    let v ← readSource w
    let reduced op long := writeResult w ((VectorOp.reduce op (!u) long a).eval? v)
    match opcode, u with
    | 3, _ => reduced .sum true
    | 10, _ => reduced .max false
    | 26, _ => reduced .min false
    | 27, false => reduced .sum false
    | _, _ => unallocated

def insertLane (size : ElementSize) (index : Nat) (x : BitVec size.bits) : Attempt Completion := do
  let v ← readV w.rd.toNat
  writeVector w (← checked (Lanes.set? v index x))

def copy : Attempt Completion := do
  let full := w.bit 30
  let imm4 := w.number 14 11
  unallocatedIf (w.number 19 16 == 0)
  let (size, index) ← checked (lanePlace? ((w.extractLsb 20 16).setWidth 32))
  match w.bit 29, imm4 with
  | false, 0 => do
    let a ← arranged (Arrangement.vector? size full)
    let v ← readSource w
    writeResult w ((VectorOp.duplicate index a).eval? v)
  | false, 1 => do
    let a ← arranged (Arrangement.vector? size full)
    let x ← readX 64 w.rn.toNat
    writeVector w (← checked (Lanes.build? a.elements fun _ => some (x.setWidth a.esize)))
  | false, 3 =>
    if full then do
      let x ← readX 64 w.rn.toNat
      insertLane w size index (x.setWidth size.bits)
    else unallocated
  | false, 5 =>
    if size == .byte || size == .half || (size == .word && full) then do
      let v ← readV w.rn.toNat
      let x ← checked (Lanes.get? v size.bits index)
      let x ← checked (signExtended? (x.setWidth 64) size.bits)
      writeX w.rd.toNat (x.setWidth (Width.ofBit full).bits)
      pure .ready
    else unallocated
  | false, 7 =>
    if (size == .double) == full then do
      let v ← readV w.rn.toNat
      let x ← checked (Lanes.get? v size.bits index)
      writeX w.rd.toNat (x.setWidth (Width.ofBit full).bits)
      pure .ready
    else unallocated
  | false, _ => unallocated
  | true, _ =>
    if full then do
      let v ← readV w.rn.toNat
      let x ← checked (Lanes.get? v size.bits (8 * imm4 / size.bits))
      insertLane w size index x
    else unallocated

def permute : Attempt Completion := do
  let a ← arranged (Arrangement.vector? (ElementSize.ofCode (w.extractLsb 23 22)) (w.bit 30))
  let v ← readSources w
  let permuted op := writeResult w ((VectorOp.permute op (w.bit 14).toNat a).eval? v)
  match w.number 13 12 with
  | 1 => permuted .unzip
  | 2 => permuted .transpose
  | 3 => permuted .zip
  | _ => unallocated

/-- The bytes of consecutive registers. After the last register comes the first one. -/
def readTable : (registers t : Nat) → Attempt (List (BitVec 8))
  | 0, _ => pure []
  | registers + 1, t => do
    let v ← readV t
    let rest ← readTable registers ((t + 1) % 32)
    pure ((List.range 16).map (Lanes.get v 8) ++ rest)

def tableLookup : Attempt Completion := do
  let table ← readTable (w.number 14 13 + 1) w.rn.toNat
  let indices ← readV w.rm.toNat
  let d ← readV w.rd.toNat
  let r ← checked (lookedUp? table indices d (w.bit 12))
  writeVector w (Lanes.sized r (w.bit 30))

def extractVector : Attempt Completion := do
  let position := w.number 14 11
  unallocatedIf (!w.bit 30 && 8 ≤ position)
  let v ← readSources w
  writeResult w ((VectorOp.extract position (w.bit 30)).eval? v)

def simdVector : Attempt Completion := do
  unallocatedIf (w.bit 31)
  if w.bit 21 then
    if w.bit 10 then threeSame w false
    else if !w.bit 11 then threeDifferent w
    else if w.number 20 17 == 0 then twoRegisterMisc w false
    else if w.number 20 17 == 8 then acrossLanes w
    else notYetImplemented
  else
    let plain := w.number 23 22 == 0 && !w.bit 15
    if w.bit 10 then if plain then copy w else notYetImplemented
    else
      match w.bit 29, w.bit 11 with
      | false, true => if w.bit 15 then unallocated else permute w
      | false, false => if plain then tableLookup w else unallocated
      | true, _ => if plain then extractVector w else unallocated

def immediatePattern (cmode : Nat) (op full : Bool) (imm8 : BitVec 32) : Attempt (BitVec 64) :=
  let x := imm8.setWidth 64
  if cmode < 8 then checked do replicate? (← shiftLeft? x (8 * (cmode / 2))) 32
  else if cmode < 12 then checked do replicate? (← shiftLeft? x (8 * (cmode / 2 % 2))) 16
  else if cmode = 12 then checked (replicate? (x <<< 8 ||| 0xFF#64) 32)
  else if cmode = 13 then checked (replicate? (x <<< 16 ||| 0xFFFF#64) 32)
  else if cmode = 14 then checked (if op then byteMask? x else replicate? x 8)
  else if !op then checked do replicate? (Float.raw (← Float.ofImmediate? .single imm8)) 32
  else if full then checked do some (Float.raw (← Float.ofImmediate? .double imm8))
  else unallocated

/-- The old destination is read only where the immediate is combined with it. -/
def modifiedImmediate : Attempt Completion := do
  let op := w.bit 29
  let full := w.bit 30
  let cmode := w.number 15 12
  notYetImplementedIf (w.bit 11)
  let x ← immediatePattern cmode op full ((w.extractLsb 18 16 ++ w.extractLsb 9 5).setWidth 32)
  let x := x ++ x
  if cmode < 12 && cmode % 2 == 1 then do
    let d ← readV w.rd.toNat
    writeVector w (Lanes.sized (if op then d &&& ~~~x else d ||| x) full)
  else writeVector w (Lanes.sized (if op && cmode < 14 then ~~~x else x) full)

/-- Integers are shifted in vectors and in the widest scalars. -/
def shiftLanes (size : ElementSize) (scalar : Bool) (op : Arrangement → VectorOp) : Attempt Completion := do
  unallocatedIf (scalar && size != .double)
  let a ← arranged (arrangement? w size scalar)
  let v ← readShifted w
  writeResult w ((op a).eval? v)

def fixedPointLanes (size : ElementSize) (scalar : Bool) (op : FloatUnary) : Attempt Completion := do
  notYetImplementedIf (size == .half)
  unallocatedIf (size == .byte)
  let a ← arranged (arrangement? w size scalar)
  let v ← readSource w
  writeResult w ((FloatVectorOp.unary op (if size == .word then .single else .double) a.elements).eval? v)

def shiftByImmediate (scalar : Bool) : Attempt Completion := do
  let u := w.bit 29
  let upper := w.bit 30
  let opcode := w.number 15 11
  unallocatedIf (w.number 22 19 == 0)
  let esize ← checked (laneBits? ((w.extractLsb 22 19).setWidth 32))
  let size := ElementSize.ofBits esize
  let right ← checked (sub? (2 * esize) (w.number 22 16))
  let left ← checked (sub? (w.number 22 16) esize)
  let narrow := 16 ≤ opcode && opcode ≤ 20
  unallocatedIf (narrow && scalar && (opcode == 20 || opcode ≤ 17 && !u))
  notYetImplementedIf (narrow && scalar)
  unallocatedIf (narrow && size == .double)
  let each := shiftLanes w size scalar
  match opcode, u with
  | 0, _ => each (.shiftRight (!u) false false right)
  | 2, _ => each (.shiftRight (!u) false true right)
  | 4, _ => each (.shiftRight (!u) true false right)
  | 6, _ => each (.shiftRight (!u) true true right)
  | 8, true => each (.shiftRightInsert right)
  | 10, _ => each (.shiftLeft u left)
  | 16, false => do
    let v ← readNarrowed w upper
    writeResult w ((VectorOp.shiftRightNarrow false right size upper).eval? v)
  | 17, false => do
    let v ← readNarrowed w upper
    writeResult w ((VectorOp.shiftRightNarrow true right size upper).eval? v)
  | 20, _ => do
    let v ← readSource w
    writeResult w ((VectorOp.shiftLeftLong (!u) left size upper).eval? v)
  | 28, _ => fixedPointLanes w size scalar (.fromInteger (!u) right)
  | 31, _ => fixedPointLanes w size scalar (.toInteger .zero (!u) right)
  | 12, _ | 14, _ | 16, true | 17, true | 18, _ | 19, _ => notYetImplemented
  | _, _ => unallocated

def floatByElement (scalar : Bool) : Attempt Completion := do
  let low := w.bit 21
  let high := (w.bit 11).toNat
  let double := w.bit 22
  let p := lanePrecision w
  let op : FloatLane :=
    match w.number 15 12 with
    | 1 => .multiplyAdd
    | 5 => .multiplySub
    | _ => .binary .mul
  unallocatedIf (!w.bit 23 && double)
  notYetImplementedIf !w.bit 23
  unallocatedIf (double && low)
  let index := if double then high else 2 * high + low.toNat
  let a ← arranged (arrangement? w p.size scalar)
  let v ← readOperands w
  writeResult w ((FloatVectorOp.byElement op p a.elements index).eval? v)

/-- The second source is read first. -/
def integerLanesByElement (op : LaneOp) (size : ElementSize) (rm index : Nat) : Attempt Completion := do
  let a ← arranged (Arrangement.vector? size (w.bit 30))
  let m ← readV rm
  let n ← readV w.rn.toNat
  let d ← readV w.rd.toNat
  writeResult w ((VectorOp.byElement op a index).eval? { n, m, d })

def integerByElement : Attempt Completion :=
  let op : LaneOp :=
    match w.number 15 12 with
    | 8 => .multiply
    | 0 => .multiplyAdd
    | _ => .multiplySub
  let low := 2 * (w.bit 11).toNat + (w.bit 21).toNat
  match w.number 23 22 with
  | 1 => integerLanesByElement w op .half (w.number 19 16) (2 * low + (w.bit 20).toNat)
  | 2 => integerLanesByElement w op .word w.rm.toNat low
  | _ => unallocated

def multiplyByElement (scalar : Bool) : Attempt Completion :=
  match w.number 15 12, w.bit 29 with
  | 1, false | 5, false | 9, false => floatByElement w scalar
  | 8, false | 0, true | 4, true => do
    notYetImplementedIf scalar
    integerByElement w
  | _, _ => notYetImplemented

def simdVectorImmediate : Attempt Completion := do
  unallocatedIf (w.bit 31)
  if !w.bit 10 then multiplyByElement w false
  else if w.number 22 19 == 0 then modifiedImmediate w
  else shiftByImmediate w false

def scalarPairwise : Attempt Completion := do
  let u := w.bit 29
  let opcode := w.number 16 12
  if opcode == 27 then do
    unallocatedIf (u || w.number 23 22 != 3)
    let v ← readV w.rn.toNat
    let first ← checked (Lanes.get? v 64 0)
    let second ← checked (Lanes.get? v 64 1)
    writeVector w (← checked (Lanes.scalar? (first + second)))
  else
    match scalarReduction? opcode (w.bit 23) with
    | none => unallocated
    | some op => do
      notYetImplementedIf !u
      let v ← readSource w
      writeResult w ((FloatVectorOp.reducePair op (lanePrecision w)).eval? v)

def scalarDuplicate : Attempt Completion := do
  unallocatedIf (w.number 19 16 == 0)
  let (size, index) ← checked (lanePlace? ((w.extractLsb 20 16).setWidth 32))
  let v ← readV w.rn.toNat
  let x ← checked (Lanes.get? v size.bits index)
  writeVector w (← checked (Lanes.scalar? x))

def simdScalar : Attempt Completion := do
  unallocatedIf (w.bit 31)
  if w.bit 21 then
    if w.bit 10 then threeSame w true
    else if !w.bit 11 then notYetImplemented
    else if w.number 20 17 == 0 then twoRegisterMisc w true
    else if w.number 20 17 == 8 then scalarPairwise w
    else notYetImplemented
  else if w.bit 10 && w.number 23 22 == 0 && !w.bit 29 && w.number 15 11 == 0 then scalarDuplicate w
  else notYetImplemented

def simdScalarImmediate : Attempt Completion := do
  unallocatedIf (w.bit 31)
  if w.bit 10 then shiftByImmediate w true else multiplyByElement w true

end Attempt
end AArch64
