import AArch64.Decode.KeyTable
import AArch64.Transfer.Basic

/-! Decoding of loads and stores. A form that writes back to a base register which is also transferred has no
instruction. -/
namespace AArch64.TransferOp

open DecodeError

variable (w : InstructionWord)

def decodeLiteral : Except DecodeError TransferOp :=
  let ok kind size : Except DecodeError TransferOp :=
    .ok (.literal kind size w.rd (w.offset 23 5 <<< 2))
  if w.bit 24 then .error (if w.bit 26 then unallocated else notYetImplemented)
  else
    match w.number 31 30, w.bit 26 with
    | 0, false => ok .load 4
    | 1, false => ok .load 8
    | 2, false => ok (.loadSigned .w64) 4
    | _, false => .ok .nothing
    | 0, true => ok .loadVector 4
    | 1, true => ok .loadVector 8
    | 2, true => ok .loadVector 16
    | _, true => .error unallocated

def decodeExclusive : Except DecodeError TransferOp :=
  let size := 2 ^ w.number 31 30
  let load := w.bit 22
  if w.bit 24 then .error unallocated
  else if w.bit 21 then .error notYetImplemented
  else if w.bit 23 then
    .ok (.single (if load then .load else .store) size w.rd w.rn .offset (.immediate 0#64))
  else if load then .ok (.loadExclusive size w.rd w.rn)
  else if w.rm == w.rd || (w.rm == w.rn && w.rn != Register.stackPointer) then .error unallocated
  else .ok (.storeExclusive size w.rm w.rd w.rn)

def pairKind : Except DecodeError (TransferKind × Nat) :=
  let load := w.bit 22
  match w.number 31 30, w.bit 26 with
  | 0, false => .ok (if load then .load else .store, 4)
  | 1, false =>
    if !load then .error notYetImplemented
    else if w.number 24 23 != 0 then .ok (.loadSigned .w64, 4)
    else .error unallocated
  | 2, false => .ok (if load then .load else .store, 8)
  | 0, true => .ok (if load then .loadVector else .storeVector, 4)
  | 1, true => .ok (if load then .loadVector else .storeVector, 8)
  | 2, true => .ok (if load then .loadVector else .storeVector, 16)
  | _, _ => .error unallocated

def pairIndexing : Indexing :=
  match w.number 24 23 with
  | 1 => .postIndex
  | 3 => .preIndex
  | _ => .offset

def decodePair : Except DecodeError TransferOp :=
  match pairKind w with
  | .error e => .error e
  | .ok (kind, size) =>
    let indexing := pairIndexing w
    if indexing.writesBack && !w.bit 26 && w.rn != Register.stackPointer
        && (w.rd == w.rn || w.ra == w.rn) then .error unallocated
    else if w.bit 22 && w.rd == w.ra then .error unallocated
    else
      .ok (.pair kind size w.rd w.ra w.rn indexing (w.offset 21 15 * BitVec.ofNat 64 size))

/-- Kind of a single transfer and the logarithm of its size. -/
def singleKind : Except DecodeError (TransferKind × Nat) :=
  let size := w.number 31 30
  if w.bit 26 then
    let scale := 4 * (w.bit 23).toNat + size
    if 4 < scale then .error unallocated
    else .ok (if w.bit 22 then .loadVector else .storeVector, scale)
  else
    match w.number 23 22 with
    | 0 => .ok (.store, size)
    | 1 => .ok (.load, size)
    | 2 => .ok (if size == 3 then .prefetch else .loadSigned .w64, size)
    | _ => if size ≤ 1 then .ok (.loadSigned .w32, size) else .error unallocated

def singleAddress (kind : TransferKind) (scale : Nat) :
    Except DecodeError (Indexing × AddressOffset) :=
  let imm9 := AddressOffset.immediate (w.offset 20 12)
  if w.bit 24 then
    .ok (.offset, .immediate ((w.extractLsb 21 10).setWidth 64 <<< scale))
  else if !w.bit 21 then
    match w.number 11 10 with
    | 0 => .ok (.offset, imm9)
    | 2 => if kind.isVector || kind == .prefetch then .error unallocated else .ok (.offset, imm9)
    | 1 => if kind == .prefetch then .error unallocated else .ok (.postIndex, imm9)
    | _ => if kind == .prefetch then .error unallocated else .ok (.preIndex, imm9)
  else if w.number 11 10 != 2 then .error notYetImplemented
  else if !w.bit 14 then .error unallocated
  else
    .ok (.offset, .register w.rm (Extension.ofCode (w.extractLsb 15 13)) (if w.bit 12 then scale else 0))

def decodeSingle : Except DecodeError TransferOp :=
  match singleKind w with
  | .error e => .error e
  | .ok (kind, scale) =>
    match singleAddress w kind scale with
    | .error e => .error e
    | .ok (indexing, offset) =>
      if indexing.writesBack && !kind.isVector && w.rn == w.rd && w.rn != Register.stackPointer then
        .error unallocated
      else .ok (.single kind (2 ^ scale) w.rd w.rn indexing offset)

/-- Repeats and members of the forms that move whole structures. -/
def multipleShape? : Option (Nat × Nat) :=
  match w.number 15 12 with
  | 0 => some (1, 4)
  | 2 => some (4, 1)
  | 4 => some (1, 3)
  | 6 => some (3, 1)
  | 7 => some (1, 1)
  | 8 => some (1, 2)
  | 10 => some (2, 1)
  | _ => none

/-- Bytes of an element, and which elements move. -/
def multipleStructures : Except DecodeError (Nat × StructureShape) :=
  let full := w.bit 30
  let size := w.number 11 10
  if w.bit 21 then .error unallocated
  else
    match multipleShape? w with
    | none => .error unallocated
    | some (repeats, members) =>
      if size == 3 && !full && members != 1 then .error unallocated
      else .ok (2 ^ size, .multiple repeats members ((if full then 16 else 8) / 2 ^ size))

def singleStructure : Except DecodeError (Nat × StructureShape) :=
  let q := (w.bit 30).toNat
  let s := (w.bit 12).toNat
  let size := w.number 11 10
  let members := 2 * (w.bit 13).toNat + (w.bit 21).toNat + 1
  match w.number 15 14 with
  | 0 => .ok (1, .lane members (8 * q + 4 * s + size))
  | 1 =>
    if w.bit 10 then .error unallocated else .ok (2, .lane members (4 * q + 2 * s + size / 2))
  | 2 =>
    if w.bit 11 || (size == 1 && s == 1) then .error unallocated
    else if size == 0 then .ok (4, .lane members (2 * q + s))
    else .ok (8, .lane members q)
  | _ =>
    if !w.bit 22 || w.bit 12 then .error unallocated else .ok (2 ^ size, .replicated members)

def structureAdvance : Advance :=
  if !w.bit 23 then .none
  else if w.rm == Register.stackPointer then .bytesMoved
  else .register w.rm

def decodeStructures : Except DecodeError TransferOp :=
  if w.bit 31 || (!w.bit 23 && w.rm != 0#5) then .error unallocated
  else
    match if w.bit 24 then singleStructure w else multipleStructures w with
    | .error e => .error e
    | .ok (ebytes, shape) =>
      .ok (.structures (w.bit 22) ebytes w.rd w.rn (w.bit 30) shape (structureAdvance w))

def decode : Except DecodeError TransferOp :=
  match KeyTable.loadStore.key w with
  | 0 => decodeExclusive w
  | 1 => decodeStructures w
  | 2 | 3 => decodeLiteral w
  | 4 | 5 => decodePair w
  | _ => decodeSingle w

end AArch64.TransferOp
