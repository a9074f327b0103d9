import AArch64.Interpreter.Integer
import AArch64.Interpreter.Memory
import AArch64.Transfer.Decode

/-! The executors of loads and stores. -/
namespace AArch64

open Masked TransferOp

def byteCount? (scale : Nat) : Option Nat := (shiftLeft? 1#64 scale).map BitVec.toNat

namespace Attempt

variable (w : InstructionWord)

def move (kind : TransferKind) (a : BitVec 64) (size : Nat) (rt : Register) : Attempt Unit :=
  match kind with
  | .store => do storeInteger a size (← readX 64 rt.toNat)
  | .load => do writeX rt.toNat (← loadInteger a size)
  | .loadSigned width => do
    let x ← loadInteger a size
    let x ← checked (signExtended? x (8 * size))
    writeX rt.toNat (x.setWidth width.bits)
  | .prefetch => pure ()
  | .storeVector => do
    let v ← readV rt.toNat
    if size = 1 ∨ size = 2 ∨ size = 4 ∨ size = 8 then
      let x ← checked (Lanes.get? v (8 * size) 0)
      writeMemory a size x
    else writeMemory a 16 v
  | .loadVector =>
    if size = 1 ∨ size = 2 ∨ size = 4 ∨ size = 8 then do
      let x ← readMemory a size
      let v ← checked (Lanes.set? 0#128 0 x)
      writeV rt.toNat v
    else do writeV rt.toNat (← readMemory a 16)

/-- A fault is reported after the register is written. -/
def transfer (kind : TransferKind) (a : BitVec 64) (size : Nat) (rt : Register) : Attempt Unit := do
  move kind a size rt
  checkMemory

def readBase : Attempt (BitVec 64) := readX 64 w.rn.toNat .stackPointer

def writeBase (x : BitVec 64) : Attempt Unit := writeX w.rn.toNat x .stackPointer

def transferLiteral (kind : TransferKind) (size : Nat) : Attempt Completion := do
  let offset ← signedField w 23 5
  let a := (← readPc) + offset <<< 2
  transfer kind a size w.rd
  pure .ready

def loadLiteral : Attempt Completion :=
  let vector := w.bit 26
  if w.bit 24 then if vector then unallocated else notYetImplemented
  else
    match w.number 31 30, vector with
    | 0, false => transferLiteral w .load 4
    | 1, false => transferLiteral w .load 8
    | 2, false => transferLiteral w (.loadSigned .w64) 4
    | _, false => pure .ready
    | 0, true => transferLiteral w .loadVector 4
    | 1, true => transferLiteral w .loadVector 8
    | 2, true => transferLiteral w .loadVector 16
    | _, true => unallocated

def takeMonitor : Attempt (Option (BitVec 64 × Nat)) := do
  let monitor := (← get).monitor
  modify fun m => { m with monitor := none }
  pure monitor

/-- The store happens only if the monitor is armed for it. The status register is written after it. -/
def storeIfArmed (a : BitVec 64) (size : Nat) : Attempt Completion := do
  let armed := (← takeMonitor) == some (a, size)
  if armed then transfer .store a size w.rd
  writeX w.rm.toNat (if armed then 0#32 else 1#32)
  pure .ready

def loadStoreExclusive : Attempt Completion := do
  unallocatedIf (w.bit 24)
  let size ← checked (byteCount? (w.number 31 30))
  let load := w.bit 22
  if w.bit 21 then notYetImplemented
  else if w.bit 23 then do
    let a ← readBase w
    transfer (if load then .load else .store) a size w.rd
    pure .ready
  else do
    let a ← readBase w
    if load then do
      transfer .load a size w.rd
      modify fun m => { m with monitor := some (a, size) }
      pure .ready
    else do
      unallocatedIf (w.rm == w.rd || w.rm == w.rn && w.rn != Register.stackPointer)
      storeIfArmed w a size

def loadStorePair : Attempt Completion := do
  let (kind, size) ← decoded (pairKind w)
  let indexing := pairIndexing w
  unallocatedIf (indexing.writesBack && !w.bit 26 && w.rn != Register.stackPointer
    && (w.rd == w.rn || w.ra == w.rn))
  unallocatedIf (w.bit 22 && w.rd == w.ra)
  let imm ← signedField w 21 15
  let offset := BitVec.ofInt 64 (← checked (signed? 64 (imm.toInt * size)))
  let base ← readBase w
  let a := if indexing == .postIndex then base else base + offset
  transfer kind a size w.rd
  transfer kind (a + BitVec.ofNat 64 size) size w.ra
  if indexing.writesBack then writeBase w (base + offset)
  pure .ready

def singleOffset (kind : TransferKind) (scale : Nat) : Attempt (Indexing × BitVec 64) :=
  if w.bit 24 then do
    let offset ← checked (shiftLeft? ((w.extractLsb 21 10).setWidth 64) scale)
    pure (.offset, offset)
  else if !w.bit 21 then do
    let imm ← signedField w 20 12
    match w.number 11 10 with
    | 0 => pure (.offset, imm)
    | 2 => if kind.isVector || kind == .prefetch then unallocated else pure (.offset, imm)
    | 1 => if kind == .prefetch then unallocated else pure (.postIndex, imm)
    | _ => if kind == .prefetch then unallocated else pure (.preIndex, imm)
  else if w.number 11 10 != 2 then notYetImplemented
  else if !w.bit 14 then unallocated
  else do
    let x ← readX 64 w.rm.toNat
    let offset ← checked ((Extension.ofCode (w.extractLsb 15 13)).extended? x (if w.bit 12 then scale else 0))
    pure (.offset, offset)

def loadStoreRegister : Attempt Completion := do
  let (kind, scale) ← decoded (singleKind w)
  let size ← checked (byteCount? scale)
  let (indexing, offset) ← singleOffset w kind scale
  unallocatedIf (indexing.writesBack && !kind.isVector && w.rn == w.rd && w.rn != Register.stackPointer)
  let base ← readBase w
  let a := if indexing == .postIndex then base else base + offset
  transfer kind a size w.rd
  if indexing.writesBack then writeBase w (base + offset)
  pure .ready

def transferElement (load : Bool) (a : BitVec 64) (ebytes : Nat) (t : Register) (i : Nat) : Attempt Unit := do
  let v ← readV t.toNat
  if load then do
    let x ← loadInteger a ebytes
    let v ← checked (Lanes.set? v i (x.setWidth (8 * ebytes)))
    writeV t.toNat v
  else do
    let x ← checked (Lanes.get? v (8 * ebytes) i)
    storeInteger a ebytes (x.setWidth 64)

def transferElements (load : Bool) (ebytes : Nat) : (lanes : List (Register × Nat)) → (a : BitVec 64) → Attempt Unit
  | [], _ => pure ()
  | (t, i) :: rest, a => do
    transferElement load a ebytes t i
    transferElements load ebytes rest (a + BitVec.ofNat 64 ebytes)

def halve : (rts : List Register) → Attempt Unit
  | [] => pure ()
  | t :: rest => do
    let v ← checked (Lanes.clearFrom? (← readV t.toNat) 8)
    writeV t.toNat v
    halve rest

def replicateElements (ebytes : Nat) (full : Bool) : (rts : List Register) → (a : BitVec 64) → Attempt Unit
  | [], _ => pure ()
  | t :: rest, a => do
    let x ← loadInteger a ebytes
    let x ← checked (replicate? x (8 * ebytes))
    writeV t.toNat (if full then x ++ x else x.setWidth 128)
    replicateElements ebytes full rest (a + BitVec.ofNat 64 ebytes)

/-- Moves all elements of the structures. Only then a fault is reported. -/
def moveStructures (ebytes : Nat) (shape : StructureShape) : Attempt Unit := do
  let load := w.bit 22
  let full := w.bit 30
  let a ← readBase w
  match shape with
  | .multiple repeats members elements =>
    transferElements load ebytes (interleaved w.rd repeats members elements) a
    if load && !full then halve (consecutive w.rd (repeats * members))
  | .lane members index => transferElements load ebytes ((consecutive w.rd members).map fun t => (t, index)) a
  | .replicated members => replicateElements ebytes full (consecutive w.rd members) a
  checkMemory

def simdLoadStoreStructure : Attempt Completion := do
  unallocatedIf (w.bit 31)
  unallocatedIf (!w.bit 23 && w.rm != 0#5)
  let (ebytes, shape) ← decoded (if w.bit 24 then singleStructure w else multipleStructures w)
  moveStructures w ebytes shape
  if w.bit 23 then do
    let offset ←
      if w.rm == Register.stackPointer then pure (BitVec.ofNat 64 (shape.bytesMoved ebytes))
      else readX 64 w.rm.toNat
    let base ← readBase w
    writeBase w (base + offset)
  pure .ready

def loadStore : Attempt Completion :=
  dispatch .loadStore
    [loadStoreExclusive, simdLoadStoreStructure, loadLiteral, loadLiteral, loadStorePair, loadStorePair,
      loadStoreRegister, loadStoreRegister] w

end Attempt
end AArch64
