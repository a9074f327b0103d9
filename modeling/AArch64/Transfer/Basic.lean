import AArch64.Memory.Basic
import AArch64.Shift
import AArch64.State

/-! Loads and stores. A load that faults still writes its zero to the register; the base register moves only
after a transfer without a fault. -/
namespace AArch64

/-- Everything an instruction can read or write. The monitor holds the address and size that the last exclusive
load armed. -/
structure Core where
  state : State := {}
  memory : Memory := {}
  monitor : Option (BitVec 64 × Nat) := none

inductive TransferKind
  | store | load | loadSigned (width : Width) | prefetch | storeVector | loadVector
  deriving DecidableEq

def TransferKind.isVector : TransferKind → Bool
  | storeVector | loadVector => true
  | _ => false

inductive Indexing
  | offset | preIndex | postIndex
  deriving DecidableEq

def Indexing.writesBack : Indexing → Bool
  | offset => false
  | preIndex | postIndex => true

inductive AddressOffset
  | immediate (x : BitVec 64)
  | register (rm : Register) (extension : Extension) (shift : Nat)

def AddressOffset.value (o : AddressOffset) (s : State) : BitVec 64 :=
  match o with
  | immediate x => x
  | register rm e shift => e.apply (s.read 64 rm) shift

inductive Advance
  | none | bytesMoved | register (rm : Register)

/-- The elements that a structure transfer moves in order, each as a register and a lane. -/
inductive StructureShape
  | multiple (repeats members elements : Nat)
  | lane (members index : Nat)
  | replicated (members : Nat)

inductive TransferOp
  | nothing
  | literal (kind : TransferKind) (size : Nat) (rt : Register) (offset : BitVec 64)
  | single (kind : TransferKind) (size : Nat) (rt rn : Register) (indexing : Indexing)
      (offset : AddressOffset)
  | pair (kind : TransferKind) (size : Nat) (rt rt2 rn : Register) (indexing : Indexing)
      (offset : BitVec 64)
  | loadExclusive (size : Nat) (rt rn : Register)
  | storeExclusive (size : Nat) (rs rt rn : Register)
  | structures (load : Bool) (ebytes : Nat) (rt rn : Register) (full : Bool) (shape : StructureShape)
      (advance : Advance)

/-- The core after an access and the fault it left, if any. -/
abbrev Transferred := Core × Option Fault

namespace Core

variable (c : Core)

def base (rn : Register) : BitVec 64 :=
  c.state.read 64 rn .stackPointer

def setBase (rn : Register) (x : BitVec 64) : Core :=
  { c with state := c.state.write rn x .stackPointer }

def settle : Transferred :=
  let (fault, memory) := c.memory.takeFault
  ({ c with memory }, fault)

def load (a : BitVec 64) (size : Nat) (put : BitVec (8 * size) → State → State) : Core :=
  let (x, memory) := c.memory.read a size
  { c with memory, state := put x c.state }

def store {n : Nat} (a : BitVec 64) (size : Nat) (x : BitVec n) : Core :=
  { c with memory := c.memory.write a size x }

def move (kind : TransferKind) (a : BitVec 64) (size : Nat) (rt : Register) : Core :=
  match kind with
  | .store => c.store a size (c.state.read 64 rt)
  | .load => c.load a size fun x s => s.write rt x
  | .loadSigned width => c.load a size fun x s => s.write rt (x.signExtend width.bits)
  | .prefetch => c
  | .storeVector => c.store a size (c.state.vector rt)
  | .loadVector => c.load a size fun x s => s.setVector rt (x.setWidth 128)

def transfer (kind : TransferKind) (a : BitVec 64) (size : Nat) (rt : Register) : Transferred :=
  (c.move kind a size rt).settle

end Core

def Transferred.andThen (t : Transferred) (f : Core → Transferred) : Transferred :=
  match t.2 with
  | none => f t.1
  | some _ => t

namespace Core

variable (c : Core)

/-- The address that an indexed access uses, and the base register afterwards. -/
def indexed (indexing : Indexing) (base offset : BitVec 64) : BitVec 64 :=
  match indexing with
  | .postIndex => base
  | .offset | .preIndex => base + offset

def writeBack (indexing : Indexing) (rn : Register) (x : BitVec 64) : Core :=
  if indexing.writesBack then c.setBase rn x else c

def transferSingle (kind : TransferKind) (size : Nat) (rt rn : Register) (indexing : Indexing)
    (offset : BitVec 64) : Transferred :=
  let base := c.base rn
  (c.transfer kind (indexed indexing base offset) size rt).andThen fun c =>
    (c.writeBack indexing rn (base + offset), none)

def transferPair (kind : TransferKind) (size : Nat) (rt rt2 rn : Register) (indexing : Indexing)
    (offset : BitVec 64) : Transferred :=
  let base := c.base rn
  let a := indexed indexing base offset
  (c.transfer kind a size rt).andThen fun c =>
    (c.transfer kind (a + BitVec.ofNat 64 size) size rt2).andThen fun c =>
      (c.writeBack indexing rn (base + offset), none)

def loadExclusive (size : Nat) (rt rn : Register) : Transferred :=
  let a := c.base rn
  (c.transfer .load a size rt).andThen fun c => ({ c with monitor := some (a, size) }, none)

/-- The store happens if the monitor is armed for just this access, and clears it in any case. The status
register gets zero for success. -/
def storeExclusive (size : Nat) (rs rt rn : Register) : Transferred :=
  let a := c.base rn
  let cleared := { c with monitor := none }
  if c.monitor = some (a, size) then
    (cleared.transfer .store a size rt).andThen fun c =>
      ({ c with state := c.state.write rs 0#32 }, none)
  else ({ cleared with state := cleared.state.write rs 1#32 }, none)

def moveLane (load : Bool) (ebytes : Nat) (a : BitVec 64) (rt : Register) (i : Nat) : Core :=
  if load then c.load a ebytes fun x s => s.setVector rt (Lanes.set (s.vector rt) i x)
  else c.store a ebytes (Lanes.get (c.state.vector rt) (8 * ebytes) i)

def moveLanes (load : Bool) (ebytes : Nat) : (lanes : List (Register × Nat)) → (a : BitVec 64) →
    (c : Core) → Core
  | [], _, c => c
  | (rt, i) :: rest, a, c =>
    moveLanes load ebytes rest (a + BitVec.ofNat 64 ebytes) (c.moveLane load ebytes a rt i)

/-- Loads one element into all lanes of each register in turn. -/
def loadReplicated (ebytes : Nat) (full : Bool) : (rts : List Register) → (a : BitVec 64) →
    (c : Core) → Core
  | [], _, c => c
  | rt :: rest, a, c =>
    loadReplicated ebytes full rest (a + BitVec.ofNat 64 ebytes)
      (c.load a ebytes fun x s =>
        s.setVector rt (Lanes.build ((if full then 16 else 8) / ebytes) fun _ => x))

def halve (rts : List Register) : Core :=
  { c with state := rts.foldl (fun s r => s.setVector r (Lanes.sized (s.vector r) false)) c.state }

end Core

/-- The first `n` registers from `rt` on, wrapping after the last one. -/
def consecutive (rt : Register) (n : Nat) : List Register :=
  (List.range n).map fun i => rt + BitVec.ofNat 5 i

/-- Members of one structure are neighbours in memory and lie in consecutive registers. -/
def interleaved (rt : Register) (repeats members elements : Nat) : List (Register × Nat) :=
  (List.range repeats).flatMap fun r =>
    (List.range elements).flatMap fun e =>
      (consecutive (rt + BitVec.ofNat 5 r) members).map fun t => (t, e)

namespace StructureShape

def bytesMoved (ebytes : Nat) : StructureShape → Nat
  | multiple repeats members elements => repeats * members * elements * ebytes
  | lane members _ | replicated members => members * ebytes

def move (shape : StructureShape) (load : Bool) (ebytes : Nat) (rt : Register) (full : Bool)
    (a : BitVec 64) (c : Core) : Core :=
  match shape with
  | multiple repeats members elements =>
    let moved := Core.moveLanes load ebytes (interleaved rt repeats members elements) a c
    if load && !full then moved.halve (consecutive rt (repeats * members)) else moved
  | lane members index =>
    Core.moveLanes load ebytes ((consecutive rt members).map fun t => (t, index)) a c
  | replicated members => Core.loadReplicated ebytes full (consecutive rt members) a c

end StructureShape

def Core.transferStructures (c : Core) (load : Bool) (ebytes : Nat) (rt rn : Register) (full : Bool)
    (shape : StructureShape) (advance : Advance) : Transferred :=
  (shape.move load ebytes rt full (c.base rn) c).settle.andThen fun c =>
    match advance with
    | .none => (c, none)
    | .bytesMoved => (c.setBase rn (c.base rn + BitVec.ofNat 64 (shape.bytesMoved ebytes)), none)
    | .register rm => (c.setBase rn (c.base rn + c.state.read 64 rm), none)

def TransferOp.execute (op : TransferOp) (c : Core) : Transferred :=
  match op with
  | nothing => (c, none)
  | literal kind size rt offset => c.transfer kind (c.state.pc + offset) size rt
  | single kind size rt rn indexing offset =>
    c.transferSingle kind size rt rn indexing (offset.value c.state)
  | pair kind size rt rt2 rn indexing offset => c.transferPair kind size rt rt2 rn indexing offset
  | loadExclusive size rt rn => c.loadExclusive size rt rn
  | storeExclusive size rs rt rn => c.storeExclusive size rs rt rn
  | structures load ebytes rt rn full shape advance =>
    c.transferStructures load ebytes rt rn full shape advance

end AArch64
