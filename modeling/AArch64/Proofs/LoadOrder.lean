import AArch64.Machine.Capacity
import AArch64.Proofs.Alike

/-! The order of the segments that a program is loaded from. It decides where a block stands in the memory, which no
operation of the host can tell. -/
namespace AArch64

/-- The operations that a host uses once its program is loaded. -/
def Operation.AfterLoad : Operation → Prop
  | load _ => False
  | _ => True

namespace Machine

/-- What an operation reports to the host. -/
inductive Answer
  | setup (r : Except SetupError Unit)
  | status (s : Status)
  | done (r : Except ErrorKind Unit)
  | register (r : Except ErrorKind (Nat × List (BitVec 8)))
  | bytes (r : Except ErrorKind (List (BitVec 8)))

def answer (m : Machine) : Operation → Answer
  | .load segments => .setup (load segments m).1
  | .init entry start => .setup (m.init entry start).1
  | .step => .status m.step.1
  | .run => .status m.run.1
  | .resume => .done (m.resume.map fun _ => ())
  | .readRegister n buffer => .register (m.readRegister n buffer)
  | .writeRegister n bytes => .done ((m.writeRegister n bytes).map fun _ => ())
  | .readMemory a n => .bytes (m.readMemory a n).1
  | .writeMemory a bytes => .done (m.writeMemory a bytes).1

/-- All that a host can look at between two operations. -/
structure View where
  status : Status
  error : Option ErrorKind
  errorText : String
  instruction : InstructionWord
  retired : Nat
  callout : Option Callout
  settings : Settings
  state : State
  /-- What reading so many bytes from an address would give. -/
  bytes : BitVec 64 → Nat → Except ErrorKind (List (BitVec 8))

def view (m : Machine) : View where
  status := m.status
  error := m.error
  errorText := m.errorText
  instruction := m.instruction
  retired := m.retired
  callout := m.callout
  settings := m.settings
  state := m.state
  bytes a n := (m.readMemory a n).1

/-- What a host sees of some operations, each answer with the view behind it. -/
def observe : (ops : List Operation) → (m : Machine) → List (Answer × View)
  | [], _ => []
  | op :: ops, m => (m.answer op, (m.perform op).view) :: observe ops (m.perform op)

namespace Alike

variable {m n : Machine}

theorem view (h : m.Alike n) : m.view = n.view := by
  have hbytes : (fun a k => (m.readMemory a k).1) = fun a k => (n.readMemory a k).1 := by
    funext a k
    exact (h.readMemory a k).result
  simp only [Machine.view, errorText, h.status, h.error, h.fault, h.instruction, h.retired, h.callout, h.settings,
    h.state, hbytes]

theorem resume (h : m.Alike n) :
    m.answer .resume = n.answer .resume ∧ (m.perform .resume).Alike (n.perform .resume) := by
  simp only [answer, perform, Machine.resume, ← h.status]
  split
  next => exact ⟨rfl, { h with status := rfl, callout := rfl }⟩
  next => exact ⟨rfl, h⟩

theorem writeRegister (h : m.Alike n) (k : Nat) (bytes : List (BitVec 8)) :
    m.answer (.writeRegister k bytes) = n.answer (.writeRegister k bytes) ∧
      (m.perform (.writeRegister k bytes)).Alike (n.perform (.writeRegister k bytes)) := by
  simp only [answer, perform, Machine.writeRegister, ← h.state]
  split
  next => exact ⟨rfl, h.withState _⟩
  next => exact ⟨rfl, h⟩

/-- The block for stack and heap ends at the top of the stack, so it never holds the last address. -/
theorem init (h : m.Alike n) (entry : BitVec 64) (start : Option (BitVec 64)) :
    EndAlike (m.init entry start) (n.init entry start) := by
  have hheap : n.heapStart start = m.heapStart start := by simp only [heapStart, h.settings]
  have hentry : n.entryState entry = m.entryState entry := by simp only [entryState, h.settings, h.state]
  simp only [Machine.init, hheap, hentry, ← h.settings]
  split
  next => exact ⟨rfl, h⟩
  next hlt =>
    have htop : m.settings.stackTop.toNat < 2 ^ 64 := m.settings.stackTop.isLt
    -- both reject the block with the same error, or both add it
    obtain ⟨o, hm, hn⟩ | ⟨μ, ν, hm, hn, hmemory⟩ := h.core.memory.addBlock
      (b := Block.ofBytes (m.heapStart start) (m.settings.stackTop.toNat - (m.heapStart start).toNat) true [])
      (by simp only [Block.base_ofBytes, Block.len_ofBytes]; omega)
    · simp only [Machine.addBlock, hm, hn]
      exact ⟨rfl, h⟩
    · simp only [Machine.addBlock, hm, hn]
      exact ⟨rfl, ⟨⟨rfl, h.core.monitor, hmemory⟩, h.settings, rfl, rfl, h.instruction, rfl, rfl, rfl, rfl⟩⟩

theorem perform (h : m.Alike n) {op : Operation} (hop : op.AfterLoad) :
    m.answer op = n.answer op ∧ (m.perform op).Alike (n.perform op) := by
  cases op with
  | load segments => exact hop.elim
  | init entry start =>
    have hinit := h.init entry start
    exact ⟨congrArg Answer.setup hinit.result, hinit.machine⟩
  | step => exact ⟨congrArg Answer.status h.step.result, h.step.machine⟩
  | run => exact ⟨congrArg Answer.status h.run.result, h.run.machine⟩
  | resume => exact h.resume
  | readRegister k buffer =>
    refine ⟨?_, h⟩
    simp only [answer, Machine.readRegister, h.state]
  | writeRegister k bytes => exact h.writeRegister k bytes
  | readMemory a k =>
    have hread := h.readMemory a k
    exact ⟨congrArg Answer.bytes hread.result, hread.machine⟩
  | writeMemory a bytes =>
    have hwrite := h.writeMemory a bytes
    exact ⟨congrArg Answer.done hwrite.result, hwrite.machine⟩

theorem observe (h : m.Alike n) (ops : List Operation) (hops : ∀ op ∈ ops, op.AfterLoad) :
    observe ops m = observe ops n := by
  induction ops generalizing m n with
  | nil => rfl
  | cons op ops ih =>
    obtain ⟨hanswer, hnext⟩ := h.perform (hops op List.mem_cons_self)
    have hrest := ih hnext fun o ho => hops o (List.mem_cons_of_mem op ho)
    simp only [Machine.observe]
    rw [hanswer, hnext.view, hrest]

end Alike
end Machine

namespace Segment

def block (s : Segment) : Block := Block.ofBytes s.base s.memLen.toNat s.writable s.bytes

/-- A segment that takes memory, with room for all its bytes. -/
structure Loadable (s : Segment) : Prop where
  kept : s.debug = false
  pos : s.memLen ≠ 0#64
  fits : s.bytes.length ≤ s.memLen.toNat

def Apart (s t : Segment) : Prop := ¬s.block.Shares t.block

variable {s t : Segment}

theorem Apart.symm (h : s.Apart t) : t.Apart s := fun hshares => h hshares.symm

theorem Loadable.len_pos (h : s.Loadable) : 0 < s.block.len := by
  have hne : s.memLen.toNat ≠ 0 := fun h0 => h.pos (BitVec.eq_of_toNat_eq h0)
  rw [block, Block.len_ofBytes]
  omega

end Segment

namespace Machine

variable {m : Machine}

theorem loadSegment_eq_addBlock {s : Segment} (h : s.Loadable) (m : Machine) :
    m.loadSegment s = m.addBlock s.block := by
  have hmem : (s.memLen == 0#64) = false := by simpa using h.pos
  have hfits : ¬s.memLen.toNat < s.bytes.length := Nat.not_lt.2 h.fits
  simp [loadSegment, h.kept, hmem, hfits, Segment.block]

/-- Blocks that a segment can be added to. -/
def FreeFor (m : Machine) (s : Segment) : Prop :=
  ∀ b ∈ m.core.memory.blocks, b.overlaps s.block = false

theorem FreeFor.loadSegment {s : Segment} (h : m.FreeFor s) (hs : s.Loadable) : m.loadSegment s =
    .ok (m.withMemory { m.core.memory with blocks := m.core.memory.blocks ++ [s.block] }) := by
  rw [loadSegment_eq_addBlock hs, addBlock, Memory.addBlock_eq_ok_iff.2 ⟨h, rfl⟩]
  rfl

theorem load_of_apart (segments : List Segment) (hloadable : ∀ s ∈ segments, s.Loadable)
    (hapart : segments.Pairwise Segment.Apart) (hfree : ∀ s ∈ segments, m.FreeFor s) :
    load segments m =
        (.ok (), m.withMemory { m.core.memory with blocks := m.core.memory.blocks ++ segments.map Segment.block }) ∧
      loadOverflows segments m = segments.any Segment.overflows := by
  induction segments generalizing m with
  | nil => simp [load, loadOverflows, withMemory]
  | cons s rest ih =>
    obtain ⟨hs, hrest⟩ := List.forall_mem_cons.1 hloadable
    obtain ⟨hsrest, hapart⟩ := List.pairwise_cons.1 hapart
    obtain ⟨hsfree, hfree⟩ := List.forall_mem_cons.1 hfree
    have hstep := hsfree.loadSegment hs
    -- the block just added stands in nobody's way either
    have hnext : ∀ t ∈ rest, (m.withMemory
        { m.core.memory with blocks := m.core.memory.blocks ++ [s.block] }).FreeFor t := by
      intro t ht b hb
      simp only [withMemory, List.mem_append, List.mem_singleton] at hb
      obtain hb | rfl := hb
      · exact hfree t ht b hb
      · exact Block.overlaps_eq_false hs.len_pos (hrest t ht).len_pos (hsrest t ht)
    obtain ⟨hload, hoverflows⟩ := ih hrest hapart hnext
    simp only [load, loadOverflows, hstep, hload, hoverflows, List.any_cons]
    simp [withMemory]

theorem alike_of_perm {segments others : List Segment} (hperm : segments.Perm others)
    (hapart : segments.Pairwise Segment.Apart) :
    Memory.Alike { blocks := segments.map Segment.block } { blocks := others.map Segment.block } := by
  have hseparate : Memory.Separate { blocks := segments.map Segment.block } := List.pairwise_map.2 hapart
  have hrepresents := hseparate.represents_flat
  exact ⟨_, hrepresents, hrepresents.of_perm (hperm.map _) rfl⟩

/-- Segments that are apart can be loaded in any order. All of them get their memory, and whatever the host does then,
it is given the same answers and finds the same machine. -/
theorem load_order_unobservable (settings : Settings) {segments others : List Segment} (hperm : segments.Perm others)
    (hloadable : ∀ s ∈ segments, s.Loadable) (hapart : segments.Pairwise Segment.Apart) (ops : List Operation)
    (hops : ∀ op ∈ ops, op.AfterLoad) :
    let m : Machine := { settings }
    (load segments m).1 = .ok () ∧ (load others m).1 = .ok () ∧
      loadOverflows segments m = loadOverflows others m ∧
      (load segments m).2.view = (load others m).2.view ∧
      observe ops (load segments m).2 = observe ops (load others m).2 := by
  intro m
  have hfree (s : Segment) : m.FreeFor s := by
    intro b hb
    cases hb
  have hloadable' : ∀ s ∈ others, s.Loadable := fun s hs => hloadable s (hperm.mem_iff.2 hs)
  have hapart' : others.Pairwise Segment.Apart := hperm.pairwise hapart Segment.Apart.symm
  obtain ⟨hload, hoverflows⟩ := load_of_apart segments hloadable hapart fun s _ => hfree s
  obtain ⟨hload', hoverflows'⟩ := load_of_apart others hloadable' hapart' fun s _ => hfree s
  have halike : (load segments m).2.Alike (load others m).2 := by
    rw [hload, hload']
    exact ⟨⟨rfl, rfl, alike_of_perm hperm hapart⟩, rfl, rfl, rfl, rfl, rfl, rfl, rfl, rfl⟩
  refine ⟨?_, ?_, ?_, halike.view, halike.observe ops hops⟩
  · rw [hload]
  · rw [hload']
  · rw [hoverflows, hoverflows', hperm.any_eq]

/-- Code that reads a word of its data, with the data in front of the code and behind it. -/
theorem load_order_unobservable_code_and_data :
    let word : List (BitVec 8) := [0x20#8, 0x00#8, 0x40#8, 0xB9#8]
    let code : Segment := { base := 0x1000#64, bytes := word, memLen := 4#64, writable := false }
    let data : Segment := { base := 0x2000#64, bytes := [0x2A#8], memLen := 16#64, writable := true }
    let ops : List Operation := [
      .init 0x1000#64 none,
      .writeRegister 1 (Word.bytes 8 0x2000#64),
      .run,
      .readRegister 0 (Word.bytes 8 0#64),
      .writeMemory 0x2004#64 [1#8, 2#8],
      .readMemory 0x2000#64 16]
    observe ops (load [data, code] {}).2 = observe ops (load [code, data] {}).2 := by
  intro word code data ops
  have hloadable : ∀ s ∈ [data, code], s.Loadable := by
    intro s hs
    simp only [List.mem_cons, List.not_mem_nil, or_false] at hs
    obtain rfl | rfl := hs <;> constructor <;> decide
  have hapart : [data, code].Pairwise Segment.Apart := by
    simp [Segment.Apart, Segment.block, Block.shares_iff, data, code]
  have hops : ∀ op ∈ ops, op.AfterLoad := by simp [ops, Operation.AfterLoad]
  obtain ⟨_, _, _, _, hobserve⟩ := load_order_unobservable {} (.swap code data []) hloadable hapart ops hops
  exact hobserve

end Machine
end AArch64
