import AArch64.Proofs.Memory.Overlap
import Std.Data.ExtTreeMap.Lemmas

/-! A memory as one array of bytes. Neither the block that was used last nor the order of the blocks can be seen from
outside: as long as no two blocks share an address, every access answers as the array does. -/
namespace AArch64

/-- Bytes by address, and the ranges that an access has to lie in. Addresses are natural numbers, so no range wraps. -/
structure FlatMemory where
  extents : List (BitVec 64 × Nat × Bool)
  byte : Nat → BitVec 8
  /-- The typed accesses that failed since a fault was last taken, in their order. -/
  failures : List Fault

theorem Word.compose_congr {n : Nat} {f g : Nat → BitVec 8} (h : ∀ i < n, f i = g i) :
    compose n f = compose n g := by
  induction n generalizing f g with
  | zero => rfl
  | succ n ih =>
    have hrest : (compose n fun i => f (i + 1)) = compose n fun i => g (i + 1) := ih fun i hi => h (i + 1) (by omega)
    rw [compose, compose, h 0 (by omega), hrest]

namespace FlatMemory

variable (f : FlatMemory)

/-- The interval of `n` addresses from `a` on lies in the one from `e.1` on. An empty access may also stand at the
end. -/
def Covers (e : BitVec 64 × Nat × Bool) (a : BitVec 64) (n : Nat) : Prop :=
  e.1.toNat ≤ a.toNat ∧ a.toNat + n ≤ e.1.toNat + e.2.1

instance (e : BitVec 64 × Nat × Bool) (a : BitVec 64) (n : Nat) : Decidable (Covers e a n) :=
  inferInstanceAs (Decidable (_ ∧ _))

def Mapped (a : BitVec 64) (n : Nat) : Prop := ∃ e ∈ f.extents, Covers e a n

def Writable (a : BitVec 64) (n : Nat) : Prop := ∃ e ∈ f.extents, Covers e a n ∧ e.2.2 = true

theorem Writable.mapped {f : FlatMemory} {a : BitVec 64} {n : Nat} (h : f.Writable a n) : f.Mapped a n := by
  obtain ⟨e, he, hcovers, _⟩ := h
  exact ⟨e, he, hcovers⟩

instance (a : BitVec 64) (n : Nat) : Decidable (f.Mapped a n) := by
  unfold Mapped
  infer_instance

instance (a : BitVec 64) (n : Nat) : Decidable (f.Writable a n) := by
  unfold Writable
  infer_instance

def put (a : BitVec 64) (xs : List (BitVec 8)) : FlatMemory :=
  { f with byte := fun y => if a.toNat ≤ y then xs[y - a.toNat]?.getD (f.byte y) else f.byte y }

def fail (x : Fault) : FlatMemory :=
  { f with failures := f.failures ++ [x] }

/-- The fault that waits to be taken is that of the first failure. -/
def fault : Option Fault := f.failures.head?

def addBlock (b : Block) : FlatMemory where
  extents := f.extents ++ [b.extent]
  byte y := if b.base.toNat ≤ y ∧ y < b.base.toNat + b.len then b.byte (y - b.base.toNat) else f.byte y
  failures := f.failures

def takeFault : Option Fault × FlatMemory :=
  (f.fault, { f with failures := [] })

def read (a : BitVec 64) (n : Nat) : BitVec (8 * n) × FlatMemory :=
  if f.Mapped a n then (Word.ofBytes n fun k => f.byte (a.toNat + k), f)
  else (0#(8 * n), f.fail { address := a, size := n, access := .read })

def write {w : Nat} (a : BitVec 64) (n : Nat) (x : BitVec w) : FlatMemory :=
  if f.Writable a n then f.put a (Word.bytes n x) else f.fail { address := a, size := n, access := .write }

def loadBlock (a : BitVec 64) (n : Nat) : Except Fault (List (BitVec 8)) × FlatMemory :=
  if f.Mapped a n then (.ok ((List.range n).map fun k => f.byte (a.toNat + k)), f)
  else (.error { address := a, size := n, access := .read }, f)

def storeBlock (a : BitVec 64) (xs : List (BitVec 8)) : Except Fault Unit × FlatMemory :=
  if f.Mapped a xs.length then (.ok (), f.put a xs)
  else (.error { address := a, size := xs.length, access := .write }, f)

end FlatMemory

namespace Block

open FlatMemory (Covers)

variable {b c : Block}

theorem byte_store (i : Nat) (xs : List (BitVec 8)) (b : Block) (k : Nat) :
    (store i xs b).byte k = if i ≤ k then xs[k - i]?.getD (b.byte k) else b.byte k := by
  induction xs generalizing i b with
  | nil => simp
  | cons x xs ih =>
    have hinsert : byte { b with stored := b.stored.insert i x } k = if i = k then x else b.byte k := by
      simp [byte, Std.ExtTreeMap.getD_insert]
    rw [store, ih, hinsert]
    by_cases heq : i = k
    · subst heq
      rw [if_neg (Nat.not_succ_le_self i), if_pos rfl, if_pos (Nat.le_refl i), Nat.sub_self]
      rfl
    · by_cases hle : i ≤ k
      · have hsucc : k - i = k - (i + 1) + 1 := by omega
        have hle' : i + 1 ≤ k := by omega
        simp [heq, hle, hle', hsucc]
      · have hle' : ¬i + 1 ≤ k := by omega
        simp [heq, hle, hle']

theorem offset?_eq_some_iff_covers {a : BitVec 64} {n offset : Nat} :
    b.offset? a n = some offset ↔ Covers b.extent a n ∧ offset = a.toNat - b.base.toNat := by
  rw [offset?_eq_some]
  simp only [Covers, extent]
  omega

end Block

namespace Memory

open FlatMemory (Covers)

variable {m n : Memory} {f : FlatMemory}

/-- No two blocks share an address. -/
def Separate (m : Memory) : Prop := m.blocks.Pairwise fun b c => ¬b.Shares c

theorem separate_iff_layout : m.Separate ↔ m.layout.Pairwise fun d e => ¬(0 < d.2.1 ∧ 0 < e.2.1 ∧
    d.1.toNat < e.1.toNat + e.2.1 ∧ e.1.toNat < d.1.toNat + d.2.1) := by
  rw [layout, List.pairwise_map]
  simp only [Separate, Block.shares_iff, Block.extent]

theorem Separate.of_layout_eq (h : m.Separate) (hlayout : n.layout = m.layout) : n.Separate := by
  rwa [separate_iff_layout, hlayout, ← separate_iff_layout]

/-- Two blocks with a common number are one and the same, also where that number is no address. -/
theorem Separate.index_eq (h : m.Separate) {i j y : Nat} {b c : Block} (hi : m.blocks[i]? = some b)
    (hj : m.blocks[j]? = some c) (hb : b.base.toNat ≤ y ∧ y < b.base.toNat + b.len)
    (hc : c.base.toNat ≤ y ∧ y < c.base.toNat + c.len) : i = j := by
  have hshares : b.Shares c := Block.shares_iff.2 (by omega)
  obtain ⟨hilt, rfl⟩ := List.getElem?_eq_some_iff.1 hi
  obtain ⟨hjlt, rfl⟩ := List.getElem?_eq_some_iff.1 hj
  have hpairs := List.pairwise_iff_getElem.1 h
  obtain hlt | heq | hgt := Nat.lt_trichotomy i j
  · exact absurd hshares (hpairs i j hilt hjlt hlt)
  · exact heq
  · exact absurd hshares.symm (hpairs j i hjlt hilt hgt)

theorem Separate.block_eq (h : m.Separate) {y : Nat} {b c : Block} (hbm : b ∈ m.blocks) (hcm : c ∈ m.blocks)
    (hb : b.base.toNat ≤ y ∧ y < b.base.toNat + b.len) (hc : c.base.toNat ≤ y ∧ y < c.base.toNat + c.len) : b = c := by
  obtain ⟨i, hi⟩ := List.mem_iff_getElem?.1 hbm
  obtain ⟨j, hj⟩ := List.mem_iff_getElem?.1 hcm
  obtain rfl := h.index_eq hi hj hb hc
  exact Option.some.inj (hi.symm.trans hj)

/-- The cache does not decide whether an access is served. -/
theorem exists_resolve_of_covers {a : BitVec 64} {k : Nat} {b : Block} (hb : b ∈ m.blocks)
    (hcovers : Covers b.extent a k) : ∃ i offset, m.resolve a k = some (i, offset) := by
  unfold resolve
  split
  next hit _ => exact ⟨hit.1, hit.2, rfl⟩
  next =>
    -- the scan may stop before `b`, but it cannot miss it
    obtain ⟨i, hi⟩ := List.mem_iff_getElem?.1 hb
    have hlocate : (m.locate i a k).isSome = true := by
      simp [locate, hi, Block.offset?_eq_some_iff_covers.2 ⟨hcovers, rfl⟩]
    have hlt : i < m.blocks.length := (List.getElem?_eq_some_iff.1 hi).1
    have hsome : ((List.range m.blocks.length).findSome? fun j => m.locate j a k).isSome = true :=
      List.findSome?_isSome_iff.2 ⟨i, List.mem_range.2 hlt, hlocate⟩
    obtain ⟨⟨j, offset⟩, hj⟩ := Option.isSome_iff_exists.1 hsome
    exact ⟨j, offset, hj⟩

/-- The array holds what the blocks hold, in whatever order they stand. -/
structure Represents (m : Memory) (f : FlatMemory) : Prop where
  layout : m.layout.Perm f.extents
  separate : m.Separate
  bytes : ∀ b ∈ m.blocks, ∀ i < b.len, b.byte i = f.byte (b.base.toNat + i)
  fault : m.fault = f.fault

namespace Represents

theorem mem_extents (h : m.Represents f) {e : BitVec 64 × Nat × Bool} :
    e ∈ f.extents ↔ ∃ b ∈ m.blocks, b.extent = e := by
  rw [← h.layout.mem_iff, Memory.layout, List.mem_map]

theorem mapped_iff (h : m.Represents f) {a : BitVec 64} {k : Nat} :
    f.Mapped a k ↔ ∃ i offset, m.resolve a k = some (i, offset) := by
  constructor
  · rintro ⟨e, he, hcovers⟩
    obtain ⟨b, hb, rfl⟩ := h.mem_extents.1 he
    exact exists_resolve_of_covers hb hcovers
  · rintro ⟨i, offset, hr⟩
    obtain ⟨b, hb, ho⟩ := m.exists_block_of_resolve hr
    exact ⟨b.extent, h.mem_extents.2 ⟨b, List.mem_of_getElem? hb, rfl⟩, (Block.offset?_eq_some_iff_covers.1 ho).1⟩

/-- Only the block that serves a typed access can be the one that allows it to write. -/
theorem writable_iff (h : m.Represents f) {a : BitVec 64} {k i offset : Nat} (hk : 0 < k)
    (hr : m.resolve a k = some (i, offset)) : f.Writable a k ↔ m.writableAt i = true := by
  obtain ⟨b, hb, ho⟩ := m.exists_block_of_resolve hr
  have hcovers := (Block.offset?_eq_some_iff_covers.1 ho).1
  have hmem := List.mem_of_getElem? hb
  simp only [writableAt, hb]
  constructor
  · rintro ⟨e, he, hce, hw⟩
    obtain ⟨c, hc, rfl⟩ := h.mem_extents.1 he
    simp only [Covers, Block.extent] at hcovers hce
    -- the access has a first byte, so its address picks out one block
    obtain rfl := h.separate.block_eq (y := a.toNat) hmem hc (by omega) (by omega)
    exact hw
  · intro hw
    exact ⟨b.extent, h.mem_extents.2 ⟨b, hmem, rfl⟩, hcovers, hw⟩

theorem activate (h : m.Represents f) (i : Nat) : (m.activate i).Represents f :=
  ⟨h.layout, h.separate, h.bytes, h.fault⟩

theorem record (h : m.Represents f) (x : Fault) : (m.record x).Represents (f.fail x) where
  layout := h.layout
  separate := h.separate
  bytes := h.bytes
  fault := by
    have hfault := h.fault
    simp only [FlatMemory.fault] at hfault
    simp only [Memory.record, FlatMemory.fault, FlatMemory.fail, hfault]
    cases f.failures <;> rfl

theorem takeFault (h : m.Represents f) :
    m.takeFault.1 = f.takeFault.1 ∧ m.takeFault.2.Represents f.takeFault.2 :=
  ⟨h.fault, h.layout, h.separate, h.bytes, rfl⟩

/-- What a block that serves an access holds there is what the array holds. -/
theorem byte_eq (h : m.Represents f) {a : BitVec 64} {k i offset j : Nat} {b : Block} (hb : m.blocks[i]? = some b)
    (ho : b.offset? a k = some offset) (hj : j < k) : b.byte (offset + j) = f.byte (a.toNat + j) := by
  obtain ⟨hle, rfl, hlen⟩ := Block.offset?_eq_some.1 ho
  rw [h.bytes b (List.mem_of_getElem? hb) _ (by omega)]
  congr 1
  omega

theorem storeAt (h : m.Represents f) {a : BitVec 64} {xs : List (BitVec 8)} {i offset : Nat} {b : Block}
    (hb : m.blocks[i]? = some b) (ho : b.offset? a xs.length = some offset) :
    (m.storeAt i offset xs).Represents (f.put a xs) where
  layout := by
    rw [layout_storeAt]
    exact h.layout
  separate := h.separate.of_layout_eq (m.layout_storeAt i offset xs)
  fault := h.fault
  bytes := by
    obtain ⟨hle, rfl, hlen⟩ := Block.offset?_eq_some.1 ho
    intro c hc k hk
    obtain ⟨j, hj⟩ := List.mem_iff_getElem?.1 hc
    simp only [Memory.storeAt, List.getElem?_modify, Option.map_eq_map, Option.map_eq_some_iff] at hj
    obtain ⟨d, hd, rfl⟩ := hj
    simp only [FlatMemory.put]
    by_cases hij : i = j
    · subst hij
      obtain rfl := Option.some.inj (hb.symm.trans hd)
      simp only [if_true, Block.len_store, Block.base_store, Block.byte_store] at hk ⊢
      rw [h.bytes b (List.mem_of_getElem? hb) k hk]
      by_cases hak : a.toNat - b.base.toNat ≤ k
      · have hsub : b.base.toNat + k - a.toNat = k - (a.toNat - b.base.toNat) := by omega
        rw [if_pos hak, if_pos (by omega), hsub]
      · rw [if_neg hak, if_neg (by omega)]
    · simp only [if_neg hij] at hk ⊢
      rw [h.bytes d (List.mem_of_getElem? hd) k hk]
      split
      next hak =>
        -- a stored address in this block would be shared with the block that served the access
        have hout : xs.length ≤ d.base.toNat + k - a.toNat := Nat.le_of_not_lt fun hin =>
          hij (h.separate.index_eq (y := d.base.toNat + k) hb hd (by omega) (by omega))
        rw [List.getElem?_eq_none hout, Option.getD_none]
      next => rfl

theorem read (h : m.Represents f) (a : BitVec 64) (k : Nat) :
    (m.read a k).1 = (f.read a k).1 ∧ (m.read a k).2.Represents (f.read a k).2 := by
  unfold Memory.read FlatMemory.read
  split
  next i offset hr =>
    rw [if_pos (h.mapped_iff.2 ⟨i, offset, hr⟩)]
    obtain ⟨b, hb, ho⟩ := m.exists_block_of_resolve hr
    have hword : Word.compose k (fun j => m.byteAt i (offset + j)) = Word.compose k fun j => f.byte (a.toNat + j) := by
      refine Word.compose_congr fun j hj => ?_
      simp only [byteAt, hb]
      exact h.byte_eq hb ho hj
    exact ⟨congrArg (BitVec.ofNat (8 * k)) hword, h.activate i⟩
  next hr =>
    rw [if_neg (by simp [h.mapped_iff, hr])]
    exact ⟨rfl, h.record _⟩

theorem write (h : m.Represents f) (a : BitVec 64) {k : Nat} (hk : 0 < k) {w : Nat} (x : BitVec w) :
    (m.write a k x).Represents (f.write a k x) := by
  unfold Memory.write FlatMemory.write
  split
  next i offset hr =>
    obtain ⟨b, hb, ho⟩ := m.exists_block_of_resolve hr
    by_cases hw : m.writableAt i = true
    · rw [if_pos hw, if_pos ((h.writable_iff hk hr).2 hw)]
      exact (h.activate i).storeAt hb (by simpa using ho)
    · rw [if_neg hw, if_neg fun hf => hw ((h.writable_iff hk hr).1 hf)]
      exact (h.activate i).record _
  next hr =>
    have hmapped : ¬f.Mapped a k := by simp [h.mapped_iff, hr]
    rw [if_neg fun hf => hmapped (FlatMemory.Writable.mapped hf)]
    exact h.record _

theorem loadBlock (h : m.Represents f) (a : BitVec 64) (k : Nat) :
    (m.loadBlock a k).1 = (f.loadBlock a k).1 ∧ (m.loadBlock a k).2.Represents (f.loadBlock a k).2 := by
  unfold Memory.loadBlock FlatMemory.loadBlock
  split
  next i offset hr =>
    rw [if_pos (h.mapped_iff.2 ⟨i, offset, hr⟩)]
    obtain ⟨b, hb, ho⟩ := m.exists_block_of_resolve hr
    have hbytes : m.bytesAt i offset k = (List.range k).map fun j => f.byte (a.toNat + j) := by
      simp only [bytesAt, hb, Block.load]
      exact List.map_congr_left fun j hj => h.byte_eq hb ho (List.mem_range.1 hj)
    exact ⟨congrArg Except.ok hbytes, h.activate i⟩
  next hr =>
    rw [if_neg (by simp [h.mapped_iff, hr])]
    exact ⟨rfl, h⟩

theorem storeBlock (h : m.Represents f) (a : BitVec 64) (xs : List (BitVec 8)) :
    (m.storeBlock a xs).1 = (f.storeBlock a xs).1 ∧ (m.storeBlock a xs).2.Represents (f.storeBlock a xs).2 := by
  unfold Memory.storeBlock FlatMemory.storeBlock
  split
  next i offset hr =>
    rw [if_pos (h.mapped_iff.2 ⟨i, offset, hr⟩)]
    obtain ⟨b, hb, ho⟩ := m.exists_block_of_resolve hr
    exact ⟨rfl, (h.activate i).storeAt hb ho⟩
  next hr =>
    rw [if_neg (by simp [h.mapped_iff, hr])]
    exact ⟨rfl, h⟩

theorem addBlock (h : m.Represents f) {b : Block} (hn : m.addBlock b = .ok n) (hb : ∀ c ∈ m.blocks, ¬c.Shares b) :
    n.Represents (f.addBlock b) := by
  obtain ⟨_, rfl⟩ := addBlock_eq_ok_iff.1 hn
  refine ⟨?_, ?_, ?_, h.fault⟩
  · rw [Memory.layout, List.map_append]
    exact h.layout.append_right _
  · exact List.pairwise_append.2 ⟨h.separate, List.pairwise_singleton _ b, by simpa using hb⟩
  · intro c hc i hi
    rw [List.mem_append, List.mem_singleton] at hc
    simp only [FlatMemory.addBlock]
    obtain hc | rfl := hc
    · have hout : ¬(b.base.toNat ≤ c.base.toNat + i ∧ c.base.toNat + i < b.base.toNat + b.len) := fun hin =>
        hb c hc (Block.shares_iff.2 (by omega))
      rw [if_neg hout, h.bytes c hc i hi]
    · rw [if_pos (by omega), Nat.add_sub_cancel_left]

/-- The order of the blocks is not in the array. -/
theorem of_perm (h : m.Represents f) (hperm : m.blocks.Perm n.blocks) (hfault : n.fault = m.fault) :
    n.Represents f where
  layout := (hperm.symm.map _).trans h.layout
  separate := hperm.pairwise h.separate fun hbc hcb => hbc hcb.symm
  bytes b hb := h.bytes b (hperm.mem_iff.2 hb)
  fault := hfault.trans h.fault

end Represents

/-- The memory as one array, whatever block it used last. -/
def flat (m : Memory) : FlatMemory where
  extents := m.layout
  byte y :=
    match m.blocks.find? fun b => decide (b.base.toNat ≤ y ∧ y < b.base.toNat + b.len) with
    | some b => b.byte (y - b.base.toNat)
    | none => 0#8
  failures := m.fault.toList

theorem Separate.represents_flat (h : m.Separate) : m.Represents m.flat where
  layout := .refl _
  separate := h
  bytes := by
    intro b hb i hi
    simp only [flat]
    split
    next c hc =>
      have hin := List.find?_some hc
      rw [decide_eq_true_eq] at hin
      obtain rfl := h.block_eq hb (List.mem_of_find?_eq_some hc) ⟨by omega, by omega⟩ hin
      rw [Nat.add_sub_cancel_left]
    next hnone =>
      have hout := List.find?_eq_none.1 hnone b hb
      simp only [decide_eq_true_eq] at hout
      omega
  fault := by
    simp only [FlatMemory.fault, flat]
    cases m.fault <;> rfl

/-- What can be asked of a memory. A typed access has at least one byte. -/
inductive Request
  | read (a : BitVec 64) (n : Nat) (pos : 0 < n)
  | write (a : BitVec 64) (n : Nat) (pos : 0 < n) (x : BitVec (8 * n))
  | loadBlock (a : BitVec 64) (n : Nat)
  | storeBlock (a : BitVec 64) (xs : List (BitVec 8))
  | takeFault

inductive Answer
  | word (n : Nat) (x : BitVec (8 * n))
  | written
  | loaded (r : Except Fault (List (BitVec 8)))
  | stored (r : Except Fault Unit)
  | taken (f : Option Fault)

/-- What is answered, and the memory afterwards. -/
def serve (m : Memory) : Request → Answer × Memory
  | .read a n _ => (.word n (m.read a n).1, (m.read a n).2)
  | .write a n _ x => (.written, m.write a n x)
  | .loadBlock a n => (.loaded (m.loadBlock a n).1, (m.loadBlock a n).2)
  | .storeBlock a xs => (.stored (m.storeBlock a xs).1, (m.storeBlock a xs).2)
  | .takeFault => (.taken m.takeFault.1, m.takeFault.2)

/-- Serves requests in turn. Each answer comes with the fault that is pending after it. -/
def Request.serveAll {α : Type} (serve : α → Request → Answer × α) (fault : α → Option Fault) : List Request → α →
    List (Answer × Option Fault) × α
  | [], m => ([], m)
  | r :: rest, m =>
    let (answer, m) := serve m r
    let (answers, last) := serveAll serve fault rest m
    ((answer, fault m) :: answers, last)

def serveAll : List Request → Memory → List (Answer × Option Fault) × Memory :=
  Request.serveAll serve Memory.fault

end Memory

namespace FlatMemory

open Memory (Request Answer)

def serve (f : FlatMemory) : Request → Answer × FlatMemory
  | .read a n _ => (.word n (f.read a n).1, (f.read a n).2)
  | .write a n _ x => (.written, f.write a n x)
  | .loadBlock a n => (.loaded (f.loadBlock a n).1, (f.loadBlock a n).2)
  | .storeBlock a xs => (.stored (f.storeBlock a xs).1, (f.storeBlock a xs).2)
  | .takeFault => (.taken f.takeFault.1, f.takeFault.2)

def serveAll : List Request → FlatMemory → List (Answer × Option Fault) × FlatMemory :=
  Request.serveAll serve fault

end FlatMemory

namespace Memory

variable {m : Memory} {f : FlatMemory}

theorem Represents.serve (h : m.Represents f) (r : Request) :
    (m.serve r).1 = (f.serve r).1 ∧ (m.serve r).2.Represents (f.serve r).2 := by
  cases r with
  | read a n pos => exact (h.read a n).imp_left (congrArg (Answer.word n))
  | write a n pos x => exact ⟨rfl, h.write a pos x⟩
  | loadBlock a n => exact (h.loadBlock a n).imp_left (congrArg Answer.loaded)
  | storeBlock a xs => exact (h.storeBlock a xs).imp_left (congrArg Answer.stored)
  | takeFault => exact h.takeFault.imp_left (congrArg Answer.taken)

theorem Represents.serveAll (h : m.Represents f) (requests : List Request) :
    (serveAll requests m).1 = (FlatMemory.serveAll requests f).1 ∧
      (serveAll requests m).2.Represents (FlatMemory.serveAll requests f).2 := by
  induction requests generalizing m f with
  | nil => exact ⟨rfl, h⟩
  | cons r rest ih =>
    obtain ⟨hanswer, hnext⟩ := h.serve r
    obtain ⟨hanswers, hlast⟩ := ih hnext
    refine ⟨?_, hlast⟩
    simp only [Memory.serveAll, FlatMemory.serveAll, Request.serveAll] at hanswers ⊢
    rw [hanswer, hanswers, hnext.fault]

theorem layout_serve (m : Memory) (r : Request) : (m.serve r).2.layout = m.layout := by
  cases r <;> simp [Memory.serve]

theorem cacheInRange_serve (h : m.CacheInRange) (r : Request) : (m.serve r).2.CacheInRange := by
  cases r with
  | read a n pos => exact m.cacheInRange_read h a n
  | write a n pos x => exact m.cacheInRange_write h a n x
  | loadBlock a n => exact m.cacheInRange_loadBlock h a n
  | storeBlock a xs => exact m.cacheInRange_storeBlock h a xs
  | takeFault => exact h

/-- Requests move no block, and the cache names one of them all the time. -/
theorem layout_and_cache_serveAll (h : m.CacheInRange) (requests : List Request) :
    (serveAll requests m).2.layout = m.layout ∧ (serveAll requests m).2.CacheInRange := by
  induction requests generalizing m with
  | nil => exact ⟨rfl, h⟩
  | cons r rest ih =>
    obtain ⟨hlayout, hcache⟩ := ih (cacheInRange_serve h r)
    exact ⟨hlayout.trans (m.layout_serve r), hcache⟩

/-- Blocks that share no address serve any requests as one array of bytes does, from whichever block was used last.
The answers are the same, so is the fault that is pending after each, and in the end the blocks hold the bytes of
the array. -/
theorem serveAll_eq_flat (m : Memory) (hseparate : m.Separate) (hcache : m.CacheInRange) (requests : List Request) :
    (serveAll requests m).1 = (FlatMemory.serveAll requests m.flat).1 ∧
      (serveAll requests m).2.fault = (FlatMemory.serveAll requests m.flat).2.fault ∧
      (serveAll requests m).2.layout = m.layout ∧
      (∀ b ∈ (serveAll requests m).2.blocks, ∀ i < b.len,
        b.byte i = (FlatMemory.serveAll requests m.flat).2.byte (b.base.toNat + i)) ∧
      (serveAll requests m).2.CacheInRange := by
  obtain ⟨hanswers, hlast⟩ := hseparate.represents_flat.serveAll requests
  obtain ⟨hlayout, hin⟩ := layout_and_cache_serveAll hcache requests
  exact ⟨hanswers, hlast.fault, hlayout, hlast.bytes, hin⟩

/-- Next to a read-only block. The refused write is the fault that stays; the read across the two blocks, which fails
after it, gives zero. -/
theorem serveAll_eq_flat_beside_read_only :
    let m : Memory := {
      blocks := [
        { base := 0x1000#64, len := 0x100, writable := true },
        { base := 0x1100#64, len := 0x100, writable := false }]
      active := some 1 }
    let requests : List Request := [
      .write 0x10FC#64 4 (by decide) 0xDEADBEEF#32,
      .write 0x1100#64 4 (by decide) 1#32,
      .read 0x10FE#64 4 (by decide),
      .storeBlock 0x1100#64 [0x2A#8],
      .loadBlock 0x10FC#64 4,
      .takeFault,
      .read 0x1100#64 1 (by decide)]
    let refused : Fault := { address := 0x1100#64, size := 4, access := .write }
    (serveAll requests m).1 = [
      (.written, none),
      (.written, some refused),
      (.word 4 0#32, some refused),
      (.stored (.ok ()), some refused),
      (.loaded (.ok [0xEF#8, 0xBE#8, 0xAD#8, 0xDE#8]), some refused),
      (.taken (some refused), none),
      (.word 1 0x2A#8, none)] := by
  intro m requests refused
  have hseparate : m.Separate := separate_iff_layout.2 (by decide)
  have hcache : m.CacheInRange := by
    intro i hi
    obtain rfl := Option.some.inj hi
    decide
  obtain ⟨hanswers, _⟩ := serveAll_eq_flat m hseparate hcache requests
  rw [hanswers]
  rfl

end Memory
end AArch64
