import AArch64.Proofs.Memory.Ranges
import AArch64.Proofs.Transfers.Moving
import AArch64.Proofs.Vectors.Lanewise

/-! Structures that are stored and loaded again. Storing puts each element at its place in the interleaved layout, and
loading as many from there takes every register apart in the same way, whichever registers they are. -/
namespace AArch64

section Layout

theorem length_flatMap_range {α : Type} {k : Nat} (f : Nat → List α) (hlength : ∀ i, (f i).length = k) (n : Nat) :
    ((List.range n).flatMap f).length = n * k := by
  simp [List.length_flatMap, hlength, List.map_const']

theorem getElem?_flatMap_range {α : Type} {k : Nat} (f : Nat → List α) (hlength : ∀ i, (f i).length = k) {n i j : Nat}
    (hi : i < n) (hj : j < k) : ((List.range n).flatMap f)[i * k + j]? = (f i)[j]? := by
  induction n with
  | zero => exact absurd hi (Nat.not_lt_zero i)
  | succ n ih =>
    rw [List.range_succ, List.flatMap_append, List.flatMap_singleton]
    obtain hlt | rfl := Nat.lt_succ_iff_lt_or_eq.1 hi
    · have hin : i * k + j < ((List.range n).flatMap f).length := by
        have hnext := Nat.mul_le_mul_right k hlt
        rw [Nat.succ_mul] at hnext
        rw [length_flatMap_range f hlength]
        omega
      rw [List.getElem?_append_left hin, ih hlt]
    · have hlen := length_flatMap_range f hlength i
      rw [List.getElem?_append_right (by omega), hlen, Nat.add_sub_cancel_left]

variable {rt : Register} {repeats members elements : Nat}

theorem length_repeat (r : Register) :
    ((List.range elements).flatMap fun e => (consecutive r members).map fun t => (t, e)).length = elements * members :=
  length_flatMap_range _ (fun e => by simp [consecutive]) elements

theorem length_interleaved :
    (interleaved rt repeats members elements).length = repeats * (elements * members) :=
  length_flatMap_range _ (fun _ => length_repeat _) repeats

theorem getElem?_interleaved {r e s : Nat} (hr : r < repeats) (he : e < elements) (hs : s < members) :
    (interleaved rt repeats members elements)[(r * elements + e) * members + s]? =
      some (rt + BitVec.ofNat 5 (r + s), e) := by
  have hindex : (r * elements + e) * members + s = r * (elements * members) + (e * members + s) := by
    rw [Nat.add_mul, Nat.mul_assoc, Nat.add_assoc]
  have hinner : e * members + s < elements * members := by
    have hnext := Nat.mul_le_mul_right members he
    rw [Nat.succ_mul] at hnext
    omega
  rw [interleaved, hindex, getElem?_flatMap_range _ (fun _ => length_repeat _) hr hinner,
    getElem?_flatMap_range (k := members) _ (fun e => by simp [consecutive]) he hs]
  simp [consecutive, hs, BitVec.add_assoc, BitVec.ofNat_add]

theorem interleaved_add (d : Register) : interleaved (rt + d) repeats members elements =
    (interleaved rt repeats members elements).map fun p => (p.1 + d, p.2) := by
  have hadd (r s : Register) : rt + d + r + s = rt + r + s + d := by ac_rfl
  simp [interleaved, consecutive, List.map_flatMap, Function.comp_def, hadd]

/-- The repeats or the members run through all registers, and the elements through all lanes of each. -/
theorem mem_interleaved (hone : repeats = 1 ∨ members = 1) {q : Register}
    (hq : q ∈ consecutive rt (repeats * members)) {e : Nat} (he : e < elements) :
    (q, e) ∈ interleaved rt repeats members elements := by
  obtain ⟨j, hj, rfl⟩ := mem_consecutive.1 hq
  obtain rfl | rfl := hone
  · have hat : (interleaved rt 1 members elements)[(0 * elements + e) * members + j]? =
        some (rt + BitVec.ofNat 5 (0 + j), e) :=
      getElem?_interleaved Nat.one_pos he (by rwa [Nat.one_mul] at hj)
    rw [Nat.zero_add] at hat
    exact List.mem_of_getElem? hat
  · exact List.mem_of_getElem? (getElem?_interleaved (by rwa [Nat.mul_one] at hj) he Nat.one_pos)

end Layout

namespace Core

variable {ebytes i lo len y : Nat} {lanes : List (Register × Nat)} {c : Core}

/-- What has come about by storing lanes into block `i`, from an address on. -/
structure StoresLanes (i ebytes : Nat) (lanes : List (Register × Nat)) (y : Nat) (c d : Core) : Prop where
  state : d.state = c.state
  fault : d.memory.fault = c.memory.fault
  active : d.memory.active = some i
  outside : c.memory.AgreeOutside y (lanes.length * ebytes) d.memory
  elements : ∀ k p, lanes[k]? = some p → (d.memory.read (BitVec.ofNat 64 (y + k * ebytes)) ebytes).1 =
    Lanes.get (c.state.vector p.1) (8 * ebytes) p.2

theorem moveLanes_cons (load : Bool) (p : Register × Nat) :
    moveLanes load ebytes (p :: lanes) (BitVec.ofNat 64 y) c = moveLanes load ebytes lanes
      (BitVec.ofNat 64 (y + ebytes)) (c.moveLane load ebytes (BitVec.ofNat 64 y) p.1 p.2) := by
  rw [BitVec.ofNat_add]
  rfl

theorem storesLanes (hs : c.memory.ServedBy i lo len) (hfits : lo + len ≤ 2 ^ 64) (hpos : 0 < ebytes) (hlo : lo ≤ y)
    (hhi : y + lanes.length * ebytes ≤ lo + len) :
    StoresLanes i ebytes lanes y c (moveLanes false ebytes lanes (BitVec.ofNat 64 y) c) := by
  induction lanes generalizing y c with
  | nil => exact ⟨rfl, rfl, hs.active, .refl _ _ _, nofun⟩
  | cons p rest ih =>
    rw [List.length_cons, Nat.succ_mul] at hhi
    have hy : (BitVec.ofNat 64 y).toNat = y := Nat.mod_eq_of_lt (by omega)
    let x := Lanes.get (c.state.vector p.1) (8 * ebytes) p.2
    let first : Core := { c with memory := c.memory.write (BitVec.ofNat 64 y) ebytes x }
    have hfirst : c.memory.AgreeOutside y ebytes first.memory := by
      have houtside := Memory.AgreeOutside.write c.memory (BitVec.ofNat 64 y) ebytes x
      rwa [hy] at houtside
    obtain ⟨hs', hfault, hback⟩ := hs.write (a := BitVec.ofNat 64 y) (n := ebytes) (by omega) (by omega) x
    have hrest := ih (c := first) (y := y + ebytes) hs' (by omega) (by omega)
    rw [moveLanes_cons]
    constructor
    case state => exact hrest.state
    case fault => exact hrest.fault.trans hfault
    case active => exact hrest.active
    case outside =>
      rw [List.length_cons, Nat.succ_mul]
      exact (hfirst.mono (by omega) (by omega)).trans (hrest.outside.mono (by omega) (by omega))
    case elements =>
      intro k q hk
      cases k with
      | zero =>
        -- the later stores are all above the first element
        obtain rfl : p = q := by simpa using hk
        have hlast := hs'.of_layout_eq hrest.outside.layout hrest.active
        have hkept := hrest.outside.read_eq (a := BitVec.ofNat 64 y) (n := ebytes) hs' hlast (by omega) (by omega)
          (by omega)
        rw [Nat.zero_mul, Nat.add_zero]
        exact hkept.trans ((congrArg Prod.fst hback).trans (BitVec.setWidth_eq x))
      | succ k =>
        have hnext : y + (k + 1) * ebytes = y + ebytes + k * ebytes := by
          rw [Nat.succ_mul]
          omega
        rw [hnext]
        exact hrest.elements k q (by simpa using hk)

/-- Whichever block was used last, the first store moves the cache to the block that the others go to. -/
theorem storesLanes_of_writableFrom {a : BitVec 64} (hlanes : lanes ≠ [])
    (hw : c.memory.WritableFrom a ebytes (lanes.length * ebytes)) (hfits : a.toNat + lanes.length * ebytes ≤ 2 ^ 64)
    (hpos : 0 < ebytes) : ∃ i, StoresLanes i ebytes lanes a.toNat c (moveLanes false ebytes lanes a c) ∧
      (moveLanes false ebytes lanes a c).memory.ServedBy i a.toNat (lanes.length * ebytes) := by
  cases lanes with
  | nil => exact absurd rfl hlanes
  | cons p rest =>
    have hfirst : ebytes ≤ (p :: rest).length * ebytes := Nat.le_mul_of_pos_left ebytes (Nat.succ_pos _)
    obtain ⟨i, offset, b, hr, hb, hbw, hcovers⟩ := hw.exists_resolve hfirst
    let start : Core := { c with memory := c.memory.activate i }
    have hstart : moveLanes false ebytes (p :: rest) a c = moveLanes false ebytes (p :: rest) a start := by
      have hwrite := Memory.write_activate hr (Memory.writableAt_of_block hb hbw)
        (Lanes.get (c.state.vector p.1) (8 * ebytes) p.2)
      simp only [moveLanes, moveLane, store, start, Bool.false_eq_true, if_false, hwrite]
    have hs : start.memory.ServedBy i a.toNat ((p :: rest).length * ebytes) := ⟨rfl, b, hb, hbw, hcovers⟩
    have hstores := storesLanes hs hfits hpos (Nat.le_refl _) (Nat.le_refl _)
    rw [BitVec.ofNat_toNat, BitVec.setWidth_eq, ← hstart] at hstores
    exact ⟨i, ⟨hstores.state, hstores.fault, hstores.active, ⟨hstores.outside.layout, hstores.outside.bytes⟩,
      hstores.elements⟩, hs.of_layout_eq hstores.outside.layout hstores.active⟩

/-- Loads from where a value for each lane is found. A lane that has its value keeps it. -/
theorem loadsLanes (hs : c.memory.ServedBy i lo len) (hfits : lo + len ≤ 2 ^ 64) (hpos : 0 < ebytes) (hlo : lo ≤ y)
    (hhi : y + lanes.length * ebytes ≤ lo + len) (hrange : ∀ p ∈ lanes, (p.2 + 1) * (8 * ebytes) ≤ 128)
    (value : Register → Nat → BitVec (8 * ebytes)) (hvalue : ∀ k p, lanes[k]? = some p →
      (c.memory.read (BitVec.ofNat 64 (y + k * ebytes)) ebytes).1 = value p.1 p.2) :
    let d := moveLanes true ebytes lanes (BitVec.ofNat 64 y) c
    d.memory.fault = c.memory.fault ∧ ∀ q j, (q, j) ∈ lanes ∨ Lanes.get (c.state.vector q) (8 * ebytes) j = value q j →
      Lanes.get (d.state.vector q) (8 * ebytes) j = value q j := by
  induction lanes generalizing y c with
  | nil => exact ⟨rfl, fun q j h => h.resolve_left nofun⟩
  | cons p rest ih =>
    rw [List.length_cons, Nat.succ_mul] at hhi
    have hy : (BitVec.ofNat 64 y).toNat = y := Nat.mod_eq_of_lt (by omega)
    let x := (c.memory.read (BitVec.ofNat 64 y) ebytes).1
    let memory := (c.memory.read (BitVec.ofNat 64 y) ebytes).2
    let first : Core :=
      { c with memory, state := c.state.setVector p.1 (Lanes.set (c.state.vector p.1) p.2 x) }
    have hx : x = value p.1 p.2 := by simpa using hvalue 0 p rfl
    have hfirst : c.memory.AgreeOutside 0 0 first.memory := .read _ _ _ _ _
    obtain ⟨hs', hkept⟩ := hs.read (a := BitVec.ofNat 64 y) (n := ebytes) (by omega) (by omega)
    have hvalue' (k : Nat) (q : Register × Nat) (hk : rest[k]? = some q) :
        (first.memory.read (BitVec.ofNat 64 (y + ebytes + k * ebytes)) ebytes).1 = value q.1 q.2 := by
      have hlt : k < rest.length := (List.getElem?_eq_some_iff.1 hk).1
      have hbelow := Nat.mul_le_mul_right ebytes (Nat.succ_le_of_lt hlt)
      rw [Nat.succ_mul] at hbelow
      have ha : (BitVec.ofNat 64 (y + ebytes + k * ebytes)).toNat = y + ebytes + k * ebytes :=
        Nat.mod_eq_of_lt (by omega)
      have hnext : y + ebytes + k * ebytes = y + (k + 1) * ebytes := by
        rw [Nat.succ_mul]
        omega
      rw [hfirst.read_eq hs hs' (by omega) (by omega) (by omega), hnext]
      exact hvalue (k + 1) q hk
    have hrange' (q : Register × Nat) (hq : q ∈ rest) := hrange q (List.mem_cons_of_mem p hq)
    obtain ⟨hfault, hlanes⟩ := ih (c := first) hs' (by omega) (by omega) hrange' hvalue'
    rw [moveLanes_cons]
    refine ⟨hfault.trans hkept, fun q j h => hlanes q j ?_⟩
    have hvector : first.state.vector q =
        if q = p.1 then Lanes.set (c.state.vector p.1) p.2 x else c.state.vector q := c.state.vector_setVector ..
    by_cases hqj : (q, j) = p
    · subst hqj
      rw [hvector, if_pos rfl, Lanes.get_set_self _ _ (hrange _ List.mem_cons_self)]
      exact .inr hx
    · refine h.imp (fun hmem => (List.mem_cons.1 hmem).resolve_left hqj) fun hget => ?_
      rw [hvector]
      split
      next hq =>
        subst hq
        rwa [Lanes.get_set_of_ne _ _ fun hj => hqj (Prod.ext rfl hj)]
      next => exact hget

end Core

namespace Lanes

theorem sized_sized (v : BitVec 128) : sized (sized v false) false = sized v false := by
  simp [sized, clearFrom]

end Lanes

theorem Core.vector_halve (c : Core) (rts : List Register) (q : Register) : (c.halve rts).state.vector q =
    if q ∈ rts then Lanes.sized (c.state.vector q) false else c.state.vector q := by
  change (rts.foldl (fun s r => s.setVector r (Lanes.sized (s.vector r) false)) c.state).vector q = _
  generalize c.state = s
  induction rts generalizing s with
  | nil => simp
  | cons rt rts ih =>
    rw [List.foldl_cons, ih]
    by_cases hq : q = rt
    · subst hq
      simp [Lanes.sized_sized]
    · simp [hq]

namespace InstructionWord

/-- How many repeats of how many members a code stands for. -/
def multipleCode (repeats members : Nat) : Option Nat :=
  match repeats, members with
  | 1, 4 => some 0
  | 4, 1 => some 2
  | 1, 3 => some 4
  | 3, 1 => some 6
  | 1, 1 => some 7
  | 1, 2 => some 8
  | 2, 1 => some 10
  | _, _ => none

/-- An allocated word that stores or loads whole structures, with or without a base that moves. -/
structure MovesStructures (w : InstructionWord) (load : Bool) (repeats members ebytes : Nat) (full : Bool) : Prop where
  group : w.number 29 24 = 0b001100
  code : multipleCode repeats members = some (w.number 15 12)
  element : ebytes = 2 ^ w.number 11 10
  full : w.bit 30 = full
  load : w.bit 22 = load
  allocated : ∃ i, Instruction.decode w = .ok i

namespace MovesStructures

variable {w : InstructionWord} {load full : Bool} {repeats members ebytes : Nat}

theorem multipleShape?_eq (h : w.MovesStructures load repeats members ebytes full) :
    TransferOp.multipleShape? w = some (repeats, members) := by
  have hcode := h.code
  unfold TransferOp.multipleShape?
  generalize w.number 15 12 = code at hcode ⊢
  unfold multipleCode at hcode
  split at hcode <;> cases hcode <;> rfl

theorem decode_eq (h : w.MovesStructures load repeats members ebytes full) :
    Instruction.decode w = .ok (.transfer (.structures load ebytes w.rd w.rn full
      (.multiple repeats members ((if full then 16 else 8) / ebytes)) (TransferOp.structureAdvance w))) := by
  have hgroup : w.number 29 25 = 0b00110 ∧ w.bit 24 = false := by
    have hfixed := h.group
    simp only [number_eq, bit_eq_false] at hfixed ⊢
    omega
  have hshape : Yields (TransferOp.multipleStructures w) fun p =>
      p = (ebytes, .multiple repeats members ((if full then 16 else 8) / ebytes)) := by
    simp only [TransferOp.multipleStructures, h.multipleShape?_eq, h.full, ← h.element]
    exact .guard fun _ => .guard fun _ => .ok rfl
  have hstructures : Yields (TransferOp.decodeStructures w) fun op => op = .structures load ebytes w.rd w.rn full
      (.multiple repeats members ((if full then 16 else 8) / ebytes)) (TransferOp.structureAdvance w) := by
    refine .guard fun _ => ?_
    simp only [hgroup.2, Bool.false_eq_true, if_false]
    split
    next => exact .error _
    next p hp =>
      obtain ⟨rfl, rfl⟩ := Prod.mk.inj (hshape _ hp)
      exact .ok (by rw [h.load, h.full])
  obtain ⟨i, hi⟩ := h.allocated
  have hdecode := Instruction.decode_of_structures hgroup.1
  rw [hdecode] at hi ⊢
  cases hop : TransferOp.decodeStructures w with
  | error e =>
    rw [hop] at hi
    cases hi
  | ok op =>
    rw [hstructures op hop]
    rfl

/-- There is one repeat or one member. -/
theorem one (h : w.MovesStructures load repeats members ebytes full) : repeats = 1 ∨ members = 1 := by
  have hcode := h.code
  unfold multipleCode at hcode
  split at hcode <;> simp at hcode ⊢

theorem elements_mul (h : w.MovesStructures load repeats members ebytes full) :
    (if full then 16 else 8) / ebytes * ebytes = if full then 16 else 8 := by
  rw [h.element]
  exact elements_mul_bytes full (w.number_lt 11 10)

theorem length_mul (h : w.MovesStructures load repeats members ebytes full) (rt : Register) :
    (interleaved rt repeats members ((if full then 16 else 8) / ebytes)).length * ebytes =
      repeats * members * if full then 16 else 8 := by
  rw [length_interleaved, Nat.mul_comm _ members, ← Nat.mul_assoc, Nat.mul_assoc, h.elements_mul]

theorem pos (h : w.MovesStructures load repeats members ebytes full) : 0 < ebytes := h.element ▸ Nat.two_pow_pos _

theorem interleaved_ne_nil (h : w.MovesStructures load repeats members ebytes full) (rt : Register) :
    interleaved rt repeats members ((if full then 16 else 8) / ebytes) ≠ [] := by
  intro hnil
  have hlength := h.length_mul rt
  rw [hnil, List.length_nil, Nat.zero_mul] at hlength
  have hcode := h.code
  unfold multipleCode at hcode
  split at hcode <;> cases full <;> simp at hcode hlength

end MovesStructures
end InstructionWord

namespace Machine

variable {m : Machine} {w : InstructionWord} {load full : Bool} {repeats members ebytes i : Nat}

theorem execute_structures (h : w.MovesStructures load repeats members ebytes full) {moved : Core}
    (hmoved : StructureShape.move (.multiple repeats members ((if full then 16 else 8) / ebytes)) load ebytes w.rd full
      (m.core.base w.rn) m.core = moved) (hserved : moved.memory.fault = none) :
    ∃ base, m.execute w = (.ok .ready, { m with core := moved.moveBase base }) := by
  have hd := h.decode_eq
  generalize TransferOp.structureAdvance w = advance at hd
  let op : TransferOp := .structures load ebytes w.rd w.rn full
    (.multiple repeats members ((if full then 16 else 8) / ebytes)) advance
  have hfrom : op.moveFrom (op.start m.core) m.core = moved := hmoved
  have hplain : op.Plain := trivial
  exact ⟨op.movedBase? m.core, by rw [m.execute_transfer hd, op.execute_of_no_fault hplain (by rwa [hfrom]), hfrom]⟩

theorem execute_storeStructures (h : w.MovesStructures false repeats members ebytes full)
    (hpending : m.core.memory.fault = none)
    (hw : m.core.memory.WritableFrom (m.core.base w.rn) ebytes (repeats * members * if full then 16 else 8))
    (hfits : (m.core.base w.rn).toNat + (repeats * members * if full then 16 else 8) ≤ 2 ^ 64) :
    ∃ i d, Core.StoresLanes i ebytes (interleaved w.rd repeats members ((if full then 16 else 8) / ebytes))
        (m.core.base w.rn).toNat m.core d ∧
      d.memory.ServedBy i (m.core.base w.rn).toNat (repeats * members * if full then 16 else 8) ∧
      (m.execute w).1 = .ok .ready ∧ (m.execute w).2.core.memory = d.memory := by
  rw [← h.length_mul w.rd] at hw hfits ⊢
  obtain ⟨i, hstores, hserved⟩ := Core.storesLanes_of_writableFrom (h.interleaved_ne_nil w.rd) hw hfits h.pos
  refine ⟨i, _, hstores, hserved, ?_⟩
  obtain ⟨base, hrun⟩ := execute_structures h rfl (hstores.fault.trans hpending)
  rw [hrun]
  exact ⟨rfl, Core.memory_moveBase _ _⟩

/-- A register gets what its lanes are loaded from, and zeros above them. -/
theorem execute_loadStructures (h : w.MovesStructures true repeats members ebytes full)
    (hpending : m.core.memory.fault = none)
    (hs : m.core.memory.ServedBy i (m.core.base w.rn).toNat (repeats * members * if full then 16 else 8))
    (hfits : (m.core.base w.rn).toNat + (repeats * members * if full then 16 else 8) ≤ 2 ^ 64)
    (value : Register → BitVec 128)
    (hvalue : ∀ k p, (interleaved w.rd repeats members ((if full then 16 else 8) / ebytes))[k]? = some p →
      (m.core.memory.read (BitVec.ofNat 64 ((m.core.base w.rn).toNat + k * ebytes)) ebytes).1 =
        Lanes.get (value p.1) (8 * ebytes) p.2) :
    (m.execute w).1 = .ok .ready ∧ ∀ q ∈ consecutive w.rd (repeats * members),
      (m.execute w).2.state.vector q = Lanes.sized (value q) full := by
  have hrange (p : Register × Nat)
      (hp : p ∈ interleaved w.rd repeats members ((if full then 16 else 8) / ebytes)) :
      (p.2 + 1) * (8 * ebytes) ≤ 128 := by
    have hlt : p.2 + 1 ≤ (if full then 16 else 8) / ebytes := (mem_consecutive_of_mem_interleaved hp).2
    have hle := Nat.mul_le_mul_right ebytes hlt
    have hsize : (if full then 16 else 8) ≤ 16 := by cases full <;> decide
    rw [h.elements_mul] at hle
    rw [Nat.mul_left_comm]
    omega
  obtain ⟨hfault, hlanes⟩ := Core.loadsLanes hs hfits h.pos (Nat.le_refl _)
    (Nat.le_of_eq (by rw [h.length_mul w.rd])) hrange (fun q => Lanes.get (value q) (8 * ebytes)) hvalue
  rw [BitVec.ofNat_toNat, BitVec.setWidth_eq] at hfault hlanes
  have hget {q : Register} (hq : q ∈ consecutive w.rd (repeats * members)) (e : Nat)
      (he : e < (if full then 16 else 8) / ebytes) := hlanes q e (.inl (mem_interleaved h.one hq he))
  have hfill : (if full then 16 else 8) / ebytes * (8 * ebytes) = 8 * if full then 16 else 8 := by
    rw [Nat.mul_left_comm, h.elements_mul]
  have hserved : (StructureShape.move (.multiple repeats members ((if full then 16 else 8) / ebytes)) true ebytes w.rd
      full (m.core.base w.rn) m.core).memory.fault = none := by
    cases full <;> exact hfault.trans hpending
  obtain ⟨base, hrun⟩ := execute_structures h rfl hserved
  rw [hrun]
  refine ⟨rfl, fun q hq => (Core.vector_moveBase _ base q).trans ?_⟩
  have hlow := Lanes.setWidth_eq_of_get hfill (hget hq)
  cases full with
  | true => exact (BitVec.setWidth_eq _).symm.trans (hlow.trans (BitVec.setWidth_eq _))
  | false => exact (Core.vector_halve _ _ q).trans ((if_pos hq).trans (congrArg (BitVec.setWidth 128) hlow))

/-- Member `s` of structure `e` of repeat `r` is stored `(r * elements + e) * members + s` elements above the base, from
lane `e` of register `r + s` counted from the first. Nothing outside of the structures changes. On any machine that has
this memory, a load of the same shape from the same address puts the registers together again, wherever they start. If
only lower halves are moved, the upper halves become zero. The structures have to end within the address space. -/
theorem store_then_load_structures (m n : Machine) {ws wl : InstructionWord} {repeats members ebytes : Nat}
    {full : Bool} {b : BitVec 64} (hstore : ws.MovesStructures false repeats members ebytes full)
    (hload : wl.MovesStructures true repeats members ebytes full)
    (hpending : m.core.memory.fault = none) (hsb : m.core.base ws.rn = b)
    (hw : m.core.memory.WritableFrom b ebytes (repeats * members * if full then 16 else 8))
    (hfits : b.toNat + (repeats * members * if full then 16 else 8) ≤ 2 ^ 64)
    (hn : n.core.memory = (m.execute ws).2.core.memory) (hlb : n.core.base wl.rn = b) :
    let elements := (if full then 16 else 8) / ebytes
    let stored (j : Nat) := m.state.vector (ws.rd + BitVec.ofNat 5 j)
    let memory := (m.execute ws).2.core.memory
    (m.execute ws).1 = .ok .ready ∧
      (∀ r < repeats, ∀ e < elements, ∀ s < members,
        (memory.read (b + BitVec.ofNat 64 (((r * elements + e) * members + s) * ebytes)) ebytes).1 =
          Lanes.get (stored (r + s)) (8 * ebytes) e) ∧
      m.core.memory.AgreeOutside b.toNat (repeats * members * if full then 16 else 8) memory ∧
      (n.execute wl).1 = .ok .ready ∧
      ∀ j < repeats * members, (n.execute wl).2.state.vector (wl.rd + BitVec.ofNat 5 j) =
        if full then stored j else ((stored j).setWidth 64).setWidth 128 := by
  subst hsb
  intro elements stored memory
  obtain ⟨i, d, hstores, hserved, hready, hmemory⟩ := execute_storeStructures hstore hpending hw hfits
  have hnd : n.core.memory = d.memory := hn.trans hmemory
  let shift : Register := wl.rd - ws.rd
  have hrd : wl.rd = ws.rd + shift := by
    simp only [shift]
    bv_omega
  have hback (q : Register) : q + shift - shift = q := BitVec.add_sub_cancel q shift
  have hvalue (k : Nat) (p : Register × Nat) (hp : (interleaved wl.rd repeats members elements)[k]? = some p) :
      (n.core.memory.read (BitVec.ofNat 64 ((n.core.base wl.rn).toNat + k * ebytes)) ebytes).1 =
        Lanes.get (m.state.vector (p.1 - shift)) (8 * ebytes) p.2 := by
    rw [hrd, interleaved_add, List.getElem?_map] at hp
    obtain ⟨p₀, hp₀, rfl⟩ := Option.map_eq_some_iff.1 hp
    rw [hlb, hnd, hback]
    exact hstores.elements k p₀ hp₀
  obtain ⟨hreadyn, hvectors⟩ := execute_loadStructures hload (by rw [hnd, hstores.fault, hpending])
    (by rwa [hlb, hnd]) (by rwa [hlb]) (fun q => m.state.vector (q - shift)) hvalue
  refine ⟨hready, fun r hr e he s hs => ?_, ?_, hreadyn, fun j hj => ?_⟩
  · have haddress (k : Nat) : m.core.base ws.rn + BitVec.ofNat 64 (k * ebytes) =
        BitVec.ofNat 64 ((m.core.base ws.rn).toNat + k * ebytes) := by
      rw [BitVec.ofNat_add, BitVec.ofNat_toNat, BitVec.setWidth_eq]
    have helement := hstores.elements _ _ (getElem?_interleaved hr he hs)
    rwa [← haddress, ← hmemory] at helement
  · have houtside := hstores.outside
    rwa [hstore.length_mul, ← hmemory] at houtside
  · have hfirst : wl.rd + BitVec.ofNat 5 j - shift = ws.rd + BitVec.ofNat 5 j := by
      simp only [shift]
      bv_omega
    rw [hvectors _ (mem_consecutive.2 ⟨j, hj, rfl⟩), hfirst]
    rfl

/-- `ST3 {V31.4H, V0.4H, V1.4H}, [X1], #24` and then `LD3 {V5.4H, V6.4H, V7.4H}, [X2]` from the same address. The lower
half of V0 comes back in V6. -/
theorem store_then_load_structures_three :
    let st3 : InstructionWord := 0x0C9F443F#32
    let ld3 : InstructionWord := 0x0C404445#32
    let s : State := (({} : State).write 1#5 0x1000#64).write 2#5 0x1000#64
    let v : BitVec 128 := 0x0123456789ABCDEF0011223344556677#128
    let m : Machine :=
      { core := { state := s.setVector 0#5 v, memory := { blocks := [Block.ofBytes 0x1000#64 24 true []] } } }
    let n := (m.execute st3).2
    st3.MovesStructures false 1 3 2 false ∧ ld3.MovesStructures true 1 3 2 false ∧ n.core.base 1#5 = 0x1018#64 ∧
      (n.core.memory.read 0x1008#64 2).1 = 0x4455#16 ∧ (n.execute ld3).1 = .ok .ready ∧
      (n.execute ld3).2.state.vector 6#5 = 0x0011223344556677#128 := by
  intro st3 ld3 s v m n
  have hdecode : (∃ i, Instruction.decode 0x0C9F443F#32 = .ok i) ∧ ∃ i, Instruction.decode 0x0C404445#32 = .ok i :=
    ⟨⟨_, rfl⟩, _, rfl⟩
  have hst3 : st3.MovesStructures false 1 3 2 false :=
    ⟨by decide, by decide, by decide, by decide, by decide, hdecode.1⟩
  have hld3 : ld3.MovesStructures true 1 3 2 false :=
    ⟨by decide, by decide, by decide, by decide, by decide, hdecode.2⟩
  have hadmitted : m.core.memory.Admitted := List.pairwise_singleton _ _
  have hw : m.core.memory.WritableFrom 0x1000#64 2 24 :=
    hadmitted.writableFrom_of_two_le (by decide) (by decide) (by decide) (by decide) List.mem_cons_self rfl (by decide)
  have hfirst : m.core.base st3.rn = 0x1000#64 := by decide +kernel
  have hsecond : n.core.base ld3.rn = 0x1000#64 := by decide +kernel
  obtain ⟨-, helement, -, hready, hvector⟩ :=
    m.store_then_load_structures n hst3 hld3 rfl hfirst hw (by decide) rfl hsecond
  have hlane := helement 0 (by decide) 1 (by decide) 1 (by decide)
  have hmiddle := hvector 1 (by decide)
  have hregister : ld3.rd + BitVec.ofNat 5 1 = 6#5 := by decide
  rw [hregister] at hmiddle
  exact ⟨hst3, hld3, by decide +kernel, hlane.trans (by decide +kernel), hready, hmiddle.trans (by decide +kernel)⟩

end Machine
end AArch64
