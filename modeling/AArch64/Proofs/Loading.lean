import AArch64.Proofs.LoadOrder

/-! Loading segment by segment. It stops at the first segment that the memory refuses; those in front of it have got
their blocks by then, and nothing else about the machine has changed. -/
namespace AArch64

theorem Block.byte_ofBytes {base : BitVec 64} {len i : Nat} {writable : Bool} {xs : List (BitVec 8)} (hi : i < len) :
    (ofBytes base len writable xs).byte i = xs[i]?.getD 0#8 := by
  have hempty : byte { base, len, writable } i = 0#8 := by simp [byte]
  rw [ofBytes, byte_store, if_pos (Nat.zero_le i), Nat.sub_zero, List.getElem?_take_of_lt hi, hempty]

/-- The bytes given for a block, and zeros up to its end. -/
theorem Block.load_ofBytes {base : BitVec 64} {len : Nat} {writable : Bool} {xs : List (BitVec 8)}
    (h : xs.length ≤ len) : (ofBytes base len writable xs).load 0 len = xs ++ List.replicate (len - xs.length) 0#8 := by
  apply List.ext_getElem?
  intro k
  rw [load, List.getElem?_map]
  by_cases hk : k < len
  · rw [List.getElem?_range hk, Option.map_some, Nat.zero_add, byte_ofBytes hk]
    by_cases hx : k < xs.length
    · simp [hx, List.getElem?_append_left hx]
    · have hpad : k - xs.length < len - xs.length := by omega
      rw [List.getElem?_append_right (Nat.le_of_not_lt hx), List.getElem?_replicate, if_pos hpad]
      simp [Nat.le_of_not_lt hx]
  · rw [List.getElem?_eq_none (by simpa using hk), List.getElem?_eq_none (by simp; omega)]
    rfl

namespace Segment

/-- The segment has a place in memory: it is not there for a debugger only, and it is not empty. -/
def takesMemory (s : Segment) : Bool := !(s.debug || s.memLen == 0#64)

/-- The block stands for the segment: its bytes are those of the segment, with zeros behind them. -/
structure HeldBy (s : Segment) (b : Block) : Prop where
  base : b.base = s.base
  len : b.len = s.memLen.toNat
  writable : b.writable = s.writable
  bytes : b.load 0 b.len = s.bytes ++ List.replicate (b.len - s.bytes.length) 0#8

theorem heldBy_block {s : Segment} (h : s.bytes.length ≤ s.memLen.toNat) : s.HeldBy s.block where
  base := Block.base_ofBytes _ _ _ _
  len := Block.len_ofBytes _ _ _ _
  writable := Block.writable_store _ _ _
  bytes := by
    rw [block, Block.len_ofBytes]
    exact Block.load_ofBytes h

inductive RefusedBy (s : Segment) (memory : Memory) : SetupError → Prop
  | tooLarge (h : s.memLen.toNat < s.bytes.length) :
    RefusedBy s memory (.segmentTooLarge s.base s.bytes.length s.memLen)
  | overlap {o : BlockOverlap} (hfits : s.bytes.length ≤ s.memLen.toNat) (h : memory.addBlock s.block = .error o) :
    RefusedBy s memory (.overlap o)

end Segment

namespace Machine

/-- The machine with a block behind the others for each segment that has a place in memory. -/
def place (m : Machine) (segments : List Segment) : Machine :=
  m.withMemory { m.core.memory with
    blocks := m.core.memory.blocks ++ (segments.filter Segment.takesMemory).map Segment.block }

/-- The memory refuses the segment `s` of a list, when those in front of it have got their blocks. -/
structure RefusedAt (m : Machine) (segments before : List Segment) (s : Segment) (e : SetupError) : Prop where
  split : ∃ rest, segments = before ++ s :: rest
  takesMemory : s.takesMemory = true
  refused : s.RefusedBy (m.place before).core.memory e

def Accepts (m : Machine) (segments : List Segment) : Prop :=
  ∀ before s e, ¬m.RefusedAt segments before s e

variable {m : Machine} {s : Segment} {segments rest : List Segment} {e : SetupError}

@[simp] theorem place_nil (m : Machine) : m.place [] = m := by
  simp [place, withMemory]

theorem place_append (m : Machine) (xs ys : List Segment) : m.place (xs ++ ys) = (m.place xs).place ys := by
  simp [place, withMemory]

theorem place_cons (m : Machine) (s : Segment) (rest : List Segment) : m.place (s :: rest) = (m.place [s]).place rest :=
  m.place_append [s] rest

theorem place_of_not_takesMemory (h : s.takesMemory = false) : m.place [s] = m := by
  simp [place, withMemory, h]

theorem loadSegment_cases (m : Machine) (s : Segment) :
    (∃ e, s.takesMemory = true ∧ s.RefusedBy m.core.memory e ∧ m.loadSegment s = .error e) ∨
      (∀ e, s.takesMemory = true → ¬s.RefusedBy m.core.memory e) ∧ m.loadSegment s = .ok (m.place [s]) := by
  by_cases htakes : s.takesMemory = true
  · have hskip : (s.debug || s.memLen == 0#64) = false := (Bool.not_eq_true' _).mp htakes
    rw [loadSegment, hskip]
    by_cases hfits : s.bytes.length ≤ s.memLen.toNat
    · rw [if_neg Bool.false_ne_true, if_neg (Nat.not_lt.2 hfits)]
      cases hadd : m.core.memory.addBlock s.block with
      | error o => exact .inl ⟨_, htakes, .overlap hfits hadd, by rw [addBlock, ← Segment.block, hadd]⟩
      | ok n =>
        refine .inr ⟨fun e _ hrefused => ?_, ?_⟩
        · cases hrefused with
          | tooLarge h => omega
          | overlap _ h => rw [hadd] at h; cases h
        · obtain ⟨_, rfl⟩ := Memory.addBlock_eq_ok_iff.1 hadd
          rw [addBlock, ← Segment.block, hadd]
          simp [place, withMemory, htakes]
    · have hlarge := Nat.lt_of_not_le hfits
      rw [if_neg Bool.false_ne_true, if_pos hlarge]
      exact .inl ⟨_, htakes, .tooLarge hlarge, rfl⟩
  · have hfalse := eq_false_of_ne_true htakes
    have hskip : (s.debug || s.memLen == 0#64) = true := (Bool.not_eq_false' _).mp hfalse
    rw [loadSegment, if_pos hskip, place_of_not_takesMemory hfalse]
    exact .inr ⟨fun e h => absurd h htakes, rfl⟩

theorem refusedAt_head (htakes : s.takesMemory = true) (h : s.RefusedBy m.core.memory e) :
    m.RefusedAt (s :: rest) [] s e :=
  ⟨⟨rest, rfl⟩, htakes, by rwa [place_nil]⟩

/-- Behind its first segment a list is refused as the rest of it is by the machine that the first one was placed in. -/
theorem refusedAt_cons {before : List Segment} {t : Segment} :
    m.RefusedAt (s :: rest) (s :: before) t e ↔ (m.place [s]).RefusedAt rest before t e := by
  constructor
  · rintro ⟨⟨others, hsplit⟩, htakes, hrefused⟩
    exact ⟨⟨others, List.cons.inj hsplit |>.2⟩, htakes, by rwa [← place_cons]⟩
  · rintro ⟨⟨others, rfl⟩, htakes, hrefused⟩
    exact ⟨⟨others, rfl⟩, htakes, by rwa [place_cons]⟩

theorem accepts_nil (m : Machine) : m.Accepts [] := by
  rintro before s e ⟨⟨rest, hsplit⟩, _, _⟩
  cases before <;> cases hsplit

theorem accepts_cons (hs : ∀ e, s.takesMemory = true → ¬s.RefusedBy m.core.memory e) :
    m.Accepts (s :: rest) ↔ (m.place [s]).Accepts rest := by
  constructor
  · exact fun h before t e ht => h (s :: before) t e (refusedAt_cons.2 ht)
  · intro h before t e ht
    cases before with
    | nil =>
      obtain ⟨⟨others, hsplit⟩, htakes, hrefused⟩ := ht
      obtain ⟨rfl, _⟩ := List.cons.inj hsplit
      rw [place_nil] at hrefused
      exact hs e htakes hrefused
    | cons u before =>
      obtain ⟨others, hsplit⟩ := ht.split
      obtain ⟨rfl, _⟩ := List.cons.inj hsplit
      exact h before t e (refusedAt_cons.1 ht)

/-- Loading takes all segments, or it stops at the first one that is refused. -/
theorem load_cases (segments : List Segment) (m : Machine) :
    m.Accepts segments ∧ load segments m = (.ok (), m.place segments) ∨
      ∃ before s e, m.Accepts before ∧ m.RefusedAt segments before s e ∧
        load segments m = (.error e, m.place before) := by
  induction segments generalizing m with
  | nil => exact .inl ⟨m.accepts_nil, by rw [place_nil]; rfl⟩
  | cons s rest ih =>
    obtain ⟨e, htakes, hrefused, hload⟩ | ⟨hs, hload⟩ := m.loadSegment_cases s
    · refine .inr ⟨[], s, e, m.accepts_nil, refusedAt_head htakes hrefused, ?_⟩
      rw [load, hload, place_nil]
    · have hnext : load (s :: rest) m = load rest (m.place [s]) := by rw [load, hload]
      rw [hnext]
      obtain ⟨haccepts, hrest⟩ | ⟨before, t, e, haccepts, ht, hrest⟩ := ih (m.place [s])
      · exact .inl ⟨(accepts_cons hs).2 haccepts, by rw [hrest, ← place_cons]⟩
      · refine .inr ⟨s :: before, t, e, (accepts_cons hs).2 haccepts, refusedAt_cons.2 ht, ?_⟩
        rw [hrest, ← place_cons]

theorem Accepts.fits (h : m.Accepts segments) (hs : s ∈ segments) (htakes : s.takesMemory = true) :
    s.bytes.length ≤ s.memLen.toNat := by
  obtain ⟨before, rest, hsplit⟩ := List.append_of_mem hs
  refine Nat.le_of_not_lt fun hlarge => ?_
  exact h before s _ ⟨⟨rest, hsplit⟩, htakes, .tooLarge hlarge⟩

theorem Accepts.heldBy_block (h : m.Accepts segments) (hs : s ∈ segments) (htakes : s.takesMemory = true) :
    s.HeldBy s.block :=
  Segment.heldBy_block (h.fits hs htakes)

/-- Loading comes to a segment beyond all capacity if none in front of it is refused. -/
theorem loadOverflows_iff (segments : List Segment) (m : Machine) : loadOverflows segments m = true ↔
    ∃ before s rest, segments = before ++ s :: rest ∧ m.Accepts before ∧ s.overflows = true := by
  induction segments generalizing m with
  | nil => simp [loadOverflows]
  | cons s rest ih =>
    rw [loadOverflows, Bool.or_eq_true]
    constructor
    · rintro (hs | hrest)
      · exact ⟨[], s, rest, rfl, m.accepts_nil, hs⟩
      · obtain ⟨e, _, _, hload⟩ | ⟨hs, hload⟩ := m.loadSegment_cases s
        · rw [hload] at hrest
          cases hrest
        · rw [hload] at hrest
          obtain ⟨before, t, others, rfl, haccepts, ht⟩ := (ih (m.place [s])).1 hrest
          exact ⟨s :: before, t, others, rfl, (accepts_cons hs).2 haccepts, ht⟩
    · rintro ⟨before, t, others, hsplit, haccepts, ht⟩
      cases before with
      | nil =>
        obtain ⟨rfl, _⟩ := List.cons.inj hsplit
        exact .inl ht
      | cons u before =>
        obtain ⟨rfl, rfl⟩ := List.cons.inj hsplit
        right
        obtain ⟨e, htakes, hrefused, _⟩ | ⟨hs, hload⟩ := m.loadSegment_cases s
        · exact absurd (refusedAt_head htakes hrefused) (haccepts [] s e)
        · rw [hload]
          exact (ih (m.place [s])).2 ⟨before, t, others, rfl, (accepts_cons hs).1 haccepts, ht⟩

/-- Loading fails exactly if the memory refuses a segment. The error is that of the first one, and what has happened by
then is that the segments in front of it were placed; otherwise all were. -/
theorem load_stops_at_first_refused (m : Machine) (segments : List Segment) :
    ((∃ e, (load segments m).1 = .error e) ↔ ∃ before s e, m.RefusedAt segments before s e) ∧
      (∀ e, (load segments m).1 = .error e → ∃ before s, m.Accepts before ∧ m.RefusedAt segments before s e ∧
        (load segments m).2 = m.place before) ∧
      ((load segments m).1 = .ok () → (load segments m).2 = m.place segments ∧
        ∀ s ∈ segments, s.takesMemory = true → s.HeldBy s.block) ∧
      (loadOverflows segments m = true ↔
        ∃ before s rest, segments = before ++ s :: rest ∧ m.Accepts before ∧ s.overflows = true) := by
  refine ⟨?_, ?_, ?_, loadOverflows_iff segments m⟩ <;>
    obtain ⟨haccepts, hload⟩ | ⟨before, s, e, haccepts, hs, hload⟩ := load_cases segments m <;> rw [hload]
  · exact iff_of_false (by simp) fun ⟨before, s, e, hs⟩ => haccepts before s e hs
  · exact iff_of_true ⟨e, rfl⟩ ⟨before, s, e, hs⟩
  · exact nofun
  · rintro _ ⟨⟩
    exact ⟨before, s, haccepts, hs, rfl⟩
  · exact fun _ => ⟨rfl, fun s hs htakes => haccepts.heldBy_block hs htakes⟩
  · exact nofun

end Machine
end AArch64
