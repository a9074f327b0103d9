import AArch64.Proofs.Vectors.Forms

/-! Look-ups of bytes in a table that consecutive registers hold, and the extraction of neighbouring bytes of two
registers, which is such a look-up. -/
namespace AArch64

namespace State

variable (s : State)

/-- The bytes of a vector register, the lowest one first. -/
def registerBytes (r : Register) : List (BitVec 8) := (List.range 16).map (Lanes.get (s.vector r) 8)

/-- The bytes of this many registers one after the other. The first register comes after the last one. -/
def table : Register → Nat → List (BitVec 8)
  | _, 0 => []
  | r, n + 1 => s.registerBytes r ++ table r.next n

theorem length_registerBytes (r : Register) : (s.registerBytes r).length = 16 := by
  rw [registerBytes, List.length_map, List.length_range]

theorem length_table (r : Register) (n : Nat) : (s.table r n).length = 16 * n := by
  induction n generalizing r with
  | zero => rfl
  | succ n ih =>
    rw [table, List.length_append, length_registerBytes, ih]
    omega

/-- Where a byte of the table is in the registers. -/
theorem getElem?_table (r : Register) {n k : Nat} (hk : k < 16 * n) :
    (s.table r n)[k]? = some (Lanes.get (s.vector (r + BitVec.ofNat 5 (k / 16))) 8 (k % 16)) := by
  induction n generalizing r k with
  | zero => exact absurd hk (Nat.not_lt_zero k)
  | succ n ih =>
    have hlength := s.length_registerBytes r
    rw [table]
    by_cases hfirst : k < 16
    · rw [List.getElem?_append_left (by omega), Nat.div_eq_of_lt hfirst, Nat.mod_eq_of_lt hfirst]
      simp [registerBytes, hfirst]
    -- Behind the first register the table is that of the next one.
    · obtain ⟨j, rfl⟩ : ∃ j, k = j + 16 := ⟨k - 16, by omega⟩
      rw [List.getElem?_append_right (by omega), hlength, Nat.add_sub_cancel, ih _ (by omega),
        Nat.add_div_right j (by decide), Nat.add_mod_right, Register.next, BitVec.add_assoc]
      rw [Nat.add_comm _ 1, BitVec.ofNat_add]

theorem getElem?_table_two (r : Register) {k : Nat} (hk : k < 32) :
    (s.table r 2)[k]? = some (VectorOp.pairLane (s.vector r) (s.vector r.next) 8 16 k) := by
  rw [s.getElem?_table r (by omega), VectorOp.pairLane]
  split
  next hfirst => simp [Nat.div_eq_of_lt hfirst, Nat.mod_eq_of_lt hfirst]
  next hsecond =>
    have hsplit : k / 16 = 1 ∧ k % 16 = k - 16 := by omega
    rw [hsplit.1, hsplit.2]
    rfl

end State

namespace SimdInstruction

theorem tableByte?_eq (i : SimdInstruction) (s : State) (registers k : Nat) :
    tableByte? i s registers k = (s.table i.rn registers)[k]? := by
  rw [tableByte?]
  split
  next hk => exact (s.getElem?_table i.rn hk).symm
  next hk =>
    refine (List.getElem?_eq_none ?_).symm
    rw [s.length_table]
    exact Nat.not_lt.1 hk

theorem lookup_eq (i : SimdInstruction) (s : State) (registers : Nat) (extend : Bool) :
    lookup i s registers extend = Lanes.build 16 fun k =>
      (s.table i.rn registers)[(Lanes.get (s.vector i.rm) 8 k).toNat]?.getD
        (if extend then Lanes.get (s.vector i.rd) 8 k else 0) := by
  rw [lookup]
  refine Lanes.build_congr fun k _ => ?_
  simp only [tableByte?_eq, operands]
  cases (s.table i.rn registers)[(Lanes.get (s.vector i.rm) 8 k).toNat]? <;> rfl

end SimdInstruction

namespace InstructionWord

variable (w : InstructionWord)

/-- A look-up in a table of this many registers that gives zero for indices beyond the table, or keeps the old byte. -/
def IsTableLookup (registers : Nat) (extend : Bool) : Prop :=
  w.IsVectorForm ∧ w.isLookup = true ∧ w.number 14 13 + 1 = registers ∧ w.bit 12 = extend

instance (registers : Nat) (extend : Bool) : Decidable (w.IsTableLookup registers extend) :=
  inferInstanceAs (Decidable (_ ∧ _))

/-- The extraction of sixteen bytes of two registers, from a position in the first one on. -/
def IsExtraction (position : Nat) : Prop :=
  w.IsVectorForm ∧ w.isExtract = true ∧ w.bit 30 = true ∧ w.number 14 11 = position

instance (position : Nat) : Decidable (w.IsExtraction position) := inferInstanceAs (Decidable (_ ∧ _))

end InstructionWord

namespace SimdInstruction

open InstructionWord

variable {w : InstructionWord}

theorem decode_of_isTableLookup {registers : Nat} {extend : Bool} (h : w.IsTableLookup registers extend) :
    decode w = usual w (.lookup registers extend (w.bit 30)) := by
  obtain ⟨hform, hclass, rfl, rfl⟩ := h
  exact decode_of_lookup hform hclass

theorem decode_of_isExtraction {position : Nat} (h : w.IsExtraction position) :
    decode w = usualVector w (.extract position true) := by
  obtain ⟨hform, hclass, hfull, rfl⟩ := h
  rw [decode_of_extract hform hclass, decodeExtractVector]
  simp [hfull]

end SimdInstruction

namespace Machine

open InstructionWord Lanes

variable {w : InstructionWord} {registers : Nat} {extend : Bool}

theorem execute_tableLookup (h : w.IsTableLookup registers extend) (m : Machine) :
    (m.execute w).1 = .ok .ready ∧
      (m.execute w).2.state.vector w.rd = sized (build 16 fun i =>
        (m.state.table w.rn registers)[(get (m.state.vector w.rm) 8 i).toNat]?.getD
          (if extend then get (m.state.vector w.rd) 8 i else 0)) (w.bit 30) := by
  let i : SimdInstruction := { rd := w.rd, rn := w.rn, rm := w.rm, op := .lookup registers extend (w.bit 30) }
  let result : Flagged (BitVec 128) := pure (sized (i.lookup m.state registers extend) (w.bit 30))
  have heval : i.eval m.state = (do pure (.vector (← result))) := rfl
  obtain ⟨houtcome, hvector, _⟩ := m.execute_usual h.1.1 (SimdInstruction.decode_of_isTableLookup h) heval
  exact ⟨houtcome, hvector.trans (congrArg (sized · (w.bit 30)) (i.lookup_eq m.state registers extend))⟩

theorem execute_extraction {position : Nat} (h : w.IsExtraction position) (m : Machine) :
    (m.execute w).1 = .ok .ready ∧
      (m.execute w).2.state.vector w.rd = build 16 fun i =>
        VectorOp.pairLane (m.state.vector w.rn) (m.state.vector w.rm) 8 16 (position + i) := by
  obtain ⟨houtcome, hvector, _⟩ := m.execute_usualVector h.1.1 (SimdInstruction.decode_of_isExtraction h)
  exact ⟨houtcome, hvector⟩

/-- Look-ups in tables of one register or more, whichever registers the word names. Each byte that the index has in the
table as it was before the instruction goes to the destination, and an index beyond the table gives zero or leaves the
byte that was there. Half a vector has zeros above. The extraction of bytes of two neighbouring registers gives what a
look-up in both gives for as many indices in a row. -/
theorem table_lookup_bytes (h : w.IsTableLookup registers extend) (m : Machine) :
    let table := m.state.table w.rn registers
    let index (i : Nat) := (get (m.state.vector w.rm) 8 i).toNat
    let after := (m.execute w).2.state.vector w.rd
    (m.execute w).1 = .ok .ready ∧ table.length = 16 * registers ∧
      (∀ i < if w.bit 30 then 16 else 8,
        get after 8 i = table[index i]?.getD (if extend then get (m.state.vector w.rd) 8 i else 0)) ∧
      (w.bit 30 = false → ZeroFrom 64 after) ∧
      ∀ (position : Nat) (w' : InstructionWord) (m' : Machine), w'.IsExtraction position → w.bit 30 = true →
        extend = false → registers = 2 → (∀ i < 16, index i = position + i) →
        m'.state.vector w'.rn = m.state.vector w.rn → m'.state.vector w'.rm = m.state.vector w.rn.next →
        (m'.execute w').1 = .ok .ready ∧ (m'.execute w').2.state.vector w'.rd = after := by
  intro table index after
  obtain ⟨houtcome, hvector⟩ := m.execute_tableLookup h
  have hafter : after = _ := hvector
  refine ⟨houtcome, m.state.length_table _ _, fun i hi => ?_, fun hhalf => ?_,
    fun position w' m' h' hfull hextend htwo hindex hfirst hsecond => ?_⟩
  · have hend : (i + 1) * 8 ≤ if w.bit 30 then 128 else 64 := by
      cases hfull : w.bit 30 <;> simp [hfull] at hi ⊢ <;> omega
    have hin : i < 16 := by split at hi <;> omega
    rw [hafter, get_sized _ hend, get_build _ hin (by omega)]
  · rw [hafter, hhalf]
    exact zeroFrom_sized _ false
  · subst hextend htwo
    obtain ⟨houtcome', hvector'⟩ := m'.execute_extraction h'
    refine ⟨houtcome', ?_⟩
    rw [hvector', hafter, hfull, hfirst, hsecond]
    refine build_congr fun i hi => ?_
    have hindex : (get (m.state.vector w.rm) 8 i).toNat = position + i := hindex i hi
    -- The position has four bits, so no index is beyond the two registers.
    have hposition : position < 16 := by
      rw [← h'.2.2.2]
      exact w'.number_lt 14 11
    rw [hindex, m.state.getElem?_table_two w.rn (by omega), Option.getD_some]

/-- `TBX V0.8B, {V0.16B}, V0.8B`, which reads all its operands before it writes over them, and
`TBL V31.16B, {V31.16B, V0.16B}, V0.16B` beside `EXT V1.16B, V31.16B, V0.16B, #3`. -/
theorem table_lookup_bytes_aliased :
    let extend : InstructionWord := 0x0E001000#32
    let lookup : InstructionWord := 0x4E0023FF#32
    let extract : InstructionWord := 0x6E001BE1#32
    let m : Machine := withState {} (State.setVector (State.setVector {} 0#5 0x1211100F0E0D0C0B0A09080706050403#128)
      31#5 0xDEADBEEF00112233445566778899AABB#128)
    let after (w : InstructionWord) := (m.execute w).2.state.vector w.rd
    extend.IsTableLookup 1 true ∧ lookup.IsTableLookup 2 false ∧ extract.IsExtraction 3 ∧
      get (after extend) 8 0 = 0x06#8 ∧ after extract = after lookup := by
  intro extend lookup extract m after
  have hextend : extend.IsTableLookup 1 true := by decide
  have hlookup : lookup.IsTableLookup 2 false := by decide
  have hextract : extract.IsExtraction 3 := by decide
  obtain ⟨_, _, hbytes, _⟩ := table_lookup_bytes hextend m
  obtain ⟨_, _, _, _, hrow⟩ := table_lookup_bytes hlookup m
  obtain ⟨_, hsame⟩ := hrow 3 extract m hextract (by decide) rfl rfl (by decide +kernel) (by decide +kernel)
    (by decide +kernel)
  exact ⟨hextend, hlookup, hextract, (hbytes 0 (by decide)).trans (by decide +kernel), hsame⟩

end Machine
end AArch64
