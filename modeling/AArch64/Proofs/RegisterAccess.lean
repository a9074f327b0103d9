import AArch64.Proofs.Memory.Ranges
import AArch64.Proofs.StatusFlags
import AArch64.Proofs.Vectors.Lanewise

/-! The registers as a debugger reaches them, by number. Every number stands for storage of its own, which gives back what
was written to it but for the reserved bits of the two system registers. -/
namespace AArch64

namespace DebugRegister

variable {q r : DebugRegister} {n available : Nat}

def number : DebugRegister → Nat
  | general r => r.toNat
  | vectorLow r => 32 + r.toNat
  | pc => 64
  | nzcv => 65
  | fpsr => 66

theorem ofNumber?_number (r : DebugRegister) : ofNumber? r.number = some r := by
  cases r with
  | general r =>
    have hlt : r.toNat < 32 := r.isLt
    simp [ofNumber?, number, hlt]
  | vectorLow r =>
    have hlt : 32 + r.toNat < 64 := Nat.add_lt_add_left r.isLt 32
    simp [ofNumber?, number, hlt]
  | pc | nzcv | fpsr => rfl

theorem ofNumber?_eq_some_iff : ofNumber? n = some r ↔ n = r.number := by
  refine ⟨fun h => ?_, fun h => h ▸ ofNumber?_number r⟩
  unfold ofNumber? at h
  split at h
  · next hlt =>
    obtain rfl := Option.some.inj h
    exact (Nat.mod_eq_of_lt hlt).symm
  · split at h
    · next hlow hlt =>
      obtain rfl := Option.some.inj h
      rw [number, BitVec.toNat_ofNat, Nat.mod_eq_of_lt (by omega)]
      omega
    · split at h
      · next heq =>
        obtain rfl := Option.some.inj h
        exact heq
      · grind [number]

theorem number_inj (h : q.number = r.number) : q = r := by
  have hsome := h ▸ ofNumber?_number q
  exact Option.some.inj (hsome.symm.trans (ofNumber?_number r))

theorem ofNumber?_eq_none_iff : ofNumber? n = none ↔ 66 < n := by
  unfold ofNumber?
  grind

/-- What a register keeps of a word that is put into it. -/
def kept (r : DebugRegister) (x : BitVec 64) : BitVec 64 :=
  match r with
  | general _ | vectorLow _ | pc => x
  | nzcv => x &&& Nzcv.defined.setWidth 64
  | fpsr => x &&& Fpsr.defined.setWidth 64

theorem get_set_self (r : DebugRegister) (x : BitVec 64) (s : State) : r.get (r.set x s) = r.kept x := by
  have hsystem (d : BitVec 32) : (x.setWidth 32 &&& d).setWidth 64 = x &&& d.setWidth 64 := by
    apply BitVec.eq_of_getLsbD_eq
    intro i hi
    by_cases h32 : i < 32
    · simp [hi, h32]
    · simp [hi, h32, BitVec.getLsbD_of_ge d i (Nat.not_lt.1 h32)]
  cases r with
  | general r => simp [get, set, kept, State.read_write]
  | vectorLow r => simp [get, set, kept, Lanes.get_set_self]
  | pc => rfl
  | nzcv =>
    rw [kept, ← hsystem, ← Nzcv.toBits_ofBits]
    rfl
  | fpsr =>
    rw [kept, ← hsystem, ← Fpsr.toBits_ofBits]
    rfl

theorem get_set_of_ne (h : q ≠ r) (x : BitVec 64) (s : State) : q.get (r.set x s) = q.get s := by
  cases r with
  | general r =>
    cases q with
    | general q =>
      have hne : q ≠ r := fun heq => h (congrArg general heq)
      rw [get, set, State.read_write, if_neg fun hq => hne hq.1, get]
    | _ => rfl
  | vectorLow r =>
    cases q with
    | vectorLow q =>
      have hne : q ≠ r := fun heq => h (congrArg vectorLow heq)
      rw [get, set, State.vector_setVector, if_neg hne, get]
    | _ => rfl
  | pc =>
    cases q with
    | pc => exact absurd rfl h
    | _ => rfl
  | nzcv =>
    cases q with
    | nzcv => exact absurd rfl h
    | _ => rfl
  | fpsr =>
    cases q with
    | fpsr => exact absurd rfl h
    | _ => rfl

/-- Whether an access is refused: there is no register with that number, or the bytes are too few for it. -/
def Refused (n available : Nat) : Prop := 66 < n ∨ available < if n ≤ 64 then 8 else 4

instance (n available : Nat) : Decidable (Refused n available) := inferInstanceAs (Decidable (_ ∨ _))

theorem width_eq (r : DebugRegister) : r.width = if r.number ≤ 64 then 8 else 4 := by
  cases r with
  | general r =>
    have hlt : r.toNat < 32 := r.isLt
    rw [number, if_pos (by omega)]
    rfl
  | vectorLow r =>
    have hlt : r.toNat < 32 := r.isLt
    rw [number, if_pos (by omega)]
    rfl
  | pc | nzcv | fpsr => rfl

theorem fitting?_eq_some_iff : fitting? n available = some r ↔ n = r.number ∧ r.width ≤ available := by
  rw [fitting?, ← ofNumber?_eq_some_iff]
  cases ofNumber? n with
  | none => simp
  | some q =>
    dsimp only
    by_cases hle : q.width ≤ available
    · rw [if_pos hle, Option.some.injEq]
      exact (and_iff_left_of_imp fun heq => heq ▸ hle).symm
    · rw [if_neg hle, Option.some.injEq]
      refine ⟨nofun, fun h => ?_⟩
      exact absurd (h.1 ▸ h.2) hle

theorem fitting?_of_refused (h : Refused n available) : fitting? n available = none := by
  refine Option.eq_none_iff_forall_ne_some.2 fun r hr => ?_
  obtain ⟨rfl, hle⟩ := fitting?_eq_some_iff.1 hr
  have hnumber : ¬66 < r.number := fun hgt => nomatch (ofNumber?_number r).symm.trans (ofNumber?_eq_none_iff.2 hgt)
  exact Nat.not_le.2 (h.resolve_left hnumber) (r.width_eq ▸ hle)

theorem exists_fitting? (h : ¬Refused n available) :
    ∃ r, n = r.number ∧ r.width ≤ available ∧ fitting? n available = some r := by
  obtain ⟨hnumber, hwidth⟩ := not_or.1 h
  obtain ⟨r, hr⟩ := Option.ne_none_iff_exists'.1 (mt ofNumber?_eq_none_iff.1 hnumber)
  obtain rfl := ofNumber?_eq_some_iff.1 hr
  have hle : r.width ≤ available := r.width_eq ▸ Nat.not_lt.1 hwidth
  exact ⟨r, rfl, hle, fitting?_eq_some_iff.2 ⟨rfl, hle⟩⟩

/-- What is left of the bytes written to the register with that number. -/
def keptBytes (n : Nat) (bytes : List (BitVec 8)) : List (BitVec 8) :=
  if n ≤ 64 then bytes.take 8
  else List.zipWith (· &&& ·) (bytes.take 4) (Word.bytes 4 (if n = 65 then Nzcv.defined else Fpsr.defined))

/-- The word that a register is given. -/
def word (r : DebugRegister) (bytes : List (BitVec 8)) : BitVec 64 :=
  (Word.ofBytes r.width fun i => bytes.getD i 0#8).setWidth 64

theorem bytes_kept {r : DebugRegister} {bytes : List (BitVec 8)} (h : r.width ≤ bytes.length) :
    Word.bytes r.width (r.kept (r.word bytes)) = keptBytes r.number bytes := by
  have htake : Word.bytes r.width (r.word bytes) = bytes.take r.width := by
    have hle : 8 * r.width ≤ 64 := by cases r <;> simp [width]
    rw [word, Word.bytes_setWidth_of_le _ hle, Word.bytes_ofBytes]
    refine List.ext_getElem (by simp [h]) fun i hi hi' => ?_
    simp only [List.length_map, List.length_range] at hi
    simp [List.getElem?_eq_getElem (Nat.lt_of_lt_of_le hi h)]
  have hsystem (x : BitVec 64) (d : BitVec 32) :
      Word.bytes 4 (x &&& d.setWidth 64) = List.zipWith (· &&& ·) (Word.bytes 4 x) (Word.bytes 4 d) := by
    rw [Word.bytes_and, Word.bytes_setWidth_of_le d (by decide)]
  cases r with
  | general r =>
    have hlt : r.toNat < 32 := r.isLt
    rw [keptBytes, number, if_pos (by omega)]
    exact htake
  | vectorLow r =>
    have hlt : r.toNat < 32 := r.isLt
    rw [keptBytes, number, if_pos (by omega)]
    exact htake
  | pc => exact htake
  | nzcv => exact (hsystem _ _).trans (congrArg (List.zipWith (· &&& ·) · _) htake)
  | fpsr => exact (hsystem _ _).trans (congrArg (List.zipWith (· &&& ·) · _) htake)

/-- The upper halves of the vector registers have no number. -/
theorem upper_set (r : DebugRegister) (x : BitVec 64) (s : State) (v : Register) :
    Lanes.get ((r.set x s).vector v) 64 1 = Lanes.get (s.vector v) 64 1 := by
  cases r with
  | vectorLow r =>
    rw [set, State.vector_setVector]
    split
    · next heq => rw [heq, Lanes.get_set_of_ne _ _ (by decide)]
    · rfl
  | _ => rfl

end DebugRegister

namespace Machine

open DebugRegister

variable (m : Machine)

/-- The buffer that a host reads a register into, whatever comes of it. -/
def bufferAfter (n : Nat) (buffer : List (BitVec 8)) : List (BitVec 8) :=
  ((m.readRegister n buffer).toOption.map Prod.snd).getD buffer

theorem readRegister_of_refused {n : Nat} {buffer : List (BitVec 8)} (h : Refused n buffer.length) :
    m.readRegister n buffer = .error .clientError := by
  rw [readRegister, fitting?_of_refused h]

theorem writeRegister_of_refused {n : Nat} {bytes : List (BitVec 8)} (h : Refused n bytes.length) :
    m.writeRegister n bytes = .error .clientError := by
  rw [writeRegister, fitting?_of_refused h]

theorem readRegister_eq {n : Nat} {buffer : List (BitVec 8)} (h : ¬Refused n buffer.length) :
    ∃ r : DebugRegister, n = r.number ∧
      m.readRegister n buffer = .ok (r.width, Word.bytes r.width (r.get m.state) ++ buffer.drop r.width) := by
  obtain ⟨r, rfl, -, hr⟩ := exists_fitting? h
  exact ⟨r, rfl, by rw [readRegister, hr]⟩

theorem writeRegister_eq {n : Nat} {bytes : List (BitVec 8)} (h : ¬Refused n bytes.length) :
    ∃ r : DebugRegister, n = r.number ∧ r.width ≤ bytes.length ∧
      m.writeRegister n bytes = .ok (m.withState (r.set (r.word bytes) m.state)) := by
  obtain ⟨r, rfl, hle, hr⟩ := exists_fitting? h
  exact ⟨r, rfl, hle, by rw [writeRegister, hr]; rfl⟩

/-- An access to a register is refused where there is no such register or too few bytes, and then changes nothing. What
a register was given is what it gives back, but for reserved bits, and nothing is read differently under any other
number. Out of reach are the upper halves of the vector registers, the memory and the state of the run. The staged
program counter follows the program counter. -/
theorem register_read_back (n : Nat) (bytes buffer : List (BitVec 8)) :
    (m.writeRegister n bytes = .error .clientError ↔ Refused n bytes.length) ∧
      (Refused n bytes.length → m.perform (.writeRegister n bytes) = m) ∧
      (m.readRegister n buffer = .error .clientError ↔ Refused n buffer.length) ∧
      (Refused n buffer.length → m.bufferAfter n buffer = buffer) ∧
      (¬Refused n bytes.length → ∃ m', m.writeRegister n bytes = .ok m' ∧
        (¬Refused n buffer.length →
          let width := if n ≤ 64 then 8 else 4
          m'.readRegister n buffer = .ok (width, keptBytes n bytes ++ buffer.drop width)) ∧
        (∀ k ≠ n, ∀ buffer, m'.readRegister k buffer = m.readRegister k buffer) ∧
        (∀ v, Lanes.get (m'.state.vector v) 64 1 = Lanes.get (m.state.vector v) 64 1) ∧
        m' = m.withState m'.state ∧ m'.status = m.status ∧ m'.error = m.error ∧ m'.core.memory = m.core.memory ∧
        (n = 64 → m'.state.nextPc = m'.state.pc)) := by
  refine ⟨⟨fun h => ?_, m.writeRegister_of_refused⟩, fun h => ?_, ⟨fun h => ?_, m.readRegister_of_refused⟩, fun h => ?_,
    fun h => ?_⟩
  · refine Decidable.byContradiction fun hfits => ?_
    obtain ⟨r, -, -, hwrite⟩ := m.writeRegister_eq hfits
    cases h.symm.trans hwrite
  · rw [perform, m.writeRegister_of_refused h]
    rfl
  · refine Decidable.byContradiction fun hfits => ?_
    obtain ⟨r, -, hread⟩ := m.readRegister_eq hfits
    cases h.symm.trans hread
  · rw [bufferAfter, m.readRegister_of_refused h]
    rfl
  · obtain ⟨r, rfl, hle, hwrite⟩ := m.writeRegister_eq h
    refine ⟨_, hwrite, fun hfits => ?_, fun k hk buffer => ?_, fun v => upper_set r _ _ v, rfl, rfl, rfl, rfl, fun hpc => ?_⟩
    · obtain ⟨q, hq, hread⟩ := readRegister_eq (m.withState (r.set (r.word bytes) m.state)) hfits
      obtain rfl := number_inj hq
      have hget : r.get (m.withState (r.set (r.word bytes) m.state)).state = r.kept (r.word bytes) :=
        get_set_self r _ _
      rw [hread, hget, bytes_kept hle, r.width_eq]
    · by_cases hfits : Refused k buffer.length
      · rw [readRegister_of_refused _ hfits, readRegister_of_refused _ hfits]
      · obtain ⟨q, rfl, -, hq⟩ := exists_fitting? hfits
        have hne : q ≠ r := fun heq => hk (congrArg number heq)
        have hget : q.get (m.withState (r.set (r.word bytes) m.state)).state = q.get m.state := get_set_of_ne hne _ _
        rw [readRegister, readRegister, hq]
        simp only [hget]
    · obtain rfl : r = pc := number_inj hpc
      rfl

/-- Nine bytes for the low half of the last vector register, ones for the status register, and a number past the last. -/
theorem register_read_back_last_numbers :
    let m : Machine := withState {} (State.setVector {} 31#5 (BitVec.allOnes 128))
    let bytes := [1#8, 2#8, 3#8, 4#8, 5#8, 6#8, 7#8, 8#8, 9#8]
    let buffer := List.replicate 9 0xAA#8
    (∃ m', m.writeRegister 63 bytes = .ok m' ∧
        m'.readRegister 63 buffer = .ok (8, [1#8, 2#8, 3#8, 4#8, 5#8, 6#8, 7#8, 8#8, 0xAA#8]) ∧
        m'.readRegister 64 buffer = m.readRegister 64 buffer ∧ Lanes.get (m'.state.vector 31#5) 64 1 = BitVec.allOnes 64) ∧
      (∃ m', m.writeRegister 66 (List.replicate 4 0xFF#8) = .ok m' ∧
        m'.readRegister 66 buffer = .ok (4, [0x9F#8, 0#8, 0#8, 8#8, 0xAA#8, 0xAA#8, 0xAA#8, 0xAA#8, 0xAA#8])) ∧
      m.writeRegister 67 bytes = .error .clientError := by
  intro m bytes buffer
  obtain ⟨-, -, -, -, hvector⟩ := m.register_read_back 63 bytes buffer
  obtain ⟨-, -, -, -, hstatus⟩ := m.register_read_back 66 (List.replicate 4 0xFF#8) buffer
  obtain ⟨⟨-, hrefused⟩, -⟩ := m.register_read_back 67 bytes buffer
  obtain ⟨m₁, hwrite₁, hread₁, hothers, hupper, -⟩ := hvector (by decide)
  obtain ⟨m₂, hwrite₂, hread₂, -⟩ := hstatus (by decide)
  refine ⟨⟨m₁, hwrite₁, (hread₁ (by decide)).trans (congrArg Except.ok (by decide)), hothers 64 (by decide) buffer, ?_⟩,
    ⟨m₂, hwrite₂, (hread₂ (by decide)).trans (congrArg Except.ok (by decide))⟩, hrefused (by decide)⟩
  exact (hupper 31#5).trans (by decide)

end Machine
end AArch64
