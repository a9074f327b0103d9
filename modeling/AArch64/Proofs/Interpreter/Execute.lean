import AArch64.Interpreter.Execute
import AArch64.Proofs.Interpreter.Control
import AArch64.Proofs.Interpreter.Integer
import AArch64.Proofs.Interpreter.ScalarFloat
import AArch64.Proofs.Interpreter.Transfer

/-! Every word is carried out as its decoded instruction is, so the checks and the guards on the way never stop it. -/
namespace AArch64

namespace Interpreter

/-- No reserved bit is set in the words that hold the flags. -/
structure Clean (i : Interpreter) : Prop where
  nzcv : i.state.nzcv.Clean
  fpsr : i.state.fpsr.Clean

theorem Clean.exists_raw {i : Interpreter} (h : i.Clean) : ∃ m : Machine, m.raw = i := by
  obtain ⟨⟨registers, vectors, pc, nextPc, nzcv, fpsr, fpcr, tpidr⟩, memory, monitor, settings, status, error, instruction,
    retired, fault, callout, stackLimit⟩ := i
  obtain ⟨f, rfl⟩ := NzcvWord.exists_eq_word h.nzcv
  obtain ⟨g, rfl⟩ := FpsrWord.exists_eq_word h.fpsr
  let state : State := { registers, vectors, pc, nextPc, nzcv := f, fpsr := g, fpcr, tpidr }
  exact ⟨{ core := { state, memory, monitor }, settings, status, error, instruction, retired, fault, callout,
           stackLimit }, rfl⟩

end Interpreter

theorem Machine.clean_raw (m : Machine) : m.raw.Clean := ⟨NzcvWord.clean_word _, FpsrWord.clean_word _⟩

namespace Attempt

variable {m : Machine} {w : InstructionWord}

/-- Words on vectors need nothing of the memory. -/
theorem execute_eq_of_simd (hgroup : w.number 27 25 = 0b111) :
    execute w m.raw = some ((m.execute w).1, (m.execute w).2.raw) := by
  rw [m.execute_eq_executeDecoded, Instruction.decode_of_simd hgroup]
  have hkey : KeyTable.topLevel.key w = 7 ∨ KeyTable.topLevel.key w = 15 := by
    have htop := KeyTable.key_topLevel w
    simp only [InstructionWord.number_eq] at hgroup htop
    omega
  unfold execute dispatch
  rcases hkey with hkey | hkey
  · rw [hkey]
    exact simdAndFloat_eq
  · rw [hkey]
    exact simdAndFloat_eq

theorem execute_eq (h : m.core.memory.CacheInRange) :
    execute w m.raw = some ((m.execute w).1, (m.execute w).2.raw) := by
  have hkey : KeyTable.topLevel.key w < 16 := KeyTable.key_lt_entries _ w
  rw [m.execute_eq_executeDecoded]
  unfold execute dispatch Instruction.decode
  generalize KeyTable.topLevel.key w = key at hkey
  match key with
  | 0 => exact hostWord_eq
  | 1 | 2 | 3 => rfl
  | 4 | 6 | 12 | 14 => exact loadStore_eq h
  | 5 | 13 => exact dataProcessingRegister_eq
  | 7 | 15 => exact simdAndFloat_eq
  | 8 | 9 => exact dataProcessingImmediate_eq
  | 10 | 11 => exact branchExceptionSystem_eq
  | _ + 16 => exact absurd hkey (by omega)

theorem execute_of_raw_eq {n : Machine} (h : m.core.memory.CacheInRange) (hn : n.raw = m.raw) :
    (m.execute w).1 = (n.execute w).1 ∧ (m.execute w).2.raw = (n.execute w).2.raw := by
  have hcache : n.raw.memory.CacheInRange := by rwa [hn]
  have hrun : execute w n.raw = _ := execute_eq hcache
  rw [hn, execute_eq h] at hrun
  exact Prod.mk.inj (Option.some.inj hrun)

end Attempt

namespace Interpreter

variable {i i₁ i₂ : Interpreter}

/-- No table of the decoder is left, no shift field underflows and no element of a bit pattern is wider than a register.
With clean flags and a cache that names a block, both of which execution keeps up, carrying a word out meets nothing that
is out of range, and does what the machine does that stands behind the words. It ends in one of four ways or in one of
three errors, and a word that has no instruction leaves no trace. -/
theorem execute_total (hclean : i.Clean) (hcache : i.memory.CacheInRange) (w : InstructionWord) :
    (∀ t ∈ KeyTable.all, t.key w < t.entries) ∧
      (w.number 22 19 ≠ 0 →
        w.shiftSize.bits ≤ w.number 22 16 ∧ w.number 22 16 < 2 * w.shiftSize.bits) ∧
      (∀ esize, BitMasks.elementSize? (w.bit 22) (w.extractLsb 15 10) = some esize → 2 ≤ esize ∧ esize ≤ 64) ∧
      ∃ r i', Attempt.execute w i = some (r, i') ∧ i'.Clean ∧ i'.memory.CacheInRange ∧
        (∀ m : Machine, m.raw = i → r = (m.execute w).1 ∧ i' = (m.execute w).2.raw) ∧
        ((∃ c, r = .ok c) ∨ r = .error .unallocatedInstruction ∨ r = .error .notYetImplemented ∨
          r = .error .memoryException) ∧
        (r = .error .unallocatedInstruction ∨ r = .error .notYetImplemented → i' = i) := by
  obtain ⟨m, rfl⟩ := hclean.exists_raw
  refine ⟨fun t _ => t.key_lt_entries w, w.shiftSize_le_number, fun _ => BitMasks.elementSize?_bounds, (m.execute w).1,
    (m.execute w).2.raw, Attempt.execute_eq hcache, Machine.clean_raw _, Machine.cacheInRange_execute hcache w,
    fun n hn => Attempt.execute_of_raw_eq hcache hn, ?_, fun herror => ?_⟩
  · obtain ⟨e, _, he⟩ | ⟨j, _, hok | hmemory⟩ := m.execute_cases w
    · rw [he]
      cases e with
      | unallocated => exact .inr (.inl rfl)
      | notYetImplemented => exact .inr (.inr (.inl rfl))
    · exact .inl ⟨_, hok⟩
    · exact .inr (.inr (.inr hmemory))
  · obtain ⟨e, _, he⟩ | ⟨j, _, hok | hmemory⟩ := m.execute_cases w
    · rw [he]
    · simp [hok] at herror
    · simp [hmemory] at herror

/-- `STGP X0, X1, [X0], #16` with flags set, a fault pending, an address armed and a block in the cache. -/
theorem execute_total_stgp :
    let stgp : InstructionWord := 0x68808400#32
    let i : Interpreter :=
      { state := { nzcv := { bits := 0x60000000#32 }, fpsr := { bits := 0x08000001#32 } }
        memory := {
          blocks := [Block.ofBytes 0x1000#64 16 true []], active := some 0
          fault := some { address := 8#64, size := 4, access := .read } }
        monitor := some (0x1000#64, 8) }
    i.Clean ∧ i.memory.CacheInRange ∧ Attempt.execute stgp i = some (.error .notYetImplemented, i) := by
  intro stgp i
  have hclean : i.Clean := ⟨by decide, by decide⟩
  have hcache : i.memory.CacheInRange := fun j hj => by cases hj; decide
  obtain ⟨_, _, _, r, i', hrun, _, _, _, _, herror⟩ := execute_total hclean hcache stgp
  have hr : r = .error .notYetImplemented := by
    have hfirst : (Attempt.execute stgp i).map Prod.fst = some (.error .notYetImplemented) := by decide +kernel
    rw [hrun] at hfirst
    exact Option.some.inj hfirst
  rw [hr, herror (.inr hr)] at hrun
  exact ⟨hclean, hcache, hrun⟩

/-- Two runs of a word can end differently only if one of them comes to a memory exception, whatever is read and compared
on the way. -/
theorem execute_outcome_agree (hclean₁ : i₁.Clean) (hcache₁ : i₁.memory.CacheInRange) (hclean₂ : i₂.Clean)
    (hcache₂ : i₂.memory.CacheInRange) (w : InstructionWord) :
    ∃ r₁ i₁' r₂ i₂', Attempt.execute w i₁ = some (r₁, i₁') ∧ Attempt.execute w i₂ = some (r₂, i₂') ∧
      (r₁ = .error .unallocatedInstruction ↔ r₂ = .error .unallocatedInstruction) ∧
      (r₁ = .error .notYetImplemented ↔ r₂ = .error .notYetImplemented) ∧
      (∀ c₁ c₂, r₁ = .ok c₁ → r₂ = .ok c₂ → c₁ = c₂) ∧
      (r₁ ≠ r₂ → ∃ c, (r₁ = .ok c ∧ r₂ = .error .memoryException) ∨ (r₁ = .error .memoryException ∧ r₂ = .ok c)) := by
  obtain ⟨m₁, rfl⟩ := hclean₁.exists_raw
  obtain ⟨m₂, rfl⟩ := hclean₂.exists_raw
  refine ⟨_, _, _, _, Attempt.execute_eq hcache₁, Attempt.execute_eq hcache₂, ?_⟩
  obtain ⟨e₁, hd₁, he₁⟩ | ⟨j₁, hd₁, h₁⟩ := m₁.execute_cases w
  · obtain ⟨e₂, hd₂, he₂⟩ | ⟨j₂, hd₂, h₂⟩ := m₂.execute_cases w
    · cases hd₁.symm.trans hd₂
      simp [he₁, he₂]
    · cases hd₁.symm.trans hd₂
  · obtain ⟨e₂, hd₂, he₂⟩ | ⟨j₂, hd₂, h₂⟩ := m₂.execute_cases w
    · cases hd₁.symm.trans hd₂
    · cases hd₁.symm.trans hd₂
      obtain h₁ | h₁ := h₁ <;> obtain h₂ | h₂ := h₂ <;> simp [h₁, h₂]

/-- `LDR X0, [X1]` where the first machine has the eight bytes at 0 and the second one has seven of them. -/
theorem execute_outcome_agree_load :
    let load : InstructionWord := 0xF9400020#32
    let i (len : Nat) : Interpreter := { memory := { blocks := [Block.ofBytes 0#64 len false []] } }
    (i 8).Clean ∧ (i 8).memory.CacheInRange ∧ (i 7).Clean ∧ (i 7).memory.CacheInRange ∧
      ∃ i₁ i₂, Attempt.execute load (i 8) = some (.ok .ready, i₁) ∧
        Attempt.execute load (i 7) = some (.error .memoryException, i₂) := by
  intro load i
  have hclean (len : Nat) : (i len).Clean :=
    ⟨show NzcvWord.Clean {} by decide, show FpsrWord.Clean {} by decide⟩
  have hcache (len : Nat) : (i len).memory.CacheInRange := nofun
  obtain ⟨r₁, i₁, r₂, i₂, h₁, h₂, _, _, _, hdiffer⟩ :=
    execute_outcome_agree (hclean 8) (hcache 8) (hclean 7) (hcache 7) load
  have hr₁ : r₁ = .ok .ready := by
    have hfirst : (Attempt.execute load (i 8)).map Prod.fst = some (.ok .ready) := by decide +kernel
    rw [h₁] at hfirst
    exact Option.some.inj hfirst
  have hr : r₂ ≠ .ok .ready := by
    have hsecond : (Attempt.execute load (i 7)).map Prod.fst ≠ some (.ok .ready) := by decide +kernel
    rw [h₂] at hsecond
    exact fun h => hsecond (congrArg some h)
  obtain ⟨c, ⟨_, hr₂⟩ | ⟨hr₂, _⟩⟩ := hdiffer (hr₁ ▸ hr.symm)
  · exact ⟨hclean 8, hcache 8, hclean 7, hcache 7, i₁, i₂, hr₁ ▸ h₁, hr₂ ▸ h₂⟩
  · exact absurd (hr₂.symm.trans hr₁) nofun

end Interpreter
end AArch64
