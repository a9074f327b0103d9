import AArch64.Proofs.Interpreter.Host
import AArch64.Proofs.StatusFlags

/-! The bits of the flags and of the status register through execution and over a history. -/
namespace AArch64

namespace Machine

open InstructionWord

variable {w : InstructionWord}

/-- A status bit stays set, and a new one is IOC, DZC or QC. -/
theorem getLsbD_fpsr_execute (m : Machine) (hw : ¬w.WritesFpsr) (k : Nat) :
    (m.state.fpsr.toBits.getLsbD k = true → (m.execute w).2.state.fpsr.toBits.getLsbD k = true) ∧
      ((m.execute w).2.state.fpsr.toBits.getLsbD k = true →
        m.state.fpsr.toBits.getLsbD k = true ∨ k ∈ [0, 1, 27]) := by
  obtain ⟨r, hr, hraised⟩ := m.fpsr_execute hw
  rw [hraised, Fpsr.getLsbD_toBits, Fpsr.getLsbD_toBits, Fpsr.bit_raise, Bool.or_eq_true]
  refine ⟨.inl, Or.imp_right fun hk => ?_⟩
  have hraisable := hr k hk
  rw [Fpsr.bit_raisable] at hraisable
  exact of_decide_eq_true hraisable

theorem fpsr_execute_of_writesFpsr (m : Machine) (hw : w.WritesFpsr) :
    (m.execute w).2.state.fpsr.toBits = (m.state.read 64 w.rd).setWidth 32 &&& Fpsr.defined := by
  rw [state_execute_of_writesSystem (n := 0xDA21#16) m hw (by decide) rfl rfl]
  exact Fpsr.toBits_ofBits _

theorem nzcv_execute_of_writesNzcv (m : Machine) (hw : w.WritesNzcv) :
    (m.execute w).2.state.nzcv.toBits = (m.state.read 64 w.rd).setWidth 32 &&& Nzcv.defined := by
  rw [state_execute_of_writesSystem (n := 0xDA10#16) m hw (by decide) rfl rfl]
  exact Nzcv.toBits_ofBits _

end Machine

namespace Interpreter

variable {i : Interpreter}

theorem clean_after {settings : Settings} {history : List Action} {j : Interpreter}
    (h : after settings history = some j) : j.Clean := by
  rw [after_eq] at h
  cases h
  exact Machine.clean_raw _

/-- No word but `MSR FPSR` clears a status bit, and none sets another than IOC, DZC and QC. `MSR` and the debugger mask a
raw value, and no history of operations and executed words leaves a reserved bit set in either of the two registers. -/
theorem status_flags_sticky_and_reserved_clear (hclean : i.Clean) (hcache : i.memory.CacheInRange) (w : InstructionWord) :
    (∃ r i', Attempt.execute w i = some (r, i') ∧
      (∀ m : Machine, m.raw = i → i' = (m.execute w).2.raw) ∧
      (¬w.WritesFpsr → ∀ k,
        (i.state.fpsr.bits.getLsbD k = true → i'.state.fpsr.bits.getLsbD k = true) ∧
          (i'.state.fpsr.bits.getLsbD k = true → i.state.fpsr.bits.getLsbD k = true ∨ k ∈ [0, 1, 27])) ∧
      (w.WritesFpsr → i'.state.fpsr.bits = (i.state.registers.get w.rd .zero).setWidth 32 &&& Fpsr.defined) ∧
      (w.WritesNzcv → i'.state.nzcv.bits = (i.state.registers.get w.rd .zero).setWidth 32 &&& Nzcv.defined)) ∧
      (∀ x, (DebugRegister.fpsr.setWord x i.state).fpsr.bits = x.setWidth 32 &&& Fpsr.defined ∧
        (DebugRegister.nzcv.setWord x i.state).nzcv.bits = x.setWidth 32 &&& Nzcv.defined) ∧
      ∀ (settings : Settings) (history : List Action), ∃ j, after settings history = some j ∧
        j.state.nzcv.bits &&& ~~~0xF0000000#32 = 0#32 ∧ j.state.fpsr.bits &&& ~~~0x0800009F#32 = 0#32 := by
  refine ⟨?_, fun x => ⟨rfl, rfl⟩, fun settings history => ?_⟩
  · obtain ⟨m, rfl⟩ := hclean.exists_raw
    have hread : m.state.read 64 w.rd = m.raw.state.registers.get w.rd .zero := BitVec.setWidth_eq _
    refine ⟨_, _, Attempt.execute_eq hcache, fun n hn => (Attempt.execute_of_raw_eq hcache hn).2,
      fun hw k => m.getLsbD_fpsr_execute hw k, fun hw => ?_, fun hw => ?_⟩
    · rw [← hread]
      exact m.fpsr_execute_of_writesFpsr hw
    · rw [← hread]
      exact m.nzcv_execute_of_writesNzcv hw
  · have hafter := after_eq settings history
    have hwords := clean_after hafter
    exact ⟨_, hafter, hwords.nzcv, hwords.fpsr⟩

/-- `FDIV S0, S1, S2` of zeros adds IOC to QC. -/
theorem status_flags_sticky_and_reserved_clear_divide :
    let divide : InstructionWord := 0x1E221820#32
    let i : Interpreter := { state := { fpsr := { bits := 0x08000000#32 } } }
    i.Clean ∧ i.memory.CacheInRange ∧ ¬divide.WritesFpsr ∧
      ∃ r i', Attempt.execute divide i = some (r, i') ∧ i'.state.fpsr.bits.getLsbD 27 = true ∧
        i'.state.fpsr.bits.getLsbD 0 = true := by
  intro divide i
  have hclean : i.Clean := ⟨by decide, by decide⟩
  have hcache : i.memory.CacheInRange := nofun
  have hw : ¬divide.WritesFpsr := by decide
  obtain ⟨⟨r, i', hrun, _, hsticky, _⟩, _⟩ := status_flags_sticky_and_reserved_clear hclean hcache divide
  have hraised : (Attempt.execute divide i).map (·.2.state.fpsr.bits) = some 0x08000001#32 := by decide +kernel
  rw [hrun] at hraised
  have hbits : i'.state.fpsr.bits = 0x08000001#32 := Option.some.inj hraised
  exact ⟨hclean, hcache, hw, r, i', hrun, (hsticky hw 27).1 (by decide), by rw [hbits]; decide⟩

end Interpreter
end AArch64
