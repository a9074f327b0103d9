import AArch64.Decode.KeyTable

/-! Bounds of the fields that decoding looks at, and what holds of everything that comes out of a decoder. -/
namespace AArch64

namespace InstructionWord

variable (w : InstructionWord)

theorem number_lt (hi lo : Nat) : w.number hi lo < 2 ^ (hi - lo + 1) := BitVec.isLt _

theorem testBit_number (hi lo i : Nat) :
    (w.number hi lo).testBit i = (decide (i < hi - lo + 1) && w.bit (lo + i)) := by
  simp [number, bit, BitVec.testBit_toNat]

theorem bit_of_number {hi lo k i : Nat} (h : w.number hi lo = k) (hi' : i ≤ hi - lo) :
    w.bit (lo + i) = k.testBit i := by
  rw [← h, testBit_number, decide_eq_true (Nat.lt_succ_of_le hi'), Bool.true_and]

/-- A field as arithmetic on the word, in which fields that overlap can be compared. -/
theorem number_eq (hi lo : Nat) : w.number hi lo = w.toNat / 2 ^ lo % 2 ^ (hi - lo + 1) := by
  simp [number, BitVec.extractLsb_toNat, Nat.shiftRight_eq_div_pow]

theorem bit_eq_true (i : Nat) : w.bit i = true ↔ w.toNat / 2 ^ i % 2 = 1 := by
  simp [bit, BitVec.getLsbD, Nat.testBit_eq_decide_div_mod_eq]

theorem bit_eq_false (i : Nat) : w.bit i = false ↔ w.toNat / 2 ^ i % 2 = 0 := by
  rw [← Bool.not_eq_true, bit_eq_true]
  omega

theorem toNat_bit (i : Nat) : (w.bit i).toNat = w.toNat / 2 ^ i % 2 := by
  cases h : w.bit i with
  | false => exact ((w.bit_eq_false i).1 h).symm
  | true => exact ((w.bit_eq_true i).1 h).symm

variable {w} {w' : InstructionWord} {hi lo : Nat}

theorem extractLsb_congr (hle : lo ≤ hi) (h : ∀ i, lo ≤ i → i ≤ hi → w'.bit i = w.bit i) :
    w'.extractLsb hi lo = w.extractLsb hi lo := by
  apply BitVec.eq_of_getLsbD_eq
  intro i hi'
  have hbit : w'.getLsbD (lo + i) = w.getLsbD (lo + i) := h _ (by omega) (by omega)
  rw [BitVec.getLsbD_extractLsb, BitVec.getLsbD_extractLsb, hbit]

end InstructionWord

namespace KeyTable

theorem foldl_bits_lt (w : InstructionWord) (bits : List Nat) {k n : Nat} (hk : k < 2 ^ n) :
    bits.foldl (fun k i => 2 * k + (w.bit i).toNat) k < 2 ^ (n + bits.length) := by
  induction bits generalizing k n with
  | nil => exact hk
  | cons i bits ih =>
    have hbit : (w.bit i).toNat < 2 := Bool.toNat_lt _
    have hnext : 2 * k + (w.bit i).toNat < 2 ^ (n + 1) := by
      rw [Nat.pow_succ]
      omega
    have hrest := ih hnext
    rw [List.foldl_cons, List.length_cons]
    rwa [Nat.add_assoc, Nat.add_comm 1] at hrest

theorem key_lt_entries (t : KeyTable) (w : InstructionWord) : t.key w < t.entries := by
  have h := foldl_bits_lt w t.keyBits (k := 0) (n := 0) (by decide)
  rwa [Nat.zero_add] at h

theorem key_topLevel (w : InstructionWord) : topLevel.key w = w.number 28 25 := by
  simp only [topLevel, key, List.foldl_cons, List.foldl_nil, InstructionWord.toNat_bit, InstructionWord.number_eq]
  omega

theorem key_loadStore (w : InstructionWord) : loadStore.key w = 2 * w.number 29 28 + (w.bit 26).toNat := by
  simp only [loadStore, key, List.foldl_cons, List.foldl_nil, InstructionWord.toNat_bit, InstructionWord.number_eq]
  omega

theorem key_control (w : InstructionWord) : control.key w = w.number 31 29 := by
  simp only [control, key, List.foldl_cons, List.foldl_nil, InstructionWord.toNat_bit, InstructionWord.number_eq]
  omega

theorem key_immediate (w : InstructionWord) : immediate.key w = w.number 25 23 := by
  simp only [immediate, key, List.foldl_cons, List.foldl_nil, InstructionWord.toNat_bit, InstructionWord.number_eq]
  omega

theorem key_register (w : InstructionWord) :
    register.key w = 4 * (w.bit 28).toNat + 2 * (w.bit 24).toNat + (w.bit 21).toNat := by
  simp only [register, key, List.foldl_cons, List.foldl_nil]
  omega

theorem key_simdAndFloat (w : InstructionWord) :
    simdAndFloat.key w = 4 * (w.bit 28).toNat + 2 * (w.bit 30).toNat + (w.bit 24).toNat := by
  simp only [simdAndFloat, key, List.foldl_cons, List.foldl_nil]
  omega

theorem key_registerMisc (w : InstructionWord) : registerMisc.key w = w.number 23 22 := by
  simp only [registerMisc, key, List.foldl_cons, List.foldl_nil, InstructionWord.toNat_bit, InstructionWord.number_eq]
  omega

end KeyTable

/-- Whatever is decoded satisfies the predicate. -/
def Yields {α : Type} (e : Except DecodeError α) (P : α → Prop) : Prop := ∀ a, e = .ok a → P a

namespace Yields

variable {α β : Type} {P Q : α → Prop} {x y : Except DecodeError α}

theorem ok {a : α} (h : P a) : Yields (.ok a) P := by
  rintro b ⟨⟩
  exact h

theorem error (e : DecodeError) : Yields (.error e) P := nofun

theorem ite {c : Prop} [Decidable c] (hx : c → Yields x P) (hy : ¬c → Yields y P) :
    Yields (if c then x else y) P := by
  by_cases h : c
  · rw [if_pos h]
    exact hx h
  · rw [if_neg h]
    exact hy h

theorem guard {c : Prop} [Decidable c] {e : DecodeError} (h : ¬c → Yields x P) :
    Yields (if c then .error e else x) P :=
  ite (fun _ => error e) h

theorem require {c : Prop} [Decidable c] {e : DecodeError} (h : c → Yields x P) :
    Yields (if c then x else .error e) P :=
  ite h fun _ => error e

theorem map {f : α → β} {R : β → Prop} (h : Yields x fun a => R (f a)) : Yields (x.map f) R := by
  cases x with
  | error e => exact error e
  | ok a => exact ok (h a rfl)

theorem mono (h : Yields x P) (hPQ : ∀ a, P a → Q a) : Yields x Q :=
  fun a ha => hPQ a (h a ha)

theorem exists_map (h : Yields x P) (f : α → β) : Yields (x.map f) fun b => ∃ a, b = f a ∧ P a :=
  map (h.mono fun a ha => ⟨a, rfl, ha⟩)

end Yields
end AArch64
