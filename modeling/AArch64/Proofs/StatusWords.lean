import AArch64.StatusWords

/-! The words of the two status registers against their flags. Every word without reserved bits is that of its flags,
and each way to build or change a word is one to build or change the flags. -/
namespace AArch64

theorem and_not_eq_zero_iff {n : Nat} {x mask : BitVec n} :
    x &&& ~~~mask = 0#n ↔ ∀ i, x.getLsbD i = true → mask.getLsbD i = true := by
  constructor
  · intro h i hi
    have hbit := congrArg (BitVec.getLsbD · i) h
    have hlt := BitVec.lt_of_getLsbD hi
    simpa [hi, hlt] using hbit
  · intro h
    refine BitVec.eq_of_getLsbD_eq fun i hlt => ?_
    cases hi : x.getLsbD i with
    | false => simp [hi]
    | true => simp [h i hi, hlt]

theorem setBit_and_not {n i : Nat} {x mask : BitVec n} (h : x &&& ~~~mask = 0#n) (hi : mask.getLsbD i = true)
    (on : Bool) : Bits.setBit x i on &&& ~~~mask = 0#n := by
  rw [and_not_eq_zero_iff] at h ⊢
  intro j hj
  cases on with
  | false => exact h j (by simp_all [Bits.setBit])
  | true =>
    simp only [Bits.setBit, if_true, BitVec.getLsbD_or, BitVec.getLsbD_twoPow, Bool.or_eq_true, Bool.and_eq_true,
      decide_eq_true_eq] at hj
    obtain hj | ⟨-, rfl⟩ := hj
    · exact h j hj
    · exact hi

namespace Nzcv

theorem getLsbD_defined (i : Nat) : defined.getLsbD i = decide (28 ≤ i ∧ i < 32) := by
  by_cases h : i < 32
  · revert i
    decide
  · rw [BitVec.getLsbD_of_ge defined i (by omega)]
    simp [h]

theorem toBits_ofBits (x : BitVec 32) : (ofBits x).toBits = x &&& defined := by
  apply BitVec.eq_of_getLsbD_eq
  intro i hi
  rw [ofBits, toBits, nibble_ofNibble, BitVec.getLsbD_append, BitVec.getLsbD_and, getLsbD_defined,
    BitVec.getLsbD_extractLsb]
  by_cases h : i < 28
  · simp [h, Nat.not_le.2 h]
  · have hsum : 28 + (i - 28) = i := by omega
    simp [h, hi, hsum, Nat.not_lt.1 h]
    intro
    omega

theorem toBits_reserved (f : Nzcv) : f.toBits &&& ~~~defined = 0#32 := by
  rcases f with ⟨_ | _, _ | _, _ | _, _ | _⟩ <;> rfl

@[simp] theorem view_word (f : Nzcv) : f.word.view = f := by
  rcases f with ⟨_ | _, _ | _, _ | _, _ | _⟩ <;> rfl

end Nzcv

namespace NzcvWord

theorem ofBits_eq_word (x : BitVec 32) : ofBits x = (Nzcv.ofBits x).word := by
  rw [ofBits, Nzcv.word, Nzcv.toBits_ofBits]

theorem ofFlags_eq_word (n z c v : Bool) :
    ofFlags n z c v = Nzcv.word { negative := n, zero := z, carry := c, overflow := v } := by
  cases n <;> cases z <;> cases c <;> cases v <;> rfl

theorem ofNibble_eq_word (x : BitVec 4) : ofNibble (x.setWidth 32) = (Nzcv.ofNibble x).word := by
  revert x
  decide

theorem clean_word (f : Nzcv) : f.word.Clean := f.toBits_reserved

theorem clean_ofBits (x : BitVec 32) : (ofBits x).Clean := by
  rw [ofBits_eq_word]
  exact clean_word _

theorem clean_setFlag {r : NzcvWord} (h : r.Clean) (f : ConditionFlag) (on : Bool) : (r.setFlag f on).Clean :=
  setBit_and_not h (by cases f <;> rfl) on

/-- A word without reserved bits is that of its flags. -/
theorem exists_eq_word {r : NzcvWord} (h : r.Clean) : ∃ f : Nzcv, r = f.word := by
  refine ⟨Nzcv.ofBits r.bits, NzcvWord.ext (BitVec.eq_of_getLsbD_eq fun i _ => ?_)⟩
  have hbit := and_not_eq_zero_iff.1 h i
  rw [← ofBits_eq_word, ofBits, BitVec.getLsbD_and]
  cases hi : r.bits.getLsbD i with
  | false => rfl
  | true => rw [hbit hi, Bool.true_and]

end NzcvWord

namespace Fpsr

theorem getLsbD_defined (i : Nat) : defined.getLsbD i = decide (i ∈ [0, 1, 2, 3, 4, 7, 27]) := by
  by_cases h : i < 32
  · revert i
    decide
  · rw [BitVec.getLsbD_of_ge defined i (by omega)]
    simp
    omega

def bit (f : Fpsr) : (i : Nat) → Bool
  | 0 => f.invalidOperation
  | 1 => f.divideByZero
  | 2 => f.overflow
  | 3 => f.underflow
  | 4 => f.inexact
  | 7 => f.inputDenormal
  | 27 => f.saturation
  | _ => false

theorem getLsbD_toBits (f : Fpsr) (i : Nat) : f.toBits.getLsbD i = f.bit i := by
  unfold bit
  split <;> simp only [toBits, BitVec.getLsbD_append, BitVec.getLsbD_ofBool, BitVec.getLsbD_zero]
  case h_8 => grind
  all_goals simp

theorem toBits_ofBits (x : BitVec 32) : (ofBits x).toBits = x &&& defined := by
  apply BitVec.eq_of_getLsbD_eq
  intro i hi
  rw [getLsbD_toBits, BitVec.getLsbD_and, getLsbD_defined]
  unfold bit
  split <;> simp [ofBits]
  grind

theorem toBits_reserved (f : Fpsr) : f.toBits &&& ~~~defined = 0#32 := by
  have hkept : f.toBits &&& defined = f.toBits := by rw [← toBits_ofBits, ofBits_toBits]
  rw [← hkept, BitVec.and_assoc, BitVec.and_not_self]
  exact BitVec.and_zero

theorem bit_raise (f g : Fpsr) (i : Nat) : (f.raise g).bit i = (f.bit i || g.bit i) := by
  unfold bit
  split <;> rfl

end Fpsr

namespace FpsrWord

theorem ofBits_eq_word (x : BitVec 32) : ofBits x = (Fpsr.ofBits x).word := by
  rw [ofBits, Fpsr.word, Fpsr.toBits_ofBits]

theorem getLsbD_raiseFlag (r : FpsrWord) (f : StatusFlag) (raised : Bool) {i : Nat} (hi : i < 32) :
    (r.raiseFlag f raised).bits.getLsbD i = (r.bits.getLsbD i || (decide (i = f.place) && raised)) := by
  cases raised with
  | false => simp [raiseFlag]
  | true => simp [raiseFlag, setFlag, Bits.setBit, hi]

theorem raise_word (f g : Fpsr) : f.word.raise g = (f.raise g).word := by
  refine FpsrWord.ext (BitVec.eq_of_getLsbD_eq fun i hi => ?_)
  have hraised : (f.raise g).word.bits.getLsbD i = (f.bit i || g.bit i) :=
    ((f.raise g).getLsbD_toBits i).trans (f.bit_raise g i)
  have hbit : f.word.bits.getLsbD i = f.bit i := f.getLsbD_toBits i
  rw [hraised]
  simp only [raise, getLsbD_raiseFlag _ _ _ hi, hbit, StatusFlag.place, Bool.or_assoc]
  congr 1
  unfold Fpsr.bit
  split <;> simp
  grind

theorem clean_word (f : Fpsr) : f.word.Clean := f.toBits_reserved

theorem clean_ofBits (x : BitVec 32) : (ofBits x).Clean := by
  rw [ofBits_eq_word]
  exact clean_word _

theorem clean_setFlag {r : FpsrWord} (h : r.Clean) (f : StatusFlag) (on : Bool) : (r.setFlag f on).Clean :=
  setBit_and_not h (by cases f <;> rfl) on

/-- A word without reserved bits is that of its flags. -/
theorem exists_eq_word {r : FpsrWord} (h : r.Clean) : ∃ f : Fpsr, r = f.word := by
  refine ⟨Fpsr.ofBits r.bits, FpsrWord.ext (BitVec.eq_of_getLsbD_eq fun i _ => ?_)⟩
  have hbit := and_not_eq_zero_iff.1 h i
  rw [← ofBits_eq_word, ofBits, BitVec.getLsbD_and]
  cases hi : r.bits.getLsbD i with
  | false => rfl
  | true => rw [hbit hi, Bool.true_and]

end FpsrWord
end AArch64
