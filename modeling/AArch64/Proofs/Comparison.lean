import AArch64.Condition
import AArch64.State

/-! What the conditions say after a comparison. The flags of a difference decide every order of its operands, signed
and unsigned, also where the difference itself does not fit into a word. -/
namespace AArch64

def FitsSigned (w : Nat) (x : Int) : Prop :=
  -(2 ^ (w - 1) : Nat) ≤ x ∧ x < (2 ^ (w - 1) : Nat)

section Sums

variable {w : Nat}

/-- A word with the sign bit set stands for its pattern less the number of all patterns. -/
theorem toInt_cases (x : BitVec w) (hw : 0 < w) :
    x.msb = false ∧ x.toNat < 2 ^ (w - 1) ∧ x.toInt = x.toNat ∨
      x.msb = true ∧ 2 ^ (w - 1) ≤ x.toNat ∧ x.toInt = x.toNat - (2 ^ w : Nat) := by
  have hhalves := Nat.two_pow_pred_mul_two hw
  rw [BitVec.toInt_eq_toNat_cond, BitVec.msb_eq_decide]
  by_cases h : 2 ^ (w - 1) ≤ x.toNat
  · exact .inr ⟨decide_eq_true h, h, if_neg (by omega)⟩
  · exact .inl ⟨decide_eq_false h, Nat.lt_of_not_le h, if_pos (by omega)⟩

theorem fitsSigned_toInt (x : BitVec w) (hw : 0 < w) : FitsSigned w x.toInt := by
  have hhalves := Nat.two_pow_pred_mul_two hw
  have hx := x.isLt
  obtain ⟨_, _, h⟩ | ⟨_, _, h⟩ := toInt_cases x hw <;> constructor <;> omega

theorem toInt_complement (x : BitVec w) (hw : 0 < w) : (~~~x).toInt = -x.toInt - 1 := by
  have hhalves := Nat.two_pow_pred_mul_two hw
  have hx := x.isLt
  have hnot : (~~~x).toNat = 2 ^ w - 1 - x.toNat := BitVec.toNat_not
  obtain ⟨_, _, h⟩ | ⟨_, _, h⟩ := toInt_cases x hw <;>
    obtain ⟨_, _, h'⟩ | ⟨_, _, h'⟩ := toInt_cases (~~~x) hw <;> omega

theorem toNat_addWithCarry (a b : BitVec w) (c : Bool) :
    (addWithCarry a b c).result.toNat + 2 ^ w * (addWithCarry a b c).flags.carry.toNat =
      a.toNat + b.toNat + c.toNat := by
  have hsum : (addWithCarry a b c).result.toNat = (a.toNat + b.toNat + c.toNat) % 2 ^ w := by
    simp [addWithCarry, Nat.add_mod]
  have hcarry : (addWithCarry a b c).flags.carry = decide (2 ^ w ≤ a.toNat + b.toNat + c.toNat) := rfl
  have ha := a.isLt
  have hb := b.isLt
  have hc := c.toNat_le
  rw [hsum, hcarry]
  by_cases h : 2 ^ w ≤ a.toNat + b.toNat + c.toNat
  · rw [Nat.mod_eq_sub_mod h, Nat.mod_eq_of_lt (by omega), decide_eq_true h, Bool.toNat_true]
    omega
  · rw [Nat.mod_eq_of_lt (by omega), decide_eq_false h]
    simp

/-- Without overflow the signed result is the exact sum. With overflow it is on the wrong side of zero. -/
theorem toInt_addWithCarry (a b : BitVec w) (c : Bool) (hw : 0 < w) :
    let s := addWithCarry a b c
    let exact : Int := a.toInt + b.toInt + c.toNat
    s.flags.overflow = false ∧ s.result.toInt = exact ∨
      s.flags.overflow = true ∧ s.flags.negative = false ∧ exact < -(2 ^ (w - 1) : Nat) ∨
      s.flags.overflow = true ∧ s.flags.negative = true ∧ (2 ^ (w - 1) : Nat) ≤ exact := by
  intro s exact
  have hsum : s.result.toNat + 2 ^ w * s.flags.carry.toNat = a.toNat + b.toNat + c.toNat := toNat_addWithCarry a b c
  have hoverflow : s.flags.overflow = (a.msb == b.msb && a.msb != s.result.msb) := rfl
  have hnegative : s.flags.negative = s.result.msb := rfl
  have hexact : exact = a.toInt + b.toInt + c.toNat := rfl
  have hcarry : s.flags.carry.toNat = 0 ∨ s.flags.carry.toNat = 1 := by cases s.flags.carry <;> simp
  have hc := c.toNat_le
  have ha := toInt_cases a hw
  have hb := toInt_cases b hw
  have hs := toInt_cases s.result hw
  have hbounds : a.toNat < 2 ^ w ∧ b.toNat < 2 ^ w ∧ s.result.toNat < 2 ^ w := ⟨a.isLt, b.isLt, s.result.isLt⟩
  rw [hoverflow, hnegative]
  rw [← Nat.two_pow_pred_mul_two hw] at hsum ha hb hs hbounds
  -- the signs of both operands and of the result, each with what it says of the two values
  generalize 2 ^ (w - 1) = half at *
  obtain ⟨hma, ha⟩ | ⟨hma, ha⟩ := ha <;> obtain ⟨hmb, hb⟩ | ⟨hmb, hb⟩ := hb <;>
    obtain ⟨hms, hs⟩ | ⟨hms, hs⟩ := hs <;> rw [hma, hmb, hms] <;>
    obtain hk | hk := hcarry <;> rw [hk] at hsum <;> simp <;> omega

variable {a b : BitVec w} {c : Bool}

theorem overflow_addWithCarry (hw : 0 < w) :
    (addWithCarry a b c).flags.overflow = true ↔ ¬FitsSigned w (a.toInt + b.toInt + c.toNat) := by
  obtain ⟨hv, hs⟩ | ⟨hv, _, hlow⟩ | ⟨hv, _, hhigh⟩ := toInt_addWithCarry a b c hw <;> rw [hv]
  · rw [← hs]
    simpa using fitsSigned_toInt _ hw
  · exact iff_of_true rfl fun h => Int.not_lt.2 h.1 hlow
  · exact iff_of_true rfl fun h => Int.not_lt.2 hhigh h.2

/-- The sign and the overflow flag differ for a sum below zero, whether it fits or not. -/
theorem sign_addWithCarry (hw : 0 < w) :
    (addWithCarry a b c).flags.negative ≠ (addWithCarry a b c).flags.overflow ↔ a.toInt + b.toInt + c.toNat < 0 := by
  have hhalf := Nat.two_pow_pos (w - 1)
  obtain ⟨hv, hs⟩ | ⟨hv, hn, hlow⟩ | ⟨hv, hn, hhigh⟩ := toInt_addWithCarry a b c hw <;> rw [hv]
  · have hn : (addWithCarry a b c).flags.negative = (addWithCarry a b c).result.msb := rfl
    rw [← hs, hn, BitVec.msb_eq_toInt]
    simp
  · rw [hn]
    exact iff_of_true Bool.false_ne_true (by omega)
  · rw [hn]
    exact iff_of_false (by simp) (by omega)

theorem carry_sum : (addOrSub false a b).flags.carry = true ↔ 2 ^ w ≤ a.toNat + b.toNat :=
  decide_eq_true_iff

theorem overflow_sum (hw : 0 < w) :
    (addOrSub false a b).flags.overflow = true ↔ ¬FitsSigned w (a.toInt + b.toInt) := by
  have hexact : a.toInt + b.toInt + false.toNat = a.toInt + b.toInt := by simp
  rw [← hexact]
  exact overflow_addWithCarry hw

end Sums

section Differences

variable {w : Nat} {a b : BitVec w}

theorem result_difference : (addOrSub true a b).result = a - b := by
  rw [BitVec.sub_eq_add_neg, BitVec.neg_eq_not_add, ← BitVec.add_assoc]
  rfl

theorem zero_difference : (addOrSub true a b).flags.zero = true ↔ a = b := by
  have hzero : (addOrSub true a b).flags.zero = ((addOrSub true a b).result == 0#w) := rfl
  rw [hzero, result_difference, beq_iff_eq, BitVec.sub_eq_iff_eq_add, BitVec.zero_add]

theorem negative_difference : (addOrSub true a b).flags.negative = true ↔ (a - b).toInt < 0 := by
  have hnegative : (addOrSub true a b).flags.negative = (addOrSub true a b).result.msb := rfl
  rw [hnegative, result_difference, BitVec.msb_eq_toInt, decide_eq_true_iff]

theorem carry_difference : (addOrSub true a b).flags.carry = true ↔ b.toNat ≤ a.toNat := by
  have hcarry : (addOrSub true a b).flags.carry = decide (2 ^ w ≤ a.toNat + (~~~b).toNat + true.toNat) := rfl
  have hb := b.isLt
  rw [hcarry, decide_eq_true_iff, BitVec.toNat_not, Bool.toNat_true]
  omega

theorem exact_difference (hw : 0 < w) : a.toInt + (~~~b).toInt + true.toNat = a.toInt - b.toInt := by
  rw [toInt_complement b hw, Bool.toNat_true]
  omega

theorem overflow_difference (hw : 0 < w) :
    (addOrSub true a b).flags.overflow = true ↔ ¬FitsSigned w (a.toInt - b.toInt) := by
  rw [← exact_difference hw]
  exact overflow_addWithCarry hw

theorem sign_difference (hw : 0 < w) :
    (addOrSub true a b).flags.negative ≠ (addOrSub true a b).flags.overflow ↔ a.toInt < b.toInt := by
  have hsign := sign_addWithCarry (a := a) (b := ~~~b) (c := true) hw
  rw [exact_difference hw] at hsign
  exact hsign.trans ⟨Int.lt_of_sub_neg, Int.sub_neg_of_lt⟩

end Differences

namespace Condition

/-- What the name of a condition says of two words that have been compared. -/
def Compares {w : Nat} (c : Condition) (a b : BitVec w) : Prop :=
  match c with
  | eq => a = b
  | ne => a ≠ b
  | cs => b.toNat ≤ a.toNat
  | cc => a.toNat < b.toNat
  | mi => (a - b).toInt < 0
  | pl => 0 ≤ (a - b).toInt
  | vs => ¬FitsSigned w (a.toInt - b.toInt)
  | vc => FitsSigned w (a.toInt - b.toInt)
  | hi => b.toNat < a.toNat
  | ls => a.toNat ≤ b.toNat
  | ge => b.toInt ≤ a.toInt
  | lt => a.toInt < b.toInt
  | gt => b.toInt < a.toInt
  | le => a.toInt ≤ b.toInt
  | al | nv => True

theorem holds_difference {w : Nat} {a b : BitVec w} (hw : 0 < w) (c : Condition) :
    c.holds (addOrSub true a b).flags = true ↔ c.Compares a b := by
  have hz := zero_difference (a := a) (b := b)
  have hn := negative_difference (a := a) (b := b)
  have hc := carry_difference (a := a) (b := b)
  have hv := overflow_difference (a := a) (b := b) hw
  have hsign := sign_difference (a := a) (b := b) hw
  have hnat : a = b ↔ a.toNat = b.toNat := BitVec.toNat_inj.symm
  have hint : a = b ↔ a.toInt = b.toInt := BitVec.toInt_inj.symm
  generalize (addOrSub true a b).flags = f at *
  cases c with
  | eq => exact hz
  | cs => exact hc
  | mi => exact hn
  | vs => exact hv
  | al | nv => exact iff_of_true rfl trivial
  -- the others negate a flag, compare two of them, or ask for inequality besides
  | ne | cc | pl | vc | hi | ls | ge | lt | gt | le => grind [holds, Compares]

/-- After a comparison every condition holds exactly if its name says so of the operands. After an addition carry and
overflow mean that the exact unsigned and signed sum are out of range. -/
theorem conditions_after_comparison (width : Width) (a b : BitVec width.bits) :
    (∀ c : Condition, c.holds (addOrSub true a b).flags = true ↔ c.Compares a b) ∧
      (cs.holds (addOrSub false a b).flags = true ↔ 2 ^ width.bits ≤ a.toNat + b.toNat) ∧
      (vs.holds (addOrSub false a b).flags = true ↔ ¬FitsSigned width.bits (a.toInt + b.toInt)) :=
  ⟨holds_difference width.bits_pos, carry_sum, overflow_sum width.bits_pos⟩

end Condition
end AArch64
