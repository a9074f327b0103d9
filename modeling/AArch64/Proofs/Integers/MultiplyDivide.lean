import AArch64.Proofs.Integers.Bitfields
import AArch64.Proofs.Vectors.LaneArithmetic
import AArch64.Proofs.Vectors.Saturation

/-! Products and quotients. The two halves of a product of 64-bit numbers are computed by two instructions, and together
they are exact. A quotient and the multiplication that takes it back leave the remainder of a division. -/
namespace AArch64

/-- Multiplications: of the full width or of the low words with a sum or a difference, or the upper half of a product. -/
inductive Multiplication
  | full (subtract : Bool)
  | long (signed subtract : Bool)
  | high (signed : Bool)

namespace Multiplication

/-- The field with the kind of multiplication, and the bit that makes a sum a difference. -/
def code : Multiplication → Nat × Bool
  | full subtract => (0, subtract)
  | long true subtract => (1, subtract)
  | long false subtract => (5, subtract)
  | high true => (2, false)
  | high false => (6, false)

/-- Only products of the full width are made of narrow registers. -/
def hasWidth : Multiplication → Width → Bool
  | full _, _ => true
  | long _ _, width | high _, width => width = .w64

def op (k : Multiplication) (w : InstructionWord) : IntegerOp :=
  match k with
  | full subtract => .multiply subtract w.rn w.rm w.ra
  | long signed subtract => .multiplyLong signed subtract w.rn w.rm w.ra
  | high signed => .multiplyHigh signed w.rn w.rm

end Multiplication

namespace InstructionWord

variable (w : InstructionWord)

def IsMultiplication (k : Multiplication) (width : Width) : Prop :=
  w.width = width ∧ w.number 30 24 = 0b0011011 ∧ (w.number 23 21, w.bit 15) = k.code ∧ k.hasWidth width = true

instance (k : Multiplication) (width : Width) : Decidable (w.IsMultiplication k width) :=
  inferInstanceAs (Decidable (_ ∧ _))

/-- `MUL`, a multiplication to which nothing is added. -/
def IsProduct (width : Width) : Prop := w.IsMultiplication (.full false) width ∧ w.ra = Register.stackPointer

instance (width : Width) : Decidable (w.IsProduct width) := inferInstanceAs (Decidable (_ ∧ _))

def IsDivision (signed : Bool) (width : Width) : Prop :=
  w.width = width ∧ w.number 30 21 = 0b0011010110 ∧ w.number 15 10 = if signed then 3 else 2

instance (signed : Bool) (width : Width) : Decidable (w.IsDivision signed width) := inferInstanceAs (Decidable (_ ∧ _))

/-- The first two sources hold these numbers, in as many bits as they have. -/
def Sources {n : Nat} (a b : BitVec n) (s : State) : Prop := s.read n w.rn = a ∧ s.read n w.rm = b

instance {n : Nat} (a b : BitVec n) (s : State) : Decidable (w.Sources a b s) := inferInstanceAs (Decidable (_ ∧ _))

end InstructionWord

section Words

open InstructionWord KeyTable IntegerInstruction

variable {w : InstructionWord} {width : Width}

theorem Instruction.decode_of_isMultiplication {k : Multiplication} (h : w.IsMultiplication k width) :
    decode w = .ok (.integer { width, rd := w.rd, op := k.op w }) := by
  obtain ⟨rfl, hclass, hcode, hwidth⟩ := h
  have hfields : w.number 27 25 = 0b101 ∧ (register.key w = 6 ∨ register.key w = 7) ∧ w.number 30 29 = 0 := by
    simp only [key_register, number_eq, toNat_bit] at hclass ⊢
    omega
  obtain ⟨hgroup, hkey, hclear⟩ := hfields
  have hdecode : decodeRegister w = decodeThreeSource w := by
    obtain hkey | hkey := hkey <;> simp only [decodeRegister, hkey]
  have hwide (hlong : w.width = .w64) : w.bit 31 = true := by
    cases hsf : w.bit 31 with
    | true => rfl
    | false => simp [InstructionWord.width, hsf, Width.ofBit] at hlong
  rw [decode_of_register hgroup, hdecode, decodeThreeSource]
  cases k with
  | full subtract =>
    simp only [Multiplication.code, Prod.mk.injEq] at hcode
    simp only [hclear, hcode]
    rfl
  | long signed subtract =>
    have h31 := hwide (of_decide_eq_true hwidth)
    cases signed <;> simp only [Multiplication.code, Prod.mk.injEq] at hcode <;> simp only [hclear, hcode, h31] <;> rfl
  | high signed =>
    have h31 := hwide (of_decide_eq_true hwidth)
    cases signed <;> simp only [Multiplication.code, Prod.mk.injEq] at hcode <;> simp only [hclear, hcode, h31] <;> rfl

theorem Instruction.decode_of_isDivision {signed : Bool} (h : w.IsDivision signed width) :
    decode w = .ok (.integer { width, rd := w.rd, op := .divide signed w.rn w.rm }) := by
  obtain ⟨rfl, hclass, hcode⟩ := h
  have hfields : w.number 27 25 = 0b101 ∧ register.key w = 4 ∧ registerMisc.key w = 3 ∧ w.bit 30 = false ∧
      w.bit 29 = false := by
    simp only [key_register, key_registerMisc, number_eq, toNat_bit, bit_eq_false] at hclass ⊢
    omega
  obtain ⟨hgroup, hkey, hmisc, htwo, hflags⟩ := hfields
  rw [decode_of_register hgroup]
  simp only [decodeRegister, hkey, decodeRegisterMisc, hmisc, htwo, decodeTwoSource, hflags, hcode]
  cases signed <;> rfl

end Words

namespace Lane

variable {n : Nat}

theorem value_product (signed : Bool) (hn : 0 < n) (a b : BitVec n) :
    value signed (BitVec.ofInt (n + n) (value signed a * value signed b)) = value signed a * value signed b := by
  cases signed with
  | false =>
    have ha : (a.toNat : Int) < 2 ^ n := by exact_mod_cast a.isLt
    have hb : (b.toNat : Int) < 2 ^ n := by exact_mod_cast b.isLt
    have hproduct : (a.toNat : Int) * b.toNat < 2 ^ (n + n) := by
      rw [pow_add]
      exact mul_lt_mul'' ha hb (Int.natCast_nonneg _) (Int.natCast_nonneg _)
    refine value_ofInt (by omega) ?_ ?_
    · exact mul_nonneg (Int.natCast_nonneg a.toNat) (Int.natCast_nonneg b.toNat)
    · exact Int.le_sub_one_of_lt hproduct
  | true =>
    have hdouble : (2 : Int) ^ (n + n - 1) = 2 * 2 ^ (n * 2 - 2) := by
      rw [← pow_succ']
      congr 1
      omega
    have hpow : (0 : Int) < 2 ^ (n * 2 - 2) := by positivity
    have hle : a.toInt * b.toInt ≤ 2 ^ (n * 2 - 2) := BitVec.toInt_mul_toInt_le
    have hge : -(2 ^ (n * 2 - 2)) ≤ a.toInt * b.toInt := BitVec.le_toInt_mul_toInt
    refine value_ofInt (by omega) ?_ ?_
    · change -(2 ^ (n + n - 1)) ≤ a.toInt * b.toInt
      omega
    · change a.toInt * b.toInt ≤ 2 ^ (n + n - 1) - 1
      omega

theorem setWidth_ofInt {m : Nat} (h : n ≤ m) (x : Int) : (BitVec.ofInt m x).setWidth n = BitVec.ofInt n x := by
  have hdvd : ((2 ^ n : Nat) : Int) ∣ ((2 ^ m : Nat) : Int) := Int.natCast_dvd_natCast.2 (Nat.pow_dvd_pow 2 h)
  have hpos (k : Nat) : ((2 ^ k : Nat) : Int) ≠ 0 := by positivity
  apply BitVec.eq_of_toNat_eq
  zify
  rw [BitVec.toNat_setWidth, BitVec.toNat_ofInt, BitVec.toNat_ofInt, Int.natCast_mod,
    Int.toNat_of_nonneg (Int.emod_nonneg x (hpos m)), Int.toNat_of_nonneg (Int.emod_nonneg x (hpos n)),
    Int.emod_emod_of_dvd x hdvd]

end Lane

theorem setWidth_eq_ofInt {n : Nat} (m : Nat) (x : BitVec n) : x.setWidth m = BitVec.ofInt m x.toNat := by
  rw [BitVec.ofInt_natCast, BitVec.ofNat_toNat]

theorem longOperand_eq (signed : Bool) (x : BitVec 32) : longOperand signed x = BitVec.ofInt 64 (Lane.value signed x) := by
  cases signed with
  | false => exact setWidth_eq_ofInt 64 x
  | true => rfl

/-- Both halves of a product, one from each instruction. -/
theorem highProduct_append (signed : Bool) (a b : BitVec 64) :
    highProduct signed a b ++ a * b = BitVec.ofInt 128 (Lane.value signed a * Lane.value signed b) := by
  generalize hp : BitVec.ofInt 128 (Lane.value signed a * Lane.value signed b) = p
  have hhigh : highProduct signed a b = p.extractLsb' 64 64 := by
    rw [← hp, BitVec.ofInt_mul]
    cases signed with
    | false => simp only [highProduct, setWidth_eq_ofInt 128]; rfl
    | true => rfl
  have hlow : a * b = p.extractLsb' 0 64 := by
    rw [← hp, ← BitVec.setWidth_eq_extractLsb' (by decide), Lane.setWidth_ofInt (by decide), BitVec.ofInt_mul,
      Lane.ofInt_value, Lane.ofInt_value]
  rw [hhigh, hlow, BitVec.extractLsb'_append_extractLsb'_eq_extractLsb' (by decide),
    ← BitVec.setWidth_eq_extractLsb' (Nat.le_refl 128), BitVec.setWidth_eq]

theorem accumulate_ofInt {n : Nat} (subtract : Bool) (c : BitVec n) (x : Int) :
    accumulate subtract c (BitVec.ofInt n x) = BitVec.ofInt n (if subtract then c.toNat - x else c.toNat + x) := by
  have hc : BitVec.ofInt n c.toNat = c := Lane.ofInt_value false c
  cases subtract with
  | false => exact (congrArg (· + BitVec.ofInt n x) hc.symm).trans (BitVec.ofInt_add _ _).symm
  | true =>
    rw [accumulate, if_pos rfl, if_pos rfl, Int.sub_eq_add_neg, BitVec.ofInt_add, BitVec.ofInt_neg, hc, BitVec.sub_eq_add_neg]

/-- The remainder that multiplying back leaves. -/
theorem sub_sdiv_mul {n : Nat} (x y : BitVec n) : x - x.sdiv y * y = x.srem y := by
  apply BitVec.eq_of_toInt_eq
  rw [BitVec.toInt_sub, BitVec.toInt_mul, BitVec.toInt_sdiv, Int.bmod_mul_bmod, Int.sub_bmod_bmod, Int.mul_comm,
    ← Int.tmod_def, ← BitVec.toInt_srem, BitVec.toInt_bmod_cancel]

theorem sub_udiv_mul {n : Nat} (x y : BitVec n) : x - x / y * y = x % y := by
  have hsum : x % y + x / y * y = x := by
    apply BitVec.eq_of_toNat_eq
    rw [BitVec.toNat_add, BitVec.toNat_mul, Nat.add_mod_mod, BitVec.toNat_umod, BitVec.toNat_udiv, Nat.mod_add_div',
      Nat.mod_eq_of_lt x.isLt]
  calc x - x / y * y = x % y + x / y * y - x / y * y := by rw [hsum]
    _ = x % y := BitVec.add_sub_cancel _ _

section Laws

open InstructionWord Lane

variable {w : InstructionWord} {width : Width}

theorem puts_full {subtract : Bool} (h : w.IsMultiplication (.full subtract) width) (a b c : BitVec width.bits) :
    w.Puts (fun s => w.Sources a b s ∧ s.read width.bits w.ra = c) (accumulate subtract c (a * b)) :=
  puts_of_integer (Instruction.decode_of_isMultiplication h) fun s ⟨⟨ha, hb⟩, hc⟩ => by
    rw [← ha, ← hb, ← hc]
    rfl

theorem puts_product (h : w.IsProduct width) (a b : BitVec width.bits) : w.Puts (w.Sources a b) (a * b) := by
  intro m hm
  have hzero : m.state.read width.bits w.ra = 0#_ := by
    simp [State.read, GeneralRegisters.get, GeneralRegisters.isZero, h.2]
  have hputs := puts_full h.1 a b 0#_ m ⟨hm, hzero⟩
  rwa [accumulate, if_neg Bool.false_ne_true, BitVec.zero_add] at hputs

theorem puts_high {signed : Bool} (h : w.IsMultiplication (.high signed) .w64) (a b : BitVec 64) :
    w.Puts (w.Sources a b) (highProduct signed a b) :=
  puts_of_integer (Instruction.decode_of_isMultiplication h) fun s ⟨ha, hb⟩ => by
    rw [← ha, ← hb]
    exact congrArg (fun x => { value := some x : IntegerResult 64 }) (BitVec.setWidth_eq _)

theorem puts_long {signed subtract : Bool} (h : w.IsMultiplication (.long signed subtract) .w64) (a b : BitVec 32)
    (c : BitVec 64) :
    w.Puts (fun s => w.Sources a b s ∧ s.read 64 w.ra = c)
      (accumulate subtract c (longOperand signed a * longOperand signed b)) :=
  puts_of_integer (Instruction.decode_of_isMultiplication h) fun s ⟨⟨ha, hb⟩, hc⟩ => by
    rw [← ha, ← hb, ← hc]
    exact congrArg (fun x => { value := some x : IntegerResult 64 }) (BitVec.setWidth_eq _)

theorem puts_division {signed : Bool} (h : w.IsDivision signed width) (a b : BitVec width.bits) :
    w.Puts (w.Sources a b) (if signed then a.sdiv b else a / b) :=
  puts_of_integer (Instruction.decode_of_isDivision h) fun s ⟨ha, hb⟩ => by
    rw [← ha, ← hb]
    rfl

/-- No number of this width is the quotient of the least one by -1. -/
def Overflows (signed : Bool) {n : Nat} (x y : BitVec n) : Prop := signed = true ∧ x = BitVec.intMin n ∧ y = -1#n

/-- The quotient and the remainder that go with a dividend and a divisor. Quotients are rounded towards zero, which
leaves the sign of the dividend to the remainder. One by zero is zero, and one that overflows is the dividend. -/
structure Divides (signed : Bool) {n : Nat} (x y q r : BitVec n) : Prop where
  zero : y = 0#n → q = 0#n ∧ r = x
  overflow : Overflows signed x y → q = BitVec.intMin n ∧ r = 0#n
  quotient : y ≠ 0#n → ¬Overflows signed x y → value signed q = (value signed x).tdiv (value signed y)
  sum : y ≠ 0#n → ¬Overflows signed x y → value signed x = value signed q * value signed y + value signed r
  remainder : y ≠ 0#n → (value signed r).natAbs < (value signed y).natAbs
  sign : r ≠ 0#n → (value signed r).sign = (value signed x).sign

namespace Divides

variable {n : Nat} {signed : Bool} {x y q r : BitVec n}

theorem value_eq_zero_iff : value signed x = 0 ↔ x = 0#n := by
  constructor
  · intro h
    rw [← ofInt_value signed x, h]
    rfl
  · rintro rfl
    cases signed <;> simp [value]

theorem value_inj (h : value signed x = value signed y) : x = y := by
  rw [← ofInt_value signed x, h, ofInt_value]

theorem of_tmod (hr : value signed r = (value signed x).tmod (value signed y))
    (hq : ¬Overflows signed x y → value signed q = (value signed x).tdiv (value signed y))
    (hoverflow : Overflows signed x y → q = BitVec.intMin n ∧ r = 0#n) (hzero : y = 0#n → q = 0#n) :
    Divides signed x y q r where
  zero hy := by
    have hvalue : value signed y = 0 := value_eq_zero_iff.2 hy
    rw [hvalue, Int.tmod_zero] at hr
    exact ⟨hzero hy, value_inj hr⟩
  overflow := hoverflow
  quotient _ := hq
  sum _ h := by rw [hq h, hr, Int.mul_comm, Int.mul_tdiv_add_tmod]
  remainder hy := by
    rw [hr, Int.natAbs_tmod]
    exact Nat.mod_lt _ (Int.natAbs_pos.2 (mt value_eq_zero_iff.1 hy))
  sign hne := by
    have hdvd : ¬value signed y ∣ value signed x := fun hdvd => by
      rw [Int.dvd_iff_tmod_eq_zero, ← hr, value_eq_zero_iff] at hdvd
      exact hne hdvd
    rw [hr, Int.sign_tmod, if_neg hdvd]

theorem udiv (x y : BitVec n) : Divides false x y (x / y) (x - x / y * y) := by
  refine of_tmod ?_ (fun _ => ?_) (fun h => absurd h.1 Bool.false_ne_true) fun hy => by rw [hy, BitVec.udiv_zero]
  · rw [sub_udiv_mul]
    exact congrArg Int.ofNat BitVec.toNat_umod
  · exact congrArg Int.ofNat BitVec.toNat_udiv

theorem sdiv (hn : 0 < n) (x y : BitVec n) : Divides true x y (x.sdiv y) (x - x.sdiv y * y) := by
  refine of_tmod ?_ (fun h => ?_) (fun h => ?_) fun hy => by rw [hy, BitVec.sdiv_zero]
  · rw [sub_sdiv_mul]
    exact BitVec.toInt_srem x y
  · exact BitVec.toInt_sdiv_of_ne_or_ne x y (Decidable.not_and_iff_not_or_not.1 fun hxy => h ⟨rfl, hxy⟩)
  · obtain ⟨_, rfl, rfl⟩ := h
    have hone : (-1#n).toInt = -1 := by rw [BitVec.neg_one_eq_allOnes, BitVec.toInt_allOnes, if_pos hn]
    rw [sub_sdiv_mul, BitVec.intMin_sdiv_neg_one]
    refine ⟨rfl, BitVec.eq_of_toInt_eq ?_⟩
    rw [BitVec.toInt_srem, hone, Int.tmod_neg, Int.tmod_one, BitVec.toInt_zero]

end Divides
end Laws

namespace Machine

open InstructionWord Lane

/-- The two halves of a product make up the exact one, and the sum or difference with a product of words is exact up to
what does not fit into 64 bits. A quotient, and the difference of the dividend and its product with the divisor, are
those of a division with a remainder. -/
theorem multiply_divide_laws :
    (∀ (signed : Bool) (high low : InstructionWord), high.IsMultiplication (.high signed) .w64 → low.IsProduct .w64 →
        ∀ a b : BitVec 64, ∃ h l : BitVec 64, high.Puts (high.Sources a b) h ∧ low.Puts (low.Sources a b) l ∧
          value signed (h ++ l) = value signed a * value signed b) ∧
      (∀ (signed subtract : Bool) (w : InstructionWord), w.IsMultiplication (.long signed subtract) .w64 →
        ∀ (a b : BitVec 32) (c : BitVec 64),
          let product := value signed a * value signed b
          w.Puts (fun s => w.Sources a b s ∧ s.read 64 w.ra = c)
            (BitVec.ofInt 64 (if subtract then c.toNat - product else c.toNat + product))) ∧
      ∀ (signed : Bool) (width : Width) (div msub : InstructionWord), div.IsDivision signed width →
        msub.IsMultiplication (.full true) width →
        ∀ x y : BitVec width.bits, ∃ q r, div.Puts (div.Sources x y) q ∧
          msub.Puts (fun s => msub.Sources q y s ∧ s.read width.bits msub.ra = x) r ∧ Divides signed x y q r := by
  refine ⟨?_, ?_, ?_⟩
  · intro signed high low hhigh hlow a b
    have hvalue := value_product signed (by decide) a b
    rw [← highProduct_append] at hvalue
    exact ⟨_, _, puts_high hhigh a b, puts_product hlow a b, hvalue⟩
  · intro signed subtract w h a b c product
    have hputs := puts_long h a b c
    rwa [longOperand_eq, longOperand_eq, ← BitVec.ofInt_mul, accumulate_ofInt] at hputs
  · intro signed width div msub hdiv hmsub x y
    refine ⟨_, _, puts_division hdiv x y, puts_full hmsub _ y x, ?_⟩
    cases signed with
    | false => exact .udiv x y
    | true => exact .sdiv (by cases width <;> decide) x y

/-- `SMULH X0, X1, X2` and `MUL X0, X1, X2` of -17 and 5, `UMSUBL X0, W1, W2, X3` of the low words that are left of them,
and `SDIV W0, W1, W2` and `MSUB W0, W0, W2, W1`, whose quotient and remainder are -3 and -2. -/
theorem multiply_divide_laws_of_negative :
    let m : Machine := withState {} (((State.write {} 1#5 (-17#64)).write 2#5 5#64).write 3#5 1#64)
    let slot (w : InstructionWord) := (m.execute w).2.state.slot 0#5
    value true (slot 0x9B427C20#32 ++ slot 0x9B027C20#32) = -85 ∧
      slot 0x9BA28C20#32 = BitVec.ofInt 64 (1 - 0xFFFFFFEF * 5) ∧ slot 0x1AC20C20#32 = (-3#32).setWidth 64 ∧
      ((m.execute 0x1AC20C20#32).2.execute 0x1B028400#32).2.state.slot 0#5 = (-2#32).setWidth 64 := by
  intro m slot
  obtain ⟨hproducts, hlong, hdivide⟩ := multiply_divide_laws
  obtain ⟨h, l, hhigh, hlow, hvalue⟩ :=
    hproducts true 0x9B427C20#32 0x9B027C20#32 (by decide) (by decide) (-17#64) 5#64
  obtain ⟨q, r, hdiv, hmsub, hqr⟩ : ∃ q r : BitVec 32, Puts 0x1AC20C20#32 (Sources 0x1AC20C20#32 (-17#32) 5#32) q ∧
      Puts 0x1B028400#32 (fun s => Sources 0x1B028400#32 q 5#32 s ∧ s.read 32 1#5 = -17#32) r ∧
      Divides true (-17#32) 5#32 q r :=
    hdivide true .w32 0x1AC20C20#32 0x1B028400#32 (by decide) (by decide) (-17#32) 5#32
  have hfits : ¬Overflows true (-17#32) 5#32 := fun hover => absurd hover.2.2 (by decide)
  have hquotient : q = -3#32 := Divides.value_inj (hqr.quotient (by decide) hfits)
  have hsum : -17 = value true q * 5 + value true r := hqr.sum (by decide) hfits
  have hthree : value true (-3#32) = -3 := by decide
  have hremainder : r = -2#32 := by
    rw [hquotient, hthree] at hsum
    exact Divides.value_inj (show value true r = -2 by omega)
  subst hquotient hremainder
  have hhigh := hhigh.slot (m := m) (by decide +kernel) (by decide)
  have hlow := hlow.slot (m := m) (by decide +kernel) (by decide)
  have hlong := (hlong false true 0x9BA28C20#32 (by decide) (-17#32) 5#32 1#64).slot (m := m) (by decide +kernel)
    (by decide)
  have hdiv := hdiv.slot (m := m) (by decide +kernel) (by decide)
  have hmsub := hmsub.slot (m := (m.execute 0x1AC20C20#32).2) (by decide +kernel) (by decide)
  refine ⟨?_, hlong, hdiv, hmsub⟩
  rw [BitVec.setWidth_eq] at hhigh hlow
  exact (congrArg₂ (fun h l => value true (h ++ l)) hhigh hlow).trans hvalue

end Machine
end AArch64
