import AArch64.Proofs.Integers.AddSub

/-! Arithmetic on numbers longer than a register. A number is cut into limbs of one register width, and a chain of
instructions adds or subtracts the limbs from the lowest to the highest, each link taking the carry of the link before
it. The chain does what a single addition of that length would do, and leaves its flags. -/
namespace AArch64

section Limbs

variable {w n : Nat}

/-- Limb `k` of a number of `n` limbs, the lowest one first. -/
def limb (x : BitVec (w * n)) (k : Nat) : BitVec w :=
  x.extractLsb' (w * k) w

theorem toNat_limb (x : BitVec (w * n)) (k : Nat) : (limb x k).toNat = x.toNat / 2 ^ (w * k) % 2 ^ w := by
  simp [limb, Nat.shiftRight_eq_div_pow]

theorem limb_not (x : BitVec (w * n)) {k : Nat} (hk : k < n) : limb (~~~x) k = ~~~limb x k := by
  have hle : w * (k + 1) ≤ w * n := Nat.mul_le_mul_left w hk
  ext i hi
  simp [limb, Nat.mul_succ] at *
  omega

theorem msb_limb_last (x : BitVec (w * (n + 1))) (hw : 0 < w) : (limb x n).msb = x.msb := by
  have hlast : w * n + (w - 1) = w * (n + 1) - 1 := by
    rw [Nat.mul_succ]
    omega
  rw [BitVec.msb_eq_getLsbD_last, BitVec.msb_eq_getLsbD_last, limb, BitVec.getLsbD_extractLsb', hlast]
  simp [Nat.sub_lt hw]

theorem toNat_decide_le {p s : Nat} (h : s < 2 * p) : (decide (p ≤ s)).toNat = s / p := by
  by_cases hp : p ≤ s
  · rw [decide_eq_true hp, Bool.toNat_true]
    exact (Nat.div_eq_of_lt_le (by omega) (by omega)).symm
  · rw [decide_eq_false hp, Nat.div_eq_of_lt (Nat.lt_of_not_le hp), Bool.toNat_false]

/-- The carry into bit `i` is what the parts below it add up to beyond `2 ^ i`. -/
theorem toNat_carry (i : Nat) (x y : BitVec w) (c : Bool) :
    (BitVec.carry i x y c).toNat = (x.toNat % 2 ^ i + y.toNat % 2 ^ i + c.toNat) / 2 ^ i := by
  have hx := Nat.mod_lt x.toNat (Nat.two_pow_pos i)
  have hy := Nat.mod_lt y.toNat (Nat.two_pow_pos i)
  have hc := c.toNat_le
  exact toNat_decide_le (by omega)

theorem carry_addWithCarry (x y : BitVec w) (c : Bool) :
    (addWithCarry x y c).flags.carry.toNat = (x.toNat + y.toNat + c.toNat) / 2 ^ w := by
  rw [← toNat_addWithCarry, Nat.add_mul_div_left _ _ (Nat.two_pow_pos w), Nat.div_eq_of_lt (BitVec.isLt _),
    Nat.zero_add]

theorem result_addWithCarry (x y : BitVec w) (c : Bool) :
    (addWithCarry x y c).result.toNat = (x.toNat + y.toNat + c.toNat) % 2 ^ w := by
  rw [← toNat_addWithCarry, Nat.add_mul_mod_self_left, Nat.mod_eq_of_lt (BitVec.isLt _)]

theorem carry_limbs (x y : BitVec (w * n)) (c : Bool) (k : Nat) :
    (addWithCarry (limb x k) (limb y k) (BitVec.carry (w * k) x y c)).flags.carry =
      BitVec.carry (w * (k + 1)) x y c := by
  have hlow (z : BitVec (w * n)) :
      z.toNat % (2 ^ (w * k) * 2 ^ w) = z.toNat % 2 ^ (w * k) + 2 ^ (w * k) * (limb z k).toNat := by
    rw [toNat_limb, Nat.mod_mul]
  have htoNat : (addWithCarry (limb x k) (limb y k) (BitVec.carry (w * k) x y c)).flags.carry.toNat =
      (BitVec.carry (w * (k + 1)) x y c).toNat := by
    rw [carry_addWithCarry, toNat_carry, toNat_carry, Nat.mul_succ, Nat.pow_add, ← Nat.div_div_eq_div_mul, hlow, hlow,
      Nat.add_comm, ← Nat.add_mul_div_left _ _ (Nat.two_pow_pos (w * k)), Nat.mul_add]
    congr 2
    omega
  rw [Bool.eq_iff_iff, ← Bool.toNat_eq_one, ← Bool.toNat_eq_one, htoNat]

theorem result_limbs (x y : BitVec (w * n)) (c : Bool) {k : Nat} (hk : k < n) :
    (addWithCarry (limb x k) (limb y k) (BitVec.carry (w * k) x y c)).result =
      limb (addWithCarry x y c).result k := by
  have hsize : 2 ^ (w * n) = 2 ^ (w * k) * (2 ^ w * 2 ^ (w * (n - (k + 1)))) := by
    rw [← Nat.pow_add, ← Nat.pow_add, ← Nat.add_assoc, ← Nat.mul_succ, ← Nat.mul_add, Nat.succ_eq_add_one,
      Nat.add_sub_cancel' hk]
  have hhigh : (x.toNat + y.toNat + c.toNat) / 2 ^ (w * k) =
      (BitVec.carry (w * k) x y c).toNat + (x.toNat / 2 ^ (w * k) + y.toNat / 2 ^ (w * k)) := by
    have hx := Nat.mod_add_div x.toNat (2 ^ (w * k))
    have hy := Nat.mod_add_div y.toNat (2 ^ (w * k))
    rw [toNat_carry, ← Nat.add_mul_div_left _ _ (Nat.two_pow_pos (w * k)), Nat.mul_add]
    congr 1
    omega
  apply BitVec.eq_of_toNat_eq
  rw [toNat_limb, result_addWithCarry, result_addWithCarry, toNat_limb, toNat_limb, hsize,
    Nat.mod_mul_right_div_self, Nat.mod_mul_right_mod, hhigh]
  simp [Nat.add_mod, Nat.add_comm]

/-- The flags of the highest limbs are those of the long numbers, but for the zero flag, which sees one limb only. -/
theorem flags_last_limb (x y : BitVec (w * (n + 1))) (c : Bool) (hw : 0 < w) :
    (addWithCarry (limb x n) (limb y n) (BitVec.carry (w * n) x y c)).flags =
      { (addWithCarry x y c).flags with zero := limb (addWithCarry x y c).result n == 0#w } := by
  have hresult := result_limbs x y c n.lt_succ_self
  have hcarry := carry_limbs x y c n
  rw [BitVec.carry_width] at hcarry
  apply Nzcv.ext
  case negative => exact (congrArg BitVec.msb hresult).trans (msb_limb_last _ hw)
  case zero => exact congrArg (· == 0#w) hresult
  case carry => exact hcarry
  case overflow =>
    have hoverflow {v : Nat} (a b : BitVec v) (d : Bool) : (addWithCarry a b d).flags.overflow =
        (a.msb == b.msb && a.msb != (addWithCarry a b d).result.msb) := rfl
    simp only [hoverflow, hresult, msb_limb_last _ hw]

end Limbs

/-- The lowest link adds or subtracts without looking at the carry. -/
def linkForm : Nat → AddSubForm
  | 0 => .shifted
  | _ + 1 => .withCarry

theorem linkForm_cases (k : Nat) : linkForm k = .shifted ∨ linkForm k = .withCarry := by
  cases k <;> simp [linkForm]

/-- A run of `n` links, from the lowest limb to the highest. Link `k` executes `word k` on the machine `before k`.
Between two links anything may happen that leaves the carry alone, such as moving limbs between memory and registers. -/
structure CarryChain (width : Width) (subtract : Bool) (n : Nat) where
  word : Nat → InstructionWord
  before : Nat → Machine
  hasForm : ∀ k < n, (word k).HasForm (linkForm k) width subtract
  rd_ne : ∀ k < n, (word k).rd ≠ Register.stackPointer
  carry_before : ∀ k, k + 1 < n →
    (before (k + 1)).state.nzcv.carry = ((before k).execute (word k)).2.state.nzcv.carry

namespace CarryChain

variable {width : Width} {subtract : Bool} {n : Nat} (chain : CarryChain width subtract n) (k : Nat)

def left : BitVec width.bits := (chain.before k).state.read width.bits (chain.word k).rn

def right : BitVec width.bits := (chain.before k).state.read width.bits (chain.word k).rm

def outcome : Except ErrorKind Completion := ((chain.before k).execute (chain.word k)).1

def after : Machine := ((chain.before k).execute (chain.word k)).2

def result : BitVec width.bits := (chain.after k).state.read width.bits (chain.word k).rd

def carryIn : Bool :=
  match k with
  | 0 => subtract
  | k + 1 => (chain.after k).state.nzcv.carry

def sum : Sum width.bits :=
  addWithCarry (chain.left k) (if subtract then ~~~chain.right k else chain.right k) (chain.carryIn k)

variable {k}

theorem execute_link (hk : k < n) :
    chain.outcome k = .ok .ready ∧ chain.result k = (chain.sum k).result ∧
      (chain.after k).state.nzcv = (chain.sum k).flags := by
  have hsum : (linkForm k).sum (chain.word k) subtract (chain.before k).state width.bits = chain.sum k := by
    cases k with
    | zero => rfl
    | succ j =>
      have hcarry : (chain.before (j + 1)).state.nzcv.carry = chain.carryIn (j + 1) :=
        chain.carry_before j hk
      rw [CarryChain.sum, ← hcarry]
      rfl
  have hwrites : (linkForm k).writes = true := by obtain h | h := linkForm_cases k <;> rw [h] <;> rfl
  have hexecute := (chain.before k).execute_of_hasForm (chain.hasForm k hk)
  simp only [hsum, hwrites, if_true] at hexecute
  have hrd : GeneralRegisters.isZero (chain.word k).rd .zero = false := by simp [chain.rd_ne k hk]
  rw [outcome, result, after, hexecute]
  refine ⟨rfl, ?_, rfl⟩
  change (State.write _ _ (chain.sum k).result).read width.bits _ = _
  rw [State.read_write, if_pos ⟨rfl, hrd, hrd⟩, BitVec.setWidth_setWidth_of_le _ width.bits_le, BitVec.setWidth_eq]

/-- By induction on the links, the carry into link `k` is the carry into its lowest bit in the sum of the whole
numbers. -/
theorem sum_eq_limbs {a b : BitVec (width.bits * n)} (ha : ∀ k < n, chain.left k = limb a k)
    (hb : ∀ k < n, chain.right k = limb b k) (hk : k < n) :
    let c := if subtract then ~~~b else b
    chain.sum k = addWithCarry (limb a k) (limb c k) (BitVec.carry (width.bits * k) a c subtract) := by
  intro c
  have hright {k : Nat} (hk : k < n) : (if subtract then ~~~chain.right k else chain.right k) = limb c k := by
    rw [hb k hk]
    cases subtract with
    | true => exact (limb_not b hk).symm
    | false => rfl
  induction k with
  | zero =>
    rw [sum, ha 0 hk, hright hk, Nat.mul_zero, BitVec.carry_zero]
    rfl
  | succ j ih =>
    have hj : j < n := Nat.lt_of_succ_lt hk
    have hcarry : chain.carryIn (j + 1) = (chain.sum j).flags.carry :=
      congrArg Nzcv.carry (chain.execute_link hj).2.2
    rw [sum, ha _ hk, hright hk, hcarry, ih hj, carry_limbs]

/-! Any two numbers can be fed to a chain, limb by limb through two registers. -/

section Feed

variable (width : Width) (subtract : Bool) (m : Machine) {n : Nat} (a b : BitVec (width.bits * n)) (k : Nat)

/-- `ADDS`, `SUBS`, `ADCS` or `SBCS` of registers 1 and 2 into register 0. -/
def feedWord (f : AddSubForm) : InstructionWord :=
  BitVec.ofBool (width == .w64) ++ BitVec.ofBool subtract ++
    match f with
    | .withCarry => 0b111010000000100000000000100000#30
    | _ => 0b101011000000100000000000100000#30

def feed (m : Machine) : Machine :=
  m.withState ((m.state.write 1#5 (limb a k)).write 2#5 (limb b k))

/-- The machine when link `k` has still to be fed. -/
def unfed : Nat → Machine
  | 0 => m
  | k + 1 => ((feed width a b k (unfed k)).execute (feedWord width subtract (linkForm k))).2

theorem feedWord_fields :
    (feedWord width subtract (linkForm k)).HasForm (linkForm k) width subtract ∧
      (feedWord width subtract (linkForm k)).rd = 0#5 ∧ (feedWord width subtract (linkForm k)).rn = 1#5 ∧
      (feedWord width subtract (linkForm k)).rm = 2#5 := by
  obtain h | h := linkForm_cases k <;> rw [h] <;> cases width <;> cases subtract <;> decide

def ofNumbers : CarryChain width subtract n where
  word k := feedWord width subtract (linkForm k)
  before k := feed width a b k (unfed width subtract m a b k)
  hasForm k _ := (feedWord_fields width subtract k).1
  rd_ne k _ := by
    rw [(feedWord_fields width subtract k).2.1]
    decide
  carry_before _ _ := rfl

theorem reads_ofNumbers :
    (ofNumbers width subtract m a b).left k = limb a k ∧ (ofNumbers width subtract m a b).right k = limb b k := by
  obtain ⟨_, _, hrn, hrm⟩ := feedWord_fields width subtract k
  simp only [left, right, ofNumbers, hrn, hrm, feed, Machine.withState, Machine.state, State.read_write]
  simp [Register.stackPointer, BitVec.setWidth_setWidth_of_le _ width.bits_le]

end Feed
end CarryChain

/-- A chain of one addition, or subtraction, for each limb computes the sum, or difference, of the two whole numbers,
however long they are, and its last link leaves the flags of exact arithmetic on them. Only the zero flag is that of the
highest limb. -/
theorem Machine.carry_chain_exact {width : Width} {subtract : Bool} {n : Nat} (chain : CarryChain width subtract n)
    (hn : 0 < n) (a b : BitVec (width.bits * n)) (ha : ∀ k < n, chain.left k = limb a k)
    (hb : ∀ k < n, chain.right k = limb b k) :
    let total := if subtract then a - b else a + b
    (∀ k < n, chain.outcome k = .ok .ready ∧ chain.result k = limb total k) ∧
      (chain.after (n - 1)).state.nzcv =
        { exactFlags subtract a b with zero := limb total (n - 1) == BitVec.ofNat _ 0 } := by
  refine ⟨fun k hk => ?_, ?_⟩
  · obtain ⟨hok, hresult, _⟩ := chain.execute_link hk
    rw [hresult, chain.sum_eq_limbs ha hb hk, result_limbs _ _ _ hk, ← addOrSub_eq, result_addOrSub]
    exact ⟨hok, rfl⟩
  · obtain ⟨last, rfl⟩ : ∃ last, n = last + 1 := ⟨n - 1, by omega⟩
    obtain ⟨_, _, hflags⟩ := chain.execute_link last.lt_succ_self
    have hbits : 0 < width.bits * (last + 1) := Nat.mul_pos width.bits_pos last.succ_pos
    rw [Nat.add_sub_cancel, hflags, chain.sum_eq_limbs ha hb last.lt_succ_self,
      flags_last_limb _ _ _ width.bits_pos, ← addOrSub_eq, result_addOrSub, flags_addOrSub _ _ _ hbits]

/-- For `2 ^ 64 - 1` in three limbs of 32 bits the borrow runs through the lower two. -/
theorem Machine.carry_chain_exact_borrow :
    let a : BitVec (Width.w32.bits * 3) := BitVec.ofNat _ (2 ^ 64)
    let b : BitVec (Width.w32.bits * 3) := BitVec.ofNat _ 1
    let chain := CarryChain.ofNumbers .w32 true {} a b
    (chain.result 0).toNat = 2 ^ 32 - 1 ∧ (chain.result 1).toNat = 2 ^ 32 - 1 ∧ (chain.result 2).toNat = 0 ∧
      (chain.after 2).state.nzcv = { zero := true, carry := true } := by
  intro a b chain
  obtain ⟨hlimbs, hflags⟩ := carry_chain_exact chain (by decide) a b
    (fun k _ => (CarryChain.reads_ofNumbers .w32 true {} a b k).1)
    (fun k _ => (CarryChain.reads_ofNumbers .w32 true {} a b k).2)
  rw [(hlimbs 0 (by decide)).2, (hlimbs 1 (by decide)).2, (hlimbs 2 (by decide)).2, hflags]
  decide +kernel

end AArch64
