import AArch64.Interpreter.Lanes
import AArch64.Proofs.Decoding.LaneRanges
import AArch64.Proofs.Integers.LeadingBits
import AArch64.Proofs.Integers.Masked

/-! Lane arithmetic in words of 64 bits and integers of 128 bits stays within them, and gives what the exact numbers do. -/
namespace AArch64

open Masked

namespace Lanes

variable {esize : Nat}

theorem get?_eq {i : Nat} (v : BitVec 128) (h : (i + 1) * esize ≤ 128) : get? v esize i = some (get v esize i) := by
  simp [get?, inRange, h]

theorem set?_eq {i : Nat} (v : BitVec 128) (x : BitVec esize) (h : (i + 1) * esize ≤ 128) :
    set? v i x = some (set v i x) := by
  simp [set?, inRange, h]

theorem build?_eq {n : Nat} {f : Nat → Option (BitVec esize)} {g : Nat → BitVec esize} (hn : n * esize ≤ 128)
    (h : ∀ i < n, f i = some (g i)) : build? n f = some (build n g) := by
  induction n with
  | zero => rfl
  | succ n ih =>
    have hle : n * esize ≤ 128 := Nat.le_trans (Nat.mul_le_mul_right esize n.le_succ) hn
    have hprev := ih hle fun i hi => h i (by omega)
    simp [build?, build, hprev, h n n.lt_succ_self, set?_eq _ _ hn]

theorem buildFlagged?_eq {n : Nat} {f : Nat → Option (Flagged (BitVec esize))}
    {g : Nat → Flagged (BitVec esize)} (hn : n * esize ≤ 128) (h : ∀ i < n, f i = some (g i)) :
    buildFlagged? n f = some (buildFlagged n g) := by
  induction n with
  | zero => rfl
  | succ n ih =>
    have hle : n * esize ≤ 128 := Nat.le_trans (Nat.mul_le_mul_right esize n.le_succ) hn
    have hprev := ih hle fun i hi => h i (by omega)
    simp only [buildFlagged?, hprev, h n n.lt_succ_self, set?_eq _ _ hn, Option.bind_eq_bind, Option.bind_some]
    rfl

theorem get_zero (v : BitVec 128) (esize : Nat) : get v esize 0 = v.setWidth esize := by
  apply BitVec.eq_of_getLsbD_eq
  intro i hi
  simp [get, hi]

theorem set_zero (x : BitVec esize) : set 0#128 0 x = x.setWidth 128 := by
  simp [set]

theorem scalar?_eq (x : BitVec esize) (h : esize ≤ 128) : scalar? x = some (scalar x) := by
  rw [scalar?, set?_eq _ _ (by omega), set_zero, scalar]

end Lanes

namespace Lane

variable {n : Nat}

theorem neg_le_value (signed : Bool) (x : BitVec n) : -(2 ^ n : Nat) ≤ value signed x := by
  cases signed with
  | false =>
    have h : (0 : Int) ≤ x.toNat := Int.natCast_nonneg _
    have hp : (0 : Int) ≤ (2 ^ n : Nat) := Int.natCast_nonneg _
    simp only [value, Bool.false_eq_true, if_false]
    omega
  | true =>
    have h := BitVec.le_two_mul_toInt (x := x)
    have hp : (0 : Int) ≤ (2 ^ n : Nat) := Int.natCast_nonneg _
    simp only [value, if_true]
    push_cast at hp ⊢
    omega

theorem value_lt (signed : Bool) (x : BitVec n) : value signed x < (2 ^ n : Nat) := by
  cases signed with
  | false =>
    have h := x.isLt
    simp only [value, Bool.false_eq_true, if_false]
    omega
  | true =>
    have h := BitVec.toInt_lt (x := x)
    have h2 := BitVec.two_mul_toInt_lt (x := x)
    have hp : (0 : Int) ≤ (2 ^ n : Nat) := Int.natCast_nonneg _
    simp only [value, if_true]
    push_cast at hp ⊢
    omega

theorem natAbs_value_le {k : Nat} (signed : Bool) (x : BitVec n) (h : n ≤ k) : (value signed x).natAbs ≤ 2 ^ k := by
  have hp : 2 ^ n ≤ 2 ^ k := Nat.pow_le_pow_right (by omega) h
  have hl := neg_le_value signed x
  have hu := value_lt signed x
  omega

theorem natAbs_mul_le {x y : Int} {a b : Nat} (hx : x.natAbs ≤ a) (hy : y.natAbs ≤ b) : (x * y).natAbs ≤ a * b := by
  rw [Int.natAbs_mul]
  exact Nat.mul_le_mul hx hy

theorem wide?_eq {x : Int} (h : x.natAbs ≤ 2 ^ 126) : wide? x = some x := by
  have hback : (BitVec.ofInt 128 x).toInt = x := by
    rw [BitVec.toInt_ofInt, Int.bmod_eq_of_le (by omega) (by omega)]
  rw [wide?, if_pos hback]

theorem difference?_eq {x y : Int} (h : (x - y).natAbs ≤ 2 ^ 126) : difference? x y = some ↑(x - y).natAbs := by
  rw [difference?, wide?_eq h, Option.bind_eq_bind, Option.bind_some, wide?_eq]
  rwa [Int.natAbs_natCast]

theorem wideShiftRight?_eq (x : Int) {k : Nat} (h : k < 128) : wideShiftRight? x k = some (x / 2 ^ k) := if_pos h

theorem two_pow_bounds {k : Nat} (h : k ≤ 64) : (0 : Int) < 2 ^ k ∧ (2 : Int) ^ k ≤ 2 ^ 64 :=
  ⟨Int.pow_pos (by decide), by exact_mod_cast Nat.pow_le_pow_right Nat.two_pos h⟩

theorem wideShiftLeft?_one {k : Nat} (h : k ≤ 64) : wideShiftLeft? 1 k = some (2 ^ k) := by
  have hk : k < 128 := by omega
  obtain ⟨hpos, hpow⟩ := two_pow_bounds h
  rw [wideShiftLeft?, if_pos hk, Int.one_mul, Int.bmod_eq_of_le (by omega) (by omega)]

/-- A lane keeps none of the bits that a shift pushes out of the 128. -/
theorem exists_wideShiftLeft? (x : Int) {k : Nat} (h : k < 128) (hn : n ≤ 128) :
    ∃ y, wideShiftLeft? x k = some y ∧ BitVec.ofInt n y = BitVec.ofInt n (x * 2 ^ k) := by
  refine ⟨_, if_pos h, ?_⟩
  have hdvd : ((2 ^ n : Nat) : Int) ∣ (2 ^ 128 : Nat) := Int.natCast_dvd_natCast.2 (Nat.pow_dvd_pow 2 hn)
  apply BitVec.eq_of_toNat_eq
  rw [BitVec.toNat_ofInt, BitVec.toNat_ofInt, ← Int.emod_emod_of_dvd _ hdvd, Int.bmod_emod, Int.emod_emod_of_dvd _ hdvd]

theorem and_ones_eq (x : BitVec 64) (n : Nat) : x &&& ones n = (x.setWidth n).setWidth 64 := by
  refine BitVec.eq_of_getLsbD_eq fun i hi => ?_
  rw [and_ones, BitVec.getLsbD_setWidth, BitVec.getLsbD_setWidth, decide_eq_true hi, Bool.true_and, Bool.and_comm]

theorem setWidth_setWidth {x : BitVec n} (hn : n ≤ 64) : (x.setWidth 64).setWidth n = x := by
  rw [BitVec.setWidth_setWidth_of_le _ hn, BitVec.setWidth_eq]

theorem widened?_eq (signed : Bool) (x : BitVec 64) (hpos : 0 < n) (hn : n ≤ 64) :
    widened? signed x n = some (value signed (x.setWidth n)) := by
  cases signed with
  | false =>
    rw [widened?, if_neg Bool.false_ne_true, and_ones_eq, BitVec.toNat_setWidth_of_le hn]
    rfl
  | true =>
    rw [widened?, if_pos rfl, signExtended?_eq x hpos hn, Bits.signExtendFrom, Option.map_some,
      BitVec.toInt_signExtend_of_le hn]
    rfl

theorem value?_eq (signed : Bool) (x : BitVec n) (hpos : 0 < n) (hn : n ≤ 64) :
    value? signed x = some (value signed x) := by
  rw [value?, widened?_eq signed _ hpos hn, setWidth_setWidth hn]

theorem range?_eq (signed : Bool) (hpos : 0 < n) (hn : n ≤ 64) :
    range? signed n = some (least signed n, greatest signed n) := by
  have hlimit {k : Nat} (hk : k ≤ 64) :
      wide? (-2 ^ k) = some (-2 ^ k) ∧ wide? (2 ^ k - 1) = some (2 ^ k - 1) := by
    obtain ⟨hpos, hpow⟩ := two_pow_bounds hk
    exact ⟨wide?_eq (by omega), wide?_eq (by omega)⟩
  cases signed with
  | false =>
    simp only [range?, Bool.false_eq_true, if_false, wideShiftLeft?_one hn, Option.bind_eq_bind, Option.bind_some,
      (hlimit hn).2]
    rfl
  | true =>
    have hk : n - 1 ≤ 64 := by omega
    simp only [range?, if_true, sub?_eq hpos, wideShiftLeft?_one hk, Option.bind_eq_bind, Option.bind_some,
      (hlimit hk).1, (hlimit hk).2]
    rfl

theorem least_le_greatest (signed : Bool) (n : Nat) : least signed n ≤ greatest signed n := by
  have hpos (k : Nat) : (0 : Int) < 2 ^ k := Int.pow_pos (by decide)
  have h := hpos (n - 1)
  have h' := hpos n
  cases signed <;> simp only [least, greatest, Bool.false_eq_true, if_false, if_true] <;> omega

theorem saturate?_eq (signed : Bool) (x : Int) (hpos : 0 < n) (hn : n ≤ 64) :
    saturate? signed n x = some (saturate signed n x) := by
  have hle := least_le_greatest signed n
  have hclamped : (max (least signed n) (min x (greatest signed n)) != x) =
      decide (x < least signed n ∨ greatest signed n < x) := by
    rw [Bool.eq_iff_iff, bne_iff_ne, decide_eq_true_iff]
    omega
  simp only [saturate?, range?_eq signed hpos hn, Option.bind_eq_bind, Option.bind_some, if_neg (Int.not_lt.2 hle),
    hclamped]
  rfl

theorem shiftByRegister?_eq (signed : Bool) (x amount : BitVec n) (hpos : 0 < n) (hn : n ≤ 64) :
    shiftByRegister? signed x amount = some (shiftByRegister signed x amount) := by
  rw [shiftByRegister?, shiftByRegister]
  generalize (amount.setWidth 8).toInt = k
  simp only [value?_eq signed x hpos hn, Option.bind_eq_bind, Option.bind_some]
  split
  next => rfl
  next hlt =>
    split
    next =>
      obtain ⟨y, hy, heq⟩ := exists_wideShiftLeft? (n := n) (value signed x) (show k.toNat < 128 by omega) (by omega)
      rw [hy, Option.bind_some, heq]
    next =>
      rw [wideShiftRight?_eq _ (by omega)]
      rfl

theorem shiftRight?_eq (signed rounding : Bool) {shift : Nat} (x : BitVec n) (hpos : 0 < n) (hn : n ≤ 64)
    (h1 : 1 ≤ shift) (h : shift ≤ 64) :
    shiftRight? signed rounding shift x = some (shiftRight signed rounding shift x) := by
  have hx := natAbs_value_le signed x hn
  have hshift : shift - 1 ≤ 64 := by omega
  obtain ⟨hpow, hpow'⟩ := two_pow_bounds hshift
  have hsum : wide? (value signed x + 2 ^ (shift - 1)) = some (value signed x + 2 ^ (shift - 1)) := wide?_eq (by omega)
  cases rounding with
  | false =>
    simp [shiftRight?, shiftRight, value?_eq signed x hpos hn, wideShiftRight?_eq _ (show shift < 128 by omega)]
  | true =>
    simp [shiftRight?, shiftRight, value?_eq signed x hpos hn, wideShiftRight?_eq _ (show shift < 128 by omega),
      sub?_eq h1, wideShiftLeft?_one hshift, hsum]

theorem shiftLeftLong?_eq (signed : Bool) {shift : Nat} (x : BitVec n) (hpos : 0 < n) (hn : n ≤ 64)
    (h : shift < 128) :
    shiftLeftLong? signed shift x = some (BitVec.ofInt (2 * n) (value signed x * 2 ^ shift)) := by
  obtain ⟨y, hy, heq⟩ := exists_wideShiftLeft? (n := 2 * n) (value signed x) h (by omega)
  simp only [shiftLeftLong?, value?_eq signed x hpos hn, hy, heq, Option.bind_eq_bind, Option.bind_some]

theorem setWidth_shiftLeft (x : BitVec 64) (i : Nat) (hn : n ≤ 64) : (x <<< i).setWidth n = x.setWidth n <<< i := by
  refine BitVec.eq_of_getLsbD_eq fun j hj => ?_
  have h64 : j < 64 := by omega
  have hrest : j - i < n := by omega
  simp [-BitVec.getLsbD_eq_getElem, hj, h64, hrest]

theorem addProduct?_eq (a b : BitVec n) (p : BitVec 64) {i : Nat} (hi : i < 64) :
    addProduct? (a.setWidth 64) (b.setWidth 64) p i = some (if b.getLsbD i then p ^^^ a.setWidth 64 <<< i else p) := by
  have hbit : (b.setWidth 64).getLsbD i = b.getLsbD i := by
    rw [BitVec.getLsbD_setWidth, decide_eq_true hi, Bool.true_and]
  simp only [addProduct?, bit?_eq _ hi, hbit, shiftLeft?_eq _ hi, Option.bind_eq_bind, Option.bind_some]
  cases b.getLsbD i <;> rfl

/-- The product in a word of 64 bits, of which the lane keeps its own. -/
theorem foldlM_addProduct? (a b : BitVec n) (hn : n ≤ 64) (places : List Nat) (h : ∀ i ∈ places, i < n)
    (p : BitVec 64) : ∃ product, places.foldlM (addProduct? (a.setWidth 64) (b.setWidth 64)) p = some product ∧
      product.setWidth n = places.foldl (fun p i => if b.getLsbD i then p ^^^ a <<< i else p) (p.setWidth n) := by
  induction places generalizing p with
  | nil => exact ⟨p, rfl, rfl⟩
  | cons i places ih =>
    have hi : i < 64 := Nat.lt_of_lt_of_le (h i (by simp)) hn
    have hstep : (if b.getLsbD i then p ^^^ a.setWidth 64 <<< i else p).setWidth n =
        if b.getLsbD i then p.setWidth n ^^^ a <<< i else p.setWidth n := by
      cases b.getLsbD i with
      | false => rfl
      | true => rw [if_pos rfl, if_pos rfl, BitVec.setWidth_xor, setWidth_shiftLeft _ i hn, setWidth_setWidth hn]
    rw [List.foldlM_cons, List.foldl_cons, addProduct?_eq _ _ _ hi, ← hstep]
    exact ih (fun j hj => h j (by simp [hj])) _

theorem polynomialProduct?_eq (a b : BitVec n) (hn : n ≤ 64) :
    polynomialProduct? a b = some (polynomialProduct a b) := by
  obtain ⟨product, hproduct, hlow⟩ := foldlM_addProduct? a b hn (List.range n) (fun i hi => List.mem_range.1 hi) 0#64
  rw [BitVec.setWidth_zero] at hlow
  rw [polynomialProduct?, and_ones_eq, setWidth_setWidth hn, hproduct, Option.bind_eq_bind, Option.bind_some,
    and_ones_eq, setWidth_setWidth hn, hlow]
  rfl

theorem leadingZeros?_eq (x : BitVec 64) (hn : n ≤ 64) : leadingZeros? x n = some (x.setWidth n).clz := by
  have hsize : (x.setWidth n).toNat.size ≤ n := Nat.size_le.2 (x.setWidth n).isLt
  have hcount : (x &&& ones n).clz.toNat = 64 - (x.setWidth n).toNat.size := by
    rw [LeadingBits.toNat_clz, and_ones_eq, BitVec.toNat_setWidth_of_le hn]
  have hclz := LeadingBits.toNat_clz (x.setWidth n)
  rw [leadingZeros?, sub?_eq hn, Option.bind_eq_bind, Option.bind_some, hcount, sub?_eq (by omega),
    Option.bind_some]
  refine congrArg some (BitVec.eq_of_toNat_eq ?_)
  have hlt : n < 2 ^ n := Nat.lt_two_pow_self
  rw [hclz, BitVec.toNat_ofNat, Nat.mod_eq_of_lt (by omega)]
  omega

theorem leadingSigns?_eq (x : BitVec n) (hpos : 0 < n) (hn : n ≤ 64) : leadingSigns? x = some (leadingSigns x) := by
  have hlast : n - 1 < 64 := by omega
  have hsign : (x.setWidth 64).getLsbD (n - 1) = x.msb := by
    rw [BitVec.getLsbD_setWidth, decide_eq_true hlast, Bool.true_and, BitVec.msb_eq_getLsbD_last]
  have hcomplement : (~~~x.setWidth 64).setWidth n = ~~~x := by
    rw [BitVec.setWidth_not hn, setWidth_setWidth hn]
  have hshift (y : BitVec 64) : (y <<< 1 ||| 1#64).setWidth n = y.setWidth n <<< 1 ||| 1#n := by
    rw [BitVec.setWidth_or, setWidth_shiftLeft y 1 hn, BitVec.setWidth_ofNat_of_le hn]
  rw [leadingSigns?, leadingSigns]
  simp only [sub?_eq hpos, Option.bind_eq_bind, Option.bind_some, bit?_eq _ hlast, hsign, leadingZeros?_eq _ hn, hshift]
  cases x.msb with
  | false => simp [setWidth_setWidth hn]
  | true => simp [hcomplement]

theorem addPair?_eq (signed : Bool) (acc : BitVec (2 * n)) (x y : BitVec n) (hpos : 0 < n) (hn : n ≤ 32) :
    addPair? signed acc x y = some (acc + BitVec.ofInt (2 * n) (value signed x + value signed y)) := by
  have hacc : (acc.toNat : Int).natAbs ≤ 2 ^ 64 := natAbs_value_le false acc (by omega)
  have hx := natAbs_value_le signed x hn
  have hy := natAbs_value_le signed y hn
  have hfirst : wide? (acc.toNat + value signed x) = some (acc.toNat + value signed x) := wide?_eq (by omega)
  have hsecond : wide? (acc.toNat + value signed x + value signed y) =
    some (acc.toNat + value signed x + value signed y) := wide?_eq (by omega)
  have hsum : BitVec.ofInt (2 * n) (acc.toNat + value signed x + value signed y) =
      acc + BitVec.ofInt (2 * n) (value signed x + value signed y) := by
    rw [Int.add_assoc, BitVec.ofInt_add, BitVec.ofInt_natCast, BitVec.ofNat_toNat, BitVec.setWidth_eq]
  simp only [addPair?, value?_eq signed _ hpos (Nat.le_trans hn (by decide)), Option.bind_eq_bind, Option.bind_some,
    hfirst, hsecond, hsum]

end Lane

open Lane

/-- Only products need narrow lanes. -/
theorem LaneOp.result?_eq {n : Nat} {op : LaneOp} (signed : Bool) (a b acc : BitVec n) (hpos : 0 < n) (hn : n ≤ 64)
    (hw : op.hasWideForm = false → n ≤ 32) : op.result? signed a b acc = some (op.apply signed a b acc) := by
  have hx := natAbs_value_le signed a hn
  have hy := natAbs_value_le signed b hn
  have hacc := natAbs_value_le false acc hn
  have hxy (hw : n ≤ 32) : (value signed a * value signed b).natAbs ≤ 2 ^ 32 * 2 ^ 32 :=
    natAbs_mul_le (natAbs_value_le signed a hw) (natAbs_value_le signed b hw)
  have hold : BitVec.ofInt n (value false acc) = acc := by simp [value]
  have hshift := shiftByRegister?_eq signed a b hpos hn
  have hproduct := polynomialProduct?_eq a b hn
  simp only [result?, apply, value?_eq _ _ hpos hn, Option.bind_eq_bind, Option.bind_some]
  generalize value signed a = x at *
  generalize value signed b = y at *
  generalize value false acc = z at *
  have hsum : wide? (x + y) = some (x + y) := wide?_eq (by omega)
  have hsucc : wide? (x + y + 1) = some (x + y + 1) := wide?_eq (by omega)
  have hdiff : wide? (x - y) = some (x - y) := wide?_eq (by omega)
  have habs : difference? x y = some ↑(x - y).natAbs := difference?_eq (by omega)
  have hmore : wide? (z + (x - y).natAbs) = some (z + (x - y).natAbs) := wide?_eq (by omega)
  generalize ((x - y).natAbs : Int) = distance at *
  cases op
  case multiply | multiplyAdd | multiplySub =>
    have hxy := hxy (hw rfl)
    have hmul : wide? (x * y) = some (x * y) := wide?_eq (by omega)
    have hadd : wide? (z + x * y) = some (z + x * y) := wide?_eq (by omega)
    have hsub : wide? (z - x * y) = some (z - x * y) := wide?_eq (by omega)
    have hofsub : BitVec.ofInt n (z - x * y) = acc - BitVec.ofInt n (x * y) := by
      rw [Int.sub_eq_add_neg, BitVec.ofInt_add, BitVec.ofInt_neg, hold, BitVec.sub_eq_add_neg]
    simp [hmul, hadd, hsub, hofsub, BitVec.ofInt_add, hold]
  all_goals simp [hsum, hsucc, hdiff, habs, hmore, hshift, hproduct, wideShiftRight?_eq, saturate?_eq signed _ hpos hn,
    BitVec.ofInt_add, hold]

theorem LongOp.result?_eq {op : LongOp} {x y acc : Int} (hx : x.natAbs ≤ 2 ^ 64) (hy : y.natAbs ≤ 2 ^ 32)
    (ha : acc.natAbs ≤ 2 ^ 64) : op.result? x y acc = some (op.apply x y acc) := by
  have hxy := natAbs_mul_le hx hy
  have habs : difference? x y = some ↑(x - y).natAbs := difference?_eq (by omega)
  have hmore : wide? (acc + (x - y).natAbs) = some (acc + (x - y).natAbs) := wide?_eq (by omega)
  have hmul : wide? (x * y) = some (x * y) := wide?_eq (by omega)
  have hadd : wide? (acc + x * y) = some (acc + x * y) := wide?_eq (by omega)
  have hsub : wide? (acc - x * y) = some (acc - x * y) := wide?_eq (by omega)
  cases op with
  | add => exact wide?_eq (x := x + y) (by omega)
  | sub => exact wide?_eq (x := x - y) (by omega)
  | absoluteDifference => exact habs
  | absoluteDifferenceAccumulate => simp only [result?, apply, habs, hmore, Option.bind_eq_bind, Option.bind_some]
  | multiply => exact hmul
  | multiplyAdd => simp [result?, apply, hmul, hadd]
  | multiplySub => simp [result?, apply, hmul, hsub]

theorem LaneUnary.result?_eq {n : Nat} (op : LaneUnary) (x : BitVec n) (hpos : 0 < n) (hn : n ≤ 64) :
    op.result? x = some (op.apply x) := by
  have hx : x.toInt.natAbs ≤ 2 ^ 64 := natAbs_value_le true x hn
  have hvalue : value? true x = some x.toInt := value?_eq true x hpos hn
  have habs : wide? x.toInt.natAbs = some ↑x.toInt.natAbs := wide?_eq (by omega)
  have hneg : wide? (-x.toInt) = some (-x.toInt) := wide?_eq (by omega)
  cases op with
  | leadingZeros => rw [result?, leadingZeros?_eq _ hn, setWidth_setWidth hn, apply]
  | leadingSigns => exact leadingSigns?_eq x hpos hn
  | popCount | not | reverseBits => rfl
  | abs => rw [result?, hvalue, Option.bind_eq_bind, Option.bind_some, habs, Option.bind_some, apply]
  | neg => simp [result?, apply, hvalue, hneg, BitVec.ofInt_neg]
  | compareZero t => simp [result?, apply, hvalue]

theorem foldlM_wide?_eq {xs : List Int} {start : Int} {k : Nat} (hk : k + xs.length ≤ 2 ^ 62)
    (hs : start.natAbs ≤ 2 ^ 64 * k) (hx : ∀ x ∈ xs, x.natAbs ≤ 2 ^ 64) :
    xs.foldlM (fun s x => wide? (s + x)) start = some (xs.foldl (· + ·) start) := by
  induction xs generalizing start k with
  | nil => rfl
  | cons x xs ih =>
    have hx0 := hx x (by simp)
    simp only [List.length_cons] at hk
    rw [List.foldlM_cons, wide?_eq (by omega), List.foldl_cons]
    exact ih (k := k + 1) (by omega) (by omega) fun y hy => hx y (by simp [hy])

theorem Reduction.result?_eq (op : Reduction) {xs : List Int} (hlen : xs.length ≤ 16)
    (hx : ∀ x ∈ xs, x.natAbs ≤ 2 ^ 64) : op.result? xs = some (op.apply xs) := by
  cases op with
  | sum => exact foldlM_wide?_eq (k := 0) (by omega) (by simp) hx
  | max | min => rfl

end AArch64
