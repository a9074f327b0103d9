import AArch64.Proofs.StatusFlags
import AArch64.Proofs.Vectors.Extent

/-! Operations that treat their lanes alike. Such an operation on one lane gives the first lane of what it gives on
several, and raises no status flag that it does not raise there. -/
namespace AArch64

namespace Lanes

variable {esize : Nat}

theorem get_set_self (v : BitVec 128) {i : Nat} (x : BitVec esize) (hrange : (i + 1) * esize ≤ 128) :
    get (set v i x) esize i = x := by
  apply BitVec.eq_of_getLsbD_eq
  intro j hj
  have hlow : i * esize ≤ i * esize + j := Nat.le_add_right _ _
  have h128 : i * esize + j < 128 := by
    rw [Nat.succ_mul] at hrange
    omega
  rw [get, BitVec.getLsbD_extractLsb', getLsbD_set]
  simp [hj, h128]

theorem get_set_of_ne (v : BitVec 128) {i k : Nat} (x : BitVec esize) (h : k ≠ i) :
    get (set v i x) esize k = get v esize k := by
  apply BitVec.eq_of_getLsbD_eq
  intro j hj
  have hapart : ¬(i * esize ≤ k * esize + j ∧ k * esize + j < i * esize + esize) := by
    obtain hlt | hlt := Nat.lt_or_gt_of_ne h
    all_goals
      have hnext := Nat.mul_le_mul_right esize hlt
      rw [Nat.succ_mul] at hnext
      omega
  rw [get, BitVec.getLsbD_extractLsb', getLsbD_set, if_neg fun hin => hapart ⟨hin.1, hin.2.1⟩, get,
    BitVec.getLsbD_extractLsb']

theorem get_build {n k : Nat} (f : Nat → BitVec esize) (hk : k < n) (hrange : (k + 1) * esize ≤ 128) :
    get (build n f) esize k = f k := by
  induction n with
  | zero => exact absurd hk (Nat.not_lt_zero k)
  | succ n ih =>
    obtain hlt | rfl := Nat.lt_succ_iff_lt_or_eq.1 hk
    · exact (get_set_of_ne _ _ (Nat.ne_of_lt hlt)).trans (ih hlt)
    · exact get_set_self _ _ hrange

theorem build_congr {n : Nat} {f g : Nat → BitVec esize} (h : ∀ i < n, f i = g i) : build n f = build n g := by
  induction n with
  | zero => rfl
  | succ n ih => rw [build, build, ih fun i hi => h i (Nat.lt_succ_of_lt hi), h n n.lt_succ_self]

theorem buildFlagged_congr {n : Nat} {f g : Nat → Flagged (BitVec esize)} (h : ∀ i < n, f i = g i) :
    buildFlagged n f = buildFlagged n g := by
  induction n with
  | zero => rfl
  | succ n ih => rw [buildFlagged, buildFlagged, ih fun i hi => h i (Nat.lt_succ_of_lt hi), h n n.lt_succ_self]

theorem get_build_zero {n : Nat} (f : Nat → BitVec esize) (hsize : esize ≤ 128) :
    get (build (n + 1) f) esize 0 = f 0 :=
  get_build f n.succ_pos (by omega)

theorem get_of_beyond (v : BitVec 128) {k : Nat} (h : 128 ≤ k * esize) : get v esize k = 0 := by
  apply BitVec.eq_of_getLsbD_eq
  intro j hj
  rw [get, BitVec.getLsbD_extractLsb', BitVec.getLsbD_of_ge v _ (by omega)]
  simp

theorem raised_buildFlagged_succ (n : Nat) (f : Nat → Flagged (BitVec esize)) :
    (buildFlagged (n + 1) f).raised = (buildFlagged n f).raised.raise (f n).raised := by
  simp only [buildFlagged, Flagged.raised_bind, Flagged.raised_pure, Fpsr.raise_none]

theorem raised_buildFlagged_mono {k n : Nat} (h : k ≤ n) (f : Nat → Flagged (BitVec esize)) :
    (buildFlagged k f).raised ≤ (buildFlagged n f).raised := by
  induction h with
  | refl => exact Fpsr.le_refl _
  | step _ ih =>
    rw [raised_buildFlagged_succ]
    exact Fpsr.le_trans ih (Fpsr.le_raise_left _ _)

theorem get_scalar (x : BitVec esize) (hsize : esize ≤ 128) : get (scalar x) esize 0 = x := by
  apply BitVec.eq_of_getLsbD_eq
  intro j hj
  have h128 : j < 128 := by omega
  simp [get, scalar, hj, h128]

theorem eq_of_lanes {width n : Nat} {x y : BitVec width} (hwidth : n * esize = width)
    (h : ∀ i < n, x.extractLsb' (i * esize) esize = y.extractLsb' (i * esize) esize) : x = y := by
  apply BitVec.eq_of_getLsbD_eq
  intro j hj
  have hpos : 0 < esize := Nat.pos_of_ne_zero fun hzero => by
    rw [hzero, Nat.mul_zero] at hwidth
    omega
  have hlane : j / esize < n := (Nat.div_lt_iff_lt_mul hpos).2 (hwidth ▸ hj)
  have hbit := congrArg (·.getLsbD (j % esize)) (h (j / esize) hlane)
  simpa only [BitVec.getLsbD_extractLsb', Nat.mod_lt j hpos, decide_true, Bool.true_and, Nat.div_add_mod'] using hbit

theorem extractLsb'_get (v : BitVec 128) {width n i : Nat} (k : Nat) (hwidth : n * esize = width) (hi : i < n) :
    (get v width k).extractLsb' (i * esize) esize = get v esize (k * n + i) := by
  have hnext := Nat.mul_le_mul_right esize (Nat.succ_le_of_lt hi)
  rw [Nat.succ_mul] at hnext
  apply BitVec.eq_of_getLsbD_eq
  intro j hj
  have hin : i * esize + j < width := by omega
  rw [get, get, BitVec.getLsbD_extractLsb', BitVec.getLsbD_extractLsb', BitVec.getLsbD_extractLsb', Nat.add_mul,
    Nat.mul_assoc, hwidth, Nat.add_assoc]
  simp [hj, hin]

theorem setWidth_eq_get (v : BitVec 128) (width : Nat) : v.setWidth width = get v width 0 := by
  apply BitVec.eq_of_getLsbD_eq
  intro j hj
  simp [get, hj]

/-- Values whose lanes are the same up to a width are the same up to there. -/
theorem setWidth_eq_of_get {u v : BitVec 128} {n width : Nat} (hwidth : n * esize = width)
    (h : ∀ i < n, get u esize i = get v esize i) : u.setWidth width = v.setWidth width := by
  rw [setWidth_eq_get, setWidth_eq_get]
  refine eq_of_lanes hwidth fun i hi => ?_
  rw [extractLsb'_get u 0 hwidth hi, extractLsb'_get v 0 hwidth hi, Nat.zero_mul, Nat.zero_add, h i hi]

theorem setWidth_of_zeroFrom {u : BitVec 128} {n : Nat} (h : ZeroFrom n u) : (u.setWidth n).setWidth 128 = u := by
  apply BitVec.eq_of_getLsbD_eq
  intro j hj
  rw [BitVec.getLsbD_setWidth, BitVec.getLsbD_setWidth]
  by_cases hlow : j < n
  · simp [hj, hlow]
  · simp [hlow, h j (Nat.not_lt.1 hlow)]

theorem get_sized (v : BitVec 128) {full : Bool} {i : Nat} (hi : (i + 1) * esize ≤ if full then 128 else 64) :
    get (sized v full) esize i = get v esize i := by
  cases full with
  | true => rfl
  | false =>
    rw [if_neg Bool.false_ne_true, Nat.succ_mul] at hi
    apply BitVec.eq_of_getLsbD_eq
    intro j hj
    have hlow : i * esize + j < 64 := by omega
    have hin : i * esize + j < 128 := by omega
    simp [get, sized, clearFrom, hj, hlow, hin]

/-- A value that has only lanes of another one is the lower half of that or all of it. -/
theorem eq_sized_of_get {u v : BitVec 128} {full : Bool} {n : Nat} (hwidth : n * esize = if full then 128 else 64)
    (hzero : ZeroFrom (n * esize) u) (h : ∀ i < n, get u esize i = get v esize i) : u = sized v full := by
  rw [← setWidth_of_zeroFrom hzero, setWidth_eq_of_get rfl h, hwidth]
  cases full with
  | true => simp [sized]
  | false => rfl

/-- Lane `k` of a result has the value, if the register is long enough for it, and the flags have been raised. -/
structure HasLane (k : Nat) (r : Flagged (BitVec 128)) (x : Flagged (BitVec esize)) : Prop where
  value : (k + 1) * esize ≤ 128 → get r.value esize k = x.value
  raised : x.raised ≤ r.raised

theorem hasLane_buildFlagged {n k : Nat} (hk : k < n) (f : Nat → Flagged (BitVec esize)) :
    HasLane k (buildFlagged n f) (f k) where
  value hrange := by rw [value_buildFlagged, get_build _ hk hrange]
  raised := by
    refine Fpsr.le_trans ?_ (raised_buildFlagged_mono hk f)
    rw [raised_buildFlagged_succ]
    exact Fpsr.le_raise_right _ _

theorem hasLane_scalar (x : Flagged (BitVec esize)) : HasLane 0 (do pure (scalar (← x))) x where
  value hrange := get_scalar x.value (by omega)
  raised := Fpsr.le_raise_left _ _

theorem buildFlagged_pure (n : Nat) (f : Nat → BitVec esize) :
    buildFlagged n (fun i => pure (f i)) = pure (build n f) := by
  induction n with
  | zero => rfl
  | succ n ih =>
    rw [buildFlagged, ih]
    rfl

end Lanes

open Lanes

/-- Each lane of the result is computed in the same way, however many there are. -/
def Lanewise (esize : Nat) (eval : Nat → VectorOperands → Flagged (BitVec 128)) : Prop :=
  ∀ v, ∃ f : Nat → Flagged (BitVec esize), ∀ n, eval n v = buildFlagged n f

namespace Lanewise

variable {esize : Nat} {eval : Nat → VectorOperands → Flagged (BitVec 128)}

theorem of_pure (f : VectorOperands → Nat → BitVec esize) (h : ∀ n v, eval n v = pure (build n (f v))) :
    Lanewise esize eval := by
  intro v
  refine ⟨fun i => pure (f v i), fun n => ?_⟩
  rw [h, buildFlagged_pure]

/-- The first lane does not depend on how many there are, and more lanes raise no fewer flags. -/
theorem first_lane (h : Lanewise esize eval) (hsize : esize ≤ 128) {n : Nat} (hn : 0 < n) (v : VectorOperands) :
    get (eval 1 v).value esize 0 = get (eval n v).value esize 0 ∧ (eval 1 v).raised ≤ (eval n v).raised := by
  obtain ⟨f, hf⟩ := h v
  obtain ⟨n, rfl⟩ := Nat.exists_eq_succ_of_ne_zero (Nat.ne_of_gt hn)
  rw [hf, hf, value_buildFlagged, value_buildFlagged, get_build_zero _ hsize, get_build_zero _ hsize]
  exact ⟨rfl, raised_buildFlagged_mono hn f⟩

end Lanewise

section Operations

variable (size : ElementSize) (p : Precision)

theorem VectorOp.lanewise_lanes (op : LaneOp) (signed : Bool) :
    Lanewise size.bits fun n => (VectorOp.lanes op signed { size, elements := n }).eval :=
  fun v => ⟨fun i => op.apply signed (get v.n _ i) (get v.m _ i) (get v.d _ i), fun _ => rfl⟩

theorem VectorOp.lanewise_unary (op : LaneUnary) :
    Lanewise size.bits fun n => (VectorOp.unary op { size, elements := n }).eval :=
  .of_pure (fun v i => op.apply (get v.n _ i)) fun _ _ => rfl

theorem VectorOp.lanewise_shiftRight (signed rounding accumulate : Bool) (shift : Nat) :
    Lanewise size.bits fun n => (VectorOp.shiftRight signed rounding accumulate shift { size, elements := n }).eval :=
  .of_pure (fun v i => (if accumulate then get v.d _ i else 0#_) + Lane.shiftRight signed rounding shift (get v.n _ i))
    fun _ _ => rfl

theorem VectorOp.lanewise_shiftRightInsert (shift : Nat) :
    Lanewise size.bits fun n => (VectorOp.shiftRightInsert shift { size, elements := n }).eval :=
  .of_pure (fun v i =>
    let mask := BitVec.allOnes size.bits >>> shift
    get v.d size.bits i &&& ~~~mask ||| get v.n size.bits i >>> shift &&& mask) fun _ _ => rfl

theorem VectorOp.lanewise_shiftLeft (keep : Bool) (shift : Nat) :
    Lanewise size.bits fun n => (VectorOp.shiftLeft keep shift { size, elements := n }).eval :=
  .of_pure (fun v i =>
    let mask := BitVec.allOnes size.bits <<< shift
    let x := get v.n size.bits i <<< shift
    if keep then get v.d size.bits i &&& ~~~mask ||| x &&& mask else x) fun _ _ => rfl

theorem VectorOp.lanewise_duplicate (index : Nat) :
    Lanewise size.bits fun n => (VectorOp.duplicate index { size, elements := n }).eval :=
  .of_pure (fun v _ => get v.n _ index) fun _ _ => rfl

theorem FloatVectorOp.lanewise_lanes (op : FloatLane) :
    Lanewise p.bits fun n => (FloatVectorOp.lanes op p n).eval :=
  fun v => ⟨fun i => op.apply (lane p v.n i) (lane p v.m i) (lane p v.d i), fun _ => rfl⟩

theorem FloatVectorOp.lanewise_byElement (op : FloatLane) (index : Nat) :
    Lanewise p.bits fun n => (FloatVectorOp.byElement op p n index).eval :=
  fun v => ⟨fun i => op.apply (lane p v.n i) (lane p v.m index) (lane p v.d i), fun _ => rfl⟩

theorem FloatVectorOp.lanewise_unary (op : FloatUnary) :
    Lanewise p.bits fun n => (FloatVectorOp.unary op p n).eval :=
  fun v => ⟨fun i => op.apply (lane p v.n i), fun _ => rfl⟩

end Operations
end AArch64
