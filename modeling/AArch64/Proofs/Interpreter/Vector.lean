import AArch64.Proofs.Interpreter.Lanes

/-! Vector operations whose lanes and shifts are in range give what the decoded operations do. -/
namespace AArch64.VectorOp

open Lanes

theorem pairLane?_eq {n m : BitVec 128} {esize elements i : Nat} (h : elements * esize ≤ 128)
    (hi : i < 2 * elements) : pairLane? n m esize elements i = some (pairLane n m esize elements i) := by
  unfold pairLane? pairLane
  split
  next hlt => exact get?_eq n (succ_mul_le h hlt)
  next hge => exact get?_eq m (succ_mul_le h (by omega))

theorem half?_eq (d result : BitVec 128) (upper : Bool) : half? d result upper = some (half d result upper) := by
  cases upper with
  | false => rfl
  | true =>
    rw [half?, if_pos rfl, get?_eq _ (by decide), Option.bind_eq_bind, Option.bind_some, set?_eq _ _ (by decide),
      get_zero]
    rfl

theorem permuted?_eq {op : Permutation} {part : Nat} {n m : BitVec 128} {esize elements i : Nat}
    (h : elements * esize ≤ 128) (hp : part ≤ 1) (he : 2 ∣ elements) (hi : i < elements) :
    permuted? op part n m esize elements i = some (permuted op part n m esize elements i) := by
  obtain ⟨k, rfl⟩ := he
  cases op with
  | unzip => exact pairLane?_eq h (by omega)
  | transpose => exact get?_eq _ (succ_mul_le h (by omega))
  | zip =>
    refine get?_eq _ (succ_mul_le h ?_)
    have hpart : part * (2 * k / 2) ≤ k := by
      rw [Nat.mul_div_cancel_left k (by omega)]
      simpa using Nat.mul_le_mul_right k hp
    omega

theorem longLane?_eq {op : LongOp} {signed wideFirst : Bool} {size : ElementSize} {upper : Bool}
    {v : VectorOperands} {i : Nat} (h : size ≠ .double) (hi : i < halfLanes size) :
    longLane? op signed wideFirst size.bits (firstLane size upper) v i
      = some (longLane op signed wideFirst size.bits (firstLane size upper) v i) := by
  have hpos := size.bits_pos
  have hbits := ElementSize.bits_le_of_ne_double h
  have hnarrow := firstLane_add_lt upper hi
  have hwide := wide_succ_mul_le hi
  have hy (y : BitVec size.bits) : (Lane.value signed y).natAbs ≤ 2 ^ 32 := Lane.natAbs_value_le signed y hbits
  have hacc (x : BitVec (2 * size.bits)) : (x.toNat : Int).natAbs ≤ 2 ^ 64 :=
    Lane.natAbs_value_le false x (by omega)
  have hvalue (x : BitVec size.bits) : Lane.value? signed x = some (Lane.value signed x) :=
    Lane.value?_eq signed x hpos (by omega)
  cases wideFirst with
  | false =>
    have hx (x : BitVec size.bits) : (Lane.value signed x).natAbs ≤ 2 ^ 64 :=
      Lane.natAbs_value_le signed x (by omega)
    simp [longLane?, longLane, get?_eq _ hnarrow, get?_eq _ hwide, hvalue, LongOp.result?_eq (hx _) (hy _) (hacc _)]
  | true =>
    have hx (x : BitVec (2 * size.bits)) : (Lane.value signed x).natAbs ≤ 2 ^ 64 :=
      Lane.natAbs_value_le signed x (by omega)
    have hvalue' (x : BitVec (2 * size.bits)) : Lane.value? signed x = some (Lane.value signed x) :=
      Lane.value?_eq signed x (by omega) (by omega)
    simp [longLane?, longLane, get?_eq _ hnarrow, get?_eq _ hwide, hvalue, hvalue',
      LongOp.result?_eq (hx _) (hy _) (hacc _)]

/-- An operation in range is not stopped by any of the checks. -/
theorem eval?_eq {op : VectorOp} (h : op.InRange) (v : VectorOperands) : op.eval? v = some (op.eval v) := by
  cases op with
  | lanes op signed a =>
    refine buildFlagged?_eq h.1 fun i hi => ?_
    have hi := succ_mul_le h.1 hi
    simp [get?_eq _ hi, LaneOp.result?_eq signed _ _ _ a.esize_pos a.esize_le (Arrangement.esize_le_of h.2)]
  | pairwise op signed a =>
    refine buildFlagged?_eq h.1 fun i hi => ?_
    simp [pairLane?_eq h.1 (show 2 * i < 2 * a.elements by omega),
      pairLane?_eq h.1 (show 2 * i + 1 < 2 * a.elements by omega),
      LaneOp.result?_eq signed _ _ _ a.esize_pos a.esize_le (Arrangement.esize_le_of h.2)]
  | byElement op a index =>
    obtain ⟨ha, hsize, hindex⟩ := h
    refine buildFlagged?_eq ha fun i hi => ?_
    have hi := succ_mul_le ha hi
    simp [get?_eq _ hi, get?_eq _ hindex,
      LaneOp.result?_eq false _ _ _ a.esize_pos a.esize_le fun _ => ElementSize.bits_le_of_ne_double hsize]
  | bitwise op full => rfl
  | long op signed wideFirst size upper =>
    simp [eval?, eval, build?_eq (halfLanes_mul_wide size) fun i hi => longLane?_eq h hi]
  | highNarrow subtract size upper =>
    rw [eval?, build?_eq (halfLanes_mul_le size) fun i hi => by
      simp only [get?_eq _ (wide_succ_mul_le hi), Option.bind_eq_bind, Option.bind_some]
      rfl]
    simp [half?_eq, eval]
  | unary op a =>
    rw [eval?, build?_eq h fun i hi => by
      rw [get?_eq _ (succ_mul_le h hi), Option.bind_eq_bind, Option.bind_some,
        LaneUnary.result?_eq op _ a.esize_pos a.esize_le]]
    rfl
  | reverse container a =>
    obtain ⟨ha, hk, hdvd⟩ := h
    simp only [eval?, if_neg (Nat.ne_of_gt hk)]
    rw [build?_eq ha fun i hi => get?_eq _ (succ_mul_le ha (mirrored_lt hk hdvd hi))]
    rfl
  | addLongPairs signed accumulate size elements =>
    obtain ⟨hsize, hwide⟩ := h
    have hbits := ElementSize.bits_le_of_ne_double hsize
    rw [eval?, build?_eq (g := fun i => (if accumulate then get v.d (2 * size.bits) i else 0)
      + BitVec.ofInt (2 * size.bits) (Lane.value signed (get v.n size.bits (2 * i))
        + Lane.value signed (get v.n size.bits (2 * i + 1)))) hwide fun i hi => by
        have hi := succ_mul_le hwide hi
        obtain ⟨hfirst, hsecond⟩ := pair_mul_le hi
        have hsum acc x y := Lane.addPair?_eq (n := size.bits) signed acc x y size.bits_pos hbits
        cases accumulate <;> simp [get?_eq _ hi, get?_eq _ hfirst, get?_eq _ hsecond, hsum]]
    rfl
  | narrow size upper =>
    rw [eval?, build?_eq (halfLanes_mul_le size) fun i hi => by
      rw [get?_eq _ (wide_succ_mul_le hi), Option.map_some]]
    simp [half?_eq, eval]
  | shiftRight signed rounding accumulate shift a =>
    obtain ⟨ha, hpos, hle⟩ := h
    have hshift := Nat.le_trans hle a.esize_le
    rw [eval?, build?_eq (g := fun i => (if accumulate then get v.d a.esize i else 0#a.esize)
      + Lane.shiftRight signed rounding shift (get v.n a.esize i)) ha fun i hi => by
        have hi := succ_mul_le ha hi
        have hlane x := Lane.shiftRight?_eq signed rounding x a.esize_pos a.esize_le hpos hshift
        cases accumulate <;> simp [get?_eq _ hi, hlane]]
    rfl
  | shiftRightInsert shift a =>
    rw [eval?, build?_eq h fun i hi => by
      simp only [get?_eq _ (succ_mul_le h hi), Option.bind_eq_bind, Option.bind_some]
      rfl]
    rfl
  | shiftLeft keep shift a =>
    obtain ⟨ha, hlt⟩ := h
    have hshift : ¬64 ≤ shift := by
      have hsize := a.esize_le
      omega
    simp only [eval?, if_neg hshift]
    rw [build?_eq ha fun i hi => by
      simp only [get?_eq _ (succ_mul_le ha hi), Option.bind_eq_bind, Option.bind_some]
      rfl]
    rfl
  | shiftRightNarrow rounding shift size upper =>
    obtain ⟨hsize, hpos, hle⟩ := h
    have hbits := ElementSize.bits_le_of_ne_double hsize
    have hwide := size.bits_pos
    rw [eval?, build?_eq (halfLanes_mul_le size) fun i hi => by
      rw [get?_eq _ (wide_succ_mul_le hi), Option.bind_eq_bind, Option.bind_some,
        Lane.shiftRight?_eq false rounding _ (by omega) (by omega) hpos (by omega), Option.bind_some]]
    simp [half?_eq, eval]
  | shiftLeftLong signed shift size upper =>
    obtain ⟨hsize, hlt⟩ := h
    have hbits := ElementSize.bits_le_of_ne_double hsize
    rw [eval?, build?_eq (halfLanes_mul_wide size) fun i hi => by
      rw [get?_eq _ (firstLane_add_lt upper hi), Option.bind_eq_bind, Option.bind_some,
        Lane.shiftLeftLong?_eq signed _ size.bits_pos size.bits_le (by omega)]]
    rfl
  | reduce op signed widening a =>
    obtain ⟨ha, _, hwidening⟩ := h
    have hlanes := Masked.mapM_eq_some (List.range a.elements)
      (f := fun i => do Lane.value? signed (← get? v.n a.esize i)) fun i hi => by
        rw [get?_eq v.n (succ_mul_le ha (List.mem_range.1 hi)), Option.bind_eq_bind, Option.bind_some,
          Lane.value?_eq signed _ a.esize_pos a.esize_le]
    have hsize : (if widening then 2 * a.esize else a.esize) ≤ 128 := by
      have hle := a.esize_le
      split <;> omega
    rw [eval?, hlanes, Option.bind_eq_bind, Option.bind_some, Reduction.result?_eq op, Option.bind_eq_bind,
      Option.bind_some, scalar?_eq _ hsize]
    · rfl
    · simpa using Arrangement.elements_le ha
    · intro x hx
      obtain ⟨i, _, rfl⟩ := List.mem_map.1 hx
      exact Lane.natAbs_value_le signed (get v.n a.esize i) a.esize_le
  | duplicate index a =>
    rw [eval?, get?_eq _ h.2, Option.bind_eq_bind, Option.bind_some, build?_eq h.1 fun _ _ => rfl]
    rfl
  | insert size target index =>
    rw [eval?, get?_eq _ h.2, Option.bind_eq_bind, Option.bind_some, set?_eq _ _ h.1]
    rfl
  | permute op part a =>
    obtain ⟨ha, hp, he⟩ := h
    rw [eval?, build?_eq ha fun i hi => permuted?_eq ha hp he hi]
    rfl
  | extract position full =>
    have hbytes : (if full then 16 else 8) * 8 ≤ 128 := by cases full <;> decide
    have hp : position < if full then 16 else 8 := h
    simp only [eval?]
    rw [build?_eq hbytes fun i hi => pairLane?_eq hbytes (by omega)]
    rfl
  | immediate use x full => rfl

end AArch64.VectorOp
