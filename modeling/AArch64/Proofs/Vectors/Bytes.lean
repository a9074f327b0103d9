import AArch64.Proofs.Integers.ByteOrder
import AArch64.Proofs.Vectors.Lanewise
import AArch64.VectorBytes

/-! Sixteen bytes and the number of 128 bits that they stand for. Reading, writing and clearing bytes comes to reading,
writing and clearing lanes of the number. -/
namespace AArch64

open Word

theorem Lanes.byte_get (x : BitVec 128) {n i k : Nat} (hk : k < n) :
    byte (get x (8 * n) i) k = byte x (i * n + k) := by
  refine BitVec.eq_of_getLsbD_eq fun j hj => ?_
  have hin : 8 * k + j < 8 * n := by omega
  rw [getLsbD_byte _ _ hj, getLsbD_byte _ _ hj, get, BitVec.getLsbD_extractLsb', decide_eq_true hin, Bool.true_and,
    Nat.mul_left_comm, Nat.mul_add, Nat.add_assoc]

theorem Lanes.byte_set (x : BitVec 128) {n i k : Nat} (y : BitVec (8 * n)) (hk : k < 16) :
    byte (set x i y) k = if i * n ≤ k ∧ k < i * n + n then byte y (k - i * n) else byte x k := by
  refine BitVec.eq_of_getLsbD_eq fun j hj => ?_
  rw [getLsbD_byte _ _ hj, getLsbD_set, Nat.mul_left_comm]
  by_cases hin : i * n ≤ k ∧ k < i * n + n
  · rw [if_pos hin, if_pos (by omega), getLsbD_byte _ _ hj]
    congr 1
    omega
  · rw [if_neg hin, if_neg (by omega), getLsbD_byte _ _ hj]

theorem Lanes.byte_clearFrom (x : BitVec 128) {m k : Nat} (hk : k < 16) :
    byte (clearFrom x m) k = if k < m then byte x k else 0#8 := by
  refine BitVec.eq_of_getLsbD_eq fun j hj => ?_
  have hin : 8 * k + j < 128 := by omega
  rw [getLsbD_byte _ _ hj, clearFrom, BitVec.getLsbD_setWidth, BitVec.getLsbD_setWidth, decide_eq_true hin, Bool.true_and]
  by_cases hm : k < m
  · rw [if_pos hm, decide_eq_true (by omega), Bool.true_and, getLsbD_byte _ _ hj]
  · rw [if_neg hm, decide_eq_false (by omega), Bool.false_and, BitVec.getLsbD_zero]

namespace VectorBytes

variable {v : VectorBytes} {n i : Nat}

theorem byte_number (v : VectorBytes) {k : Nat} (hk : k < 16) : Word.byte v.number k = v.byte k := byte_ofBytes _ hk

/-- The number of the bytes is known from each of them. -/
theorem number_eq_iff {x : BitVec 128} : v.number = x ↔ ∀ k < 16, v.byte k = Word.byte x k := by
  constructor
  · rintro rfl k hk
    exact (v.byte_number hk).symm
  · exact fun h => eq_of_bytes (n := 16) rfl fun k hk => (v.byte_number hk).trans (h k hk)

@[simp] theorem number_ofNumber (x : BitVec 128) : (ofNumber x).number = x := by
  refine number_eq_iff.2 fun k hk => ?_
  rw [byte, ofNumber, List.getD_eq_getElem?_getD, getElem?_bytes, if_pos hk, Option.getD_some]

@[simp] theorem ofNumber_number (v : VectorBytes) : ofNumber v.number = v := by
  refine VectorBytes.ext (List.ext_getElem? fun k => ?_)
  rw [ofNumber, getElem?_bytes]
  by_cases hk : k < 16
  · have hlen : k < v.bytes.length := by rwa [v.sixteen]
    rw [if_pos hk, v.byte_number hk, byte, List.getD_eq_getElem?_getD, List.getElem?_eq_getElem hlen, Option.getD_some]
  · rw [if_neg hk, List.getElem?_eq_none (by rw [v.sixteen]; omega)]

theorem getElem?_splice {α : Type} {xs : List α} (ys : List α) {a : Nat} (ha : a ≤ xs.length) (k : Nat) :
    (xs.take a ++ (ys ++ (xs.drop a).drop ys.length))[k]? =
      if a ≤ k ∧ k < a + ys.length then ys[k - a]? else xs[k]? := by
  have hlen : (xs.take a).length = a := by rw [List.length_take, Nat.min_eq_left ha]
  by_cases hlow : k < a
  · rw [List.getElem?_append_left (by omega), List.getElem?_take_of_lt hlow, if_neg (by omega)]
  rw [List.getElem?_append_right (by omega), hlen]
  by_cases hin : k < a + ys.length
  · rw [List.getElem?_append_left (by omega), if_pos (by omega)]
  · rw [List.getElem?_append_right (by omega), if_neg (by omega), List.getElem?_drop, List.getElem?_drop]
    congr 1
    omega

theorem inRange_iff : Lanes.inRange (8 * n) i = true ↔ i * n ≤ v.bytes.length ∧ n ≤ (v.bytes.drop (i * n)).length := by
  rw [Lanes.inRange, decide_eq_true_eq, Nat.succ_mul, Nat.mul_left_comm, List.length_drop, v.sixteen]
  omega

theorem lane?_eq (v : VectorBytes) (n i : Nat) : v.lane? n i = Lanes.get? v.number (8 * n) i := by
  unfold lane? Lanes.get?
  by_cases h : Lanes.inRange (8 * n) i = true
  · rw [if_pos h, if_pos (inRange_iff.1 h)]
    refine congrArg some (eq_of_bytes (Nat.mul_comm n 8) fun k hk => ?_)
    have hlt : i * n + k < 16 := by
      have hrange := (inRange_iff (v := v)).1 h
      rw [List.length_drop, v.sixteen] at hrange
      omega
    rw [byte_ofBytes _ hk, Lanes.byte_get _ hk, v.byte_number hlt, byte, List.getD_eq_getElem?_getD, List.getElem?_drop,
      List.getD_eq_getElem?_getD]
  · rw [if_neg h, if_neg (mt inRange_iff.2 h)]

theorem setLane?_eq (v : VectorBytes) (i : Nat) (x : BitVec (8 * n)) :
    (v.setLane? i x).map number = Lanes.set? v.number i x := by
  unfold setLane? Lanes.set?
  by_cases h : Lanes.inRange (8 * n) i = true
  · have hrange := (inRange_iff (v := v)).1 h
    rw [if_pos h, dif_pos hrange, Option.map_some]
    refine congrArg some (number_eq_iff.2 fun k hk => ?_)
    have hsplice := getElem?_splice (Word.bytes n x) hrange.1 k
    rw [length_bytes] at hsplice
    rw [byte, List.getD_eq_getElem?_getD, hsplice, Lanes.byte_set _ _ hk]
    by_cases hin : i * n ≤ k ∧ k < i * n + n
    · rw [if_pos hin, if_pos hin, getElem?_bytes, if_pos (by omega), Option.getD_some]
    · rw [if_neg hin, if_neg hin, v.byte_number hk, byte, List.getD_eq_getElem?_getD]
  · rw [if_neg h, dif_neg (mt inRange_iff.2 h), Option.map_none]

theorem number_clearFrom (v : VectorBytes) {m : Nat} (hm : m ≤ 16) :
    (v.clearFrom m hm).number = Lanes.clearFrom v.number m := by
  refine number_eq_iff.2 fun k hk => ?_
  have hlen : (v.bytes.take m).length = m := by rw [List.length_take, v.sixteen, Nat.min_eq_left hm]
  rw [Lanes.byte_clearFrom _ hk, v.byte_number hk, byte, byte, clearFrom, List.getD_eq_getElem?_getD]
  by_cases hlow : k < m
  · rw [if_pos hlow, List.getElem?_append_left (by omega), List.getElem?_take_of_lt hlow, List.getD_eq_getElem?_getD]
  · rw [if_neg hlow, List.getElem?_append_right (by omega), List.getElem?_replicate, if_pos (by omega), Option.getD_some]

theorem clearFrom?_eq (v : VectorBytes) (m : Nat) : (v.clearFrom? m).map number = Lanes.clearFrom? v.number m := by
  unfold clearFrom? Lanes.clearFrom?
  split
  next hm => exact congrArg some (v.number_clearFrom hm)
  next => rfl

theorem number_sized (v : VectorBytes) (full : Bool) : (v.sized full).number = Lanes.sized v.number full := by
  cases full with
  | true => rfl
  | false => exact v.number_clearFrom (by decide)

/-- Clearing the register first leaves zeros above a scalar. -/
theorem scalar?_eq (x : BitVec (8 * n)) (hn : n ≤ 16) : (scalar? x).map number = some (Lanes.scalar x) := by
  have hzero : zero.number = 0#128 := by decide
  have hrange : Lanes.inRange (8 * n) 0 = true := by
    rw [Lanes.inRange, decide_eq_true_eq]
    omega
  rw [scalar?, setLane?_eq, hzero, Lanes.set?, if_pos hrange]
  simp [Lanes.set, Lanes.scalar]

section Element

open ElementSize

theorem ofBits_of_ne {esize : Nat} (h8 : esize ≠ 8) (h16 : esize ≠ 16) (h32 : esize ≠ 32) : ofBits esize = .double := by
  rw [ofBits, if_neg h8, if_neg h16, if_neg h32]

theorem element?_eq (v : VectorBytes) (i esize : Nat) :
    v.element? i esize = (Lanes.get? v.number (ofBits esize).bits i).map (·.setWidth 64) := by
  unfold element?
  split
  · exact congrArg _ (v.lane?_eq 1 i)
  · exact congrArg _ (v.lane?_eq 2 i)
  · exact congrArg _ (v.lane?_eq 4 i)
  next h8 h16 h32 =>
    rw [ofBits_of_ne h8 h16 h32, v.lane?_eq 8 i]
    simp [ElementSize.bits]

theorem signedElement?_eq (v : VectorBytes) (i esize : Nat) :
    v.signedElement? i esize = (Lanes.get? v.number (ofBits esize).bits i).map (·.signExtend 64) := by
  unfold signedElement?
  split
  · exact congrArg _ (v.lane?_eq 1 i)
  · exact congrArg _ (v.lane?_eq 2 i)
  · exact congrArg _ (v.lane?_eq 4 i)
  next h8 h16 h32 =>
    rw [ofBits_of_ne h8 h16 h32, v.lane?_eq 8 i]
    simp [ElementSize.bits]

theorem setElement?_eq (v : VectorBytes) (i esize : Nat) (x : BitVec 64) :
    (v.setElement? i esize x).map number = Lanes.set? v.number i (x.setWidth (ofBits esize).bits) := by
  unfold setElement?
  split
  · exact v.setLane?_eq i _
  · exact v.setLane?_eq i _
  · exact v.setLane?_eq i _
  next h8 h16 h32 =>
    rw [ofBits_of_ne h8 h16 h32]
    have hset : (v.setLane? (n := 8) i x).map number = @Lanes.set? 64 v.number i x := v.setLane?_eq (n := 8) i x
    exact hset.trans (congrArg (@Lanes.set? 64 v.number i) (BitVec.setWidth_eq x).symm)

end Element

end VectorBytes
end AArch64
