import AArch64.Proofs.Vectors.Forms

/-! Permutations of the lanes of two vectors, and reversals of lanes within containers. Both results of a permutation
together hold every lane of the sources once, and each permutation is undone by one of the three. A reversal undoes
itself. -/
namespace AArch64

namespace Permutation

/-- The permutation that undoes this one. -/
def inverse : Permutation → Permutation
  | unzip => zip
  | transpose => transpose
  | zip => unzip

/-- The code in bits 12 and 13. -/
def code : Permutation → Nat
  | unzip => 1
  | transpose => 2
  | zip => 3

/-- With `n` lanes in a vector, lane `j` of both results, one after the other, is this lane of both sources. -/
def source (op : Permutation) (n j : Nat) : Nat :=
  match op with
  | unzip => j % n * 2 + j / n
  | transpose => j % n % 2 * n + (j % n / 2 * 2 + j / n)
  | zip => j % 2 * n + j / 2

theorem add_split {n p i : Nat} (hi : i < n) : (p * n + i) % n = i ∧ (p * n + i) / n = p := by
  rw [Nat.add_comm, Nat.add_mul_mod_self_right, Nat.add_mul_div_right _ _ (by omega), Nat.mod_eq_of_lt hi,
    Nat.div_eq_of_lt hi, Nat.zero_add]
  exact ⟨rfl, rfl⟩

/-- A lane of two vectors has a number of a vector and a number in this vector. -/
theorem exists_split {n j : Nat} (hj : j < 2 * n) : ∃ p < 2, ∃ i < n, j = p * n + i := by
  by_cases h : j < n
  · exact ⟨0, by decide, j, h, by omega⟩
  · exact ⟨1, by decide, j - n, by omega, by omega⟩

theorem source_lt {op : Permutation} {n j : Nat} (hn : 2 ∣ n) (hj : j < 2 * n) : op.source n j < 2 * n := by
  obtain ⟨p, hp, i, hi, rfl⟩ := exists_split hj
  obtain ⟨k, rfl⟩ := hn
  cases op with
  | unzip =>
    rw [source, (add_split hi).1, (add_split hi).2]
    omega
  | transpose =>
    have hrest : i % 2 * (2 * k) ≤ 1 * (2 * k) := Nat.mul_le_mul_right _ (by omega)
    rw [source, (add_split hi).1, (add_split hi).2]
    omega
  | zip =>
    have hrest : (p * (2 * k) + i) % 2 * (2 * k) ≤ 1 * (2 * k) := Nat.mul_le_mul_right _ (by omega)
    rw [source]
    omega

theorem source_inverse {op : Permutation} {n j : Nat} (hn : 2 ∣ n) (hj : j < 2 * n) :
    op.source n (op.inverse.source n j) = j := by
  obtain ⟨p, hp, i, hi, rfl⟩ := exists_split hj
  obtain ⟨k, rfl⟩ := hn
  -- An index that an inner `source` gives has to be split again before the outer one can be read off.
  cases op with
  | unzip =>
    have hhalf : (p * (2 * k) + i) / 2 < 2 * k := by
      have hrest : p * (2 * k) ≤ 1 * (2 * k) := Nat.mul_le_mul_right _ (by omega)
      omega
    rw [inverse, source, source, (add_split hhalf).1, (add_split hhalf).2]
    omega
  | transpose =>
    have hlane : i / 2 * 2 + p < 2 * k := by omega
    have hparity : (i / 2 * 2 + p) % 2 = p ∧ (i / 2 * 2 + p) / 2 = i / 2 := by omega
    rw [inverse, source, source, (add_split hi).1, (add_split hi).2, (add_split hlane).1, (add_split hlane).2, hparity.1,
      hparity.2]
    omega
  | zip =>
    have hparity : (i * 2 + p) % 2 = p ∧ (i * 2 + p) / 2 = i := by omega
    rw [inverse, source, source, (add_split hi).1, (add_split hi).2, hparity.1, hparity.2]

end Permutation

namespace VectorOp

open Lanes

variable {esize n : Nat}

theorem pairLane_split (u v : BitVec 128) {p i : Nat} (hp : p < 2) (hi : i < n) :
    pairLane u v esize n (p * n + i) = get (if p = 0 then u else v) esize i := by
  obtain rfl | rfl : p = 0 ∨ p = 1 := by omega
  · rw [Nat.zero_mul, Nat.zero_add, pairLane, if_pos hi, if_pos rfl]
  · rw [Nat.one_mul, pairLane, if_neg (by omega), if_neg (by decide), Nat.add_sub_cancel_left]

theorem permuted_eq_pairLane (op : Permutation) (u v : BitVec 128) (hn : 2 ∣ n) {p i : Nat} (hp : p < 2) (hi : i < n) :
    permuted op p u v esize n i = pairLane u v esize n (op.source n (p * n + i)) := by
  obtain ⟨k, rfl⟩ := hn
  have hparity : i % 2 < 2 := Nat.mod_lt i (by decide)
  cases op with
  | unzip => rw [Permutation.source, (Permutation.add_split hi).1, (Permutation.add_split hi).2, Nat.mul_comm i]; rfl
  | transpose =>
    rw [Permutation.source, (Permutation.add_split hi).1, (Permutation.add_split hi).2,
      pairLane_split u v hparity (by omega)]
    rfl
  | zip =>
    have hsplit : (p * (2 * k) + i) % 2 = i % 2 ∧ (p * (2 * k) + i) / 2 = p * k + i / 2 := by
      rw [Nat.mul_left_comm]
      omega
    have hlane : p * k + i / 2 < 2 * k := by
      have hrest : p * k ≤ 1 * k := Nat.mul_le_mul_right _ (by omega)
      omega
    rw [Permutation.source, hsplit.1, hsplit.2, pairLane_split u v hparity hlane, permuted,
      Nat.mul_div_cancel_left k (by decide)]

/-- Both results of a permutation. -/
def permutedPair (op : Permutation) (u v : BitVec 128) (esize n part : Nat) : BitVec 128 :=
  build n (permuted op part u v esize n)

theorem pairLane_permutedPair (op : Permutation) (u v : BitVec 128) (hn : 2 ∣ n) (hfits : n * esize ≤ 128) {j : Nat}
    (hj : j < 2 * n) :
    pairLane (permutedPair op u v esize n 0) (permutedPair op u v esize n 1) esize n j =
      pairLane u v esize n (op.source n j) := by
  obtain ⟨p, hp, i, hi, rfl⟩ := Permutation.exists_split hj
  have hpart : (if p = 0 then permutedPair op u v esize n 0 else permutedPair op u v esize n 1) =
      permutedPair op u v esize n p := by
    obtain rfl | rfl : p = 0 ∨ p = 1 := by omega
    all_goals rfl
  rw [pairLane_split _ _ hp hi, hpart, permutedPair, get_build _ hi (succ_mul_le hfits hi),
    permuted_eq_pairLane op u v hn hp hi]

/-- The inverse permutation of both results gives the lanes of the first source or of the second one. -/
theorem permuted_inverse (op : Permutation) (u v : BitVec 128) (hn : 2 ∣ n) (hfits : n * esize ≤ 128) {p i : Nat}
    (hp : p < 2) (hi : i < n) :
    permuted op.inverse p (permutedPair op u v esize n 0) (permutedPair op u v esize n 1) esize n i =
      get (if p = 0 then u else v) esize i := by
  have hj : p * n + i < 2 * n := by
    have hpart : p * n ≤ 1 * n := Nat.mul_le_mul_right _ (by omega)
    omega
  rw [permuted_eq_pairLane op.inverse _ _ hn hp hi,
    pairLane_permutedPair op u v hn hfits (Permutation.source_lt hn hj), Permutation.source_inverse hn hj,
    pairLane_split u v hp hi]

theorem build_get_eq_sized (v : BitVec 128) {full : Bool} (hwidth : n * esize = if full then 128 else 64) :
    build n (get v esize) = sized v full := by
  have hfits : n * esize ≤ 128 := by
    rw [hwidth]
    cases full <;> decide
  exact eq_sized_of_get hwidth (zeroFrom_build n _) fun i hi => get_build _ hi (succ_mul_le hfits hi)

/-- Counted from the other end of its container twice, a lane is where it was. -/
theorem mirrored_mirrored {i k : Nat} (hk : 0 < k) :
    (i / k * k + (k - 1 - i % k)) / k * k + (k - 1 - (i / k * k + (k - 1 - i % k)) % k) = i := by
  have hlane : i % k < k := Nat.mod_lt i hk
  have hsplit := Permutation.add_split (p := i / k) (show k - 1 - i % k < k by omega)
  have hdiv := Nat.div_add_mod' i k
  rw [hsplit.1, hsplit.2]
  omega

end VectorOp

namespace InstructionWord

variable (w : InstructionWord)

/-- A permutation of lanes, and which of its two results. -/
def IsPermutation (op : Permutation) (second : Bool) : Prop :=
  w.IsVectorForm ∧ w.isPermute = true ∧ w.number 13 12 = op.code ∧ w.bit 14 = second

instance (op : Permutation) (second : Bool) : Decidable (w.IsPermutation op second) :=
  inferInstanceAs (Decidable (_ ∧ _))

/-- The containers of `REV64`, `REV32` and `REV16`. -/
def container? (opcode : Nat) (u : Bool) : Option Nat :=
  match opcode, u with
  | 0, false => some 64
  | 0, true => some 32
  | 1, false => some 16
  | _, _ => none

/-- A reversal of the lanes in each container. -/
def IsReversal (container : Nat) : Prop :=
  w.IsVectorForm ∧ w.isTwoRegister = true ∧ container? (w.number 16 12) (w.bit 29) = some container

instance (container : Nat) : Decidable (w.IsReversal container) := inferInstanceAs (Decidable (_ ∧ _))

variable {w}

theorem container?_eq {opcode container : Nat} {u : Bool} (h : container? opcode u = some container) :
    container = 64 ∨ container = 32 ∨ container = 16 := by
  unfold container? at h
  split at h <;> cases h
  · exact .inl rfl
  · exact .inr (.inl rfl)
  · exact .inr (.inr rfl)

theorem hasLanes_of_container {opcode container : Nat} {u : Bool} (h : container? opcode u = some container)
    (hsize : w.laneSize.bits < container) : w.HasLanes w.laneSize false := by
  refine .inr (.inr fun hdouble => ?_)
  have hle : container ≤ 64 := by
    obtain rfl | rfl | rfl := container?_eq h <;> decide
  rw [hdouble] at hsize
  exact absurd hsize (Nat.not_lt.2 hle)

end InstructionWord

namespace SimdInstruction

open InstructionWord

variable {w : InstructionWord}

theorem decode_of_isPermutation {op : Permutation} {second : Bool} (h : w.IsPermutation op second)
    (hlanes : w.HasLanes w.laneSize false) :
    decode w = usualVector w (.permute op second.toNat { size := w.laneSize, elements := w.laneCount w.laneSize false }) := by
  obtain ⟨hform, hclass, hcode, hsecond⟩ := h
  rw [decode_of_permute hform hclass, decodePermute]
  cases op <;> simp only [hcode, Permutation.code, hsecond, ← laneSize.eq_1, vector?_of_hasLanes hlanes] <;> rfl

theorem decode_of_isReversal {container : Nat} (h : w.IsReversal container) (hsize : w.laneSize.bits < container) :
    decode w = usualVector w (.reverse container { size := w.laneSize, elements := w.laneCount w.laneSize false }) := by
  obtain ⟨hform, hclass, hcontainer⟩ := h
  have hlanes : w.HasLanes w.laneSize false := hasLanes_of_container hcontainer hsize
  rw [decode_of_twoRegister hform hclass, decodeTwoRegister]
  unfold container? at hcontainer
  split at hcontainer <;> cases hcontainer
  all_goals
    next hopcode hu =>
      simp only [decodeIntegerMisc, hopcode, hu, ← laneSize.eq_1, vector?_of_hasLanes hlanes, if_neg (Nat.not_le.2 hsize)]
      rfl

end SimdInstruction

namespace InstructionWord

variable {w : InstructionWord}

theorem gives_permutedPair {op : Permutation} {second : Bool} (h : w.IsPermutation op second)
    (hlanes : w.HasLanes w.laneSize false) (u v : BitVec 128) :
    w.Gives u v (VectorOp.permutedPair op u v w.laneSize.bits (w.laneCount w.laneSize false) second.toNat) :=
  gives_of_usualVector h.1.1 (SimdInstruction.decode_of_isPermutation h hlanes) fun _ => rfl

theorem laneCount_fits (w : InstructionWord) (size : ElementSize) : w.laneCount size false * size.bits ≤ 128 := by
  rw [laneCount_mul]
  split <;> decide

/-- The inverse permutation gives back a source, or its lower half where the vectors have 64 bits. -/
theorem gives_source {op : Permutation} {second : Bool} (h : w.IsPermutation op.inverse second)
    (hlanes : w.HasLanes w.laneSize false) (u v : BitVec 128) :
    let z (part : Nat) := VectorOp.permutedPair op u v w.laneSize.bits (w.laneCount w.laneSize false) part
    w.Gives (z 0) (z 1) (Lanes.sized (if second then v else u) (w.bit 30)) := by
  intro z
  refine gives_of_usualVector h.1.1 (SimdInstruction.decode_of_isPermutation h hlanes) fun d => ?_
  have hsource : (if second.toNat = 0 then u else v) = if second then v else u := by cases second <;> rfl
  rw [← VectorOp.build_get_eq_sized _ (w.laneCount_mul w.laneSize), ← hsource]
  exact Lanes.build_congr fun i hi => VectorOp.permuted_inverse op u v (two_dvd_laneCount hlanes)
    (w.laneCount_fits w.laneSize) second.toNat_lt hi

/-- What a reversal leaves. -/
def reversed (w : InstructionWord) (container : Nat) (u : BitVec 128) : BitVec 128 :=
  let k := container / w.laneSize.bits
  Lanes.build (w.laneCount w.laneSize false) fun i => Lanes.get u w.laneSize.bits (i / k * k + (k - 1 - i % k))

theorem gives_reversed {container : Nat} (h : w.IsReversal container) (hsize : w.laneSize.bits < container)
    (u x : BitVec 128) : w.Gives u x (w.reversed container u) :=
  gives_of_usualVector h.1.1 (SimdInstruction.decode_of_isReversal h hsize) fun _ => rfl

theorem container_dvd {opcode container : Nat} {u : Bool} (h : container? opcode u = some container)
    (hsize : w.laneSize.bits < container) :
    0 < container / w.laneSize.bits ∧ container / w.laneSize.bits ∣ w.laneCount w.laneSize false := by
  have hlanes := hasLanes_of_container h hsize
  refine Arrangement.reverse_inRange (SimdInstruction.vector?_of_hasLanes hlanes) hsize ?_
  simpa [or_comm, or_assoc, or_left_comm] using container?_eq h

theorem reversed_reversed {opcode container : Nat} {b : Bool} (h : container? opcode b = some container)
    (hsize : w.laneSize.bits < container) (u : BitVec 128) :
    w.reversed container (w.reversed container u) = Lanes.sized u (w.bit 30) := by
  obtain ⟨hpos, hdvd⟩ := container_dvd h hsize
  rw [← VectorOp.build_get_eq_sized _ (w.laneCount_mul w.laneSize)]
  refine Lanes.build_congr fun i hi => ?_
  have hmirrored := VectorOp.mirrored_lt hpos hdvd hi
  exact (Lanes.get_build _ hmirrored (Lanes.succ_mul_le (w.laneCount_fits w.laneSize) hmirrored)).trans
    (congrArg (Lanes.get u w.laneSize.bits) (VectorOp.mirrored_mirrored hpos))

end InstructionWord

namespace Machine

open InstructionWord Lanes

/-- The permutations of lanes in pairs of which each undoes the other, and the reversals of lanes, which undo themselves.
For every shape of vectors, whatever the words name and the sources hold, the two results of a permutation have the
sources as the two results of its inverse. Vectors of 64 bits give the lower halves, with zeros above all results. -/
theorem permutations_undone (u v : BitVec 128) :
    (∀ (op : Permutation) (second : Bool) (w₀ w₁ w : InstructionWord), w₀.IsPermutation op false →
        w₁.IsPermutation op true → w.IsPermutation op.inverse second → w.SameShape w₀ → w.SameShape w₁ →
        w.HasLanes w.laneSize false →
        ∃ z₀ z₁, w₀.Gives u v z₀ ∧ w₁.Gives u v z₁ ∧ w.Gives z₀ z₁ (sized (if second then v else u) (w.bit 30)) ∧
          (w.bit 30 = false → ZeroFrom 64 z₀ ∧ ZeroFrom 64 z₁)) ∧
      ∀ (container : Nat) (w₀ w : InstructionWord), w₀.IsReversal container → w.IsReversal container → w.SameShape w₀ →
        w.laneSize.bits < container →
        ∃ z, (∀ x, w₀.Gives u x z) ∧ (∀ x, w.Gives z x (sized u (w.bit 30))) ∧ (w.bit 30 = false → ZeroFrom 64 z) := by
  have hzero {w : InstructionWord} (f : Nat → BitVec w.laneSize.bits) (hhalf : w.bit 30 = false) :
      ZeroFrom 64 (build (w.laneCount w.laneSize false) f) := by
    have hlow := zeroFrom_build (w.laneCount w.laneSize false) f
    rwa [w.laneCount_mul, hhalf] at hlow
  constructor
  · intro op second w₀ w₁ w h₀ h₁ h hshape₀ hshape₁ hlanes
    have hgives₀ := gives_permutedPair h₀ (hasLanes_of_sameShape hshape₀ hlanes) u v
    have hgives₁ := gives_permutedPair h₁ (hasLanes_of_sameShape hshape₁ hlanes) u v
    rw [laneCount_of_sameShape hshape₀, hshape₀.1] at hgives₀
    rw [laneCount_of_sameShape hshape₁, hshape₁.1] at hgives₁
    exact ⟨_, _, hgives₀, hgives₁, gives_source h hlanes u v, fun hhalf => ⟨hzero _ hhalf, hzero _ hhalf⟩⟩
  · intro container w₀ w h₀ h hshape hsize
    have hgives₀ := gives_reversed h₀ (by rwa [hshape.1]) u
    have hsame : w₀.reversed container u = w.reversed container u := by
      rw [reversed, reversed, laneCount_of_sameShape hshape, hshape.1]
    rw [hsame] at hgives₀
    have hgives := gives_reversed h hsize (w.reversed container u)
    rw [reversed_reversed h.2.2 hsize] at hgives
    exact ⟨_, hgives₀, hgives, hzero _⟩

/-- `ZIP1 V2.8B, V0.8B, V1.8B`, `ZIP2 V3.8B, V0.8B, V1.8B` and `UZP2 V4.8B, V2.8B, V3.8B` in a row, and `REV32 V0.8B, V0.8B`
two times. The upper half of the first source does not count. -/
theorem permutations_undone_bytes :
    let zip₁ : InstructionWord := 0x0E013802#32
    let zip₂ : InstructionWord := 0x0E017803#32
    let unzip : InstructionWord := 0x0E035844#32
    let reverse : InstructionWord := 0x2E200800#32
    let m : Machine := withState {} (State.setVector (State.setVector {} 0#5 0xFF0001020304050607#128)
      1#5 0x1011121314151617#128)
    let zipped := ((m.execute zip₁).2.execute zip₂).2
    zip₁.IsPermutation .zip false ∧ zip₂.IsPermutation .zip true ∧ unzip.IsPermutation (Permutation.inverse .zip) true ∧
      unzip.SameShape zip₁ ∧ unzip.SameShape zip₂ ∧ unzip.HasLanes unzip.laneSize false ∧
      (zipped.execute unzip).2.state.vector unzip.rd = 0x1011121314151617#128 ∧
      reverse.IsReversal 32 ∧ reverse.laneSize.bits < 32 ∧
      ((m.execute reverse).2.execute reverse).2.state.vector reverse.rd = 0x0001020304050607#128 := by
  intro zip₁ zip₂ unzip reverse m zipped
  have h₀ : zip₁.IsPermutation .zip false := by decide
  have h₁ : zip₂.IsPermutation .zip true := by decide
  have h : unzip.IsPermutation (Permutation.inverse .zip) true := by decide
  have hreverse : reverse.IsReversal 32 := by decide
  obtain ⟨hpermutations, hreversals⟩ := permutations_undone 0xFF0001020304050607#128 0x1011121314151617#128
  obtain ⟨z₀, z₁, hgives₀, hgives₁, hgives, _⟩ :=
    hpermutations .zip true zip₁ zip₂ unzip h₀ h₁ h (by decide) (by decide) (by decide)
  obtain ⟨z, hgives₂, hgives₃, _⟩ := hreversals 32 reverse reverse hreverse hreverse (by decide) (by decide)
  obtain ⟨_, hz₀⟩ := hgives₀ m (by decide +kernel) (by decide +kernel)
  obtain ⟨_, hz₁⟩ := hgives₁ (m.execute zip₁).2 (by decide +kernel) (by decide +kernel)
  obtain ⟨_, hz⟩ := hgives₂ _ m (by decide +kernel) rfl
  have hfirst : zipped.state.vector unzip.rn = (m.execute zip₁).2.state.vector zip₁.rd := by decide +kernel
  have hsecond : unzip.rm = zip₂.rd := by decide
  have hsource : reverse.rn = reverse.rd := by decide
  obtain ⟨_, hunzipped⟩ := hgives zipped (hfirst.trans hz₀) (hsecond ▸ hz₁)
  obtain ⟨_, hreversed⟩ := hgives₃ _ (m.execute reverse).2 (hsource ▸ hz) rfl
  exact ⟨h₀, h₁, h, by decide, by decide, by decide, hunzipped.trans (by decide +kernel), hreverse, by decide,
    hreversed.trans (by decide +kernel)⟩

end Machine
end AArch64
