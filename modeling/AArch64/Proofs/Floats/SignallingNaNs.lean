import AArch64.Proofs.Floats.Encoding
import AArch64.Proofs.Vectors.Lanewise

/-! Signalling NaNs in arithmetic. They are quieted and raise the invalid flag, with one exception: the operations that
prefer a number to a quiet NaN take a signalling NaN for a number. -/
namespace AArch64

namespace Float

variable {p : Precision}

theorem withNaNs_cases (xs : List (Float p)) (r : Option (Float p)) :
    (∃ x ∈ xs, isSignalling x = true ∧ withNaNs xs r = Flagged.invalid (quieted x)) ∨
      (∀ x ∈ xs, isSignalling x = false) ∧
        ((∃ x ∈ xs, isNaN x = true ∧ withNaNs xs r = pure x) ∨
          (∀ x ∈ xs, isNaN x = false) ∧
            ((∃ y, r = some y ∧ withNaNs xs r = pure y) ∨
              r = none ∧ withNaNs xs r = Flagged.invalid (defaultNaN p))) := by
  unfold withNaNs propagate?
  cases hsignalling : xs.find? isSignalling with
  | some x => exact .inl ⟨x, List.mem_of_find?_eq_some hsignalling, List.find?_some hsignalling, rfl⟩
  | none =>
    refine .inr ⟨fun x hx => eq_false_of_ne_true (List.find?_eq_none.1 hsignalling x hx), ?_⟩
    cases hnan : xs.find? isNaN with
    | some x => exact .inl ⟨x, List.mem_of_find?_eq_some hnan, List.find?_some hnan, rfl⟩
    | none =>
      refine .inr ⟨fun x hx => eq_false_of_ne_true (List.find?_eq_none.1 hnan x hx), ?_⟩
      cases r with
      | some y => exact .inl ⟨y, rfl, rfl⟩
      | none => exact .inr ⟨rfl, rfl⟩

theorem raised_withNaNs {xs : List (Float p)} {x : Float p} (r : Option (Float p)) (hx : x ∈ xs)
    (hs : isSignalling x = true) : (withNaNs xs r).raised.invalidOperation = true := by
  obtain ⟨y, _, _, h⟩ | ⟨hquiet, _⟩ := withNaNs_cases xs r
  · rw [h]
    rfl
  · rw [hquiet x hx] at hs
    cases hs

/-- Behind the NaN rule no signalling NaN comes out if the operation itself does not make a NaN from numbers. -/
theorem isSignalling_withNaNs {xs : List (Float p)} {r : Option (Float p)}
    (h : (∀ x ∈ xs, isNaN x = false) → ∀ y, r = some y → isNaN y = false) :
    isSignalling (withNaNs xs r).value = false := by
  obtain ⟨x, _, _, heq⟩ | ⟨hquiet, ⟨x, hx, _, heq⟩ | ⟨hnumbers, ⟨y, hy, heq⟩ | ⟨_, heq⟩⟩⟩ := withNaNs_cases xs r <;>
    rw [heq]
  · exact isSignalling_quieted x
  · exact hquiet x hx
  · rw [Flagged.value_pure, isSignalling, h hnumbers y hy, Bool.false_and]
  · exact isSignalling_defaultNaN p

section Numbers

variable {a b c y : Float p}

theorem isNaN_add (ha : isNaN a = false) (hb : isNaN b = false) (h : add a b = some y) : isNaN y = false := by
  unfold add at h
  repeat' split at h
  all_goals cases h
  · exact ha
  · exact hb
  · exact isNaN_roundInt p _ _ _

theorem isNaN_sub (ha : isNaN a = false) (hb : isNaN b = false) (h : sub a b = some y) : isNaN y = false :=
  isNaN_add ha (b.isNaN_neg.trans hb) h

theorem isNaN_mul (h : mul a b = some y) : isNaN y = false := by
  unfold mul at h
  dsimp only at h
  repeat' split at h
  all_goals cases h
  · exact isNaN_infinity p _
  · exact isNaN_round p _ _ _

theorem isNaN_div (h : div a b = some y) : isNaN y = false := by
  unfold div at h
  dsimp only at h
  repeat' split at h
  all_goals cases h
  · exact isNaN_infinity p _
  · exact isNaN_ofParts _ (Nat.zero_le _)
  · exact isNaN_infinity p _
  · exact isNaN_round p _ _ _

theorem isNaN_fma (hc : isNaN c = false) (h : fma c a b = some y) : isNaN y = false := by
  unfold fma at h
  dsimp only at h
  repeat' split at h
  all_goals cases h
  · exact isNaN_infinity p _
  · exact hc
  · exact isNaN_roundInt p _ _ _

theorem isNaN_sqrt (ha : isNaN a = false) (h : sqrt a = some y) : isNaN y = false := by
  unfold sqrt at h
  dsimp only at h
  repeat' split at h
  all_goals cases h
  · exact ha
  · exact ha
  all_goals exact isNaN_round p _ _ _

theorem isNaN_maximum (ha : isNaN a = false) (hb : isNaN b = false) : isNaN (maximum a b) = false := by
  unfold maximum
  repeat' split
  all_goals assumption

theorem isNaN_minimum (ha : isNaN a = false) (hb : isNaN b = false) : isNaN (minimum a b) = false := by
  unfold minimum
  repeat' split
  all_goals assumption

theorem Binary.isNaN_onNumbers {op : Binary} (ha : isNaN a = false) (hb : isNaN b = false)
    (h : op.onNumbers a b = some y) : isNaN y = false := by
  cases op with
  | add => exact isNaN_add ha hb h
  | sub => exact isNaN_sub ha hb h
  | mul => exact isNaN_mul h
  | div => exact isNaN_div h
  | max | maxNumber =>
    cases h
    exact isNaN_maximum ha hb
  | min | minNumber =>
    cases h
    exact isNaN_minimum ha hb
  | negatedMul =>
    obtain ⟨x, hx, rfl⟩ := Option.map_eq_some_iff.1 h
    exact x.isNaN_neg.trans (isNaN_mul hx)
  | absoluteDifference =>
    obtain ⟨x, hx, rfl⟩ := Option.map_eq_some_iff.1 h
    exact x.isNaN_abs.trans (isNaN_sub ha hb hx)

end Numbers

namespace Binary

variable {op : Binary} {a b : Float p}

/-- The operation prefers numbers, and of its two operands one is a quiet NaN and the other a signalling one. -/
def mixes (op : Binary) (a b : Float p) : Bool :=
  op.prefersNumber && (isQuiet a && isSignalling b || isSignalling a && isQuiet b)

theorem mixes_eq (op : Binary) (a b : Float p) :
    op.mixes a b = ((op.prefersNumber && isQuiet a != isQuiet b) && (isSignalling a || isSignalling b)) := by
  rw [mixes, Bool.and_assoc]
  obtain ⟨_, haq, has⟩ | ⟨_, haq, has⟩ | ⟨_, haq, has⟩ := a.kinds <;>
    obtain ⟨_, hbq, hbs⟩ | ⟨_, hbq, hbs⟩ | ⟨_, hbq, hbs⟩ := b.kinds <;>
    simp [haq, has, hbq, hbs]

/-- The second operand comes out as it is, and nothing is raised. -/
theorem apply_of_mixes (h : op.mixes a b = true) : op.apply a b = pure b := by
  have hskips := h
  rw [mixes_eq, Bool.and_eq_true] at hskips
  have ha : isNaN a = true := by
    rw [mixes, Bool.and_eq_true, Bool.or_eq_true, Bool.and_eq_true, Bool.and_eq_true] at h
    obtain ⟨ha, _⟩ | ⟨ha, _⟩ := h.2
    · exact (Bool.and_eq_true_iff.1 ha).1
    · exact (Bool.and_eq_true_iff.1 ha).1
  rw [apply, if_pos hskips.1, if_pos ha]

theorem raised_apply (hmixes : op.mixes a b = false) (hs : isSignalling a = true ∨ isSignalling b = true) :
    (op.apply a b).raised.invalidOperation = true := by
  rw [mixes_eq, Bool.or_eq_true_iff.2 hs, Bool.and_true] at hmixes
  have hraised : (withNaNs [a, b] (op.onNumbers a b)).raised.invalidOperation = true :=
    hs.elim (raised_withNaNs _ (by simp)) (raised_withNaNs _ (by simp))
  rw [apply, hmixes, if_neg Bool.false_ne_true]
  exact Bool.or_eq_true_iff.2 (.inl hraised)

/-- The operations miss a signalling NaN exactly where they mix it with a quiet one. -/
theorem mixes_iff : op.mixes a b = true ↔
    (isSignalling a = true ∨ isSignalling b = true) ∧ (op.apply a b).raised.invalidOperation = false := by
  constructor
  · intro h
    have hs := h
    rw [mixes_eq, Bool.and_eq_true, Bool.or_eq_true] at hs
    exact ⟨hs.2, by rw [apply_of_mixes h]; rfl⟩
  · rintro ⟨hs, hflag⟩
    refine eq_true_of_ne_false fun hmixes => ?_
    rw [raised_apply hmixes hs] at hflag
    cases hflag

theorem isSignalling_apply (hmixes : op.mixes a b = false) : isSignalling (op.apply a b).value = false := by
  rw [mixes_eq] at hmixes
  by_cases hskips : (op.prefersNumber && isQuiet a != isQuiet b) = true
  · rw [hskips, Bool.true_and, Bool.or_eq_false_iff] at hmixes
    rw [apply, if_pos hskips, Flagged.value_pure]
    split
    · exact hmixes.2
    · exact hmixes.1
  · rw [apply, if_neg hskips]
    refine isSignalling_withNaNs fun hnumbers y hy => isNaN_onNumbers (hnumbers a ?_) (hnumbers b ?_) hy <;> simp

end Binary

theorem raised_multiplyAdd {c a b : Float p} (hs : isSignalling c = true ∨ isSignalling a = true ∨ isSignalling b = true) :
    (multiplyAdd c a b).raised.invalidOperation = true := by
  obtain hs | hs | hs := hs <;> exact raised_withNaNs _ (by simp) hs

theorem isSignalling_multiplyAdd (c a b : Float p) : isSignalling (multiplyAdd c a b).value = false :=
  isSignalling_withNaNs fun hnumbers _ hy => isNaN_fma (hnumbers c (List.mem_cons_self ..)) hy

theorem raised_squareRoot {x : Float p} (hs : isSignalling x = true) : (squareRoot x).raised.invalidOperation = true :=
  raised_withNaNs _ (List.mem_singleton_self x) hs

theorem isSignalling_squareRoot (x : Float p) : isSignalling (squareRoot x).value = false :=
  isSignalling_withNaNs fun hnumbers _ hy => isNaN_sqrt (hnumbers x (List.mem_singleton_self x)) hy

theorem raised_roundToIntegral {x : Float p} (mode : Rounding) (hs : isSignalling x = true) :
    (roundToIntegral mode x).raised.invalidOperation = true :=
  raised_withNaNs _ (List.mem_singleton_self x) hs

theorem isSignalling_roundToIntegral (mode : Rounding) (x : Float p) :
    isSignalling (roundToIntegral mode x).value = false := by
  refine isSignalling_withNaNs fun hnumbers y hy => ?_
  cases hy
  unfold integral
  split
  · exact hnumbers x (List.mem_singleton_self x)
  · exact isNaN_round p _ _ _

/-- What an instruction computes for one lane: operations on its operands and on the results of other operations. -/
inductive Expression (p : Precision)
  | operand (x : Float p)
  | neg (a : Expression p)
  | binary (op : Binary) (a b : Expression p)
  | multiplyAdd (addend a b : Expression p)
  | squareRoot (a : Expression p)
  | roundToIntegral (mode : Rounding) (a : Expression p)

namespace Expression

def run : Expression p → Flagged (Float p)
  | operand x => pure x
  | neg a => do pure (Float.neg (← a.run))
  | binary op a b => do op.apply (← a.run) (← b.run)
  | multiplyAdd addend a b => do Float.multiplyAdd (← addend.run) (← a.run) (← b.run)
  | squareRoot a => do Float.squareRoot (← a.run)
  | roundToIntegral mode a => do Float.roundToIntegral mode (← a.run)

def operands : Expression p → List (Float p)
  | operand x => [x]
  | binary _ a b => a.operands ++ b.operands
  | multiplyAdd addend a b => addend.operands ++ (a.operands ++ b.operands)
  | neg a | squareRoot a | roundToIntegral _ a => a.operands

/-- One of the operations mixes a quiet NaN with a signalling one. -/
def mixes : Expression p → Bool
  | operand _ => false
  | binary op a b => a.mixes || b.mixes || op.mixes a.run.value b.run.value
  | multiplyAdd addend a b => addend.mixes || a.mixes || b.mixes
  | neg a | squareRoot a | roundToIntegral _ a => a.mixes

/-- The result is that of an operation, and not an operand or its negation. -/
def Operates : Expression p → Prop
  | operand _ | neg _ => False
  | binary _ _ _ | multiplyAdd _ _ _ | squareRoot _ | roundToIntegral _ _ => True

theorem isSignalling_run {c : Expression p} (hop : c.Operates) (hmixes : c.mixes = false) :
    isSignalling c.run.value = false := by
  cases c with
  | operand | neg => exact hop.elim
  | binary op a b =>
    rw [mixes, Bool.or_eq_false_iff] at hmixes
    exact Binary.isSignalling_apply hmixes.2
  | multiplyAdd => exact isSignalling_multiplyAdd _ _ _
  | squareRoot => exact isSignalling_squareRoot _
  | roundToIntegral => exact isSignalling_roundToIntegral _ _

/-- A signalling NaN among the operands is not lost on the way: the flag is raised, or it is still there to raise it. -/
theorem raised_or_isSignalling {c : Expression p} {x : Float p} (hmixes : c.mixes = false) (hx : x ∈ c.operands)
    (hs : isSignalling x = true) : c.run.raised.invalidOperation = true ∨ isSignalling c.run.value = true := by
  -- What an operation gets from below has been noticed there, or is noticed by the operation itself.
  induction c with
  | operand y =>
    obtain rfl := List.mem_singleton.1 hx
    exact .inr hs
  | neg a ih =>
    simp only [run, Flagged.raised_bind, Flagged.value_bind, Flagged.raised_pure, Flagged.value_pure, Fpsr.raise_none,
      isSignalling_neg]
    exact ih hmixes hx
  | binary op a b iha ihb =>
    simp only [mixes, Bool.or_eq_false_iff] at hmixes
    obtain ⟨⟨ha, hb⟩, hroot⟩ := hmixes
    have happly := Binary.raised_apply hroot
    left
    simp only [run, Flagged.raised_bind, Fpsr.raise, Bool.or_eq_true]
    obtain hx | hx := List.mem_append.1 hx
    · exact (iha ha hx).imp_right fun h => .inr (happly (.inl h))
    · exact .inr ((ihb hb hx).imp_right fun h => happly (.inr h))
  | multiplyAdd addend a b ihaddend iha ihb =>
    simp only [mixes, Bool.or_eq_false_iff] at hmixes
    obtain ⟨⟨haddend, ha⟩, hb⟩ := hmixes
    have hroot := raised_multiplyAdd (c := addend.run.value) (a := a.run.value) (b := b.run.value)
    left
    simp only [run, Flagged.raised_bind, Fpsr.raise, Bool.or_eq_true]
    obtain hx | hx | hx := (List.mem_append.1 hx).imp_right List.mem_append.1
    · exact (ihaddend haddend hx).imp_right fun h => .inr (.inr (hroot (.inl h)))
    · exact .inr ((iha ha hx).imp_right fun h => .inr (hroot (.inr (.inl h))))
    · exact .inr (.inr ((ihb hb hx).imp_right fun h => hroot (.inr (.inr h))))
  | squareRoot a ih =>
    left
    simp only [run, Flagged.raised_bind, Fpsr.raise, Bool.or_eq_true]
    exact (ih hmixes hx).imp_right raised_squareRoot
  | roundToIntegral mode a ih =>
    left
    simp only [run, Flagged.raised_bind, Fpsr.raise, Bool.or_eq_true]
    exact (ih hmixes hx).imp_right (raised_roundToIntegral mode)

theorem raised_run {c : Expression p} {x : Float p} (hop : c.Operates) (hmixes : c.mixes = false)
    (hx : x ∈ c.operands) (hs : isSignalling x = true) : c.run.raised.invalidOperation = true := by
  obtain h | h := raised_or_isSignalling hmixes hx hs
  · exact h
  · rw [isSignalling_run hop hmixes] at h
    cases h

end Expression

end Float

open AArch64.Float

section Lanes

variable {p : Precision} {c : Expression p}

/-- The lane is the value of an expression. The arithmetic operations have one, and comparisons do not. -/
inductive FloatLane.Computes (a b acc : Float p) : FloatLane → Expression p → Prop
  | binary (op : Binary) : Computes a b acc (.binary op) (.binary op (.operand a) (.operand b))
  | multiplyAdd : Computes a b acc .multiplyAdd (.multiplyAdd (.operand acc) (.operand a) (.operand b))
  | multiplySub : Computes a b acc .multiplySub (.multiplyAdd (.operand acc) (.neg (.operand a)) (.operand b))

inductive FloatUnary.Computes (x : Float p) : FloatUnary → Expression p → Prop
  | sqrt : Computes x .sqrt (.squareRoot (.operand x))
  | round (mode : Rounding) : Computes x (.round mode) (.roundToIntegral mode (.operand x))

theorem FloatLane.Computes.operates {op : FloatLane} {a b acc : Float p} (h : op.Computes a b acc c) : c.Operates := by
  cases h <;> trivial

theorem FloatLane.Computes.apply_eq {op : FloatLane} {a b acc : Float p} (h : op.Computes a b acc c) :
    op.apply a b acc = c.run := by
  cases h <;> simp only [Expression.run, Flagged.pure_bind] <;> rfl

theorem FloatUnary.Computes.operates {op : FloatUnary} {x : Float p} (h : op.Computes x c) : c.Operates := by
  cases h <;> trivial

theorem FloatUnary.Computes.apply_eq {op : FloatUnary} {x : Float p} (h : op.Computes x c) : op.apply x = c.run := by
  cases h <;> simp only [Expression.run, Flagged.pure_bind] <;> rfl

end Lanes

namespace FloatVectorOp

/-- Lane `k` of the result is the value of an expression. -/
inductive Computes (v : VectorOperands) : FloatVectorOp → {p : Precision} → Nat → Expression p → Prop
  | lanes {op : FloatLane} {p : Precision} {elements k : Nat} {c : Expression p} (hk : k < elements)
    (hc : op.Computes (lane p v.n k) (lane p v.m k) (lane p v.d k) c) : Computes v (.lanes op p elements) k c
  | byElement {op : FloatLane} {p : Precision} {elements index k : Nat} {c : Expression p} (hk : k < elements)
    (hc : op.Computes (lane p v.n k) (lane p v.m index) (lane p v.d k) c) :
    Computes v (.byElement op p elements index) k c
  | pairwise (op : Binary) (p : Precision) {elements k : Nat} (hk : k < elements) :
    Computes v (.pairwise op p elements) k (.binary op (.operand (pairLane p v.n v.m elements (2 * k)))
      (.operand (pairLane p v.n v.m elements (2 * k + 1))))
  | unary {op : FloatUnary} {p : Precision} {elements k : Nat} {c : Expression p} (hk : k < elements)
    (hc : op.Computes (lane p v.n k) c) : Computes v (.unary op p elements) k c
  | reducePair (op : Binary) (p : Precision) :
    Computes v (.reducePair op p) 0 (.binary op (.operand (lane p v.n 0)) (.operand (lane p v.n 1)))
  | reduceFour (op : Binary) :
    Computes v (.reduceFour op) 0
      (.binary op (.binary op (.operand (lane .single v.n 0)) (.operand (lane .single v.n 1)))
        (.binary op (.operand (lane .single v.n 2)) (.operand (lane .single v.n 3))))

namespace Computes

variable {op : FloatVectorOp} {v : VectorOperands} {p : Precision} {k : Nat} {c : Expression p}

theorem operates (h : op.Computes v k c) : c.Operates := by
  cases h with
  | lanes _ hc | byElement _ hc | unary _ hc => exact hc.operates
  | pairwise | reducePair | reduceFour => trivial

theorem hasLane (h : op.Computes v k c) : Lanes.HasLane k (op.eval v) c.run := by
  cases h with
  | lanes hk hc | byElement hk hc | unary hk hc =>
    rw [← hc.apply_eq]
    exact Lanes.hasLane_buildFlagged hk _
  | pairwise op p hk =>
    simp only [Expression.run, Flagged.pure_bind]
    exact Lanes.hasLane_buildFlagged hk _
  | reducePair op p =>
    simp only [Expression.run, Flagged.pure_bind]
    exact Lanes.hasLane_scalar _
  | reduceFour op =>
    rw [eval]
    simp only [Expression.run, Flagged.pure_bind, ← Flagged.bind_assoc]
    exact Lanes.hasLane_scalar _

end Computes

end FloatVectorOp

namespace SimdInstruction

/-- Lane `k` of the register that the instruction writes is the value of an expression. -/
inductive Computes (i : SimdInstruction) (s : State) : {p : Precision} → Nat → Expression p → Prop
  | vector {op : FloatVectorOp} {p : Precision} {k : Nat} {c : Expression p} (hop : i.op = .float op)
    (hc : op.Computes (operands i s) k c) : Computes i s k c
  | multiplyAdd {p : Precision} {negateProduct negateAddend : Bool} {ra : Register}
    (hop : i.op = .multiplyAdd p negateProduct negateAddend ra) :
    Computes i s 0 (.multiplyAdd
      (if negateAddend then .neg (.operand (scalar s p ra)) else .operand (scalar s p ra))
      (if negateProduct then .neg (.operand (scalar s p i.rn)) else .operand (scalar s p i.rn))
      (.operand (scalar s p i.rm)))

namespace Computes

variable {i : SimdInstruction} {s : State} {p : Precision} {k : Nat} {c : Expression p}

theorem operates (h : i.Computes s k c) : c.Operates := by
  cases h with
  | vector _ hc => exact hc.operates
  | multiplyAdd => trivial

theorem exists_hasLane (h : i.Computes s k c) :
    ∃ r : Flagged (BitVec 128), eval i s = (do pure (.vector (← r))) ∧ Lanes.HasLane k r c.run := by
  obtain ⟨rd, rn, rm, op⟩ := i
  cases h with
  | vector hop hc =>
    cases hop
    exact ⟨_, rfl, hc.hasLane⟩
  | @multiplyAdd p negateProduct negateAddend ra hop =>
    cases hop
    refine ⟨do pure (Lanes.scalar (← Expression.run _)), ?_, Lanes.hasLane_scalar _⟩
    simp only [eval, Flagged.bind_assoc, Flagged.pure_bind]
    cases negateProduct <;> cases negateAddend <;> simp only [Expression.run, Flagged.pure_bind] <;> rfl

theorem vector_execute (h : i.Computes s k c) (hrange : (k + 1) * p.bits ≤ 128) :
    FloatVectorOp.lane p ((i.execute s).vector i.rd) k = c.run.value := by
  obtain ⟨r, heval, hlane⟩ := h.exists_hasLane
  rw [SimdInstruction.vector_execute, if_pos rfl, heval]
  exact hlane.value hrange

theorem fpsr_execute (h : i.Computes s k c) : c.run.raised ≤ (i.execute s).fpsr := by
  obtain ⟨r, heval, hlane⟩ := h.exists_hasLane
  rw [SimdInstruction.fpsr_execute, heval]
  exact Fpsr.le_trans hlane.raised (Fpsr.le_trans (Fpsr.le_raise_left _ _) (Fpsr.le_raise_right _ _))

end Computes

end SimdInstruction

namespace Machine

/-- An arithmetic instruction that has a signalling NaN among its operands raises the invalid flag, and no lane that it
computes is a signalling NaN, unless one of its operations mixes NaNs. Only operations that prefer numbers do. They then
raise nothing and give their second operand as it is. -/
theorem signalling_operands_quieted {w : InstructionWord} {i : SimdInstruction}
    (hd : Instruction.decode w = .ok (.simd i)) (m : Machine) {p : Precision} {k : Nat} {c : Expression p}
    (hc : i.Computes m.state k c) :
    (c.mixes = false →
      ((∃ x ∈ c.operands, isSignalling x = true) → (m.execute w).2.state.fpsr.invalidOperation = true) ∧
        isSignalling (FloatVectorOp.lane p ((m.execute w).2.state.vector i.rd) k) = false) ∧
      ∀ (op : Float.Binary) (a b : Float p),
        (op.mixes a b = true ↔
          (isSignalling a = true ∨ isSignalling b = true) ∧ (op.apply a b).raised.invalidOperation = false) ∧
          (op.mixes a b = true → op.apply a b = pure b) := by
  refine ⟨fun hmixes => ?_, fun op a b => ⟨Binary.mixes_iff, Binary.apply_of_mixes⟩⟩
  have hstate : (m.execute w).2.state = i.execute m.state := congrArg Core.state (m.core_execute hd)
  rw [hstate]
  constructor
  · rintro ⟨x, hx, hs⟩
    exact hc.fpsr_execute 0 (Expression.raised_run hc.operates hmixes hx hs)
  · by_cases hrange : (k + 1) * p.bits ≤ 128
    · rw [hc.vector_execute hrange]
      exact Expression.isSignalling_run hc.operates hmixes
    · have hbeyond : 128 ≤ k * p.bits := by cases p <;> simp only [Precision.bits] at hrange ⊢ <;> omega
      rw [FloatVectorOp.lane, Lanes.get_of_beyond _ hbeyond]
      cases p <;> decide

/-- `FADD S0, S1, S2` with a signalling NaN in `S2`. -/
theorem signalling_operands_quieted_sum :
    let m : Machine := withState {} <| State.setVector (State.setVector {} 1#5 0x3F800000#128) 2#5 0x7F800001#128
    (m.execute 0x1E222820#32).2.state.fpsr.invalidOperation = true ∧
      isSignalling (FloatVectorOp.lane .single ((m.execute 0x1E222820#32).2.state.vector 0#5) 0) = false := by
  intro m
  let i : SimdInstruction := { rd := 0#5, rn := 1#5, rm := 2#5, op := .float (.lanes (.binary .add) .single 1) }
  let c : Expression .single := .binary .add (.operand 0x3F800000#32) (.operand 0x7F800001#32)
  have hd : Instruction.decode 0x1E222820#32 = .ok (.simd i) := rfl
  have hc : i.Computes m.state 0 c := .vector rfl (.lanes Nat.one_pos (.binary .add))
  obtain ⟨hraised, hquiet⟩ := (signalling_operands_quieted hd m hc).1 (by decide)
  exact ⟨hraised ⟨0x7F800001#32, .tail _ (.head _), by decide⟩, hquiet⟩

/-- `FMAXNM S0, S1, S2` with a quiet NaN in `S1` and a signalling one in `S2` raises nothing and gives the signalling
NaN. With the two exchanged it raises nothing either. -/
theorem maxNumber_keeps_signalling :
    let m : Machine := withState {} <| State.setVector (State.setVector {} 1#5 0x7FC00000#128) 2#5 0x7F800001#128
    isSignalling (FloatVectorOp.lane .single (m.state.vector 2#5) 0) = true ∧
      ((m.execute 0x1E226820#32).2.state.fpsr.invalidOperation = false ∧
        isSignalling (FloatVectorOp.lane .single ((m.execute 0x1E226820#32).2.state.vector 0#5) 0) = true) ∧
      (m.execute 0x1E216840#32).2.state.fpsr.invalidOperation = false := by
  decide +kernel

end Machine
end AArch64
