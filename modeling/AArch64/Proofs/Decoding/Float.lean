import AArch64.Proofs.Decoding.Simd

/-! Decoded scalar floating-point instructions, which have a single lane. -/
namespace AArch64

theorem Precision.one_mul_bits_le (p : Precision) : 1 * p.bits ≤ 128 := by
  cases p <;> decide

namespace SimdInstruction

variable (w : InstructionWord)

theorem yields_withPrecision {f : Precision → Except DecodeError SimdInstruction} {P : SimdInstruction → Prop}
    (h : ∀ p, Yields (f p) P) : Yields (withPrecision w f) P := by
  unfold withPrecision
  split
  · exact h .single
  · exact h .double
  · exact .error _
  · exact .error _

theorem yields_decodeFloatOneSource (p : Precision) : Yields (decodeFloatOneSource w p) (FitsWord w) := by
  have hok (op : FloatUnary) : Yields (usualFloat w (.unary op p 1)) (FitsWord w) :=
    yields_usualFloat w p.one_mul_bits_le
  unfold decodeFloatOneSource
  split
  · exact hok .move
  · exact hok .abs
  · exact hok .neg
  · exact hok .sqrt
  · exact .require fun _ => yields_usualFloat w trivial
  · exact .require fun _ => yields_usualFloat w trivial
  · exact .error _
  · exact hok (.round .tiesEven)
  · exact hok (.round .plusInfinity)
  · exact hok (.round .minusInfinity)
  · exact hok (.round .zero)
  · exact hok (.round .tiesAway)
  all_goals exact .error _

theorem yields_decodeFloatTwoSource (p : Precision) : Yields (decodeFloatTwoSource w p) (FitsWord w) := by
  unfold decodeFloatTwoSource
  split
  all_goals first
    | exact .error _
    | exact yields_usualFloat w p.one_mul_bits_le

theorem yields_decodeFloatInteger : Yields (decodeFloatInteger w) (FitsWord w) := by
  have hlow (size : ElementSize) : (0 + 1) * size.bits ≤ 128 := by cases size <;> decide
  have hhigh : (1 + 1) * ElementSize.double.bits ≤ 128 := by decide
  refine .ite (fun _ => yields_usual w (hlow _)) fun _ => .ite (fun _ => yields_usual w trivial) fun _ =>
    .ite (fun _ => yields_usual w hhigh) fun _ => .ite (fun _ => yields_usual w hhigh) fun _ => .guard fun _ =>
    .guard fun _ => .guard fun _ => ?_
  split
  all_goals first
    | exact .error _
    | exact yields_usual w trivial
    | exact .require fun _ => yields_usual w trivial

theorem yields_decodeFloatFixed : Yields (decodeFloatFixed w) (FitsWord w) := by
  refine .guard fun _ => yields_withPrecision w fun p => ?_
  split
  all_goals first
    | exact .error _
    | exact yields_usual w trivial

theorem yields_decodeFloat : Yields (decodeFloat w) (FitsWord w) := by
  refine .guard fun _ => .ite (fun _ => yields_decodeFloatFixed w) fun _ =>
    .ite (fun _ => yields_decodeFloatInteger w) fun _ => .guard fun _ => ?_
  split
  · refine .ite (fun _ => yields_withPrecision w (yields_decodeFloatOneSource w)) fun _ =>
      .ite (fun _ => yields_withPrecision w fun p => ?_) fun _ => .require fun _ => yields_withPrecision w fun p => ?_
    · exact .guard fun _ => yields_usual w trivial
    · exact .guard fun _ => yields_usual w trivial
  · exact yields_withPrecision w fun p => yields_usual w trivial
  · exact yields_withPrecision w (yields_decodeFloatTwoSource w)
  · exact yields_withPrecision w fun p => yields_usual w trivial

theorem yields_decodeFusedMultiplyAdd : Yields (decodeFusedMultiplyAdd w) (FitsWord w) :=
  .guard fun _ => yields_withPrecision w fun _ => yields_usual w trivial

theorem yields_decode : Yields (decode w) (FitsWord w) := by
  unfold decode
  split
  · exact yields_decodeVector w
  · exact yields_decodeVector w
  · exact yields_decodeVectorImmediate w
  · exact yields_decodeVectorImmediate w
  · exact yields_decodeFloat w
  · exact yields_decodeFusedMultiplyAdd w
  · exact yields_decodeScalar w
  · exact yields_decodeScalarImmediate w

end SimdInstruction
end AArch64
