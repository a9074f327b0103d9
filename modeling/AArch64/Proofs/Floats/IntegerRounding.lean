import AArch64.Float.Rounding
import Mathlib.Data.Rat.Floor
import Mathlib.Tactic.FieldSimp
import Mathlib.Tactic.Linarith

/-! Rounding of exact numbers to integers. What a mode asks of the integer is said without reference to a computation;
exactly one integer fulfils it, and this is the one that is computed. -/
namespace AArch64.Rounding

/-- The integer that a mode asks for. The nearest one leaves a choice between two, of which one is even and one is further
from zero. -/
def Picks (mode : Rounding) (q : ℚ) (r : ℤ) : Prop :=
  match mode with
  | tiesEven => |q - r| < 1 / 2 ∨ |q - r| = 1 / 2 ∧ Even r
  | plusInfinity => q ≤ r ∧ r < q + 1
  | minusInfinity => r ≤ q ∧ q < r + 1
  | zero => 0 ≤ q * r ∧ |(r : ℚ)| ≤ |q| ∧ |q| < |(r : ℚ)| + 1
  | tiesAway => |q - r| < 1 / 2 ∨ |q - r| = 1 / 2 ∧ |q| ≤ |(r : ℚ)|

namespace Picks

variable {mode : Rounding} {q : ℚ} {r r' : ℤ}

theorem abs_sub_lt (h : mode.Picks q r) : |q - r| < 1 := by
  cases mode with
  | tiesEven | tiesAway => obtain h | ⟨h, _⟩ := h <;> linarith
  | plusInfinity | minusInfinity =>
    obtain ⟨hlow, hhigh⟩ := h
    exact abs_lt.2 ⟨by linarith, by linarith⟩
  | zero =>
    obtain ⟨hsign, hlow, hhigh⟩ := h
    obtain hq | hq := le_total 0 q <;> obtain hr | hr := le_total (0 : ℚ) r <;>
      simp only [abs_of_nonneg, abs_of_nonpos, hq, hr] at hlow hhigh
    all_goals
      refine abs_lt.2 ⟨?_, ?_⟩ <;> nlinarith

theorem le_of_le (h : mode.Picks q r) {n : ℤ} (hn : n ≤ q) : n ≤ r := by
  have hlow : (n : ℚ) - 1 < r := by linarith [(abs_lt.1 h.abs_sub_lt).2]
  have hint : n - 1 < r := by exact_mod_cast hlow
  omega

theorem ge_of_ge (h : mode.Picks q r) {n : ℤ} (hn : q ≤ n) : r ≤ n := by
  have hhigh : (r : ℚ) < n + 1 := by linarith [(abs_lt.1 h.abs_sub_lt).1]
  have hint : r < n + 1 := by exact_mod_cast hhigh
  omega

theorem nonneg (h : mode.Picks q r) (hq : 0 ≤ q) : 0 ≤ r := h.le_of_le (by simpa using hq)

theorem nonpos (h : mode.Picks q r) (hq : q ≤ 0) : r ≤ 0 := h.ge_of_ge (by simpa using hq)

/-- Two integers that are both within a half are neighbours, with the number in the middle. -/
theorem middle (h : |q - r| ≤ 1 / 2) (h' : |q - r'| ≤ 1 / 2) (hlt : r < r') :
    r' = r + 1 ∧ q = r + 1 / 2 ∧ |q - r| = 1 / 2 ∧ |q - r'| = 1 / 2 := by
  have hnext : (r : ℚ) + 1 ≤ r' := by exact_mod_cast hlt
  have hlow := abs_le.1 h
  have hhigh := abs_le.1 h'
  have hsame : (r' : ℚ) = r + 1 := by linarith
  have hq : q = r + 1 / 2 := by linarith
  refine ⟨by exact_mod_cast hsame, hq, ?_, ?_⟩
  · rw [hq, add_sub_cancel_left, abs_of_pos (by norm_num)]
  · rw [hsame, hq, add_sub_add_left_eq_sub, abs_of_neg (by norm_num)]
    norm_num

theorem not_lt (h : mode.Picks q r) (h' : mode.Picks q r') : ¬r < r' := by
  intro hlt
  have hnext : (r : ℚ) + 1 ≤ r' := by exact_mod_cast hlt
  cases mode with
  | plusInfinity => linarith [h.1, h'.2]
  | minusInfinity => linarith [h.2, h'.1]
  | zero =>
    obtain hq | hq := le_total 0 q
    · have hr : (0 : ℚ) ≤ r := by exact_mod_cast h.nonneg hq
      have hr' : (0 : ℚ) ≤ r' := by exact_mod_cast h'.nonneg hq
      have hlow := h'.2.1
      have hhigh := h.2.2
      rw [abs_of_nonneg hq, abs_of_nonneg ‹_›] at hlow hhigh
      linarith
    · have hr : (r : ℚ) ≤ 0 := by exact_mod_cast h.nonpos hq
      have hr' : (r' : ℚ) ≤ 0 := by exact_mod_cast h'.nonpos hq
      have hlow := h.2.1
      have hhigh := h'.2.2
      rw [abs_of_nonpos hq, abs_of_nonpos ‹_›] at hlow hhigh
      linarith
  | tiesEven =>
    obtain ⟨rfl, -, hhalf, hhalf'⟩ := middle (h.elim le_of_lt fun h => h.1.le) (h'.elim le_of_lt fun h => h.1.le) hlt
    have heven : Even r := (h.resolve_left hhalf.not_lt).2
    have heven' : Even (r + 1) := (h'.resolve_left hhalf'.not_lt).2
    exact Int.even_add_one.1 heven' heven
  | tiesAway =>
    obtain ⟨rfl, hq, hhalf, hhalf'⟩ := middle (h.elim le_of_lt fun h => h.1.le) (h'.elim le_of_lt fun h => h.1.le) hlt
    have haway : |q| ≤ |(r : ℚ)| := (h.resolve_left hhalf.not_lt).2
    have haway' : |q| ≤ |((r + 1 : ℤ) : ℚ)| := (h'.resolve_left hhalf'.not_lt).2
    obtain hr | hr : 0 ≤ r ∨ r + 1 ≤ 0 := by omega
    · have hr : (0 : ℚ) ≤ r := by exact_mod_cast hr
      rw [hq, abs_of_nonneg hr, abs_of_nonneg (by linarith)] at haway
      linarith
    · have hr : ((r + 1 : ℤ) : ℚ) ≤ 0 := by exact_mod_cast hr
      rw [abs_of_nonpos hr] at haway'
      push_cast at hr haway'
      rw [hq, abs_of_neg (by linarith)] at haway'
      linarith

theorem neg_zero (h : zero.Picks q r) : zero.Picks (-q) (-r) := by
  simpa [Picks] using h

theorem neg_tiesAway (h : tiesAway.Picks q r) : tiesAway.Picks (-q) (-r) := by
  simpa [Picks, neg_add_eq_sub, abs_sub_comm] using h

theorem unique (h : mode.Picks q r) (h' : mode.Picks q r') : r = r' :=
  le_antisymm (Int.not_lt.1 (h'.not_lt h)) (Int.not_lt.1 (h.not_lt h'))

end Picks

section Apply

variable (num : ℤ) {den : ℕ} (hden : 0 < den)

include hden

/-- A quotient is its floor and the part that the remainder is of the divisor. -/
theorem quotient_eq : (num : ℚ) / den = (num / den : ℤ) + (num % den : ℤ) / den := by
  have hpos : (den : ℚ) ≠ 0 := by positivity
  have hsum : (num : ℚ) = den * (num / den : ℤ) + (num % den : ℤ) := by
    exact_mod_cast (Int.mul_ediv_add_emod num den).symm
  rw [div_eq_iff hpos, add_mul, div_mul_cancel₀ _ hpos, mul_comm]
  exact hsum

theorem picks_tiesEven : tiesEven.Picks (num / den) (tiesEven.apply num den) := by
  have hpos : (0 : ℚ) < den := by positivity
  have hnonneg : (0 : ℚ) ≤ (num % den : ℤ) / den :=
    div_nonneg (by exact_mod_cast Int.emod_nonneg num (by omega)) hpos.le
  have hlt : ((num % den : ℤ) : ℚ) / den < 1 := by
    rw [div_lt_one hpos]
    exact_mod_cast Int.emod_lt_of_pos num (by omega)
  obtain hlow | htie | hhigh := lt_trichotomy (2 * (num % den)) den
  · have hhalf : ((num % den : ℤ) : ℚ) / den < 1 / 2 := by
      rw [div_lt_div_iff₀ hpos (by norm_num), one_mul, mul_comm]
      exact_mod_cast hlow
    rw [apply, if_pos (.inl hlow), quotient_eq num hden]
    exact .inl (by rwa [add_sub_cancel_left, abs_of_nonneg hnonneg])
  · have hhalf : ((num % den : ℤ) : ℚ) / den = 1 / 2 := by
      rw [div_eq_div_iff hpos.ne' (by norm_num), one_mul, mul_comm]
      exact_mod_cast htie
    obtain heven | hodd := Int.emod_two_eq_zero_or_one (num / den)
    · rw [apply, if_pos (.inr ⟨htie, heven⟩), quotient_eq num hden, hhalf]
      refine .inr ⟨?_, Int.even_iff.2 heven⟩
      rw [add_sub_cancel_left, abs_of_pos (by norm_num)]
    · rw [apply, if_neg (by omega), quotient_eq num hden, hhalf]
      refine .inr ⟨?_, Int.even_iff.2 (by omega)⟩
      push_cast
      rw [add_sub_add_left_eq_sub, abs_of_neg (by norm_num)]
      norm_num
  · have hhalf : 1 / 2 < ((num % den : ℤ) : ℚ) / den := by
      rw [div_lt_div_iff₀ (by norm_num) hpos, one_mul, mul_comm _ (2 : ℚ)]
      exact_mod_cast hhigh
    rw [apply, if_neg (by omega), quotient_eq num hden]
    refine .inl ?_
    push_cast
    rw [add_sub_add_left_eq_sub, abs_of_neg (by linarith)]
    linarith

theorem picks_zero : zero.Picks (num / den) (zero.apply num den) := by
  have hnat (a : ℕ) : zero.Picks ((a : ℤ) / den) (zero.apply a den) := by
    have happly : ((zero.apply a den : ℤ) : ℚ) = (a / den : ℕ) := rfl
    rw [Picks, happly, Int.cast_natCast, ← Rat.natFloor_natCast_div_natCast]
    have hq : (0 : ℚ) ≤ a / den := by positivity
    rw [Nat.abs_cast, abs_of_nonneg hq]
    exact ⟨by positivity, Nat.floor_le hq, Nat.lt_floor_add_one _⟩
  obtain ⟨a, rfl | rfl⟩ := num.eq_nat_or_neg
  · exact hnat a
  · rw [apply, Int.neg_tdiv, Int.cast_neg, neg_div]
    exact (hnat a).neg_zero

theorem picks_tiesAway : tiesAway.Picks (num / den) (tiesAway.apply num den) := by
  have hnat (a : ℕ) : tiesAway.Picks ((a : ℤ) / den) (tiesAway.apply a den) := by
    -- the nearest integer is the floor of a half more
    have happly : ((tiesAway.apply a den : ℤ) : ℚ) = ⌊(a : ℚ) / den + 1 / 2⌋₊ := by
      have hsum : (a : ℚ) / den + 1 / 2 = (2 * a + den : ℕ) / (2 * den : ℕ) := by
        push_cast
        field_simp
      rw [hsum, Rat.natFloor_natCast_div_natCast, apply, Int.natAbs_natCast]
      obtain rfl | ha := a.eq_zero_or_pos
      · rw [Nat.div_eq_of_lt (by omega)]
        simp
      · rw [Int.sign_natCast_of_ne_zero ha.ne', one_mul, Int.cast_natCast]
    have hq : (0 : ℚ) ≤ a / den := by positivity
    have hlow := Nat.floor_le (show (0 : ℚ) ≤ a / den + 1 / 2 by positivity)
    have hhigh := Nat.lt_floor_add_one ((a : ℚ) / den + 1 / 2)
    rw [Picks, happly, Int.cast_natCast, abs_of_nonneg hq, Nat.abs_cast]
    obtain htie | hlt := eq_or_lt_of_le hlow
    · exact .inr ⟨by rw [htie, sub_add_cancel_left, abs_neg, abs_of_pos (by norm_num)], by linarith⟩
    · exact .inl (abs_lt.2 ⟨by linarith, by linarith⟩)
  obtain ⟨a, rfl | rfl⟩ := num.eq_nat_or_neg
  · exact hnat a
  · have hneg : tiesAway.apply (-a) den = -tiesAway.apply a den := by
      rw [apply, apply, Int.sign_neg, Int.natAbs_neg, neg_mul]
    rw [hneg, Int.cast_neg, neg_div]
    exact (hnat a).neg_tiesAway

theorem picks_apply (mode : Rounding) : mode.Picks (num / den) (mode.apply num den) := by
  have hfloor (num : ℤ) : ((num / den : ℤ) : ℚ) ≤ num / den ∧ (num : ℚ) / den < (num / den : ℤ) + 1 := by
    rw [← Rat.floor_intCast_div_natCast]
    exact ⟨Int.floor_le _, Int.lt_floor_add_one _⟩
  cases mode with
  | tiesEven => exact picks_tiesEven num hden
  | plusInfinity =>
    obtain ⟨hlow, hhigh⟩ := hfloor (-num)
    push_cast [neg_div] at hlow hhigh
    refine ⟨?_, ?_⟩ <;> rw [apply] <;> push_cast <;> linarith
  | minusInfinity => exact hfloor num
  | zero => exact picks_zero num hden
  | tiesAway => exact picks_tiesAway num hden

variable {num} {n : ℤ}

theorem le_apply (mode : Rounding) (h : n * den ≤ num) : n ≤ mode.apply num den := by
  have hpos : (0 : ℚ) < den := by positivity
  refine (picks_apply num hden mode).le_of_le ?_
  rw [le_div_iff₀ hpos]
  exact_mod_cast h

theorem apply_le (mode : Rounding) (h : num ≤ n * den) : mode.apply num den ≤ n := by
  have hpos : (0 : ℚ) < den := by positivity
  refine (picks_apply num hden mode).ge_of_ge ?_
  rw [div_le_iff₀ hpos]
  exact_mod_cast h

theorem natAbs_apply_le (mode : Rounding) {n : ℕ} (h : num.natAbs ≤ n * den) : (mode.apply num den).natAbs ≤ n := by
  have hint : |num| ≤ n * den := by
    rw [Int.abs_eq_natAbs]
    exact_mod_cast h
  have hhigh : mode.apply num den ≤ n := apply_le hden mode (abs_le.1 hint).2
  have hlow : -n ≤ mode.apply num den := le_apply hden mode (by linarith [(abs_le.1 hint).1])
  omega

/-- An integer is picked for itself. -/
theorem apply_mul (mode : Rounding) (r : ℤ) : mode.apply (r * den) den = r :=
  le_antisymm (apply_le hden mode le_rfl) (le_apply hden mode le_rfl)

end Apply
end AArch64.Rounding
