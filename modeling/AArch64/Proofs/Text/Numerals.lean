import AArch64.Text.Number
import Mathlib.Data.Nat.Digits.Lemmas

/-! Numbers of 64 bits in text. A text is read exactly if it is a numeral with a value that fits, and what is read is that
value. In front of a hexadecimal numeral one mark of the base may stand, and underscores are passed over behind it. -/
namespace AArch64.Number

variable {base : Nat} {c : Char} {cs : List Char} {d n : Nat}

/-- The character is the digit of that value, in either case. -/
def IsDigit (base : Nat) (c : Char) (d : Nat) : Prop := d < base ∧ c.toLower = Nat.digitChar d

/-- The characters are digits in a row, at least one of them, that write the number with the most significant in front. -/
def Writes (base : Nat) (cs : List Char) (n : Nat) : Prop :=
  cs ≠ [] ∧ ∃ ds, List.Forall₂ (IsDigit base) cs ds ∧ Nat.ofDigits base ds.reverse = n

theorem toNat_digitChar (h : d < 16) : (Nat.digitChar d).toNat = if d < 10 then 48 + d else 87 + d := by
  have hall : ∀ d < 16, (Nat.digitChar d).toNat = if d < 10 then 48 + d else 87 + d := by decide
  exact hall d h

theorem toNat_toLower (c : Char) :
    c.toLower.toNat = if 65 ≤ c.toNat ∧ c.toNat ≤ 90 then c.toNat + 32 else c.toNat := by
  have hupper : (c.val ≥ 'A'.val ∧ c.val ≤ 'Z'.val) ↔ 65 ≤ c.toNat ∧ c.toNat ≤ 90 := by
    simp only [ge_iff_le, UInt32.le_iff_toNat_le]
    exact Iff.rfl
  unfold Char.toLower
  split
  next h =>
    have hle := (hupper.1 h).2
    rw [if_pos (hupper.1 h)]
    change (c.val + ('a'.val - 'A'.val)).toNat = c.toNat + 32
    rw [UInt32.toNat_add]
    change (c.toNat + 32) % 2 ^ 32 = c.toNat + 32
    omega
  next h => rw [if_neg fun hin => h (hupper.2 hin)]

theorem isDigit_iff (hbase : base ≤ 16) : IsDigit base c d ↔
    d < base ∧ (c.toNat = 48 + d ∧ d < 10 ∨ c.toNat = 87 + d ∧ 10 ≤ d ∨ c.toNat = 55 + d ∧ 10 ≤ d) := by
  refine and_congr_right fun hd => ?_
  rw [← Char.toNat_inj, toNat_toLower, toNat_digitChar (Nat.lt_of_lt_of_le hd hbase)]
  split <;> split <;> omega

theorem digit?_eq_some_iff (hbase : base ≤ 16) : digit? base c = some d ↔ IsDigit base c d := by
  have hle (x y : Char) : x ≤ y ↔ x.toNat ≤ y.toNat := by rw [Char.le_def, UInt32.le_iff_toNat_le]; rfl
  have hsome (e : Nat) : (if e < base then some e else none) = some d ↔ d < base ∧ d = e := by
    by_cases h : e < base
    · rw [if_pos h, Option.some.injEq]
      exact ⟨fun heq => ⟨heq ▸ h, heq.symm⟩, fun heq => heq.2.symm⟩
    · rw [if_neg h]
      exact iff_of_false nofun fun heq => h (heq.2 ▸ heq.1)
  rw [isDigit_iff hbase]
  unfold digit?
  rw [hsome]
  simp only [hle, Char.reduceToNat]
  refine and_congr_right fun hd => ?_
  split
  · omega
  · split
    · omega
    · split <;> omega

theorem not_isDigit_plus (hbase : base ≤ 16) : ¬IsDigit base '+' d := by
  rw [isDigit_iff hbase]
  have hplus : '+'.toNat = 43 := rfl
  omega

theorem ofDigits_reverse_cons (v : Nat) (ds : List Nat) :
    Nat.ofDigits base (v :: ds).reverse = Nat.ofDigits base ds.reverse + base ^ ds.length * v := by
  simp [Nat.ofDigits_append]

/-- Digits are read from the left, so those behind stand for the lower places. -/
theorem digits_eq_ok_iff (hbase : base ≤ 16) (hpos : 0 < base) {v : Nat} (hv : v < 2 ^ 64) (x : BitVec 64) :
    digits base v cs = .ok x ↔
      ∃ ds, List.Forall₂ (IsDigit base) cs ds ∧ Nat.ofDigits base (v :: ds).reverse = x.toNat := by
  induction cs generalizing v with
  | nil =>
    simp only [digits, List.forall₂_nil_left_iff, exists_eq_left, List.reverse_singleton, Nat.ofDigits_singleton,
      Except.ok.injEq]
    rw [← BitVec.toNat_inj, BitVec.toNat_ofNat, Nat.mod_eq_of_lt hv]
  | cons c cs ih =>
    simp only [List.forall₂_cons_left_iff]
    cases hd : digit? base c with
    | none =>
      simp only [digits, hd, reduceCtorEq, false_iff]
      rintro ⟨_, ⟨d, ds, hc, _, rfl⟩, _⟩
      rw [← digit?_eq_some_iff hbase, hd] at hc
      cases hc
    | some d =>
      have honly (e : Nat) (he : IsDigit base c e) : e = d := by
        rw [← digit?_eq_some_iff hbase, hd] at he
        exact (Option.some.inj he).symm
      -- the digit becomes the lowest place of what has been read
      have hvalue (ds : List Nat) : Nat.ofDigits base (v :: d :: ds).reverse =
          Nat.ofDigits base ((base * v + d) :: ds).reverse := by
        rw [ofDigits_reverse_cons, ofDigits_reverse_cons, ofDigits_reverse_cons, List.length_cons, Nat.pow_succ]
        ring
      simp only [digits, hd]
      split
      next hlt =>
        rw [ih hlt]
        constructor
        · rintro ⟨ds, hds, hx⟩
          exact ⟨d :: ds, ⟨d, ds, (digit?_eq_some_iff hbase).1 hd, hds, rfl⟩, by rw [hvalue, hx]⟩
        · rintro ⟨_, ⟨e, ds, he, hds, rfl⟩, hx⟩
          obtain rfl := honly e he
          exact ⟨ds, hds, by rw [← hvalue, hx]⟩
      next hlarge =>
        simp only [reduceCtorEq, false_iff]
        rintro ⟨_, ⟨e, ds, he, hds, rfl⟩, hx⟩
        obtain rfl := honly e he
        have hone : 1 ≤ base ^ ds.length := Nat.one_le_pow _ _ hpos
        have hle : base * v + e ≤ base ^ ds.length * (base * v + e) := Nat.le_mul_of_pos_left _ hone
        have hbound : x.toNat < 2 ^ 64 := x.isLt
        rw [hvalue, ofDigits_reverse_cons] at hx
        omega

theorem parse_eq_ok_iff (hbase : base ≤ 16) (hpos : 0 < base) (x : BitVec 64) :
    parse base cs = .ok x ↔ ∃ body, (cs = body ∨ cs = '+' :: body) ∧ Writes base body x.toNat := by
  have hsign (rest : List Char) : ¬Writes base ('+' :: rest) x.toNat := by
    rintro ⟨_, ds, hds, _⟩
    obtain ⟨d, _, hd, _⟩ := List.forall₂_cons_left_iff.1 hds
    exact not_isDigit_plus hbase hd
  have hdigits {cs : List Char} (hne : cs ≠ []) : digits base 0 cs = .ok x ↔ Writes base cs x.toNat := by
    rw [digits_eq_ok_iff hbase hpos (by decide), Writes, and_iff_right hne]
    simp only [ofDigits_reverse_cons, Nat.mul_zero, Nat.add_zero]
  unfold parse
  split
  next => simp [Writes]
  next =>
    refine iff_of_false nofun ?_
    rintro ⟨body, rfl | hbody, hwrites⟩
    · exact hsign [] hwrites
    · exact hwrites.1 (List.cons.inj hbody).2.symm
  next rest hne =>
    rw [hdigits (by rintro rfl; exact hne rfl)]
    constructor
    · exact fun h => ⟨rest, .inr rfl, h⟩
    · rintro ⟨body, rfl | hbody, hwrites⟩
      · exact absurd hwrites (hsign rest)
      · rwa [(List.cons.inj hbody).2]
  next hne _ hplus =>
    rw [hdigits hne]
    constructor
    · exact fun h => ⟨cs, .inl rfl, h⟩
    · rintro ⟨body, rfl | rfl, hwrites⟩
      · exact hwrites
      · exact absurd rfl (hplus body)

theorem forall₂_isDigit_iff {ds : List Nat} : List.Forall₂ (IsDigit base) cs ds ↔
    (∀ d ∈ ds, d < base) ∧ cs.map Char.toLower = ds.map Nat.digitChar := by
  induction cs generalizing ds with
  | nil => cases ds <;> simp
  | cons c cs ih =>
    cases ds with
    | nil => simp
    | cons d ds =>
      simp only [List.forall₂_cons, ih, IsDigit, List.map_cons, List.cons.injEq, List.forall_mem_cons]
      tauto

theorem exists_toDigits (hbase : 1 < base) (n : Nat) : ∃ ds : List Nat, (∀ d ∈ ds, d < base) ∧
    Nat.toDigits base n = ds.map Nat.digitChar ∧ Nat.ofDigits base ds.reverse = n := by
  induction n using Nat.strongRecOn with
  | ind n ih =>
    by_cases hlt : n < base
    · exact ⟨[n], by simpa using hlt, by rw [Nat.toDigits_of_lt_base hlt]; rfl, by simp⟩
    · have hle := Nat.le_of_not_lt hlt
      have hpos : 0 < base := Nat.lt_of_succ_lt hbase
      obtain ⟨ds, hds, hdigits, hvalue⟩ := ih (n / base) (Nat.div_lt_self (Nat.lt_of_lt_of_le hpos hle) hbase)
      refine ⟨ds ++ [n % base], ?_, ?_, ?_⟩
      · exact List.forall_mem_append.2 ⟨hds, by simpa using Nat.mod_lt n hpos⟩
      · rw [Nat.toDigits_of_base_le hbase hle, hdigits, List.map_append]
        rfl
      · rw [List.reverse_append, List.reverse_singleton, List.singleton_append, Nat.ofDigits_cons, hvalue]
        exact Nat.mod_add_div n base

/-- The usual digits of a number write it, in either case and behind any number of zeros. -/
theorem writes_of_toDigits (hbase : 1 < base) {z : Nat}
    (h : cs.map Char.toLower = List.replicate z '0' ++ Nat.toDigits base n) : Writes base cs n := by
  obtain ⟨ds, hds, hdigits, hvalue⟩ := exists_toDigits hbase n
  have hzeros : List.replicate z '0' = (List.replicate z 0).map Nat.digitChar := by
    rw [List.map_replicate]
    rfl
  refine ⟨?_, List.replicate z 0 ++ ds, forall₂_isDigit_iff.2 ⟨?_, ?_⟩, ?_⟩
  · rintro rfl
    have hnil := (List.append_eq_nil_iff.1 h.symm).2
    exact Nat.toDigits_ne_nil hnil
  · intro d hd
    obtain hd | hd := List.mem_append.1 hd
    · rw [List.eq_of_mem_replicate hd]
      exact Nat.lt_of_succ_lt hbase
    · exact hds d hd
  · rw [h, hdigits, hzeros, List.map_append]
  · rw [List.reverse_append, List.reverse_replicate, Nat.ofDigits_append_replicate_zero, hvalue]

/-- A text without the mark of the base that it may begin with. -/
def withoutMark (cs : List Char) : List Char :=
  if ['0', 'x'] <+: cs ∨ ['0', 'X'] <+: cs then cs.drop 2 else cs

/-- What is left of a text without its mark and without the underscores behind that. -/
def hexDigits (t : String) : List Char := (withoutMark t.toList).filter (· ≠ '_')

theorem afterHexMark_eq (cs : List Char) : afterHexMark cs = withoutMark cs := by
  unfold afterHexMark withoutMark
  split
  next => simp
  next => simp
  next hlower hupper =>
    rw [if_neg]
    rintro (⟨rest, rfl⟩ | ⟨rest, rfl⟩)
    · exact hlower rest rfl
    · exact hupper rest rfl

theorem hex_eq_ok_iff (t : String) (v : BitVec 64) :
    hex t = .ok v ↔ ∃ cs, (hexDigits t = cs ∨ hexDigits t = '+' :: cs) ∧ Writes 16 cs v.toNat := by
  rw [hex, afterHexMark_eq]
  exact parse_eq_ok_iff (Nat.le_refl 16) (by decide) v

theorem Writes.isDigit (h : Writes base cs n) (hc : c ∈ cs) : ∃ d, IsDigit base c d := by
  obtain ⟨-, ds, hds, -⟩ := h
  obtain ⟨hlt, hmap⟩ := forall₂_isDigit_iff.1 hds
  obtain ⟨d, hd, hchar⟩ := List.mem_map.1 (hmap ▸ List.mem_map_of_mem hc)
  exact ⟨d, hlt d hd, hchar.symm⟩

/-- The letter of the mark is no digit, so a numeral without a mark is not taken for one that has it. -/
theorem withoutMark_append {mark : List Char} (hmark : mark ∈ [[], ['0', 'x'], ['0', 'X']])
    (hcs : Writes 16 (cs.filter (· ≠ '_')) n) : withoutMark (mark ++ cs) = cs := by
  have hletter (x : Char) (hx : x = 'x' ∨ x = 'X') (hin : x ∈ cs) : False := by
    obtain ⟨d, hd⟩ := hcs.isDigit (List.mem_filter.2 ⟨hin, by obtain rfl | rfl := hx <;> rfl⟩)
    have hlower : 'x'.toNat = 120 := rfl
    have hupper : 'X'.toNat = 88 := rfl
    have hvalue := (isDigit_iff (Nat.le_refl 16)).1 hd
    obtain rfl | rfl := hx <;> omega
  simp only [List.mem_cons, List.not_mem_nil, or_false] at hmark
  obtain rfl | rfl | rfl := hmark
  · rw [List.nil_append, withoutMark, if_neg]
    rintro (⟨rest, rfl⟩ | ⟨rest, rfl⟩)
    · exact hletter 'x' (.inl rfl) (by simp)
    · exact hletter 'X' (.inr rfl) (by simp)
  · simp [withoutMark]
  · simp [withoutMark]

/-- A text is read exactly if, without one mark and without underscores, it is a hexadecimal numeral of 64 bits, which may
have one plus sign in front; anything else is an error. So each way to write a number reads as that number: with capital
or small letters, behind zeros, with underscores behind the mark, and without a mark. -/
theorem hex_reads_numerals (t : String) :
    (∀ v : BitVec 64, hex t = .ok v ↔
      ∃ cs n, (hexDigits t = cs ∨ hexDigits t = '+' :: cs) ∧ Writes 16 cs n ∧ n < 2 ^ 64 ∧ v = BitVec.ofNat 64 n) ∧
      ((∃ e, hex t = .error e) ↔
        ∀ cs n, hexDigits t = cs ∨ hexDigits t = '+' :: cs → Writes 16 cs n → 2 ^ 64 ≤ n) ∧
      ∀ (v : BitVec 64) (z : Nat) (mark cs : List Char), mark ∈ [[], ['0', 'x'], ['0', 'X']] →
        (cs.filter (· ≠ '_')).map Char.toLower = List.replicate z '0' ++ Nat.toDigits 16 v.toNat →
        t.toList = mark ++ cs → hex t = .ok v := by
  refine ⟨fun v => ?_, ?_, fun v z mark cs hmark hdigits ht => ?_⟩
  · rw [hex_eq_ok_iff]
    constructor
    · rintro ⟨cs, hcs, hwrites⟩
      exact ⟨cs, v.toNat, hcs, hwrites, v.isLt, by simp⟩
    · rintro ⟨cs, n, hcs, hwrites, hlt, rfl⟩
      exact ⟨cs, hcs, by rwa [BitVec.toNat_ofNat, Nat.mod_eq_of_lt hlt]⟩
  · cases hread : hex t with
    | ok v =>
      obtain ⟨cs, hcs, hwrites⟩ := (hex_eq_ok_iff t v).1 hread
      refine iff_of_false (by simp) fun h => ?_
      exact Nat.not_le_of_lt v.isLt (h cs v.toNat hcs hwrites)
    | error e =>
      refine iff_of_true ⟨e, rfl⟩ fun cs n hcs hwrites => Nat.le_of_not_lt fun hlt => ?_
      have hok := (hex_eq_ok_iff t (BitVec.ofNat 64 n)).2 ⟨cs, hcs, by rwa [BitVec.toNat_ofNat, Nat.mod_eq_of_lt hlt]⟩
      rw [hread] at hok
      cases hok
  · have hwrites := writes_of_toDigits (by decide) hdigits
    refine (hex_eq_ok_iff t v).2 ⟨cs.filter (· ≠ '_'), .inl ?_, hwrites⟩
    rw [hexDigits, ht, withoutMark_append hmark hwrites]

/-- Zeros, underscores and both kinds of letters behind a mark. -/
theorem hex_reads_numerals_mixed : hex "0X_00dE_aD" = .ok 0xDEAD#64 :=
  (hex_reads_numerals "0X_00dE_aD").2.2 0xDEAD#64 2 ['0', 'X'] ['_', '0', '0', 'd', 'E', '_', 'a', 'D'] (by decide)
    (by decide) (by decide)

/-- Only one mark is taken off. -/
example : hex "0x0x1" = .error .invalidDigit := by decide

/-- A mark with an underscore in it is none. -/
example : hex "0_x1" = .error .invalidDigit := by decide

end AArch64.Number
