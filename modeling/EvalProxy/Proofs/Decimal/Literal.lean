/-
# Decimals as written

The text of a float is a whole part, which starts with zero only if it is zero, perhaps a fraction,
and perhaps an exponent. The shortest decimal of a moderate float is moderate again.

Main definitions: `numberChars`, `IsLiteral`.
Main statements: `Moderate.exists_literal`, `Moderate.shortest_le`.
-/
import EvalProxy.Proofs.Decimal.Layout
import EvalProxy.Proofs.Decimal.Moderate
namespace EvalProxy.Decimal

/-! ## Digits -/

theorem toNat_of_isDigit {c : Char} (h : c.isDigit = true) : 48 ≤ c.toNat ∧ c.toNat ≤ 57 := by
  rw [Char.isDigit, Bool.and_eq_true, decide_eq_true_iff, decide_eq_true_iff] at h
  exact ⟨UInt32.le_iff_toNat_le.1 h.1, UInt32.le_iff_toNat_le.1 h.2⟩

/-- Digits in front of others weigh as much more as the others are long. -/
theorem spelt_append (xs ys : List Char) :
    spelt (xs ++ ys) = 10 ^ ys.length * spelt xs + spelt ys := by
  rw [spelt, Nat.ofDigitChars_append, Nat.ofDigitChars_eq_ofDigitChars_zero, spelt, spelt]

theorem spelt_singleton (c : Char) : spelt [c] = c.toNat - 48 := by
  simp [spelt, Nat.ofDigitChars_cons]

/-- Digits spell less than ten to the power of their number. -/
theorem spelt_lt {cs : List Char} (h : Digital cs) : spelt cs < 10 ^ cs.length := by
  induction cs using List.reverseRecOn with
  | nil => decide
  | append_singleton cs c ih =>
    obtain ⟨hcs, hc⟩ := digital_append.1 h
    have hlast := toNat_of_isDigit (hc c (by simp))
    have hlt := ih hcs
    rw [spelt_append, spelt_singleton, List.length_append, List.length_singleton, pow_one,
      pow_succ]
    omega

/-- The first digit of a number other than zero stands for a power of ten that the number
reaches. -/
theorem ten_pow_le_of_ne_zero {n : Nat} (h : n ≠ 0) :
    10 ^ ((decimalDigits n).length - 1) ≤ n := by
  rcases Nat.lt_or_ge 1 (decimalDigits n).length with hlong | hshort
  · rw [← not_lt, ← Nat.length_toDigits_le_iff (b := 10) (by decide) (by omega)]
    show ¬ (decimalDigits n).length ≤ _
    omega
  · rw [Nat.sub_eq_zero_of_le hshort, pow_zero]
    exact Nat.pos_of_ne_zero h

/-- A whole number is less than ten to the power of the number of its digits. -/
theorem lt_ten_pow (n : Nat) : n < 10 ^ (decimalDigits n).length := by
  conv_lhs => rw [← spelt_decimalDigits n]
  exact spelt_lt (digital_decimalDigits n)

/-- No number but zero starts with a zero. -/
theorem eq_nil_of_leading_zero {n : Nat} {cs : List Char} (h : decimalDigits n = '0' :: cs) :
    cs = [] := by
  by_contra hne
  have hdigital : Digital cs := fun c hc => digital_decimalDigits n c (by simp [h, hc])
  have hspelt : spelt cs = n := by
    rw [← spelt_decimalDigits n, h, ← spelt_zeros_append cs 1]
    rfl
  have hn : n ≠ 0 := by
    rintro rfl
    exact hne (List.cons.inj h).2.symm
  have hlow := ten_pow_le_of_ne_zero hn
  have hhigh := spelt_lt hdigital
  rw [h, List.length_cons, Nat.add_sub_cancel] at hlow
  omega

/-! ## Shortest decimals -/

/-- The leading digit of a decimal tells its size. -/
theorem Digits.leading_spec {d : Digits} (h : d.significand ≠ 0) :
    (10 : ℚ) ^ d.leading ≤ d.value ∧ d.value < 10 ^ (d.leading + 1) := by
  have hscale : (0 : ℚ) < 10 ^ d.exponent := by positivity
  have hlength : 0 < (decimalDigits d.significand).length :=
    List.length_pos_iff.2 Nat.toDigits_ne_nil
  have hlow : (10 : ℚ) ^ ((decimalDigits d.significand).length - 1) ≤ d.significand := by
    exact_mod_cast ten_pow_le_of_ne_zero h
  have hhigh : (d.significand : ℚ) < 10 ^ (decimalDigits d.significand).length := by
    exact_mod_cast lt_ten_pow d.significand
  have hleading : d.leading = ((decimalDigits d.significand).length - 1 : Nat) + d.exponent := by
    rw [leading]
    omega
  have hnext : d.leading + 1 = (decimalDigits d.significand).length + d.exponent := by
    rw [leading]
    omega
  rw [hnext, hleading, zpow_add₀ (by norm_num), zpow_add₀ (by norm_num), zpow_natCast, zpow_natCast]
  exact ⟨mul_le_mul_of_nonneg_right hlow hscale.le, mul_lt_mul_of_pos_right hhigh hscale⟩

namespace Magnitude

/-- The shortest decimal of a magnitude other than zero is not zero. -/
theorem significand_shortest_ne_zero {m : Magnitude} (hm : m.Canonical) (h : m.mantissa ≠ 0) :
    m.shortest.significand ≠ 0 := by
  intro hzero
  have hpos := pos_of_rounds h (rounds_shortest hm h)
  rw [Digits.value, hzero, Nat.cast_zero, zero_mul] at hpos
  exact lt_irrefl _ hpos

/-- The shortest decimals of floats are not too close to zero. -/
theorem neg_le_leading_shortest {m : Magnitude} (hm : m.Canonical) :
    -1076 ≤ m.shortest.leading := by
  by_cases h : m.mantissa = 0
  · rw [shortest, if_pos h]
    decide
  have hlow : (2 : ℚ) ^ (-1076 : Int) ≤ m.low := by
    have hquarters : (1 : ℚ) ≤ 4 * m.mantissa - m.quartersBelow := by
      have : m.quartersBelow + 1 ≤ 4 * m.mantissa := by
        have := m.quartersBelow_le
        omega
      have : (m.quartersBelow + 1 : ℚ) ≤ 4 * m.mantissa := by exact_mod_cast this
      linarith
    have hunit : (2 : ℚ) ^ (-1076 : Int) ≤ 2 ^ (m.exponent - 2) := by
      have := hm.exponent_ge
      exact zpow_le_zpow_right₀ (by norm_num) (by omega)
    exact hunit.trans (le_mul_of_one_le_left (by positivity) hquarters)
  have hrounds := rounds_shortest hm h
  have hvalue : m.low ≤ m.shortest.value := by
    unfold Rounds at hrounds
    split at hrounds
    · exact hrounds.1
    · exact hrounds.1.le
  have hhigh := (Digits.leading_spec (significand_shortest_ne_zero hm h)).2
  by_contra hsmall
  have hten : (10 : ℚ) ^ (m.shortest.leading + 1) ≤ 10 ^ (-1076 : Int) :=
    zpow_le_zpow_right₀ (by norm_num) (by omega)
  have htwo : (10 : ℚ) ^ (-1076 : Int) ≤ 2 ^ (-1076 : Int) := by
    have hpow (n : Nat) : (10 : ℚ) ^ (-n : Int) ≤ 2 ^ (-n : Int) := by
      rw [zpow_neg, zpow_neg, zpow_natCast, zpow_natCast]
      exact inv_anti₀ (by positivity) (pow_le_pow_left₀ (by norm_num) (by norm_num) n)
    exact hpow 1076
  linarith

/-- What lies below a number that floats stand for lies below it by its own unit at least. -/
theorem add_unit_le {m : Magnitude} (hm : m.Canonical) {q : ℚ} (hq : Representable q)
    (h : m.value < q) : m.value + 2 ^ m.exponent ≤ q := by
  have hunit : (0 : ℚ) < 2 ^ m.exponent := by positivity
  rcases hq.units m.exponent with ⟨n, rfl⟩ | ⟨hlow, hlt⟩
  · rw [value, mul_lt_mul_iff_left₀ hunit] at h
    have h : (m.mantissa + 1 : ℚ) ≤ n := by exact_mod_cast h
    rw [value, ← add_one_mul]
    exact mul_le_mul_of_nonneg_right h hunit.le
  · have hfull : (2 ^ 52 : ℚ) ≤ m.mantissa := by exact_mod_cast hm.full hlow.ne'
    have := mul_le_mul_of_nonneg_right hfull hunit.le
    rw [value] at h
    linarith

/-- The shortest decimal of zero is zero. -/
theorem value_shortest_of_zero {m : Magnitude} (h : m.mantissa = 0) : m.shortest.value = 0 := by
  rw [shortest, if_pos h, Digits.value, Nat.cast_zero, zero_mul]

/-- A magnitude's own number rounds to it. -/
theorem rounds_value (m : Magnitude) : m.Rounds m.value := by
  apply rounds_of_near
  rw [sub_self, abs_zero]
  have : (0 : ℚ) < m.quartersBelow := by
    rw [quartersBelow]
    split <;> norm_num
  positivity

end Magnitude

/-- What stands for a number stands for no other, and for none but zero with both signs. -/
theorem Stands.unique {u : Float.Model.UnpackedFloat} {s t : Float.Model.UnpackedFloat.Sign}
    {p q : ℚ} (hp : Stands u s p) (hq : Stands u t q) : p = q ∧ (p ≠ 0 → s = t) := by
  cases hp with
  | zero => cases hq with | zero => exact ⟨rfl, fun h => absurd rfl h⟩
  | finite => cases hq with | finite => exact ⟨rfl, fun _ => rfl⟩

/-- The shortest decimal of the longest duration has one digit. -/
theorem shortest_bound : (Magnitude.ofFloat 2e22).shortest.significand = 2 ∧
    (Magnitude.ofFloat 2e22).shortest.exponent = 22 ∧ isNegative 2e22 = false := by
  decide +kernel

/-- **The shortest decimal of a moderate float is moderate.** -/
theorem Moderate.shortest_le {x : Float} (h : Moderate x) :
    (Magnitude.ofFloat x).shortest.value ≤ 2 * 10 ^ 22 := by
  obtain ⟨q, hx, hq⟩ := h
  have hcanonical := Magnitude.canonical_ofFloat x
  obtain ⟨hvalue, hsign⟩ := Stands.unique (stands_ofFloat hx.isFinite) hx
  rw [← hvalue] at hq
  by_cases hzero : (Magnitude.ofFloat x).mantissa = 0
  · rw [Magnitude.value_shortest_of_zero hzero]
    positivity
  rcases hq.lt_or_eq with hlt | heq
  -- the shortest decimal exceeds the float by half of its unit at most
  · have hrounds := Magnitude.rounds_shortest hcanonical hzero
    have hhigh : (Magnitude.ofFloat x).shortest.value ≤ (Magnitude.ofFloat x).high := by
      unfold Magnitude.Rounds at hrounds
      split at hrounds
      · exact hrounds.2
      · exact hrounds.2.le
    refine hhigh.trans (le_trans ?_ (Magnitude.add_unit_le hcanonical representable_bound hlt))
    rw [Magnitude.high, add_mul, ← Magnitude.value_eq]
    have hunit : (2 : ℚ) ^ (Magnitude.ofFloat x).exponent
        = 4 * 2 ^ ((Magnitude.ofFloat x).exponent - 2) := by
      rw [zpow_sub₀ (by norm_num)]
      norm_num
      ring
    have : (0 : ℚ) < 2 ^ ((Magnitude.ofFloat x).exponent - 2) := by positivity
    rw [hunit]
    linarith
  -- the bound is a float of its own
  · have hbound : (Magnitude.ofFloat 2e22).value = 2 * 10 ^ 22 :=
      (Stands.unique (stands_ofFloat isValue_bound.isFinite) isValue_bound).1
    have hsame := Magnitude.eq_of_rounds hcanonical (Magnitude.canonical_ofFloat 2e22)
      (q := 2 * 10 ^ 22) (heq ▸ Magnitude.rounds_value _) (hbound ▸ Magnitude.rounds_value _)
    have hnegative : isNegative x = isNegative 2e22 := by
      rw [shortest_bound.2.2, ← Bool.not_eq_true]
      intro hneg
      have := hsign (by rw [heq]; norm_num)
      rw [if_pos hneg] at this
      cases this
    rw [Magnitude.ofFloat_inj hnegative hsame.1 hsame.2, Digits.value, shortest_bound.1,
      shortest_bound.2.1]
    norm_num

/-! ## Literals -/

/-- The text of a number: digits, perhaps a point and more digits, and perhaps an exponent. -/
def numberChars (whole fraction : List Char) (exponent : Option Int) : List Char :=
  whole ++ (if fraction = [] then [] else '.' :: fraction) ++ (exponent.map exponentPart).getD []

/-- The parts of the text of a float, which never reads as a whole number. -/
structure IsLiteral (whole fraction : List Char) (exponent : Option Int) : Prop where
  digital : Digital (whole ++ fraction)
  nonempty : whole ≠ []
  length_le : whole.length ≤ 16
  leading : ∀ cs, whole = '0' :: cs → cs = []
  marked : fraction ≠ [] ∨ exponent ≠ none

/-- The number that the parts stand for. -/
theorem reading_numberChars {whole fraction : List Char} {exponent : Option Int}
    (h : Digital (whole ++ fraction)) :
    reading (numberChars whole fraction exponent)
      = spelt (whole ++ fraction) * 10 ^ (exponent.getD 0 - fraction.length) := by
  obtain ⟨hwhole, hfraction⟩ := digital_append.1 h
  have hmantissa : 'e' ∉ whole ++ (if fraction = [] then [] else '.' :: fraction) ∧
      pointReading (whole ++ (if fraction = [] then [] else '.' :: fraction))
        = spelt (whole ++ fraction) * 10 ^ (-fraction.length : Int) := by
    split
    · rename_i hnone
      rw [hnone, List.append_nil, pointReading_digits hwhole]
      exact ⟨hwhole.not_mem rfl, by simp⟩
    · refine ⟨?_, pointReading_point hwhole fraction⟩
      simp [hwhole.not_mem (c := 'e') rfl, hfraction.not_mem (c := 'e') rfl]
  obtain ⟨hmark, hvalue⟩ := hmantissa
  cases exponent with
  | none =>
    rw [numberChars, Option.map_none, Option.getD_none, List.append_nil, reading_of_not_mem hmark,
      hvalue]
    simp
  | some e =>
    rw [numberChars, Option.map_some, Option.getD_some, exponentPart, reading_exponent hmark,
      signedReading_sign, hvalue, mul_assoc, ← zpow_add₀ (by norm_num)]
    congr 2
    simp only [Option.getD_some]
    omega

/-- The digits of a number other than zero do not start with zero. -/
theorem head_decimalDigits_ne {n : Nat} (h : n ≠ 0) {cs : List Char} :
    decimalDigits n ≠ '0' :: cs := by
  intro hzero
  rw [eq_nil_of_leading_zero hzero] at hzero
  exact h (decimalDigits_inj (n := 0) hzero)

/-- Digits laid out positionally below the limit are a literal without exponent. -/
theorem isLiteral_positionalChars {n : Nat} (hn : n ≠ 0) {leading : Int} (hle : leading ≤ 15) :
    ∃ whole fraction, positionalChars true (decimalDigits n) leading
        = numberChars whole fraction none ∧ IsLiteral whole fraction none := by
  have hdigital := digital_decimalDigits n
  obtain ⟨d, rest, hdigits⟩ : ∃ d rest, decimalDigits n = d :: rest :=
    List.exists_cons_of_ne_nil Nat.toDigits_ne_nil
  have hhead : d ≠ '0' := by
    rintro rfl
    exact head_decimalDigits_ne hn hdigits
  by_cases hneg : leading < 0
  · refine ⟨['0'], List.replicate (-leading - 1).toNat '0' ++ decimalDigits n, ?_, ?_⟩
    · simp [positionalChars, numberChars, hneg, hdigits]
    · exact ⟨digital_append.2 ⟨digital_zeros 1, digital_append.2 ⟨digital_zeros _, hdigital⟩⟩,
        by simp, by simp, by simp, by simp [hdigits]⟩
  by_cases hwhole : (decimalDigits n).length ≤ leading.toNat + 1
  · refine ⟨decimalDigits n ++ List.replicate (leading.toNat + 1 - (decimalDigits n).length) '0',
      ['0'], ?_, ?_⟩
    · simp [positionalChars, numberChars, hneg, hwhole]
    · refine ⟨digital_append.2 ⟨digital_append.2 ⟨hdigital, digital_zeros _⟩, digital_zeros 1⟩,
        by simp [hdigits], ?_, ?_, by simp⟩
      · simp only [List.length_append, List.length_replicate]
        omega
      · intro cs hcs
        rw [hdigits, List.cons_append] at hcs
        exact absurd (List.cons.inj hcs).1 hhead
  · refine ⟨(decimalDigits n).take (leading.toNat + 1), (decimalDigits n).drop (leading.toNat + 1),
      ?_, ?_⟩
    · have hmore : ¬ (decimalDigits n).drop (leading.toNat + 1) = [] := by
        rw [List.drop_eq_nil_iff]
        exact hwhole
      simp only [positionalChars, numberChars, hneg, hwhole, hmore, if_false]
      simp
    · refine ⟨by rwa [List.take_append_drop], by simp [hdigits], ?_, ?_, .inl ?_⟩
      · rw [List.length_take]
        omega
      · intro cs hcs
        rw [hdigits, List.take_succ_cons] at hcs
        exact absurd (List.cons.inj hcs).1 hhead
      · rw [ne_eq, List.drop_eq_nil_iff]
        exact hwhole

/-- Digits with an exponent are a literal. -/
theorem isLiteral_exponentChars (n : Nat) (leading : Int) :
    ∃ whole fraction, exponentChars (decimalDigits n) leading
        = numberChars whole fraction (some leading) ∧ IsLiteral whole fraction (some leading) := by
  have hdigital := digital_decimalDigits n
  obtain ⟨d, rest, hdigits⟩ : ∃ d rest, decimalDigits n = d :: rest :=
    List.exists_cons_of_ne_nil Nat.toDigits_ne_nil
  rw [hdigits] at hdigital ⊢
  cases rest with
  | nil =>
    refine ⟨[d], [], rfl, by simpa using hdigital, by simp, by simp, ?_, by simp⟩
    intro cs hcs
    exact (List.cons.inj hcs).2.symm
  | cons e rest =>
    refine ⟨[d], e :: rest, by simp [exponentChars_more, numberChars], hdigital, by simp, by simp,
      ?_, by simp⟩
    intro cs hcs
    exact (List.cons.inj hcs).2.symm

/-- Zero is written with a point. -/
theorem unsignedChars_zero {x : Float} (h : (Magnitude.ofFloat x).mantissa = 0) :
    Layout.json.unsignedChars x = ['0', '.', '0'] := by
  rw [Layout.unsignedChars, Magnitude.shortest, if_pos h]
  rfl

/-- **The text of a float is a literal**, which stands for its shortest decimal. -/
theorem exists_literal (x : Float) :
    ∃ whole fraction exponent, Layout.json.unsignedChars x = numberChars whole fraction exponent ∧
      IsLiteral whole fraction exponent ∧
      (exponent = none ∨ exponent = some (Magnitude.ofFloat x).shortest.leading) := by
  by_cases hzero : (Magnitude.ofFloat x).shortest.significand = 0
  · have hmantissa : (Magnitude.ofFloat x).mantissa = 0 := by
      by_contra hne
      exact Magnitude.significand_shortest_ne_zero (Magnitude.canonical_ofFloat x) hne hzero
    exact ⟨['0'], ['0'], none, unsignedChars_zero hmantissa,
      ⟨digital_zeros 2, by simp, by simp, by simp, by simp⟩, .inl rfl⟩
  rw [Layout.unsignedChars]
  split
  · rename_i hpositional
    have hle : (Magnitude.ofFloat x).shortest.leading ≤ 15 := by
      simp [Layout.json] at hpositional
      exact hpositional.2
    obtain ⟨whole, fraction, hchars, hliteral⟩ := isLiteral_positionalChars hzero hle
    exact ⟨whole, fraction, none, hchars, hliteral, .inl rfl⟩
  · obtain ⟨whole, fraction, hchars, hliteral⟩ :=
      isLiteral_exponentChars _ (Magnitude.ofFloat x).shortest.leading
    exact ⟨whole, fraction, _, hchars, hliteral, .inr rfl⟩

/-- **The literal of a moderate float** stands for a moderate number. -/
theorem Moderate.exists_literal {x : Float} (h : Moderate x) :
    ∃ whole fraction exponent, Layout.json.unsignedChars x = numberChars whole fraction exponent ∧
      IsLiteral whole fraction exponent ∧
      (spelt (whole ++ fraction) : ℚ) * 10 ^ (exponent.getD 0 - fraction.length) ≤ 2 * 10 ^ 22 ∧
      -1076 ≤ exponent.getD 0 ∧ exponent.getD 0 ≤ 22 := by
  obtain ⟨whole, fraction, exponent, hchars, hliteral, hexponent⟩ := Decimal.exists_literal x
  have hshortest := h.shortest_le
  refine ⟨whole, fraction, exponent, hchars, hliteral, ?_, ?_⟩
  · rwa [← reading_numberChars hliteral.digital, ← hchars, reading_unsignedChars]
  rcases hexponent with rfl | rfl
  · decide
  refine ⟨Magnitude.neg_le_leading_shortest (Magnitude.canonical_ofFloat x), ?_⟩
  show (Magnitude.ofFloat x).shortest.leading ≤ 22
  by_cases hzero : (Magnitude.ofFloat x).shortest.significand = 0
  · have hmantissa : (Magnitude.ofFloat x).mantissa = 0 := by
      by_contra hne
      exact Magnitude.significand_shortest_ne_zero (Magnitude.canonical_ofFloat x) hne hzero
    rw [Magnitude.shortest, if_pos hmantissa]
    decide
  · by_contra hlarge
    have hlow := (Digits.leading_spec hzero).1
    have hten : (10 : ℚ) ^ (23 : Int) ≤ 10 ^ (Magnitude.ofFloat x).shortest.leading :=
      zpow_le_zpow_right₀ (by norm_num) (by omega)
    norm_num at hten
    linarith

/-- The only moderate float with a sign is zero. -/
theorem Moderate.unsignedChars_of_isNegative {x : Float} (h : Moderate x)
    (hsign : isNegative x = true) : Layout.json.unsignedChars x = ['0', '.', '0'] := by
  obtain ⟨q, hx, -⟩ := h
  have hstands := stands_ofFloat hx.isFinite
  rw [if_pos hsign] at hstands
  refine unsignedChars_zero ?_
  by_contra hne
  have hpos : (Magnitude.ofFloat x).value ≠ 0 := by
    have := Nat.pos_of_ne_zero hne
    rw [Magnitude.value]
    positivity
  cases (hstands.unique hx).2 hpos

end EvalProxy.Decimal
