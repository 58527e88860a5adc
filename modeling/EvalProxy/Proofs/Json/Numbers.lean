/-
# Numbers read back

The reader of JSON numbers on decimal text. A whole number is read back as it is. A float need not
be, since the reader rounds twice, but what is read for a moderate float is moderate again.

Main statements: `readNumber_nat`, `readNumber_moderate`, `skipNumber_numberChars`.
-/
import EvalProxy.Json.Typed
import EvalProxy.Proofs.Decimal.Literal
import EvalProxy.Proofs.Text.Octets
namespace EvalProxy.Json

open Decimal (Digital spelt decimalDigits digital_decimalDigits numberChars exponentPart)
open Text (octets)

/-! ## Digits -/

/-- No digit comes next. -/
def NoDigit (s : Bytes) : Prop := ∀ b ∈ s.head?, isDigit b = false

/-- A number that stands before these octets ends there. -/
def Ended (s : Bytes) : Prop :=
  ∀ b ∈ s.head?, isDigit b = false ∧ b ≠ 0x2E ∧ isExponentLetter b = false

theorem Ended.noDigit {s : Bytes} (h : Ended s) : NoDigit s := fun b hb => (h b hb).1

/-- A digit is one octet, of the same value. -/
theorem octets_digit {c : Char} (h : c.isDigit = true) :
    String.utf8EncodeChar c = [UInt8.ofNat c.toNat] ∧ isDigit (UInt8.ofNat c.toNat) = true ∧
      digitValue (UInt8.ofNat c.toNat) = c.toNat - 48 := by
  obtain ⟨hlow, hhigh⟩ := Decimal.toNat_of_isDigit h
  have hcode : (UInt8.ofNat c.toNat).toNat = c.toNat := by
    rw [UInt8.toNat_ofNat']
    omega
  refine ⟨Text.octets_of_ascii (by omega), ?_, ?_⟩
  · rw [isDigit, Bool.and_eq_true, decide_eq_true_iff, decide_eq_true_iff, UInt8.le_iff_toNat_le,
      UInt8.le_iff_toNat_le, hcode]
    exact ⟨hlow, hhigh⟩
  · rw [digitValue, hcode]

/-- The octet of a digit other than zero is not that of zero. -/
theorem octet_ne_zero {c : Char} (h : c.isDigit = true) (hzero : c ≠ '0') :
    UInt8.ofNat c.toNat ≠ 0x30 := by
  intro heq
  obtain ⟨hlow, hhigh⟩ := Decimal.toNat_of_isDigit h
  have hvalue := (octets_digit h).2.2
  rw [digitValue, heq] at hvalue
  have hcode : c.toNat = '0'.toNat := by
    have : (0x30 : UInt8).toNat - 0x30 = 0 := rfl
    show c.toNat = 48
    omega
  exact hzero (Char.ext (UInt32.toNat_inj.1 hcode))

theorem octets_digital_cons {c : Char} {cs : List Char} (h : Digital (c :: cs)) :
    octets (c :: cs) = UInt8.ofNat c.toNat :: octets cs := by
  rw [Text.octets_cons, (octets_digit (h c (by simp))).1]
  rfl

theorem of_digital_cons {c : Char} {cs : List Char} (h : Digital (c :: cs)) : Digital cs :=
  fun x hx => h x (by simp [hx])

theorem length_octets {cs : List Char} (h : Digital cs) : (octets cs).length = cs.length := by
  induction cs with
  | nil => rfl
  | cons c cs ih =>
    rw [octets_digital_cons h, List.length_cons, List.length_cons, ih (of_digital_cons h)]

theorem octets_ne_nil {cs : List Char} (h : Digital cs) (hne : cs ≠ []) : octets cs ≠ [] := by
  rw [← List.length_pos_iff, length_octets h]
  exact List.length_pos_iff.2 hne

/-- The digits in front are all of them, if none follows. -/
theorem takeWhile_isDigit {cs : List Char} (h : Digital cs) {rest : Bytes} (hrest : NoDigit rest) :
    (octets cs ++ rest).takeWhile isDigit = octets cs ∧
      (octets cs ++ rest).dropWhile isDigit = rest := by
  induction cs with
  | nil =>
    cases rest with
    | nil => exact ⟨rfl, rfl⟩
    | cons b rest =>
      have hb := hrest b (by simp)
      simp [hb]
  | cons c cs ih =>
    obtain ⟨htake, hdrop⟩ := ih (of_digital_cons h)
    have hc := (octets_digit (h c (by simp))).2.1
    rw [octets_digital_cons h, List.cons_append, List.takeWhile_cons_of_pos hc,
      List.dropWhile_cons_of_pos hc, htake, hdrop]
    exact ⟨rfl, rfl⟩

theorem spelt_cons (c : Char) (cs : List Char) :
    spelt (c :: cs) = 10 ^ cs.length * (c.toNat - 48) + spelt cs := by
  rw [← Decimal.spelt_singleton, ← Decimal.spelt_append]
  rfl

/-! ## Significands -/

/-- A significand takes digits in while they fit: what is left of them only makes the number
larger. -/
theorem absorb_spec {cs : List Char} (h : Digital cs) {s t n : Nat} (hs : s ≤ maxSignificand)
    (habsorb : absorb s (octets cs) = (t, n)) :
    t ≤ maxSignificand ∧ n ≤ cs.length ∧
      t * 10 ^ (cs.length - n) ≤ 10 ^ cs.length * s + spelt cs ∧
      (10 ^ cs.length * s + spelt cs ≤ maxSignificand →
        t = 10 ^ cs.length * s + spelt cs ∧ n = cs.length) := by
  induction cs generalizing s t n with
  | nil =>
    obtain ⟨rfl, rfl⟩ : s = t ∧ 0 = n := Prod.mk.inj habsorb
    simp [spelt, hs]
  | cons c cs ih =>
    have hvalue := (octets_digit (h c (by simp))).2.2
    have hnumber : 10 ^ (c :: cs).length * s + spelt (c :: cs)
        = 10 ^ cs.length * (s * 10 + (c.toNat - 48)) + spelt cs := by
      rw [spelt_cons, List.length_cons, pow_succ]
      ring
    rw [octets_digital_cons h, absorb, hvalue] at habsorb
    rw [hnumber]
    by_cases hfits : s * 10 + (c.toNat - 48) ≤ maxSignificand
    · rw [if_pos hfits] at habsorb
      obtain ⟨rfl, rfl⟩ := Prod.mk.inj habsorb
      obtain ⟨hmax, hlength, hle, hexact⟩ := ih (of_digital_cons h) hfits rfl
      refine ⟨hmax, by simpa using hlength, ?_, fun hall => ?_⟩
      · rwa [List.length_cons, Nat.add_sub_add_right]
      · obtain ⟨ht, hn⟩ := hexact hall
        exact ⟨ht, by rw [hn, List.length_cons]⟩
    · rw [if_neg hfits] at habsorb
      obtain ⟨rfl, rfl⟩ := Prod.mk.inj habsorb
      have hpow : 0 < 10 ^ cs.length := by positivity
      refine ⟨hs, by simp, ?_, fun hall => ?_⟩
      · rw [← hnumber, Nat.sub_zero, Nat.mul_comm]
        exact Nat.le_add_right _ _
      · have := Nat.le_mul_of_pos_left (s * 10 + (c.toNat - 48)) hpow
        omega

/-! ## Whole numbers -/

/-- Digits that fit are read as the whole part of a number. -/
theorem readNumber_whole {whole : List Char} (h : Digital whole) (hne : whole ≠ [])
    (hleading : ∀ cs, whole = '0' :: cs → cs = []) (hfits : spelt whole ≤ maxSignificand)
    (negative : Bool) {rest : Bytes} (hrest : NoDigit rest) :
    readNumber negative (octets whole ++ rest) = readAfterWhole negative (spelt whole) 0 rest := by
  obtain ⟨c, cs, rfl⟩ := List.exists_cons_of_ne_nil hne
  have hc := (octets_digit (h c (by simp))).2.1
  by_cases hzero : c = '0'
  · subst hzero
    rw [hleading cs rfl]
    show readNumber negative (0x30 :: rest) = readAfterWhole negative 0 0 rest
    cases rest with
    | nil => rfl
    | cons b rest =>
      have hb := hrest b (by simp)
      simp [readNumber, hb]
  · have hfirst := octet_ne_zero (h c (by simp)) hzero
    obtain ⟨htake, hdrop⟩ := takeWhile_isDigit h hrest
    obtain ⟨-, -, -, hexact⟩ := absorb_spec h (s := 0) (Nat.zero_le _) rfl
    obtain ⟨hs, hn⟩ := hexact (by simpa using hfits)
    rw [octets_digital_cons h] at htake hdrop hs hn ⊢
    simp only [List.cons_append] at htake hdrop ⊢
    simp only [readNumber, hfirst, hc, if_true, if_false, htake, hdrop]
    rw [hs, hn, ← octets_digital_cons h, length_octets h, Nat.sub_self, Nat.mul_zero, Nat.zero_add]

/-- A number that ends after its whole part is an integer. -/
theorem readAfterWhole_ended (negative : Bool) (s : Nat) {rest : Bytes} (h : Ended rest) :
    readAfterWhole negative s 0 rest = .ok (integerNumeral negative s, rest) := by
  cases rest with
  | nil => rfl
  | cons b rest =>
    obtain ⟨-, hpoint, hmark⟩ := h b (by simp)
    simp [readAfterWhole, hpoint, hmark]

/-- The digits of a number are read as that number, with or without a sign before them. -/
theorem readNumber_digits {n : Nat} (h : n ≤ maxSignificand) (negative : Bool) {rest : Bytes}
    (hrest : Ended rest) :
    readNumber negative (octets (decimalDigits n) ++ rest)
      = .ok (integerNumeral negative n, rest) := by
  have hspelt := Decimal.spelt_decimalDigits n
  rw [readNumber_whole (digital_decimalDigits n) Nat.toDigits_ne_nil
    (fun _ => Decimal.eq_nil_of_leading_zero) (hspelt.symm ▸ h) negative hrest.noDigit,
    readAfterWhole_ended negative _ hrest, hspelt]

/-- **A whole number is read back** as it is. -/
theorem readNumber_nat {n : Nat} (h : n ≤ maxSignificand) {rest : Bytes} (hrest : Ended rest) :
    readNumber false (octets (decimalDigits n) ++ rest) = .ok (.int n, rest) :=
  readNumber_digits h false hrest

/-! ## Exponents -/

/-- The digits of an exponent that fits are read as the number they spell. -/
theorem exponentDigits_octets {cs : List Char} (h : Digital cs) {e : Nat}
    (hfits : 10 ^ cs.length * e + spelt cs ≤ maxExponent) {rest : Bytes} (hrest : NoDigit rest) :
    exponentDigits e (octets cs ++ rest) = (.inl (10 ^ cs.length * e + spelt cs), rest) := by
  induction cs generalizing e with
  | nil =>
    have hnone : 10 ^ ([] : List Char).length * e + spelt [] = e := by simp [spelt]
    rw [hnone]
    cases rest with
    | nil => rfl
    | cons b rest =>
      have hb := hrest b (by simp)
      simp [exponentDigits, hb]
  | cons c cs ih =>
    obtain ⟨-, hc, hvalue⟩ := octets_digit (h c (by simp))
    have hnumber : 10 ^ (c :: cs).length * e + spelt (c :: cs)
        = 10 ^ cs.length * (e * 10 + (c.toNat - 48)) + spelt cs := by
      rw [spelt_cons, List.length_cons, pow_succ]
      ring
    rw [hnumber] at hfits ⊢
    have hnext : e * 10 + (c.toNat - 48) ≤ maxExponent := by
      have hpow : 0 < 10 ^ cs.length := by positivity
      have := Nat.le_mul_of_pos_left (e * 10 + (c.toNat - 48)) hpow
      omega
    rw [octets_digital_cons h, List.cons_append, exponentDigits, if_pos hc, hvalue]
    simp only [hnext, if_true]
    exact ih (of_digital_cons h) hfits

/-- The octets of an exponent are its mark, its sign and at least one digit. -/
theorem octets_exponentPart (e : Int) (rest : Bytes) :
    ∃ d cs, decimalDigits e.natAbs = d :: cs ∧ Digital (d :: cs) ∧
      octets (exponentPart e) ++ rest
        = 0x65 :: (if e < 0 then 0x2D else 0x2B) :: UInt8.ofNat d.toNat :: (octets cs ++ rest) := by
  obtain ⟨d, cs, hdigits⟩ : ∃ d cs, decimalDigits e.natAbs = d :: cs :=
    List.exists_cons_of_ne_nil Nat.toDigits_ne_nil
  have hdigital := digital_decimalDigits e.natAbs
  rw [hdigits] at hdigital
  refine ⟨d, cs, hdigits, hdigital, ?_⟩
  rw [exponentPart, hdigits, Text.octets_cons, Text.octets_cons, octets_digital_cons hdigital]
  split <;> rfl

/-- An exponent that a float can have is read as it is. -/
theorem readExponent_exponentPart {e : Int} (he : e.natAbs ≤ maxExponent) (negative : Bool)
    (s : Nat) (start : Int) {rest : Bytes} (hrest : NoDigit rest) :
    ∃ after, octets (exponentPart e) ++ rest = 0x65 :: after ∧
      readExponent negative s start after = scaled negative s (start + e) rest := by
  obtain ⟨d, cs, hdigits, hdigital, hoctets⟩ := octets_exponentPart e rest
  obtain ⟨-, hd, hvalue⟩ := octets_digit (hdigital d (by simp))
  have hspelt := Decimal.spelt_decimalDigits e.natAbs
  rw [hdigits, spelt_cons] at hspelt
  have hread : exponentDigits (digitValue (UInt8.ofNat d.toNat)) (octets cs ++ rest)
      = (.inl e.natAbs, rest) := by
    rw [hvalue, exponentDigits_octets (of_digital_cons hdigital) (by omega) hrest, hspelt]
  refine ⟨_, hoctets, ?_⟩
  split
  · rename_i hneg
    simp [readExponent, hd, hread, abs_of_neg hneg, sub_neg_eq_add]
  · rename_i hneg
    simp [readExponent, hd, hread, abs_of_nonneg (not_lt.1 hneg)]

/-! ## Floats -/

/-- Sixteen digits fit into a significand. -/
theorem spelt_le_of_length {cs : List Char} (h : Digital cs) (hlength : cs.length ≤ 16) :
    spelt cs ≤ maxSignificand :=
  calc spelt cs ≤ 10 ^ cs.length := (Decimal.spelt_lt h).le
    _ ≤ 10 ^ 16 := Nat.pow_le_pow_right (by decide) hlength
    _ ≤ maxSignificand := by decide

/-- The fraction of a number is taken into its significand while it fits. -/
theorem readFraction_octets {fraction : List Char} (h : Digital fraction) (hne : fraction ≠ [])
    {exponent : Option Int} (he : (exponent.getD 0).natAbs ≤ maxExponent) (negative : Bool)
    (s : Nat) {rest : Bytes} (hrest : Ended rest) :
    readFraction negative s 0
        (octets fraction ++ (octets ((exponent.map exponentPart).getD []) ++ rest))
      = scaled negative (absorb s (octets fraction)).1
          (exponent.getD 0 - (absorb s (octets fraction)).2) rest := by
  have hsome : (octets fraction).isEmpty = false :=
    List.isEmpty_eq_false_iff.2 (octets_ne_nil h hne)
  cases exponent with
  | none =>
    obtain ⟨htake, hdrop⟩ := takeWhile_isDigit h hrest.noDigit
    simp only [Option.map_none, Option.getD_none, Text.octets_nil, List.nil_append, readFraction,
      htake, hdrop, hsome]
    cases rest with
    | nil => rfl
    | cons b rest => simp [(hrest b (by simp)).2.2]
  | some e =>
    rw [Option.getD_some] at he
    obtain ⟨after, hafter, hread⟩ := readExponent_exponentPart he negative
      (absorb s (octets fraction)).1 (0 - (absorb s (octets fraction)).2) hrest.noDigit
    have hmark : NoDigit (0x65 :: after) := by
      intro b hb
      cases hb
      rfl
    obtain ⟨htake, hdrop⟩ := takeWhile_isDigit h hmark
    simp only [Option.map_some, Option.getD_some, hafter, readFraction, htake, hdrop, hsome]
    rw [if_neg Bool.false_ne_true, if_pos (show isExponentLetter 0x65 = true from rfl), hread]
    congr 1
    omega

/-- **A literal is read as a decimal** whose significand is that of the literal, up to digits that
do not fit. -/
theorem readNumber_literal {whole fraction : List Char} {exponent : Option Int}
    (h : Decimal.IsLiteral whole fraction exponent)
    (he : (exponent.getD 0).natAbs ≤ maxExponent) :
    ∃ s n, s ≤ maxSignificand ∧ n ≤ fraction.length ∧
      s * 10 ^ (fraction.length - n) ≤ spelt (whole ++ fraction) ∧
      ∀ negative rest, Ended rest →
        readNumber negative (octets (numberChars whole fraction exponent) ++ rest)
          = scaled negative s (exponent.getD 0 - n) rest := by
  obtain ⟨hwhole, hfraction⟩ := Decimal.digital_append.1 h.digital
  have hfits := spelt_le_of_length hwhole h.length_le
  by_cases hnone : fraction = []
  · subst hnone
    obtain ⟨e, rfl⟩ := Option.ne_none_iff_exists'.1 (h.marked.resolve_left fun h => h rfl)
    rw [Option.getD_some] at he
    refine ⟨spelt whole, 0, hfits, le_rfl, by simp, fun negative rest hrest => ?_⟩
    obtain ⟨after, hafter, hread⟩ :=
      readExponent_exponentPart he negative (spelt whole) 0 hrest.noDigit
    have hmark : NoDigit (0x65 :: after) := by
      intro b hb
      cases hb
      rfl
    rw [numberChars, if_pos rfl, List.append_nil, Text.octets_append, List.append_assoc,
      Option.map_some, Option.getD_some, hafter,
      readNumber_whole hwhole h.nonempty h.leading hfits negative hmark]
    show readExponent negative (spelt whole) 0 after = _
    rw [hread]
    simp
  · obtain ⟨hmax, hlength, hle, -⟩ := absorb_spec hfraction hfits rfl
    refine ⟨_, _, hmax, hlength, ?_, fun negative rest hrest => ?_⟩
    · rwa [Decimal.spelt_append]
    · have hpoint : NoDigit (0x2E :: (octets fraction
          ++ (octets ((exponent.map exponentPart).getD []) ++ rest))) := by
        intro b hb
        cases hb
        rfl
      rw [← readFraction_octets hfraction hnone he negative (spelt whole) hrest]
      have hoctets : octets (numberChars whole fraction exponent) ++ rest
          = octets whole ++ 0x2E :: (octets fraction
            ++ (octets ((exponent.map exponentPart).getD []) ++ rest)) := by
        rw [numberChars, if_neg hnone]
        simp only [Text.octets_append, Text.octets_cons, List.append_assoc]
        rfl
      rw [hoctets, readNumber_whole hwhole h.nonempty h.leading hfits negative hpoint]
      rfl

/-- A decimal of zero is scaled like any other, with a sign before it. -/
theorem readNumber_zero (negative : Bool) {rest : Bytes} (hrest : Ended rest) :
    readNumber negative (octets ['0', '.', '0'] ++ rest) = scaled negative 0 (-1) rest := by
  have hmark : NoDigit (0x2E :: (octets ['0'] ++ rest)) := by
    intro b hb
    cases hb
    rfl
  have hread := readNumber_whole (Decimal.digital_zeros 1) (by simp) (by simp) (by decide) negative
    hmark
  have hfraction := @readFraction_octets ['0'] (Decimal.digital_zeros 1) (by simp) none (by decide)
    negative 0 rest hrest
  exact hread.trans hfraction

/-- What a decimal of zero is read as, with a sign before it. -/
theorem readNumber_negative_zero :
    ∃ y, Decimal.Moderate y ∧ ∀ rest, Ended rest →
      readNumber true (octets ['0', '.', '0'] ++ rest) = .ok (.float y, rest) := by
  obtain ⟨y, hscale, hy⟩ := Decimal.scale?_zero (e := -1) (by decide)
  refine ⟨-y, hy.neg.mono (by positivity), fun rest hrest => ?_⟩
  rw [readNumber_zero true hrest, scaled, show UInt64.ofNat 0 = 0 from rfl, hscale]
  rfl

/-- **The text of a moderate float is read as a moderate float.** -/
theorem readNumber_moderate {x : Float} (h : Decimal.Moderate x) :
    ∃ y, Decimal.Moderate y ∧ ∀ rest, Ended rest →
      readNumber (Decimal.isNegative x) (octets (Decimal.Layout.json.unsignedChars x) ++ rest)
        = .ok (.float y, rest) := by
  by_cases hsign : Decimal.isNegative x = true
  -- a sign stands before zero only
  · rw [hsign, h.unsignedChars_of_isNegative hsign]
    exact readNumber_negative_zero
  obtain ⟨whole, fraction, exponent, hchars, hliteral, hvalue, hlow, hhigh⟩ := h.exists_literal
  have hsmall : (exponent.getD 0).natAbs ≤ maxExponent := by
    refine le_trans ?_ (by decide : 1076 ≤ maxExponent)
    omega
  obtain ⟨s, n, hmax, hlength, hle, hread⟩ := readNumber_literal hliteral hsmall
  have hs : (UInt64.ofNat s).toNat = s := by
    rw [UInt64.toNat_ofNat', Nat.mod_eq_of_lt]
    exact Nat.lt_of_le_of_lt hmax (by decide)
  -- digits that were dropped make the number no larger
  have hmoderate : ((UInt64.ofNat s).toNat : ℚ) * 10 ^ (exponent.getD 0 - n) ≤ 2 * 10 ^ 22 := by
    have hle : (s : ℚ) * 10 ^ (fraction.length - n) ≤ spelt (whole ++ fraction) := by
      exact_mod_cast hle
    have hsplit : exponent.getD 0 - (n : Int)
        = (fraction.length - n : Nat) + (exponent.getD 0 - fraction.length) := by omega
    rw [hs, hsplit, zpow_add₀ (by norm_num), zpow_natCast, ← mul_assoc]
    exact (mul_le_mul_of_nonneg_right hle (by positivity)).trans hvalue
  obtain ⟨y, hscale, hy⟩ := Decimal.moderate_scale? (by omega) hmoderate
  refine ⟨y, hy, fun rest hrest => ?_⟩
  rw [Bool.not_eq_true] at hsign
  rw [hsign, hchars, hread false rest hrest, scaled, hscale]
  rfl

/-! ## Numbers that are skipped -/

/-- An exponent is skipped whole. -/
theorem skipExponent_exponentPart (e : Int) {rest : Bytes} (hrest : NoDigit rest) :
    ∃ after, octets (exponentPart e) ++ rest = 0x65 :: after ∧ skipExponent after = .ok rest := by
  obtain ⟨d, cs, -, hdigital, hoctets⟩ := octets_exponentPart e rest
  have hd := (octets_digit (hdigital d (by simp))).2.1
  have hdrop := (takeWhile_isDigit (of_digital_cons hdigital) hrest).2
  refine ⟨_, hoctets, ?_⟩
  split <;> simp [skipExponent, hd, hdrop]

/-- The digits of a number without needless zeros are skipped, and what follows them decides. -/
theorem skipNumber_whole {whole : List Char} (h : Digital whole) (hne : whole ≠ [])
    (hleading : ∀ cs, whole = '0' :: cs → cs = []) {rest : Bytes} (hrest : NoDigit rest) :
    skipNumber (octets whole ++ rest) = skipAfterWhole rest := by
  obtain ⟨c, cs, rfl⟩ := List.exists_cons_of_ne_nil hne
  by_cases hzero : c = '0'
  · subst hzero
    rw [hleading cs rfl]
    show skipNumber (0x30 :: rest) = skipAfterWhole rest
    cases rest with
    | nil => rfl
    | cons b rest => simp [skipNumber, hrest b (by simp)]
  · have hfirst := octet_ne_zero (h c (by simp)) hzero
    have hc := (octets_digit (h c (by simp))).2.1
    have hdrop := (takeWhile_isDigit (of_digital_cons h) hrest).2
    rw [octets_digital_cons h, List.cons_append]
    simp only [skipNumber, hfirst, hc, if_true, if_false, hdrop]

/-- A number that ends behind its digits is skipped. -/
theorem skipAfterWhole_ended {rest : Bytes} (h : Ended rest) : skipAfterWhole rest = .ok rest := by
  cases rest with
  | nil => rfl
  | cons b rest =>
    obtain ⟨-, hpoint, hmark⟩ := h b (by simp)
    simp [skipAfterWhole, hpoint, hmark]

/-- A fraction is skipped with what stands behind it. -/
theorem skipAfterWhole_point {fraction : List Char} (h : Digital fraction) (hne : fraction ≠ [])
    {rest : Bytes} (hrest : NoDigit rest) (hpoint : ∀ b ∈ rest.head?, b ≠ 0x2E) :
    skipAfterWhole (0x2E :: (octets fraction ++ rest)) = skipAfterWhole rest := by
  have hsome := octets_ne_nil h hne
  obtain ⟨htake, hdrop⟩ := takeWhile_isDigit h hrest
  cases rest with
  | nil =>
    rw [List.append_nil] at htake hdrop ⊢
    simp [skipAfterWhole, htake, hdrop, hsome]
  | cons b rest => simp [skipAfterWhole, htake, hdrop, hsome, hpoint b (by simp)]

/-- **Every number is skipped**, whatever its size. -/
theorem skipNumber_numberChars {whole fraction : List Char} {exponent : Option Int}
    (h : Digital (whole ++ fraction)) (hne : whole ≠ [])
    (hleading : ∀ cs, whole = '0' :: cs → cs = []) {rest : Bytes} (hrest : Ended rest) :
    skipNumber (octets (numberChars whole fraction exponent) ++ rest) = .ok rest := by
  obtain ⟨hwhole, hfraction⟩ := Decimal.digital_append.1 h
  -- what stands behind the digits
  obtain ⟨tail, htail, hdigit, hpoint, hskip⟩ :
      ∃ tail, octets ((exponent.map exponentPart).getD []) ++ rest = tail ∧ NoDigit tail ∧
        (∀ b ∈ tail.head?, b ≠ 0x2E) ∧ skipAfterWhole tail = .ok rest := by
    cases exponent with
    | none => exact ⟨rest, rfl, hrest.noDigit, fun b hb => (hrest b hb).2.1,
        skipAfterWhole_ended hrest⟩
    | some e =>
      obtain ⟨after, hafter, hskip⟩ := skipExponent_exponentPart e hrest.noDigit
      refine ⟨_, hafter, ?_, ?_, hskip⟩ <;> intro b hb <;> cases hb
      · rfl
      · decide
  rw [numberChars, Text.octets_append, Text.octets_append, List.append_assoc, List.append_assoc,
    htail]
  by_cases hnone : fraction = []
  · rw [if_pos hnone, Text.octets_nil, List.nil_append, skipNumber_whole hwhole hne hleading hdigit,
      hskip]
  · have hmark : NoDigit (0x2E :: (octets fraction ++ tail)) := by
      intro b hb
      cases hb
      rfl
    rw [if_neg hnone, Text.octets_cons, List.append_assoc]
    exact (skipNumber_whole hwhole hne hleading hmark).trans
      ((skipAfterWhole_point hfraction hnone hdigit hpoint).trans hskip)

end EvalProxy.Json
