/-
# Float arithmetic

What sums, differences, products and quotients of floats stand for: the numbers that the exact
results are rounded to, unless they are too large.

Main statements: `exists_stands_add`, `exists_stands_sub`, `exists_stands_mul`, `exists_stands_div`.
-/
import EvalProxy.Proofs.Decimal.Rounding
namespace EvalProxy.Decimal

open Float.Model
open Float.Model.UnpackedFloat (Accuracy ExtendedMantissa Sign)

/-! ## Whole numbers times powers of two -/

theorem RoundsTo.refl (v : ℚ) : RoundsTo v v := fun _ _ => ⟨id, id⟩

/-- Making the exponent smaller keeps the number. -/
theorem value_decreaseExponent (m : Nat) (e t : Int) :
    ((UnpackedFloat.decreaseExponent m e t).1 : ℚ) * 2 ^ (UnpackedFloat.decreaseExponent m e t).2
      = m * 2 ^ e := by
  simp only [UnpackedFloat.decreaseExponent, Nat.shiftLeft_eq]
  rw [zpow_sub₀ (by norm_num), zpow_natCast]
  push_cast
  field_simp

theorem log2_shiftLeft {m : Nat} (hm : 0 < m) (k : Nat) : (m <<< k).log2 = m.log2 + k := by
  have hpow : 0 < 2 ^ k := by positivity
  rw [Nat.shiftLeft_eq, Nat.log2_eq_iff (by positivity)]
  constructor
  · rw [pow_add]
    exact Nat.mul_le_mul_right _ (Nat.log2_self_le hm.ne')
  · rw [Nat.add_right_comm, pow_add]
    exact Nat.mul_lt_mul_of_pos_right Nat.lt_log2_self hpow

/-- **Any whole number times a power of two** is rounded to a float. -/
theorem exists_stands_roundOff (s : Sign) {m : Nat} (e : Int) (hm : 0 < m)
    (hmax : (m : ℚ) * 2 ^ e ≤ maxFinite) :
    ∃ d, Stands (UnpackedFloat.round Format.binary64 s m e) s d ∧ RoundsTo (m * 2 ^ e) d := by
  obtain ⟨t, ht⟩ : ∃ t, t = Format.binary64.targetExponent (totalExponent m e) := ⟨_, rfl⟩
  have hvalue := value_decreaseExponent m e t
  rw [UnpackedFloat.round]
  simp only [← ht]
  refine exists_stands_round s ?_ ?_ hmax
  · have hlog : ((UnpackedFloat.decreaseExponent m e t).1.log2 : Int)
        = m.log2 + (e - t).toNat := by
      simp only [UnpackedFloat.decreaseExponent, log2_shiftLeft hm]
      push_cast
      ring
    have hexponent : (UnpackedFloat.decreaseExponent m e t).2 = e - (e - t).toNat := rfl
    rw [targetExponent_eq] at ht ⊢
    omega
  · rw [← hvalue, mul_div_cancel_right₀ _ (by positivity)]
    exact marks_exact _

/-! ## Signs -/

/-- A number with a sign. -/
def signed : Sign → ℚ → ℚ
  | .positive, q => q
  | .negative, q => -q

/-- The sign of a number. -/
def signOf (v : ℚ) : Sign := if v < 0 then .negative else .positive

theorem signOf_of_nonneg {v : ℚ} (h : 0 ≤ v) : signOf v = .positive := if_neg (not_lt.2 h)

theorem signOf_of_neg {v : ℚ} (h : v < 0) : signOf v = .negative := if_pos h

/-- A number that is not zero has the sign that was given to it. -/
theorem signOf_signed {q : ℚ} (h : 0 < q) (s : Sign) : signOf (signed s q) = s := by
  cases s with
  | positive => exact signOf_of_nonneg h.le
  | negative => exact signOf_of_neg (neg_lt_zero.2 h)

/-- A number keeps its size under either sign. -/
theorem abs_signed {q : ℚ} (h : 0 ≤ q) (s : Sign) : |signed s q| = q := by
  cases s with
  | positive => exact abs_of_nonneg h
  | negative => rw [signed, abs_neg, abs_of_nonneg h]

theorem signed_zero (s : Sign) : signed s 0 = 0 := by
  cases s <;> simp [signed]

/-- **A whole number with a sign** times a power of two is rounded to a float. -/
theorem exists_stands_normalize (n e : Int) (z : Sign) (hmax : |(n : ℚ) * 2 ^ e| ≤ maxFinite) :
    ∃ d, Stands (UnpackedFloat.normalize Format.binary64 n e z) (signOf (n * 2 ^ e)) d ∧
      RoundsTo |(n : ℚ) * 2 ^ e| d := by
  have hunit : (0 : ℚ) < 2 ^ e := by positivity
  rw [UnpackedFloat.normalize]
  rcases lt_trichotomy n 0 with hneg | rfl | hpos
  · have hn : ((-n).toNat : ℚ) = -n := by exact_mod_cast Int.toNat_of_nonneg (by omega)
    have hneg' : (n : ℚ) * 2 ^ e < 0 := mul_neg_of_neg_of_pos (by exact_mod_cast hneg) hunit
    have habs : |(n : ℚ) * 2 ^ e| = (-n).toNat * 2 ^ e := by
      rw [abs_of_neg hneg', hn, neg_mul]
    rw [Int.compare_eq_lt.2 hneg, signOf_of_neg hneg', habs]
    exact exists_stands_roundOff _ e (by omega) (habs ▸ hmax)
  · rw [Int.cast_zero, zero_mul, abs_zero]
    exact ⟨0, .zero _ _, .refl 0⟩
  · have hn : (n.toNat : ℚ) = n := by exact_mod_cast Int.toNat_of_nonneg hpos.le
    have hpos' : 0 < (n : ℚ) * 2 ^ e := mul_pos (by exact_mod_cast hpos) hunit
    have habs : |(n : ℚ) * 2 ^ e| = n.toNat * 2 ^ e := by rw [abs_of_pos hpos', hn]
    rw [Int.compare_eq_gt.2 hpos, signOf_of_nonneg hpos'.le, habs]
    exact exists_stands_roundOff _ e (by omega) (habs ▸ hmax)

/-! ## Sums and differences -/

theorem Stands.nonneg {u : UnpackedFloat} {s : Sign} {q : ℚ} (h : Stands u s q) : 0 ≤ q := by
  cases h with
  | zero => exact le_rfl
  | finite s hpos hlt hlow hhigh hfull => positivity

/-- A mantissa with a sign and a smaller exponent stands for the same number. -/
theorem signed_decreaseExponent (s : Sign) (m : Nat) {e t : Int} (h : t ≤ e) :
    ((s.apply (UnpackedFloat.decreaseExponent m e t).1 : Int) : ℚ) * 2 ^ t
      = signed s (m * 2 ^ e) := by
  have hvalue := value_decreaseExponent m e t
  have hexponent : (UnpackedFloat.decreaseExponent m e t).2 = t := by
    show e - ((e - t).toNat : Int) = t
    omega
  rw [hexponent] at hvalue
  cases s with
  | positive => simpa [Sign.apply, signed] using hvalue
  | negative => simpa [Sign.apply, signed] using hvalue

/-- **The sum of two floats** stands for what the sum of their numbers is rounded to. -/
theorem exists_stands_add {a b : UnpackedFloat} {s t : Sign} {p q : ℚ} (ha : Stands a s p)
    (hb : Stands b t q) (hmax : |signed s p + signed t q| ≤ maxFinite) :
    ∃ d, Stands (UnpackedFloat.add Format.binary64 a b) (signOf (signed s p + signed t q)) d ∧
      RoundsTo |signed s p + signed t q| d := by
  cases ha with
  | zero s s' =>
    rw [signed_zero, zero_add]
    cases hb with
    | zero t t' =>
      rw [signed_zero, abs_zero]
      refine ⟨0, ?_, .refl 0⟩
      cases s' <;> cases t' <;> exact .zero _ _
    | finite t hpos hlt hlow hhigh hfull =>
      rw [abs_signed (by positivity), signOf_signed (by positivity)]
      exact ⟨_, .finite t hpos hlt hlow hhigh hfull, .refl _⟩
  | finite s hpos hlt hlow hhigh hfull =>
    cases hb with
    | zero t t' =>
      rw [signed_zero, add_zero, abs_signed (by positivity), signOf_signed (by positivity)]
      exact ⟨_, .finite s hpos hlt hlow hhigh hfull, .refl _⟩
    | @finite t n f hpos' hlt' hlow' hhigh' hfull' =>
      rename_i m e
      have hsum : (((s.apply (UnpackedFloat.decreaseExponent m e (min e f)).1
          + t.apply (UnpackedFloat.decreaseExponent n f (min e f)).1 : Int) : ℚ) * 2 ^ (min e f))
          = signed s (m * 2 ^ e) + signed t (n * 2 ^ f) := by
        push_cast
        rw [add_mul, signed_decreaseExponent s m (min_le_left e f),
          signed_decreaseExponent t n (min_le_right e f)]
      rw [← hsum] at hmax ⊢
      exact exists_stands_normalize _ _ _ hmax

/-- The opposite float stands for the same number with the opposite sign. -/
theorem Stands.neg {u : UnpackedFloat} {s : Sign} {q : ℚ} (h : Stands u s q) :
    Stands u.neg (-s) q := by
  cases h with
  | zero s s' => exact .zero _ _
  | finite s hpos hlt hlow hhigh hfull => exact .finite _ hpos hlt hlow hhigh hfull

theorem signed_neg (s : Sign) (q : ℚ) : signed (-s) q = -signed s q := by
  cases s with
  | positive => rfl
  | negative => exact (neg_neg q).symm

/-- A difference is the sum with the other sign. -/
theorem sub_eq_add (a b : UnpackedFloat) :
    UnpackedFloat.sub Format.binary64 a b = UnpackedFloat.add Format.binary64 a b.neg := by
  cases a with
  | finite s m e hm =>
    cases b with
    | finite t n f hn =>
      cases t with
      | positive => rfl
      | negative =>
        simp only [UnpackedFloat.sub, UnpackedFloat.add, UnpackedFloat.neg, Sign.apply]
        rw [Int.sub_neg]
    | _ => rfl
  | _ => cases b <;> rfl

/-- **The difference of two floats** stands for what the difference of their numbers is rounded
to. -/
theorem exists_stands_sub {a b : UnpackedFloat} {s t : Sign} {p q : ℚ} (ha : Stands a s p)
    (hb : Stands b t q) (hmax : |signed s p - signed t q| ≤ maxFinite) :
    ∃ d, Stands (UnpackedFloat.sub Format.binary64 a b) (signOf (signed s p - signed t q)) d ∧
      RoundsTo |signed s p - signed t q| d := by
  rw [sub_eq_add]
  rw [sub_eq_add_neg, ← signed_neg] at hmax ⊢
  exact exists_stands_add ha hb.neg hmax

/-! ## Products and quotients -/

/-- **The product of two floats** stands for what the product of their numbers is rounded to. -/
theorem exists_stands_mul {a b : UnpackedFloat} {s t : Sign} {p q : ℚ} (ha : Stands a s p)
    (hb : Stands b t q) (hmax : p * q ≤ maxFinite) :
    ∃ d, Stands (UnpackedFloat.mul Format.binary64 a b) (s * t) d ∧ RoundsTo (p * q) d := by
  cases ha with
  | zero s s' =>
    rw [zero_mul]
    cases hb <;> exact ⟨0, .zero _ _, .refl 0⟩
  | @finite s m e hpos hlt hlow hhigh hfull =>
    cases hb with
    | zero t t' =>
      rw [mul_zero]
      exact ⟨0, .zero _ _, .refl 0⟩
    | @finite t n f hpos' hlt' hlow' hhigh' hfull' =>
      have hvalue : (m : ℚ) * 2 ^ e * (n * 2 ^ f) = (m * n : Nat) * 2 ^ (e + f) := by
        rw [zpow_add₀ (by norm_num)]
        push_cast
        ring
      rw [hvalue] at hmax ⊢
      refine exists_stands_round _ ?_ ?_ hmax
      -- a full mantissa makes the product full
      · rw [targetExponent_eq]
        by_cases hleast : e = -1074 ∧ f = -1074
        · omega
        · have hproduct : 2 ^ 52 ≤ m * n := by
            rcases hfull with hm | he
            · exact hm.trans (Nat.le_mul_of_pos_right m hpos')
            · have hn := hfull'.resolve_right fun hf => hleast ⟨he, hf⟩
              exact hn.trans (Nat.le_mul_of_pos_left n hpos)
          have := (Nat.le_log2 (by positivity)).2 hproduct
          omega
      · rw [mul_div_cancel_right₀ _ (by positivity)]
        exact marks_exact _

/-- The quotient and the remainder of a division tell where the exact quotient lies. -/
theorem marks_fraction (m : Nat) {n : Nat} (hn : 0 < n) :
    Marks (.ofMantissaAndAccuracy (m / n) (UnpackedFloat.accuracyOfFraction (m % n) n))
      ((m : ℚ) / n) := by
  have hpos : (0 : ℚ) < n := by exact_mod_cast hn
  have hvalue : (m : ℚ) / n = (m / n : Nat) + (m % n : Nat) / n := by
    have : (m : ℚ) = n * (m / n : Nat) + (m % n : Nat) := by
      exact_mod_cast (Nat.div_add_mod m n).symm
    rw [div_eq_iff hpos.ne', add_mul, div_mul_cancel₀ _ hpos.ne']
    linarith
  have hlt : ((m % n : Nat) : ℚ) < n := by exact_mod_cast Nat.mod_lt m hn
  rw [hvalue]
  generalize m / n = quotient at *
  generalize m % n = rest at *
  rw [UnpackedFloat.accuracyOfFraction]
  by_cases hzero : rest = 0
  · rw [if_pos hzero, hzero]
    simp [Marks, ExtendedMantissa.ofMantissaAndAccuracy]
  rw [if_neg hzero]
  have hrest : (0 : ℚ) < rest / n := div_pos (by exact_mod_cast Nat.pos_of_ne_zero hzero) hpos
  have hless : (rest : ℚ) / n < 1 := (div_lt_one hpos).2 hlt
  rcases lt_trichotomy (2 * rest) n with hhalf | hhalf | hhalf
  · have hbelow : (rest : ℚ) / n < 1 / 2 := by
      have : (2 * rest : ℚ) < n := by exact_mod_cast hhalf
      rw [div_lt_iff₀ hpos]
      linarith
    rw [Nat.compare_eq_lt.2 hhalf]
    exact ⟨lt_add_of_pos_right _ hrest, add_lt_add_right hbelow _⟩
  · have hmiddle : (rest : ℚ) / n = 1 / 2 := by
      have : (2 * rest : ℚ) = n := by exact_mod_cast hhalf
      rw [div_eq_iff hpos.ne']
      linarith
    rw [Nat.compare_eq_eq.2 hhalf, hmiddle]
    rfl
  · have habove : 1 / 2 < (rest : ℚ) / n := by
      have : (n : ℚ) < 2 * rest := by exact_mod_cast hhalf
      rw [lt_div_iff₀ hpos]
      linarith
    rw [Nat.compare_eq_gt.2 hhalf]
    exact ⟨add_lt_add_right habove _, add_lt_add_right hless _⟩

/-- A quotient is full if the dividend is long enough. -/
theorem le_quotient {m n k : Nat} (hm : m ≠ 0) (hn : 0 < n)
    (h : 52 + (n.log2 + 1) ≤ m.log2 + k) : 2 ^ 52 ≤ (m <<< k) / n := by
  rw [Nat.le_div_iff_mul_le hn, Nat.shiftLeft_eq]
  calc 2 ^ 52 * n ≤ 2 ^ 52 * 2 ^ (n.log2 + 1) := Nat.mul_le_mul_left _ Nat.lt_log2_self.le
    _ = 2 ^ (52 + (n.log2 + 1)) := (pow_add 2 _ _).symm
    _ ≤ 2 ^ (m.log2 + k) := Nat.pow_le_pow_right (by decide) h
    _ = 2 ^ m.log2 * 2 ^ k := pow_add 2 _ _
    _ ≤ m * 2 ^ k := Nat.mul_le_mul_right _ (Nat.log2_self_le hm)

/-- **The quotient of two floats** stands for what the quotient of their numbers is rounded to. -/
theorem exists_stands_div {a b : UnpackedFloat} {s t : Sign} {p q : ℚ} (ha : Stands a s p)
    (hb : Stands b t q) (hne : q ≠ 0) (hmax : p / q ≤ maxFinite) :
    ∃ d, Stands (UnpackedFloat.div Format.binary64 a b) (s / t) d ∧ RoundsTo (p / q) d := by
  cases hb with
  | zero => exact absurd rfl hne
  | @finite t n f hpos' hlt' hlow' hhigh' hfull' =>
    cases ha with
    | zero s s' =>
      rw [zero_div]
      exact ⟨0, .zero _ _, .refl 0⟩
    | @finite s m e hpos hlt hlow hhigh hfull =>
      rw [UnpackedFloat.div]
      simp only [UnpackedFloat.divCore]
      obtain ⟨x, hx⟩ : ∃ x, x = Format.binary64.targetExponent
          (totalExponent m e - totalExponent n f) := ⟨_, rfl⟩
      obtain ⟨k, hk⟩ := Int.eq_ofNat_of_zero_le (sub_nonneg.2 (min_le_left (e - f) x))
      have hcount : (e - f - min (e - f) x).toNat = k := by omega
      rw [← hx, hcount]
      have hvalue : (m : ℚ) * 2 ^ e / (n * 2 ^ f)
          = (m <<< k : Nat) / n * 2 ^ min (e - f) x := by
        have hexponent : min (e - f) x = e - f - k := by omega
        rw [hexponent, Nat.shiftLeft_eq, zpow_sub₀ (by norm_num), zpow_sub₀ (by norm_num),
          zpow_natCast]
        push_cast
        field_simp
      rw [hvalue] at hmax ⊢
      refine exists_stands_round _ ?_ ?_ hmax
      -- the mantissa is shifted far enough for a full quotient
      · have hx : x = max ((m.log2 + e) - (n.log2 + f) - 53) (-1074) := by
          rw [hx]
          show max ((m.log2 : Int) + 1 + e - (n.log2 + 1 + f) - 53) (-1074) = _
          congr 1
          omega
        rw [targetExponent_eq]
        by_cases hleast : min (e - f) x ≤ -1074
        · omega
        · have hlog : 52 + (n.log2 + 1) ≤ m.log2 + k := by omega
          have hquotient := le_quotient hpos.ne' hpos' hlog
          have := (Nat.le_log2 (by omega)).2 hquotient
          omega
      · rw [mul_div_cancel_right₀ _ (by positivity)]
        exact marks_fraction _ hpos'

/-! ## Floats -/

/-- A float stands for a number with a sign. -/
def IsValue (x : Float) (s : Sign) (q : ℚ) : Prop := Stands x.toModel.unpack s q

/-- A float that is packed from its parts stands for the number that they do. -/
theorem IsValue.of_pack {u : UnpackedFloat} {s : Sign} {q : ℚ} (h : Stands u s q) :
    IsValue (.ofModel (.pack u)) s q := by
  rw [IsValue, h.unpack_pack]
  exact h

/-- Within the range of floats a sum of floats stands for the rounded sum. -/
theorem IsValue.add {x y : Float} {s t : Sign} {p q : ℚ} (hx : IsValue x s p)
    (hy : IsValue y t q) (hmax : |signed s p + signed t q| ≤ maxFinite) :
    ∃ d, IsValue (x + y) (signOf (signed s p + signed t q)) d ∧
      RoundsTo |signed s p + signed t q| d := by
  obtain ⟨d, hd, hrounds⟩ := exists_stands_add hx hy hmax
  exact ⟨d, .of_pack hd, hrounds⟩

/-- Within the range of floats a difference of floats stands for the rounded difference. -/
theorem IsValue.sub {x y : Float} {s t : Sign} {p q : ℚ} (hx : IsValue x s p)
    (hy : IsValue y t q) (hmax : |signed s p - signed t q| ≤ maxFinite) :
    ∃ d, IsValue (x - y) (signOf (signed s p - signed t q)) d ∧
      RoundsTo |signed s p - signed t q| d := by
  obtain ⟨d, hd, hrounds⟩ := exists_stands_sub hx hy hmax
  exact ⟨d, .of_pack hd, hrounds⟩

/-- Within the range of floats a product of floats stands for the rounded product. -/
theorem IsValue.mul {x y : Float} {s t : Sign} {p q : ℚ} (hx : IsValue x s p)
    (hy : IsValue y t q) (hmax : p * q ≤ maxFinite) :
    ∃ d, IsValue (x * y) (s * t) d ∧ RoundsTo (p * q) d := by
  obtain ⟨d, hd, hrounds⟩ := exists_stands_mul hx hy hmax
  exact ⟨d, .of_pack hd, hrounds⟩

/-- Within the range of floats a quotient of floats stands for the rounded quotient. -/
theorem IsValue.div {x y : Float} {s t : Sign} {p q : ℚ} (hx : IsValue x s p)
    (hy : IsValue y t q) (hne : q ≠ 0) (hmax : p / q ≤ maxFinite) :
    ∃ d, IsValue (x / y) (s / t) d ∧ RoundsTo (p / q) d := by
  obtain ⟨d, hd, hrounds⟩ := exists_stands_div hx hy hne hmax
  exact ⟨d, .of_pack hd, hrounds⟩

/-- A count stands for what it is rounded to. -/
theorem isValue_toFloat (n : UInt64) :
    ∃ d, IsValue n.toFloat .positive d ∧ RoundsTo n.toNat d := by
  have hcast : (n.toNat : ℚ) = ((n.toNat : Int) : ℚ) * 2 ^ (0 : Int) := by simp
  have hnonneg : (0 : ℚ) ≤ ((n.toNat : Int) : ℚ) * 2 ^ (0 : Int) := hcast ▸ Nat.cast_nonneg _
  have hmax : |((n.toNat : Int) : ℚ) * 2 ^ (0 : Int)| ≤ maxFinite := by
    rw [abs_of_nonneg hnonneg, ← hcast]
    have : (n.toNat : ℚ) < 2 ^ 64 := by exact_mod_cast n.toNat_lt
    exact le_maxFinite (this.le.trans (pow_le_pow_right₀ (by norm_num) (by norm_num)))
  obtain ⟨d, hd, hrounds⟩ := exists_stands_normalize n.toNat 0 .positive hmax
  rw [signOf_of_nonneg hnonneg] at hd
  rw [abs_of_nonneg hnonneg, ← hcast] at hrounds
  exact ⟨d, .of_pack hd, hrounds⟩

end EvalProxy.Decimal
