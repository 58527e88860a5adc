/-
# Moderate floats

Numbers from zero to `2 * 10 ^ 22`: every count of 64 bits and every duration in milliseconds is
one, and so is every mean of such numbers, updated one number at a time, for all the rounding on the
way.

Main definitions: `Moderate`, `IsDuration`.
Main statements: `moderate_mean`, `moderate_scale?`.
-/
import EvalProxy.Decimal.Scale
import EvalProxy.Proofs.Decimal.Arithmetic
import Mathlib.Data.Int.Log
import Mathlib.Data.Rat.Floor
namespace EvalProxy.Decimal

open Float.Model
open Float.Model.UnpackedFloat (Sign)

/-- A float stands for a number from zero to a bound. -/
def AtMost (b : ℚ) (x : Float) : Prop := ∃ q, IsValue x .positive q ∧ q ≤ b

theorem AtMost.mono {b c : ℚ} {x : Float} (h : AtMost b x) (hle : b ≤ c) : AtMost c x :=
  let ⟨q, hx, hq⟩ := h
  ⟨q, hx, hq.trans hle⟩

/-- A float stands for a number from zero to `2 * 10 ^ 22`. -/
def Moderate (x : Float) : Prop := AtMost (2 * 10 ^ 22) x

/-- Moderate numbers are far below the largest float. -/
theorem le_maxFinite_of_moderate {q : ℚ} (h : q ≤ 2 * 10 ^ 22) : q ≤ maxFinite := by
  refine le_maxFinite (h.trans ?_)
  calc (2 * 10 ^ 22 : ℚ) ≤ 2 ^ 75 := by norm_num
    _ ≤ 2 ^ 971 := pow_le_pow_right₀ (by norm_num) (by norm_num)

/-! ## Numbers that floats stand for -/

theorem representable_zero : Representable 0 := ⟨0, 0, by decide, by decide, by simp⟩

/-- The powers of ten up to the bound are exact. -/
theorem representable_ten_pow {k : Nat} (h : k ≤ 22) : Representable (10 ^ k) := by
  refine ⟨5 ^ k, k, ?_, by omega, ?_⟩
  · calc 5 ^ k ≤ 5 ^ 22 := Nat.pow_le_pow_right (by decide) h
      _ < 2 ^ 53 := by decide
  · rw [zpow_natCast, Nat.cast_pow, ← mul_pow]
    norm_num

/-- Twice a number that floats stand for is one as well. -/
theorem Representable.double {q : ℚ} (h : Representable q) : Representable (2 * q) := by
  obtain ⟨b, f, hb, hf, rfl⟩ := h
  refine ⟨b, f + 1, hb, by omega, ?_⟩
  rw [zpow_add_one₀ (by norm_num)]
  ring

/-- Some float stands for the longest duration. -/
theorem representable_bound : Representable (2 * 10 ^ 22) := (representable_ten_pow le_rfl).double

/-- Some float stands for each power of two that is not too small. -/
theorem representable_two_zpow {j : Int} (h : -1074 ≤ j) : Representable (2 ^ j) :=
  ⟨1, j, by decide, h, by simp⟩

/-- There is a least positive float, of which all others are multiples. -/
theorem Representable.exists_multiple {q : ℚ} (h : Representable q) :
    ∃ n : Nat, q = n * 2 ^ (-1074 : Int) :=
  (h.units (-1074)).resolve_right fun hsmall => lt_irrefl _ hsmall.1

/-- The distance of two numbers that floats stand for is nothing, or not below the least positive
float. -/
theorem Representable.le_abs_sub {p q : ℚ} (hp : Representable p) (hq : Representable q)
    (hne : p ≠ q) : (2 : ℚ) ^ (-1074 : Int) ≤ |p - q| := by
  obtain ⟨m, rfl⟩ := hp.exists_multiple
  obtain ⟨n, rfl⟩ := hq.exists_multiple
  have hunit : (0 : ℚ) < 2 ^ (-1074 : Int) := by positivity
  have hdistance : (1 : ℚ) ≤ |(m : ℚ) - n| := by
    have hne : (m : Int) - n ≠ 0 := by
      intro heq
      obtain rfl : m = n := by omega
      exact hne rfl
    exact_mod_cast Int.one_le_abs hne
  rw [← sub_mul, abs_mul, abs_of_pos hunit]
  exact le_mul_of_one_le_left hunit.le hdistance

/-- Rounding does not exceed a number that floats stand for. -/
theorem RoundsTo.le {v d q : ℚ} (h : RoundsTo v d) (hq : Representable q) (hle : v ≤ q) : d ≤ q :=
  (h q hq).1 hle

/-- Rounding does not fall below a number that floats stand for. -/
theorem RoundsTo.ge {v d q : ℚ} (h : RoundsTo v d) (hq : Representable q) (hle : q ≤ v) : q ≤ d :=
  (h q hq).2 hle

/-- Moderate numbers are rounded to moderate ones. -/
theorem RoundsTo.moderate {v d : ℚ} (h : RoundsTo v d) (hv : v ≤ 2 * 10 ^ 22) : d ≤ 2 * 10 ^ 22 :=
  h.le representable_bound hv

/-! ## Counts -/

/-- Every whole number of 64 bits is moderate as a float. -/
theorem moderate_toFloat (n : UInt64) : Moderate n.toFloat := by
  obtain ⟨d, hd, hrounds⟩ := isValue_toFloat n
  refine ⟨d, hd, hrounds.moderate ?_⟩
  have : (n.toNat : ℚ) < 2 ^ 64 := by exact_mod_cast n.toNat_lt
  refine this.le.trans ?_
  norm_num

/-! ## Means -/

/-- Half of a distance or less, rounded before and after, is at most the distance: a power of two
lies between. -/
theorem le_of_rounds_div {v d n q : ℚ} (hv : v = 0 ∨ (2 : ℚ) ^ (-1074 : Int) ≤ v)
    (hd : RoundsTo v d) (hn : 2 ≤ n) (hq : RoundsTo (d / n) q) : q ≤ v := by
  have hpos : 0 < n := by linarith
  rcases hv with rfl | hv
  · have hzero : d ≤ 0 := hd.le representable_zero le_rfl
    exact hq.le representable_zero (div_nonpos_of_nonpos_of_nonneg hzero hpos.le)
  have hvpos : 0 < v := lt_of_lt_of_le (by positivity) hv
  set j := Int.log 2 v with hj
  have hle : (2 : ℚ) ^ j ≤ v := by exact_mod_cast Int.zpow_log_le_self (by norm_num) hvpos
  have hlt : v < (2 : ℚ) ^ (j + 1) := by
    exact_mod_cast Int.lt_zpow_succ_log_self (b := 2) (by norm_num) v
  have hlow : -1074 ≤ j := by
    by_contra hsmall
    have : (2 : ℚ) ^ (j + 1) ≤ 2 ^ (-1074 : Int) := zpow_le_zpow_right₀ (by norm_num) (by omega)
    linarith
  have hround : d ≤ 2 ^ (j + 1) := hd.le (representable_two_zpow (by omega)) hlt.le
  refine le_trans (hq.le (representable_two_zpow hlow) ?_) hle
  rw [div_le_iff₀ hpos]
  calc d ≤ 2 ^ (j + 1) := hround
    _ = 2 ^ j * 2 := zpow_add_one₀ (by norm_num) j
    _ ≤ 2 ^ j * n := mul_le_mul_of_nonneg_left hn (by positivity)

/-- **A moderate number is moved towards another** by half of the distance or less: it stays
moderate. -/
theorem moderate_mean {m x c : Float} (hm : Moderate m) (hx : Moderate x) {n : ℚ}
    (hc : IsValue c .positive n) (hn : 2 ≤ n) : Moderate (m + (x - m) / c) := by
  obtain ⟨p, hm, hp⟩ := hm
  obtain ⟨q, hx, hq⟩ := hx
  have hp0 : 0 ≤ p := hm.nonneg
  have hq0 : 0 ≤ q := hx.nonneg
  have hdistance : |q - p| ≤ 2 * 10 ^ 22 := abs_sub_le_iff.2 ⟨by linarith, by linarith⟩
  obtain ⟨d, hd, hrounds⟩ : ∃ d, IsValue (x - m) (signOf (q - p)) d ∧ RoundsTo |q - p| d :=
    hx.sub hm (le_maxFinite_of_moderate hdistance)
  have hsmall : d / n ≤ 2 * 10 ^ 22 := by
    have := hrounds.moderate hdistance
    have hd0 : 0 ≤ d := hd.nonneg
    exact (div_le_self hd0 (by linarith)).trans this
  obtain ⟨r, hr, hrounds'⟩ := hd.div hc (by linarith) (le_maxFinite_of_moderate hsmall)
  have hstep : r ≤ |q - p| := by
    refine le_of_rounds_div ?_ hrounds hn hrounds'
    by_cases heq : q = p
    · exact .inl (by simp [heq])
    · exact .inr (hx.representable.le_abs_sub hm.representable heq)
  have hr0 : 0 ≤ r := hr.nonneg
  -- the new mean lies between the old one and the number
  have hbetween : 0 ≤ signed .positive p + signed (signOf (q - p) / .positive) r ∧
      signed .positive p + signed (signOf (q - p) / .positive) r ≤ 2 * 10 ^ 22 := by
    rcases le_or_gt p q with hle | hlt
    · rw [abs_of_nonneg (by linarith)] at hstep
      rw [signOf_of_nonneg (by linarith)]
      show 0 ≤ p + r ∧ p + r ≤ 2 * 10 ^ 22
      constructor <;> linarith
    · rw [abs_of_neg (by linarith)] at hstep
      rw [signOf_of_neg (by linarith)]
      show 0 ≤ p + -r ∧ p + -r ≤ 2 * 10 ^ 22
      constructor <;> linarith
  obtain ⟨hlow, hhigh⟩ := hbetween
  have hsize := abs_of_nonneg hlow
  obtain ⟨y, hy, hrounds''⟩ := hm.add hr (hsize.le.trans (le_maxFinite_of_moderate hhigh))
  rw [signOf_of_nonneg hlow] at hy
  exact ⟨y, hy, hrounds''.moderate (hsize.le.trans hhigh)⟩

/-! ## Powers of ten -/

/-- A float is a whole number, by its bits. -/
def IsWhole (x : Float) (n : Nat) : Prop :=
  x.isFinite = true ∧ isNegative x = false ∧
    (Magnitude.ofFloat x).mantissa * 2 ^ (Magnitude.ofFloat x).exponent.toNat
      = n * 2 ^ (-(Magnitude.ofFloat x).exponent).toNat

instance (x : Float) (n : Nat) : Decidable (IsWhole x n) :=
  inferInstanceAs (Decidable (_ ∧ _ ∧ _))

/-- A float that is whole by its bits stands for that number. -/
theorem IsWhole.isValue {x : Float} {n : Nat} (h : IsWhole x n) : IsValue x .positive n := by
  obtain ⟨hfinite, hsign, hbits⟩ := h
  have hstands := stands_ofFloat hfinite
  rw [hsign] at hstands
  have hvalue : (Magnitude.ofFloat x).value = n := by
    have hbits : ((Magnitude.ofFloat x).mantissa : ℚ) * 2 ^ (Magnitude.ofFloat x).exponent.toNat
        = n * 2 ^ (-(Magnitude.ofFloat x).exponent).toNat := by
      exact_mod_cast hbits
    rw [Magnitude.value]
    generalize (Magnitude.ofFloat x).exponent = e at hbits ⊢
    rcases le_total 0 e with he | he
    · obtain ⟨j, rfl⟩ := Int.eq_ofNat_of_zero_le he
      simpa using hbits
    · obtain ⟨j, hj⟩ := Int.eq_ofNat_of_zero_le (Int.neg_nonneg_of_nonpos he)
      obtain rfl : e = -j := by omega
      rw [zpow_neg, zpow_natCast, ← div_eq_mul_inv, div_eq_iff (by positivity)]
      simpa using hbits
  rw [hvalue] at hstands
  exact hstands

/-- The powers of ten in the table are exact. -/
theorem isWhole_powerOfTen : ∀ k < 23, IsWhole (powerOfTen k) (10 ^ k) := by
  decide +kernel

/-- A small power of ten is exact. -/
theorem isValue_powerOfTen {k : Nat} (h : k ≤ 22) : IsValue (powerOfTen k) .positive (10 ^ k) := by
  have := (isWhole_powerOfTen k (by omega)).isValue
  rwa [Nat.cast_pow] at this

/-- Powers of ten up to the 308th are in the range of floats. -/
theorem ten_pow_le_maxFinite {k : Nat} (h : k ≤ 308) : (10 : ℚ) ^ k ≤ maxFinite := by
  have hlast : 10 ^ 308 ≤ (2 ^ 53 - 1) * 2 ^ 971 := by decide +kernel
  have hlast : ((10 : Nat) : ℚ) ^ 308 ≤ ((2 ^ 53 - 1 : Nat) : ℚ) * ((2 : Nat) : ℚ) ^ 971 := by
    rw [← Nat.cast_pow, ← Nat.cast_pow, ← Nat.cast_mul]
    exact Nat.cast_le.2 hlast
  refine (pow_le_pow_right₀ (by norm_num) h).trans (hlast.trans_eq ?_)
  rw [maxFinite]
  congr 1
  norm_num

/-- **The powers of ten that floats reach** are rounded to them. -/
theorem exists_isValue_powerOfTen {k : Nat} (h : k ≤ 308) :
    ∃ d, IsValue (powerOfTen k) .positive d ∧ RoundsTo (10 ^ k) d := by
  by_cases hsmall : k ≤ 22
  · exact ⟨_, isValue_powerOfTen hsmall, .refl _⟩
  have hscientific : powerOfTen k = .ofModel (.pack (UnpackedFloat.roundWithAccuracy
      Format.binary64 .positive (2 ^ 53 * 10 ^ k) (-53) .exact)) := by
    rw [powerOfTen, Float.ofScientific, dif_neg (by omega)]
    show Float.ofModel (.pack (UnpackedFloat.ofScientific Format.binary64 1 k)) = _
    have hlow : ¬ (k : Int) < -((2 ^ Format.binary64.exponentBits : Int) + Nat.log2 1) := by
      have : (0 : Int) ≤ 2 ^ Format.binary64.exponentBits := by positivity
      omega
    have hhigh : ¬ (k : Int) > 2 ^ Format.binary64.exponentBits := by
      show ¬ (k : Int) > 2048
      omega
    rw [UnpackedFloat.ofScientific, dif_neg (by decide), if_neg hhigh, if_neg hlow,
      if_pos (by omega)]
    rfl
  have hplace : (10 : ℚ) ^ k / 2 ^ (-53 : Int) = (2 ^ 53 * 10 ^ k : Nat) := by
    rw [zpow_neg, div_inv_eq_mul]
    push_cast
    ring
  have hfull : -53 ≤ Format.binary64.targetExponent (totalExponent (2 ^ 53 * 10 ^ k) (-53)) := by
    have : 53 ≤ (2 ^ 53 * 10 ^ k).log2 :=
      (Nat.le_log2 (by positivity)).2 (Nat.le_mul_of_pos_right _ (by positivity))
    rw [targetExponent_eq]
    omega
  obtain ⟨d, hd, hrounds⟩ := exists_stands_round .positive hfull
    (hplace ▸ marks_exact _) (ten_pow_le_maxFinite h)
  exact ⟨d, hscientific ▸ .of_pack hd, hrounds⟩

/-! ## Decimals -/

/-- Dividing by a power of ten makes nothing larger. -/
theorem AtMost.divide {b : ℚ} {x : Float} (hb : Representable b) (hmax : b ≤ maxFinite)
    (hx : AtMost b x) {k : Nat} (h : k ≤ 308) : AtMost b (x / powerOfTen k) := by
  obtain ⟨q, hx, hq⟩ := hx
  obtain ⟨d, hd, hrounds⟩ := exists_isValue_powerOfTen h
  have hone : 1 ≤ d := hrounds.ge (representable_ten_pow (k := 0) (by decide))
    (one_le_pow₀ (by norm_num))
  have hsmall : q / d ≤ b := (div_le_self hx.nonneg hone).trans hq
  obtain ⟨y, hy, hrounds'⟩ := hx.div hd (by linarith) (hsmall.trans hmax)
  exact ⟨y, hy, hrounds'.le hb hsmall⟩

/-- Dividing by powers of ten does not lead beyond a bound. -/
theorem AtMost.divideByTens {b : ℚ} {x : Float} (hb : Representable b) (hmax : b ≤ maxFinite)
    (hx : AtMost b x) (deficit : Nat) : AtMost b (divideByTens x deficit) := by
  induction x, deficit using divideByTens.induct with
  | case1 x deficit hle =>
    rw [Decimal.divideByTens, if_pos hle]
    exact hx.divide hb hmax hle
  | case2 x deficit hgt hzero =>
    rw [Decimal.divideByTens, if_neg hgt, if_pos hzero]
    exact hx
  | case3 x deficit hgt hzero ih =>
    rw [Decimal.divideByTens, if_neg hgt, if_neg hzero]
    exact ih (hx.divide hb hmax le_rfl)

theorem IsValue.isFinite {x : Float} {s : Sign} {q : ℚ} (h : IsValue x s q) :
    x.isFinite = true := by
  show x.toModel.unpack.isFinite = true
  rw [IsValue] at h
  generalize x.toModel.unpack = u at h
  cases h <;> rfl

theorem Moderate.isFinite {x : Float} (h : Moderate x) : x.isFinite = true :=
  let ⟨_, hx, _⟩ := h
  hx.isFinite

/-- **A moderate decimal is read as a moderate float.** -/
theorem moderate_scale? {significand : UInt64} {e : Int} (he : e ≤ 22)
    (h : (significand.toNat : ℚ) * 10 ^ e ≤ 2 * 10 ^ 22) :
    ∃ x, scale? significand e = some x ∧ Moderate x := by
  by_cases hneg : e < 0
  · refine ⟨_, ?_, (moderate_toFloat significand).divideByTens representable_bound
      (le_maxFinite_of_moderate le_rfl) (-e).toNat⟩
    simp only [scale?, hneg, if_true]
  obtain ⟨k, rfl⟩ := Int.eq_ofNat_of_zero_le (not_lt.1 hneg)
  have hpow : (0 : ℚ) < 10 ^ k := by positivity
  have hsplit : (2 * 10 ^ 22 : ℚ) = 2 * 10 ^ (22 - k) * 10 ^ k := by
    rw [mul_assoc, ← pow_add]
    congr 2
    omega
  obtain ⟨d, hd, hrounds⟩ := isValue_toFloat significand
  -- the number that the significand does not exceed is exact
  have hproduct : d * 10 ^ k ≤ 2 * 10 ^ 22 := by
    rw [zpow_natCast, hsplit, mul_le_mul_iff_left₀ hpow] at h
    rw [hsplit, mul_le_mul_iff_left₀ hpow]
    exact hrounds.le (representable_ten_pow (by omega)).double h
  obtain ⟨y, hy, hrounds'⟩ := hd.mul (isValue_powerOfTen (k := k) (by omega))
    (le_maxFinite_of_moderate hproduct)
  refine ⟨significand.toFloat * powerOfTen k, ?_, y, hy, hrounds'.moderate hproduct⟩
  have hle : (k : Int) ≤ 308 := by omega
  simp only [scale?, hneg, hle, if_true, if_false, Int.toNat_natCast]
  rw [not_isInf_of_isFinite hy.isFinite]
  rfl

/-- Nothing is read from a decimal of zero but zero. -/
theorem scale?_zero {e : Int} (he : e < 0) : ∃ x, scale? 0 e = some x ∧ AtMost 0 x := by
  obtain ⟨d, hd, hrounds⟩ := isValue_toFloat 0
  have hzero : AtMost 0 (0 : UInt64).toFloat := ⟨d, hd, hrounds.le representable_zero (by simp)⟩
  refine ⟨_, ?_, hzero.divideByTens representable_zero (le_maxFinite (by positivity)) (-e).toNat⟩
  simp only [scale?, he, if_true]

/-- Only zero stands for zero. -/
theorem Stands.exists_eq_zero {u : UnpackedFloat} {s : Sign} {q : ℚ} (h : Stands u s q)
    (hq : q = 0) : ∃ s', u = .zero s' := by
  cases h with
  | zero s s' => exact ⟨s', rfl⟩
  | finite s hpos => exact absurd hq (by positivity)

/-- Zero has both signs. -/
theorem AtMost.neg {x : Float} (hx : AtMost 0 x) : AtMost 0 (-x) := by
  obtain ⟨q, hx, hq⟩ := hx
  obtain ⟨s, hs⟩ := hx.exists_eq_zero (le_antisymm hq hx.nonneg)
  refine ⟨0, .of_pack (u := x.toModel.unpack.neg) ?_, le_rfl⟩
  rw [hs]
  exact .zero _ _

/-! ## Durations -/

/-- A duration in milliseconds. No clock that counts seconds with 64 bits measures a longer one than
this bound, which is some hundred billion years. -/
def IsDuration (x : Float) : Prop := 0 ≤ x ∧ x ≤ 2e22

/-- The bound is exact. -/
theorem isValue_bound : IsValue 2e22 .positive (2 * 10 ^ 22) := by
  have hbits : IsWhole 2e22 (2 * 10 ^ 22) := by decide +kernel
  have := hbits.isValue
  rwa [Nat.cast_mul, Nat.cast_pow] at this

/-- The order of floats is that of the numbers that they stand for. -/
theorem le_of_stands {a b : UnpackedFloat} {p q : ℚ} (ha : Stands a .positive p)
    (hb : Stands b .positive q) (h : a.le b = true) : p ≤ q := by
  cases ha with
  | zero => exact hb.nonneg
  | @finite s m e hpos hlt hlow hhigh hfull =>
    cases hb with
    | zero => cases h
    | @finite t n f hpos' hlt' hlow' hhigh' hfull' =>
      have h : ((compare e f).then (compare m n)).isLE = true := h
      rcases lt_trichotomy e f with hexponent | rfl | hexponent
      · have hn : (2 ^ 52 : ℚ) ≤ n := by
          exact_mod_cast hfull'.resolve_right (by omega)
        have hn := mul_le_mul_of_nonneg_right hn (by positivity : (0 : ℚ) ≤ 2 ^ f)
        have hm : (m : ℚ) < 2 ^ 53 := by exact_mod_cast hlt
        calc (m : ℚ) * 2 ^ e ≤ 2 ^ 53 * 2 ^ e := mul_le_mul_of_nonneg_right hm.le (by positivity)
          _ = 2 ^ 52 * 2 ^ (e + 1) := by rw [zpow_add_one₀ (by norm_num)]; ring
          _ ≤ 2 ^ 52 * 2 ^ f := mul_le_mul_of_nonneg_left
            (zpow_le_zpow_right₀ (by norm_num) (by omega)) (by norm_num)
          _ ≤ n * 2 ^ f := hn
      · rw [Int.compare_eq_eq.2 rfl, Ordering.then, Nat.isLE_compare] at h
        have : (m : ℚ) ≤ n := by exact_mod_cast h
        exact mul_le_mul_of_nonneg_right this (by positivity)
      · rw [Int.compare_eq_gt.2 hexponent] at h
        cases h

/-- Durations are moderate. -/
theorem moderate_of_isDuration {x : Float} (h : IsDuration x) : Moderate x := by
  obtain ⟨hlow, hhigh⟩ := h
  have hlow : UnpackedFloat.le (.zero .positive) x.toModel.unpack = true := of_decide_eq_true hlow
  have hhigh : x.toModel.unpack.le (2e22 : Float).toModel.unpack = true := of_decide_eq_true hhigh
  have hbound : Stands (2e22 : Float).toModel.unpack .positive (2 * 10 ^ 22) := isValue_bound
  have hfinite : x.isFinite = true := by
    show x.toModel.unpack.isFinite = true
    generalize x.toModel.unpack = u at hlow hhigh
    cases u with
    | notANumber => cases hlow
    | infinity s =>
      cases s with
      | negative => cases hlow
      | positive =>
        generalize (2e22 : Float).toModel.unpack = bound at hbound hhigh
        generalize (2 * 10 ^ 22 : ℚ) = q at hbound
        cases hbound <;> cases hhigh
    | zero => rfl
    | finite => rfl
  have hstands := stands_ofFloat hfinite
  by_cases hsign : isNegative x = true
  -- only zero is negative and not below zero
  · refine ⟨0, ?_, by norm_num⟩
    rw [if_pos hsign] at hstands
    rw [IsValue]
    generalize x.toModel.unpack = u at hlow hstands ⊢
    generalize (Magnitude.ofFloat x).value = q at hstands
    cases hstands with
    | zero => exact .zero _ _
    | finite => cases hlow
  · rw [if_neg hsign] at hstands
    exact ⟨_, hstands, le_of_stands hstands hbound hhigh⟩

end EvalProxy.Decimal
