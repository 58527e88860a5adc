/-
# The shortest decimal tells floats apart

Around every float lies an interval of numbers that round to it, and the intervals of different
floats do not meet: where two touch, the point between them belongs to the one with the even
mantissa. The shortest decimal of a float lies in its interval, for seventeen digits are always
enough. So no two floats have the same shortest decimal.

Main definition: `Magnitude.Rounds`.
Main statements: `eq_of_rounds`, `rounds_shortest`, `ofFloat_inj`.
-/
import EvalProxy.Decimal.Shortest
import Mathlib.Algebra.Order.Field.Power
import Mathlib.Data.Rat.Cast.Order
import Mathlib.Tactic.FieldSimp
import Mathlib.Tactic.Linarith
import Mathlib.Tactic.Positivity
import Mathlib.Tactic.Ring
namespace EvalProxy.Decimal

/-! ## Numbers that quotients and decimals stand for -/

namespace Ratio

/-- The number that a quotient stands for. -/
def value (r : Ratio) : ℚ := r.num / r.den

/-- A scaled number is the number times its power of two. -/
theorem value_scaled (n : Nat) (e : Int) : (scaled n e).value = n * 2 ^ e := by
  simp only [value, scaled, Nat.shiftLeft_eq, one_mul]
  push_cast
  -- one of the two shifts is by zero
  rcases le_total 0 e with he | he
  · obtain ⟨k, rfl⟩ := Int.eq_ofNat_of_zero_le he
    simp
  · obtain ⟨k, hk⟩ := Int.eq_ofNat_of_zero_le (Int.neg_nonneg_of_nonpos he)
    obtain rfl : e = -k := by omega
    simp [div_eq_mul_inv]

theorem den_scaled_pos (n : Nat) (e : Int) : 0 < (scaled n e).den := by
  simp [scaled, Nat.shiftLeft_eq]

/-- In units of a power of ten a number is divided by it. -/
theorem value_inUnits (r : Ratio) (e : Int) : (r.inUnits e).value = r.value / 10 ^ e := by
  simp only [value, inUnits]
  push_cast
  rcases le_total 0 e with he | he
  · obtain ⟨k, rfl⟩ := Int.eq_ofNat_of_zero_le he
    simp [div_div]
  · obtain ⟨k, hk⟩ := Int.eq_ofNat_of_zero_le (Int.neg_nonneg_of_nonpos he)
    obtain rfl : e = -k := by omega
    simp [div_eq_mul_inv]
    ring

theorem den_inUnits_pos {r : Ratio} (h : 0 < r.den) (e : Int) : 0 < (r.inUnits e).den :=
  Nat.mul_pos h (Nat.pow_pos (by decide))

/-- A quotient is compared with a whole number by its numerator and denominator. -/
theorem num_le_iff {r : Ratio} (h : 0 < r.den) (d : Nat) : r.num ≤ d * r.den ↔ r.value ≤ d := by
  rw [value, div_le_iff₀ (by exact_mod_cast h)]
  norm_cast

/-- A whole number is at most a quotient if its multiple of the denominator is at most the
numerator. -/
theorem le_num_iff {r : Ratio} (h : 0 < r.den) (d : Nat) : d * r.den ≤ r.num ↔ d ≤ r.value := by
  rw [value, le_div_iff₀ (by exact_mod_cast h)]
  norm_cast

/-- The whole number nearer to a quotient, and of two at the same distance the even one. -/
def nearest (r : Ratio) : Nat :=
  let below := r.num / r.den
  let middle := (2 * below + 1) * r.den
  if 2 * r.num < middle || (2 * r.num == middle && below % 2 == 0) then below else below + 1

/-- The nearer whole number is at most half a step away. -/
theorem abs_nearest_sub_value_le {r : Ratio} (h : 0 < r.den) :
    |(r.nearest : ℚ) - r.value| ≤ 1 / 2 := by
  have hpos : (0 : ℚ) < r.den := by exact_mod_cast h
  have hnum : (r.num : ℚ) = r.value * r.den := by
    rw [value]
    field_simp
  have hbelow : ((r.num / r.den : Nat) : ℚ) ≤ r.value := by
    rw [← le_num_iff h]
    exact Nat.div_mul_le_self _ _
  have habove : r.value < ((r.num / r.den + 1 : Nat) : ℚ) := by
    rw [← not_le, ← le_num_iff h, not_le, mul_comm]
    exact Nat.lt_mul_div_succ _ h
  push_cast at habove
  simp only [nearest, Bool.or_eq_true, decide_eq_true_eq, Bool.and_eq_true, beq_iff_eq]
  -- the value lies on one side of the middle between its neighbours
  split
  · rename_i hcond
    have hle : 2 * r.num ≤ (2 * (r.num / r.den) + 1) * r.den := by omega
    have hle : (2 * r.num : ℚ) ≤ (2 * (r.num / r.den : Nat) + 1) * r.den := by exact_mod_cast hle
    rw [hnum, ← mul_assoc, mul_le_mul_iff_left₀ hpos] at hle
    rw [abs_le]
    constructor <;> linarith
  · rename_i hcond
    have hge : (2 * (r.num / r.den) + 1) * r.den ≤ 2 * r.num := by omega
    have hge : (2 * (r.num / r.den : Nat) + 1) * r.den ≤ (2 * r.num : ℚ) := by exact_mod_cast hge
    rw [hnum, ← mul_assoc, mul_le_mul_iff_left₀ hpos] at hge
    push_cast
    rw [abs_le]
    constructor <;> linarith

end Ratio

/-- The number that a decimal stands for. -/
def Digits.value (d : Digits) : ℚ := d.significand * 10 ^ d.exponent

/-- Dropping zeros at the end changes no value. -/
theorem Digits.value_strip (d : Digits) (fuel : Nat) : (d.strip fuel).value = d.value := by
  induction fuel generalizing d with
  | zero => rfl
  | succ fuel ih =>
    rw [strip]
    split
    · rename_i h
      rw [ih, value, value]
      -- the digit that is dropped is a zero
      have hzero : d.significand % 10 = 0 := by simp_all
      have hten : d.significand = 10 * (d.significand / 10) := by omega
      rw [zpow_add_one₀ (by norm_num)]
      conv_rhs => rw [hten]
      push_cast
      ring
    · rfl

/-! ## Rounding -/

namespace Magnitude

/-- The number that a magnitude stands for. -/
def value (m : Magnitude) : ℚ := m.mantissa * 2 ^ m.exponent

/-- How many quarters of the mantissa's unit lie between a magnitude and the halfway point below
it. -/
def quartersBelow (m : Magnitude) : Nat := if m.narrowBelow then 1 else 2

/-- The halfway point to the next smaller magnitude. -/
def low (m : Magnitude) : ℚ := (4 * m.mantissa - m.quartersBelow) * 2 ^ (m.exponent - 2)

/-- The halfway point to the next larger magnitude. -/
def high (m : Magnitude) : ℚ := (4 * m.mantissa + 2) * 2 ^ (m.exponent - 2)

/-- A number rounds to a magnitude: it lies between the halfway points, which themselves round to
the even mantissa. -/
def Rounds (m : Magnitude) (q : ℚ) : Prop :=
  if m.mantissa % 2 = 0 then m.low ≤ q ∧ q ≤ m.high else m.low < q ∧ q < m.high

theorem value_eq (m : Magnitude) : m.value = 4 * m.mantissa * 2 ^ (m.exponent - 2) := by
  rw [value, zpow_sub₀ (by norm_num)]
  norm_num
  ring

theorem quartersBelow_le (m : Magnitude) : m.quartersBelow ≤ 2 := by
  unfold quartersBelow
  split <;> omega

/-- Reading back is rounding. -/
theorem readsBack_iff {m : Magnitude} (h : m.mantissa ≠ 0) (place : Int) (d : Nat) :
    m.readsBack place d = true ↔ m.Rounds (d * 10 ^ place) := by
  have hten : (0 : ℚ) < 10 ^ place := by positivity
  -- both bounds as numbers
  have hvalue (quarters : Nat) :
      ((Ratio.scaled quarters (m.exponent - 2)).inUnits place).value
        = quarters * 2 ^ (m.exponent - 2) / 10 ^ place := by
    rw [Ratio.value_inUnits, Ratio.value_scaled]
  have hden (quarters : Nat) : 0 < ((Ratio.scaled quarters (m.exponent - 2)).inUnits place).den :=
    Ratio.den_inUnits_pos (Ratio.den_scaled_pos _ _) _
  have hquarters : ((4 * m.mantissa - m.quartersBelow : Nat) : ℚ)
      = 4 * m.mantissa - m.quartersBelow := by
    have := m.quartersBelow_le
    rw [Nat.cast_sub (by omega)]
    push_cast
    rfl
  have hlow : ((4 * m.mantissa - m.quartersBelow : Nat) : ℚ) * 2 ^ (m.exponent - 2) / 10 ^ place
      = m.low / 10 ^ place := by
    rw [hquarters, low]
  have hhigh : ((4 * m.mantissa + 2 : Nat) : ℚ) * 2 ^ (m.exponent - 2) / 10 ^ place
      = m.high / 10 ^ place := by
    rw [high]
    push_cast
    rfl
  rw [readsBack, Rounds]
  simp only [beq_iff_eq]
  split
  · rw [Bool.and_eq_true, decide_eq_true_iff, decide_eq_true_iff]
    show (_ ≤ d * _ ∧ d * _ ≤ _) ↔ _
    rw [Ratio.num_le_iff (hden _), Ratio.le_num_iff (hden _), hvalue, hvalue]
    show ((4 * m.mantissa - m.quartersBelow : Nat) : ℚ) * _ / _ ≤ _ ∧ _ ↔ _
    rw [hlow, hhigh, div_le_iff₀ hten, le_div_iff₀ hten]
  · rw [Bool.and_eq_true, decide_eq_true_iff, decide_eq_true_iff, ← not_le, ← not_le]
    rw [Ratio.num_le_iff (hden _), Ratio.le_num_iff (hden _), hvalue, hvalue]
    show ¬ _ ≤ ((4 * m.mantissa - m.quartersBelow : Nat) : ℚ) * _ / _ ∧ _ ↔ _
    rw [hlow, hhigh, not_le, not_le, div_lt_iff₀ hten, lt_div_iff₀ hten]

/-! ## Intervals that do not meet -/

/-- The magnitude of a float: full unless its exponent is the least one, and with a narrow gap below
it exactly where the exponent changes. -/
structure Canonical (m : Magnitude) : Prop where
  mantissa_lt : m.mantissa < 2 ^ 53
  exponent_ge : -1074 ≤ m.exponent
  exponent_le : m.exponent ≤ 972
  full : m.exponent ≠ -1074 → 2 ^ 52 ≤ m.mantissa
  narrow : m.exponent ≠ -1074 → m.mantissa = 2 ^ 52 → m.narrowBelow = true
  narrow_full : m.narrowBelow = true → m.mantissa = 2 ^ 52

/-- Two intervals do not meet if one ends before the other starts, or where it starts and one of
the two leaves its ends out. -/
theorem not_rounds_of_apart {m n : Magnitude} (h : m.high ≤ n.low)
    (hodd : m.high = n.low → m.mantissa % 2 = 1 ∨ n.mantissa % 2 = 1) {q : ℚ} (hm : m.Rounds q)
    (hn : n.Rounds q) : False := by
  unfold Rounds at hm hn
  split at hm
  · split at hn
    · have htouch : m.high = n.low := le_antisymm h (hn.1.trans hm.2)
      have := hodd htouch
      omega
    · linarith [hm.2, hn.1]
  · split at hn
    · linarith [hm.2, hn.1]
    · linarith [hm.2, hn.1]

/-- The intervals of two magnitudes with one exponent meet in an end at most, and only if one of the
mantissas is odd. -/
theorem apart_of_mantissa_lt {m n : Magnitude} (hexponent : m.exponent = n.exponent)
    (h : m.mantissa < n.mantissa) :
    m.high ≤ n.low ∧ (m.high = n.low → m.mantissa % 2 = 1 ∨ n.mantissa % 2 = 1) := by
  have hunit : (0 : ℚ) < 2 ^ (n.exponent - 2) := by positivity
  have hbelow := n.quartersBelow_le
  have hquarters : (4 * m.mantissa + 2 : ℚ) ≤ 4 * n.mantissa - n.quartersBelow := by
    have : 4 * m.mantissa + 2 + n.quartersBelow ≤ 4 * n.mantissa := by omega
    have : (4 * m.mantissa + 2 + n.quartersBelow : ℚ) ≤ 4 * n.mantissa := by exact_mod_cast this
    linarith
  rw [high, low, hexponent]
  constructor
  · exact mul_le_mul_of_nonneg_right hquarters hunit.le
  · intro heq
    -- the intervals touch only if the mantissas are neighbours
    have hsame := mul_right_cancel₀ hunit.ne' heq
    have : (4 * m.mantissa + 2 + n.quartersBelow : ℚ) = 4 * n.mantissa := by linarith
    have : 4 * m.mantissa + 2 + n.quartersBelow = 4 * n.mantissa := by exact_mod_cast this
    omega

/-- The intervals of two magnitudes with different exponents meet in an end at most, and only if one
of the mantissas is odd. -/
theorem apart_of_exponent_lt {m n : Magnitude} (hm : m.Canonical) (hn : n.Canonical)
    (h : m.exponent < n.exponent) :
    m.high ≤ n.low ∧ (m.high = n.low → m.mantissa % 2 = 1 ∨ n.mantissa % 2 = 1) := by
  have hunit : (0 : ℚ) < 2 ^ (m.exponent - 2) := by positivity
  have hunits : (2 : ℚ) * 2 ^ (m.exponent - 2) ≤ 2 ^ (n.exponent - 2) := by
    calc (2 : ℚ) * 2 ^ (m.exponent - 2) = 2 ^ (m.exponent - 2 + 1) := by
          rw [zpow_add_one₀ (by norm_num)]
          ring
      _ ≤ 2 ^ (n.exponent - 2) := zpow_le_zpow_right₀ (by norm_num) (by omega)
  -- the larger magnitude is full, and the gap below the least full one is narrow
  have hleast : n.exponent ≠ -1074 := by
    have := hm.exponent_ge
    omega
  have hquarters : 2 ^ 54 - 1 + n.quartersBelow ≤ 4 * n.mantissa := by
    have hfull := hn.full hleast
    by_cases heq : n.mantissa = 2 ^ 52
    · rw [quartersBelow, hn.narrow hleast heq, heq]
      norm_num
    · have := n.quartersBelow_le
      omega
  have hlow : ((2 : ℚ) ^ 55 - 2) * 2 ^ (m.exponent - 2) ≤ n.low := by
    have hcast : ((2 : ℚ) ^ 54 - 1) ≤ 4 * n.mantissa - n.quartersBelow := by
      have : ((2 ^ 54 - 1 + n.quartersBelow : Nat) : ℚ) ≤ (4 * n.mantissa : Nat) := by
        exact_mod_cast hquarters
      push_cast at this
      linarith
    calc ((2 : ℚ) ^ 55 - 2) * 2 ^ (m.exponent - 2)
        = ((2 : ℚ) ^ 54 - 1) * (2 * 2 ^ (m.exponent - 2)) := by ring
      _ ≤ ((2 : ℚ) ^ 54 - 1) * 2 ^ (n.exponent - 2) :=
          mul_le_mul_of_nonneg_left hunits (by norm_num)
      _ ≤ n.low := mul_le_mul_of_nonneg_right hcast (by positivity)
  have hmantissa := hm.mantissa_lt
  constructor
  · have : (4 * m.mantissa + 2 : ℚ) ≤ 2 ^ 55 - 2 := by
      have : 4 * m.mantissa + 2 + 2 ≤ 2 ^ 55 := by omega
      have : ((4 * m.mantissa + 2 + 2 : Nat) : ℚ) ≤ (2 ^ 55 : Nat) := by exact_mod_cast this
      push_cast at this
      linarith
    exact (mul_le_mul_of_nonneg_right this hunit.le).trans hlow
  · intro heq
    left
    -- an even mantissa stays below the largest one, which is odd
    by_contra heven
    have : (4 * m.mantissa + 2 : ℚ) < 2 ^ 55 - 2 := by
      have : 4 * m.mantissa + 2 + 2 < 2 ^ 55 := by omega
      have : ((4 * m.mantissa + 2 + 2 : Nat) : ℚ) < (2 ^ 55 : Nat) := by exact_mod_cast this
      push_cast at this
      linarith
    have hlt : m.high < n.low := (mul_lt_mul_of_pos_right this hunit).trans_le hlow
    exact hlt.ne heq

/-- **A number rounds to one magnitude only.** -/
theorem eq_of_rounds {m n : Magnitude} (hm : m.Canonical) (hn : n.Canonical) {q : ℚ}
    (hmq : m.Rounds q) (hnq : n.Rounds q) :
    m.mantissa = n.mantissa ∧ m.exponent = n.exponent := by
  rcases lt_trichotomy m.exponent n.exponent with hlt | heq | hgt
  · obtain ⟨hle, hodd⟩ := apart_of_exponent_lt hm hn hlt
    exact (not_rounds_of_apart hle hodd hmq hnq).elim
  · refine ⟨?_, heq⟩
    rcases lt_trichotomy m.mantissa n.mantissa with hlt' | heq' | hgt'
    · obtain ⟨hle, hodd⟩ := apart_of_mantissa_lt heq hlt'
      exact (not_rounds_of_apart hle hodd hmq hnq).elim
    · exact heq'
    · obtain ⟨hle, hodd⟩ := apart_of_mantissa_lt heq.symm hgt'
      exact (not_rounds_of_apart hle hodd hnq hmq).elim
  · obtain ⟨hle, hodd⟩ := apart_of_exponent_lt hn hm hgt
    exact (not_rounds_of_apart hle hodd hnq hmq).elim

/-- Only positive numbers round to a magnitude other than zero. -/
theorem pos_of_rounds {m : Magnitude} (h : m.mantissa ≠ 0) {q : ℚ} (hq : m.Rounds q) : 0 < q := by
  have hlow : 0 < m.low := by
    have : 0 < 4 * m.mantissa - m.quartersBelow := by
      have := m.quartersBelow_le
      omega
    have : (m.quartersBelow : ℚ) < 4 * m.mantissa := by
      exact_mod_cast (by omega : m.quartersBelow < 4 * m.mantissa)
    have : (0 : ℚ) < 4 * m.mantissa - m.quartersBelow := by linarith
    rw [low]
    positivity
  unfold Rounds at hq
  split at hq
  · exact hlow.trans_le hq.1
  · exact hlow.trans hq.1

/-! ## The search -/

/-- A number close enough to a magnitude rounds to it. -/
theorem rounds_of_near {m : Magnitude} {q : ℚ}
    (h : |q - m.value| < m.quartersBelow * 2 ^ (m.exponent - 2)) : m.Rounds q := by
  have hunit : (0 : ℚ) < 2 ^ (m.exponent - 2) := by positivity
  obtain ⟨hbelow, habove⟩ := abs_lt.1 h
  rw [value_eq] at hbelow habove
  have hle : (m.quartersBelow : ℚ) * 2 ^ (m.exponent - 2) ≤ 2 * 2 ^ (m.exponent - 2) := by
    have : (m.quartersBelow : ℚ) ≤ 2 := by exact_mod_cast m.quartersBelow_le
    exact mul_le_mul_of_nonneg_right this hunit.le
  have hlow : m.low < q := by
    rw [low, sub_mul]
    linarith
  have hhigh : q < m.high := by
    rw [high, add_mul]
    linarith
  unfold Rounds
  split
  · exact ⟨hlow.le, hhigh.le⟩
  · exact ⟨hlow, hhigh⟩

/-- A grid gives the nearer neighbour of the value, or else the other one, if it reads back. -/
theorem onGrid?_eq (m : Magnitude) (place : Int) :
    let nearer := ((Ratio.scaled m.mantissa m.exponent).inUnits place).nearest
    ∃ other, m.onGrid? place =
      if m.readsBack place nearer then some nearer
      else if m.readsBack place other then some other
      else none :=
  ⟨_, rfl⟩

/-- What a grid gives reads back. -/
theorem readsBack_of_onGrid? {m : Magnitude} {place : Int} {d : Nat}
    (h : m.onGrid? place = some d) : m.readsBack place d = true := by
  obtain ⟨other, heq⟩ := m.onGrid?_eq place
  rw [heq] at h
  split at h
  · obtain rfl := Option.some.inj h
    assumption
  · split at h
    · obtain rfl := Option.some.inj h
      assumption
    · simp at h

/-- A grid that is fine enough gives something. -/
theorem onGrid?_ne_none {m : Magnitude} (h : m.mantissa ≠ 0) {place : Int}
    (hfine : (10 : ℚ) ^ place / 2 < m.quartersBelow * 2 ^ (m.exponent - 2)) :
    m.onGrid? place ≠ none := by
  set r := (Ratio.scaled m.mantissa m.exponent).inUnits place with hr
  have hden : 0 < r.den := Ratio.den_inUnits_pos (Ratio.den_scaled_pos _ _) _
  have hten : (0 : ℚ) < 10 ^ place := by positivity
  have hvalue : r.value = m.value / 10 ^ place := by
    rw [hr, Ratio.value_inUnits, Ratio.value_scaled, value]
  have hnearest : m.readsBack place r.nearest = true := by
    rw [readsBack_iff h]
    apply rounds_of_near
    have hstep : (r.nearest : ℚ) * 10 ^ place - m.value = (r.nearest - r.value) * 10 ^ place := by
      rw [hvalue]
      field_simp
    rw [hstep, abs_mul, abs_of_pos hten]
    refine lt_of_le_of_lt ?_ hfine
    calc |(r.nearest : ℚ) - r.value| * 10 ^ place ≤ 1 / 2 * 10 ^ place :=
          mul_le_mul_of_nonneg_right (Ratio.abs_nearest_sub_value_le hden) hten.le
      _ = 10 ^ place / 2 := by ring
  obtain ⟨other, heq⟩ := m.onGrid?_eq place
  rw [heq, if_pos hnearest]
  simp

/-- A search that passes a grid fine enough ends with a decimal that rounds to the magnitude. -/
theorem rounds_search {m : Magnitude} (h : m.mantissa ≠ 0) {leading : Int} {places : List Nat}
    {p : Nat} (hp : p ∈ places) (hgrid : m.onGrid? (leading - p + 1) ≠ none) :
    m.Rounds (m.search leading places).value := by
  induction places with
  | nil => simp at hp
  | cons q rest ih =>
    rw [search]
    cases hfound : m.onGrid? (leading - q + 1) with
    | some d =>
      dsimp only
      rw [Digits.value_strip, Digits.value]
      exact (readsBack_iff h _ _).1 (readsBack_of_onGrid? hfound)
    | none =>
      -- the grid that is fine enough comes later
      have hne : p ≠ q := by
        rintro rfl
        exact hgrid hfound
      exact ih ((List.mem_cons.1 hp).resolve_left hne)

/-! ## Seventeen digits -/

/-- The estimate of the leading place: `10 ^ (e - 1)` does not exceed `2 ^ k` for the estimate `e`
of a logarithm `k` in the range of floats. -/
theorem ten_pow_le_two_pow {k : Int} (hlow : -1074 ≤ k) (hhigh : k ≤ 1024) :
    (10 : ℚ) ^ (k * 30103 / 100000 - 1) ≤ 2 ^ k := by
  have hpow (b : ℚ) (i : Int) (n : Nat) : (b ^ i) ^ n = b ^ (i * n) := by
    rw [← zpow_natCast, ← zpow_mul]
  rcases le_total 0 k with hk | hk
  -- `10 ^ 31` is just below `2 ^ 103`
  · obtain ⟨j, rfl⟩ := Int.eq_ofNat_of_zero_le hk
    refine le_of_pow_le_pow_left₀ (n := 103) (by norm_num) (by positivity) ?_
    calc ((10 : ℚ) ^ ((j : Int) * 30103 / 100000 - 1)) ^ 103
        = 10 ^ (((j : Int) * 30103 / 100000 - 1) * (103 : Nat)) := hpow _ _ _
      _ ≤ 10 ^ ((31 * j : Nat) : Int) := zpow_le_zpow_right₀ (by norm_num) (by omega)
      _ = ((10 : ℚ) ^ 31) ^ j := by rw [zpow_natCast, pow_mul]
      _ ≤ ((2 : ℚ) ^ 103) ^ j := pow_le_pow_left₀ (by norm_num) (by norm_num) j
      _ = ((2 : ℚ) ^ (j : Int)) ^ 103 := by rw [zpow_natCast, ← pow_mul, ← pow_mul, mul_comm]
  -- and `2 ^ 93` just below `10 ^ 28`
  · obtain ⟨j, hj⟩ := Int.eq_ofNat_of_zero_le (Int.neg_nonneg_of_nonpos hk)
    obtain rfl : k = -j := by omega
    refine le_of_pow_le_pow_left₀ (n := 93) (by norm_num) (by positivity) ?_
    calc ((10 : ℚ) ^ (-(j : Int) * 30103 / 100000 - 1)) ^ 93
        = 10 ^ ((-(j : Int) * 30103 / 100000 - 1) * (93 : Nat)) := hpow _ _ _
      _ ≤ 10 ^ (-((28 * j : Nat) : Int)) := zpow_le_zpow_right₀ (by norm_num) (by omega)
      _ = (((10 : ℚ) ^ 28) ^ j)⁻¹ := by rw [zpow_neg, zpow_natCast, pow_mul]
      _ ≤ (((2 : ℚ) ^ 93) ^ j)⁻¹ :=
          inv_anti₀ (by positivity) (pow_le_pow_left₀ (by norm_num) (by norm_num) j)
      _ = ((2 : ℚ) ^ (-(j : Int))) ^ 93 := by
          rw [zpow_neg, zpow_natCast, inv_pow, ← pow_mul, ← pow_mul, mul_comm]

/-- The leading place is not above the value, if the estimate is off by one at most. -/
theorem ten_pow_magnitude_le {r : Ratio} (h : 0 < r.den) {estimate : Int}
    (hestimate : (10 : ℚ) ^ (estimate - 1) ≤ r.value) :
    (10 : ℚ) ^ r.magnitude estimate ≤ r.value := by
  have hreaches (e : Int) : (r.inUnits e).den ≤ (r.inUnits e).num ↔ (10 : ℚ) ^ e ≤ r.value := by
    have := Ratio.le_num_iff (Ratio.den_inUnits_pos h e) 1
    rw [one_mul, Nat.cast_one, Ratio.value_inUnits, le_div_iff₀ (by positivity), one_mul] at this
    exact this
  unfold Ratio.magnitude
  simp only [decide_eq_true_eq, hreaches]
  split
  · assumption
  · split
    · assumption
    · exact hestimate

/-- **The shortest decimal rounds to the magnitude.** -/
theorem rounds_shortest {m : Magnitude} (hm : m.Canonical) (h : m.mantissa ≠ 0) :
    m.Rounds m.shortest.value := by
  have hden := Ratio.den_scaled_pos m.mantissa m.exponent
  have hvalue : (Ratio.scaled m.mantissa m.exponent).value = m.value := Ratio.value_scaled _ _
  have hlog : m.mantissa.log2 < 53 := (Nat.log2_lt h).2 hm.mantissa_lt
  set k : Int := m.mantissa.log2 + m.exponent with hk
  have hbinary : (2 : ℚ) ^ k ≤ m.value := by
    rw [value, hk, zpow_add₀ (by norm_num), zpow_natCast]
    have hle : ((2 ^ m.mantissa.log2 : Nat) : ℚ) ≤ m.mantissa := by
      exact_mod_cast Nat.log2_self_le h
    push_cast at hle
    exact mul_le_mul_of_nonneg_right hle (by positivity)
  set leading := (Ratio.scaled m.mantissa m.exponent).magnitude (k * 30103 / 100000) with hleading
  have hdecimal : (10 : ℚ) ^ leading ≤ m.value := by
    rw [← hvalue]
    apply ten_pow_magnitude_le hden
    rw [hvalue]
    refine (ten_pow_le_two_pow ?_ ?_).trans hbinary
    · have := hm.exponent_ge
      omega
    · have := hm.exponent_le
      omega
  rw [shortest, if_neg h]
  show m.Rounds (m.search leading (List.range' 1 17)).value
  refine rounds_search h (p := 17) (by decide) (onGrid?_ne_none h ?_)
  -- the value has less than sixteen digits, so the seventeenth is fine enough
  have hunit : (0 : ℚ) < 2 ^ (m.exponent - 2) := by positivity
  have hstep : (10 : ℚ) ^ (leading - (17 : Nat) + 1) = 10 ^ leading / 10 ^ 16 := by
    rw [show leading - (17 : Nat) + 1 = leading - 16 by omega, zpow_sub₀ (by norm_num)]
    norm_num
  have hmantissa : (4 * m.mantissa : ℚ) < m.quartersBelow * (2 * 10 ^ 16) := by
    unfold quartersBelow
    split
    · rename_i hnarrow
      rw [hm.narrow_full hnarrow]
      norm_num
    · have : (m.mantissa : ℚ) < 2 ^ 53 := by exact_mod_cast hm.mantissa_lt
      calc (4 * m.mantissa : ℚ) < 4 * 2 ^ 53 := by linarith
        _ < (2 : Nat) * (2 * 10 ^ 16) := by norm_num
  calc (10 : ℚ) ^ (leading - (17 : Nat) + 1) / 2 = 10 ^ leading / (2 * 10 ^ 16) := by
        rw [hstep]
        ring
    _ ≤ m.value / (2 * 10 ^ 16) := by gcongr
    _ = 4 * m.mantissa / (2 * 10 ^ 16) * 2 ^ (m.exponent - 2) := by
        rw [value_eq]
        ring
    _ < m.quartersBelow * 2 ^ (m.exponent - 2) := by
        refine mul_lt_mul_of_pos_right ?_ hunit
        rw [div_lt_iff₀ (by norm_num)]
        exact hmantissa

/-! ## Floats -/

/-- The magnitude of a float, in arithmetic. -/
theorem ofFloat_eq (x : Float) :
    let fraction : Nat := x.toBits.toNat % 2 ^ 52
    let biased : Nat := x.toBits.toNat / 2 ^ 52 % 2 ^ 11
    ofFloat x = if biased = 0 then ⟨fraction, -1074, false⟩
      else ⟨2 ^ 52 + fraction, biased - 1075, fraction == 0 && 1 < biased⟩ := by
  simp only [ofFloat, Nat.shiftLeft_eq, Nat.shiftRight_eq_div_pow, one_mul]
  rfl

/-- The magnitude of a float is canonical. -/
theorem canonical_ofFloat (x : Float) : (ofFloat x).Canonical := by
  have hfraction : x.toBits.toNat % 2 ^ 52 < 2 ^ 52 := Nat.mod_lt _ (by norm_num)
  have hbiased : x.toBits.toNat / 2 ^ 52 % 2 ^ 11 < 2 ^ 11 := Nat.mod_lt _ (by norm_num)
  rw [ofFloat_eq]
  generalize x.toBits.toNat % 2 ^ 52 = fraction at *
  generalize x.toBits.toNat / 2 ^ 52 % 2 ^ 11 = biased at *
  by_cases hzero : biased = 0
  · simp only [hzero, if_true]
    constructor <;> simp
    omega
  · simp only [hzero, if_false]
    constructor <;> simp <;> omega

/-- A float is negative exactly if its highest bit is set. -/
theorem isNegative_iff (x : Float) : isNegative x = true ↔ x.toBits.toNat / 2 ^ 63 = 1 := by
  rw [isNegative, beq_iff_eq, ← UInt64.toNat_inj]
  simp [Nat.shiftRight_eq_div_pow]

theorem eq_of_toBits_eq {x y : Float} (h : x.toBits = y.toBits) : x = y := by
  obtain ⟨⟨a, ha⟩⟩ := x
  obtain ⟨⟨b, hb⟩⟩ := y
  obtain rfl : a = b := h
  rfl

/-- **A float is determined by its sign and its magnitude.** -/
theorem ofFloat_inj {x y : Float} (hsign : isNegative x = isNegative y)
    (hmantissa : (ofFloat x).mantissa = (ofFloat y).mantissa)
    (hexponent : (ofFloat x).exponent = (ofFloat y).exponent) : x = y := by
  refine eq_of_toBits_eq (UInt64.toNat_inj.1 ?_)
  have hx := x.toBits.toNat_lt
  have hy := y.toBits.toNat_lt
  rw [Bool.eq_iff_iff, isNegative_iff, isNegative_iff] at hsign
  rw [ofFloat_eq, ofFloat_eq] at hmantissa hexponent
  generalize x.toBits.toNat = a at *
  generalize y.toBits.toNat = b at *
  -- sign, exponent and fraction are the digits of the bits
  by_cases ha : a / 2 ^ 52 % 2 ^ 11 = 0 <;> by_cases hb : b / 2 ^ 52 % 2 ^ 11 = 0
  · rw [if_pos ha, if_pos hb] at hmantissa hexponent
    dsimp only at hmantissa hexponent
    omega
  · rw [if_pos ha, if_neg hb] at hmantissa hexponent
    dsimp only at hmantissa hexponent
    omega
  · rw [if_neg ha, if_pos hb] at hmantissa hexponent
    dsimp only at hmantissa hexponent
    omega
  · rw [if_neg ha, if_neg hb] at hmantissa hexponent
    dsimp only at hmantissa hexponent
    omega

end Magnitude

theorem not_isNaN_of_isFinite {x : Float} (h : x.isFinite = true) : x.isNaN = false := by
  have h : x.toModel.unpack.isFinite = true := h
  show x.toModel.unpack.isNaN = false
  generalize x.toModel.unpack = u at h
  cases u <;> first | rfl | cases h

theorem not_isInf_of_isFinite {x : Float} (h : x.isFinite = true) : x.isInf = false := by
  have h : x.toModel.unpack.isFinite = true := h
  show x.toModel.unpack.isInf = false
  generalize x.toModel.unpack = u at h
  cases u <;> first | rfl | cases h

end EvalProxy.Decimal
