/-
# Rounding

The operations on floats compute a mantissa with two more bits, which tell where in the unit above
the mantissa the exact result lies, and round to the nearer whole mantissa. So a result lies on the
same side of every number that a float can stand for as the exact one: that is all that is said
about results here.

Main definitions: `Marks`, `Representable`, `RoundsTo`, `Stands`.
Main statement: `exists_stands_round`.
-/
import EvalProxy.Proofs.Decimal.Shortest
import Mathlib
namespace EvalProxy.Decimal

open Float.Model
open Float.Model.UnpackedFloat (Accuracy ExtendedMantissa Sign)

/-! ## Mantissas with two more bits -/

/-- A number lies in the part of the unit above a mantissa that the two bits tell. -/
def Marks (em : ExtendedMantissa) (x : ℚ) : Prop :=
  match em.roundBit, em.stickyBit with
  | false, false => x = em.mantissa
  | false, true => em.mantissa < x ∧ x < em.mantissa + 1 / 2
  | true, false => x = em.mantissa + 1 / 2
  | true, true => em.mantissa + 1 / 2 < x ∧ x < em.mantissa + 1

theorem marks_exact (m : Nat) : Marks (.ofMantissaAndAccuracy m .exact) m := rfl

/-- Halving a mantissa keeps track of where the number lies. -/
theorem Marks.shiftRightOne {em : ExtendedMantissa} {x : ℚ} (h : Marks em x) :
    Marks em.shiftRightOne (x / 2) := by
  obtain ⟨m, round, sticky⟩ := em
  have hbit : (m % 2 != 0) = false ∧ (m : ℚ) = 2 * (m / 2 : Nat) ∨
      (m % 2 != 0) = true ∧ (m : ℚ) = 2 * (m / 2 : Nat) + 1 := by
    rcases Nat.mod_two_eq_zero_or_one m with hbit | hbit
    · exact .inl ⟨by simp [hbit], by exact_mod_cast (by omega : m = 2 * (m / 2))⟩
    · exact .inr ⟨by simp [hbit], by exact_mod_cast (by omega : m = 2 * (m / 2) + 1)⟩
  rw [ExtendedMantissa.shiftRightOne]
  rcases hbit with ⟨hbit, hm⟩ | ⟨hbit, hm⟩ <;> cases round <;> cases sticky <;>
    simp only [Marks, hbit, Bool.or_true, Bool.or_false] at h ⊢ <;>
    first
      | linarith
      | constructor <;> linarith

/-- A number that a mantissa marks is marked after a shift of both. -/
theorem Marks.shiftRight {em : ExtendedMantissa} {x : ℚ} (h : Marks em x) (k : Nat) :
    Marks (em >>> k) (x / 2 ^ k) := by
  show Marks (k.repeat ExtendedMantissa.shiftRightOne em) _
  induction k with
  | zero => simpa [Nat.repeat] using h
  | succ k ih =>
    rw [pow_succ, ← div_div]
    exact ih.shiftRightOne

/-- A number that a mantissa marks lies in the unit above it. -/
theorem Marks.floor {em : ExtendedMantissa} {x : ℚ} (h : Marks em x) :
    em.mantissa ≤ x ∧ x < em.mantissa + 1 := by
  obtain ⟨m, round, sticky⟩ := em
  cases round <;> cases sticky <;> simp only [Marks] at h ⊢ <;> constructor <;> linarith

/-- Rounding goes up by one at most. -/
theorem le_roundedMantissa (em : ExtendedMantissa) :
    em.mantissa ≤ em.roundedMantissa ∧ em.roundedMantissa ≤ em.mantissa + 1 := by
  obtain ⟨m, round, sticky⟩ := em
  cases round <;> cases sticky <;>
    simp only [ExtendedMantissa.roundedMantissa, ExtendedMantissa.accuracy,
      Accuracy.roundToNearestEven] <;>
    omega

/-- What is exact is not rounded. -/
theorem Marks.roundedMantissa_eq {em : ExtendedMantissa} (h : Marks em em.mantissa) :
    em.roundedMantissa = em.mantissa := by
  obtain ⟨m, round, sticky⟩ := em
  cases round <;> cases sticky <;> simp only [Marks] at h <;>
    first
      | rfl
      | (exfalso; linarith)

/-- The rounded mantissa lies on the same side of every whole number as the number. -/
theorem Marks.sides {em : ExtendedMantissa} {x : ℚ} (h : Marks em x) (n : Nat) :
    (x ≤ n → em.roundedMantissa ≤ n) ∧ ((n : ℚ) ≤ x → n ≤ em.roundedMantissa) := by
  obtain ⟨hge, hle⟩ := le_roundedMantissa em
  obtain ⟨hlow, hhigh⟩ := h.floor
  constructor
  · intro hn
    rcases hlow.eq_or_lt with heq | hlt
    · rw [Marks.roundedMantissa_eq (heq ▸ h)]
      exact_mod_cast heq.trans_le hn
    · have : em.mantissa < n := by exact_mod_cast hlt.trans_le hn
      omega
  · intro hn
    have : n < em.mantissa + 1 := by exact_mod_cast hn.trans_lt hhigh
    omega

/-! ## Numbers that floats stand for -/

/-- A float without its sign can stand for a number. -/
def Representable (q : ℚ) : Prop :=
  ∃ (b : Nat) (f : Int), b < 2 ^ 53 ∧ -1074 ≤ f ∧ q = b * 2 ^ f

/-- A number is rounded to another: both lie on the same side of every number that a float can stand
for. -/
def RoundsTo (v d : ℚ) : Prop :=
  ∀ q, Representable q → (v ≤ q → d ≤ q) ∧ (q ≤ v → q ≤ d)

/-- The parts of a float stand for a number with a sign; zero has both signs. -/
inductive Stands : UnpackedFloat → Sign → ℚ → Prop where
  | zero (s s' : Sign) : Stands (.zero s') s 0
  | finite (s : Sign) {m : Nat} {e : Int} (hpos : 0 < m) (hlt : m < 2 ^ 53) (hlow : -1074 ≤ e)
      (hhigh : e ≤ 971) (hfull : 2 ^ 52 ≤ m ∨ e = -1074) :
      Stands (.finite s m e hpos) s (m * 2 ^ e)

/-- The largest number that a float stands for. -/
def maxFinite : ℚ := (2 ^ 53 - 1) * 2 ^ 971

theorem le_maxFinite {q : ℚ} (h : q ≤ 2 ^ 971) : q ≤ maxFinite := by
  have hunit : (0 : ℚ) < 2 ^ 971 := by positivity
  rw [maxFinite]
  generalize (2 : ℚ) ^ 971 = unit at *
  linarith

/-- A number that a float stands for is a whole number of any unit, or too small for it. -/
theorem Representable.units {q : ℚ} (h : Representable q) (t : Int) :
    (∃ n : Nat, q = n * 2 ^ t) ∨ -1074 < t ∧ q < 2 ^ 52 * 2 ^ t := by
  obtain ⟨b, f, hb, hf, rfl⟩ := h
  rcases le_or_gt t f with hle | hlt
  · left
    obtain ⟨j, hj⟩ := Int.eq_ofNat_of_zero_le (sub_nonneg.2 hle)
    obtain rfl : f = j + t := by omega
    refine ⟨b * 2 ^ j, ?_⟩
    rw [zpow_add₀ (by norm_num), zpow_natCast]
    push_cast
    ring
  · right
    refine ⟨by omega, ?_⟩
    have hb : (b : ℚ) < 2 ^ 53 := by exact_mod_cast hb
    calc (b : ℚ) * 2 ^ f < 2 ^ 53 * 2 ^ f := mul_lt_mul_of_pos_right hb (by positivity)
      _ = 2 ^ 52 * 2 ^ (f + 1) := by rw [zpow_add_one₀ (by norm_num)]; ring
      _ ≤ 2 ^ 52 * 2 ^ t :=
        mul_le_mul_of_nonneg_left (zpow_le_zpow_right₀ (by norm_num) (by omega)) (by norm_num)

/-! ## Bits -/

/-- The sign is read back from packed parts. -/
theorem unpackSign_packComponents {spec : Format} (s : Sign) (e : BitVec spec.exponentBits)
    (m : BitVec spec.mantissaBitsWithoutImplicit) :
    UnpackedFloat.unpackSign (UnpackedFloat.packComponents spec s e m) = s.toBitVec := by
  ext i hi
  obtain rfl : i = 0 := by omega
  simp [UnpackedFloat.unpackSign, UnpackedFloat.packComponents, BitVec.getElem_append,
    BitVec.getLsbD_append]

theorem ofBitVec_toBitVec (s : Sign) : Sign.ofBitVec s.toBitVec = s := by
  cases s <;> rfl

theorem toNat_hiddenBit (m : BitVec 52) : (1#1 ++ m).toNat = 2 ^ 52 + m.toNat := by
  rw [BitVec.toNat_append, ← Nat.shiftLeft_add_eq_or_of_lt m.isLt]
  rfl

/-- A float with a hidden bit, from its bits. -/
theorem unpack_normal (s : Sign) {e : BitVec 11} {m : BitVec 52} (hone : e ≠ -1#11)
    (hzero : e ≠ 0#11) :
    UnpackedFloat.unpack Format.binary64 (UnpackedFloat.packComponents Format.binary64 s e m)
      = .finite s (2 ^ 52 + m.toNat) (e.toNat - 1075) (by omega) := by
  rw [UnpackedFloat.unpack]
  simp only [UnpackedFloat.unpackExponent_packComponents,
    UnpackedFloat.unpackMantissa_packComponents, unpackSign_packComponents, ofBitVec_toBitVec]
  rw [if_neg hone, if_neg hzero]
  simp only [toNat_hiddenBit]
  rfl

/-- A float without a hidden bit, from its bits. -/
theorem unpack_subnormal (s : Sign) {m : BitVec 52} (hpos : 0 < m.toNat) :
    UnpackedFloat.unpack Format.binary64 (UnpackedFloat.packComponents Format.binary64 s 0#11 m)
      = .finite s m.toNat (-1074) hpos := by
  have hne : m ≠ 0#52 := by
    rintro rfl
    exact absurd hpos (by decide)
  rw [UnpackedFloat.unpack]
  simp only [UnpackedFloat.unpackExponent_packComponents,
    UnpackedFloat.unpackMantissa_packComponents, unpackSign_packComponents, ofBitVec_toBitVec]
  rw [if_neg (by decide), if_pos trivial, dif_neg hne]
  rfl

/-- A mantissa and an exponent that fit are kept in the bits of a float. -/
theorem unpack_pack_finite (s : Sign) {m : Nat} {e : Int} (hm : 0 < m) (hlt : m < 2 ^ 53)
    (hlow : -1074 ≤ e) (hhigh : e ≤ 971) (hfull : 2 ^ 52 ≤ m ∨ e = -1074) :
    (Float.Model.pack (.finite s m e hm)).unpack = .finite s m e hm := by
  have hbiased : (e + (Format.binary64.exponentBias : Int)
      + (Format.binary64.mantissaBitsWithoutImplicit : Int)).toNat = (e + 1075).toNat := by
    congr 1
    show e + 1023 + 52 = _
    omega
  have hfits : ¬ 2 ^ Format.binary64.exponentBits ≤ (e + 1075).toNat + 1 := by
    show ¬ 2 ^ 11 ≤ _
    omega
  show UnpackedFloat.unpack Format.binary64 (UnpackedFloat.pack Format.binary64 _) = _
  rw [UnpackedFloat.pack]
  simp only [hbiased, if_neg hfits]
  by_cases hnormal : 2 ^ 52 ≤ m
  · have hlog : m.log2 + 1 = Format.binary64.mantissaBits := by
      rw [(Nat.log2_eq_iff hm.ne').2 ⟨hnormal, hlt⟩]
      rfl
    have hexponent : (BitVec.ofNat 11 (e + 1075).toNat).toNat = (e + 1075).toNat := by
      rw [BitVec.toNat_ofNat, Nat.mod_eq_of_lt (by omega)]
    have hmantissa : (BitVec.ofNat 52 m).toNat = m - 2 ^ 52 := by
      rw [BitVec.toNat_ofNat]
      omega
    rw [if_pos hlog]
    have hinside : (BitVec.ofNat 11 (e + 1075).toNat).toNat ≠ (-1#11).toNat ∧
        (BitVec.ofNat 11 (e + 1075).toNat).toNat ≠ (0#11).toNat := by
      rw [hexponent]
      exact ⟨by simp; omega, by simp; omega⟩
    have hbits := unpack_normal s (fun h => hinside.1 (congrArg BitVec.toNat h))
      (fun h => hinside.2 (congrArg BitVec.toNat h)) (m := BitVec.ofNat 52 m)
    have hsum : 2 ^ 52 + (m - 2 ^ 52) = m := by omega
    have hexp : ((e + 1075).toNat : Int) - 1075 = e := by omega
    simp only [hmantissa, hexponent, hsum, hexp] at hbits
    exact hbits
  · have hlog : ¬ m.log2 + 1 = Format.binary64.mantissaBits := by
      have := (Nat.log2_lt hm.ne').2 (not_le.1 hnormal)
      show ¬ m.log2 + 1 = 53
      omega
    have hmantissa : (BitVec.ofNat 52 m).toNat = m := by
      rw [BitVec.toNat_ofNat, Nat.mod_eq_of_lt (by omega)]
    rw [if_neg hlog]
    refine (unpack_subnormal s (hm.trans_eq hmantissa.symm)).trans ?_
    obtain rfl := hfull.resolve_left hnormal
    simp only [hmantissa]

/-- The parts of a float's bits. -/
theorem toNat_unpackMantissa (b : BitVec 64) :
    (@UnpackedFloat.unpackMantissa Format.binary64 b).toNat = b.toNat % 2 ^ 52 := by
  simp [UnpackedFloat.unpackMantissa]

/-- The exponent is the eleven bits above the mantissa. -/
theorem toNat_unpackExponent (b : BitVec 64) :
    (@UnpackedFloat.unpackExponent Format.binary64 b).toNat
      = b.toNat / 2 ^ 52 % 2 ^ 11 := by
  simp [UnpackedFloat.unpackExponent, Nat.shiftRight_eq_div_pow]

/-- The sign is the highest bit. -/
theorem toNat_unpackSign (b : BitVec 64) :
    (@UnpackedFloat.unpackSign Format.binary64 b).toNat = b.toNat / 2 ^ 63 := by
  have hlt : b.toNat < 2 ^ 64 := b.isLt
  simp [UnpackedFloat.unpackSign, Nat.shiftRight_eq_div_pow]
  omega

/-- The sign that is unpacked from a float tells whether it is negative. -/
theorem isNegative_eq (x : Float) :
    Sign.ofBitVec (@UnpackedFloat.unpackSign Format.binary64 x.toBits.toBitVec)
      = if isNegative x then .negative else .positive := by
  have hsign := toNat_unpackSign x.toBits.toBitVec
  have hlt : x.toBits.toNat < 2 ^ 64 := x.toBits.toNat_lt
  by_cases hneg : isNegative x = true
  · rw [if_pos hneg, Sign.ofBitVec, if_neg]
    intro hzero
    rw [hzero] at hsign
    rw [Magnitude.isNegative_iff] at hneg
    exact absurd (hsign.trans hneg) (by decide)
  · rw [if_neg hneg, Sign.ofBitVec, if_pos]
    rw [Magnitude.isNegative_iff] at hneg
    refine BitVec.eq_of_toNat_eq (hsign.trans ?_)
    show x.toBits.toNat / 2 ^ 63 = 0
    omega

/-- The parts of a finite float stand for its magnitude. -/
theorem stands_ofFloat {x : Float} (h : x.isFinite = true) :
    Stands x.toModel.unpack (if isNegative x then .negative else .positive)
      (Magnitude.ofFloat x).value := by
  have hmantissa : (@UnpackedFloat.unpackMantissa Format.binary64
      x.toBits.toBitVec).toNat = x.toBits.toNat % 2 ^ 52 := toNat_unpackMantissa _
  have hexponent : (@UnpackedFloat.unpackExponent Format.binary64
      x.toBits.toBitVec).toNat = x.toBits.toNat / 2 ^ 52 % 2 ^ 11 := toNat_unpackExponent _
  have h : (UnpackedFloat.unpack Format.binary64 x.toBits.toBitVec).isFinite = true := h
  show Stands (UnpackedFloat.unpack Format.binary64 x.toBits.toBitVec) _ _
  rw [Magnitude.ofFloat_eq]
  rw [UnpackedFloat.unpack] at h ⊢
  simp only [isNegative_eq] at h ⊢
  split
  -- neither infinite nor no number
  · rename_i hlast
    rw [if_pos hlast] at h
    split at h <;> cases h
  rename_i hinf
  split
  · rename_i hzero
    have hleast : x.toBits.toNat / 2 ^ 52 % 2 ^ 11 = 0 := by
      rw [← hexponent, hzero]
      rfl
    rw [if_pos hleast]
    split
    · rename_i hnone
      have hnone : x.toBits.toNat % 2 ^ 52 = 0 := by
        rw [← hmantissa, hnone]
        rfl
      rw [hnone, Magnitude.value, Nat.cast_zero, zero_mul]
      exact .zero _ _
    · rename_i hsome
      have hpos : 0 < x.toBits.toNat % 2 ^ 52 := by
        rw [← hmantissa]
        exact Nat.pos_of_ne_zero fun h => hsome (BitVec.eq_of_toNat_eq h)
      simp only [hmantissa, hzero]
      exact .finite _ hpos (by omega) (by decide) (by decide) (.inr rfl)
  · rename_i hzero
    have hne : x.toBits.toNat / 2 ^ 52 % 2 ^ 11 ≠ 0 := by
      rw [← hexponent]
      exact fun h => hzero (BitVec.eq_of_toNat_eq h)
    have hne' : x.toBits.toNat / 2 ^ 52 % 2 ^ 11 ≠ 2047 := by
      rw [← hexponent]
      exact fun h => hinf (BitVec.eq_of_toNat_eq h)
    rw [if_neg hne]
    simp only [toNat_hiddenBit, hmantissa, hexponent]
    exact .finite (e := ((x.toBits.toNat / 2 ^ 52 % 2 ^ 11 : Nat) : Int) - 1075) _ (by omega)
      (by omega) (by omega) (by omega) (.inl (by omega))

/-- What stands for a number is kept in the bits of a float. -/
theorem Stands.unpack_pack {u : UnpackedFloat} {s : Sign} {q : ℚ} (h : Stands u s q) :
    (Float.Model.pack u).unpack = u := by
  cases h with
  | zero s s' => cases s' <;> rfl
  | finite s hpos hlt hlow hhigh hfull => exact unpack_pack_finite s hpos hlt hlow hhigh hfull

/-- A number that a float stands for is one that floats can stand for. -/
theorem Stands.representable {u : UnpackedFloat} {s : Sign} {q : ℚ} (h : Stands u s q) :
    Representable q := by
  cases h with
  | zero => exact ⟨0, 0, by decide, by decide, by simp⟩
  | finite s hpos hlt hlow => exact ⟨_, _, hlt, hlow, rfl⟩

/-! ## Rounding to a float -/

/-- A whole number of units that lies on the same side of every whole number of units as a number is
what the number is rounded to, if the unit is small enough for the number. -/
theorem roundsTo_of_sides {v : ℚ} {t : Int} {r : Nat}
    (hfull : t ≠ -1074 → 2 ^ 52 ≤ v / 2 ^ t)
    (hsides : ∀ n : Nat, (v / 2 ^ t ≤ n → r ≤ n) ∧ ((n : ℚ) ≤ v / 2 ^ t → n ≤ r)) :
    RoundsTo v (r * 2 ^ t) := by
  have hunit : (0 : ℚ) < 2 ^ t := by positivity
  intro q hq
  rcases hq.units t with ⟨n, rfl⟩ | ⟨hlow, hlt⟩
  · obtain ⟨hup, hdown⟩ := hsides n
    rw [mul_le_mul_iff_left₀ hunit, mul_le_mul_iff_left₀ hunit, Nat.cast_le, Nat.cast_le]
    exact ⟨fun h => hup ((div_le_iff₀ hunit).2 h), fun h => hdown ((le_div_iff₀ hunit).2 h)⟩
  -- a number too small for the unit lies below both
  · have hv := hfull hlow.ne'
    have hr : (2 ^ 52 : ℚ) ≤ r := by exact_mod_cast (hsides (2 ^ 52)).2 (by exact_mod_cast hv)
    have hr := mul_le_mul_of_nonneg_right hr hunit.le
    rw [le_div_iff₀ hunit] at hv
    constructor
    · intro hle
      linarith
    · intro
      linarith

/-- The exponent of a rounded float leaves 53 bits, down to the least exponent there is. -/
theorem targetExponent_eq (m : Nat) (e : Int) :
    Format.binary64.targetExponent (totalExponent m e) = max (m.log2 + e - 52) (-1074) := by
  show max ((m.log2 : Int) + 1 + e - 53) (-1074) = _
  congr 1
  omega

/-- A mantissa that is short enough for its exponent is not shifted. -/
theorem shiftToTargetExponent_of_le {m : Nat} {e : Int}
    (h : Format.binary64.targetExponent (totalExponent m e) ≤ e) (a : Accuracy) :
    UnpackedFloat.shiftToTargetExponent Format.binary64 m e a
      = (.ofMantissaAndAccuracy m a, e) := by
  have hshift : (Format.binary64.targetExponent (totalExponent m e) - e).toNat = 0 := by omega
  simp only [UnpackedFloat.shiftToTargetExponent, UnpackedFloat.shiftToExponent, hshift]
  simp
  rfl

/-- A mantissa that rounding made too long is halved. -/
theorem shiftToTargetExponent_of_full {e : Int} (h : -1074 ≤ e) :
    UnpackedFloat.shiftToTargetExponent Format.binary64 (2 ^ 53) e .exact
      = (⟨2 ^ 52, false, false⟩, e + 1) := by
  have htarget : Format.binary64.targetExponent (totalExponent (2 ^ 53) e) = e + 1 := by
    rw [targetExponent_eq, Nat.log2_two_pow]
    omega
  have hshift : (e + 1 - e).toNat = 1 := by omega
  simp only [UnpackedFloat.shiftToTargetExponent, UnpackedFloat.shiftToExponent, htarget, hshift]
  rfl

/-- Rounding to a float shifts the mantissa to its place, and rounds it there. -/
theorem roundWithAccuracy_eq (s : Sign) {m : Nat} {e t : Int} {a : Accuracy} {k r : Nat}
    (ht : t = Format.binary64.targetExponent (totalExponent m e)) (hk : t = e + k)
    (hr : r = (ExtendedMantissa.ofMantissaAndAccuracy m a >>> k).roundedMantissa)
    (hle : r ≤ 2 ^ 53) :
    UnpackedFloat.roundWithAccuracy Format.binary64 s m e a
      = if h : r = 0 then .zero s
        else if r < 2 ^ 53 then .finite s r t (Nat.pos_of_ne_zero h)
        else .finite s (2 ^ 52) (t + 1) (by decide) := by
  have hshift : UnpackedFloat.shiftToTargetExponent Format.binary64 m e a
      = (ExtendedMantissa.ofMantissaAndAccuracy m a >>> k, t) := by
    have hcount : (t - e).toNat = k := by omega
    simp only [UnpackedFloat.shiftToTargetExponent, UnpackedFloat.shiftToExponent, ← ht, hcount,
      ← hk]
  have hlow : -1074 ≤ t := by
    rw [ht, targetExponent_eq]
    omega
  rw [UnpackedFloat.roundWithAccuracy]
  simp only [hshift, ← hr]
  rcases hle.lt_or_eq with hlt | rfl
  · have hlog : r.log2 ≤ 52 := by
      rcases r.eq_zero_or_pos with rfl | hpos
      · decide
      · exact Nat.lt_succ_iff.1 ((Nat.log2_lt hpos.ne').2 hlt)
    have hkeep := shiftToTargetExponent_of_le (m := r) (e := t) (by rw [targetExponent_eq]; omega)
    simp only [hkeep, hlt, if_true]
    rfl
  · simp only [shiftToTargetExponent_of_full hlow]
    rfl

/-- A rounded mantissa stands for itself at its place. -/
theorem stands_rounded (s : Sign) {r : Nat} {t : Int} (hlow : -1074 ≤ t) (hhigh : t ≤ 971)
    (hle : r ≤ 2 ^ 53) (hfull : 2 ^ 52 ≤ r ∨ t = -1074) (htop : r = 2 ^ 53 → t ≤ 970) :
    Stands (if h : r = 0 then .zero s
      else if r < 2 ^ 53 then .finite s r t (Nat.pos_of_ne_zero h)
      else .finite s (2 ^ 52) (t + 1) (by decide)) s (r * 2 ^ t) := by
  by_cases hzero : r = 0
  · rw [dif_pos hzero, hzero, Nat.cast_zero, zero_mul]
    exact .zero s s
  rw [dif_neg hzero]
  rcases hle.lt_or_eq with hlt | rfl
  · rw [if_pos hlt]
    exact .finite s (Nat.pos_of_ne_zero hzero) hlt hlow hhigh hfull
  · rw [if_neg (lt_irrefl _)]
    have := htop rfl
    have hvalue : ((2 ^ 53 : Nat) : ℚ) * 2 ^ t = (2 ^ 52 : Nat) * 2 ^ (t + 1) := by
      rw [zpow_add_one₀ (by norm_num)]
      push_cast
      ring
    rw [hvalue]
    exact .finite s _ (by decide) (by omega) (by omega) (.inl le_rfl)

/-- Some float stands for the largest number. -/
theorem representable_maxFinite : Representable maxFinite :=
  ⟨2 ^ 53 - 1, 971, by decide, by decide, by norm_num [maxFinite]⟩

/-- The first digit of the mantissa tells the size of the exact result. -/
theorem bounds_of_marks {m : Nat} {e : Int} {a : Accuracy} {v : ℚ}
    (h : Marks (.ofMantissaAndAccuracy m a) (v / 2 ^ e)) :
    (m ≠ 0 → 2 ^ (m.log2 + e : Int) ≤ v) ∧ v < 2 ^ (m.log2 + 1 + e : Int) := by
  have hunit : (0 : ℚ) < 2 ^ e := by positivity
  obtain ⟨hbelow, habove⟩ := h.floor
  have hmantissa : (ExtendedMantissa.ofMantissaAndAccuracy m a).mantissa = m := by
    rcases a with _ | o
    · rfl
    · cases o <;> rfl
  rw [hmantissa, le_div_iff₀ hunit] at hbelow
  rw [hmantissa, div_lt_iff₀ hunit] at habove
  constructor
  · intro hm
    have hfirst : (2 : ℚ) ^ m.log2 ≤ m := by exact_mod_cast Nat.log2_self_le hm
    rw [zpow_add₀ (by norm_num), zpow_natCast]
    exact (mul_le_mul_of_nonneg_right hfirst hunit.le).trans hbelow
  · refine habove.trans_le ?_
    rw [zpow_add₀ (by norm_num)]
    have hnext : (m + 1 : ℚ) ≤ 2 ^ (m.log2 + 1) := by exact_mod_cast Nat.lt_log2_self
    exact mul_le_mul_of_nonneg_right (by exact_mod_cast hnext) hunit.le

/-- A full mantissa of a number that is not too large has no larger exponent than the largest. -/
theorem exponent_le_of_full {v : ℚ} {t : Int} (hfull : 2 ^ 52 ≤ v / 2 ^ t) (hmax : v ≤ maxFinite) :
    t ≤ 971 := by
  by_contra hgt
  have hlarge := (le_div_iff₀ (by positivity)).1 hfull
  have hunits : (2 : ℚ) ^ 971 * 2 ≤ 2 ^ t := by
    rw [← pow_succ, ← zpow_natCast]
    exact zpow_le_zpow_right₀ (by norm_num) (by omega)
  have hmax : v ≤ (2 ^ 53 - 1) * 2 ^ 971 := hmax
  have hpos : (0 : ℚ) < 2 ^ 971 := by positivity
  generalize (2 : ℚ) ^ 971 = unit at *
  linarith

/-- **The result of an operation** stands for what the exact result is rounded to, unless that is
too large for a float. -/
theorem exists_stands_round (s : Sign) {m : Nat} {e : Int} {a : Accuracy} {v : ℚ}
    (hfull : e ≤ Format.binary64.targetExponent (totalExponent m e))
    (hmarks : Marks (.ofMantissaAndAccuracy m a) (v / 2 ^ e)) (hmax : v ≤ maxFinite) :
    ∃ d, Stands (UnpackedFloat.roundWithAccuracy Format.binary64 s m e a) s d ∧ RoundsTo v d := by
  obtain ⟨t, ht⟩ : ∃ t, t = Format.binary64.targetExponent (totalExponent m e) := ⟨_, rfl⟩
  obtain ⟨k, hk⟩ := Int.eq_ofNat_of_zero_le (sub_nonneg.2 hfull)
  have hk : t = e + k := by omega
  have hplace : v / 2 ^ e / 2 ^ k = v / 2 ^ t := by
    rw [hk, zpow_add₀ (by norm_num), zpow_natCast, div_div]
  obtain ⟨r, hr⟩ : ∃ r, r = (ExtendedMantissa.ofMantissaAndAccuracy m a >>> k).roundedMantissa :=
    ⟨_, rfl⟩
  have hsides := (hmarks.shiftRight k).sides
  rw [hplace, ← hr] at hsides
  obtain ⟨hfirst, hlast⟩ := bounds_of_marks hmarks
  have ht' := ht
  rw [targetExponent_eq] at ht
  have hlow : -1074 ≤ t := by omega
  have hnormal : t ≠ -1074 → 2 ^ 52 ≤ v / 2 ^ t := by
    intro hne
    have hm : m ≠ 0 := by
      rintro rfl
      have : Nat.log2 0 = 0 := rfl
      omega
    rw [le_div_iff₀ (by positivity), ← zpow_natCast, ← zpow_add₀ (by norm_num)]
    refine (zpow_le_zpow_right₀ (by norm_num) ?_).trans (hfirst hm)
    omega
  have hle : r ≤ 2 ^ 53 := by
    refine (hsides (2 ^ 53)).1 ?_
    rw [div_le_iff₀ (by positivity), Nat.cast_pow, Nat.cast_ofNat, ← zpow_natCast,
      ← zpow_add₀ (by norm_num)]
    refine hlast.le.trans (zpow_le_zpow_right₀ (by norm_num) ?_)
    omega
  have hrounds := roundsTo_of_sides hnormal hsides
  refine ⟨_, ?_, hrounds⟩
  have hhigh : t ≤ 971 := by
    by_contra hgt
    exact hgt (exponent_le_of_full (hnormal (by omega)) hmax)
  rw [roundWithAccuracy_eq s ht' hk hr hle]
  refine stands_rounded s hlow hhigh hle ?_ ?_
  · by_cases hne : t = -1074
    · exact .inr hne
    · exact .inl ((hsides _).2 (by exact_mod_cast hnormal hne))
  -- a mantissa that has become too long is not that of the largest exponent
  · rintro rfl
    by_contra hgt
    obtain rfl : t = 971 := by omega
    have htop := (hrounds _ representable_maxFinite).1 hmax
    norm_num [maxFinite] at htop

end EvalProxy.Decimal
