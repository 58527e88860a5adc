/-
# Floats that are numbers

An operation on floats gives a number unless it meets an indefinite form. A product or a quotient
with a float that is neither zero nor infinite is none, and a count above zero is such a float.

Main definition: `isRegular`.
Main statements: `isNaN_unpack_pack`, `exists_round_eq`, `isRegular_toFloat32`.
-/
import EvalProxy.Proofs.Decimal.Arithmetic
namespace EvalProxy.Decimal

open Float.Model
open Float.Model.UnpackedFloat (Accuracy ExtendedMantissa Sign)

/-! ## Numbers -/

/-- A float of some bits is a number unless its exponent is the last one. -/
theorem isNaN_unpack {spec : Format} {b : BitVec spec.numBits}
    (h : UnpackedFloat.unpackExponent b = -1#_ → UnpackedFloat.unpackMantissa b = 0#_) :
    (UnpackedFloat.unpack spec b).isNaN = false := by
  rw [UnpackedFloat.unpack]
  split
  · rename_i hlast
    rw [if_pos (h hlast)]
    rfl
  · split
    · split <;> rfl
    · rfl

theorem toNat_neg_one (n : Nat) : (-1#n).toNat = 2 ^ n - 1 := by
  rw [BitVec.neg_one_eq_allOnes, BitVec.toNat_allOnes]

/-- What is packed as a number is a number. -/
theorem isNaN_unpack_pack (spec : Format) {u : UnpackedFloat} (h : u.isNaN = false) :
    (UnpackedFloat.unpack spec (UnpackedFloat.pack spec u)).isNaN = false := by
  have hbits := Nat.one_lt_two_pow spec.he.ne'
  have hzero : (0#_ : BitVec spec.exponentBits) ≠ -1#_ := by
    intro heq
    have := congrArg BitVec.toNat heq
    rw [toNat_neg_one, BitVec.toNat_ofNat, Nat.zero_mod] at this
    omega
  refine isNaN_unpack fun hlast => ?_
  cases u with
  | notANumber => cases h
  | infinity s => exact UnpackedFloat.unpackMantissa_packComponents
  | zero s => exact UnpackedFloat.unpackMantissa_packComponents
  | finite s m e hm =>
    rw [UnpackedFloat.pack] at hlast ⊢
    split at hlast
    · rename_i hlarge
      rw [if_pos hlarge]
      exact UnpackedFloat.unpackMantissa_packComponents
    · rename_i hfits
      exfalso
      split at hlast <;> rw [UnpackedFloat.unpackExponent_packComponents] at hlast
      · have := congrArg BitVec.toNat hlast
        rw [toNat_neg_one, BitVec.toNat_ofNat, Nat.mod_eq_of_lt (by omega)] at this
        omega
      · exact hzero hlast

/-- A float that is neither zero nor infinite. -/
def isRegular : UnpackedFloat → Bool
  | .finite _ _ _ _ => true
  | _ => false

theorem isNaN_of_isRegular {u : UnpackedFloat} (h : isRegular u = true) : u.isNaN = false := by
  cases u with
  | finite s m e hm => rfl
  | _ => cases h

/-- Rounding gives a number. -/
theorem isNaN_roundWithAccuracy (spec : Format) (s : Sign) (m : Nat) (e : Int) (a : Accuracy) :
    (UnpackedFloat.roundWithAccuracy spec s m e a).isNaN = false := by
  rw [UnpackedFloat.roundWithAccuracy]
  dsimp only
  split <;> rfl

/-- A product of numbers is a number if one of them is regular. -/
theorem isNaN_mul (spec : Format) {u v : UnpackedFloat} (hu : u.isNaN = false)
    (hv : v.isNaN = false) (h : isRegular u = true ∨ isRegular v = true) :
    (UnpackedFloat.mul spec u v).isNaN = false := by
  cases u with
  | notANumber => cases hu
  | finite s m e hm =>
    cases v with
    | notANumber => cases hv
    | finite t n f hn => exact isNaN_roundWithAccuracy ..
    | _ => rfl
  | _ =>
    cases v with
    | notANumber => cases hv
    | finite t n f hn => rfl
    | _ => simp [isRegular] at h

/-- A number divided by a regular one is a number. -/
theorem isNaN_div (spec : Format) {u v : UnpackedFloat} (hu : u.isNaN = false)
    (hv : isRegular v = true) : (UnpackedFloat.div spec u v).isNaN = false := by
  cases v with
  | finite t n f hn =>
    cases u with
    | notANumber => cases hu
    | finite s m e hm => exact isNaN_roundWithAccuracy ..
    | _ => rfl
  | _ => cases hv

/-! ## Rounding with a full mantissa -/

theorem mantissa_shiftRight (em : ExtendedMantissa) (k : Nat) :
    (em >>> k).mantissa = em.mantissa / 2 ^ k := by
  show (k.repeat ExtendedMantissa.shiftRightOne em).mantissa = _
  induction k with
  | zero => simp [Nat.repeat]
  | succ k ih =>
    show (k.repeat ExtendedMantissa.shiftRightOne em).mantissa / 2 = _
    rw [ih, Nat.div_div_eq_div_mul, pow_succ]

theorem log2_div_two_pow {m k : Nat} (hm : m ≠ 0) (hk : k ≤ m.log2) :
    (m / 2 ^ k).log2 = m.log2 - k := by
  have hpow : 0 < 2 ^ k := by positivity
  have hlow := Nat.log2_self_le hm
  have hhigh := Nat.lt_log2_self (n := m)
  obtain ⟨j, hj⟩ := Nat.exists_eq_add_of_le' hk
  rw [hj, Nat.add_right_comm] at hhigh
  rw [hj] at hlow
  rw [pow_add] at hlow hhigh
  have hle : 2 ^ j ≤ m / 2 ^ k := (Nat.le_div_iff_mul_le hpow).2 hlow
  have hlt : m / 2 ^ k < 2 ^ (j + 1) := (Nat.div_lt_iff_lt_mul hpow).2 hhigh
  have hne : m / 2 ^ k ≠ 0 := ((Nat.two_pow_pos j).trans_le hle).ne'
  rw [(Nat.log2_eq_iff hne).2 ⟨hle, hlt⟩, hj, Nat.add_sub_cancel]

/-- A mantissa that is long enough is cut to the length of the format. -/
theorem log2_shiftToTargetExponent {spec : Format} {m : Nat} {e : Int} (a : Accuracy)
    (hfull : spec.mantissaBitsWithoutImplicit ≤ m.log2)
    (hlow : spec.minExponent ≤ totalExponent m e - spec.mantissaBits) :
    (UnpackedFloat.shiftToTargetExponent spec m e a).1.mantissa.log2
        = spec.mantissaBitsWithoutImplicit ∧
      (UnpackedFloat.shiftToTargetExponent spec m e a).2
        = totalExponent m e - spec.mantissaBits := by
  have htotal : totalExponent m e - spec.mantissaBits
      = e + (m.log2 - spec.mantissaBitsWithoutImplicit : Nat) := by
    rw [totalExponent, Format.mantissaBits]
    omega
  have hm : m ≠ 0 := by
    rintro rfl
    have := spec.hm
    rw [Nat.log2_zero] at hfull
    omega
  have hinit : (ExtendedMantissa.ofMantissaAndAccuracy m a).mantissa = m := by
    cases a with
    | exact => rfl
    | inexact o => cases o <;> rfl
  rw [UnpackedFloat.shiftToTargetExponent, UnpackedFloat.shiftToExponent, Format.targetExponent,
    max_eq_left hlow, htotal, add_sub_cancel_left, Int.toNat_natCast, mantissa_shiftRight, hinit,
    log2_div_two_pow hm (Nat.sub_le _ _)]
  exact ⟨by omega, rfl⟩

/-- Rounding a mantissa adds a bit at most. -/
theorem log2_roundedMantissa {em : ExtendedMantissa} (hm : em.mantissa ≠ 0) :
    em.roundedMantissa.log2 = em.mantissa.log2 ∨
      em.roundedMantissa.log2 = em.mantissa.log2 + 1 := by
  obtain ⟨hge, hle⟩ := le_roundedMantissa em
  have hlow := Nat.log2_self_le hm
  have hhigh := Nat.lt_log2_self (n := em.mantissa)
  rcases lt_or_ge em.roundedMantissa (2 ^ (em.mantissa.log2 + 1)) with hlt | hge'
  · exact .inl ((Nat.log2_eq_iff (by omega)).2 ⟨by omega, hlt⟩)
  · refine .inr ((Nat.log2_eq_iff (by omega)).2 ⟨hge', ?_⟩)
    rw [pow_succ] at hge' ⊢
    omega

/-- Rounding a mantissa that is long enough gives one of the length of the format. -/
theorem exists_roundWithAccuracy_eq {spec : Format} (s : Sign) {m : Nat} {e : Int} (a : Accuracy)
    (hfull : spec.mantissaBitsWithoutImplicit ≤ m.log2)
    (hlow : spec.minExponent ≤ totalExponent m e - spec.mantissaBits) :
    ∃ r t h, UnpackedFloat.roundWithAccuracy spec s m e a = .finite s r t h ∧
      r.log2 = spec.mantissaBitsWithoutImplicit ∧
      totalExponent m e - spec.mantissaBits ≤ t ∧
      t ≤ totalExponent m e - spec.mantissaBits + 1 := by
  obtain ⟨hlog, hexponent⟩ := log2_shiftToTargetExponent a hfull hlow
  rw [UnpackedFloat.roundWithAccuracy]
  generalize UnpackedFloat.shiftToTargetExponent spec m e a = shifted at *
  obtain ⟨em, x⟩ := shifted
  dsimp only at hlog hexponent ⊢
  have hne : ∀ n : Nat, n.log2 = spec.mantissaBitsWithoutImplicit → n ≠ 0 := by
    rintro n hn rfl
    exact spec.hm.ne (Nat.log2_zero.symm.trans hn)
  have hrounded := log2_roundedMantissa (hne _ hlog)
  -- rounding up may have made the mantissa one bit longer
  have htotal : totalExponent em.roundedMantissa x - spec.mantissaBits = x ∨
      totalExponent em.roundedMantissa x - spec.mantissaBits = x + 1 := by
    rw [totalExponent, Format.mantissaBits]
    omega
  obtain ⟨hlog', hexponent'⟩ :=
    @log2_shiftToTargetExponent spec em.roundedMantissa x .exact (by omega) (by omega)
  generalize UnpackedFloat.shiftToTargetExponent spec em.roundedMantissa x .exact = final at *
  rw [dif_neg (hne _ hlog')]
  exact ⟨_, _, _, rfl, hlog', by omega, by omega⟩

/-- Rounding any whole number above zero gives a mantissa of the length of the format, unless the
exponent is too small for it. -/
theorem exists_round_eq {spec : Format} (s : Sign) {m : Nat} {e : Int} (hm : 0 < m)
    (hlow : spec.minExponent ≤ totalExponent m e - spec.mantissaBits) :
    ∃ r t h, UnpackedFloat.round spec s m e = .finite s r t h ∧
      r.log2 = spec.mantissaBitsWithoutImplicit ∧
      totalExponent m e - spec.mantissaBits ≤ t ∧
      t ≤ totalExponent m e - spec.mantissaBits + 1 := by
  have htarget : spec.targetExponent (totalExponent m e) = totalExponent m e - spec.mantissaBits :=
    max_eq_left hlow
  rw [UnpackedFloat.round, htarget, UnpackedFloat.decreaseExponent]
  dsimp only
  obtain ⟨k, hk⟩ : ∃ k, k = (e - (totalExponent m e - spec.mantissaBits)).toNat := ⟨_, rfl⟩
  rw [← hk]
  have hlog := log2_shiftLeft hm k
  have htotal : totalExponent (m <<< k) (e - k) = totalExponent m e := by
    rw [totalExponent, totalExponent, hlog]
    push_cast
    ring
  rw [← htotal] at hlow ⊢
  refine exists_roundWithAccuracy_eq s .exact ?_ hlow
  rw [totalExponent, Format.mantissaBits] at hk
  omega

/-- A full mantissa with an exponent in range is packed into a regular float. -/
theorem isRegular_unpack_pack {spec : Format} (s : Sign) {m : Nat} {e : Int} (hm : 0 < m)
    (hlog : m.log2 = spec.mantissaBitsWithoutImplicit)
    (hlow : 0 < e + spec.exponentBias + spec.mantissaBitsWithoutImplicit)
    (hhigh : e + spec.exponentBias + spec.mantissaBitsWithoutImplicit + 1
      < (2 ^ spec.exponentBits : Nat)) :
    isRegular (UnpackedFloat.unpack spec (UnpackedFloat.pack spec (.finite s m e hm))) = true := by
  obtain ⟨biased, hbiased⟩ := Int.eq_ofNat_of_zero_le hlow.le
  have hfits : ¬ 2 ^ spec.exponentBits ≤ biased + 1 := by omega
  have hexponent : (BitVec.ofNat spec.exponentBits biased).toNat = biased := by
    rw [BitVec.toNat_ofNat, Nat.mod_eq_of_lt (by omega)]
  rw [UnpackedFloat.pack, hbiased, Int.toNat_natCast, if_neg hfits, hlog,
    if_pos (show _ = spec.mantissaBits from Nat.add_comm _ _), UnpackedFloat.unpack]
  simp only [UnpackedFloat.unpackExponent_packComponents]
  rw [if_neg, if_neg]
  · rfl
  · intro h
    have := congrArg BitVec.toNat h
    rw [hexponent, BitVec.toNat_ofNat, Nat.zero_mod] at this
    omega
  · intro h
    have := congrArg BitVec.toNat h
    rw [hexponent, toNat_neg_one] at this
    omega

/-! ## Counts in single precision -/

/-- A count other than zero is regular in single precision. -/
theorem isRegular_toFloat32 {n : UInt64} (h : n ≠ 0) :
    isRegular n.toFloat32.toModel.unpack = true := by
  have hpos : 0 < n.toNat := Nat.pos_of_ne_zero fun hzero => h (UInt64.toNat_inj.1 hzero)
  have hlog : n.toNat.log2 < 64 := (Nat.log2_lt hpos.ne').2 n.toNat_lt
  have htotal : totalExponent n.toNat 0 - Format.binary32.mantissaBits = n.toNat.log2 - 23 := by
    show (n.toNat.log2 : Int) + 1 + 0 - 24 = _
    omega
  have hlow : Format.binary32.minExponent
      ≤ totalExponent n.toNat 0 - Format.binary32.mantissaBits := by
    rw [htotal]
    show -149 ≤ _
    omega
  obtain ⟨r, t, hr, hround, hlog', hlow, hhigh⟩ := exists_round_eq .positive hpos hlow
  rw [htotal] at hlow hhigh
  have hunpacked : UnpackedFloat.ofUInt64 Format.binary32 n = .finite .positive r t hr := by
    rw [← hround]
    show UnpackedFloat.normalize Format.binary32 n.toNat 0 .positive = _
    rw [UnpackedFloat.normalize, Int.compare_eq_gt.2 (by omega)]
    rfl
  show isRegular (UnpackedFloat.unpack Format.binary32
    (UnpackedFloat.pack Format.binary32 (UnpackedFloat.ofUInt64 Format.binary32 n))) = true
  rw [hunpacked]
  refine isRegular_unpack_pack .positive hr hlog' ?_ ?_
  · show 0 < t + 127 + 23
    omega
  · show t + 127 + 23 + 1 < 256
    omega

end EvalProxy.Decimal

