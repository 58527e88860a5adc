/-
# The order of floats

Numbers, the infinite ones among them, are compared by their places in a linear order. So comparing
numbers obeys the laws of a linear order; only what is no number breaks them.

Main definition: `place`.
Main statements: `lt_iff_place_lt`, `le_iff_place_le`.
-/
import EvalProxy.Proofs.Decimal.Arithmetic
namespace EvalProxy.Decimal

open Float.Model
open Float.Model.UnpackedFloat (Sign)

/-- Where a number stands: the negative ones first, then zero, then the positive ones, and among
these by the exponent and then by the mantissa. What is no number is kept out of the way. -/
def place : UnpackedFloat → ℤ ×ₗ ℤ ×ₗ ℤ
  | .infinity .negative => toLex (-2, toLex (0, 0))
  | .finite .negative m e _ => toLex (-1, toLex (-e, -m))
  | .zero _ => toLex (0, toLex (0, 0))
  | .finite .positive m e _ => toLex (1, toLex (e, m))
  | .infinity .positive => toLex (2, toLex (0, 0))
  | .notANumber => toLex (3, toLex (0, 0))

theorem compare_natCast (m n : Nat) : compare (m : Int) n = compare m n := by
  simp only [compare, compareOfLessAndEq, Nat.cast_lt, Nat.cast_inj]

theorem compare_neg_neg (a b : Int) : compare (-a) (-b) = (compare a b).swap := by
  rw [Int.compare_swap]
  simp only [compare, compareOfLessAndEq, neg_lt_neg_iff, neg_inj, eq_comm]

/-- **Numbers are compared by their places.** -/
theorem compare_eq_compare_place {u v : UnpackedFloat} (hu : u.isNaN = false)
    (hv : v.isNaN = false) : u.compare v = some (compare (place u) (place v)) := by
  cases u with
  | notANumber => cases hu
  | infinity s =>
    cases v with
    | notANumber => cases hv
    | infinity t => cases s <;> cases t <;> rfl
    | zero t => cases s <;> rfl
    | finite t n f hn => cases s <;> cases t <;> rfl
  | zero s =>
    cases v with
    | notANumber => cases hv
    | infinity t => cases t <;> rfl
    | zero t => rfl
    | finite t n f hn => cases t <;> rfl
  | finite s m e hm =>
    cases v with
    | notANumber => cases hv
    | infinity t => cases s <;> cases t <;> rfl
    | zero t => cases s <;> rfl
    | finite t n f hn =>
      cases s <;> cases t
      -- of two negative numbers the one with the greater size stands first
      · show some ((compare e f).then (compare m n)).swap
          = some ((compare (-e) (-f)).then (compare (-m : Int) (-n)))
        rw [compare_neg_neg, compare_neg_neg, compare_natCast, Ordering.swap_then]
      · rfl
      · rfl
      · show some ((compare e f).then (compare m n))
          = some ((compare e f).then (compare (m : Int) n))
        rw [compare_natCast]

/-- Of two numbers the smaller one has the smaller place. -/
theorem lt_iff_place_lt {x y : Float} (hx : x.isNaN = false) (hy : y.isNaN = false) :
    x < y ↔ place x.toModel.unpack < place y.toModel.unpack := by
  show decide ((x.toModel.unpack.compare y.toModel.unpack == some .lt) = true) = true ↔ _
  rw [decide_eq_true_iff, compare_eq_compare_place hx hy, beq_iff_eq, Option.some_inj,
    compare_lt_iff_lt]

/-- Numbers are ordered as their places are. -/
theorem le_iff_place_le {x y : Float} (hx : x.isNaN = false) (hy : y.isNaN = false) :
    x ≤ y ↔ place x.toModel.unpack ≤ place y.toModel.unpack := by
  show decide ((x.toModel.unpack.compare y.toModel.unpack).any (·.isLE) = true) = true ↔ _
  rw [decide_eq_true_iff, compare_eq_compare_place hx hy, Option.any_some,
    Ordering.isLE_iff_ne_gt, compare_gt_iff_gt, not_lt]

end EvalProxy.Decimal
