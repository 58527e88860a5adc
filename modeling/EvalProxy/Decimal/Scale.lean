/-
# Decimals as floats

The float that a decimal literal stands for. `scale?` is the rule of JSON numbers: the significand
is rounded to a float first and then multiplied by, or divided by, a power of ten, so the last bit
may differ from the nearest float. `nearest` is the correctly rounded reading.
-/
namespace EvalProxy.Decimal

/-- The float nearest to `10 ^ exponent`. -/
def powerOfTen (exponent : Nat) : Float := Float.ofScientific 1 false exponent

/-- `x / 10 ^ deficit` in steps that a float can hold. -/
def divideByTens (x : Float) (deficit : Nat) : Float :=
  if deficit ≤ 308 then x / powerOfTen deficit
  else if x == 0.0 then x
  else divideByTens (x / powerOfTen 308) (deficit - 308)
termination_by deficit

/-- The float of `significand * 10 ^ exponent`, or nothing if it is too large. -/
def scale? (significand : UInt64) (exponent : Int) : Option Float :=
  let x := significand.toFloat
  if exponent < 0 then some (divideByTens x (-exponent).toNat)
  else if exponent ≤ 308 then
    let y := x * powerOfTen exponent.toNat
    if y.isInf then none else some y
  else if x == 0.0 then some x
  else none

/-- A decimal whose leading digit stands for a larger power of ten is no finite float, and one whose
leading digit stands for a smaller power than the negated bound is zero. -/
def leadingBound : Int := 400

/-- The float nearest to `significand * 10 ^ exponent`, where the significand has the given number
of digits. -/
def nearest (significand digits : Nat) (exponent : Int) : Float :=
  let leading := exponent + digits
  if significand = 0 || leading < -leadingBound then 0
  else if leadingBound < leading then 1 / 0
  else if exponent < 0 then Float.ofScientific significand true (-exponent).toNat
  else Float.ofScientific significand false exponent.toNat

end EvalProxy.Decimal
