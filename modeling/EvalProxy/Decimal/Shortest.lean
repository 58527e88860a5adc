/-
# The shortest decimal of a float

A finite float is a whole number times a power of two. `shortest` finds the fewest decimal digits
that read back as it: for one digit, two digits and so on it tests the two neighbours of the value
on that decimal grid against the interval of reals that round to the float.

Main definitions: `Magnitude.ofFloat`, `Magnitude.shortest`.
-/
namespace EvalProxy.Decimal

/-! ## Floats as whole numbers times powers of two -/

/-- The absolute value `mantissa * 2 ^ exponent` of a finite float. `narrowBelow` says that the gap
to the next smaller float is half the gap to the next larger one. -/
structure Magnitude where
  mantissa : Nat
  exponent : Int
  narrowBelow : Bool

/-- Whether a float has its sign bit set. -/
def isNegative (x : Float) : Bool := x.toBits >>> 63 == 1

/-- The absolute value of a finite float. -/
def Magnitude.ofFloat (x : Float) : Magnitude :=
  let bits := x.toBits.toNat
  let fraction := bits % (1 <<< 52)
  let biased := bits >>> 52 % (1 <<< 11)
  -- a float below the normal range has no hidden bit
  if biased = 0 then ⟨fraction, -1074, false⟩
  else ⟨1 <<< 52 + fraction, Int.ofNat biased - 1075, fraction == 0 && 1 < biased⟩

/-! ## Decimals -/

/-- The decimal `significand * 10 ^ exponent`. -/
structure Digits where
  significand : Nat
  exponent : Int
  deriving Repr

/-- The decimal digits of a number, most significant first; zero has one digit. -/
def decimalDigits (n : Nat) : List Char := Nat.toDigits 10 n

/-- The same decimal with no zero at the end of its significand, looking at most `fuel` places
up. -/
def Digits.strip (d : Digits) : Nat → Digits
  | 0 => d
  | fuel + 1 =>
    if d.significand ≠ 0 && d.significand % 10 == 0 then
      Digits.strip ⟨d.significand / 10, d.exponent + 1⟩ fuel
    else d

/-- The exponent of the leading digit: of `123 * 10 ^ 4` it is six. -/
def Digits.leading (d : Digits) : Int := d.exponent + (decimalDigits d.significand).length - 1

/-! ## The search -/

/-- A positive quotient of whole numbers. -/
structure Ratio where
  num : Nat
  den : Nat

/-- `value * 2 ^ exponent` as a quotient. -/
def Ratio.scaled (value : Nat) (exponent : Int) : Ratio :=
  ⟨value <<< exponent.toNat, 1 <<< (-exponent).toNat⟩

/-- The quotient counted in units of `10 ^ exponent`. -/
def Ratio.inUnits (r : Ratio) (exponent : Int) : Ratio :=
  ⟨r.num * Nat.pow 10 (-exponent).toNat, r.den * Nat.pow 10 exponent.toNat⟩

/-- The exponent `e` with `10 ^ e ≤ r < 10 ^ (e + 1)`, from an estimate that is off by one at
most. -/
def Ratio.magnitude (r : Ratio) (estimate : Int) : Int :=
  let reaches (e : Int) : Bool := (r.inUnits e).den ≤ (r.inUnits e).num
  if reaches (estimate + 1) then estimate + 1
  else if reaches estimate then estimate
  else estimate - 1

/-- Whether the decimal `d * 10 ^ place` reads back as the float: it lies between the halfway points
to the float's neighbours, which themselves count when the mantissa is even. -/
def Magnitude.readsBack (m : Magnitude) (place : Int) (d : Nat) : Bool :=
  -- counted in quarters of the mantissa's unit, where every halfway point is whole
  let bound (quarters : Nat) : Ratio := (Ratio.scaled quarters (m.exponent - 2)).inUnits place
  let low := bound (4 * m.mantissa - if m.narrowBelow then 1 else 2)
  let high := bound (4 * m.mantissa + 2)
  if m.mantissa % 2 == 0 then low.num ≤ d * low.den && d * high.den ≤ high.num
  else low.num < d * low.den && d * high.den < high.num

/-- The better of the value's two neighbours on the grid of step `10 ^ place`, if one reads back:
the nearer one, and of two at the same distance the even one. -/
def Magnitude.onGrid? (m : Magnitude) (place : Int) : Option Nat :=
  let value := (Ratio.scaled m.mantissa m.exponent).inUnits place
  let below := value.num / value.den
  let twice := 2 * value.num
  let middle := (2 * below + 1) * value.den
  let nearer := if twice < middle || (twice == middle && below % 2 == 0) then below else below + 1
  let other := if nearer == below then below + 1 else below
  if m.readsBack place nearer then some nearer
  else if m.readsBack place other then some other
  else none

/-- The first grid with a decimal that reads back, from the coarsest on. -/
def Magnitude.search (m : Magnitude) (leading : Int) : List Nat → Digits
  | [] => ⟨0, 0⟩
  | places :: rest =>
    let place := leading - places + 1
    match m.onGrid? place with
    | some d => Digits.strip ⟨d, place⟩ 20
    | none => Magnitude.search m leading rest

/-- The shortest decimal that reads back as the float, and of those the nearest to it. Seventeen
digits are always enough. -/
def Magnitude.shortest (m : Magnitude) : Digits :=
  if m.mantissa = 0 then ⟨0, 0⟩
  else
    -- the logarithm to base two, times that of two to base ten
    let estimate := ((m.mantissa.log2 : Int) + m.exponent) * 30103 / 100000
    m.search ((Ratio.scaled m.mantissa m.exponent).magnitude estimate) (List.range' 1 17)

end EvalProxy.Decimal
