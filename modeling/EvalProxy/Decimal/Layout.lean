/-
# Floats as text

How the digits of a float are laid out: positionally or with an exponent. Each output format of the
library is one `Layout`; `fixedPlaces` writes a float rounded to a number of decimal places.

Main definitions: `Layout.write`, `Layout.json`, `Layout.plain`, `fixedPlaces`.
-/
import EvalProxy.Decimal.Shortest
namespace EvalProxy.Decimal

/-- A way to write floats: which exponents of the leading digit are written positionally, and
whether a whole number keeps a point and a zero. -/
structure Layout where
  positional : Int → Bool
  keepPoint : Bool

/-- JSON text: positional from `0.00001` up to sixteen digits, always with a point. -/
def Layout.json : Layout := ⟨fun e => -5 ≤ e && e ≤ 15, true⟩

/-- Plain text: positional throughout, whole numbers without a point. -/
def Layout.plain : Layout := ⟨fun _ => true, false⟩

/-- Digits laid out positionally, where the first stands for `10 ^ leading`. -/
def positionalChars (keepPoint : Bool) (digits : List Char) (leading : Int) : List Char :=
  let zeros (n : Nat) := List.replicate n '0'
  if leading < 0 then
    '0' :: '.' :: zeros (-leading - 1).toNat ++ digits
  else
    let whole := leading.toNat + 1
    if digits.length ≤ whole then
      digits ++ zeros (whole - digits.length) ++ if keepPoint then ['.', '0'] else []
    else digits.take whole ++ '.' :: digits.drop whole

/-- Digits with a point after the first and an exponent that always shows its sign. -/
def exponentChars (digits : List Char) (leading : Int) : List Char :=
  let mantissa := match digits with
    | d :: e :: rest => d :: '.' :: e :: rest
    | short => short
  mantissa ++ 'e' :: (if leading < 0 then '-' else '+') :: decimalDigits leading.natAbs

/-- The characters of a finite float. -/
def Layout.writeChars (layout : Layout) (x : Float) : List Char :=
  let d := (Magnitude.ofFloat x).shortest
  let digits := decimalDigits d.significand
  let leading := d.leading
  let body :=
    if layout.positional leading then positionalChars layout.keepPoint digits leading
    else exponentChars digits leading
  if isNegative x then '-' :: body else body

/-- A float as text; the values that are no numbers have names. -/
def Layout.write (layout : Layout) (x : Float) : String :=
  if x.isNaN then "NaN"
  else if x.isInf then if isNegative x then "-inf" else "inf"
  else String.ofList (layout.writeChars x)

/-- A finite float rounded to `places` decimal places; a tie goes to the even neighbour. -/
def fixedPlaces (places : Nat) (x : Float) : String :=
  let m := Magnitude.ofFloat x
  let r := (Ratio.scaled m.mantissa m.exponent).inUnits (-places)
  let below := r.num / r.den
  let twice := 2 * (r.num % r.den)
  let rounded := if twice < r.den || (twice == r.den && below % 2 == 0) then below else below + 1
  let digits := decimalDigits rounded
  let padded := List.replicate (places + 1 - digits.length) '0' ++ digits
  let whole := padded.take (padded.length - places)
  let fraction := padded.drop (padded.length - places)
  let body := if places = 0 then whole else whole ++ '.' :: fraction
  String.ofList (if isNegative x then '-' :: body else body)

end EvalProxy.Decimal
