/-
# Numbers of configuration files

Integers in base ten, sixteen, eight and two, and floats. A low line may stand between two digits.

Main definitions: `int?`, `float?`.
-/
import EvalProxy.Decimal.Scale
import EvalProxy.Toml.Lexical
namespace EvalProxy.Toml

/-! ## Digits -/

/-- The digits of a text behind a digit, without the low lines between them. -/
def groupedTail? (isDigit : Char → Bool) : List Char → Option (List Char)
  | [] => some []
  | '_' :: c :: rest =>
    if isDigit c then (groupedTail? isDigit rest).map (c :: ·) else none
  | c :: rest => if isDigit c then (groupedTail? isDigit rest).map (c :: ·) else none

/-- The digits of a text, of which there must be one, without the low lines between them. -/
def grouped? (isDigit : Char → Bool) : List Char → Option (List Char)
  | [] => none
  | c :: rest => if isDigit c then (groupedTail? isDigit rest).map (c :: ·) else none

/-- The digits of a whole number in base ten, which does not begin with a zero unless it is zero. -/
def whole? (cs : List Char) : Option (List Char) := do
  let digits ← grouped? Char.isDigit cs
  match digits with
  | '0' :: _ :: _ => none
  | _ => some digits

/-- A text behind its sign, and whether the sign is a minus. -/
def signed (cs : List Char) : Bool × List Char :=
  match cs with
  | '-' :: rest => (true, rest)
  | '+' :: rest => (false, rest)
  | _ => (false, cs)

/-! ## Integers -/

/-- The value of a digit in any base up to sixteen. -/
def digitValue (c : Char) : Nat := (Text.hexValue? (UInt8.ofNat c.toNat)).getD 0

/-- The number that digits spell in a base. -/
def ofBase (base : Nat) (digits : List Char) : Nat :=
  digits.foldl (fun n c => n * base + digitValue c) 0

/-- Whether a character is a hexadecimal digit. -/
def isHexDigit (c : Char) : Bool :=
  c.isDigit || ('a' ≤ c && c ≤ 'f') || ('A' ≤ c && c ≤ 'F')

/-- Whether a character is an octal digit. -/
def isOctalDigit (c : Char) : Bool := '0' ≤ c && c ≤ '7'

/-- Whether a character is a binary digit. -/
def isBinaryDigit (c : Char) : Bool := c == '0' || c == '1'

/-- A number that fits into 64 bits with its sign. -/
def fitted? (n : Int) : Option Int :=
  if Int64.minValue.toInt ≤ n && n ≤ Int64.maxValue.toInt then some n else none

/-- The integer that a whole text spells. -/
def int? (cs : List Char) : Option Int :=
  match cs with
  | '0' :: 'x' :: rest => do fitted? (ofBase 16 (← grouped? isHexDigit rest))
  | '0' :: 'o' :: rest => do fitted? (ofBase 8 (← grouped? isOctalDigit rest))
  | '0' :: 'b' :: rest => do fitted? (ofBase 2 (← grouped? isBinaryDigit rest))
  | _ => do
    let (negative, rest) := signed cs
    let n : Int := ofBase 10 (← whole? rest)
    fitted? (if negative then -n else n)

/-! ## Floats -/

/-- Whether a character is a digit or a low line. -/
def isGroupChar (c : Char) : Bool := c.isDigit || c == '_'

/-- The exponent that a text spells; the empty text spells zero. -/
def exponent? (cs : List Char) : Option Int :=
  match cs with
  | [] => some 0
  | e :: rest =>
    if e = 'e' || e = 'E' then do
      let (negative, rest) := signed rest
      let n : Int := ofBase 10 (← grouped? Char.isDigit rest)
      some (if negative then -n else n)
    else none

/-- The digits behind the point, if there is one, and what follows them. -/
def fraction? (cs : List Char) : Option (List Char × List Char) :=
  match cs with
  | '.' :: rest => do
    let digits ← grouped? Char.isDigit (rest.takeWhile isGroupChar)
    some (digits, rest.dropWhile isGroupChar)
  | _ => some ([], cs)

/-- The absolute value of a float, which has a fraction or an exponent. -/
def magnitude? (cs : List Char) : Option Float := do
  let whole ← whole? (cs.takeWhile isGroupChar)
  let behind := cs.dropWhile isGroupChar
  let (fraction, rest) ← fraction? behind
  let exponent ← exponent? rest
  let digits := whole ++ fraction
  if behind.isEmpty then none
  else some (Decimal.nearest (ofBase 10 digits) digits.length (exponent - fraction.length))

/-- The float that a whole text spells. A positive one must be finite unless it is written as the
infinite one. -/
def float? (cs : List Char) : Option Float :=
  let (negative, rest) := signed cs
  let sign (x : Float) : Float := if negative then -x else x
  if rest = ['i', 'n', 'f'] then some (sign (1 / 0))
  else if rest = ['n', 'a', 'n'] then some (sign (0 / 0))
  else do
    let x := sign (← magnitude? rest)
    if x.isInf && 0 < x then none else some x

end EvalProxy.Toml
