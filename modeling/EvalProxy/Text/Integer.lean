/-
# Integers in plain text

Whole numbers as settings and header fields spell them: decimal digits, perhaps behind a sign, and
nothing else.

Main definitions: `natural?`, `integer?`.
-/
namespace EvalProxy.Text

/-- The number that decimal digits spell, of which there must be one. -/
def digits? (cs : List Char) : Option Nat :=
  if cs.isEmpty || !cs.all Char.isDigit then none
  else some (cs.foldl (fun n c => n * 10 + (c.toNat - 48)) 0)

/-- The largest number that is read. -/
def maxNatural : Nat := UInt64.size - 1

/-- The number that a text spells, up to the largest one of 64 bits. A plus sign may stand before
it. -/
def natural? (s : String) : Option Nat :=
  let digits := match s.toList with
    | '+' :: rest => rest
    | cs => cs
  (digits? digits).filter (· ≤ maxNatural)

/-- The number that a text spells with or without a sign. -/
def integer? (s : String) : Option Int :=
  match s.toList with
  | '-' :: rest => (digits? rest).map fun n => -(n : Int)
  | '+' :: rest => (digits? rest).map fun n => (n : Int)
  | cs => (digits? cs).map fun n => (n : Int)

end EvalProxy.Text
