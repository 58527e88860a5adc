/-
# JSON text

The compact and the indented text of a JSON value. Members are written in the order in which the
object lists them; a float that is no number is written as `null`.

Main definitions: `Json.compact`, `Json.pretty`.
-/
import EvalProxy.Json.Basic
import EvalProxy.Decimal.Layout
import EvalProxy.Text.Bytes
namespace EvalProxy.Json

/-! ## Scalars -/

/-- A character inside a string: quotes, backslashes and control characters are escaped. -/
def escapeChar (c : Char) : List Char :=
  if c = '"' then ['\\', '"']
  else if c = '\\' then ['\\', '\\']
  else if c = '\n' then ['\\', 'n']
  else if c = '\r' then ['\\', 'r']
  else if c = '\t' then ['\\', 't']
  else if c = '\x08' then ['\\', 'b']
  else if c = '\x0c' then ['\\', 'f']
  else if c.toNat < 0x20 then
    ['\\', 'u', '0', '0', Text.hexDigit (c.toNat / 16), Text.hexDigit (c.toNat % 16)]
  else [c]

/-- A string in quotes. -/
def quoted (s : String) : List Char := '"' :: s.toList.flatMap escapeChar ++ ['"']

/-- A whole number in decimal. -/
def intChars (n : Int) : List Char :=
  if n < 0 then '-' :: Decimal.decimalDigits n.natAbs else Decimal.decimalDigits n.natAbs

/-- A float in its shortest decimal. -/
def floatChars (x : Float) : List Char :=
  if x.isNaN || x.isInf then ['n', 'u', 'l', 'l'] else Decimal.Layout.json.writeChars x

/-- The text of a value that is no array and no object. -/
def scalarChars : Json → List Char
  | null => ['n', 'u', 'l', 'l']
  | bool true => ['t', 'r', 'u', 'e']
  | bool false => ['f', 'a', 'l', 's', 'e']
  | int n => intChars n
  | float x => floatChars x
  | text s => quoted s
  | _ => []

/-! ## Compact text -/

mutual

/-- The text of a value without blanks. -/
def compactChars : Json → List Char
  | array items => '[' :: compactItems items
  | object members => '{' :: compactMembers members
  | null => scalarChars null
  | bool b => scalarChars (bool b)
  | int n => scalarChars (int n)
  | float x => scalarChars (float x)
  | text s => scalarChars (text s)

/-- The elements and the closing bracket. -/
def compactItems : List Json → List Char
  | [] => [']']
  | v :: rest => compactChars v ++ compactItemsTail rest

/-- The elements after the first, each behind a comma, and the closing bracket. -/
def compactItemsTail : List Json → List Char
  | [] => [']']
  | v :: rest => ',' :: compactChars v ++ compactItemsTail rest

/-- The members and the closing brace. -/
def compactMembers : List (String × Json) → List Char
  | [] => ['}']
  | (k, v) :: rest => quoted k ++ ':' :: compactChars v ++ compactMembersTail rest

/-- The members after the first, each behind a comma, and the closing brace. -/
def compactMembersTail : List (String × Json) → List Char
  | [] => ['}']
  | (k, v) :: rest => ',' :: quoted k ++ ':' :: compactChars v ++ compactMembersTail rest

end

/-- The text of a value without blanks. -/
def compact (v : Json) : String := String.ofList (compactChars v)

/-! ## Indented text -/

/-- A new line and two blanks for each level. -/
def newLine (depth : Nat) : List Char := '\n' :: List.replicate (2 * depth) ' '

mutual

/-- The text of a value that stands at a level, with one element or member a line. -/
def prettyChars (depth : Nat) : Json → List Char
  | array [] => ['[', ']']
  | array (v :: rest) =>
    '[' :: newLine (depth + 1) ++ prettyChars (depth + 1) v ++ prettyItemsTail depth rest
  | object [] => ['{', '}']
  | object ((k, v) :: rest) =>
    '{' :: newLine (depth + 1) ++ quoted k ++ ':' :: ' ' :: prettyChars (depth + 1) v
      ++ prettyMembersTail depth rest
  | null => scalarChars null
  | bool b => scalarChars (bool b)
  | int n => scalarChars (int n)
  | float x => scalarChars (float x)
  | text s => scalarChars (text s)

/-- The elements after the first and the closing bracket on its own line. -/
def prettyItemsTail (depth : Nat) : List Json → List Char
  | [] => newLine depth ++ [']']
  | v :: rest =>
    ',' :: newLine (depth + 1) ++ prettyChars (depth + 1) v ++ prettyItemsTail depth rest

/-- The members after the first and the closing brace on its own line. -/
def prettyMembersTail (depth : Nat) : List (String × Json) → List Char
  | [] => newLine depth ++ ['}']
  | (k, v) :: rest =>
    ',' :: newLine (depth + 1) ++ quoted k ++ ':' :: ' ' :: prettyChars (depth + 1) v
      ++ prettyMembersTail depth rest

end

/-- The text of a value with one element or member a line. -/
def pretty (v : Json) : String := String.ofList (prettyChars 0 v)

end EvalProxy.Json
