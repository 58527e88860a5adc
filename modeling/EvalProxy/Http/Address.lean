/-
# Socket addresses

Which texts are the address of a socket: an address of version four or, in brackets, of version six,
and a port. Names of hosts are no addresses.

Main definition: `isSocketAddress`.
-/
import EvalProxy.Text.Bytes
namespace EvalProxy.Address

/-- A reader takes something from the front of a text and gives the rest. -/
abbrev Reader := List Char → Option (List Char)

/-- A given character. -/
def char (c : Char) : Reader := fun cs =>
  match cs with
  | d :: rest => if c = d then some rest else none
  | [] => none

/-- Whether a character is a digit of a base up to sixteen. -/
def isDigitOf (base : Nat) (c : Char) : Bool :=
  if 127 < c.toNat then false
  else
    match Text.hexValue? (UInt8.ofNat c.toNat) with
    | some n => n < base
    | none => false

/-- The number that digits of a base spell. -/
def ofDigits (base : Nat) (cs : List Char) : Nat :=
  cs.foldl (fun n c => n * base + (Text.hexValue? (UInt8.ofNat c.toNat)).getD 0) 0

/-- A number of a base up to a limit, in at most `width` digits. -/
def number (base width limit : Nat) : Reader := fun cs =>
  let digits := cs.takeWhile (isDigitOf base)
  if digits.isEmpty || width < digits.length || limit < ofDigits base digits then none
  else some (cs.drop digits.length)

/-- A number up to 255, without zeros in front. -/
def octet : Reader := fun cs =>
  match cs with
  | '0' :: d :: _ => if d.isDigit then none else some (cs.drop 1)
  | _ => number 10 3 255 cs

/-- An address of version four: four numbers with points between them. -/
def version4 : Reader := fun cs => do
  let cs ← octet cs
  let cs ← char '.' cs
  let cs ← octet cs
  let cs ← char '.' cs
  let cs ← octet cs
  let cs ← char '.' cs
  octet cs

/-- The separator in front of a group other than the first. -/
def separated (first : Bool) (read : Reader) : Reader := fun cs =>
  if first then read cs else (char ':' cs).bind read

/-- Groups of an address of version six, at most `limit`: how many there are, whether an address of
version four ends them, which counts as two, and the rest. -/
def groups (first : Bool) : Nat → List Char → Nat × Bool × List Char
  | 0, cs => (0, false, cs)
  | limit + 1, cs =>
    match if limit = 0 then none else separated first version4 cs with
    | some rest => (2, true, rest)
    | none =>
      match separated first (number 16 4 0xFFFF) cs with
      | some rest =>
        let (n, embedded, rest) := groups false limit rest
        (n + 1, embedded, rest)
      | none => (0, false, cs)

/-- The number of groups in an address of version six. -/
def groupCount : Nat := 8

/-- An address of version six: all its groups, or fewer with two colons for those left out. -/
def version6 : Reader := fun cs =>
  let (n, embedded, rest) := groups true groupCount cs
  if n = groupCount then some rest
  else if embedded then none
  else do
    let rest ← char ':' rest
    let rest ← char ':' rest
    some (groups true (groupCount - (n + 1)) rest).2.2

/-- The scope of an address of version six, if it has one. -/
def scope : Reader := fun cs =>
  match cs with
  | '%' :: rest => number 10 rest.length (UInt32.size - 1) rest
  | _ => some cs

/-- A colon and the number of a port. -/
def port : Reader := fun cs => do
  let cs ← char ':' cs
  number 10 cs.length (UInt16.size - 1) cs

/-- An address of version six in brackets. -/
def bracketed : Reader := fun cs => do
  let cs ← char '[' cs
  let cs ← version6 cs
  let cs ← scope cs
  char ']' cs

/-- Whether a text is the address of a socket. -/
def isSocketAddress (s : String) : Bool :=
  let whole (host : Reader) : Bool :=
    match (host s.toList).bind port with
    | some [] => true
    | _ => false
  whole version4 || whole bracketed

end EvalProxy.Address
