/-
# Faults in JSON text

What can be wrong with a JSON text, and where. A fault remembers how many octets were left unread
when it was found; line and column follow from the octets before.

Main definitions: `Fault`, `Fault.describe`.
-/
import EvalProxy.Text.Bytes
namespace EvalProxy.Json

/-- What is wrong with a JSON text. A `mismatch` is well-formed JSON of the wrong kind. -/
inductive Fault.Kind where
  | eofInValue
  | eofInList
  | eofInObject
  | eofInString
  | expectedValue
  | expectedWord
  | expectedColon
  | expectedCommaOrBrace
  | expectedCommaOrBracket
  | keyNoString
  | trailingComma
  | trailingCharacters
  | badNumber
  | numberTooLarge
  | badEscape
  | loneSurrogate
  | hexEscapeEnds
  | controlCharacter
  | badCodePoint
  | tooDeep
  | mismatch (message : String)

/-- The wording of a fault. -/
def Fault.Kind.message : Fault.Kind → String
  | eofInValue => "EOF while parsing a value"
  | eofInList => "EOF while parsing a list"
  | eofInObject => "EOF while parsing an object"
  | eofInString => "EOF while parsing a string"
  | expectedValue => "expected value"
  | expectedWord => "expected ident"
  | expectedColon => "expected `:`"
  | expectedCommaOrBrace => "expected `,` or `\x7d`"
  | expectedCommaOrBracket => "expected `,` or `]`"
  | keyNoString => "key must be a string"
  | trailingComma => "trailing comma"
  | trailingCharacters => "trailing characters"
  | badNumber => "invalid number"
  | numberTooLarge => "number out of range"
  | badEscape => "invalid escape"
  | loneSurrogate => "lone leading surrogate in hex escape"
  | hexEscapeEnds => "unexpected end of hex escape"
  | controlCharacter => "control character (\\u0000-\\u001F) found while parsing a string"
  | badCodePoint => "invalid unicode code point"
  | tooDeep => "recursion limit exceeded"
  | mismatch message => message

/-- A fault and the number of octets unread when it was found. -/
structure Fault where
  kind : Fault.Kind
  unread : Nat

/-- A fault found when `rest` is unread. -/
def Fault.at (kind : Fault.Kind) (rest : Bytes) : Fault := ⟨kind, rest.length⟩

/-- A fault in the next octet, which counts as read. -/
def Fault.next (kind : Fault.Kind) (rest : Bytes) : Fault := ⟨kind, rest.length - 1⟩

/-- The line after the given octets, from one on. -/
def lineAfter (read : Bytes) : Nat := 1 + read.count 0x0A

/-- The number of octets read on the last line. -/
def columnAfter (read : Bytes) : Nat := (read.reverse.takeWhile (· ≠ 0x0A)).length

/-- The wording of a fault in a text, with its place. -/
def Fault.describe (input : Bytes) (f : Fault) : String :=
  let read := input.take (input.length - f.unread)
  s!"{f.kind.message} at line {lineAfter read} column {columnAfter read}"

end EvalProxy.Json
