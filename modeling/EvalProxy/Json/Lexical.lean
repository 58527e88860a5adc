/-
# Words, strings and numbers of JSON text

Readers for the scalars of JSON on octet strings. Each returns what it read and the octets after it.
A reader that ends early reports the fault at the octet where it can tell.

Main definitions: `readWord`, `readString`, `readNumber`.
-/
import EvalProxy.Json.Basic
import EvalProxy.Json.Fault
import EvalProxy.Decimal.Scale
namespace EvalProxy.Json

/-! ## Blanks and words -/

/-- Whether an octet is a blank between JSON tokens. -/
def isJsonBlank (b : UInt8) : Bool := b == 0x20 || b == 0x0A || b == 0x09 || b == 0x0D

/-- The octets from the first that is no blank. -/
def skipBlanks (s : Bytes) : Bytes := s.dropWhile isJsonBlank

/-- The rest of a word whose first letter is read. -/
def readWord : Bytes → Bytes → Except Fault Bytes
  | [], s => .ok s
  | _ :: _, [] => .error (.at .eofInValue [])
  | w :: word, b :: s => if w = b then readWord word s else .error (.at .expectedWord s)

/-- The letters of `null` after the first. -/
def nullTail : Bytes := [0x75, 0x6C, 0x6C]

/-- The letters of `true` after the first. -/
def trueTail : Bytes := [0x72, 0x75, 0x65]

/-- The letters of `false` after the first. -/
def falseTail : Bytes := [0x61, 0x6C, 0x73, 0x65]

/-! ## Strings -/

/-- The octet that a one-letter escape stands for. -/
def escaped? (b : UInt8) : Option UInt8 :=
  if b = 0x22 || b = 0x5C || b = 0x2F then some b
  else if b = 0x62 then some 0x08
  else if b = 0x66 then some 0x0C
  else if b = 0x6E then some 0x0A
  else if b = 0x72 then some 0x0D
  else if b = 0x74 then some 0x09
  else none

/-- The number that four hexadecimal digits write. -/
def hex4? (a b c d : UInt8) : Option Nat := do
  let a ← Text.hexValue? a
  let b ← Text.hexValue? b
  let c ← Text.hexValue? c
  let d ← Text.hexValue? d
  some (((a * 16 + b) * 16 + c) * 16 + d)

/-- Whether a code unit is the first half of a surrogate pair. -/
def isHighSurrogate (n : Nat) : Bool := 0xD800 ≤ n && n ≤ 0xDBFF

/-- Whether a code unit is the second half of a surrogate pair. -/
def isLowSurrogate (n : Nat) : Bool := 0xDC00 ≤ n && n ≤ 0xDFFF

/-- The code point of a surrogate pair. -/
def pairedCode (high low : Nat) : Nat := 0x10000 + (high - 0xD800) * 1024 + (low - 0xDC00)

/-- The octets of a code point, last first, before those already read. -/
def pushCode (code : Nat) (acc : Bytes) : Bytes :=
  (String.utf8EncodeChar (Char.ofNat code)).reverse ++ acc

/-- The octets of a string up to its closing quote; `acc` holds those already read, last first. -/
def readStringOctets (acc : Bytes) : Bytes → Except Fault (Bytes × Bytes)
  | [] => .error (.at .eofInString [])
  | b :: s =>
    if b = 0x22 then .ok (acc.reverse, s)
    else if b = 0x5C then
      match s with
      | [] => .error (.at .eofInString [])
      | e :: s =>
        match escaped? e with
        | some x => readStringOctets (x :: acc) s
        | none =>
          if e = 0x75 then
            match s with
            | h₁ :: h₂ :: h₃ :: h₄ :: s =>
              match hex4? h₁ h₂ h₃ h₄ with
              | none => .error (.at .badEscape s)
              | some n =>
                if isLowSurrogate n then .error (.at .loneSurrogate s)
                else if isHighSurrogate n then
                  -- the escape of the second half must follow at once
                  match s with
                  | [] => .error (.at .eofInString [])
                  | x :: s =>
                    if x ≠ 0x5C then .error (.at .hexEscapeEnds s)
                    else
                      match s with
                      | [] => .error (.at .eofInString [])
                      | y :: s =>
                        if y ≠ 0x75 then .error (.at .hexEscapeEnds s)
                        else
                          match s with
                          | l₁ :: l₂ :: l₃ :: l₄ :: s =>
                            match hex4? l₁ l₂ l₃ l₄ with
                            | none => .error (.at .badEscape s)
                            | some m =>
                              if isLowSurrogate m then
                                readStringOctets (pushCode (pairedCode n m) acc) s
                              else .error (.at .loneSurrogate s)
                          | _ => .error (.at .eofInString [])
                else readStringOctets (pushCode n acc) s
            | _ => .error (.at .eofInString [])
          else .error (.at .badEscape s)
    else if b < 0x20 then .error (.at .controlCharacter s)
    else readStringOctets (b :: acc) s

/-- A string whose opening quote is read. Octets that are no UTF-8 are a fault before the closing
quote. -/
def readString (s : Bytes) : Except Fault (String × Bytes) := do
  let (octets, rest) ← readStringOctets [] s
  match Text.decode? octets with
  | some t => .ok (t, rest)
  | none => .error (.at .badCodePoint (0x22 :: rest))

/-- Skips a string whose opening quote is read: its escapes must have their form, but need not spell
characters. -/
def skipString : Bytes → Except Fault Bytes
  | [] => .error (.at .eofInString [])
  | b :: s =>
    if b = 0x22 then .ok s
    else if b = 0x5C then
      match s with
      | [] => .error (.at .eofInString [])
      | e :: s =>
        if (escaped? e).isSome then skipString s
        else if e = 0x75 then
          match s with
          | h₁ :: h₂ :: h₃ :: h₄ :: s =>
            if (hex4? h₁ h₂ h₃ h₄).isSome then skipString s else .error (.at .badEscape s)
          | _ => .error (.at .eofInString [])
        else .error (.at .badEscape s)
    else if b < 0x20 then .error (.at .controlCharacter s)
    else skipString s

/-! ## Numbers -/

/-- Whether an octet is a decimal digit. -/
def isDigit (b : UInt8) : Bool := 0x30 ≤ b && b ≤ 0x39

/-- The value of a decimal digit. -/
def digitValue (b : UInt8) : Nat := b.toNat - 0x30

/-- The largest significand that is kept. -/
def maxSignificand : Nat := UInt64.size - 1

/-- Takes digits into a significand while they fit: the significand and how many were taken. -/
def absorb (significand : Nat) : Bytes → Nat × Nat
  | [] => (significand, 0)
  | d :: rest =>
    let next := significand * 10 + digitValue d
    if next ≤ maxSignificand then
      let (s, n) := absorb next rest
      (s, n + 1)
    else (significand, 0)

/-- A number as read: an integer, or a float. -/
inductive Numeral where
  | int (n : Int)
  | float (x : Float)

/-- The value of a numeral. -/
def Numeral.toJson : Numeral → Json
  | .int n => .int n
  | .float x => .float x

/-- The float `± significand * 10 ^ exponent` that ends before `rest`. -/
def scaled (negative : Bool) (significand : Nat) (exponent : Int) (rest : Bytes) :
    Except Fault (Numeral × Bytes) :=
  match Decimal.scale? (UInt64.ofNat significand) exponent with
  | some x => .ok (.float (if negative then -x else x), rest)
  | none => .error (.at .numberTooLarge rest)

/-- The largest exponent that is told from a larger one. -/
def maxExponent : Nat := Int32.maxValue.toInt.toNat

/-- The digits of an exponent after the first: the exponent, or the octets after the digit that made
it too large. -/
def exponentDigits (exponent : Nat) : Bytes → (Nat ⊕ Unit) × Bytes
  | [] => (.inl exponent, [])
  | d :: s =>
    if isDigit d then
      let next := exponent * 10 + digitValue d
      if next ≤ maxExponent then exponentDigits next s else (.inr (), s)
    else (.inl exponent, d :: s)

/-- The exponent after its letter, for a significand that already carries a power of ten. -/
def readExponent (negative : Bool) (significand : Nat) (start : Int) (s : Bytes) :
    Except Fault (Numeral × Bytes) :=
  let (down, s) := match s with
    | 0x2B :: s => (false, s)
    | 0x2D :: s => (true, s)
    | s => (false, s)
  match s with
  | [] => .error (.at .eofInValue [])
  | d :: s =>
    if isDigit d then
      match exponentDigits (digitValue d) s with
      | (.inl e, s) => scaled negative significand (if down then start - e else start + e) s
      | (.inr _, s) =>
        -- no digit of the significand can make up for such an exponent
        if significand ≠ 0 && !down then .error (.at .numberTooLarge s)
        else .ok (.float (if negative then -0.0 else 0.0), s.dropWhile isDigit)
    else .error (.at .badNumber s)

/-- Whether an octet begins an exponent. -/
def isExponentLetter (b : UInt8) : Bool := b == 0x65 || b == 0x45

/-- The fraction after its point. -/
def readFraction (negative : Bool) (significand : Nat) (start : Int) (s : Bytes) :
    Except Fault (Numeral × Bytes) :=
  let digits := s.takeWhile isDigit
  let rest := s.dropWhile isDigit
  if digits.isEmpty then
    match rest with
    | [] => .error (.next .eofInValue rest)
    | _ :: _ => .error (.next .badNumber rest)
  else
    let (significand, taken) := absorb significand digits
    let exponent := start - taken
    match rest with
    | b :: after =>
      if isExponentLetter b then readExponent negative significand exponent after
      else scaled negative significand exponent rest
    | [] => scaled negative significand exponent rest

/-- An integer literal as a value: a negative one that is zero or too large is a float. -/
def integerNumeral (negative : Bool) (n : Nat) : Numeral :=
  if negative then
    if n = 0 || -n < Int64.minValue.toInt then .float (-(UInt64.ofNat n).toFloat) else .int (-n)
  else .int n

/-- What follows the whole part of a number; `dropped` of its digits did not fit. -/
def readAfterWhole (negative : Bool) (significand dropped : Nat) (s : Bytes) :
    Except Fault (Numeral × Bytes) :=
  let plain : Except Fault (Numeral × Bytes) :=
    if dropped = 0 then .ok (integerNumeral negative significand, s)
    else scaled negative significand dropped s
  match s with
  | [] => plain
  | b :: rest =>
    if b = 0x2E then readFraction negative significand dropped rest
    else if isExponentLetter b then readExponent negative significand dropped rest
    else plain

/-- A number whose sign is read. -/
def readNumber (negative : Bool) (s : Bytes) : Except Fault (Numeral × Bytes) :=
  match s with
  | [] => .error (.at .eofInValue [])
  | d :: rest =>
    -- no digit may follow a leading zero
    if d = 0x30 then
      match rest with
      | e :: _ =>
        if isDigit e then .error (.next .badNumber rest) else readAfterWhole negative 0 0 rest
      | [] => readAfterWhole negative 0 0 rest
    else if isDigit d then
      let digits := s.takeWhile isDigit
      let (significand, taken) := absorb 0 digits
      readAfterWhole negative significand (digits.length - taken) (s.dropWhile isDigit)
    else .error (.at .badNumber rest)

/-- Skips the digits of an exponent after its letter. -/
def skipExponent (s : Bytes) : Except Fault Bytes :=
  let s := match s with
    | 0x2B :: s => s
    | 0x2D :: s => s
    | s => s
  match s with
  | [] => .error (.at .badNumber [])
  | d :: s => if isDigit d then .ok (s.dropWhile isDigit) else .error (.at .badNumber s)

/-- Skips what follows the whole part of a number. -/
def skipAfterWhole (s : Bytes) : Except Fault Bytes :=
  match s with
  | [] => .ok []
  | b :: rest =>
    if b = 0x2E then
      let after := rest.dropWhile isDigit
      if (rest.takeWhile isDigit).isEmpty then .error (.next .badNumber rest)
      else
        match after with
        | e :: more => if isExponentLetter e then skipExponent more else .ok after
        | [] => .ok []
    else if isExponentLetter b then skipExponent rest
    else .ok s

/-- Skips a number whose sign is read. -/
def skipNumber (s : Bytes) : Except Fault Bytes :=
  match s with
  | [] => .error (.at .badNumber [])
  | d :: rest =>
    if d = 0x30 then
      match rest with
      | e :: _ => if isDigit e then .error (.next .badNumber rest) else skipAfterWhole rest
      | [] => .ok []
    else if isDigit d then skipAfterWhole (rest.dropWhile isDigit)
    else .error (.at .badNumber rest)

end EvalProxy.Json
