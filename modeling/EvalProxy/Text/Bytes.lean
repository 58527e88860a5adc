/-
# Octets and text

Octet strings, their reading as UTF-8 text (strict and lossy) and their hexadecimal writing.

Main statements: `decode?_encode` (text survives the way through octets) and `lossy_encode`
(the lossy reading changes nothing in well-formed text).
-/
namespace EvalProxy

/-- A string of octets. -/
abbrev Bytes := List UInt8

namespace Text

/-! ## Text as octets -/

/-- The UTF-8 octets of a text. -/
def encode (s : String) : Bytes := s.toUTF8.data.toList

/-- The text that the octets spell in UTF-8, if they are well formed. -/
def decode? (bytes : Bytes) : Option String := String.fromUTF8? ⟨bytes.toArray⟩

/-- Reading what was written gives the text back. -/
theorem decode?_encode (s : String) : decode? (encode s) = some s := by
  simp only [decode?, encode, Array.toArray_toList, String.toUTF8_eq_toByteArray]
  rw [String.fromUTF8?, dif_pos s.isValidUTF8]
  rfl

/-- Different texts have different octets. -/
theorem encode_injective {s t : String} (h : encode s = encode t) : s = t := by
  have := decode?_encode s
  rw [h, decode?_encode] at this
  exact (Option.some.inj this).symm

/-! ## Lossy reading -/

/-- The character that stands for octets that spell none. -/
def replacement : Char := '\uFFFD'

/-- A character of which some octets are read: how many are owed, the range of the next one, and
the bits so far. -/
structure Partial where
  owed : Nat
  low : UInt8
  high : UInt8
  code : Nat

/-- What an octet at the start of a character begins: a whole character, a character with more
octets to come, or nothing that UTF-8 allows. -/
def begins (b : UInt8) : Char ⊕ Partial :=
  if b < 0x80 then .inl (Char.ofNat b.toNat)
  else if 0xC2 ≤ b && b ≤ 0xDF then .inr ⟨1, 0x80, 0xBF, b.toNat - 0xC0⟩
  else if b == 0xE0 then .inr ⟨2, 0xA0, 0xBF, 0⟩
  else if b == 0xED then .inr ⟨2, 0x80, 0x9F, 0x0D⟩
  else if 0xE1 ≤ b && b ≤ 0xEF then .inr ⟨2, 0x80, 0xBF, b.toNat - 0xE0⟩
  else if b == 0xF0 then .inr ⟨3, 0x90, 0xBF, 0⟩
  else if b == 0xF4 then .inr ⟨3, 0x80, 0x8F, 4⟩
  else if 0xF1 ≤ b && b ≤ 0xF3 then .inr ⟨3, 0x80, 0xBF, b.toNat - 0xF0⟩
  else .inl replacement

/-- The characters of an octet string, where each longest run of octets that begins a character
without finishing it, and each octet that begins none, becomes one `replacement`. -/
def lossyChars : Option Partial → Bytes → List Char
  | none, [] => []
  | some _, [] => [replacement]
  | none, b :: rest =>
    match begins b with
    | .inl c => c :: lossyChars none rest
    | .inr p => lossyChars (some p) rest
  | some p, b :: rest =>
    if p.low ≤ b && b ≤ p.high then
      let code := p.code * 64 + (b.toNat - 0x80)
      if p.owed ≤ 1 then Char.ofNat code :: lossyChars none rest
      else lossyChars (some ⟨p.owed - 1, 0x80, 0xBF, code⟩) rest
    else
      match begins b with
      | .inl c => replacement :: c :: lossyChars none rest
      | .inr q => replacement :: lossyChars (some q) rest

/-- The text of an octet string, with `replacement` for what is not UTF-8. -/
def lossy (bytes : Bytes) : String :=
  match decode? bytes with
  | some s => s
  | none => String.ofList (lossyChars none bytes)

/-- Well-formed text is read without loss. -/
theorem lossy_encode (s : String) : lossy (encode s) = s := by
  simp [lossy, decode?_encode]

/-! ## Hexadecimal -/

/-- The lower-case hexadecimal digit of a number below sixteen. -/
def hexDigit (n : Nat) : Char :=
  if n < 10 then Char.ofNat (48 + n) else Char.ofNat (87 + n)

/-- The number that a hexadecimal digit of either case stands for. -/
def hexValue? (b : UInt8) : Option Nat :=
  if 0x30 ≤ b && b ≤ 0x39 then some (b.toNat - 0x30)
  else if 0x61 ≤ b && b ≤ 0x66 then some (b.toNat - 0x57)
  else if 0x41 ≤ b && b ≤ 0x46 then some (b.toNat - 0x37)
  else none

/-- The two hexadecimal digits of an octet. -/
def hexOctet (b : UInt8) : List Char := [hexDigit (b.toNat / 16), hexDigit (b.toNat % 16)]

/-- Octets in lower-case hexadecimal. -/
def hex (bytes : Bytes) : String := String.ofList (bytes.flatMap hexOctet)

/-- The octets that a text of paired hexadecimal digits writes. -/
def unhex? : Bytes → Option Bytes
  | [] => some []
  | a :: b :: rest => do
    let high ← hexValue? a
    let low ← hexValue? b
    let tail ← unhex? rest
    some (UInt8.ofNat (high * 16 + low) :: tail)
  | [_] => none

end Text

end EvalProxy
