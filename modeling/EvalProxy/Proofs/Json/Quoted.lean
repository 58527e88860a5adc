/-
# Strings read back

The reader of JSON strings undoes the writer: escapes stand for their characters, and all other
characters stand for themselves.

Main statement: `readString_quoted`.
-/
import EvalProxy.Json.Lexical
import EvalProxy.Json.Print
import EvalProxy.Proofs.Text.Octets
namespace EvalProxy.Json

open Text (octets)

/-! ## Characters that stand for themselves -/

/-- Whether an octet stands for itself inside a string. -/
def isLiteral (b : UInt8) : Prop := b ≠ 0x22 ∧ b ≠ 0x5C ∧ 0x20 ≤ b

/-- An octet that stands for itself is read as it is. -/
theorem readStringOctets_cons {b : UInt8} (h : isLiteral b) (acc s : Bytes) :
    readStringOctets acc (b :: s) = readStringOctets (b :: acc) s := by
  obtain ⟨hquote, hslash, hcontrol⟩ := h
  have hlow : ¬ b < 0x20 := UInt8.not_lt.2 hcontrol
  rw [readStringOctets.eq_def]
  simp only [hquote, hslash, hlow, if_false]

/-- Octets that stand for themselves are read as they are. -/
theorem readStringOctets_append {os : Bytes} (h : ∀ b ∈ os, isLiteral b) (acc s : Bytes) :
    readStringOctets acc (os ++ s) = readStringOctets (os.reverse ++ acc) s := by
  induction os generalizing acc with
  | nil => rfl
  | cons b os ih =>
    rw [List.cons_append, readStringOctets_cons (h b (by simp)),
      ih (fun x hx => h x (by simp [hx]))]
    simp

/-- The octets of an unescaped character stand for themselves. -/
theorem isLiteral_of_mem {c : Char} (hquote : c ≠ '"') (hslash : c ≠ '\\')
    (hcontrol : ¬ c.toNat < 0x20) : ∀ b ∈ String.utf8EncodeChar c, isLiteral b := by
  intro b hb
  by_cases hascii : c.toNat < 0x80
  · rw [Text.octets_of_ascii hascii, List.mem_singleton] at hb
    have hn : b.toNat = c.toNat := by
      rw [hb]
      simp
      omega
    refine ⟨?_, ?_, ?_⟩
    · rintro rfl
      exact hquote (Char.ext (UInt32.toNat_inj.1 hn.symm))
    · rintro rfl
      exact hslash (Char.ext (UInt32.toNat_inj.1 hn.symm))
    · rw [UInt8.le_iff_toNat_le, hn]
      exact Nat.not_lt.1 hcontrol
  · have hhigh : 0x80 ≤ b := Text.le_of_mem_octets (Nat.not_lt.1 hascii) hb
    rw [UInt8.le_iff_toNat_le] at hhigh
    refine ⟨?_, ?_, ?_⟩
    · rintro rfl
      exact absurd hhigh (by decide)
    · rintro rfl
      exact absurd hhigh (by decide)
    · rw [UInt8.le_iff_toNat_le]
      exact Nat.le_trans (by decide) hhigh

/-! ## Escapes -/

/-- A one-letter escape is read as the octet that it stands for. -/
theorem readStringOctets_escape {e x : UInt8} (h : escaped? e = some x) (acc s : Bytes) :
    readStringOctets acc (0x5C :: e :: s) = readStringOctets (x :: acc) s := by
  rw [readStringOctets.eq_def]
  simp [h]

/-- The hexadecimal escape of a control character spells its code. -/
theorem hex4?_control :
    ∀ n < 0x20, hex4? 0x30 0x30 (UInt8.ofNat (Text.hexDigit (n / 16)).toNat)
      (UInt8.ofNat (Text.hexDigit (n % 16)).toNat) = some n := by
  decide

/-- Hexadecimal digits are ASCII characters. -/
theorem hexDigit_ascii : ∀ n < 16, (Text.hexDigit n).toNat < 0x80 := by
  decide

/-- A hexadecimal escape of a control character is read as that character. -/
theorem readStringOctets_control {c : Char} (h : c.toNat < 0x20) (acc s : Bytes) :
    readStringOctets acc
        (octets ['\\', 'u', '0', '0', Text.hexDigit (c.toNat / 16), Text.hexDigit (c.toNat % 16)]
          ++ s)
      = readStringOctets ((String.utf8EncodeChar c).reverse ++ acc) s := by
  have hhigh := Text.octets_of_ascii (hexDigit_ascii (c.toNat / 16) (by omega))
  have hlow := Text.octets_of_ascii (hexDigit_ascii (c.toNat % 16) (by omega))
  -- a control character is no half of a pair
  have hlowSurrogate : isLowSurrogate c.toNat = false := by
    simp [isLowSurrogate]
    omega
  have hhighSurrogate : isHighSurrogate c.toNat = false := by
    simp [isHighSurrogate]
    omega
  simp only [Text.octets_cons, Text.octets_nil, hhigh, hlow]
  show readStringOctets acc (0x5C :: 0x75 :: 0x30 :: 0x30 :: _ :: _ :: s) = _
  rw [readStringOctets]
  simp [escaped?, hex4?_control c.toNat h, hlowSurrogate, hhighSurrogate, pushCode]

/-! ## Strings -/

/-- Reading an escaped character puts the octets of the character before those already read. -/
theorem readStringOctets_escapeChar (c : Char) (acc s : Bytes) :
    readStringOctets acc (octets (escapeChar c) ++ s)
      = readStringOctets ((String.utf8EncodeChar c).reverse ++ acc) s := by
  unfold escapeChar
  split
  -- seven characters have an escape of one letter
  · subst c
    exact readStringOctets_escape rfl acc s
  split
  · subst c
    exact readStringOctets_escape rfl acc s
  split
  · subst c
    exact readStringOctets_escape rfl acc s
  split
  · subst c
    exact readStringOctets_escape rfl acc s
  split
  · subst c
    exact readStringOctets_escape rfl acc s
  split
  · subst c
    exact readStringOctets_escape rfl acc s
  split
  · subst c
    exact readStringOctets_escape rfl acc s
  split
  -- the other control characters are spelt in hexadecimal
  · rename_i hcontrol
    exact readStringOctets_control hcontrol acc s
  -- all others stand for themselves
  · rename_i hquote hslash _ _ _ _ _ hcontrol
    rw [Text.octets_cons, Text.octets_nil, List.append_nil]
    exact readStringOctets_append (isLiteral_of_mem hquote hslash hcontrol) acc s

/-- Escaped characters are read back up to the closing quote. -/
theorem readStringOctets_escaped (cs : List Char) (acc s : Bytes) :
    readStringOctets acc (octets (cs.flatMap escapeChar) ++ 0x22 :: s)
      = .ok (acc.reverse ++ octets cs, s) := by
  induction cs generalizing acc with
  | nil =>
    rw [List.flatMap_nil, Text.octets_nil, List.nil_append, readStringOctets.eq_def]
    simp
  | cons c cs ih =>
    rw [List.flatMap_cons, Text.octets_append, List.append_assoc, readStringOctets_escapeChar, ih]
    simp

/-- **A quoted text reads back** as the text, up to its closing quote. -/
theorem readString_quoted (t : String) (rest : Bytes) :
    readString (octets (t.toList.flatMap escapeChar) ++ 0x22 :: rest) = .ok (t, rest) := by
  have hdecode : Text.decode? (octets t.toList) = some t := by
    rw [← Text.encode_eq_octets, Text.decode?_encode]
  simp only [readString, readStringOctets_escaped, bind, Except.bind, List.reverse_nil,
    List.nil_append, hdecode]

/-- The octets of a quoted text: a quote, the escaped characters, and a quote. -/
theorem octets_quoted (t : String) (cs : List Char) :
    octets (quoted t ++ cs)
      = 0x22 :: (octets (t.toList.flatMap escapeChar) ++ 0x22 :: octets cs) := by
  simp [quoted]
  rfl

end EvalProxy.Json
