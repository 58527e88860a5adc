/-
# The octets of characters

A text is written character by character, so its octets are those of its characters one after the
other. An ASCII character is the octet of its code, and every octet of any other character lies
above the ASCII range: what looks like ASCII in the octets is ASCII in the text.

Main statements: `encode_ofList`, `encode_of_decode?`, `octets_of_ascii`, `le_of_mem_octets`.
-/
import EvalProxy.Text.Bytes
namespace EvalProxy.Text

/-- The UTF-8 octets of characters. -/
def octets (cs : List Char) : Bytes := cs.flatMap String.utf8EncodeChar

@[simp] theorem octets_nil : octets [] = [] := rfl

@[simp] theorem octets_cons (c : Char) (cs : List Char) :
    octets (c :: cs) = String.utf8EncodeChar c ++ octets cs := rfl

@[simp] theorem octets_append (cs ds : List Char) : octets (cs ++ ds) = octets cs ++ octets ds :=
  List.flatMap_append

/-- The octets of a text are those of its characters. -/
theorem encode_ofList (cs : List Char) : encode (String.ofList cs) = octets cs := by
  rw [encode, String.toUTF8_eq_toByteArray, String.toByteArray_ofList, List.utf8Encode, octets]
  simp

/-- A text is encoded as the octets of its characters. -/
theorem encode_eq_octets (s : String) : encode s = octets s.toList := by
  rw [← encode_ofList, String.ofList_toList]

/-- Octets that spell a text are the octets of that text. -/
theorem encode_of_decode? {bytes : Bytes} {s : String} (h : decode? bytes = some s) :
    encode s = bytes := by
  rw [decode?, String.fromUTF8?] at h
  split at h
  · obtain rfl := Option.some.inj h
    simp [encode, String.fromUTF8]
  · simp at h

/-! ## One character -/

/-- An ASCII character is one octet, its code. -/
theorem octets_of_ascii {c : Char} (h : c.toNat < 0x80) :
    String.utf8EncodeChar c = [UInt8.ofNat c.toNat] := by
  have hv : c.val.toNat ≤ 0x7f := Nat.le_of_lt_succ h
  simp only [String.utf8EncodeChar, hv, if_true]
  rfl

/-- No octet of a character outside ASCII is an ASCII octet. -/
theorem le_of_mem_octets {c : Char} (h : 0x80 ≤ c.toNat) {b : UInt8}
    (hb : b ∈ String.utf8EncodeChar c) : 0x80 ≤ b := by
  have hv : ¬ c.val.toNat ≤ 0x7f := Nat.not_le.2 h
  rw [UInt8.le_iff_toNat_le]
  simp only [String.utf8EncodeChar, hv, if_false] at hb
  -- two, three or four octets, each with the bit for 0x80 set
  split at hb
  · simp only [List.mem_cons, List.not_mem_nil, or_false] at hb
    rcases hb with rfl | rfl <;> simp <;> omega
  · split at hb <;> simp only [List.mem_cons, List.not_mem_nil, or_false] at hb
    · rcases hb with rfl | rfl | rfl <;> simp <;> omega
    · rcases hb with rfl | rfl | rfl | rfl <;> simp <;> omega

/-- What holds of the octet of every ASCII character in a text, and of all octets above the ASCII
range, holds of every octet of the text. -/
theorem forall_mem_octets {P : UInt8 → Prop} {cs : List Char}
    (low : ∀ c ∈ cs, c.toNat < 0x80 → P (UInt8.ofNat c.toNat)) (high : ∀ b, 0x80 ≤ b → P b) :
    ∀ b ∈ octets cs, P b := by
  intro b hb
  obtain ⟨c, hc, hb⟩ := List.mem_flatMap.1 hb
  by_cases h : c.toNat < 0x80
  · rw [octets_of_ascii h, List.mem_singleton] at hb
    rw [hb]
    exact low c hc h
  · exact high b (le_of_mem_octets (Nat.not_lt.1 h) hb)

end EvalProxy.Text
