/-
# Maps of texts read back

The text of an object whose members are all texts reads back, as a dictionary of texts, as the same
members.

Main statement: `parse_textMembers`.
-/
import EvalProxy.Json.Typed
import EvalProxy.Proofs.Dict
import EvalProxy.Proofs.Json.Quoted
namespace EvalProxy.Json

open Text (octets)

/-- The member that an entry of a map of texts makes. -/
def textMember (e : String × String) : String × Json := (e.1, .text e.2)

/-- The octets of a member after its opening quote, up to what follows its value. -/
def memberOctets (e : String × String) (rest : Bytes) : Bytes :=
  octets (e.1.toList.flatMap escapeChar)
    ++ 0x22 :: 0x3A :: 0x22 :: (octets (e.2.toList.flatMap escapeChar) ++ 0x22 :: rest)

theorem skipBlanks_cons {b : UInt8} (h : isJsonBlank b = false) (s : Bytes) :
    skipBlanks (b :: s) = b :: s := by
  rw [skipBlanks, List.dropWhile_cons, h]
  rfl

/-! ## What is written -/

theorem octets_compactMember (e : String × String) (cs : List Char) :
    octets (quoted e.1 ++ ':' :: compactChars (.text e.2) ++ cs)
      = 0x22 :: memberOctets e (octets cs) := by
  rw [List.append_assoc, octets_quoted, List.cons_append, Text.octets_cons, compactChars,
    scalarChars, octets_quoted]
  rfl

theorem octets_compactMembersTail_cons (e : String × String) (es : List (String × String)) :
    octets (compactMembersTail ((e :: es).map textMember))
      = 0x2C :: 0x22 :: memberOctets e (octets (compactMembersTail (es.map textMember))) := by
  rw [List.map_cons, textMember, compactMembersTail, List.cons_append, List.cons_append,
    Text.octets_cons, octets_compactMember]
  rfl

/-- No member takes up less than an octet. -/
theorem length_le_octets_tail (es : List (String × String)) :
    es.length ≤ (octets (compactMembersTail (es.map textMember))).length := by
  induction es with
  | nil => simp
  | cons e es ih =>
    rw [octets_compactMembersTail_cons, memberOctets]
    simp only [List.length_cons, List.length_append]
    omega

/-! ## What is read -/

/-- A text in quotes is read back where one is expected. -/
theorem readShape_text (fuel depth : Nat) (t : String) (rest : Bytes) :
    readShape (fuel + 1) depth .text
        (0x22 :: (octets (t.toList.flatMap escapeChar) ++ 0x22 :: rest))
      = .ok (.text t, rest) := by
  rw [readShape, skipBlanks_cons rfl]
  simp only [readScalar, skipBlanks_cons (b := 0x22) rfl, if_true]
  rw [readString_quoted]
  rfl

/-- A member is read with its text, and then the members after it. -/
theorem readShapeValues_member {fuel depth : Nat} {first : Bool} {s : Bytes} (rest : Bytes)
    {e : String × String} {members : List (String × Json)} {after : Bytes}
    (hnext : nextMember first s = .ok (.more (memberOctets e rest)))
    (hrest : readShapeValues (fuel + 1) depth .text false rest = .ok (members, after)) :
    readShapeValues (fuel + 2) depth .text first s = .ok (textMember e :: members, after) := by
  have hcolon (s : Bytes) : readColon (0x3A :: s) = .ok s := by
    rw [readColon, skipBlanks_cons rfl]
    rfl
  rw [readShapeValues, hnext]
  simp only [bind, Except.bind]
  rw [memberOctets, readString_quoted]
  simp only [hcolon, readShape_text, hrest]
  rfl

/-- The further members of a map of texts are read back in order. -/
theorem readShapeValues_tail (es : List (String × String)) (depth : Nat) (rest : Bytes) :
    ∀ fuel, es.length + 1 ≤ fuel →
      readShapeValues fuel depth .text false
          (octets (compactMembersTail (es.map textMember)) ++ rest)
        = .ok (es.map textMember, rest) := by
  induction es with
  | nil =>
    intro fuel hfuel
    obtain ⟨fuel, rfl⟩ : ∃ n, fuel = n + 1 := ⟨fuel - 1, by simp at hfuel; omega⟩
    have hnext : nextMember false (octets (compactMembersTail []) ++ rest)
        = .ok (.finished rest) := by
      show nextMember false (0x7D :: rest) = _
      rw [nextMember, skipBlanks_cons rfl]
      rfl
    rw [List.map_nil, readShapeValues, hnext]
    rfl
  | cons e es ih =>
    intro fuel hfuel
    simp only [List.length_cons] at hfuel
    -- a member takes one step, and one is left for the brace behind all of them
    obtain ⟨fuel, rfl⟩ : ∃ n, fuel = n + 2 := ⟨fuel - 2, by omega⟩
    rw [octets_compactMembersTail_cons]
    refine readShapeValues_member (octets (compactMembersTail (es.map textMember)) ++ rest)
      ?_ (ih (fuel + 1) (by omega))
    show nextMember false (0x2C :: 0x22 :: _) = _
    rw [nextMember, skipBlanks_cons rfl]
    simp only [if_true, skipBlanks_cons (b := 0x22) rfl, memberOctets]
    simp

/-- The members of an object of texts are read back in their order. -/
theorem readShapeValues_compact (es : List (String × String)) (depth : Nat) (rest : Bytes)
    (fuel : Nat) (hfuel : es.length + 1 ≤ fuel) :
    readShapeValues fuel depth .text true (octets (compactMembers (es.map textMember)) ++ rest)
      = .ok (es.map textMember, rest) := by
  cases es with
  | nil =>
    obtain ⟨fuel, rfl⟩ : ∃ n, fuel = n + 1 := ⟨fuel - 1, by simp at hfuel; omega⟩
    have hnext : nextMember true (octets (compactMembers []) ++ rest) = .ok (.finished rest) := by
      show nextMember true (0x7D :: rest) = _
      rw [nextMember, skipBlanks_cons rfl]
      rfl
    rw [List.map_nil, readShapeValues, hnext]
    rfl
  | cons e es =>
    simp only [List.length_cons] at hfuel
    obtain ⟨fuel, rfl⟩ : ∃ n, fuel = n + 2 := ⟨fuel - 2, by omega⟩
    rw [List.map_cons, textMember, compactMembers, octets_compactMember]
    refine readShapeValues_member (octets (compactMembersTail (es.map textMember)) ++ rest)
      ?_ (readShapeValues_tail es depth rest (fuel + 1) (by omega))
    show nextMember true (0x22 :: _) = _
    rw [nextMember, skipBlanks_cons rfl]
    simp [memberOctets]

/-- **The text of an object of texts reads back** as the object, its members in key order. -/
theorem parse_textMembers (es : List (String × String)) :
    (Shape.dict .text).parse (Text.encode (object (es.map textMember)).compact)
      = .ok (ofMembers (es.map textMember)) := by
  have hoctets : Text.encode (object (es.map textMember)).compact
      = 0x7B :: octets (compactMembers (es.map textMember)) := by
    rw [compact, Text.encode_ofList, compactChars, Text.octets_cons]
    rfl
  -- the steps that a parser may take go by the length of its input
  have hlength : es.length ≤ (octets (compactMembers (es.map textMember))).length := by
    cases es with
    | nil => simp
    | cons e es =>
      rw [List.map_cons, textMember, compactMembers, octets_compactMember, memberOctets]
      have := length_le_octets_tail es
      simp only [List.length_cons, List.length_append]
      omega
  have hvalues := readShapeValues_compact es (maxDepth - 1) []
    (4 * (octets (compactMembers (es.map textMember))).length + 7) (by omega)
  rw [List.append_nil] at hvalues
  rw [Shape.parse, hoctets, List.length_cons, Nat.mul_add, readShape, skipBlanks_cons rfl]
  simp only [bind, Except.bind, if_true]
  rw [if_neg (by decide), hvalues]
  rfl

end EvalProxy.Json
