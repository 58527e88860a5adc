/-
# Compact text has one reading

No two values have the same compact text, and no text starts with the texts of two values, as long
as a number is not followed by more of the characters that numbers consist of. Inside arrays and
objects it never is: a comma or a closing bracket follows.

Main definitions: `Closed`, `OneReading`.
Main statements: `oneReading`, `compact_inj`.
-/
import EvalProxy.Proofs.Decimal.Layout
import EvalProxy.Proofs.Json.Canonical
import EvalProxy.Proofs.Json.Quoted
namespace EvalProxy.Json

open Decimal (Numeric Digital isNumberChar)

/-! ## Where a value ends -/

/-- Whether no number goes on in the text. -/
def Closed (s : List Char) : Prop := ∀ c rest, s = c :: rest → isNumberChar c = false

theorem closed_nil : Closed [] := nofun

/-- Where the next character is none of a number, no number goes on. -/
theorem closed_cons {c : Char} (h : isNumberChar c = false) (rest : List Char) :
    Closed (c :: rest) := by
  intro d rest' heq
  obtain ⟨rfl, -⟩ := List.cons.inj heq
  exact h

/-- A number ends where the text is closed. -/
theorem eq_of_numeric_append {xs ys s t : List Char} (hx : Numeric xs) (hy : Numeric ys)
    (hs : Closed s) (ht : Closed t) (h : xs ++ s = ys ++ t) : xs = ys ∧ s = t := by
  induction xs generalizing ys with
  | nil =>
    cases ys with
    | nil => exact ⟨rfl, h⟩
    | cons y ys =>
      have hchar := (Decimal.numeric_cons.1 hy).1
      rw [hs y _ h] at hchar
      cases hchar
  | cons x xs ih =>
    cases ys with
    | nil =>
      have hchar := (Decimal.numeric_cons.1 hx).1
      rw [ht x _ h.symm] at hchar
      cases hchar
    | cons y ys =>
      obtain ⟨rfl, hrest⟩ := List.cons.inj h
      obtain ⟨rfl, rfl⟩ := ih (Decimal.numeric_cons.1 hx).2 (Decimal.numeric_cons.1 hy).2 hrest
      exact ⟨rfl, rfl⟩

/-- The text of a string says where the string ends. -/
theorem eq_of_quoted_append {k l : String} {s t : List Char} (h : quoted k ++ s = quoted l ++ t) :
    k = l ∧ s = t := by
  have hoctets := congrArg Text.octets h
  rw [octets_quoted, octets_quoted] at hoctets
  have hread := congrArg readString (List.cons.inj hoctets).2
  rw [readString_quoted, readString_quoted] at hread
  obtain ⟨rfl, hrest⟩ := Prod.mk.inj (Except.ok.inj hread)
  refine ⟨rfl, String.ofList_injective (Text.encode_injective ?_)⟩
  rw [Text.encode_ofList, Text.encode_ofList, hrest]

/-! ## Numbers -/

theorem numeric_intChars (n : Int) : Numeric (intChars n) := by
  have hdigits := (Decimal.digital_decimalDigits n.natAbs).numeric
  unfold intChars
  split
  · exact Decimal.numeric_cons.2 ⟨rfl, hdigits⟩
  · exact hdigits

/-- The text of a whole number holds no point and no exponent. -/
theorem not_mem_intChars (n : Int) {c : Char} (hdigit : c.isDigit = false) (hsign : c ≠ '-') :
    c ∉ intChars n := by
  have hdigits := (Decimal.digital_decimalDigits n.natAbs).not_mem hdigit
  unfold intChars
  split
  · exact fun hmem => (List.mem_cons.1 hmem).elim hsign hdigits
  · exact hdigits

/-- Different integers are written differently. -/
theorem intChars_inj {m n : Int} (h : intChars m = intChars n) : m = n := by
  -- digits are no sign
  have hsign (a b : Nat) : '-' :: Decimal.decimalDigits a ≠ Decimal.decimalDigits b := by
    intro heq
    have hmem : '-' ∈ Decimal.decimalDigits b := by simp [← heq]
    exact (Decimal.digital_decimalDigits b).not_mem rfl hmem
  unfold intChars at h
  split at h
  · split at h
    · have := Decimal.decimalDigits_inj (List.cons.inj h).2
      omega
    · exact absurd h (hsign _ _)
  · split at h
    · exact absurd h.symm (hsign _ _)
    · have := Decimal.decimalDigits_inj h
      omega

/-- A finite float is written in its decimal layout. -/
theorem floatChars_of_isFinite {x : Float} (h : x.isFinite = true) :
    floatChars x = Decimal.Layout.json.writeChars x := by
  rw [floatChars, Decimal.not_isNaN_of_isFinite h, Decimal.not_isInf_of_isFinite h]
  rfl

/-- Whole numbers and floats have different texts. -/
theorem intChars_ne_writeChars (n : Int) (x : Float) :
    intChars n ≠ Decimal.Layout.json.writeChars x := by
  intro heq
  rcases Decimal.mark_mem_writeChars x with hmem | hmem
  · exact not_mem_intChars n (by decide) (by decide) (heq ▸ hmem)
  · exact not_mem_intChars n (by decide) (by decide) (heq ▸ hmem)

/-! ## Values by their first character -/

/-- The kinds of values that differ in their first character. -/
inductive Kind where
  | null
  | bool
  | number
  | text
  | array
  | object

/-- The kind of a value. -/
def kind : Json → Kind
  | null => .null
  | bool _ => .bool
  | int _ => .number
  | float _ => .number
  | text _ => .text
  | array _ => .array
  | object _ => .object

/-- The kind of value that a character announces. -/
def announced? (c : Char) : Option Kind :=
  if c.isDigit || c == '-' then some .number
  else if c == 'n' then some .null
  else if c == 't' || c == 'f' then some .bool
  else if c == '"' then some .text
  else if c == '[' then some .array
  else if c == '{' then some .object
  else none

/-- A digit announces a number. -/
theorem announced?_of_isDigit {c : Char} (h : c.isDigit = true) : announced? c = some .number := by
  rw [announced?, h]
  rfl

/-- The first character of a text announces the kind of the value. -/
theorem announced?_compactChars {v : Json} (h : v.Proper) :
    ∃ c cs, compactChars v = c :: cs ∧ announced? c = some v.kind := by
  cases h with
  | null => exact ⟨_, _, rfl, rfl⟩
  | bool b => cases b <;> exact ⟨_, _, rfl, rfl⟩
  | int n =>
    have hdigits := Decimal.digital_decimalDigits n.natAbs
    obtain ⟨d, rest, hd⟩ : ∃ d rest, Decimal.decimalDigits n.natAbs = d :: rest :=
      List.exists_cons_of_ne_nil Nat.toDigits_ne_nil
    show ∃ c cs, intChars n = c :: cs ∧ _
    unfold intChars
    split
    · exact ⟨_, _, rfl, rfl⟩
    · exact ⟨d, rest, hd, announced?_of_isDigit (hdigits d (by simp [hd]))⟩
  | @float x hx =>
    obtain ⟨c, cs, hchars, hc⟩ := Decimal.isDigit_head_unsignedChars x
    show ∃ c cs, floatChars x = c :: cs ∧ _
    rw [floatChars_of_isFinite hx, Decimal.Layout.writeChars_eq]
    split
    · exact ⟨_, _, rfl, rfl⟩
    · exact ⟨c, cs, hchars, announced?_of_isDigit hc⟩
  | text s => exact ⟨_, _, rfl, rfl⟩
  | array _ => exact ⟨_, _, rfl, rfl⟩
  | object _ _ => exact ⟨_, _, rfl, rfl⟩

/-- Texts that agree are those of values of one kind. -/
theorem kind_eq {v w : Json} (hv : v.Proper) (hw : w.Proper) {s t : List Char}
    (h : compactChars v ++ s = compactChars w ++ t) : v.kind = w.kind := by
  obtain ⟨c, cs, hc, hcv⟩ := announced?_compactChars hv
  obtain ⟨d, ds, hd, hdw⟩ := announced?_compactChars hw
  rw [hc, hd] at h
  obtain ⟨rfl, -⟩ := List.cons.inj h
  rw [hcv] at hdw
  exact Option.some.inj hdw

/-- No value starts with the bracket that closes an array. -/
theorem exists_ne_bracket {v : Json} (h : v.Proper) :
    ∃ c cs, compactChars v = c :: cs ∧ c ≠ ']' := by
  obtain ⟨c, cs, hchars, hkind⟩ := announced?_compactChars h
  refine ⟨c, cs, hchars, ?_⟩
  rintro rfl
  cases hkind

/-! ## Lists of pieces -/

section Pieces

variable {α : Type} (piece : α → List Char) (stop : Char)

/-- Pieces, each behind a comma, and a closing bracket. -/
def morePieces : List α → List Char
  | [] => [stop]
  | a :: rest => ',' :: piece a ++ morePieces rest

/-- Pieces with commas between them, and a closing bracket. -/
def pieces : List α → List Char
  | [] => [stop]
  | a :: rest => piece a ++ morePieces piece stop rest

variable {piece stop}

theorem closed_morePieces (hstop : isNumberChar stop = false) (as : List α) (s : List Char) :
    Closed (morePieces piece stop as ++ s) := by
  cases as with
  | nil => exact closed_cons hstop s
  | cons a rest => exact closed_cons rfl _

variable {as bs : List α}
  (hstop : isNumberChar stop = false) (hcomma : stop ≠ ',')
  (hpiece : ∀ a ∈ as, ∀ b ∈ bs, ∀ s t, Closed s → Closed t → piece a ++ s = piece b ++ t →
    a = b ∧ s = t)

include hstop hcomma hpiece

/-- Pieces behind commas have one reading if the pieces have. -/
theorem eq_of_morePieces_append {s t : List Char}
    (h : morePieces piece stop as ++ s = morePieces piece stop bs ++ t) : as = bs ∧ s = t := by
  induction as generalizing bs with
  | nil =>
    cases bs with
    | nil => exact ⟨rfl, (List.cons.inj h).2⟩
    | cons b bs => exact absurd (List.cons.inj h).1 hcomma
  | cons a as ih =>
    cases bs with
    | nil => exact absurd (List.cons.inj h).1.symm hcomma
    | cons b bs =>
      have h : piece a ++ morePieces piece stop as ++ s
          = piece b ++ morePieces piece stop bs ++ t := (List.cons.inj h).2
      rw [List.append_assoc, List.append_assoc] at h
      obtain ⟨rfl, hrest⟩ := hpiece a (by simp) b (by simp) _ _ (closed_morePieces hstop as s)
        (closed_morePieces hstop bs t) h
      obtain ⟨rfl, rfl⟩ := ih (fun a' ha b' hb => hpiece a' (by simp [ha]) b' (by simp [hb])) hrest
      exact ⟨rfl, rfl⟩

/-- Pieces with commas between them have one reading if no piece starts with the bracket. -/
theorem eq_of_pieces_append {s t : List Char}
    (hstart : ∀ a ∈ as ++ bs, ∃ c cs, piece a = c :: cs ∧ c ≠ stop)
    (h : pieces piece stop as ++ s = pieces piece stop bs ++ t) : as = bs ∧ s = t := by
  -- a piece is not taken for the bracket
  have hbracket {a : α} (ha : a ∈ as ++ bs) (u w : List Char) : piece a ++ u ≠ stop :: w := by
    obtain ⟨c, cs, hc, hne⟩ := hstart a ha
    rw [hc]
    exact fun heq => hne (List.cons.inj heq).1
  cases as with
  | nil =>
    cases bs with
    | nil => exact ⟨rfl, (List.cons.inj h).2⟩
    | cons b bs =>
      rw [pieces, pieces, List.append_assoc] at h
      exact absurd h.symm (hbracket (by simp) _ _)
  | cons a as =>
    cases bs with
    | nil =>
      rw [pieces, pieces, List.append_assoc] at h
      exact absurd h (hbracket (by simp) _ _)
    | cons b bs =>
      rw [pieces, pieces, List.append_assoc, List.append_assoc] at h
      obtain ⟨rfl, hrest⟩ := hpiece a (by simp) b (by simp) _ _ (closed_morePieces hstop as s)
        (closed_morePieces hstop bs t) h
      obtain ⟨rfl, rfl⟩ := eq_of_morePieces_append hstop hcomma
        (fun a' ha b' hb => hpiece a' (by simp [ha]) b' (by simp [hb])) hrest
      exact ⟨rfl, rfl⟩

end Pieces

/-- A member: its key in quotes, a colon and its value. -/
def memberChars (m : String × Json) : List Char := quoted m.1 ++ ':' :: compactChars m.2

theorem compactItemsTail_eq (items : List Json) :
    compactItemsTail items = morePieces compactChars ']' items := by
  induction items with
  | nil => rfl
  | cons v rest ih => rw [compactItemsTail, ih, morePieces]

theorem compactItems_eq (items : List Json) :
    compactItems items = pieces compactChars ']' items := by
  cases items with
  | nil => rfl
  | cons v rest => rw [compactItems, compactItemsTail_eq, pieces]

theorem compactMembersTail_eq (members : List (String × Json)) :
    compactMembersTail members = morePieces memberChars '}' members := by
  induction members with
  | nil => rfl
  | cons m rest ih =>
    rw [compactMembersTail, ih, morePieces, memberChars]
    simp

theorem compactMembers_eq (members : List (String × Json)) :
    compactMembers members = pieces memberChars '}' members := by
  cases members with
  | nil => rfl
  | cons m rest =>
    rw [compactMembers, compactMembersTail_eq, pieces, memberChars]

/-! ## Values -/

/-- The text of a value has one reading, with whatever may stand behind it. -/
def OneReading (v : Json) : Prop :=
  ∀ w : Json, w.Proper → ∀ s t, Closed s → Closed t →
    compactChars v ++ s = compactChars w ++ t → v = w ∧ s = t

theorem numeric_of_number {v : Json} (hv : v.Proper) (h : v.kind = .number) :
    Numeric (compactChars v) := by
  cases hv with
  | int n => exact numeric_intChars n
  | @float x hx =>
    show Numeric (floatChars x)
    rw [floatChars_of_isFinite hx]
    exact Decimal.numeric_writeChars x
  | _ => cases h

/-- Numbers with the same text are the same. -/
theorem eq_of_number {v w : Json} (hv : v.Proper) (hw : w.Proper) (hkv : v.kind = .number)
    (hkw : w.kind = .number) (h : compactChars v = compactChars w) : v = w := by
  cases hv with
  | int m =>
    cases hw with
    | int n => rw [intChars_inj h]
    | @float y hy =>
      have h : intChars m = floatChars y := h
      rw [floatChars_of_isFinite hy] at h
      exact absurd h (intChars_ne_writeChars m y)
    | _ => cases hkw
  | @float x hx =>
    cases hw with
    | int n =>
      have h : floatChars x = intChars n := h
      rw [floatChars_of_isFinite hx] at h
      exact absurd h.symm (intChars_ne_writeChars n x)
    | @float y hy =>
      have h : floatChars x = floatChars y := h
      rw [floatChars_of_isFinite hx, floatChars_of_isFinite hy] at h
      rw [Decimal.Layout.writeChars_json_inj h]
    | _ => cases hkw
  | _ => cases hkv

/-- The text of a number has one reading. -/
theorem oneReading_of_number {v : Json} (hv : v.Proper) (h : v.kind = .number) : v.OneReading := by
  intro w hw s t hs ht heq
  have hkind : w.kind = .number := (kind_eq hv hw heq).symm.trans h
  obtain ⟨htext, hrest⟩ :=
    eq_of_numeric_append (numeric_of_number hv h) (numeric_of_number hw hkind) hs ht heq
  exact ⟨eq_of_number hv hw h hkind htext, hrest⟩

/-- The text of an array has one reading if those of its elements have. -/
theorem oneReading_array {xs : List Json} (hxs : ∀ x ∈ xs, x.Proper)
    (hread : ∀ x ∈ xs, x.OneReading) : (array xs).OneReading := by
  intro w hw s t hs ht h
  have hkind := kind_eq (.array hxs) hw h
  cases hw with
  | @array ys hys =>
    have h := (List.cons.inj h).2
    rw [compactItems_eq, compactItems_eq] at h
    have hstart : ∀ x ∈ xs ++ ys, ∃ c cs, compactChars x = c :: cs ∧ c ≠ ']' :=
      fun x hx => exists_ne_bracket ((List.mem_append.1 hx).elim (hxs x) (hys x))
    obtain ⟨rfl, rfl⟩ := eq_of_pieces_append rfl (by decide)
      (fun x hx y hy => hread x hx y (hys y hy)) hstart h
    exact ⟨rfl, rfl⟩
  | _ => cases hkind

/-- The text of an object has one reading if those of its values have. -/
theorem oneReading_object {xs : List (String × Json)} (hkeys : (xs.map (·.1)).Nodup)
    (hxs : ∀ m ∈ xs, m.2.Proper) (hread : ∀ m ∈ xs, m.2.OneReading) :
    (object xs).OneReading := by
  intro w hw s t hs ht h
  have hkind := kind_eq (.object hkeys hxs) hw h
  cases hw with
  | @object ys hkeys' hys =>
    have h := (List.cons.inj h).2
    rw [compactMembers_eq, compactMembers_eq] at h
    have hpiece : ∀ x ∈ xs, ∀ y ∈ ys, ∀ s t, Closed s → Closed t →
        memberChars x ++ s = memberChars y ++ t → x = y ∧ s = t := by
      intro x hx y hy s t hs ht heq
      rw [memberChars, memberChars, List.append_assoc, List.append_assoc] at heq
      obtain ⟨hkey, hvalue⟩ := eq_of_quoted_append heq
      obtain ⟨hvalue, hrest⟩ := hread x hx y.2 (hys y hy) s t hs ht (List.cons.inj hvalue).2
      exact ⟨Prod.ext hkey hvalue, hrest⟩
    have hstart : ∀ x ∈ xs ++ ys, ∃ c cs, memberChars x = c :: cs ∧ c ≠ '}' :=
      fun x _ => ⟨'"', _, rfl, by decide⟩
    obtain ⟨rfl, rfl⟩ := eq_of_pieces_append rfl (by decide) hpiece hstart h
    exact ⟨rfl, rfl⟩
  | _ => cases hkind

/-- **Compact text has one reading.** -/
theorem oneReading {v : Json} (hv : v.Proper) : v.OneReading := by
  induction hv with
  | null =>
    intro w hw s t _ _ h
    have hkind := kind_eq .null hw h
    cases hw with
    | null => exact ⟨rfl, List.append_cancel_left h⟩
    | _ => cases hkind
  | bool b =>
    intro w hw s t _ _ h
    have hkind := kind_eq (.bool b) hw h
    cases hw with
    | bool c =>
      cases b <;> cases c
      · exact ⟨rfl, List.append_cancel_left h⟩
      · exact absurd (List.cons.inj h).1 (by decide)
      · exact absurd (List.cons.inj h).1 (by decide)
      · exact ⟨rfl, List.append_cancel_left h⟩
    | _ => cases hkind
  | int n => exact oneReading_of_number (.int n) rfl
  | float finite => exact oneReading_of_number (.float finite) rfl
  | text k =>
    intro w hw s t _ _ h
    have hkind := kind_eq (.text k) hw h
    cases hw with
    | text l =>
      obtain ⟨rfl, rfl⟩ := eq_of_quoted_append h
      exact ⟨rfl, rfl⟩
    | _ => cases hkind
  | array hxs ih => exact oneReading_array hxs ih
  | object hkeys hxs ih => exact oneReading_object hkeys hxs ih

/-- **No two values have the same compact text.** -/
theorem compact_inj {v w : Json} (hv : v.Proper) (hw : w.Proper) (h : v.compact = w.compact) :
    v = w := by
  have hchars : compactChars v ++ [] = compactChars w ++ [] := by
    rw [List.append_nil, List.append_nil]
    exact String.ofList_injective h
  exact (oneReading hv w hw [] [] closed_nil closed_nil hchars).1

end EvalProxy.Json
