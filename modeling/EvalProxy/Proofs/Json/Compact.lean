/-
# Compact text read back

The compact text of a value whose numbers are whole is read as the value in canonical form, if the
value nests no deeper than the reader allows. What was read from a text never does, so it can be
written and read again.

Main definitions: `Whole`, `Nests`, `ReadsBack`.
Main statements: `nests_of_parse`, `readsBack_compact`, `parse_compact`.
-/
import EvalProxy.Proofs.Json.Fields
import EvalProxy.Proofs.Json.Scalars
import EvalProxy.Proofs.Json.UniqueReading
namespace EvalProxy.Json

open Text (octets)

/-! ## Whole numbers -/

/-- All numbers in a value are whole and fit into 64 bits, with a sign or without. The zero with a
minus sign, which is kept as a float, is one of them. -/
inductive Whole : Json → Prop
  | null : Whole null
  | bool (b : Bool) : Whole (bool b)
  | int {n : Int} (low : Int64.minValue.toInt ≤ n) (high : n ≤ maxU64) : Whole (int n)
  | negativeZero : Whole (float (-0.0))
  | text (s : String) : Whole (text s)
  | array {xs : List Json} (items : ∀ v ∈ xs, Whole v) : Whole (array xs)
  | object {xs : List (String × Json)} (values : ∀ m ∈ xs, Whole m.2) : Whole (object xs)

/-- Sorting members leaves whole numbers whole. -/
theorem Whole.canonical {v : Json} (h : v.Whole) : v.canonical.Whole := by
  induction h with
  | null => exact .null
  | bool b => exact .bool b
  | int low high => exact .int low high
  | negativeZero => exact .negativeZero
  | text s => exact .text s
  | array _ ih =>
    rw [canonical_array]
    refine .array ?_
    intro v hv
    obtain ⟨u, hu, rfl⟩ := List.mem_map.1 hv
    exact ih u hu
  | object _ ih =>
    rw [canonical_object]
    refine .object ?_
    intro m hm
    obtain ⟨u, hu, rfl⟩ := List.mem_map.1 (Assoc.mem_of_mem_ofList hm)
    exact ih u hu

/-! ## Nesting -/

/-- No more than so many arrays and objects are open at once in a value. -/
inductive Nests : Nat → Json → Prop
  | scalar {n : Nat} {v : Json} (notArray : v.array? = none) (notObject : v.object? = none) :
      Nests n v
  | array {n : Nat} {xs : List Json} (items : ∀ v ∈ xs, Nests n v) : Nests (n + 1) (array xs)
  | object {n : Nat} {xs : List (String × Json)} (values : ∀ m ∈ xs, Nests n m.2) :
      Nests (n + 1) (object xs)

/-- An array is open around its elements. -/
theorem nests_array_iff {n : Nat} {xs : List Json} :
    Nests n (array xs) ↔ ∃ m, n = m + 1 ∧ ∀ v ∈ xs, v.Nests m := by
  constructor
  · intro h
    cases h with
    | scalar notArray _ => cases notArray
    | array items => exact ⟨_, rfl, items⟩
  · rintro ⟨m, rfl, items⟩
    exact .array items

/-- An object is open around its values. -/
theorem nests_object_iff {n : Nat} {xs : List (String × Json)} :
    Nests n (object xs) ↔ ∃ m, n = m + 1 ∧ ∀ e ∈ xs, e.2.Nests m := by
  constructor
  · intro h
    cases h with
    | scalar _ notObject => cases notObject
    | object values => exact ⟨_, rfl, values⟩
  · rintro ⟨m, rfl, values⟩
    exact .object values

/-- Sorting members keeps every bound on how deep a value nests. -/
theorem Nests.canonical {n : Nat} {v : Json} (h : v.Nests n) : v.canonical.Nests n := by
  induction h with
  | @scalar n v notArray notObject =>
    cases v with
    | array _ => cases notArray
    | object _ => cases notObject
    | _ => exact .scalar rfl rfl
  | array _ ih =>
    rw [canonical_array]
    refine .array ?_
    intro v hv
    obtain ⟨u, hu, rfl⟩ := List.mem_map.1 hv
    exact ih u hu
  | object _ ih =>
    rw [canonical_object]
    refine .object ?_
    intro m hm
    obtain ⟨u, hu, rfl⟩ := List.mem_map.1 (Assoc.mem_of_mem_ofList hm)
    exact ih u hu

/-! ### What was read -/

section Readers

variable {fuel depth : Nat} {first : Bool} {s rest : Bytes}

/-- What a value is read as: a scalar, or elements or members read one level further down. -/
theorem readValue_cases {v : Json} (h : readValue (fuel + 1) depth s = .ok (v, rest)) :
    (v.array? = none ∧ v.object? = none) ∨
    (1 < depth ∧ ∃ items after, v = array items ∧
      readItems fuel (depth - 1) true after = .ok (items, rest)) ∨
    (1 < depth ∧ ∃ members after, v = object (Assoc.ofList members) ∧
      readMembers fuel (depth - 1) true after = .ok (members, rest)) := by
  have hscalar {α : Type} {x : Except Fault α} {f : α → Json × Bytes}
      (hf : ∀ a, (f a).1.array? = none ∧ (f a).1.object? = none)
      (h : (x >>= fun a => Except.ok (f a)) = .ok (v, rest)) :
      v.array? = none ∧ v.object? = none := by
    obtain ⟨a, -, h⟩ := exists_of_bind_eq_ok h
    have hv := hf a
    rwa [Except.ok.inj h] at hv
  have hnumber (n : Numeral) : n.toJson.array? = none ∧ n.toJson.object? = none := by
    cases n <;> exact ⟨rfl, rfl⟩
  rw [readValue] at h
  split at h
  · cases h
  split at h
  · exact .inl (hscalar (fun _ => ⟨rfl, rfl⟩) h)
  split at h
  · split at h
    · cases h
    · rename_i hdepth
      obtain ⟨⟨members, after⟩, hread, h⟩ := exists_of_bind_eq_ok h
      obtain ⟨rfl, rfl⟩ := Prod.mk.inj (Except.ok.inj h)
      exact .inr (.inr ⟨Nat.lt_of_not_le hdepth, members, _, rfl, hread⟩)
  split at h
  · split at h
    · cases h
    · rename_i hdepth
      obtain ⟨⟨items, after⟩, hread, h⟩ := exists_of_bind_eq_ok h
      obtain ⟨rfl, rfl⟩ := Prod.mk.inj (Except.ok.inj h)
      exact .inr (.inl ⟨Nat.lt_of_not_le hdepth, items, _, rfl, hread⟩)
  split at h
  · exact .inl (hscalar (fun _ => ⟨rfl, rfl⟩) h)
  split at h
  · exact .inl (hscalar (fun _ => ⟨rfl, rfl⟩) h)
  split at h
  · exact .inl (hscalar (fun _ => ⟨rfl, rfl⟩) h)
  split at h
  · exact .inl (hscalar (fun a => hnumber a.1) h)
  split at h
  · exact .inl (hscalar (fun a => hnumber a.1) h)
  · cases h

/-- Elements that were read are none, or a first one and those behind it. -/
theorem readItems_cases {items : List Json}
    (h : readItems (fuel + 1) depth first s = .ok (items, rest)) :
    items = [] ∨ ∃ v more before after, items = v :: more ∧
      readValue fuel depth before = .ok (v, after) ∧
      readItems fuel depth false after = .ok (more, rest) := by
  rw [readItems] at h
  obtain ⟨next, -, h⟩ := exists_of_bind_eq_ok h
  cases next with
  | finished after => exact .inl (Prod.mk.inj (Except.ok.inj h)).1.symm
  | more before =>
    obtain ⟨⟨v, after⟩, hvalue, h⟩ := exists_of_bind_eq_ok h
    obtain ⟨⟨more, after'⟩, hmore, h⟩ := exists_of_bind_eq_ok h
    obtain ⟨rfl, rfl⟩ := Prod.mk.inj (Except.ok.inj h)
    exact .inr ⟨v, more, _, _, rfl, hvalue, hmore⟩

/-- Members that were read are none, or a first one and those behind it. -/
theorem readMembers_cases {members : List (String × Json)}
    (h : readMembers (fuel + 1) depth first s = .ok (members, rest)) :
    members = [] ∨ ∃ key v more before after, members = (key, v) :: more ∧
      readValue fuel depth before = .ok (v, after) ∧
      readMembers fuel depth false after = .ok (more, rest) := by
  rw [readMembers] at h
  obtain ⟨next, -, h⟩ := exists_of_bind_eq_ok h
  cases next with
  | finished after => exact .inl (Prod.mk.inj (Except.ok.inj h)).1.symm
  | more before =>
    obtain ⟨⟨key, before⟩, -, h⟩ := exists_of_bind_eq_ok h
    obtain ⟨before, -, h⟩ := exists_of_bind_eq_ok h
    obtain ⟨⟨v, after⟩, hvalue, h⟩ := exists_of_bind_eq_ok h
    obtain ⟨⟨more, after'⟩, hmore, h⟩ := exists_of_bind_eq_ok h
    obtain ⟨rfl, rfl⟩ := Prod.mk.inj (Except.ok.inj h)
    exact .inr ⟨key, v, more, _, _, rfl, hvalue, hmore⟩

end Readers

/-- The three readers read nothing that nests as deep as they allow. -/
structure ReadsShallow (fuel : Nat) : Prop where
  value : ∀ {depth s v rest}, readValue fuel depth s = .ok (v, rest) → v.Nests (depth - 1)
  items : ∀ {depth first s items rest}, readItems fuel depth first s = .ok (items, rest) →
    ∀ v ∈ items, v.Nests (depth - 1)
  members : ∀ {depth first s members rest}, readMembers fuel depth first s = .ok (members, rest) →
    ∀ m ∈ members, m.2.Nests (depth - 1)

/-- Readers read nothing that nests as deep as they allow. -/
theorem readsShallow (fuel : Nat) : ReadsShallow fuel := by
  induction fuel with
  | zero =>
    refine ⟨?_, ?_, ?_⟩
    · intro depth s v rest h
      rw [readValue] at h
      cases h
    · intro depth first s items rest h
      rw [readItems] at h
      cases h
    · intro depth first s members rest h
      rw [readMembers] at h
      cases h
  | succ fuel ih =>
    refine ⟨?_, ?_, ?_⟩
    · intro depth s v rest h
      rcases readValue_cases h with ⟨harray, hobject⟩ | ⟨hdepth, items, after, rfl, hread⟩ |
        ⟨hdepth, members, after, rfl, hread⟩
      · exact .scalar harray hobject
      · exact nests_array_iff.2 ⟨depth - 1 - 1, by omega, ih.items hread⟩
      · refine nests_object_iff.2 ⟨depth - 1 - 1, by omega, ?_⟩
        exact fun m hm => ih.members hread m (Assoc.mem_of_mem_ofList hm)
    · intro depth first s items rest h
      rcases readItems_cases h with rfl | ⟨v, more, before, after, rfl, hvalue, hmore⟩
      · exact fun _ hmem => absurd hmem List.not_mem_nil
      · exact List.forall_mem_cons.2 ⟨ih.value hvalue, ih.items hmore⟩
    · intro depth first s members rest h
      rcases readMembers_cases h with rfl | ⟨key, v, more, before, after, rfl, hvalue, hmore⟩
      · exact fun _ hmem => absurd hmem List.not_mem_nil
      · exact List.forall_mem_cons.2 ⟨ih.value hvalue, ih.members hmore⟩

/-- A text that was parsed starts with the value. -/
theorem exists_readValue_of_parse {s : Bytes} {v : Json} (h : parse s = .ok v) :
    ∃ rest, readValue (2 * s.length + 2) maxDepth s = .ok (v, rest) := by
  rw [parse] at h
  obtain ⟨⟨w, rest⟩, hread, h⟩ := exists_of_bind_eq_ok h
  obtain ⟨-, -, h⟩ := exists_of_bind_eq_ok h
  obtain rfl := Except.ok.inj h
  exact ⟨rest, hread⟩

/-- **What a text spells** nests no deeper than the reader allows. -/
theorem nests_of_parse {s : Bytes} {v : Json} (h : parse s = .ok v) : v.Nests (maxDepth - 1) := by
  obtain ⟨rest, hread⟩ := exists_readValue_of_parse h
  exact (readsShallow _).value hread

/-- The octets of the compact text of a value. -/
def compactOctets (v : Json) : Bytes := octets (compactChars v)

theorem encode_compact (v : Json) : Text.encode v.compact = compactOctets v := by
  rw [compact, Text.encode_ofList, compactOctets]

/-- A text is read as a value, and can stand in an array: it starts with no blank and not with the
closing bracket. -/
structure ReadsBack (levels : Nat) (text : Bytes) (v : Json) : Prop where
  begins : ∃ b more, text = b :: more ∧ isJsonBlank b = false ∧ b ≠ 0x5D
  reads : Reads readValue levels text v

/-- A text that is read with little nesting is read with more. -/
theorem ReadsBack.mono {m n : Nat} {text : Bytes} {v : Json} (h : ReadsBack m text v)
    (hle : m ≤ n) : ReadsBack n text v :=
  ⟨h.begins, h.reads.mono hle⟩

theorem ReadsBack.length_pos {levels : Nat} {text : Bytes} {v : Json}
    (h : ReadsBack levels text v) : 0 < text.length := by
  obtain ⟨b, more, rfl, -⟩ := h.begins
  exact Nat.succ_pos _

/-- A text that is read as a value starts with no blank. -/
theorem ReadsBack.skipBlanks {levels : Nat} {text : Bytes} {v : Json} (h : ReadsBack levels text v)
    (rest : Bytes) : skipBlanks (text ++ rest) = text ++ rest := by
  obtain ⟨b, more, rfl, hb, -⟩ := h.begins
  exact skipBlanks_cons hb _

/-- Pieces with commas between them and a closing bracket, in octets; `first` says that none was
written before. -/
def listText {α : Type} (piece : α → List Char) (stop : Char) (first : Bool) (as : List α) :
    Bytes :=
  octets (if first then pieces piece stop as else morePieces piece stop as)

section Lists

variable {α : Type} {piece : α → List Char} {stop : Char}

theorem listText_nil (first : Bool) : listText piece stop first [] = octets [stop] := by
  cases first <;> rfl

theorem listText_cons (first : Bool) (a : α) (as : List α) :
    listText piece stop first (a :: as) =
      (if first then [] else [0x2C]) ++ (octets (piece a) ++ listText piece stop false as) := by
  have hpiece : octets (piece a ++ morePieces piece stop as)
      = octets (piece a) ++ listText piece stop false as := Text.octets_append _ _
  cases first with
  | true => exact hpiece
  | false => exact congrArg (0x2C :: ·) hpiece

/-- The text of a list is at least as long as those of its first piece and its others. -/
theorem length_listText_cons (first : Bool) (a : α) (as : List α) :
    (octets (piece a)).length + (listText piece stop false as).length
      ≤ (listText piece stop first (a :: as)).length := by
  rw [listText_cons]
  simp only [List.length_append]
  omega

theorem length_listText_pos (first : Bool) (as : List α) :
    0 < (listText piece stop first as).length := by
  induction as generalizing first with
  | nil =>
    rw [listText_nil, Text.octets_cons, List.length_append, String.length_utf8EncodeChar]
    exact Nat.add_pos_left stop.utf8Size_pos _
  | cons a as ih =>
    have hrest := ih false
    have hall := @length_listText_cons α piece stop first a as
    omega

/-- What stands behind a piece is no part of a number. -/
theorem ended_listText (hstop : ∀ rest, Ended (octets [stop] ++ rest)) (as : List α)
    (rest : Bytes) : Ended (listText piece stop false as ++ rest) := by
  cases as with
  | nil => exact hstop rest
  | cons a as =>
    intro b hb
    cases hb
    decide

theorem ended_bracket (rest : Bytes) : Ended (octets [']'] ++ rest) := by
  intro b hb
  cases hb
  decide

theorem ended_brace (rest : Bytes) : Ended (octets ['}'] ++ rest) := by
  intro b hb
  cases hb
  decide

end Lists

/-! ## Arrays -/

/-- The text of an array is that of its elements behind a bracket. -/
theorem compactOctets_array (items : List Json) :
    compactOctets (array items) = 0x5B :: listText compactChars ']' true items := by
  rw [compactOctets, compactChars, compactItems_eq]
  rfl

/-- In front of an element the reader finds that there is one more. -/
theorem nextElement_more {levels : Nat} {v w : Json} (h : ReadsBack levels (compactOctets v) w)
    (first : Bool) (items : List Json) (rest : Bytes) :
    nextElement first (listText compactChars ']' first (v :: items) ++ rest)
      = .ok (.more (compactOctets v ++ (listText compactChars ']' false items ++ rest))) := by
  have hskip := h.skipBlanks (listText compactChars ']' false items ++ rest)
  obtain ⟨b, more, hv, -, hb⟩ := h.begins
  rw [listText_cons, ← compactOctets]
  simp only [List.append_assoc]
  rw [hv, List.cons_append] at hskip ⊢
  cases first with
  | true =>
    show nextElement true (b :: _) = _
    rw [nextElement, hskip]
    simp only [hb, if_true, if_false]
  | false =>
    show nextElement false (0x2C :: b :: _) = _
    rw [nextElement, skipBlanks_cons rfl]
    simp only [hskip, hb, if_true, if_false, Bool.false_eq_true]
    rfl

/-- **The elements of an array are read** one after the other. -/
theorem readItems_compact {levels : Nat} {items given : List Json}
    (h : List.Forall₂ (fun v w => ReadsBack levels (compactOctets v) w) items given)
    (fuel depth : Nat) (first : Bool) (rest : Bytes)
    (hfuel : (listText compactChars ']' first items).length ≤ fuel) (hdepth : levels < depth) :
    readItems fuel depth first (listText compactChars ']' first items ++ rest)
      = .ok (given, rest) := by
  induction h generalizing fuel first with
  | nil =>
    obtain ⟨fuel, rfl⟩ := Nat.exists_eq_succ_of_ne_zero
      ((length_listText_pos first ([] : List Json)).trans_le hfuel).ne'
    rw [listText_nil, readItems]
    rfl
  | @cons v w items given hv _ ih =>
    obtain ⟨fuel, rfl⟩ := Nat.exists_eq_succ_of_ne_zero
      ((length_listText_pos first _).trans_le hfuel).ne'
    -- the element and what stands behind it both take up room
    have hlength : (compactOctets v).length + (listText compactChars ']' false items).length
        ≤ fuel + 1 := (length_listText_cons first v items).trans hfuel
    have hvalue := hv.length_pos
    have htail : 0 < (listText compactChars ']' false items).length :=
      length_listText_pos false items
    have hread := hv.reads fuel depth _ _
      (hv.skipBlanks (listText compactChars ']' false items ++ rest)) (by omega) hdepth
      (ended_listText ended_bracket items rest)
    rw [readItems, nextElement_more hv]
    simp only [bind, Except.bind, hread, ih fuel false (by omega)]

/-- **An array is read** element by element. -/
theorem readsBack_array {levels : Nat} {items given : List Json}
    (h : List.Forall₂ (fun v w => ReadsBack levels (compactOctets v) w) items given) :
    ReadsBack (levels + 1) (compactOctets (array items)) (array given) := by
  refine ⟨⟨0x5B, _, compactOctets_array items, rfl, by decide⟩, ?_⟩
  intro fuel depth s rest hs hfuel hdepth _
  rw [compactOctets_array] at hs hfuel
  obtain ⟨fuel, rfl⟩ := Nat.exists_eq_succ_of_ne_zero (Nat.ne_of_gt (Nat.zero_lt_of_lt hfuel))
  have hitems := readItems_compact h fuel (depth - 1) true rest
    (Nat.le_of_succ_le_succ hfuel) (by omega)
  have hroom : ¬ depth ≤ 1 := by omega
  rw [readValue, hs, List.cons_append]
  simp only [bind, Except.bind, hroom, if_false]
  rw [if_neg (by decide), if_neg (by decide), if_pos trivial, hitems]

/-! ## Objects -/

theorem compactOctets_object (members : List (String × Json)) :
    compactOctets (object members) = 0x7B :: listText memberChars '}' true members := by
  rw [compactOctets, compactChars, compactMembers_eq]
  rfl

theorem octets_memberChars (m : String × Json) :
    octets (memberChars m)
      = 0x22 :: (octets (m.1.toList.flatMap escapeChar) ++ 0x22 :: 0x3A :: compactOctets m.2) := by
  rw [memberChars, octets_quoted, Text.octets_cons]
  rfl

/-- In front of a member the reader finds its key and that there is one more. -/
theorem nextMember_more_compact (first : Bool) (m : String × Json)
    (members : List (String × Json)) (rest : Bytes) :
    nextMember first (listText memberChars '}' first (m :: members) ++ rest)
      = .ok (.more (octets (m.1.toList.flatMap escapeChar) ++ 0x22 :: 0x3A ::
          (compactOctets m.2 ++ (listText memberChars '}' false members ++ rest)))) := by
  rw [listText_cons, octets_memberChars]
  simp only [List.append_assoc, List.cons_append]
  cases first with
  | true =>
    show nextMember true (0x22 :: _) = _
    rw [nextMember, skipBlanks_cons rfl]
    rfl
  | false =>
    show nextMember false (0x2C :: 0x22 :: _) = _
    rw [nextMember, skipBlanks_cons rfl]
    simp only [skipBlanks_cons (b := 0x22) rfl]
    rfl

/-- **The members of an object are read** one after the other. -/
theorem readMembers_compact {levels : Nat} {members given : List (String × Json)}
    (h : List.Forall₂ (fun m w => m.1 = w.1 ∧ ReadsBack levels (compactOctets m.2) w.2)
      members given)
    (fuel depth : Nat) (first : Bool) (rest : Bytes)
    (hfuel : (listText memberChars '}' first members).length ≤ fuel) (hdepth : levels < depth) :
    readMembers fuel depth first (listText memberChars '}' first members ++ rest)
      = .ok (given, rest) := by
  induction h generalizing fuel first with
  | nil =>
    obtain ⟨fuel, rfl⟩ := Nat.exists_eq_succ_of_ne_zero
      ((length_listText_pos first ([] : List (String × Json))).trans_le hfuel).ne'
    rw [listText_nil, readMembers]
    rfl
  | @cons m w members given hm _ ih =>
    obtain ⟨fuel, rfl⟩ := Nat.exists_eq_succ_of_ne_zero
      ((length_listText_pos first _).trans_le hfuel).ne'
    have hlength : (octets (memberChars m)).length +
        (listText memberChars '}' false members).length ≤ fuel + 1 :=
      (length_listText_cons first m members).trans hfuel
    rw [octets_memberChars] at hlength
    simp only [List.length_cons, List.length_append] at hlength
    obtain ⟨k, v⟩ := m
    obtain ⟨k', w⟩ := w
    obtain ⟨rfl, hv⟩ : k = k' ∧ _ := hm
    have hread := hv.reads fuel depth _ _
      (hv.skipBlanks (listText memberChars '}' false members ++ rest)) (by omega) hdepth
      (ended_listText ended_brace members rest)
    rw [readMembers, nextMember_more_compact]
    simp only [bind, Except.bind, readString_quoted, readColon_colon, hread,
      ih fuel false (by omega)]

/-- **An object is read** with its members in key order. -/
theorem readsBack_object {levels : Nat} {members given : List (String × Json)}
    (h : List.Forall₂ (fun m w => m.1 = w.1 ∧ ReadsBack levels (compactOctets m.2) w.2)
      members given) :
    ReadsBack (levels + 1) (compactOctets (object members)) (object (Assoc.ofList given)) := by
  refine ⟨⟨0x7B, _, compactOctets_object members, rfl, by decide⟩, ?_⟩
  intro fuel depth s rest hs hfuel hdepth _
  rw [compactOctets_object] at hs hfuel
  obtain ⟨fuel, rfl⟩ := Nat.exists_eq_succ_of_ne_zero (Nat.ne_of_gt (Nat.zero_lt_of_lt hfuel))
  have hmembers := readMembers_compact h fuel (depth - 1) true rest
    (Nat.le_of_succ_le_succ hfuel) (by omega)
  have hroom : ¬ depth ≤ 1 := by omega
  rw [readValue, hs, List.cons_append]
  simp only [bind, Except.bind, hroom, if_false]
  rw [if_neg (by decide), if_pos trivial, hmembers]

/-! ## Values -/

/-- A text that is read as a number is read back as a value. -/
theorem ReadsNumber.readsBack {text : Bytes} {n : Numeral} (h : ReadsNumber text n) :
    ReadsBack 0 text n.toJson := by
  refine ⟨?_, h.value⟩
  cases h with
  | signed _ => exact ⟨0x2D, _, rfl, rfl, by decide⟩
  | unsigned hdigit _ =>
    exact ⟨_, _, rfl, not_blank_of_isDigit hdigit, ne_of_isDigit hdigit rfl⟩

/-- A whole number with a sign is an integer, if it is not zero and not too small. -/
theorem integerNumeral_negative {n : Nat} (hpos : 0 < n) (hfits : Int64.minValue.toInt ≤ -n) :
    integerNumeral true n = .int (-n) := by
  have hno : ¬ (n = 0 || decide (-(n : Int) < Int64.minValue.toInt)) = true := by
    simp only [Bool.or_eq_true, decide_eq_true_iff]
    omega
  rw [integerNumeral, if_pos rfl, if_neg hno]

/-- A whole number with a sign is read as it is. -/
theorem readsNumber_negative {n : Nat} (hpos : 0 < n) (hfits : Int64.minValue.toInt ≤ -n) :
    ReadsNumber (compactOctets (int (-n))) (.int (-n)) := by
  have htext : compactOctets (int (-n)) = 0x2D :: octets (Decimal.decimalDigits n) := by
    have hnegative : -(n : Int) < 0 := by omega
    rw [compactOctets, compactChars, scalarChars, intChars, if_pos hnegative, Int.natAbs_neg,
      Int.natAbs_natCast, Text.octets_cons]
    rfl
  have hmax : n ≤ maxSignificand := by
    have hlow : -(2 ^ 63 : Int) ≤ -n := hfits
    exact Nat.le_trans (by omega : n ≤ 2 ^ 63) (by decide)
  rw [htext]
  refine .signed fun rest hrest => ?_
  rw [readNumber_digits hmax true hrest, integerNumeral_negative hpos hfits]

/-- A whole number that fits is read back. -/
theorem readsBack_int {n : Int} (low : Int64.minValue.toInt ≤ n) (high : n ≤ maxU64) :
    ReadsBack 0 (compactOctets (int n)) (int n) := by
  cases n with
  | ofNat n => exact (readsNumber_nat 0 (Int.ofNat_le.1 high)).readsBack
  | negSucc n => exact (readsNumber_negative (Nat.succ_pos n) low).readsBack

/-- The zero with a minus sign is read back. -/
theorem readsBack_negativeZero : ReadsBack 0 (compactOctets (float (-0.0))) (float (-0.0)) := by
  have htext : floatChars (-0.0) = ['-', '0', '.', '0'] := by decide +kernel
  have hscale : Decimal.scale? (UInt64.ofNat 0) (-1) = some 0.0 := by decide +kernel
  have hread : ReadsNumber (compactOctets (float (-0.0))) (.float (-0.0)) := by
    rw [compactOctets, compactChars, scalarChars, htext, Text.octets_cons]
    refine .signed fun rest hrest => (readNumber_zero true hrest).trans ?_
    rw [scaled, hscale]
    rfl
  exact hread.readsBack

theorem readsBack_bool (b : Bool) : ReadsBack 0 (compactOctets (bool b)) (bool b) := by
  cases b with
  | true =>
    refine ⟨⟨0x74, _, rfl, rfl, by decide⟩, ?_⟩
    intro fuel depth s rest hs hfuel _ _
    obtain ⟨fuel, rfl⟩ := Nat.exists_eq_succ_of_ne_zero (Nat.ne_of_gt (Nat.zero_lt_of_lt hfuel))
    rw [readValue, hs]
    show ((readWord trueTail (trueTail ++ rest)).bind fun r => .ok (bool true, r)) = _
    rw [readWord_append]
    rfl
  | false =>
    refine ⟨⟨0x66, _, rfl, rfl, by decide⟩, ?_⟩
    intro fuel depth s rest hs hfuel _ _
    obtain ⟨fuel, rfl⟩ := Nat.exists_eq_succ_of_ne_zero (Nat.ne_of_gt (Nat.zero_lt_of_lt hfuel))
    rw [readValue, hs]
    show ((readWord falseTail (falseTail ++ rest)).bind fun r => .ok (bool false, r)) = _
    rw [readWord_append]
    rfl

/-- **The compact text of a value is read as its canonical form.** -/
theorem readsBack_compact {v : Json} (h : v.Whole) {n : Nat} (hnests : v.Nests n) :
    ReadsBack n (compactOctets v) v.canonical := by
  induction h generalizing n with
  | null => exact ⟨⟨0x6E, _, rfl, rfl, by decide⟩, (reads_null 0).mono (Nat.zero_le n)⟩
  | bool b => exact (readsBack_bool b).mono (Nat.zero_le n)
  | int low high => exact (readsBack_int low high).mono (Nat.zero_le n)
  | negativeZero => exact readsBack_negativeZero.mono (Nat.zero_le n)
  | text t => exact ⟨⟨0x22, _, rfl, rfl, by decide⟩, (reads_text 0 t).mono (Nat.zero_le n)⟩
  | array _ ih =>
    obtain ⟨n, rfl, hitems⟩ := nests_array_iff.1 hnests
    rw [canonical_array]
    apply readsBack_array
    rw [List.forall₂_map_right_iff, List.forall₂_same]
    exact fun v hv => ih v hv (hitems v hv)
  | object _ ih =>
    obtain ⟨n, rfl, hvalues⟩ := nests_object_iff.1 hnests
    rw [canonical_object]
    apply readsBack_object
    rw [List.forall₂_map_right_iff, List.forall₂_same]
    exact fun m hm => ⟨rfl, ih m hm (hvalues m hm)⟩

/-- **A value of whole numbers is read from its own text**, in canonical form, if the reader allows
so many levels. -/
theorem parse_compact {v : Json} (h : v.Whole) (hnests : v.Nests (maxDepth - 1)) :
    parse (Text.encode v.compact) = .ok v.canonical := by
  have hback := readsBack_compact h hnests
  have hskip := hback.skipBlanks []
  rw [List.append_nil] at hskip
  have hread := hback.reads (2 * (compactOctets v).length + 2) maxDepth (compactOctets v) []
    (by rw [hskip, List.append_nil]) (by omega) (by decide) ended_nil
  rw [parse, encode_compact, hread]
  rfl

end EvalProxy.Json
