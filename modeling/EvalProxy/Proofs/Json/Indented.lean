/-
# Indented text read back

The indented text of values is read member by member, whichever reader looks at it: as a value, in
a given shape, or to be skipped. `Reads` says what a reader makes of a text, with any blanks before
it and anything after it that ends a number.

Main definitions: `Reads`, `Skips`.
Main statements: `reads_object`, `reads_dict`, `reads_record`, `skips_object`.
-/
import EvalProxy.Proofs.Dict
import EvalProxy.Proofs.Json.Numbers
import EvalProxy.Proofs.Json.Quoted
import EvalProxy.Proofs.Json.TextMap
import Mathlib.Data.List.DropRight
namespace EvalProxy.Json

open Text (octets)

/-! ## Blanks -/

/-- A line break and its indentation are blanks. -/
theorem skipBlanks_newLine (indent : Nat) (s : Bytes) :
    skipBlanks (octets (newLine indent) ++ s) = skipBlanks s := by
  have hblanks : ∀ n, skipBlanks (octets (List.replicate n ' ') ++ s) = skipBlanks s := by
    intro n
    induction n with
    | zero => rfl
    | succ n ih => exact ih
  exact hblanks (2 * indent)

theorem skipBlanks_of_eq {s t : Bytes} (h : skipBlanks s = t) : skipBlanks t = t := by
  rw [← h, skipBlanks, skipBlanks, List.dropWhile_idempotent]

/-! ## Members -/

/-- The octets of an indented value. -/
def prettyOctets (indent : Nat) (v : Json) : Bytes := octets (prettyChars indent v)

/-- The octets of the members of an object and its closing brace; `first` says that none was written
before. -/
def membersText (indent : Nat) (first : Bool) : List (String × Json) → Bytes
  | [] => (if first then [] else octets (newLine indent)) ++ [0x7D]
  | (k, v) :: rest =>
    (if first then [] else [0x2C]) ++ (octets (newLine (indent + 1)) ++
      0x22 :: (octets (k.toList.flatMap escapeChar) ++
        0x22 :: 0x3A :: 0x20 :: (prettyOctets (indent + 1) v ++
          membersText indent false rest)))

theorem octets_prettyMembersTail (indent : Nat) (members : List (String × Json)) :
    octets (prettyMembersTail indent members) = membersText indent false members := by
  induction members with
  | nil =>
    rw [prettyMembersTail, membersText, Text.octets_append]
    rfl
  | cons m members ih =>
    rw [prettyMembersTail, membersText, prettyOctets, ← ih]
    simp only [Text.octets_append, Text.octets_cons, List.append_assoc, List.cons_append, quoted,
      List.nil_append]
    rfl

theorem prettyOctets_object (indent : Nat) (members : List (String × Json)) :
    prettyOctets indent (.object members) = 0x7B :: membersText indent true members := by
  cases members with
  | nil =>
    rw [prettyOctets, prettyChars]
    rfl
  | cons m members =>
    rw [prettyOctets, prettyChars, membersText, prettyOctets, ← octets_prettyMembersTail]
    simp only [Text.octets_append, Text.octets_cons, List.append_assoc, List.cons_append, quoted,
      List.nil_append]
    rfl

/-- Behind the blanks after the last member stands the closing brace. -/
theorem skipBlanks_membersText_nil (indent : Nat) (first : Bool) (rest : Bytes) :
    skipBlanks (membersText indent first [] ++ rest) = 0x7D :: rest := by
  cases first
  · rw [membersText, if_neg Bool.false_ne_true, List.append_assoc, skipBlanks_newLine]
    rfl
  · rfl

/-- Behind the last member the reader finds the object finished. -/
theorem nextMember_finished (indent : Nat) (first : Bool) (rest : Bytes) :
    nextMember first (membersText indent first [] ++ rest) = .ok (.finished rest) := by
  rw [nextMember, skipBlanks_membersText_nil]
  rfl

/-- In front of a member the reader finds its key and that there is one more. -/
theorem nextMember_more (indent : Nat) (first : Bool) (k : String) (v : Json)
    (members : List (String × Json)) (rest : Bytes) :
    nextMember first (membersText indent first ((k, v) :: members) ++ rest)
      = .ok (.more (octets (k.toList.flatMap escapeChar) ++
          0x22 :: 0x3A :: 0x20 :: (prettyOctets (indent + 1) v ++
            (membersText indent false members ++ rest)))) := by
  rw [membersText]
  simp only [List.append_assoc, List.cons_append]
  cases first
  · show nextMember false (0x2C :: (octets (newLine (indent + 1)) ++ 0x22 :: _)) = _
    rw [nextMember, skipBlanks_cons rfl]
    simp only [skipBlanks_newLine]
    rfl
  · show nextMember true (octets (newLine (indent + 1)) ++ 0x22 :: _) = _
    rw [nextMember, skipBlanks_newLine]
    rfl

theorem ended_nil : Ended [] := fun _ hb => by cases hb

/-- What stands behind a value is no part of it. -/
theorem ended_membersText (indent : Nat) (members : List (String × Json)) (rest : Bytes) :
    Ended (membersText indent false members ++ rest) := by
  intro b hb
  cases members with
  | nil => cases hb; decide
  | cons m members => cases hb; decide

theorem length_membersText_pos (indent : Nat) (first : Bool) (members : List (String × Json)) :
    0 < (membersText indent first members).length := by
  cases members with
  | nil => simp [membersText]
  | cons m members =>
    rw [membersText]
    simp only [List.length_append, List.length_cons]
    omega

/-- A member takes up room around its value. -/
theorem length_membersText_cons (indent : Nat) (first : Bool) (m : String × Json)
    (members : List (String × Json)) :
    (prettyOctets (indent + 1) m.2).length + (membersText indent false members).length + 5
      ≤ (membersText indent first (m :: members)).length := by
  have hline : 1 ≤ (octets (newLine (indent + 1))).length := by
    rw [newLine, Text.octets_cons, List.length_append]
    exact Nat.le_add_right_of_le (by decide)
  rw [membersText]
  simp only [List.length_append, List.length_cons]
  omega

/-! ## Readers -/

/-- A reader makes a value of a text, behind any blanks and before anything that ends a number. It
needs no more steps than the text has octets, and room for so many levels of nesting. -/
def Reads (read : Nat → Nat → Bytes → Except Fault (Json × Bytes)) (levels : Nat) (text : Bytes)
    (v : Json) : Prop :=
  ∀ fuel depth s rest, skipBlanks s = text ++ rest → text.length ≤ fuel → levels < depth →
    Ended rest → read fuel depth s = .ok (v, rest)

/-- A text is skipped as a value. -/
def Skips (text : Bytes) : Prop :=
  ∀ fuel s rest, skipBlanks s = text ++ rest → text.length ≤ fuel → Ended rest →
    skipValue fuel s = .ok rest

/-- The reader of values of a shape. -/
def shapeReader (shape : Shape) (fuel depth : Nat) (s : Bytes) : Except Fault (Json × Bytes) :=
  readShape fuel depth shape s

/-- The reader of values of a field, which takes a step of its own. -/
def fieldReader (f : Field) (fuel depth : Nat) (s : Bytes) : Except Fault (Json × Bytes) :=
  readField (fuel + 1) depth f s

/-- Room for more levels does no harm. -/
theorem Reads.mono {read : Nat → Nat → Bytes → Except Fault (Json × Bytes)} {m n : Nat}
    {text : Bytes} {v : Json} (h : Reads read m text v) (hle : m ≤ n) : Reads read n text v :=
  fun fuel depth s rest hs hfuel hdepth => h fuel depth s rest hs hfuel (by omega)

theorem readColon_colon (s : Bytes) : readColon (0x3A :: s) = .ok s := by
  rw [readColon, skipBlanks_cons rfl]
  rfl

/-- A text that starts with a digit. -/
theorem octets_head_digit {c : Char} (h : c.isDigit = true) (cs : List Char) :
    ∃ b more, octets (c :: cs) = b :: more ∧ isDigit b = true := by
  obtain ⟨hoctet, hdigit, -⟩ := octets_digit h
  exact ⟨_, _, by rw [Text.octets_cons, hoctet]; rfl, hdigit⟩

theorem not_blank_of_isDigit {b : UInt8} (h : isDigit b = true) : isJsonBlank b = false := by
  rw [isDigit, Bool.and_eq_true, decide_eq_true_iff, decide_eq_true_iff] at h
  rw [isJsonBlank]
  grind

/-- No value starts with a blank. -/
theorem head_prettyOctets (indent : Nat) (v : Json) :
    ∃ b more, prettyOctets indent v = b :: more ∧ isJsonBlank b = false := by
  have hsign (negative : Bool) {c : Char} (hc : c.isDigit = true) (cs : List Char) :
      ∃ b more, octets (if negative then '-' :: c :: cs else c :: cs) = b :: more ∧
        isJsonBlank b = false := by
    cases negative with
    | true => exact ⟨0x2D, _, rfl, rfl⟩
    | false =>
      obtain ⟨b, more, hoctets, hb⟩ := octets_head_digit hc cs
      exact ⟨b, more, hoctets, not_blank_of_isDigit hb⟩
  cases v with
  | null => exact ⟨0x6E, _, rfl, rfl⟩
  | bool b => cases b <;> exact ⟨_, _, rfl, rfl⟩
  | int n =>
    obtain ⟨c, cs, hdigits⟩ : ∃ c cs, Decimal.decimalDigits n.natAbs = c :: cs :=
      List.exists_cons_of_ne_nil Nat.toDigits_ne_nil
    have hc := Decimal.digital_decimalDigits n.natAbs c (by simp [hdigits])
    have := hsign (decide (n < 0)) hc cs
    rw [prettyOctets, prettyChars, scalarChars, intChars, hdigits]
    simpa using this
  | float x =>
    obtain ⟨c, cs, hchars, hc⟩ := Decimal.isDigit_head_unsignedChars x
    rw [prettyOctets, prettyChars, scalarChars, floatChars]
    split
    · exact ⟨0x6E, _, rfl, rfl⟩
    · rw [Decimal.Layout.writeChars_eq, hchars]
      exact hsign (Decimal.isNegative x) hc cs
  | text t => exact ⟨0x22, _, rfl, rfl⟩
  | array items =>
    cases items with
    | nil => exact ⟨0x5B, _, by rw [prettyOctets, prettyChars]; rfl, rfl⟩
    | cons v items => exact ⟨0x5B, _, by rw [prettyOctets, prettyChars]; rfl, rfl⟩
  | object members => exact ⟨0x7B, _, prettyOctets_object indent members, rfl⟩

/-- The text of a value starts with no blank. -/
theorem skipBlanks_prettyOctets (indent : Nat) (v : Json) :
    skipBlanks (prettyOctets indent v) = prettyOctets indent v ++ [] := by
  obtain ⟨b, more, hv, hb⟩ := head_prettyOctets indent v
  rw [hv, List.append_nil]
  exact skipBlanks_cons hb _

/-- A value behind a colon starts with a blank. -/
theorem skipBlanks_value (indent : Nat) (v : Json) (rest : Bytes) :
    skipBlanks (0x20 :: (prettyOctets indent v ++ rest)) = prettyOctets indent v ++ rest := by
  obtain ⟨b, more, hv, hb⟩ := head_prettyOctets indent v
  rw [hv]
  exact skipBlanks_cons hb _

/-! ## Values -/

/-- **Members are read as values** one after the other. -/
theorem readMembers_text {levels indent : Nat} {members given : List (String × Json)}
    (h : List.Forall₂ (fun m w => m.1 = w.1 ∧
      Reads readValue levels (prettyOctets (indent + 1) m.2) w.2) members given)
    (fuel depth : Nat) (first : Bool) (rest : Bytes)
    (hfuel : (membersText indent first members).length ≤ fuel) (hdepth : levels < depth) :
    readMembers fuel depth first (membersText indent first members ++ rest)
      = .ok (given, rest) := by
  induction h generalizing fuel first with
  | nil =>
    obtain ⟨fuel, rfl⟩ := Nat.exists_eq_succ_of_ne_zero
      ((length_membersText_pos indent first []).trans_le hfuel).ne'
    rw [readMembers, nextMember_finished]
    rfl
  | @cons m w members given hm _ ih =>
    obtain ⟨fuel, rfl⟩ := Nat.exists_eq_succ_of_ne_zero
      ((length_membersText_pos indent first _).trans_le hfuel).ne'
    have hlength := length_membersText_cons indent first m members
    obtain ⟨k, v⟩ := m
    obtain ⟨k', w⟩ := w
    obtain ⟨rfl, hread⟩ : k = k' ∧ _ := hm
    have hvalue := hread fuel depth _ _ (skipBlanks_value (indent + 1) v
      (membersText indent false members ++ rest)) (by omega) hdepth (ended_membersText _ _ _)
    rw [readMembers, nextMember_more]
    simp only [bind, Except.bind, readString_quoted, readColon_colon]
    simp only [hvalue, ih fuel false (by omega)]

/-- **An object is read** with its members in key order. -/
theorem reads_object {levels indent : Nat} {members given : List (String × Json)}
    (h : List.Forall₂ (fun m w => m.1 = w.1 ∧
      Reads readValue levels (prettyOctets (indent + 1) m.2) w.2) members given) :
    Reads readValue (levels + 1) (prettyOctets indent (.object members))
      (.object (Assoc.ofList given)) := by
  intro fuel depth s rest hs hfuel hdepth hrest
  rw [prettyOctets_object] at hs hfuel
  obtain ⟨fuel, rfl⟩ := Nat.exists_eq_succ_of_ne_zero (Nat.ne_of_gt (Nat.zero_lt_of_lt hfuel))
  have hmembers := readMembers_text h fuel (depth - 1) true rest
    (Nat.le_of_succ_le_succ hfuel) (by omega)
  have hroom : ¬ depth ≤ 1 := by omega
  rw [readValue, hs, List.cons_append]
  simp only [bind, Except.bind, hroom, if_false]
  rw [if_neg (by decide), if_pos trivial, hmembers]

/-! ## Dictionaries -/

/-- **The entries of a dictionary are read** one after the other. -/
theorem readShapeValues_text {value : Shape} {levels indent : Nat}
    {members given : List (String × Json)}
    (h : List.Forall₂ (fun m w => m.1 = w.1 ∧
      Reads (shapeReader value) levels (prettyOctets (indent + 1) m.2) w.2) members given)
    (fuel depth : Nat) (first : Bool) (rest : Bytes)
    (hfuel : (membersText indent first members).length ≤ fuel) (hdepth : levels < depth) :
    readShapeValues fuel depth value first (membersText indent first members ++ rest)
      = .ok (given, rest) := by
  induction h generalizing fuel first with
  | nil =>
    obtain ⟨fuel, rfl⟩ := Nat.exists_eq_succ_of_ne_zero
      ((length_membersText_pos indent first []).trans_le hfuel).ne'
    rw [readShapeValues, nextMember_finished]
    rfl
  | @cons m w members given hm _ ih =>
    obtain ⟨fuel, rfl⟩ := Nat.exists_eq_succ_of_ne_zero
      ((length_membersText_pos indent first _).trans_le hfuel).ne'
    have hlength := length_membersText_cons indent first m members
    obtain ⟨k, v⟩ := m
    obtain ⟨k', w⟩ := w
    obtain ⟨rfl, hread⟩ : k = k' ∧ _ := hm
    have hvalue := hread fuel depth _ _ (skipBlanks_value (indent + 1) v
      (membersText indent false members ++ rest)) (by omega) hdepth (ended_membersText _ _ _)
    rw [shapeReader] at hvalue
    rw [readShapeValues, nextMember_more]
    simp only [bind, Except.bind, readString_quoted, readColon_colon]
    simp only [hvalue, ih fuel false (by omega)]

/-- **A dictionary is read** with its entries in key order. -/
theorem reads_dict {value : Shape} {levels indent : Nat} {members given : List (String × Json)}
    (h : List.Forall₂ (fun m w => m.1 = w.1 ∧
      Reads (shapeReader value) levels (prettyOctets (indent + 1) m.2) w.2) members given) :
    Reads (shapeReader (.dict value)) (levels + 1) (prettyOctets indent (.object members))
      (ofMembers given) := by
  intro fuel depth s rest hs hfuel hdepth hrest
  rw [prettyOctets_object] at hs hfuel
  obtain ⟨fuel, rfl⟩ := Nat.exists_eq_succ_of_ne_zero (Nat.ne_of_gt (Nat.zero_lt_of_lt hfuel))
  have hmembers := readShapeValues_text h fuel (depth - 1) true rest
    (Nat.le_of_succ_le_succ hfuel) (by omega)
  have hroom : ¬ depth ≤ 1 := by omega
  rw [shapeReader, readShape, hs, List.cons_append]
  simp only [bind, Except.bind, hroom, if_true, if_false, hmembers]

/-! ## What is skipped -/

/-- What is read as a string is skipped as one. -/
theorem skipString_of_readStringOctets {acc s octets rest : Bytes}
    (h : readStringOctets acc s = .ok (octets, rest)) : skipString s = .ok rest := by
  -- what ends early is no string, and the hexadecimal escapes are skipped one by one
  fun_induction readStringOctets acc s <;> try (simp_all [skipString]; done)
  case case2 =>
    obtain ⟨-, rfl⟩ := Prod.mk.inj (Except.ok.inj h)
    rw [skipString.eq_def]
    rfl
  case case4 hescape _ ih =>
    rw [skipString.eq_def]
    simp [hescape, ih h]
  case case19 hquote hslash hcontrol ih =>
    rw [skipString.eq_def]
    simp [hquote, hslash, hcontrol, ih h]

/-- A text in quotes is skipped whole. -/
theorem skipString_quoted (t : String) (rest : Bytes) :
    skipString (octets (t.toList.flatMap escapeChar) ++ 0x22 :: rest) = .ok rest :=
  skipString_of_readStringOctets (readStringOctets_escaped t.toList [] rest)

/-- **Members are skipped** one after the other. -/
theorem skipMembers_text {indent : Nat} {members : List (String × Json)}
    (h : ∀ m ∈ members, Skips (prettyOctets (indent + 1) m.2)) (fuel : Nat) (first : Bool)
    (rest : Bytes) (hfuel : (membersText indent first members).length ≤ fuel) :
    skipMembers fuel first (membersText indent first members ++ rest) = .ok rest := by
  induction members generalizing fuel first with
  | nil =>
    obtain ⟨fuel, rfl⟩ := Nat.exists_eq_succ_of_ne_zero
      ((length_membersText_pos indent first []).trans_le hfuel).ne'
    rw [skipMembers, skipBlanks_membersText_nil]
    rfl
  | cons m members ih =>
    have hlength := length_membersText_cons indent first m members
    obtain ⟨fuel, rfl⟩ : ∃ n, fuel = n + 2 := ⟨fuel - 2, by omega⟩
    obtain ⟨k, v⟩ := m
    have hvalue := h (k, v) (by simp) fuel _ _ (skipBlanks_value (indent + 1) v
      (membersText indent false members ++ rest)) (by omega) (ended_membersText _ _ _)
    have hrest := ih (fun m hm => h m (by simp [hm])) fuel false (by omega)
    have hmember (s : Bytes) (hs : skipBlanks s = 0x22 :: (octets (k.toList.flatMap escapeChar) ++
        0x22 :: 0x3A :: 0x20 :: (prettyOctets (indent + 1) v ++
          (membersText indent false members ++ rest)))) :
        skipMember (fuel + 1) s = .ok rest := by
      rw [skipMember, hs]
      simp only [bind, Except.bind, if_true, skipString_quoted, readColon_colon, hvalue, hrest]
    have hline : skipBlanks (octets (newLine (indent + 1)) ++
        0x22 :: (octets (k.toList.flatMap escapeChar) ++
          0x22 :: 0x3A :: 0x20 :: (prettyOctets (indent + 1) v ++
            (membersText indent false members ++ rest)))) = _ :=
      (skipBlanks_newLine (indent + 1) _).trans (skipBlanks_cons rfl _)
    rw [membersText]
    simp only [List.append_assoc, List.cons_append]
    cases first with
    | true =>
      rw [if_pos rfl, List.nil_append, skipMembers, hline]
      exact hmember _ (skipBlanks_cons rfl _)
    | false =>
      rw [if_neg Bool.false_ne_true, List.cons_append, skipMembers, skipBlanks_cons rfl]
      exact hmember _ hline

/-- **An object is skipped** with all that is in it. -/
theorem skips_object {indent : Nat} {members : List (String × Json)}
    (h : ∀ m ∈ members, Skips (prettyOctets (indent + 1) m.2)) :
    Skips (prettyOctets indent (.object members)) := by
  intro fuel s rest hs hfuel hrest
  rw [prettyOctets_object] at hs hfuel
  obtain ⟨fuel, rfl⟩ := Nat.exists_eq_succ_of_ne_zero (Nat.ne_of_gt (Nat.zero_lt_of_lt hfuel))
  rw [skipValue, hs, List.cons_append]
  exact skipMembers_text h fuel true rest (Nat.le_of_succ_le_succ hfuel)

/-! ## Records -/

/-- **The members of a record are read**, each as its field has it; others are skipped. -/
theorem readShapeMembers_text {fields : List Field} {levels indent : Nat}
    {members : List (String × Json)} {value : String → Json}
    (hfields : ∀ m ∈ members, ∀ f, (fields.find? fun f => f.key == m.1) = some f →
      Reads (fieldReader f) levels (prettyOctets (indent + 1) m.2) (value m.1))
    (hothers : ∀ m ∈ members, (fields.find? fun f => f.key == m.1) = none →
      Skips (prettyOctets (indent + 1) m.2))
    (hnodup : (members.map (·.1)).Nodup) (given : List (String × Json))
    (hnew : ∀ m ∈ members, Assoc.get? m.1 given = none) (fuel depth : Nat) (first : Bool)
    (rest : Bytes) (hfuel : (membersText indent first members).length ≤ fuel)
    (hdepth : levels < depth) :
    ∃ all, readShapeMembers fuel depth false fields given first
        (membersText indent first members ++ rest) = .ok (all, rest) ∧
      ∀ key, Assoc.get? key all
        = if key ∈ members.map (·.1) ∧ (fields.find? fun f => f.key == key).isSome then
            some (value key)
          else Assoc.get? key given := by
  induction members generalizing fuel first given with
  | nil =>
    obtain ⟨fuel, rfl⟩ := Nat.exists_eq_succ_of_ne_zero
      ((length_membersText_pos indent first []).trans_le hfuel).ne'
    refine ⟨given, ?_, by simp⟩
    rw [readShapeMembers, nextMember_finished]
    rfl
  | cons m members ih =>
    have hlength := length_membersText_cons indent first m members
    obtain ⟨fuel, rfl⟩ : ∃ n, fuel = n + 2 := ⟨fuel - 2, by omega⟩
    obtain ⟨k, v⟩ := m
    obtain ⟨hk, hnodup⟩ := List.nodup_cons.1 (List.map_cons ▸ hnodup)
    have hblank := skipBlanks_value (indent + 1) v (membersText indent false members ++ rest)
    have hended := ended_membersText indent members rest
    have ih (given' : List (String × Json))
        (hnew' : ∀ m ∈ members, Assoc.get? m.1 given' = none) :=
      ih (fun m hm => hfields m (by simp [hm])) (fun m hm => hothers m (by simp [hm])) hnodup
        given' hnew' (fuel + 1) false (by omega)
    rw [readShapeMembers, nextMember_more]
    simp only [bind, Except.bind, readString_quoted]
    cases hfind : fields.find? fun f => f.key == k with
    | some f =>
      have hvalue := hfields (k, v) (by simp) f hfind fuel depth _ _ hblank (by omega) hdepth hended
      rw [fieldReader] at hvalue
      obtain ⟨all, hall, hget⟩ := ih ((k, value k) :: given) (by
        intro m hm
        have hne : k ≠ m.1 := by
          intro heq
          have hmem : m.1 ∈ members.map (·.1) := List.mem_map_of_mem hm
          exact hk (heq.symm ▸ hmem)
        rw [Assoc.get?, if_neg hne]
        exact hnew m (by simp [hm]))
      refine ⟨all, ?_, fun key => ?_⟩
      · simp only [hnew (k, v) (by simp), Option.isSome_none, Bool.false_eq_true, if_false,
          readColon_colon, hvalue, hall]
      · rw [hget, Assoc.get?]
        by_cases hkey : k = key
        · subst hkey
          simp [hfind]
        · have hkey' : key ≠ k := Ne.symm hkey
          simp only [hkey, if_false, List.map_cons, List.mem_cons, hkey', false_or]
    | none =>
      have hvalue (n : Nat) := hothers (k, v) (by simp) hfind n _ _ hblank
      obtain ⟨all, hall, hget⟩ := ih given (fun m hm => hnew m (by simp [hm]))
      refine ⟨all, ?_, fun key => ?_⟩
      · simp only [Bool.false_eq_true, if_false, readColon_colon]
        rw [hvalue _ ?_ hended]
        · exact hall
        · simp only [List.length_cons, List.length_append]
          omega
      · rw [hget]
        by_cases hkey : key = k
        · subst hkey
          simp [hfind]
        · simp only [List.map_cons, List.mem_cons, hkey, false_or]

/-- Where every field is given, none is filled in. -/
theorem fillFields_of_given {given : List (String × Json)} {value : String → Json}
    {fields : List Field} (h : ∀ f ∈ fields, Assoc.get? f.key given = some (value f.key)) :
    fillFields given fields = .ok (fields.map fun f => (f.key, value f.key)) := by
  induction fields with
  | nil => rfl
  | cons f fields ih =>
    rw [fillFields, h f (by simp), ih fun f hf => h f (by simp [hf])]
    rfl

/-- **A record is read** from an object that gives all its fields. -/
theorem reads_record {name : String} {fields : List Field} {levels indent : Nat}
    {members : List (String × Json)} {value : String → Json}
    (hfields : ∀ m ∈ members, ∀ f, (fields.find? fun f => f.key == m.1) = some f →
      Reads (fieldReader f) levels (prettyOctets (indent + 1) m.2) (value m.1))
    (hothers : ∀ m ∈ members, (fields.find? fun f => f.key == m.1) = none →
      Skips (prettyOctets (indent + 1) m.2))
    (hnodup : (members.map (·.1)).Nodup) (hall : ∀ f ∈ fields, f.key ∈ members.map (·.1)) :
    Reads (shapeReader (.record name false fields)) (levels + 1)
      (prettyOctets indent (.object members))
      (ofMembers (fields.map fun f => (f.key, value f.key))) := by
  intro fuel depth s rest hs hfuel hdepth hrest
  rw [prettyOctets_object] at hs hfuel
  obtain ⟨fuel, rfl⟩ := Nat.exists_eq_succ_of_ne_zero (Nat.ne_of_gt (Nat.zero_lt_of_lt hfuel))
  have hroom : ¬ depth ≤ 1 := by omega
  obtain ⟨given, hread, hget⟩ := readShapeMembers_text hfields hothers hnodup []
    (fun _ _ => rfl) fuel (depth - 1) true rest (Nat.le_of_succ_le_succ hfuel) (by omega)
  have hgiven : ∀ f ∈ fields, Assoc.get? f.key given = some (value f.key) := by
    intro f hf
    have hknown : (fields.find? fun g => g.key == f.key).isSome = true :=
      List.find?_isSome.2 ⟨f, hf, by simp⟩
    rw [hget, if_pos ⟨hall f hf, hknown⟩]
  rw [shapeReader, readShape, hs, List.cons_append]
  simp only [bind, Except.bind, hroom, if_true, if_false, hread, fillFields_of_given hgiven]

end EvalProxy.Json
