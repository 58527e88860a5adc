/-
# Scalars read back

The text of `null`, of a string, of a whole number and of a moderate float, by every reader: as a
value, in a shape, as a field, or to be skipped.

Main statements: `reads_null`, `reads_text`, `ReadsNumber.value`, `ReadsNumber.shape`,
`reads_field`.
-/
import EvalProxy.Proofs.Json.Indented
namespace EvalProxy.Json

open Text (octets)

/-! ## Words and strings -/

theorem readWord_append (word rest : Bytes) : readWord word (word ++ rest) = .ok rest := by
  induction word with
  | nil => cases rest <;> rfl
  | cons w word ih => simp [readWord, ih]

theorem reads_null (indent : Nat) : Reads readValue 0 (prettyOctets indent .null) .null := by
  intro fuel depth s rest hs hfuel _ _
  obtain ⟨fuel, rfl⟩ := Nat.exists_eq_succ_of_ne_zero (Nat.ne_of_gt (Nat.zero_lt_of_lt hfuel))
  have hword : readWord nullTail (nullTail ++ rest) = .ok rest := readWord_append nullTail rest
  rw [readValue, hs]
  show ((readWord nullTail (nullTail ++ rest)).bind fun r => .ok (Json.null, r)) = _
  rw [hword]
  rfl

theorem skips_null (indent : Nat) : Skips (prettyOctets indent .null) := by
  intro fuel s rest hs hfuel _
  obtain ⟨fuel, rfl⟩ := Nat.exists_eq_succ_of_ne_zero (Nat.ne_of_gt (Nat.zero_lt_of_lt hfuel))
  rw [skipValue, hs]
  exact readWord_append nullTail rest

theorem prettyOctets_text (indent : Nat) (t : String) :
    prettyOctets indent (.text t) = 0x22 :: (octets (t.toList.flatMap escapeChar) ++ [0x22]) := by
  have := octets_quoted t []
  rwa [List.append_nil] at this

/-- A text is read as it is. -/
theorem reads_text (indent : Nat) (t : String) :
    Reads readValue 0 (prettyOctets indent (.text t)) (.text t) := by
  intro fuel depth s rest hs hfuel _ _
  obtain ⟨fuel, rfl⟩ := Nat.exists_eq_succ_of_ne_zero (Nat.ne_of_gt (Nat.zero_lt_of_lt hfuel))
  rw [prettyOctets_text, List.cons_append, List.append_assoc] at hs
  rw [readValue, hs]
  simp only [bind, Except.bind, if_true, List.cons_append, List.nil_append, readString_quoted]

/-- A text is read back where one is expected. -/
theorem reads_shape_text (indent : Nat) (t : String) :
    Reads (shapeReader .text) 0 (prettyOctets indent (.text t)) (.text t) := by
  intro fuel depth s rest hs hfuel _ _
  obtain ⟨fuel, rfl⟩ := Nat.exists_eq_succ_of_ne_zero (Nat.ne_of_gt (Nat.zero_lt_of_lt hfuel))
  rw [prettyOctets_text, List.cons_append, List.append_assoc] at hs
  rw [shapeReader, readShape, hs]
  simp only [readScalar, skipBlanks_cons (b := 0x22) rfl, bind, Except.bind, if_true,
    List.cons_append, List.nil_append, readString_quoted]

theorem skips_text (indent : Nat) (t : String) : Skips (prettyOctets indent (.text t)) := by
  intro fuel s rest hs hfuel _
  obtain ⟨fuel, rfl⟩ := Nat.exists_eq_succ_of_ne_zero (Nat.ne_of_gt (Nat.zero_lt_of_lt hfuel))
  rw [prettyOctets_text, List.cons_append, List.append_assoc] at hs
  rw [skipValue, hs]
  exact skipString_quoted t rest

/-! ## Numbers -/

/-- A text is read as a number, with a sign or without. -/
inductive ReadsNumber : Bytes → Numeral → Prop where
  | signed {s : Bytes} {n : Numeral}
      (hread : ∀ rest, Ended rest → readNumber true (s ++ rest) = .ok (n, rest)) :
      ReadsNumber (0x2D :: s) n
  | unsigned {b : UInt8} {s : Bytes} {n : Numeral} (hdigit : isDigit b = true)
      (hread : ∀ rest, Ended rest → readNumber false (b :: s ++ rest) = .ok (n, rest)) :
      ReadsNumber (b :: s) n

theorem ne_of_isDigit {b c : UInt8} (h : isDigit b = true) (hc : isDigit c = false) : b ≠ c := by
  rintro rfl
  rw [h] at hc
  cases hc

/-- A number is read as its value. -/
theorem ReadsNumber.value {text : Bytes} {n : Numeral} (h : ReadsNumber text n) :
    Reads readValue 0 text n.toJson := by
  intro fuel depth s rest hs hfuel _ hrest
  obtain ⟨fuel, rfl⟩ : ∃ k, fuel = k + 1 := by
    cases h <;> exact Nat.exists_eq_succ_of_ne_zero (Nat.ne_of_gt (Nat.zero_lt_of_lt hfuel))
  rw [readValue, hs]
  cases h with
  | @signed s n hread =>
    show ((readNumber true (s ++ rest)).bind fun r => .ok (r.1.toJson, r.2)) = _
    rw [hread rest hrest]
    rfl
  | @unsigned b s n hdigit hread =>
    have hread := hread rest hrest
    rw [List.cons_append] at hread ⊢
    have hne {c : UInt8} : isDigit c = false → b ≠ c := ne_of_isDigit hdigit
    simp only [bind, Except.bind, hne (c := 0x22) rfl, hne (c := 0x7B) rfl, hne (c := 0x5B) rfl,
      hne (c := 0x6E) rfl, hne (c := 0x74) rfl, hne (c := 0x66) rfl, hne (c := 0x2D) rfl, hdigit,
      if_true, if_false, hread]

/-- A number is read in the normal form of a shape of numbers. -/
theorem ReadsNumber.shape {text : Bytes} {n : Numeral} (h : ReadsNumber text n) {shape : Shape}
    (hshape : shape = .float ∨ ∃ name limit, shape = .natural name limit) {w : Json}
    (hconform : shape.conformScalar n.toJson = .ok w) :
    Reads (shapeReader shape) 0 text w := by
  intro fuel depth s rest hs hfuel _ hrest
  obtain ⟨fuel, rfl⟩ : ∃ k, fuel = k + 1 := by
    cases h <;> exact Nat.exists_eq_succ_of_ne_zero (Nat.ne_of_gt (Nat.zero_lt_of_lt hfuel))
  have hscalar : readScalar shape (text ++ rest) = .ok (w, rest) := by
    rw [readScalar, skipBlanks_of_eq hs]
    cases h with
    | @signed s n hread =>
      obtain rfl | ⟨name, limit, rfl⟩ := hshape
      all_goals
        simp only [List.cons_append, if_true, bind, Except.bind, hread rest hrest, hconform]
    | @unsigned b s n hdigit hread =>
      have hread := hread rest hrest
      rw [List.cons_append] at hread
      have hsign := ne_of_isDigit hdigit (c := 0x2D) rfl
      obtain rfl | ⟨name, limit, rfl⟩ := hshape
      all_goals
        simp only [List.cons_append, hsign, hdigit, if_true, if_false, bind, Except.bind, hread,
          hconform]
  rw [shapeReader, readShape, hs]
  rw [← hscalar]
  obtain rfl | ⟨name, limit, rfl⟩ := hshape <;> cases h <;> rfl

/-! ### Whole numbers -/

/-- The text of a whole number starts with a digit. -/
theorem exists_prettyOctets_nat (indent n : Nat) :
    ∃ b s, prettyOctets indent (.nat n) = b :: s ∧ isDigit b = true ∧
      octets (Decimal.decimalDigits n) = b :: s := by
  obtain ⟨c, cs, hdigits⟩ : ∃ c cs, Decimal.decimalDigits n = c :: cs :=
    List.exists_cons_of_ne_nil Nat.toDigits_ne_nil
  have hc := Decimal.digital_decimalDigits n c (by simp [hdigits])
  obtain ⟨b, s, hoctets, hdigit⟩ := octets_head_digit hc cs
  rw [← hdigits] at hoctets
  refine ⟨b, s, ?_, hdigit, hoctets⟩
  rw [prettyOctets, Json.nat, prettyChars, scalarChars, intChars, if_neg (by omega),
    Int.natAbs_natCast, hoctets]

/-- A whole number of 64 bits is read as a number. -/
theorem readsNumber_nat (indent : Nat) {n : Nat} (h : n ≤ maxU64) :
    ReadsNumber (prettyOctets indent (.nat n)) (.int n) := by
  obtain ⟨b, s, htext, hdigit, hoctets⟩ := exists_prettyOctets_nat indent n
  have hread (rest : Bytes) (hrest : Ended rest) := readNumber_nat h hrest
  rw [hoctets] at hread
  rw [htext]
  exact .unsigned hdigit hread

/-- A count is read as it is. -/
theorem reads_nat (indent : Nat) {n : Nat} (h : n ≤ maxU64) :
    Reads readValue 0 (prettyOctets indent (.nat n)) (.nat n) :=
  (readsNumber_nat indent h).value

/-- A whole number of 64 bits is read back where one is expected. -/
theorem reads_u64 (indent : Nat) {n : Nat} (h : n ≤ maxU64) :
    Reads (shapeReader .u64) 0 (prettyOctets indent (.nat n)) (.nat n) := by
  refine (readsNumber_nat indent h).shape (.inr ⟨_, _, rfl⟩) ?_
  have hrange : ¬ ((n : Int) < 0 || (maxU64 : Int) < n) = true := by
    simp
    omega
  exact if_neg hrange

/-! ### Floats -/

/-- The text of a finite float is its unsigned text, behind a minus sign if it is negative. -/
theorem prettyOctets_float (indent : Nat) {x : Float} (h : x.isFinite = true) :
    prettyOctets indent (.float x)
      = (if Decimal.isNegative x then [0x2D] else [])
        ++ octets (Decimal.Layout.json.unsignedChars x) := by
  rw [prettyOctets, prettyChars, scalarChars, floatChars, Decimal.not_isNaN_of_isFinite h,
    Decimal.not_isInf_of_isFinite h, Bool.or_self, if_neg Bool.false_ne_true,
    Decimal.Layout.writeChars_eq]
  split <;> rfl

/-- The text of a moderate float is read as a moderate float. -/
theorem exists_readsNumber_float (indent : Nat) {x : Float} (h : Decimal.Moderate x) :
    ∃ y, Decimal.Moderate y ∧ ReadsNumber (prettyOctets indent (.float x)) (.float y) := by
  obtain ⟨y, hy, hread⟩ := readNumber_moderate h
  refine ⟨y, hy, ?_⟩
  rw [prettyOctets_float indent h.isFinite]
  cases hsign : Decimal.isNegative x with
  | true =>
    rw [hsign] at hread
    exact .signed hread
  | false =>
    rw [hsign] at hread
    obtain ⟨c, cs, hchars, hc⟩ := Decimal.isDigit_head_unsignedChars x
    obtain ⟨b, more, hoctets, hdigit⟩ := octets_head_digit hc cs
    rw [hchars, hoctets] at hread ⊢
    exact .unsigned hdigit hread

/-! ### Numbers that are skipped -/

/-- A text that starts with a digit and is skipped as a number is skipped as a value. -/
theorem skips_unsigned {b : UInt8} {s : Bytes} (hdigit : isDigit b = true)
    (h : ∀ rest, Ended rest → skipNumber (b :: s ++ rest) = .ok rest) : Skips (b :: s) := by
  intro fuel t rest ht hfuel hrest
  obtain ⟨fuel, rfl⟩ := Nat.exists_eq_succ_of_ne_zero (Nat.ne_of_gt (Nat.zero_lt_of_lt hfuel))
  have h := h rest hrest
  rw [List.cons_append] at h ht
  have hne {c : UInt8} : isDigit c = false → b ≠ c := ne_of_isDigit hdigit
  rw [skipValue, ht]
  simp only [hne (c := 0x22) rfl, hne (c := 0x7B) rfl, hne (c := 0x5B) rfl,
    hne (c := 0x6E) rfl, hne (c := 0x74) rfl, hne (c := 0x66) rfl, hne (c := 0x2D) rfl, hdigit,
    if_true, if_false, h]

/-- A text behind a minus sign that is skipped as a number is skipped as a value. -/
theorem skips_signed {s : Bytes} (h : ∀ rest, Ended rest → skipNumber (s ++ rest) = .ok rest) :
    Skips (0x2D :: s) := by
  intro fuel t rest ht hfuel hrest
  obtain ⟨fuel, rfl⟩ := Nat.exists_eq_succ_of_ne_zero (Nat.ne_of_gt (Nat.zero_lt_of_lt hfuel))
  rw [skipValue, ht]
  exact h rest hrest

theorem skips_nat (indent n : Nat) : Skips (prettyOctets indent (.nat n)) := by
  obtain ⟨b, s, htext, hdigit, hoctets⟩ := exists_prettyOctets_nat indent n
  rw [htext]
  refine skips_unsigned hdigit fun rest hrest => ?_
  have hskip := @skipNumber_numberChars (Decimal.decimalDigits n) [] none
    (by simpa using Decimal.digital_decimalDigits n) Nat.toDigits_ne_nil
    (fun _ => Decimal.eq_nil_of_leading_zero) rest hrest
  have hchars : Decimal.numberChars (Decimal.decimalDigits n) [] none
      = Decimal.decimalDigits n := by
    simp [Decimal.numberChars]
  rwa [hchars, hoctets] at hskip

/-- Every float is skipped, also one that is written as `null`. -/
theorem skips_float (indent : Nat) (x : Float) : Skips (prettyOctets indent (.float x)) := by
  by_cases h : (x.isNaN || x.isInf) = true
  · have hnull : prettyOctets indent (.float x) = prettyOctets indent .null := by
      rw [prettyOctets, prettyChars, scalarChars, floatChars, if_pos h]
      rfl
    rw [hnull]
    exact skips_null indent
  obtain ⟨whole, fraction, exponent, hchars, hliteral, -⟩ := Decimal.exists_literal x
  have hskip (rest : Bytes) (hrest : Ended rest) :
      skipNumber (octets (Decimal.Layout.json.unsignedChars x) ++ rest) = .ok rest :=
    hchars ▸ skipNumber_numberChars hliteral.digital hliteral.nonempty hliteral.leading hrest
  rw [prettyOctets, prettyChars, scalarChars, floatChars, if_neg h, Decimal.Layout.writeChars_eq]
  split
  · exact skips_signed hskip
  · obtain ⟨c, cs, hchars, hc⟩ := Decimal.isDigit_head_unsignedChars x
    obtain ⟨b, more, hoctets, hdigit⟩ := octets_head_digit hc cs
    rw [hchars, hoctets] at hskip ⊢
    exact skips_unsigned hdigit hskip

/-! ## Fields -/

/-- A field reads what its shape reads. -/
theorem reads_field {f : Field} {levels : Nat} {b : UInt8} {text : Bytes} {v : Json}
    (hb : b ≠ 0x6E) (h : Reads (shapeReader f.shape) levels (b :: text) v) :
    Reads (fieldReader f) levels (b :: text) v := by
  intro fuel depth s rest hs hfuel hdepth hrest
  have hread := h fuel depth _ rest (skipBlanks_of_eq hs) hfuel hdepth hrest
  have hnull : ¬ (f.nullable && b == 0x6E) = true := by simp [hb]
  rw [fieldReader, readField, hs, List.cons_append]
  dsimp only
  rw [if_neg hnull]
  exact hread

/-- A field that may be `null` reads `null`. -/
theorem reads_field_null {f : Field} (h : f.nullable = true) (indent : Nat) :
    Reads (fieldReader f) 0 (prettyOctets indent .null) .null := by
  intro fuel depth s rest hs hfuel _ _
  have hword : readWord nullTail (nullTail ++ rest) = .ok rest := readWord_append nullTail rest
  rw [fieldReader, readField, hs]
  show (if f.nullable && true then (readWord nullTail (nullTail ++ rest)).map
    fun rest => (Json.null, rest) else _) = _
  rw [h, hword]
  rfl

end EvalProxy.Json
