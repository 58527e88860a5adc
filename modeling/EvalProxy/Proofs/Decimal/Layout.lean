/-
# The text of a float gives the float back

Whichever way the digits of a decimal are laid out, the text stands for the same number. So the text
of a float gives its shortest decimal back, and with it the float.

Main definition: `reading`.
Main statements: `reading_positionalChars`, `reading_exponentChars`, `Layout.writeChars_json_inj`.
-/
import EvalProxy.Decimal.Layout
import EvalProxy.Proofs.Decimal.Shortest
namespace EvalProxy.Decimal

/-! ## Digits -/

/-- Whether text consists of digits. -/
def Digital (cs : List Char) : Prop := ∀ c ∈ cs, c.isDigit = true

/-- The whole number that digits spell. -/
def spelt (cs : List Char) : Nat := Nat.ofDigitChars 10 cs 0

theorem digital_decimalDigits (n : Nat) : Digital (decimalDigits n) :=
  fun _ hc => Nat.isDigit_of_mem_toDigits (by decide) (by decide) hc

theorem digital_append {xs ys : List Char} : Digital (xs ++ ys) ↔ Digital xs ∧ Digital ys :=
  List.forall_mem_append

theorem digital_zeros (n : Nat) : Digital (List.replicate n '0') := by
  intro c hc
  rw [List.eq_of_mem_replicate hc]
  rfl

theorem Digital.take {cs : List Char} (h : Digital cs) (n : Nat) : Digital (cs.take n) :=
  fun c hc => h c (List.mem_of_mem_take hc)

theorem Digital.drop {cs : List Char} (h : Digital cs) (n : Nat) : Digital (cs.drop n) :=
  fun c hc => h c (List.mem_of_mem_drop hc)

/-- A character that is no digit stands in no digits. -/
theorem Digital.not_mem {cs : List Char} (h : Digital cs) {c : Char} (hc : c.isDigit = false) :
    c ∉ cs := by
  intro hmem
  rw [h c hmem] at hc
  cases hc

/-- The decimal text of a whole number spells it. -/
theorem spelt_decimalDigits (n : Nat) : spelt (decimalDigits n) = n :=
  Nat.ofDigitChars_ten_toDigits

/-- The digits of a number are its own. -/
theorem decimalDigits_inj {m n : Nat} (h : decimalDigits m = decimalDigits n) : m = n := by
  rw [← spelt_decimalDigits m, h, spelt_decimalDigits]

/-- Zeros behind the digits multiply by ten. -/
theorem spelt_append_zeros (cs : List Char) (n : Nat) :
    spelt (cs ++ List.replicate n '0') = 10 ^ n * spelt cs := by
  rw [spelt, Nat.ofDigitChars_append, Nat.ofDigitChars_replicate_zero, spelt]

/-- Zeros before the digits change nothing. -/
theorem spelt_zeros_append (cs : List Char) (n : Nat) :
    spelt (List.replicate n '0' ++ cs) = spelt cs := by
  rw [spelt, Nat.ofDigitChars_append, Nat.ofDigitChars_replicate_zero, Nat.mul_zero, spelt]

/-! ## The number that text stands for -/

/-- The text before the first mark. -/
def before (mark : Char) (cs : List Char) : List Char := cs.takeWhile (· != mark)

/-- The text behind the first mark. -/
def behindMark (mark : Char) (cs : List Char) : List Char := (cs.dropWhile (· != mark)).tail

/-- The text before a mark is all that stands before its first occurrence. -/
theorem before_append {mark : Char} {xs : List Char} (h : mark ∉ xs) (ys : List Char) :
    before mark (xs ++ mark :: ys) = xs := by
  induction xs with
  | nil => simp [before]
  | cons x xs ih =>
    obtain ⟨hx, hxs⟩ := not_or.1 (mt List.mem_cons.2 h)
    have hx : x ≠ mark := Ne.symm hx
    simpa [before, hx] using ih hxs

/-- Without a mark the whole text is before it. -/
theorem before_of_not_mem {mark : Char} {xs : List Char} (h : mark ∉ xs) : before mark xs = xs := by
  have hall : ∀ x ∈ xs, (x != mark) = true := by
    intro x hx
    rw [bne_iff_ne]
    rintro rfl
    exact h hx
  have hsplit : (xs ++ []).takeWhile (· != mark) = xs ++ [].takeWhile (· != mark) :=
    List.takeWhile_append_of_pos hall
  rwa [List.append_nil, List.takeWhile_nil, List.append_nil] at hsplit

/-- The text behind a mark is all that follows its first occurrence. -/
theorem behindMark_append {mark : Char} {xs : List Char} (h : mark ∉ xs) (ys : List Char) :
    behindMark mark (xs ++ mark :: ys) = ys := by
  induction xs with
  | nil => simp [behindMark]
  | cons x xs ih =>
    obtain ⟨hx, hxs⟩ := not_or.1 (mt List.mem_cons.2 h)
    have hx : x ≠ mark := Ne.symm hx
    simpa [behindMark, hx] using ih hxs

/-- Without a mark nothing is behind it. -/
theorem behindMark_of_not_mem {mark : Char} {xs : List Char} (h : mark ∉ xs) :
    behindMark mark xs = [] := by
  have hnone : xs.dropWhile (· != mark) = [] := by
    have hsplit : xs.takeWhile (· != mark) ++ xs.dropWhile (· != mark) = xs :=
      List.takeWhile_append_dropWhile
    have hall : xs.takeWhile (· != mark) = xs := before_of_not_mem h
    rw [hall] at hsplit
    exact List.append_right_eq_self.1 hsplit
  rw [behindMark, hnone, List.tail_nil]

/-- The whole number that digits behind a sign spell. -/
def signedReading : List Char → Int
  | '-' :: cs => -spelt cs
  | '+' :: cs => spelt cs
  | _ => 0

/-- The number that digits with at most one point stand for. -/
def pointReading (cs : List Char) : ℚ :=
  spelt (before '.' cs ++ behindMark '.' cs) * 10 ^ (-(behindMark '.' cs).length : Int)

/-- The number that decimal text stands for: digits with a point, and perhaps an exponent. -/
def reading (cs : List Char) : ℚ :=
  pointReading (before 'e' cs) * 10 ^ signedReading (behindMark 'e' cs)

/-- Digits without a point stand for the whole number that they spell. -/
theorem pointReading_digits {cs : List Char} (h : Digital cs) : pointReading cs = spelt cs := by
  have hpoint : '.' ∉ cs := h.not_mem rfl
  rw [pointReading, before_of_not_mem hpoint, behindMark_of_not_mem hpoint]
  simp

/-- Digits with a point stand for the number they spell together, moved by the fraction's length. -/
theorem pointReading_point {whole : List Char} (h : Digital whole) (fraction : List Char) :
    pointReading (whole ++ '.' :: fraction)
      = spelt (whole ++ fraction) * 10 ^ (-fraction.length : Int) := by
  have hpoint : '.' ∉ whole := h.not_mem rfl
  rw [pointReading, before_append hpoint, behindMark_append hpoint]

/-- Without an exponent a text stands for what its digits and its point do. -/
theorem reading_of_not_mem {cs : List Char} (h : 'e' ∉ cs) : reading cs = pointReading cs := by
  rw [reading, before_of_not_mem h, behindMark_of_not_mem h]
  simp [signedReading]

/-- Digits with a point and no exponent are read as digits with a point. -/
theorem reading_point {whole fraction : List Char} (hwhole : Digital whole)
    (hfraction : Digital fraction) :
    reading (whole ++ '.' :: fraction)
      = spelt (whole ++ fraction) * 10 ^ (-fraction.length : Int) := by
  have hmark : 'e' ∉ whole ++ '.' :: fraction := by
    simp [hwhole.not_mem (c := 'e') rfl, hfraction.not_mem (c := 'e') rfl]
  rw [reading_of_not_mem hmark, pointReading_point hwhole]

/-- An exponent moves the point of what stands before it. -/
theorem reading_exponent {mantissa : List Char} (h : 'e' ∉ mantissa) (exponent : List Char) :
    reading (mantissa ++ 'e' :: exponent)
      = pointReading mantissa * 10 ^ signedReading exponent := by
  rw [reading, before_append h, behindMark_append h]

/-! ## Layouts -/

/-- A fraction stands for the same number wherever the zeros are. -/
theorem mul_zpow_eq {a b : ℚ} (n : Nat) {i j : Int} (hab : a = 10 ^ n * b) (hij : j = n + i) :
    a * 10 ^ i = b * 10 ^ j := by
  rw [hab, hij, zpow_add₀ (by norm_num), zpow_natCast]
  ring

/-- A text is a whole part and a fraction, which stand for digits with the point behind the place
`leading`. -/
def Pointed (digits : List Char) (leading : Int) (cs : List Char) : Prop :=
  ∃ c whole fraction, cs = c :: whole ++ '.' :: fraction ∧
    Digital (c :: whole) ∧ Digital fraction ∧
    (spelt (c :: whole ++ fraction) : ℚ) * 10 ^ (-fraction.length : Int)
      = spelt digits * 10 ^ (leading + 1 - digits.length)

/-- Small numbers have zeros behind the point. -/
theorem pointed_zeros_append {digits : List Char} (h : Digital digits) {leading : Int}
    (hneg : leading < 0) :
    Pointed digits leading
      ('0' :: [] ++ '.' :: (List.replicate (-leading - 1).toNat '0' ++ digits)) := by
  refine ⟨_, _, _, rfl, digital_zeros 1, digital_append.2 ⟨digital_zeros _, h⟩, ?_⟩
  have hspelt : spelt ('0' :: [] ++ (List.replicate (-leading - 1).toNat '0' ++ digits))
      = spelt digits := by
    rw [← spelt_zeros_append digits (1 + (-leading - 1).toNat), List.replicate_add,
      List.append_assoc]
    rfl
  rw [hspelt]
  congr 2
  rw [List.length_append, List.length_replicate]
  omega

/-- Large numbers have zeros behind the digits. -/
theorem pointed_append_zeros {d : Char} {rest : List Char} (h : Digital (d :: rest)) {leading : Int}
    (hneg : ¬ leading < 0) (hwhole : (d :: rest).length ≤ leading.toNat + 1) :
    Pointed (d :: rest) leading
      (d :: (rest ++ List.replicate (leading.toNat + 1 - (d :: rest).length) '0')
        ++ '.' :: ['0']) := by
  set k := leading.toNat + 1 - (d :: rest).length with hk
  refine ⟨_, _, _, rfl, ?_, digital_zeros 1, mul_zpow_eq (k + 1) ?_ ?_⟩
  · rw [← List.cons_append]
    exact digital_append.2 ⟨h, digital_zeros k⟩
  · have hspelt : spelt (d :: (rest ++ List.replicate k '0') ++ ['0'])
        = 10 ^ (k + 1) * spelt (d :: rest) := by
      rw [← spelt_append_zeros, List.replicate_succ']
      simp
    rw [hspelt]
    push_cast
    rfl
  · rw [List.length_singleton]
    omega

/-- Other numbers have the point between the digits. -/
theorem pointed_take_drop {d : Char} {rest : List Char} (h : Digital (d :: rest)) {leading : Int}
    (hneg : ¬ leading < 0) (hwhole : ¬ (d :: rest).length ≤ leading.toNat + 1) :
    Pointed (d :: rest) leading
      (d :: rest.take leading.toNat ++ '.' :: rest.drop leading.toNat) := by
  refine ⟨_, _, _, rfl, h.take (leading.toNat + 1), h.drop (leading.toNat + 1), ?_⟩
  rw [List.cons_append, List.take_append_drop]
  congr 2
  rw [List.length_drop]
  rw [List.length_cons] at hwhole ⊢
  omega

/-- Digits laid out positionally are a whole part and a fraction. -/
theorem pointed_positionalChars {digits : List Char} (h : Digital digits) (hne : digits ≠ [])
    (leading : Int) : Pointed digits leading (positionalChars true digits leading) := by
  obtain ⟨d, rest, rfl⟩ := List.exists_cons_of_ne_nil hne
  by_cases hneg : leading < 0
  · have hchars : positionalChars true (d :: rest) leading
        = '0' :: [] ++ '.' :: (List.replicate (-leading - 1).toNat '0' ++ d :: rest) := by
      simp [positionalChars, hneg]
    rw [hchars]
    exact pointed_zeros_append h hneg
  by_cases hwhole : (d :: rest).length ≤ leading.toNat + 1
  · have hchars : positionalChars true (d :: rest) leading
        = d :: (rest ++ List.replicate (leading.toNat + 1 - (d :: rest).length) '0')
          ++ '.' :: ['0'] := by
      simp only [positionalChars, hneg, hwhole, if_true, if_false]
      rfl
    rw [hchars]
    exact pointed_append_zeros h hneg hwhole
  · have hchars : positionalChars true (d :: rest) leading
        = d :: rest.take leading.toNat ++ '.' :: rest.drop leading.toNat := by
      simp only [positionalChars, hneg, hwhole, if_false]
      rfl
    rw [hchars]
    exact pointed_take_drop h hneg hwhole

/-- **Digits laid out positionally** stand for their number. -/
theorem reading_positionalChars {digits : List Char} (h : Digital digits) (hne : digits ≠ [])
    (leading : Int) :
    reading (positionalChars true digits leading)
      = spelt digits * 10 ^ (leading + 1 - digits.length) := by
  obtain ⟨c, whole, fraction, hchars, hwhole, hfraction, hvalue⟩ :=
    pointed_positionalChars h hne leading
  rw [hchars, reading_point hwhole hfraction, hvalue]

/-- A whole number behind its sign is read back. -/
theorem signedReading_sign (leading : Int) :
    signedReading ((if leading < 0 then '-' else '+') :: decimalDigits leading.natAbs)
      = leading := by
  split
  · rw [signedReading, spelt_decimalDigits]
    omega
  · rw [signedReading, spelt_decimalDigits]
    omega

/-- The sign and the digits of an exponent, behind its mark. -/
def exponentPart (leading : Int) : List Char :=
  'e' :: (if leading < 0 then '-' else '+') :: decimalDigits leading.natAbs

theorem exponentChars_one (d : Char) (leading : Int) :
    exponentChars [d] leading = [d] ++ exponentPart leading := rfl

theorem exponentChars_more (d e : Char) (rest : List Char) (leading : Int) :
    exponentChars (d :: e :: rest) leading = [d] ++ '.' :: e :: rest ++ exponentPart leading := rfl

/-- **Digits with an exponent** stand for their number. -/
theorem reading_exponentChars {digits : List Char} (h : Digital digits) (hne : digits ≠ [])
    (leading : Int) :
    reading (exponentChars digits leading)
      = spelt digits * 10 ^ (leading + 1 - digits.length) := by
  have hmark : 'e' ∉ digits := h.not_mem rfl
  match digits, hne with
  | [d], _ =>
    rw [exponentChars_one, exponentPart, reading_exponent hmark, pointReading_digits h,
      signedReading_sign]
    simp
  | d :: e :: rest, _ =>
    have hmark : 'e' ∉ [d] ++ '.' :: e :: rest := by simp_all
    have hfirst : Digital [d] := h.take 1
    rw [exponentChars_more, exponentPart, reading_exponent hmark, signedReading_sign,
      pointReading_point hfirst, mul_assoc, ← zpow_add₀ (by norm_num)]
    congr 2
    simp only [List.length_cons]
    omega

/-! ## The text of a float -/

/-- The text of a float without its sign. -/
def Layout.unsignedChars (layout : Layout) (x : Float) : List Char :=
  let d := (Magnitude.ofFloat x).shortest
  if layout.positional d.leading then
    positionalChars layout.keepPoint (decimalDigits d.significand) d.leading
  else exponentChars (decimalDigits d.significand) d.leading

/-- A negative float is written as its unsigned text behind a minus sign. -/
theorem Layout.writeChars_eq (layout : Layout) (x : Float) :
    layout.writeChars x
      = if isNegative x then '-' :: layout.unsignedChars x else layout.unsignedChars x :=
  rfl

/-- The text of a float without its sign stands for its shortest decimal. -/
theorem reading_unsignedChars (x : Float) :
    reading (Layout.json.unsignedChars x) = (Magnitude.ofFloat x).shortest.value := by
  set d := (Magnitude.ofFloat x).shortest with hd
  have hvalue : spelt (decimalDigits d.significand)
      * 10 ^ (d.leading + 1 - (decimalDigits d.significand).length) = d.value := by
    rw [spelt_decimalDigits, Digits.value, Digits.leading]
    congr 2
    omega
  rw [Layout.unsignedChars, ← hd, ← hvalue]
  split
  · exact reading_positionalChars (digital_decimalDigits _) Nat.toDigits_ne_nil _
  · exact reading_exponentChars (digital_decimalDigits _) Nat.toDigits_ne_nil _

/-! ### Its characters -/

/-- The characters of numbers: digits, signs, the point and the mark of the exponent. -/
def isNumberChar (c : Char) : Bool := c.isDigit || c == '-' || c == '+' || c == '.' || c == 'e'

/-- Whether text consists of the characters of numbers. -/
def Numeric (cs : List Char) : Prop := ∀ c ∈ cs, isNumberChar c = true

/-- Digits are characters of numbers. -/
theorem Digital.numeric {cs : List Char} (h : Digital cs) : Numeric cs := by
  intro c hc
  rw [isNumberChar, h c hc]
  rfl

theorem numeric_append {xs ys : List Char} : Numeric (xs ++ ys) ↔ Numeric xs ∧ Numeric ys :=
  List.forall_mem_append

theorem numeric_cons {c : Char} {cs : List Char} :
    Numeric (c :: cs) ↔ isNumberChar c = true ∧ Numeric cs :=
  List.forall_mem_cons

/-- Text with a point in its place consists of the characters of numbers. -/
theorem numeric_positionalChars {digits : List Char} (h : Digital digits) (hne : digits ≠ [])
    (leading : Int) : Numeric (positionalChars true digits leading) := by
  obtain ⟨c, whole, fraction, hchars, hwhole, hfraction, -⟩ := pointed_positionalChars h hne leading
  rw [hchars]
  exact numeric_append.2 ⟨hwhole.numeric, numeric_cons.2 ⟨rfl, hfraction.numeric⟩⟩

theorem numeric_exponentPart (leading : Int) : Numeric (exponentPart leading) := by
  refine numeric_cons.2 ⟨rfl, numeric_cons.2 ⟨?_, (digital_decimalDigits _).numeric⟩⟩
  split <;> rfl

theorem numeric_exponentChars {digits : List Char} (h : Digital digits) (hne : digits ≠ [])
    (leading : Int) : Numeric (exponentChars digits leading) := by
  match digits, hne with
  | [d], _ => exact numeric_append.2 ⟨h.numeric, numeric_exponentPart leading⟩
  | d :: e :: rest, _ =>
    rw [exponentChars_more]
    refine numeric_append.2 ⟨?_, numeric_exponentPart leading⟩
    exact numeric_append.2 ⟨(h.take 1).numeric, numeric_cons.2 ⟨rfl, (h.drop 1).numeric⟩⟩

/-- The unsigned text of a float consists of the characters of numbers. -/
theorem numeric_unsignedChars (x : Float) : Numeric (Layout.json.unsignedChars x) := by
  rw [Layout.unsignedChars]
  split
  · exact numeric_positionalChars (digital_decimalDigits _) Nat.toDigits_ne_nil _
  · exact numeric_exponentChars (digital_decimalDigits _) Nat.toDigits_ne_nil _

/-- The text of a float consists of the characters of numbers. -/
theorem numeric_writeChars (x : Float) : Numeric (Layout.json.writeChars x) := by
  rw [Layout.writeChars_eq]
  split
  · exact numeric_cons.2 ⟨rfl, numeric_unsignedChars x⟩
  · exact numeric_unsignedChars x

/-- Text with an exponent starts with a digit. -/
theorem isDigit_head_exponentChars {digits : List Char} (h : Digital digits) (hne : digits ≠ [])
    (leading : Int) :
    ∃ c cs, exponentChars digits leading = c :: cs ∧ c.isDigit = true := by
  match digits, hne with
  | [d], _ => exact ⟨_, _, rfl, h d (by simp)⟩
  | d :: e :: rest, _ => exact ⟨_, _, rfl, h d (by simp)⟩

/-- The text of a float without its sign starts with a digit. -/
theorem isDigit_head_unsignedChars (x : Float) :
    ∃ c cs, Layout.json.unsignedChars x = c :: cs ∧ c.isDigit = true := by
  have hdigits := digital_decimalDigits (Magnitude.ofFloat x).shortest.significand
  rw [Layout.unsignedChars]
  split
  · obtain ⟨c, whole, fraction, hchars, hwhole, -, -⟩ :=
      pointed_positionalChars hdigits Nat.toDigits_ne_nil (Magnitude.ofFloat x).shortest.leading
    exact ⟨c, _, hchars, hwhole c (by simp)⟩
  · exact isDigit_head_exponentChars hdigits Nat.toDigits_ne_nil _

/-- The text of a float holds a point or an exponent, so that it is the text of no whole number. -/
theorem mark_mem_writeChars (x : Float) :
    '.' ∈ Layout.json.writeChars x ∨ 'e' ∈ Layout.json.writeChars x := by
  have hdigits := digital_decimalDigits (Magnitude.ofFloat x).shortest.significand
  have hmark : '.' ∈ Layout.json.unsignedChars x ∨ 'e' ∈ Layout.json.unsignedChars x := by
    rw [Layout.unsignedChars]
    split
    · left
      obtain ⟨c, whole, fraction, hchars, -⟩ :=
        pointed_positionalChars hdigits Nat.toDigits_ne_nil (Magnitude.ofFloat x).shortest.leading
      show '.' ∈ positionalChars true _ _
      rw [hchars]
      simp
    · right
      simp [exponentChars]
  rw [Layout.writeChars_eq]
  split
  · exact hmark.imp (List.mem_cons_of_mem _) (List.mem_cons_of_mem _)
  · exact hmark

/-! ### Its float -/

/-- Magnitudes with the same shortest decimal are the same. -/
theorem Magnitude.eq_of_shortest_eq {m n : Magnitude} (hm : m.Canonical) (hn : n.Canonical)
    (h : m.shortest.value = n.shortest.value) :
    m.mantissa = n.mantissa ∧ m.exponent = n.exponent := by
  have hzero {k : Magnitude} (hk : k.mantissa = 0) : k.shortest.value = 0 := by
    rw [shortest, if_pos hk, Digits.value]
    simp
  have hpos {k : Magnitude} (hk : k.Canonical) (hne : k.mantissa ≠ 0) : 0 < k.shortest.value :=
    pos_of_rounds hne (rounds_shortest hk hne)
  -- zero has one exponent only
  have hleast {k : Magnitude} (hk : k.Canonical) (hz : k.mantissa = 0) : k.exponent = -1074 := by
    by_contra hne
    have := hk.full hne
    omega
  by_cases hmz : m.mantissa = 0 <;> by_cases hnz : n.mantissa = 0
  · rw [hmz, hnz, hleast hm hmz, hleast hn hnz]
    exact ⟨rfl, rfl⟩
  · rw [hzero hmz] at h
    exact absurd h (hpos hn hnz).ne
  · rw [hzero hnz] at h
    exact absurd h (hpos hm hmz).ne'
  · have hround := rounds_shortest hn hnz
    rw [← h] at hround
    exact eq_of_rounds hm hn (rounds_shortest hm hmz) hround

/-- **No two floats have the same text.** -/
theorem Layout.writeChars_json_inj {x y : Float}
    (h : Layout.json.writeChars x = Layout.json.writeChars y) : x = y := by
  obtain ⟨c, cs, hx, hc⟩ := isDigit_head_unsignedChars x
  obtain ⟨d, ds, hy, hd⟩ := isDigit_head_unsignedChars y
  -- a sign is no digit, so both have one or none
  have hboth : isNegative x = isNegative y ∧
      Layout.json.unsignedChars x = Layout.json.unsignedChars y := by
    rw [writeChars_eq, writeChars_eq, hx, hy] at h
    rw [hx, hy]
    generalize isNegative x = sx at h ⊢
    generalize isNegative y = sy at h ⊢
    cases sx <;> cases sy
    · exact ⟨rfl, h⟩
    · obtain ⟨rfl, -⟩ : c = '-' ∧ cs = d :: ds := List.cons.inj h
      cases hc
    · obtain ⟨rfl, -⟩ : '-' = d ∧ c :: cs = ds := List.cons.inj h
      cases hd
    · exact ⟨rfl, (List.cons.inj h).2⟩
  obtain ⟨hsign, hchars⟩ := hboth
  have hvalue : (Magnitude.ofFloat x).shortest.value = (Magnitude.ofFloat y).shortest.value := by
    rw [← reading_unsignedChars, hchars, reading_unsignedChars]
  obtain ⟨hmantissa, hexponent⟩ := Magnitude.eq_of_shortest_eq (Magnitude.canonical_ofFloat x)
    (Magnitude.canonical_ofFloat y) hvalue
  exact Magnitude.ofFloat_inj hsign hmantissa hexponent

end EvalProxy.Decimal
