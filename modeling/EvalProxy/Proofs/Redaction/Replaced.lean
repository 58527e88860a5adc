/-
# Texts with replaced occurrences

What stands in a text once the occurrences of a pattern are replaced, where a mark in brackets takes
the place of what an occurrence covers; and when two parts of a text can be replaced apart.

Main definition: `Masks`.
Main statements: `Masks.induction`, `infix_replaceAll`, `replaceAll_append`.
-/
import EvalProxy.Redaction
import Mathlib.Data.List.Infix
namespace EvalProxy.Redaction

/-! ## Replacing -/

section

variable {p : Pattern} {s : List Char}

/-- To skip characters is to replace from behind them. -/
theorem replaceFrom_eq (p : Pattern) (skip : Nat) (s : List Char) :
    replaceFrom p skip s = replaceAll p (s.drop skip) := by
  induction s generalizing skip with
  | nil =>
    rw [List.drop_nil]
    cases skip <;> rfl
  | cons c rest ih =>
    cases skip with
    | zero => rfl
    | succ skip => exact ih skip

/-- A character at which no occurrence begins stays. -/
theorem replaceAll_of_none {c : Char} {rest : List Char} (h : p (c :: rest) = none) :
    replaceAll p (c :: rest) = c :: replaceAll p rest := by
  rw [replaceAll, replaceFrom, h]
  rfl

/-- What an occurrence covers is replaced. -/
theorem replaceAll_of_some {n : Nat} {text : List Char} (h : p s = some (n, text)) (hn : 0 < n)
    (hs : s ≠ []) : replaceAll p s = text ++ replaceAll p (s.drop n) := by
  obtain ⟨c, rest, rfl⟩ := List.exists_cons_of_ne_nil hs
  obtain ⟨n, rfl⟩ := Nat.exists_eq_add_of_lt hn
  rw [replaceAll, replaceFrom, h]
  simp only [Nat.zero_add, Nat.add_sub_cancel, List.drop_succ_cons, replaceFrom_eq]

/-- A text in which no occurrence begins is left as it is. -/
theorem replaceAll_eq_self (h : ∀ t, t <:+ s → p t = none) : replaceAll p s = s := by
  induction s with
  | nil => rfl
  | cons c rest ih =>
    rw [replaceAll_of_none (h _ List.suffix_rfl), ih]
    exact fun t ht => h t (ht.trans (List.suffix_cons c rest))

end

/-! ## Marks -/

/-- An occurrence of a pattern is some text that is kept, which may be empty, and some that is not;
a mark takes the place of the latter. -/
def Masks (p : Pattern) (mark : List Char) : Prop :=
  ∀ s n text, p s = some (n, text) →
    ∃ kept gone rest, s = kept ++ gone ++ rest ∧ gone ≠ [] ∧ n = (kept ++ gone).length ∧
      text = kept ++ mark

section

variable {u a b : List Char} {c : Char}

/-- A prefix without some character ends before its first occurrence. -/
theorem prefix_of_prefix_append_cons (h : u <+: a ++ c :: b) (hc : c ∉ u) : u <+: a := by
  rcases Nat.lt_or_ge a.length u.length with hlt | hle
  · have hmark : a ++ [c] <+: u := by
      refine List.prefix_of_prefix_length_le ⟨b, by simp⟩ h ?_
      rw [List.length_append]
      exact hlt
    exact absurd (hmark.subset (by simp)) hc
  · exact List.prefix_of_prefix_length_le h (List.prefix_append a _) hle

/-- What does not hold a separator stands on one side of it. -/
theorem infix_or_infix_of_infix_append_cons (h : u <:+: a ++ c :: b) (hc : c ∉ u) :
    u <:+: a ∨ u <:+: b := by
  induction a with
  | nil =>
    rcases List.infix_cons_iff.1 h with hinit | hinfix
    · exact .inl (prefix_of_prefix_append_cons (a := []) hinit hc).isInfix
    · exact .inr hinfix
  | cons d a ih =>
    rcases List.infix_cons_iff.1 h with hinit | hinfix
    · exact .inl (prefix_of_prefix_append_cons (a := d :: a) hinit hc).isInfix
    · exact (ih hinfix).imp_left fun h => h.trans (List.suffix_cons d a).isInfix

end

section

variable {p : Pattern} {mark inner : List Char}

/-- A text is gone through from the left: an occurrence is passed as a whole, any other character
alone. -/
theorem Masks.induction (hp : Masks p mark) {motive : List Char → Prop} (nil : motive [])
    (plain : ∀ c rest, p (c :: rest) = none → motive rest → motive (c :: rest))
    (masked : ∀ kept gone rest, gone ≠ [] →
      p (kept ++ gone ++ rest) = some ((kept ++ gone).length, kept ++ mark) → motive rest →
        motive (kept ++ gone ++ rest))
    (s : List Char) : motive s := by
  induction hlength : s.length using Nat.strong_induction_on generalizing s with
  | _ length ih =>
    cases s with
    | nil => exact nil
    | cons c rest =>
      cases hfound : p (c :: rest) with
      | none => exact plain c rest hfound (ih rest.length (by simp [← hlength]) rest rfl)
      | some found =>
        obtain ⟨n, text⟩ := found
        obtain ⟨kept, gone, later, heq, hgone, rfl, rfl⟩ := hp _ _ _ hfound
        rw [heq] at hfound hlength ⊢
        refine masked kept gone later hgone hfound (ih later.length ?_ later rfl)
        have hpos := List.length_pos_iff.2 hgone
        simp only [List.length_append] at hlength
        omega

/-- A secret in front is masked, and the rest is replaced by itself. -/
theorem replaceAll_masked {kept gone rest : List Char} (hgone : gone ≠ [])
    (h : p (kept ++ gone ++ rest) = some ((kept ++ gone).length, kept ++ mark)) :
    replaceAll p (kept ++ gone ++ rest) = kept ++ mark ++ replaceAll p rest := by
  have hpos := List.length_pos_iff.2 hgone
  rw [replaceAll_of_some h (by rw [List.length_append]; omega) (by simp [hgone]), List.drop_left]

/-- A beginning without an opening bracket is a beginning of the text before it was replaced. -/
theorem prefix_of_prefix_replaceAll (hp : Masks p ('[' :: mark)) {s u : List Char}
    (h : u <+: replaceAll p s) (hopen : '[' ∉ u) : u <+: s := by
  induction s using hp.induction generalizing u with
  | nil => exact h
  | plain c rest hnone ih =>
    rw [replaceAll_of_none hnone] at h
    cases u with
    | nil => exact List.nil_prefix
    | cons d u =>
      obtain ⟨rfl, htail⟩ := List.cons_prefix_cons.1 h
      exact List.cons_prefix_cons.2 ⟨rfl, ih htail (List.not_mem_of_not_mem_cons hopen)⟩
  | masked kept gone rest hgone hsome ih =>
    rw [replaceAll_masked hgone hsome, List.append_assoc, List.cons_append] at h
    rw [List.append_assoc]
    exact (prefix_of_prefix_append_cons h hopen).trans (List.prefix_append kept _)

/-- **What stands in a text after replacing**, and has no brackets in it, stands in a mark, or it
begins in the old text where no occurrence does, or it is in the kept part of an occurrence. -/
theorem infix_replaceAll (hp : Masks p ('[' :: (inner ++ [']']))) {s u : List Char}
    (h : u <:+: replaceAll p s) (hopen : '[' ∉ u) (hclose : ']' ∉ u) :
    u <:+: inner ∨ (∃ t, t <:+ s ∧ p t = none ∧ u <+: t) ∨
      ∃ t n kept, t <:+ s ∧ p t = some (n, kept ++ '[' :: (inner ++ [']'])) ∧ u <:+: kept := by
  induction s using hp.induction with
  | nil =>
    obtain rfl := List.infix_nil.1 h
    exact .inl List.nil_infix
  | plain c rest hnone ih =>
    have hrest := List.suffix_cons c rest
    rw [replaceAll_of_none hnone, List.infix_cons_iff, ← replaceAll_of_none hnone] at h
    rcases h with hinit | hinfix
    · exact .inr (.inl ⟨_, List.suffix_rfl, hnone, prefix_of_prefix_replaceAll hp hinit hopen⟩)
    · rcases ih hinfix with hinner | ⟨t, ht, hfound⟩ | ⟨t, n, kept, ht, hfound⟩
      · exact .inl hinner
      · exact .inr (.inl ⟨t, ht.trans hrest, hfound⟩)
      · exact .inr (.inr ⟨t, n, kept, ht.trans hrest, hfound⟩)
  | masked kept gone rest hgone hsome ih =>
    have hrest : rest <:+ kept ++ gone ++ rest := List.suffix_append _ rest
    rw [replaceAll_masked hgone hsome, List.append_assoc, List.cons_append, List.append_assoc] at h
    -- the brackets of the mark part what is kept, the mark and the rest
    rcases infix_or_infix_of_infix_append_cons h hopen with hkept | h
    · exact .inr (.inr ⟨_, _, kept, List.suffix_rfl, hsome, hkept⟩)
    rcases infix_or_infix_of_infix_append_cons h hclose with hinner | h
    · exact .inl hinner
    rcases ih h with hinner | ⟨t, ht, hfound⟩ | ⟨t, n, kept, ht, hfound⟩
    · exact .inl hinner
    · exact .inr (.inl ⟨t, ht.trans hrest, hfound⟩)
    · exact .inr (.inr ⟨t, n, kept, ht.trans hrest, hfound⟩)

end

/-! ## Texts in two parts -/

section

variable {p : Pattern} {mark x y : List Char}

/-- **Two parts of a text are replaced apart** if the second one changes no occurrence that begins
in the first. -/
theorem replaceAll_append (hp : Masks p mark) (h : ∀ s, s ≠ [] → s <:+ x → p (s ++ y) = p s) :
    replaceAll p (x ++ y) = replaceAll p x ++ replaceAll p y := by
  induction x using hp.induction with
  | nil => rfl
  | plain c rest hnone ih =>
    have hboth := h _ (List.cons_ne_nil c rest) List.suffix_rfl
    rw [hnone, List.cons_append] at hboth
    rw [List.cons_append, replaceAll_of_none hboth, replaceAll_of_none hnone, List.cons_append, ih]
    exact fun s hs hsuffix => h s hs (hsuffix.trans (List.suffix_cons c rest))
  | masked kept gone rest hgone hsome ih =>
    have hboth := h _ (by simp [hgone]) List.suffix_rfl
    rw [hsome, List.append_assoc] at hboth
    rw [List.append_assoc, replaceAll_masked hgone hboth, replaceAll_masked hgone hsome,
      List.append_assoc _ _ (replaceAll p y), ih]
    exact fun s hs hsuffix => h s hs (hsuffix.trans (List.suffix_append _ rest))

/-- Characters at which no occurrence begins stay. -/
theorem replaceAll_append_of_none (h : ∀ c ∈ x, ∀ rest, p (c :: rest) = none) :
    replaceAll p (x ++ y) = x ++ replaceAll p y := by
  induction x with
  | nil => rfl
  | cons c x ih =>
    obtain ⟨hc, hx⟩ := List.forall_mem_cons.1 h
    rw [List.cons_append, replaceAll_of_none (hc _), ih hx, List.cons_append]

end

end EvalProxy.Redaction
