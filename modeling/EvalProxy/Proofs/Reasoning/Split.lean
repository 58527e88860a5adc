/-
# Splitting a text

A text with marks falls apart into what is visible and what is reasoning, in one way only: each span
runs from the first start mark to the first end mark behind it. Put together again with the marks
between them the parts are the text, so that splitting loses and invents nothing but the blanks that
it trims.

Main definitions: `Clear`, `HasSpan`, `Spanned`.
Main statements: `cut?_eq_some_iff`, `spans_eq_iff`, `split_keeps_everything`.
-/
import EvalProxy.Reasoning
namespace EvalProxy.Reasoning

/-! ## The first place of a mark -/

/-- No mark begins inside a text that a mark follows, not even one that reaches into that mark. -/
def Clear (mark before : List Char) : Prop :=
  ∀ a b, before ++ mark = a ++ mark ++ b → b = []

section

variable {mark s before after : List Char}

/-- A text that ends where a mark begins, and has no mark in it, ends at the first mark. -/
theorem Clear.length_le (h : Clear mark before) {a b : List Char}
    (heq : before ++ mark ++ after = a ++ mark ++ b) : before.length ≤ a.length := by
  refine Nat.le_of_not_lt fun hlt => ?_
  -- an earlier mark would stand in the text and the mark that follows it
  have hprefix : a ++ mark <+: before ++ mark := by
    refine List.prefix_of_prefix_length_le ⟨b, rfl⟩ ⟨after, heq⟩ ?_
    rw [List.length_append, List.length_append]
    omega
  obtain ⟨rest, hrest⟩ := hprefix
  obtain rfl := h a rest hrest.symm
  have hlength := congrArg List.length hrest
  rw [List.append_nil, List.length_append, List.length_append] at hlength
  omega

/-- A text is not cut exactly if the mark does not occur in it. -/
theorem cut?_eq_none_iff : cut? mark s = none ↔ ¬ mark <:+: s := by
  induction s with
  | nil =>
    rw [cut?, List.infix_nil]
    cases mark <;> simp
  | cons c rest ih =>
    rw [cut?, List.infix_cons_iff, not_or]
    split
    · rename_i hprefix
      exact iff_of_false (by simp) fun h => h.1 (List.isPrefixOf_iff_prefix.1 hprefix)
    · rename_i hprefix
      rw [Option.map_eq_none_iff, ih, List.isPrefixOf_iff_prefix] at *
      exact (and_iff_right hprefix).symm

/-- What stands before the first mark is clear of it. -/
theorem clear_of_cut? (h : cut? mark s = some (before, after)) : Clear mark before := by
  -- a mark at the very start leaves nothing before it
  have hstart : Clear mark [] := by
    intro a b heq
    have hlength := congrArg List.length heq
    simp only [List.nil_append, List.length_append] at hlength
    exact List.length_eq_zero_iff.1 (by omega)
  induction s generalizing before with
  | nil =>
    rw [cut?] at h
    split at h
    · obtain ⟨rfl, -⟩ := by simpa using h
      exact hstart
    · cases h
  | cons c rest ih =>
    have htext := eq_of_cut? h
    rw [cut?] at h
    split at h
    · obtain ⟨rfl, -⟩ := by simpa using h
      exact hstart
    · rename_i hprefix
      obtain ⟨⟨before, after⟩, hrest, hcut⟩ := Option.map_eq_some_iff.1 h
      obtain ⟨rfl, rfl⟩ := by simpa using hcut
      intro a b heq
      cases a with
      | nil =>
        refine absurd ?_ hprefix
        rw [List.isPrefixOf_iff_prefix, htext, heq]
        exact ⟨b ++ after, by simp⟩
      | cons d a =>
        obtain ⟨-, heq⟩ := List.cons.inj heq
        exact ih hrest a b heq

/-- **Cutting a text** gives what stands before and after the first mark. -/
theorem cut?_eq_some_iff :
    cut? mark s = some (before, after) ↔ s = before ++ mark ++ after ∧ Clear mark before := by
  refine ⟨fun h => ⟨eq_of_cut? h, clear_of_cut? h⟩, ?_⟩
  rintro ⟨rfl, hclear⟩
  cases hcut : cut? mark (before ++ mark ++ after) with
  | none => exact absurd ⟨before, after, rfl⟩ (cut?_eq_none_iff.1 hcut)
  | some found =>
    obtain ⟨before', after'⟩ := found
    have htext := eq_of_cut? hcut
    -- both end at the first mark
    have hlength : before.length = before'.length :=
      Nat.le_antisymm (hclear.length_le htext) ((clear_of_cut? hcut).length_le htext.symm)
    rw [List.append_assoc, List.append_assoc] at htext
    obtain ⟨rfl, hrest⟩ := List.append_inj htext hlength
    rw [List.append_cancel_left hrest]

end

/-! ## Spans -/

section

variable {startMark endMark text : List Char}

/-- A start mark stands in a text, and an end mark behind it. -/
def HasSpan (startMark endMark text : List Char) : Prop :=
  ∃ a b c, text = a ++ startMark ++ b ++ endMark ++ c

/-- Where a span is, there is one at the first start mark. -/
theorem hasSpan_iff : HasSpan startMark endMark text ↔
    ∃ visible rest, cut? startMark text = some (visible, rest) ∧ endMark <:+: rest := by
  constructor
  · rintro ⟨a, b, c, htext⟩
    have hmarked : startMark <:+: text := ⟨a, b ++ endMark ++ c, by simp [htext]⟩
    cases hcut : cut? startMark text with
    | none => exact absurd hmarked (cut?_eq_none_iff.1 hcut)
    | some found =>
      obtain ⟨visible, rest⟩ := found
      obtain ⟨hfirst, hclear⟩ := cut?_eq_some_iff.1 hcut
      have heq : visible ++ startMark ++ rest = a ++ startMark ++ (b ++ endMark ++ c) := by
        rw [← hfirst, htext]
        simp
      -- the end mark stands behind a later start mark, so behind the first one
      have hlength := hclear.length_le heq
      have hsuffix : b ++ endMark ++ c <:+ rest := by
        refine List.suffix_of_suffix_length_le ⟨a ++ startMark, rfl⟩ ⟨visible ++ startMark, heq⟩ ?_
        have htotal := congrArg List.length heq
        simp only [List.length_append] at htotal ⊢
        omega
      exact ⟨visible, rest, rfl, List.IsInfix.trans ⟨b, c, rfl⟩ hsuffix.isInfix⟩
  · rintro ⟨visible, rest, hcut, b, c, rfl⟩
    refine ⟨visible, b, c, ?_⟩
    rw [(cut?_eq_some_iff.1 hcut).1]
    simp

/-- A text with a span has an end mark. -/
theorem HasSpan.marked (h : HasSpan startMark endMark text) : endMark <:+: text := by
  obtain ⟨a, b, c, rfl⟩ := h
  exact ⟨a ++ startMark ++ b, c, rfl⟩

/-- A text falls apart into spans, each given by the visible text before it and the reasoning in it,
and a rest without a span: no start mark begins in the visible text before a span, and each span is
closed by the first end mark. -/
structure Spanned (startMark endMark text : List Char) (found : List (List Char × List Char))
    (last : List Char) : Prop where
  text_eq : text = (found.flatMap fun p => p.1 ++ startMark ++ p.2 ++ endMark) ++ last
  visible : ∀ p ∈ found, Clear startMark p.1
  reasoning : ∀ p ∈ found, Clear endMark p.2
  last : ¬ HasSpan startMark endMark last

variable {found : List (List Char × List Char)} {last : List Char}

/-- A text without a span is all last part. -/
theorem spanned_nil (h : ¬ HasSpan startMark endMark text) :
    Spanned startMark endMark text [] text :=
  ⟨rfl, nofun, nofun, h⟩

/-- A span in front of a text that is spanned out makes one more. -/
theorem Spanned.cons {visible reasoning rest : List Char}
    (h : Spanned startMark endMark rest found last) (hvisible : Clear startMark visible)
    (hreasoning : Clear endMark reasoning) :
    Spanned startMark endMark (visible ++ startMark ++ reasoning ++ endMark ++ rest)
      ((visible, reasoning) :: found) last := by
  refine ⟨?_, ?_, ?_, h.last⟩
  · rw [List.flatMap_cons, List.append_assoc _ _ last, ← h.text_eq]
  · exact List.forall_mem_cons.2 ⟨hvisible, h.visible⟩
  · exact List.forall_mem_cons.2 ⟨hreasoning, h.reasoning⟩

/-- In a text without a span none is found. -/
theorem spans_of_not_hasSpan (h : ¬ HasSpan startMark endMark text) :
    spans startMark endMark text = ([], text) := by
  rw [spans]
  split
  · rfl
  · rename_i visible rest hcut
    have hnone : cut? endMark rest = none := by
      rw [cut?_eq_none_iff]
      exact fun hmarked => h (hasSpan_iff.2 ⟨visible, rest, hcut, hmarked⟩)
    rw [hnone]

/-- **The spans that are found** make up the text. -/
theorem spanned_spans (startMark : List Char) (hend : endMark ≠ []) (text : List Char) :
    Spanned startMark endMark text (spans startMark endMark text).1
      (spans startMark endMark text).2 := by
  fun_induction spans startMark endMark text with
  | case1 text hcut =>
    refine spanned_nil ?_
    rw [hasSpan_iff, hcut]
    simp
  | case2 text visible rest hcut hnone =>
    refine spanned_nil ?_
    rw [hasSpan_iff, hcut]
    rintro ⟨_, _, ⟨⟩, hmarked⟩
    exact cut?_eq_none_iff.1 hnone hmarked
  | case3 text visible rest hcut reasoning rest' hcut' hshorter more ih =>
    obtain ⟨rfl, hvisible⟩ := cut?_eq_some_iff.1 hcut
    obtain ⟨rfl, hreasoning⟩ := cut?_eq_some_iff.1 hcut'
    have hcons := ih.cons hvisible hreasoning
    rwa [List.append_assoc, List.append_assoc, ← List.append_assoc reasoning] at hcons
  | case4 text visible rest hcut reasoning rest' hcut' hshorter =>
    -- an end mark that is not empty leaves less of the text
    obtain ⟨rfl, -⟩ := cut?_eq_some_iff.1 hcut
    obtain ⟨rfl, -⟩ := cut?_eq_some_iff.1 hcut'
    have hpos := List.length_pos_iff.2 hend
    simp only [List.length_append] at hshorter
    omega

/-- A text falls apart into the spans that are found, and into no others. -/
theorem Spanned.spans_eq (hend : endMark ≠ [])
    (h : Spanned startMark endMark text found last) :
    spans startMark endMark text = (found, last) := by
  induction found generalizing text with
  | nil =>
    obtain rfl : text = last := h.text_eq
    exact spans_of_not_hasSpan h.last
  | cons p found ih =>
    obtain ⟨visible, reasoning⟩ := p
    obtain ⟨hvisible, hvisibles⟩ := List.forall_mem_cons.1 h.visible
    obtain ⟨hreasoning, hreasonings⟩ := List.forall_mem_cons.1 h.reasoning
    have hrest := ih ⟨rfl, hvisibles, hreasonings, h.last⟩
    have htext := h.text_eq
    rw [List.flatMap_cons, List.append_assoc _ _ last] at htext
    generalize (found.flatMap fun p => p.1 ++ startMark ++ p.2 ++ endMark) ++ last = rest
      at hrest htext
    have hstart : cut? startMark text = some (visible, reasoning ++ endMark ++ rest) :=
      cut?_eq_some_iff.2 ⟨by simp [htext], hvisible⟩
    have hclose : cut? endMark (reasoning ++ endMark ++ rest) = some (reasoning, rest) :=
      cut?_eq_some_iff.2 ⟨rfl, hreasoning⟩
    have hshorter : rest.length < text.length := by
      have hpos := List.length_pos_iff.2 hend
      simp only [htext, List.length_append]
      omega
    rw [spans, hstart]
    dsimp only
    rw [hclose]
    dsimp only
    rw [if_pos hshorter, hrest]

/-- **A text falls apart in one way only**, into the spans that are found. -/
theorem spans_eq_iff (hend : endMark ≠ []) :
    spans startMark endMark text = (found, last) ↔ Spanned startMark endMark text found last := by
  refine ⟨fun h => ?_, fun h => h.spans_eq hend⟩
  have hspanned := spanned_spans startMark hend text
  rwa [h] at hspanned

/-- A text with a span in it is not all rest. -/
theorem Spanned.ne_nil (h : Spanned startMark endMark text found last)
    (hspan : HasSpan startMark endMark text) : found ≠ [] := by
  rintro rfl
  obtain rfl : text = last := h.text_eq
  exact h.last hspan

end

/-! ## The split -/

/-- A text without the blanks around it. -/
def trimmed (cs : List Char) : String := String.ofList (Text.trimChars cs)

section

variable {marks : Settings} {text : String}

/-- In a text without an end mark there is no reasoning. -/
theorem split_of_unmarked (h : ¬ marks.endMark.toList <:+: text.toList) :
    split marks text = ⟨text, none⟩ := by
  rw [split, spans_of_not_hasSpan fun hspan => h hspan.marked]
  dsimp only
  rw [cut?_eq_none_iff.2 h]

/-- In a text without a span everything before the first end mark is reasoning. -/
theorem exists_split_of_marked (h : marks.endMark.toList <:+: text.toList)
    (hspan : ¬ HasSpan marks.startMark.toList marks.endMark.toList text.toList) :
    ∃ before after, text.toList = before ++ marks.endMark.toList ++ after ∧
      Clear marks.endMark.toList before ∧
      split marks text = ⟨trimmed after, some (trimmed before)⟩ := by
  cases hcut : cut? marks.endMark.toList text.toList with
  | none => exact absurd h (cut?_eq_none_iff.1 hcut)
  | some parts =>
    obtain ⟨before, after⟩ := parts
    obtain ⟨htext, hclear⟩ := cut?_eq_some_iff.1 hcut
    refine ⟨before, after, htext, hclear, ?_⟩
    rw [split, spans_of_not_hasSpan hspan]
    dsimp only
    rw [hcut]
    dsimp only
    rw [joinTrimmed, List.map_singleton, String.intercalate_singleton]
    rfl

/-- In a text with spans what is in them is reasoning, and all else is visible. -/
theorem split_of_spanned {found : List (List Char × List Char)} {last : List Char}
    (hend : marks.endMark.toList ≠ []) (hne : found ≠ [])
    (h : Spanned marks.startMark.toList marks.endMark.toList text.toList found last) :
    split marks text = ⟨trimmed ((found.map (·.1)).flatten ++ last),
      some ("\n".intercalate (found.map fun p => trimmed p.2))⟩ := by
  obtain ⟨p, found, rfl⟩ := List.exists_cons_of_ne_nil hne
  rw [split, h.spans_eq hend]
  dsimp only
  rw [joinTrimmed, List.map_map]
  rfl

/-- **There is no reasoning** exactly if there is no end mark. -/
theorem reasoning_split_eq_none_iff :
    (split marks text).reasoning = none ↔ ¬ marks.endMark.toList <:+: text.toList := by
  constructor
  · intro hnone hmarked
    rw [split] at hnone
    split at hnone
    · -- without a span there is at least a place to cut
      split at hnone
      · rename_i hcut
        exact cut?_eq_none_iff.1 hcut hmarked
      · cases hnone
    · cases hnone
  · intro h
    rw [split_of_unmarked h]

end

/-- **Splitting loses and invents nothing.** There is no reasoning exactly if there is no end mark,
and then the text stays as it is. A text with a span falls apart in one way: the visible parts make
up the answer, and what is in the spans the reasoning. Otherwise the text before the first end mark
is reasoning, and the text after it the answer. -/
theorem split_keeps_everything {marks : Settings} (hend : marks.endMark ≠ "") (text : String) :
    ((split marks text).reasoning = none ↔ ¬ marks.endMark.toList <:+: text.toList) ∧
    (¬ marks.endMark.toList <:+: text.toList → (split marks text).content = text) ∧
    (HasSpan marks.startMark.toList marks.endMark.toList text.toList →
      ∃ found last, found ≠ [] ∧
        (∀ found' last',
          Spanned marks.startMark.toList marks.endMark.toList text.toList found' last' ↔
            found' = found ∧ last' = last) ∧
        (split marks text).content = trimmed ((found.map (·.1)).flatten ++ last) ∧
        (split marks text).reasoning
          = some ("\n".intercalate (found.map fun p => trimmed p.2))) ∧
    (marks.endMark.toList <:+: text.toList →
      ¬ HasSpan marks.startMark.toList marks.endMark.toList text.toList →
      ∃ before after, text.toList = before ++ marks.endMark.toList ++ after ∧
        Clear marks.endMark.toList before ∧
        (split marks text).content = trimmed after ∧
        (split marks text).reasoning = some (trimmed before)) := by
  have hend' : marks.endMark.toList ≠ [] := by simpa using hend
  refine ⟨reasoning_split_eq_none_iff, fun h => ?_, fun hspan => ?_, fun hmarked hspan => ?_⟩
  · rw [split_of_unmarked h]
  · have hspanned := spanned_spans marks.startMark.toList hend' text.toList
    have hne := hspanned.ne_nil hspan
    have hsplit := split_of_spanned hend' hne hspanned
    refine ⟨_, _, hne, fun found' last' => ⟨fun h' => ?_, ?_⟩, by rw [hsplit], by rw [hsplit]⟩
    · rw [h'.spans_eq hend']
      exact ⟨rfl, rfl⟩
    · rintro ⟨rfl, rfl⟩
      exact hspanned
  · obtain ⟨before, after, htext, hclear, hsplit⟩ := exists_split_of_marked hmarked hspan
    exact ⟨before, after, htext, hclear, by rw [hsplit], by rw [hsplit]⟩

/-- Two spans with marks that overlap: each end mark could begin a start mark. -/
theorem split_keeps_everything_overlapping :
    let marks : Settings := ⟨"<<", "<", false⟩
    marks.endMark ≠ "" ∧
      HasSpan marks.startMark.toList marks.endMark.toList "a<<b <c<<<d".toList ∧
      (split marks "a<<b <c<<<d").content = "acd" ∧
      (split marks "a<<b <c<<<d").reasoning = some "b\n" := by
  intro marks
  have hspan : HasSpan marks.startMark.toList marks.endMark.toList "a<<b <c<<<d".toList :=
    ⟨['a'], ['b', ' '], "c<<<d".toList, by decide⟩
  have hlast : Spanned marks.startMark.toList marks.endMark.toList ['d'] [] ['d'] := by
    refine spanned_nil ?_
    rw [hasSpan_iff, show cut? marks.startMark.toList ['d'] = none by decide]
    simp
  have hstart : cut? marks.startMark.toList "c<<".toList = some (['c'], []) := by decide
  have hend : cut? marks.endMark.toList "<".toList = some ([], []) := by decide
  have hsecond := hlast.cons (clear_of_cut? hstart) (clear_of_cut? hend)
  have hstart' : cut? marks.startMark.toList "a<<".toList = some (['a'], []) := by decide
  have hend' : cut? marks.endMark.toList "b <".toList = some (['b', ' '], []) := by decide
  have hfirst := hsecond.cons (clear_of_cut? hstart') (clear_of_cut? hend')
  have hmark : marks.endMark ≠ "" := by decide
  obtain ⟨-, -, hspans, -⟩ := split_keeps_everything hmark "a<<b <c<<<d"
  obtain ⟨found, last, -, hunique, hcontent, hreasoning⟩ := hspans hspan
  have htext : "a<<b <c<<<d".toList = ['a'] ++ marks.startMark.toList ++ ['b', ' ']
      ++ marks.endMark.toList ++ (['c'] ++ marks.startMark.toList ++ [] ++ marks.endMark.toList
      ++ ['d']) := by decide
  obtain ⟨rfl, rfl⟩ := (hunique _ _).1 (htext ▸ hfirst)
  exact ⟨hmark, hspan, hcontent.trans (by decide), hreasoning.trans (by decide)⟩

end EvalProxy.Reasoning
