/-
# Doubled words

The token behind the word `bearer` is hidden, whatever it is, unless that word is itself taken for
a part of a token: then an earlier `bearer` stands before it, with nothing but blanks and characters
of a token between the two, the occurrence ends with the second word, and the token behind it stays.
A third word is again the start of an occurrence.

Main definitions: `Begun`, `LeavesOpen`.
Main statements: `leavesOpen_iff_of_begun`, `replaceAll_of_not_leavesOpen`, `hides_tokens_iff`,
`doubled_word_leaks`.
-/
import EvalProxy.Proofs.Redaction.Clean
namespace EvalProxy.Redaction

/-! ## Texts that leave a token open -/

/-- A text goes on, behind a first part, with the word, blanks, and characters of a token, of which
there may be none yet. -/
def Begun (before s : List Char) : Prop :=
  ∃ word blanks tail, s = before ++ word ++ blanks ++ tail ∧ IsWord word ∧ IsBlanks blanks ∧
    ∀ c ∈ tail, isTokenChar c = true

/-- What stands before a word that is begun is shorter than the text. -/
theorem Begun.length_lt {before s : List Char} (h : Begun before s) : before.length < s.length := by
  obtain ⟨word, blanks, tail, rfl, hword, -, -⟩ := h
  have hpos := List.length_pos_iff.2 hword.ne_nil
  simp only [List.length_append]
  omega

/-- What follows a text is part of a token: the text ends in the word, blanks and the beginning of a
token, and that word is not itself part of a token that the text before it leaves open. -/
def LeavesOpen (s : List Char) : Prop := ∃ before, ∃ _ : Begun before s, ¬ LeavesOpen before
termination_by s.length
decreasing_by exact Begun.length_lt ‹_›

/-- A text leaves a token open if one is begun in it behind a text that leaves none open. -/
theorem leavesOpen_iff {s : List Char} :
    LeavesOpen s ↔ ∃ before, Begun before s ∧ ¬ LeavesOpen before := by
  rw [LeavesOpen]
  simp only [exists_prop]

/-- A list falls apart in one way only before its longest last part of a kind. -/
theorem append_inj_of_getLast? {q : Char → Bool} {x x' y y' : List Char} (h : x ++ y = x' ++ y')
    (hy : ∀ c ∈ y, q c = true) (hy' : ∀ c ∈ y', q c = true) (hx : ∀ c ∈ x.getLast?, q c = false)
    (hx' : ∀ c ∈ x'.getLast?, q c = false) : x = x' ∧ y = y' := by
  have hend {e a b : List Char} (ha : ∀ c ∈ (a ++ e).getLast?, q c = false)
      (he : ∀ c ∈ e ++ b, q c = true) : e = [] := by
    rcases List.eq_nil_or_concat e with rfl | ⟨e, c, rfl⟩
    · rfl
    · have hlast := ha c (by simp)
      rw [he c (by simp)] at hlast
      exact absurd hlast.symm Bool.false_ne_true
  rcases List.append_eq_append_iff.1 h with ⟨e, rfl, rfl⟩ | ⟨e, rfl, rfl⟩
  · obtain rfl := hend hx' hy
    simp
  · obtain rfl := hend hx hy'
    simp

/-- There is only one place where a token can have begun. -/
theorem Begun.unique {a b s : List Char} (ha : Begun a s) (hb : Begun b s) : a = b := by
  obtain ⟨word, blanks, tail, rfl, hword, hblanks, htail⟩ := ha
  obtain ⟨word', blanks', tail', heq, hword', hblanks', htail'⟩ := hb
  have hlast {u : List Char} {blanks : List Char} (h : IsBlanks blanks) :
      ∀ c ∈ (u ++ blanks).getLast?, isTokenChar c = false := by
    intro c hc
    rw [List.getLast?_append_of_ne_nil _ h.1] at hc
    exact h.not_isTokenChar (List.mem_of_getLast? hc)
  have hlastWord {u word : List Char} (h : IsWord word) :
      ∀ c ∈ (u ++ word).getLast?, Text.isBlank c = false := by
    intro c hc
    rw [List.getLast?_append_of_ne_nil _ h.ne_nil] at hc
    exact isBlank_eq_false_of_isTokenChar (h.isTokenChar (List.mem_of_getLast? hc))
  -- the tail is the longest end without blanks, and the blanks before it go as far as they can
  obtain ⟨heq, -⟩ := append_inj_of_getLast? heq htail htail' (hlast hblanks) (hlast hblanks')
  obtain ⟨heq, -⟩ :=
    append_inj_of_getLast? heq hblanks.2 hblanks'.2 (hlastWord hword) (hlastWord hword')
  exact (List.append_inj' heq (hword.length_eq.trans hword'.length_eq.symm)).1

/-- Each further word that follows a token begun alternates. -/
theorem leavesOpen_iff_of_begun {before s : List Char} (h : Begun before s) :
    LeavesOpen s ↔ ¬ LeavesOpen before := by
  rw [leavesOpen_iff]
  constructor
  · rintro ⟨a, ha, hclosed⟩
    exact h.unique ha ▸ hclosed
  · exact fun hclosed => ⟨before, h, hclosed⟩

/-- The empty text leaves no token open. -/
theorem not_leavesOpen_nil : ¬ LeavesOpen [] := by
  rw [leavesOpen_iff]
  rintro ⟨before, hbegun, -⟩
  exact Nat.not_lt_zero _ hbegun.length_lt

/-! ## Occurrences across the end of a text -/

section

variable {word blanks tail s : List Char}

/-- More text in front stands before the word as well. -/
theorem Begun.append_left {before s : List Char} (h : Begun before s) (x : List Char) :
    Begun (x ++ before) (x ++ s) := by
  obtain ⟨word, blanks, tail, rfl, hword, hblanks, htail⟩ := h
  exact ⟨word, blanks, tail, by simp, hword, hblanks, htail⟩

/-- Two words do not overlap. -/
theorem eq_nil_of_isWord_append {u v : List Char} (hu : u ≠ []) (h : IsWord (u ++ v))
    (hv : v <+: word) (hword : IsWord word) : v = [] := by
  cases v with
  | nil => rfl
  | cons c v =>
    exfalso
    obtain ⟨d, u, rfl⟩ := List.exists_cons_of_ne_nil hu
    obtain ⟨rest, rfl⟩ := hv
    -- the second word begins with a letter that is no later letter of the first
    have hfirst : c.toLower = 'b' := (List.cons.inj hword).1
    have htail : (u ++ c :: v).map Char.toLower = "earer".toList := (List.cons.inj h).2
    have hmem : c.toLower ∈ "earer".toList := by
      rw [← htail]
      exact List.mem_map_of_mem (by simp)
    rw [hfirst] at hmem
    revert hmem
    decide

/-- A word does not begin with a blank. -/
theorem append_ne_of_isWord {rest : List Char} (hword : IsWord word) (hne : blanks ≠ [])
    (hblanks : ∀ c ∈ blanks, Text.isBlank c = true) : word ++ tail ≠ blanks ++ rest := by
  intro heq
  obtain ⟨c, word, rfl⟩ := List.exists_cons_of_ne_nil hword.ne_nil
  obtain ⟨b, blanks, rfl⟩ := List.exists_cons_of_ne_nil hne
  obtain ⟨rfl, -⟩ := List.cons.inj heq
  have hletter := isBlank_eq_false_of_isTokenChar (hword.isTokenChar List.mem_cons_self)
  rw [hblanks c List.mem_cons_self] at hletter
  exact Bool.false_ne_true hletter.symm

/-- An occurrence ends before the word that follows the text, if no token has begun at its end. -/
theorem bearerToken_append_word_of_some (hnone : ¬ Begun [] s) (tail : List Char)
    {found : Nat × List Char} (hfound : bearerToken s = some found) :
    bearerToken (s ++ (word ++ tail)) = some found := by
  obtain ⟨w, blanks, token, rest, rfl, hoccurs⟩ := exists_occurs_of_bearerToken hfound
  cases rest with
  | nil =>
    exact absurd ⟨w, blanks, token, by simp, hoccurs.word, hoccurs.blanks, hoccurs.token.2⟩ hnone
  | cons c rest =>
    have hboth : Occurs w blanks token (c :: rest ++ (word ++ tail)) :=
      ⟨hoccurs.word, hoccurs.blanks, hoccurs.token, hoccurs.ends⟩
    rw [← hfound, hoccurs.bearerToken_eq, List.append_assoc, hboth.bearerToken_eq]

/-- A word that follows a text makes no occurrence with it, if no token has begun at its end. -/
theorem bearerToken_append_word_of_none (hs : s ≠ []) (hnone : ¬ Begun [] s) (hword : IsWord word)
    (tail : List Char) (hfound : bearerToken s = none) :
    bearerToken (s ++ (word ++ tail)) = none := by
  refine Option.eq_none_iff_forall_ne_some.2 fun found hboth => ?_
  obtain ⟨w, blanks, token, rest, heq, hoccurs⟩ := exists_occurs_of_bearerToken hboth
  -- the text would end in the word of the occurrence, in its blanks, in its token, or behind it
  rw [List.append_assoc, List.append_assoc] at heq
  rcases List.append_eq_append_iff.1 heq with ⟨e, rfl, hword'⟩ | ⟨s', rfl, hblanks⟩
  · have hlength := hoccurs.word.length_eq.trans hword.length_eq.symm
    have hinit : e <+: word := by
      refine List.prefix_of_prefix_length_le ⟨_, hword'.symm⟩ (List.prefix_append word tail) ?_
      rw [← hlength, List.length_append]
      omega
    obtain rfl := eq_nil_of_isWord_append hs hoccurs.word hinit hword
    exact append_ne_of_isWord hword hoccurs.blanks.1 hoccurs.blanks.2 hword'
  rcases List.append_eq_append_iff.1 hblanks with ⟨s', rfl, htoken⟩ | ⟨e, rfl, hword'⟩
  · rcases List.append_eq_append_iff.1 htoken with ⟨f, rfl, -⟩ | ⟨e, rfl, -⟩
    · obtain ⟨u, hu, hsecret⟩ := hoccurs.exists_tokenSecret
      refine bearerToken_ne_none (hu.trans ⟨f, ?_⟩) hsecret hfound
      simp
    · refine hnone ⟨w, blanks, s', by simp, hoccurs.word, hoccurs.blanks, ?_⟩
      exact fun c hc => hoccurs.token.2 c (List.mem_append_left _ hc)
  · cases e with
    | nil =>
      refine hnone ⟨w, s', [], by simp, hoccurs.word, ?_, by simp⟩
      simpa using hoccurs.blanks
    | cons b e =>
      refine append_ne_of_isWord hword (List.cons_ne_nil b e) ?_ hword'
      exact fun c hc => hoccurs.blanks.2 c (List.mem_append_right _ hc)

/-- A text that does not end in the beginning of a token makes no occurrence with a word that
follows it, beyond those in itself. -/
theorem bearerToken_append_word (hs : s ≠ []) (hnone : ¬ Begun [] s) (hword : IsWord word)
    (tail : List Char) : bearerToken (s ++ (word ++ tail)) = bearerToken s := by
  cases hfound : bearerToken s with
  | some found => exact bearerToken_append_word_of_some hnone tail hfound
  | none => exact bearerToken_append_word_of_none hs hnone hword tail hfound

/-- Behind blanks no token has begun before the next word. -/
theorem not_begun_of_suffix (hblanks : IsBlanks blanks) (htail : ∀ c ∈ tail, isTokenChar c = true)
    (hs : s <:+ blanks ++ tail) (before : List Char) : ¬ Begun before s := by
  rintro ⟨w, b, t, rfl, hw, hb, -⟩
  -- in the whole text no blank stands behind another character
  have hordered : (blanks ++ tail).Pairwise
      fun c d => Text.isBlank d = true → Text.isBlank c = true := by
    refine List.pairwise_append.2 ⟨?_, ?_, fun c hc d _ _ => hblanks.2 c hc⟩
    · exact List.pairwise_of_forall_mem_list fun c hc d _ _ => hblanks.2 c hc
    · refine List.pairwise_of_forall_mem_list fun c _ d hd hblank => ?_
      rw [isBlank_eq_false_of_isTokenChar (htail d hd)] at hblank
      exact absurd hblank Bool.false_ne_true
  have hinfix : w ++ b <:+: blanks ++ tail := by
    refine List.IsInfix.trans ⟨before, t, ?_⟩ hs.isInfix
    simp
  obtain ⟨c, w, rfl⟩ := List.exists_cons_of_ne_nil hw.ne_nil
  obtain ⟨d, b, rfl⟩ := List.exists_cons_of_ne_nil hb.1
  have hpairwise := hordered.sublist hinfix.sublist
  have hblank := (List.pairwise_append.1 hpairwise).2.2 c List.mem_cons_self d List.mem_cons_self
    (hb.2 d List.mem_cons_self)
  rw [isBlank_eq_false_of_isTokenChar (hw.isTokenChar List.mem_cons_self)] at hblank
  exact Bool.false_ne_true hblank

/-- A text in which no token has begun at the end of any part is replaced apart from a word that
follows it. -/
theorem replaceAll_append_word (hnone : ∀ t, t <:+ s → ∀ before, ¬ Begun before t)
    (hword : IsWord word) (tail : List Char) :
    replaceAll bearerToken (s ++ (word ++ tail))
      = replaceAll bearerToken s ++ replaceAll bearerToken (word ++ tail) :=
  replaceAll_append masks_bearerToken fun t ht hsuffix =>
    bearerToken_append_word ht (hnone t hsuffix []) hword tail

/-- An occurrence at the start of a text is replaced. -/
theorem Occurs.replaceAll_eq {token rest : List Char} (h : Occurs word blanks token rest) :
    replaceAll bearerToken (word ++ blanks ++ token ++ rest)
      = word ++ blanks ++ tokenMark ++ replaceAll bearerToken rest :=
  replaceAll_masked h.token.1 h.bearerToken_eq

end

/-! ## Before and behind the word -/

section

variable {before word blanks tail next gap : List Char}

/-- The next word becomes part of a token that has begun, and the occurrence ends with it. -/
theorem replaceAll_swallowed
    (hsplit : ∀ rest, replaceAll bearerToken (before ++ (word ++ rest))
      = replaceAll bearerToken before ++ replaceAll bearerToken (word ++ rest))
    (hword : IsWord word) (hblanks : IsBlanks blanks) (htail : ∀ c ∈ tail, isTokenChar c = true)
    (hnext : IsWord next) (hgap : IsBlanks gap) (rest : List Char) :
    replaceAll bearerToken (before ++ word ++ blanks ++ tail ++ next ++ (gap ++ rest))
      = replaceAll bearerToken before ++ (word ++ blanks ++ tokenMark)
        ++ replaceAll bearerToken (gap ++ rest) := by
  have hoccurs : Occurs word blanks (tail ++ next) (gap ++ rest) := by
    refine ⟨hword, hblanks, ⟨by simp [hnext.ne_nil], ?_⟩, ?_⟩
    · intro c hc
      exact (List.mem_append.1 hc).elim (htail c) hnext.isTokenChar
    · obtain ⟨b, gap, rfl⟩ := List.exists_cons_of_ne_nil hgap.1
      intro c hc
      obtain rfl : b = c := by simpa using hc
      exact hgap.not_isTokenChar List.mem_cons_self
  have hparts : before ++ word ++ blanks ++ tail ++ next ++ (gap ++ rest)
      = before ++ (word ++ (blanks ++ (tail ++ next) ++ (gap ++ rest))) := by simp
  rw [hparts, hsplit, ← List.append_assoc word, ← List.append_assoc word, hoccurs.replaceAll_eq,
    ← List.append_assoc (replaceAll bearerToken before)]

/-- **A text that leaves no token open** is replaced apart from a word that follows it. -/
theorem replaceAll_of_not_leavesOpen (h : ¬ LeavesOpen before) (hword : IsWord word)
    (rest : List Char) :
    replaceAll bearerToken (before ++ (word ++ rest))
      = replaceAll bearerToken before ++ replaceAll bearerToken (word ++ rest) := by
  -- by induction on the length of the text, from its last word to the one before that
  induction hlength : before.length using Nat.strong_induction_on generalizing before word rest with
  | _ length ih =>
    by_cases hbegun : ∃ a, Begun a before
    · obtain ⟨a, ha⟩ := hbegun
      have hopen : LeavesOpen a :=
        not_not.1 fun hclosed => h ((leavesOpen_iff_of_begun ha).2 hclosed)
      obtain ⟨a', ha', hclosed⟩ := leavesOpen_iff.1 hopen
      have hshorter := ha'.length_lt.trans ha.length_lt
      obtain ⟨w, b, t, rfl, hw, hb, ht⟩ := ha
      obtain ⟨w', b', t', rfl, hw', hb', ht'⟩ := ha'
      -- the last word of the text is part of a token, which ends before the blanks
      have hswallowed := replaceAll_swallowed
        (fun rest => ih _ (hlength ▸ hshorter) hclosed hw' rest rfl) hw' hb' ht' hw hb
      have hbehind : replaceAll bearerToken (b ++ t ++ (word ++ rest))
          = replaceAll bearerToken (b ++ t) ++ replaceAll bearerToken (word ++ rest) :=
        replaceAll_append_word (fun s hs => not_begun_of_suffix hb ht hs) hword rest
      have hwhole := hswallowed (t ++ (word ++ rest))
      rw [← List.append_assoc b, hbehind, ← List.append_assoc _ (replaceAll bearerToken (b ++ t)),
        ← hswallowed t] at hwhole
      simpa using hwhole
    · refine replaceAll_append_word ?_ hword rest
      rintro t ⟨x, rfl⟩ b hb
      exact hbegun ⟨_, hb.append_left x⟩

/-- Behind a text that leaves a token open, the next word is part of that token. -/
theorem LeavesOpen.exists_replaceAll_eq (h : LeavesOpen before) (hnext : IsWord next)
    (hgap : IsBlanks gap) :
    ∃ shown, ∀ rest, replaceAll bearerToken (before ++ next ++ (gap ++ rest))
      = shown ++ tokenMark ++ replaceAll bearerToken (gap ++ rest) := by
  obtain ⟨a, ⟨word, blanks, tail, rfl, hword, hblanks, htail⟩, hclosed⟩ := leavesOpen_iff.1 h
  refine ⟨replaceAll bearerToken a ++ (word ++ blanks), fun rest => ?_⟩
  rw [replaceAll_swallowed (fun rest => replaceAll_of_not_leavesOpen hclosed hword rest) hword
    hblanks htail hnext hgap rest]
  simp

end

/-! ## Keys on one side of a character -/

section

variable {c : Char} {s rest : List Char}

/-- A run of characters ends before one that does not belong to it. -/
theorem takeWhile_append_cons {q : Char → Bool} (hc : q c = false) :
    (s ++ c :: rest).takeWhile q = s.takeWhile q := by
  induction s with
  | nil => simp [hc]
  | cons d s ih => rw [List.cons_append, List.takeWhile_cons, List.takeWhile_cons, ih]

/-- A character that no key has ends every key. -/
theorem apiKey_append_cons (hc : isKeyChar c = false) : apiKey (s ++ c :: rest) = apiKey s := by
  have hstart : c ∉ keyStart := by
    intro hmem
    have hall : ∀ d ∈ keyStart, isKeyChar d = true := List.all_eq_true.1 rfl
    rw [hall c hmem] at hc
    exact Bool.false_ne_true hc.symm
  by_cases hstarts : keyStart <+: s
  · obtain ⟨tail, rfl⟩ := hstarts
    rw [List.append_assoc, apiKey_keyStart_append, apiKey_keyStart_append,
      takeWhile_append_cons hc]
  · have hnot : ¬ keyStart <+: s ++ c :: rest :=
      fun h => hstarts (prefix_of_prefix_append_cons h hstart)
    rw [← List.isPrefixOf_iff_prefix] at hstarts hnot
    rw [apiKey, apiKey, if_neg hstarts, if_neg hnot]

/-- Keys start with an s only. -/
theorem apiKey_cons (hc : c ≠ 's') (rest : List Char) : apiKey (c :: rest) = none := by
  have hnot : ¬ keyStart.isPrefixOf (c :: rest) = true := by
    rw [List.isPrefixOf_iff_prefix]
    exact fun h => hc (List.cons_prefix_cons.1 h).1.symm
  rw [apiKey, if_neg hnot]

/-- Keys on both sides of a character that they cannot have are replaced apart. -/
theorem replaceAll_apiKey_append_cons (hc : isKeyChar c = false) :
    replaceAll apiKey (s ++ c :: rest) = replaceAll apiKey s ++ c :: replaceAll apiKey rest := by
  have hne : c ≠ 's' := by
    rintro rfl
    exact absurd hc (by decide)
  rw [replaceAll_append masks_apiKey fun s _ _ => apiKey_append_cons hc,
    replaceAll_of_none (apiKey_cons hne rest)]

end

/-- The word starts with a b only, small or capital. -/
theorem bearerToken_cons {c : Char} (hc : c.toLower ≠ 'b') (rest : List Char) :
    bearerToken (c :: rest) = none := by
  have hnot : ¬ startsWithWord bearerWord (c :: rest) = true := by
    rw [startsWithWord_iff]
    rintro ⟨word, hinit, hword⟩
    obtain ⟨d, word, rfl⟩ := List.exists_cons_of_ne_nil (IsWord.ne_nil hword)
    obtain ⟨rfl, -⟩ := List.cons_prefix_cons.1 hinit
    exact hc (List.cons.inj hword).1
  rw [bearerToken, if_neg hnot]

/-- A blank begins neither the word nor a key. -/
theorem ne_of_isBlank {b : Char} (h : Text.isBlank b = true) : b.toLower ≠ 'b' ∧ b ≠ 's' := by
  constructor
  · intro hlower
    have hcode := Headers.toNat_toLower b
    rw [hlower, show 'b'.toNat = 98 from rfl] at hcode
    simp only [Text.isBlank, Bool.or_eq_true, Bool.and_eq_true, decide_eq_true_eq, beq_iff_eq] at h
    split at hcode <;> omega
  · rintro rfl
    revert h
    decide

/-! ## Hidden tokens -/

section

variable {before word blanks after : List Char}

/-- Behind a text that leaves no token open, a token is hidden. -/
theorem sanitizeChars_of_not_leavesOpen (h : ¬ LeavesOpen before) {token : List Char}
    (hoccurs : Occurs word blanks token after) :
    sanitizeChars (before ++ word ++ blanks ++ token ++ after)
      = replaceAll apiKey (replaceAll bearerToken before
        ++ (word ++ blanks ++ tokenMark ++ replaceAll bearerToken after)) := by
  have hparts : before ++ word ++ blanks ++ token ++ after
      = before ++ (word ++ (blanks ++ token ++ after)) := by simp
  rw [sanitizeChars, hparts, replaceAll_of_not_leavesOpen h hoccurs.word, ← List.append_assoc word,
    ← List.append_assoc word, hoccurs.replaceAll_eq]

/-- Behind a text that leaves a token open, a token of one character that begins neither the word
nor a key is shown. -/
theorem LeavesOpen.exists_sanitizeChars_eq (h : LeavesOpen before) (hword : IsWord word)
    (hblanks : IsBlanks blanks) (after : List Char) :
    ∃ left right, ∀ c : Char, c.toLower ≠ 'b' → c ≠ 's' →
      sanitizeChars (before ++ word ++ blanks ++ [c] ++ after) = left ++ c :: right := by
  obtain ⟨shown, hshown⟩ := h.exists_replaceAll_eq hword hblanks
  refine ⟨replaceAll apiKey (shown ++ '[' :: tokenLabel) ++ ']' :: blanks,
    replaceAll apiKey (replaceAll bearerToken after), fun c hc hc' => ?_⟩
  have hblank {b : Char} (hb : b ∈ blanks) := ne_of_isBlank (hblanks.2 b hb)
  have hparts : before ++ word ++ blanks ++ [c] ++ after
      = before ++ word ++ (blanks ++ ([c] ++ after)) := by simp
  have hbehind : replaceAll bearerToken (blanks ++ ([c] ++ after))
      = blanks ++ c :: replaceAll bearerToken after := by
    rw [replaceAll_append_of_none fun b hb => bearerToken_cons (hblank hb).1, List.singleton_append,
      replaceAll_of_none (bearerToken_cons hc after)]
  have hmark : shown ++ tokenMark ++ (blanks ++ c :: replaceAll bearerToken after)
      = shown ++ '[' :: tokenLabel ++ ']' :: (blanks ++ c :: replaceAll bearerToken after) := by
    simp [show tokenMark = '[' :: (tokenLabel ++ [']']) from rfl]
  rw [sanitizeChars, hparts, hshown, hbehind, hmark, replaceAll_apiKey_append_cons (by decide),
    replaceAll_append_of_none fun b hb => apiKey_cons (hblank hb).2,
    replaceAll_of_none (apiKey_cons hc' _)]
  simp

/-- **A token is hidden behind the word and blanks, whatever it is, exactly if** the text before the
word leaves no token open. -/
theorem hides_tokens_iff {before word blanks after : String} (hword : IsWord word.toList)
    (hblanks : IsBlanks blanks.toList) (hafter : ∀ c ∈ after.toList.head?, isTokenChar c = false) :
    (∀ t₁ t₂ : String, IsToken t₁.toList → IsToken t₂.toList →
      sanitize (before ++ word ++ blanks ++ t₁ ++ after)
        = sanitize (before ++ word ++ blanks ++ t₂ ++ after)) ↔ ¬ LeavesOpen before.toList := by
  have htext (t : String) : (sanitize (before ++ word ++ blanks ++ t ++ after)).toList
      = sanitizeChars
          (before.toList ++ word.toList ++ blanks.toList ++ t.toList ++ after.toList) := by
    simp only [toList_sanitize, String.toList_append]
  constructor
  · intro hsame hopen
    obtain ⟨left, right, hshown⟩ := hopen.exists_sanitizeChars_eq hword hblanks after.toList
    have heq := congrArg String.toList (hsame "x" "y" (isToken_of_all rfl) (isToken_of_all rfl))
    rw [htext, htext] at heq
    have hx := hshown 'x' (by decide) (by decide)
    have hy := hshown 'y' (by decide) (by decide)
    have hxy : left ++ 'x' :: right = left ++ 'y' :: right := hx.symm.trans (heq.trans hy)
    exact absurd (List.cons.inj (List.append_cancel_left hxy)).1 (by decide)
  · intro hclosed t₁ t₂ h₁ h₂
    rw [← String.toList_inj, htext, htext,
      sanitizeChars_of_not_leavesOpen hclosed ⟨hword, hblanks, h₁, hafter⟩,
      sanitizeChars_of_not_leavesOpen hclosed ⟨hword, hblanks, h₂, hafter⟩]

end

/-- Behind a third word a token is hidden again. -/
theorem hides_tokens_third_word :
    let before := "Bearer Bearer "
    IsWord "BEARER".toList ∧ IsBlanks "\t ".toList ∧
      (∀ c ∈ "".toList.head?, isTokenChar c = false) ∧ ¬ LeavesOpen before.toList ∧
      sanitize (before ++ "BEARER" ++ "\t " ++ "abc" ++ "")
        = sanitize (before ++ "BEARER" ++ "\t " ++ "sk-0123456789" ++ "") := by
  intro before
  have hword : IsWord "BEARER".toList := rfl
  have hblanks : IsBlanks "\t ".toList := isBlanks_of_all rfl
  have hafter : ∀ c ∈ "".toList.head?, isTokenChar c = false := nofun
  have hfirst : Begun [] "Bearer ".toList :=
    ⟨"Bearer".toList, [' '], [], rfl, rfl, isBlanks_of_all rfl, nofun⟩
  have hsecond : Begun "Bearer ".toList before.toList :=
    ⟨"Bearer".toList, [' '], [], by decide, rfl, isBlanks_of_all rfl, nofun⟩
  have hclosed : ¬ LeavesOpen before.toList := by
    rw [leavesOpen_iff_of_begun hsecond, leavesOpen_iff_of_begun hfirst]
    exact not_not.2 not_leavesOpen_nil
  refine ⟨hword, hblanks, hafter, hclosed, ?_⟩
  exact (hides_tokens_iff hword hblanks hafter).2 hclosed "abc" "sk-0123456789"
    (isToken_of_all rfl) (isToken_of_all rfl)

/-- Behind a doubled word the token is shown: two texts that differ in nothing else are redacted to
different texts. -/
theorem doubled_word_leaks :
    let before := "Bearer "
    IsWord "Bearer".toList ∧ IsBlanks " ".toList ∧ (∀ c ∈ "".toList.head?, isTokenChar c = false) ∧
      IsToken "abc".toList ∧ IsToken "xyz".toList ∧
      sanitize (before ++ "Bearer" ++ " " ++ "abc" ++ "") = "Bearer [REDACTED_TOKEN] abc" ∧
      sanitize (before ++ "Bearer" ++ " " ++ "xyz" ++ "") = "Bearer [REDACTED_TOKEN] xyz" ∧
      sanitize (before ++ "Bearer" ++ " " ++ "abc" ++ "")
        ≠ sanitize (before ++ "Bearer" ++ " " ++ "xyz" ++ "") := by
  intro before
  have habc : sanitize (before ++ "Bearer" ++ " " ++ "abc" ++ "")
      = "Bearer [REDACTED_TOKEN] abc" := by
    decide
  have hxyz : sanitize (before ++ "Bearer" ++ " " ++ "xyz" ++ "")
      = "Bearer [REDACTED_TOKEN] xyz" := by
    decide
  refine ⟨rfl, isBlanks_of_all rfl, nofun, isToken_of_all rfl, isToken_of_all rfl, habc, hxyz, ?_⟩
  rw [habc, hxyz]
  decide

end EvalProxy.Redaction
