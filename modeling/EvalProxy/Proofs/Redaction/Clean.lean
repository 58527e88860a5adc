/-
# Clean texts

A redacted text has no secret left in it: neither the word `bearer` with blanks and the beginning of
a token behind it, nor the start of an API key with enough characters behind it. No mark and no cut
makes a new one together with the text around it, because a secret has no brackets in it and every
mark stands in brackets.

Main definitions: `TokenSecret`, `KeySecret`, `Clean`.
Main statements: `clean_sanitizeChars`, `sanitizeChars_eq_self_iff`, `no_secret_survives`.
-/
import EvalProxy.Proofs.Http.NormalForm
import EvalProxy.Proofs.Redaction.Replaced
namespace EvalProxy.Redaction

/-! ## Words, blanks and tokens -/

/-- The word `bearer` in any letter case. -/
def IsWord (s : List Char) : Prop := s.map Char.toLower = "bearer".toList

/-- At least one blank, and nothing else. -/
def IsBlanks (s : List Char) : Prop := s ≠ [] ∧ ∀ c ∈ s, Text.isBlank c = true

/-- At least one character of a token, and nothing else. -/
def IsToken (s : List Char) : Prop := s ≠ [] ∧ ∀ c ∈ s, isTokenChar c = true

theorem isBlanks_of_all {s : List Char} (h : (!s.isEmpty && s.all Text.isBlank) = true) :
    IsBlanks s := by
  obtain ⟨hne, hall⟩ := Bool.and_eq_true_iff.1 h
  exact ⟨by simpa using hne, List.all_eq_true.1 hall⟩

theorem isToken_of_all {s : List Char} (h : (!s.isEmpty && s.all isTokenChar) = true) :
    IsToken s := by
  obtain ⟨hne, hall⟩ := Bool.and_eq_true_iff.1 h
  exact ⟨by simpa using hne, List.all_eq_true.1 hall⟩

section

variable {c : Char} {word blanks token rest : List Char}

/-- The codes of letters and digits lie between 48 and 122. -/
theorem toNat_of_isAlphanum (h : c.isAlphanum = true) : 48 ≤ c.toNat ∧ c.toNat ≤ 122 := by
  rcases Bool.or_eq_true_iff.1 (show (c.isAlpha || c.isDigit) = true from h) with halpha | hdigit
  · rcases Bool.or_eq_true_iff.1 (show (c.isUpper || c.isLower) = true from halpha) with
      hupper | hlower
    · obtain ⟨hlow, hhigh⟩ := of_decide_eq_true hupper
      have hlow : 65 ≤ c.toNat := hlow
      have hhigh : c.toNat ≤ 90 := hhigh
      omega
    · obtain ⟨hlow, hhigh⟩ := Bool.and_eq_true_iff.1 hlower
      have hlow : 97 ≤ c.toNat := of_decide_eq_true hlow
      have hhigh : c.toNat ≤ 122 := of_decide_eq_true hhigh
      omega
  · obtain ⟨hlow, hhigh⟩ := Bool.and_eq_true_iff.1 hdigit
    have hlow : 48 ≤ c.toNat := of_decide_eq_true hlow
    have hhigh : c.toNat ≤ 57 := of_decide_eq_true hhigh
    omega

/-- Most characters of tokens are printable ASCII characters. -/
theorem toNat_of_isTokenChar (h : isTokenChar c = true) :
    (33 ≤ c.toNat ∧ c.toNat ≤ 126) ∨ c.toNat = 0x17f ∨ c.toNat = 0x212a := by
  simp only [isTokenChar, Bool.or_eq_true, beq_iff_eq, List.contains_iff_mem] at h
  rcases h with ((halnum | hmem) | rfl) | rfl
  · have hcode := toNat_of_isAlphanum halnum
    omega
  · have hall : ∀ d ∈ "._~+/=-".toList, decide (33 ≤ d.toNat ∧ d.toNat ≤ 126) = true :=
      List.all_eq_true.1 rfl
    exact .inl (of_decide_eq_true (hall c hmem))
  · exact .inr (.inl rfl)
  · exact .inr (.inr rfl)

/-- No character of tokens is blank. -/
theorem isBlank_eq_false_of_isTokenChar (h : isTokenChar c = true) : Text.isBlank c = false := by
  have hcode := toNat_of_isTokenChar h
  simp only [Text.isBlank, Bool.or_eq_false_iff, Bool.and_eq_false_iff, decide_eq_false_iff_not,
    beq_eq_false_iff_ne]
  omega

theorem isTokenChar_eq_false_of_isBlank (h : Text.isBlank c = true) : isTokenChar c = false := by
  refine Bool.eq_false_iff.2 fun htoken => ?_
  rw [isBlank_eq_false_of_isTokenChar htoken] at h
  exact Bool.false_ne_true h

theorem IsWord.map_eq (h : IsWord word) : word.map Char.toLower = bearerWord := h

theorem IsWord.length_eq (h : IsWord word) : word.length = bearerWord.length := by
  rw [← h.map_eq, List.length_map]

theorem IsWord.ne_nil (h : IsWord word) : word ≠ [] := by
  rintro rfl
  cases h

/-- The letters of the word are characters of tokens. -/
theorem IsWord.isTokenChar (h : IsWord word) (hc : c ∈ word) : isTokenChar c = true := by
  have hlower : c.toLower ∈ bearerWord := h.map_eq ▸ List.mem_map_of_mem hc
  have hcodes : ∀ d ∈ bearerWord,
      decide (d.toNat = 98 ∨ d.toNat = 101 ∨ d.toNat = 97 ∨ d.toNat = 114) = true :=
    List.all_eq_true.1 rfl
  have hcode := of_decide_eq_true (hcodes _ hlower)
  rw [Headers.toNat_toLower] at hcode
  -- the letters of the word, as capitals and as small letters
  have hletter : c.toNat ∈ [66, 69, 65, 82, 98, 101, 97, 114] := by
    simp only [List.mem_cons, List.not_mem_nil, or_false]
    split at hcode <;> omega
  have hall : ∀ n ∈ [66, 69, 65, 82, 98, 101, 97, 114],
      Redaction.isTokenChar (Char.ofNat n) = true := by decide
  rw [← Char.ofNat_toNat c]
  exact hall _ hletter

/-- Among blanks there is no character of tokens. -/
theorem IsBlanks.not_isTokenChar (h : IsBlanks blanks) (hc : c ∈ blanks) : isTokenChar c = false :=
  isTokenChar_eq_false_of_isBlank (h.2 c hc)

/-- The longest run of characters of a kind ends where another kind of character follows. -/
theorem takeWhile_eq {q : Char → Bool} {run : List Char} (hrun : ∀ c ∈ run, q c = true)
    (hrest : ∀ c ∈ rest.head?, q c = false) : (run ++ rest).takeWhile q = run := by
  rw [List.takeWhile_append_of_pos hrun]
  cases rest with
  | nil => simp
  | cons c rest => simp [hrest c rfl]

theorem ends_dropWhile (q : Char → Bool) (s : List Char) :
    ∀ c ∈ (s.dropWhile q).head?, q c = false := by
  intro c hc
  have hstop := List.head?_dropWhile_not q s
  rw [Option.mem_def.1 hc] at hstop
  simpa using hstop

end

/-! ## Tokens -/

/-- The word, blanks, and the first character of a token. -/
inductive TokenSecret : List Char → Prop
  | intro {word blanks : List Char} {c : Char} (hword : IsWord word) (hblanks : IsBlanks blanks)
      (hc : isTokenChar c = true) : TokenSecret (word ++ blanks ++ [c])

section

variable {word blanks token rest s u : List Char}

/-- A text starts with a word if it has a prefix with that lower form. -/
theorem startsWithWord_iff {w : List Char} :
    startsWithWord w s = true ↔ ∃ word, word <+: s ∧ word.map Char.toLower = w := by
  induction w generalizing s with
  | nil => exact iff_of_true rfl ⟨[], List.nil_prefix, rfl⟩
  | cons d w ih =>
    cases s with
    | nil =>
      refine iff_of_false Bool.false_ne_true ?_
      rintro ⟨word, hinit, hword⟩
      obtain rfl := List.prefix_nil.1 hinit
      cases hword
    | cons c s =>
      rw [startsWithWord, Bool.and_eq_true, beq_iff_eq, ih]
      constructor
      · rintro ⟨rfl, word, hinit, hword⟩
        exact ⟨c :: word, List.cons_prefix_cons.2 ⟨rfl, hinit⟩, by rw [List.map_cons, hword]⟩
      · rintro ⟨word, hinit, hword⟩
        cases word with
        | nil => cases hword
        | cons c' word =>
          obtain ⟨rfl, htail⟩ := List.cons_prefix_cons.1 hinit
          obtain ⟨hfirst, hword⟩ := List.cons.inj hword
          exact ⟨hfirst.symm, word, htail, hword⟩

/-- A text consists of the word, blanks, a token as long as it can be, and a rest. -/
structure Occurs (word blanks token rest : List Char) : Prop where
  word : IsWord word
  blanks : IsBlanks blanks
  token : IsToken token
  ends : ∀ c ∈ rest.head?, isTokenChar c = false

/-- An occurrence covers the word, the blanks and the whole token, which is replaced. -/
theorem Occurs.bearerToken_eq (h : Occurs word blanks token rest) :
    bearerToken (word ++ blanks ++ token ++ rest)
      = some ((word ++ blanks ++ token).length, word ++ blanks ++ tokenMark) := by
  have hstarts : startsWithWord bearerWord (word ++ blanks ++ token ++ rest) = true :=
    startsWithWord_iff.2 ⟨word, ⟨blanks ++ token ++ rest, by simp⟩, h.word⟩
  have htail : (word ++ blanks ++ token ++ rest).drop word.length = blanks ++ (token ++ rest) := by
    rw [List.append_assoc, List.append_assoc, List.drop_left]
  -- a token begins with a character that is no blank
  have htakeBlanks : (blanks ++ (token ++ rest)).takeWhile Text.isBlank = blanks := by
    refine takeWhile_eq h.blanks.2 ?_
    obtain ⟨c, more, rfl⟩ := List.exists_cons_of_ne_nil h.token.1
    intro d hd
    obtain rfl : c = d := by simpa using hd
    exact isBlank_eq_false_of_isTokenChar (h.token.2 c List.mem_cons_self)
  have htakeToken : (token ++ rest).takeWhile isTokenChar = token := takeWhile_eq h.token.2 h.ends
  have hkept : (word ++ blanks ++ token ++ rest).take (word ++ blanks).length = word ++ blanks := by
    rw [List.append_assoc (word ++ blanks), List.take_left]
  rw [bearerToken, if_pos hstarts]
  simp only [← h.word.length_eq, htail, htakeBlanks, List.drop_left, htakeToken,
    ← List.length_append, hkept]
  exact if_neg (by simp [h.blanks.1, h.token.1])

/-- What the pattern finds is the word, blanks and a token in front of the text. -/
theorem exists_occurs_of_bearerToken {found : Nat × List Char} (h : bearerToken s = some found) :
    ∃ word blanks token rest, s = word ++ blanks ++ token ++ rest ∧
      Occurs word blanks token rest := by
  rw [bearerToken] at h
  split at h
  · rename_i hstarts
    obtain ⟨word, ⟨tail, rfl⟩, hword⟩ := startsWithWord_iff.1 hstarts
    have hword : IsWord word := hword
    simp only [← hword.length_eq, List.drop_left] at h
    split at h
    · cases h
    · rename_i hfound
      rw [Bool.or_eq_true, List.isEmpty_iff, List.isEmpty_iff, not_or] at hfound
      obtain ⟨hblanks, htoken⟩ := hfound
      -- the blanks and the token are the longest runs behind the word
      have htail : tail.takeWhile Text.isBlank ++ tail.drop (tail.takeWhile Text.isBlank).length
          = tail := List.prefix_iff_eq_append.1 (List.takeWhile_prefix _)
      have hall : ∀ c ∈ tail.takeWhile Text.isBlank, Text.isBlank c = true :=
        List.all_eq_true.1 List.all_takeWhile
      generalize tail.takeWhile Text.isBlank = blanks at *
      generalize tail.drop blanks.length = rest at *
      refine ⟨word, blanks, rest.takeWhile isTokenChar, rest.dropWhile isTokenChar, ?_, hword,
        ⟨hblanks, hall⟩, ⟨htoken, List.all_eq_true.1 List.all_takeWhile⟩, ends_dropWhile _ rest⟩
      rw [List.append_assoc _ _ (rest.dropWhile _), List.takeWhile_append_dropWhile,
        List.append_assoc, htail]
  · cases h

/-- Where a secret begins, an occurrence does. -/
theorem bearerToken_ne_none (hu : u <+: s) (h : TokenSecret u) : bearerToken s ≠ none := by
  obtain ⟨rest, rfl⟩ := hu
  cases h with
  | @intro word blanks c hword hblanks hc =>
    -- the token goes on as far as it can
    have hoccurs : Occurs word blanks (c :: rest.takeWhile isTokenChar)
        (rest.dropWhile isTokenChar) := by
      refine ⟨hword, hblanks, ⟨by simp, ?_⟩, ends_dropWhile _ rest⟩
      exact List.forall_mem_cons.2 ⟨hc, List.all_eq_true.1 List.all_takeWhile⟩
    have hfound := hoccurs.bearerToken_eq
    rw [List.append_assoc, List.cons_append, List.takeWhile_append_dropWhile] at hfound
    rw [List.append_assoc, List.singleton_append, hfound]
    exact Option.some_ne_none _

/-- An occurrence begins with a secret. -/
theorem Occurs.exists_tokenSecret (h : Occurs word blanks token rest) :
    ∃ u, u <+: word ++ blanks ++ token ∧ TokenSecret u := by
  obtain ⟨c, more, rfl⟩ := List.exists_cons_of_ne_nil h.token.1
  refine ⟨word ++ blanks ++ [c], ⟨more, by simp⟩, ?_⟩
  exact .intro h.word h.blanks (h.token.2 c List.mem_cons_self)

/-- The text in the mark of a token. -/
def tokenLabel : List Char := "REDACTED_TOKEN".toList

/-- The pattern for tokens masks what it finds. -/
theorem masks_bearerToken : Masks bearerToken ('[' :: (tokenLabel ++ [']'])) := by
  intro s n text h
  obtain ⟨word, blanks, token, rest, rfl, hoccurs⟩ := exists_occurs_of_bearerToken h
  rw [hoccurs.bearerToken_eq] at h
  obtain ⟨rfl, rfl⟩ := Prod.mk.inj (Option.some.inj h)
  exact ⟨word ++ blanks, token, rest, rfl, hoccurs.token.1, rfl, rfl⟩

/-- A blank stands right before the token. -/
theorem TokenSecret.exists_blank (h : TokenSecret u) :
    ∃ b c, [b, c] <:+: u ∧ Text.isBlank b = true ∧ isTokenChar c = true := by
  cases h with
  | @intro word blanks c hword hblanks hc =>
    have hne := hblanks.1
    refine ⟨blanks.getLast hne, c, ⟨word ++ blanks.dropLast, [], ?_⟩,
      hblanks.2 _ (List.getLast_mem hne), hc⟩
    conv_rhs => rw [← List.dropLast_append_getLast hne]
    simp

/-- A secret token consists of characters of tokens and blanks. -/
theorem isTokenChar_or_isBlank_of_mem (h : TokenSecret u) {c : Char} (hc : c ∈ u) :
    isTokenChar c = true ∨ Text.isBlank c = true := by
  cases h with
  | @intro word blanks d hword hblanks hd =>
    rcases List.mem_append.1 hc with hc | hc
    · exact (List.mem_append.1 hc).imp hword.isTokenChar (hblanks.2 c)
    · rw [List.mem_singleton.1 hc]
      exact .inl hd

/-- Brackets are no part of a secret. -/
theorem TokenSecret.not_mem_bracket (h : TokenSecret u) : '[' ∉ u ∧ ']' ∉ u := by
  constructor <;>
  · intro hmem
    have hkind := isTokenChar_or_isBlank_of_mem h hmem
    revert hkind
    decide

/-- No token stands in a text once it is replaced. -/
theorem not_tokenSecret_of_infix_replaceAll (hu : u <:+: replaceAll bearerToken s) :
    ¬ TokenSecret u := by
  intro h
  obtain ⟨hopen, hclose⟩ := h.not_mem_bracket
  obtain ⟨b, c, hpair, hb, hc⟩ := h.exists_blank
  rcases infix_replaceAll masks_bearerToken hu hopen hclose with
    hinner | ⟨t, -, hnone, hinit⟩ | ⟨t, n, kept, -, hsome, hkept⟩
  · have hlabel : ∀ b ∈ tokenLabel, ¬ Text.isBlank b = true := List.any_eq_false.1 rfl
    exact hlabel b ((hpair.trans hinner).subset List.mem_cons_self) hb
  · exact bearerToken_ne_none hinit h hnone
  -- behind the first blank of what is kept there are only blanks
  · obtain ⟨word, blanks, token, rest, rfl, hoccurs⟩ := exists_occurs_of_bearerToken hsome
    rw [hoccurs.bearerToken_eq] at hsome
    obtain ⟨-, hsame⟩ := Prod.mk.inj (Option.some.inj hsome)
    obtain rfl := List.append_cancel_right hsame
    have hordered : (word ++ blanks).Pairwise
        fun b c => Text.isBlank b = true → isTokenChar c = false := by
      refine List.pairwise_append.2 ⟨?_, ?_, ?_⟩
      · refine List.pairwise_of_forall_mem_list ?_
        intro b hword c _ hblank
        rw [isBlank_eq_false_of_isTokenChar (hoccurs.word.isTokenChar hword)] at hblank
        exact absurd hblank Bool.false_ne_true
      · exact List.pairwise_of_forall_mem_list fun b _ c hc _ => hoccurs.blanks.not_isTokenChar hc
      · exact fun b _ c hc _ => hoccurs.blanks.not_isTokenChar hc
    have hpairwise := hordered.sublist (hpair.trans hkept).sublist
    rw [(List.pairwise_cons.1 hpairwise).1 c List.mem_cons_self hb] at hc
    exact Bool.false_ne_true hc

end

/-! ## API keys -/

/-- The start of an API key and enough characters of it. -/
inductive KeySecret : List Char → Prop
  | intro {key : List Char} (hlength : 8 ≤ key.length)
      (hkey : ∀ c ∈ key, isKeyChar c = true) : KeySecret ("sk-".toList ++ key)

section

variable {s u : List Char}

/-- Behind the start of a key at least eight characters of keys make one. -/
theorem apiKey_keyStart_append (tail : List Char) :
    apiKey (keyStart ++ tail) =
      if 8 ≤ (tail.takeWhile isKeyChar).length then
        some (keyStart.length + (tail.takeWhile isKeyChar).length, keyMark)
      else none := by
  have hstarts : keyStart.isPrefixOf (keyStart ++ tail) = true :=
    List.isPrefixOf_iff_prefix.2 (List.prefix_append _ tail)
  rw [apiKey, if_pos hstarts, List.drop_left]
  rfl

/-- What the pattern finds is a secret key in front of the text. -/
theorem exists_of_apiKey {found : Nat × List Char} (h : apiKey s = some found) :
    ∃ key rest, s = keyStart ++ key ++ rest ∧ KeySecret (keyStart ++ key) ∧
      found = ((keyStart ++ key).length, keyMark) := by
  by_cases hstarts : keyStart <+: s
  · obtain ⟨tail, rfl⟩ := hstarts
    rw [apiKey_keyStart_append] at h
    split at h
    · rename_i hlength
      refine ⟨tail.takeWhile isKeyChar, tail.dropWhile isKeyChar, by simp,
        .intro hlength (List.all_eq_true.1 List.all_takeWhile), ?_⟩
      rw [List.length_append]
      exact (Option.some.inj h).symm
    · cases h
  · rw [apiKey, if_neg (by rwa [List.isPrefixOf_iff_prefix])] at h
    cases h

/-- Where the start of a key stands with enough characters, an occurrence begins. -/
theorem apiKey_ne_none (hu : u <+: s) (h : KeySecret u) : apiKey s ≠ none := by
  obtain ⟨rest, rfl⟩ := hu
  cases h with
  | @intro key hlength hkey =>
    have henough : 8 ≤ ((key ++ rest).takeWhile isKeyChar).length := by
      rw [List.takeWhile_append_of_pos hkey, List.length_append]
      omega
    have hfound := apiKey_keyStart_append (key ++ rest)
    rw [if_pos henough, ← List.append_assoc] at hfound
    exact hfound ▸ Option.some_ne_none _

/-- The text in the mark of a key. -/
def keyLabel : List Char := "REDACTED_API_KEY".toList

/-- The pattern for keys masks what it finds. -/
theorem masks_apiKey : Masks apiKey ('[' :: (keyLabel ++ [']'])) := by
  intro s n text h
  obtain ⟨key, rest, rfl, -, hfound⟩ := exists_of_apiKey h
  obtain ⟨rfl, rfl⟩ := Prod.mk.inj hfound
  exact ⟨[], keyStart ++ key, rest, rfl, by simp [keyStart], rfl, rfl⟩

/-- A secret key has no brackets. -/
theorem KeySecret.not_mem_bracket (h : KeySecret u) : '[' ∉ u ∧ ']' ∉ u := by
  cases h with
  | intro hlength hkey =>
    constructor <;>
    · intro hmem
      rcases List.mem_append.1 hmem with hmem | hmem
      · revert hmem
        decide
      · have hkind := hkey _ hmem
        revert hkind
        decide

/-- What stands in a text after keys are replaced stood there before, or it is part of a mark. -/
theorem infix_replaceAll_apiKey (hu : u <:+: replaceAll apiKey s) (hopen : '[' ∉ u)
    (hclose : ']' ∉ u) :
    u <:+: keyLabel ∨ ∃ t, t <:+ s ∧ apiKey t = none ∧ u <+: t := by
  rcases infix_replaceAll masks_apiKey hu hopen hclose with
    hinner | hfound | ⟨t, n, kept, -, hsome, hkept⟩
  · exact .inl hinner
  · exact .inr hfound
  · obtain ⟨key, rest, -, -, hfound⟩ := exists_of_apiKey hsome
    -- of a key nothing is kept
    have hmark : kept ++ keyMark = [] ++ keyMark := (Prod.mk.inj hfound).2
    obtain rfl : kept = [] := List.append_cancel_right hmark
    rw [List.infix_nil.1 hkept]
    exact .inl List.nil_infix

/-- No key stands in a text once keys are replaced. -/
theorem not_keySecret_of_infix_replaceAll (hu : u <:+: replaceAll apiKey s) : ¬ KeySecret u := by
  intro h
  obtain ⟨hopen, hclose⟩ := h.not_mem_bracket
  rcases infix_replaceAll_apiKey hu hopen hclose with hinner | ⟨t, -, hnone, hinit⟩
  · cases h with
    | intro hlength hkey =>
      -- the mark has no small letters
      have hmem : 's' ∈ keyLabel := hinner.subset (by simp)
      revert hmem
      decide
  · exact apiKey_ne_none hinit h hnone

end

/-! ## Clean texts -/

/-- No secret stands in a text. -/
structure Clean (s : List Char) : Prop where
  token : ∀ u, u <:+: s → ¬ TokenSecret u
  key : ∀ u, u <:+: s → ¬ KeySecret u

section

variable {s : List Char}

/-- A part of a clean text is clean. -/
theorem Clean.of_infix {t : List Char} (h : Clean s) (ht : t <:+: s) : Clean t :=
  ⟨fun u hu => h.token u (hu.trans ht), fun u hu => h.key u (hu.trans ht)⟩

/-- **No secret survives.** The mark of a key makes no token with what is around it. -/
theorem clean_sanitizeChars (s : List Char) : Clean (sanitizeChars s) := by
  refine ⟨?_, fun u hu => not_keySecret_of_infix_replaceAll hu⟩
  intro u hu h
  obtain ⟨hopen, hclose⟩ := h.not_mem_bracket
  rcases infix_replaceAll_apiKey hu hopen hclose with hinner | ⟨t, ht, -, hinit⟩
  · obtain ⟨b, c, hpair, hb, -⟩ := h.exists_blank
    have hlabel : ∀ b ∈ keyLabel, ¬ Text.isBlank b = true := List.any_eq_false.1 rfl
    exact hlabel b ((hpair.trans hinner).subset List.mem_cons_self) hb
  · exact not_tokenSecret_of_infix_replaceAll (hinit.isInfix.trans ht.isInfix) h

/-- **Clean texts** are those that redaction leaves as they are. -/
theorem sanitizeChars_eq_self_iff : sanitizeChars s = s ↔ Clean s := by
  refine ⟨fun h => h ▸ clean_sanitizeChars s, ?_⟩
  intro h
  have htoken : replaceAll bearerToken s = s := by
    refine replaceAll_eq_self fun t ht => Option.eq_none_iff_forall_ne_some.2 fun found hfound => ?_
    obtain ⟨word, blanks, token, rest, rfl, hoccurs⟩ := exists_occurs_of_bearerToken hfound
    obtain ⟨u, hu, hsecret⟩ := hoccurs.exists_tokenSecret
    have hinit := hu.trans (List.prefix_append _ rest)
    exact h.token u (hinit.isInfix.trans ht.isInfix) hsecret
  have hkey : replaceAll apiKey s = s := by
    refine replaceAll_eq_self fun t ht => Option.eq_none_iff_forall_ne_some.2 fun found hfound => ?_
    obtain ⟨key, rest, rfl, hsecret, -⟩ := exists_of_apiKey hfound
    exact h.key _ ((List.prefix_append _ rest).isInfix.trans ht.isInfix) hsecret
  rw [sanitizeChars, htoken, hkey]

end

/-- A text is sanitised character by character. -/
theorem toList_sanitize (text : String) : (sanitize text).toList = sanitizeChars text.toList :=
  String.toList_ofList

/-- **No secret survives redaction**, neither in a whole text nor in what is kept of one that is
cut. Redacting again changes nothing, and a text without secrets is left as it is. -/
theorem no_secret_survives (text : String) (limit : Nat) :
    Clean (sanitize text).toList ∧ sanitize (sanitize text) = sanitize text ∧
      (sanitize text = text ↔ Clean text.toList) ∧
      ∃ kept note : String, bodyText text limit = kept ++ note ∧ Clean kept.toList ∧
        kept.toList = (sanitize text).toList.take limit ∧
        note = if (sanitize text).toList.length ≤ limit then ""
          else s!"... [{((sanitize text).toList.drop limit).length} more chars]" := by
  have hclean : Clean (sanitize text).toList := by
    rw [toList_sanitize]
    exact clean_sanitizeChars _
  have hself (t : String) : sanitize t = t ↔ Clean t.toList := by
    rw [← sanitizeChars_eq_self_iff, ← toList_sanitize, String.toList_inj]
  refine ⟨hclean, (hself _).2 hclean, hself text, ?_⟩
  rw [bodyText, truncate]
  split
  · rename_i hshort
    exact ⟨sanitize text, "", by simp, hclean, (List.take_of_length_le hshort).symm, rfl⟩
  · refine ⟨_, _, rfl, ?_, String.toList_ofList, ?_⟩
    · rw [String.toList_ofList]
      exact hclean.of_infix (List.take_prefix limit _).isInfix
    · rw [List.length_drop]

end EvalProxy.Redaction
