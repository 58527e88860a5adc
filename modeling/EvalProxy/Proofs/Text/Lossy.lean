/-
# What the lossy reading adds

Reading octets as text may put replacement characters in, and it may put together characters outside
ASCII, but it makes no ASCII character up: each one in the text is an octet of the input.

A character that is still being read has a range of codes that it can end at. The ranges of `begins`
keep clear of ASCII and of the surrogates, and each further octet narrows the range.

Main statement: `mem_of_mem_lossy`.
-/
import EvalProxy.Proofs.Text.Octets
namespace EvalProxy.Text

/-- Every number in a range is the code of a character outside ASCII. -/
def AreCodes (low high : Nat) : Prop :=
  0x80 ≤ low ∧ (high < 0xD800 ∨ (0xE000 ≤ low ∧ high < 0x110000))

/-- Whatever octets complete a partial character, they spell a character outside ASCII. -/
def Partial.Sound (p : Partial) : Prop :=
  0x80 ≤ p.low.toNat ∧
    let first := p.code * 64 + (p.low.toNat - 0x80)
    let last := p.code * 64 + (p.high.toNat - 0x80)
    (p.owed = 1 ∧ AreCodes first last) ∨
    (p.owed = 2 ∧ AreCodes (first * 64) (last * 64 + 63)) ∨
    (p.owed = 3 ∧ AreCodes (first * 4096) (last * 4096 + 4095))

/-- A code in such a range is the code of its character. -/
theorem toNat_ofNat_of_areCodes {low high n : Nat} (h : AreCodes low high) (hlow : low ≤ n)
    (hhigh : n ≤ high) : 0x80 ≤ (Char.ofNat n).toNat := by
  -- the range lies below the surrogates or above them
  have hvalid : n.isValidChar := by
    rcases h.2 with h | h
    · exact Or.inl (by omega)
    · exact Or.inr ⟨by omega, by omega⟩
  have hcode : (Char.ofNat n).toNat = n := by
    rw [Char.ofNat, dif_pos hvalid]
    rfl
  rw [hcode]
  exact Nat.le_trans h.1 hlow

/-! ## Octets that begin a character -/

/-- What an octet begins and does not end is the start of a character outside ASCII. -/
theorem sound_of_begins {b : UInt8} {p : Partial} (h : begins b = .inr p) : p.Sound := by
  have hb : b.toNat < 256 := b.toNat_lt
  unfold begins at h
  split at h
  · simp at h
  -- two octets in all
  split at h
  · rename_i hrange
    simp only [Bool.and_eq_true, decide_eq_true_eq, UInt8.le_iff_toNat_le] at hrange
    obtain rfl := Sum.inr.inj h
    simp [Partial.Sound, AreCodes] at hrange ⊢
    omega
  -- three octets in all: the first two cases keep clear of shorter forms and of the surrogates
  split at h
  · obtain rfl := Sum.inr.inj h
    simp [Partial.Sound, AreCodes]
  split at h
  · obtain rfl := Sum.inr.inj h
    simp [Partial.Sound, AreCodes]
  split at h
  · rename_i hnotED hrange
    simp only [Bool.and_eq_true, decide_eq_true_eq, UInt8.le_iff_toNat_le] at hrange
    have hne : b.toNat ≠ 0xED := by
      intro heq
      exact hnotED (beq_iff_eq.2 (UInt8.toNat_inj.1 heq))
    obtain rfl := Sum.inr.inj h
    simp [Partial.Sound, AreCodes] at hrange ⊢
    omega
  -- four octets in all: the first two cases keep clear of shorter forms and of what is no code
  split at h
  · obtain rfl := Sum.inr.inj h
    simp [Partial.Sound, AreCodes]
  split at h
  · obtain rfl := Sum.inr.inj h
    simp [Partial.Sound, AreCodes]
  split at h
  · rename_i hrange
    simp only [Bool.and_eq_true, decide_eq_true_eq, UInt8.le_iff_toNat_le] at hrange
    obtain rfl := Sum.inr.inj h
    simp [Partial.Sound, AreCodes] at hrange ⊢
    omega
  · simp at h

/-- A character that one octet makes is its ASCII character, if it is one of ASCII at all. -/
theorem eq_of_begins {b : UInt8} {c : Char} (h : begins b = .inl c) (hascii : c.toNat < 0x80) :
    UInt8.ofNat c.toNat = b := by
  have hreplacement : ¬ replacement.toNat < 0x80 := by decide
  unfold begins at h
  split at h
  · rename_i hb
    obtain rfl := Sum.inl.inj h
    have hb' : b.toNat < 0x80 := UInt8.lt_iff_toNat_lt.1 hb
    have hvalid : b.toNat.isValidChar := Or.inl (by omega)
    have hcode : (Char.ofNat b.toNat).toNat = b.toNat := by
      rw [Char.ofNat, dif_pos hvalid]
      rfl
    rw [hcode, UInt8.ofNat_toNat]
  · -- every other octet begins a longer character or is replaced
    have hc : c = replacement := by
      repeat' split at h
      all_goals simp_all
    rw [hc] at hascii
    exact absurd hascii hreplacement

/-! ## Octets that go on with a character -/

/-- The last octet of a character spells a character outside ASCII. -/
theorem le_last {p : Partial} {b : UInt8} (h : p.Sound) (hlow : p.low ≤ b) (hhigh : b ≤ p.high)
    (howed : p.owed ≤ 1) : 0x80 ≤ (Char.ofNat (p.code * 64 + (b.toNat - 0x80))).toNat := by
  rw [UInt8.le_iff_toNat_le] at hlow hhigh
  obtain ⟨hlow80, h | h | h⟩ := h
  · exact toNat_ofNat_of_areCodes h.2 (by omega) (by omega)
  · omega
  · omega

/-- An octet before the last narrows the range. -/
theorem sound_next {p : Partial} {b : UInt8} (h : p.Sound) (hlow : p.low ≤ b) (hhigh : b ≤ p.high)
    (howed : ¬ p.owed ≤ 1) :
    (Partial.mk (p.owed - 1) 0x80 0xBF (p.code * 64 + (b.toNat - 0x80))).Sound := by
  rw [UInt8.le_iff_toNat_le] at hlow hhigh
  obtain ⟨hlow80, h | h | h⟩ := h
  · omega
  · refine ⟨by simp, Or.inl ⟨by show p.owed - 1 = 1; omega, ?_⟩⟩
    simp only [AreCodes, UInt8.reduceToNat] at h ⊢
    omega
  · refine ⟨by simp, Or.inr (Or.inl ⟨by show p.owed - 1 = 2; omega, ?_⟩)⟩
    simp only [AreCodes, UInt8.reduceToNat] at h ⊢
    omega

/-! ## Texts -/

/-- An ASCII character of a lossy text was one of the octets. -/
theorem mem_of_mem_lossyChars (state : Option Partial) (bytes : Bytes)
    (hstate : ∀ p ∈ state, p.Sound) :
    ∀ c ∈ lossyChars state bytes, c.toNat < 0x80 → UInt8.ofNat c.toNat ∈ bytes := by
  have hreplacement : ¬ replacement.toNat < 0x80 := by decide
  induction bytes generalizing state with
  | nil =>
    intro c hc hascii
    cases state with
    | none => simp [lossyChars] at hc
    | some p =>
      obtain rfl : c = replacement := by simpa [lossyChars] using hc
      exact absurd hascii hreplacement
  | cons b rest ih =>
    intro c hc hascii
    -- the characters after this octet, and those that it ends
    have later (state : Option Partial) (hstate : ∀ p ∈ state, p.Sound)
        (hc : c ∈ lossyChars state rest) : UInt8.ofNat c.toNat ∈ b :: rest :=
      List.mem_cons_of_mem _ (ih state hstate c hc hascii)
    have begun (hc : c ∈ lossyChars none (b :: rest)) : UInt8.ofNat c.toNat ∈ b :: rest := by
      rw [lossyChars] at hc
      cases hb : begins b with
      | inl d =>
        rw [hb] at hc
        rcases List.mem_cons.1 hc with rfl | hc
        · rw [eq_of_begins hb hascii]
          exact List.mem_cons_self
        · exact later none (by simp) hc
      | inr q =>
        rw [hb] at hc
        exact later (some q) (by simpa using sound_of_begins hb) hc
    cases state with
    | none => exact begun hc
    | some p =>
      have hp : p.Sound := hstate p rfl
      rw [lossyChars] at hc
      split at hc
      · rename_i hrange
        simp only [Bool.and_eq_true, decide_eq_true_eq] at hrange
        simp only at hc
        split at hc
        · rename_i howed
          have hlast := le_last hp hrange.1 hrange.2 howed
          rcases List.mem_cons.1 hc with heq | hc
          · rw [← heq] at hlast
            omega
          · exact later none (by simp) hc
        · rename_i howed
          refine later _ ?_ hc
          intro q hq
          rw [← Option.mem_some_iff.1 hq]
          exact sound_next hp hrange.1 hrange.2 howed
      · refine begun ?_
        rw [lossyChars]
        cases hb : begins b with
        | inl d =>
          rw [hb] at hc
          rcases List.mem_cons.1 hc with rfl | hc
          · exact absurd hascii hreplacement
          · exact hc
        | inr q =>
          rw [hb] at hc
          rcases List.mem_cons.1 hc with rfl | hc
          · exact absurd hascii hreplacement
          · exact hc

/-- **The lossy reading makes up no ASCII character.** -/
theorem mem_of_mem_lossy {bytes : Bytes} {c : Char} (hc : c ∈ (lossy bytes).toList)
    (hascii : c.toNat < 0x80) : UInt8.ofNat c.toNat ∈ bytes := by
  unfold lossy at hc
  cases hdecode : decode? bytes with
  | some s =>
    rw [hdecode] at hc
    rw [← encode_of_decode? hdecode, encode_eq_octets]
    refine List.mem_flatMap.2 ⟨c, hc, ?_⟩
    rw [octets_of_ascii hascii]
    exact List.mem_singleton.2 rfl
  | none =>
    rw [hdecode] at hc
    refine mem_of_mem_lossyChars none bytes (by simp) c ?_ hascii
    simpa using hc

end EvalProxy.Text
