/-
# The order of texts

Texts are compared character by character, and characters by their codes. The octets of a text,
compared one by one, give the same order: of two characters with equally many octets the greater
one has the greater octet where they first differ, and more octets start with a greater one.

Main definition: `Rises`.
Main statement: `encode_lt_encode_iff`.
-/
import EvalProxy.Proofs.Text.Octets
namespace EvalProxy.Text

/-! ## Codes in octets -/

/-- The first octet of a code, with the bits that tell how many follow. -/
def lead (width mark code : Nat) : Bytes := [UInt8.ofNat (code % width + mark)]

/-- The octets of a code whose last six bits take an octet of their own. -/
def continued (front : Nat → Bytes) (code : Nat) : Bytes :=
  front (code / 64) ++ [UInt8.ofNat (code % 64 + 128)]

/-- The octets of a character are one, or a first one and up to three that continue it. -/
theorem utf8EncodeChar_eq (c : Char) :
    String.utf8EncodeChar c =
      if c.toNat ≤ 0x7f then [UInt8.ofNat c.toNat]
      else if c.toNat ≤ 0x7ff then continued (lead 32 192) c.toNat
      else if c.toNat ≤ 0xffff then continued (continued (lead 16 224)) c.toNat
      else continued (continued (continued (lead 8 240))) c.toNat := by
  simp only [continued, lead, Nat.div_div_eq_div_mul]
  rfl

/-- Of two codes below a bound the smaller one has the smaller octets, whatever follows. -/
def Rises (write : Nat → Bytes) (bound : Nat) : Prop :=
  ∀ m n, m < n → n < bound → ∀ x y : Bytes, write m ++ x < write n ++ y

/-- A smaller first octet decides. -/
theorem cons_lt_cons_of_lt {m n : Nat} (h : m < n) (hn : n < 256) (x y : Bytes) :
    UInt8.ofNat m :: x < UInt8.ofNat n :: y := by
  refine List.cons_lt_cons_iff.2 (.inl ?_)
  rw [UInt8.lt_iff_toNat_lt, UInt8.toNat_ofNat', UInt8.toNat_ofNat']
  omega

/-- The first octets of codes rise with them. -/
theorem rises_lead {width mark : Nat} (h : width + mark ≤ 256) : Rises (lead width mark) width := by
  intro m n hlt hn x y
  rw [lead, lead, Nat.mod_eq_of_lt (Nat.lt_trans hlt hn), Nat.mod_eq_of_lt hn]
  exact cons_lt_cons_of_lt (by omega) (by omega) _ _

/-- An octet for six more bits keeps octets rising. -/
theorem Rises.continued {write : Nat → Bytes} {bound : Nat} (h : Rises write bound) :
    Rises (Text.continued write) (bound * 64) := by
  intro m n hlt hn x y
  rw [Text.continued, Text.continued, List.append_assoc, List.append_assoc]
  -- either the front settles it, or the fronts are equal and the last six bits do
  rcases Nat.lt_or_eq_of_le (Nat.div_le_div_right (c := 64) (Nat.le_of_lt hlt)) with hfront | hfront
  · exact h _ _ hfront (Nat.div_lt_of_lt_mul (Nat.mul_comm bound 64 ▸ hn)) _ _
  · rw [hfront]
    exact List.append_left_lt (cons_lt_cons_of_lt (by omega) (by omega) _ _)

/-! ## Characters and texts -/

/-- Of two characters the smaller one has the smaller octets, whatever follows. -/
theorem octets_lt_of_lt {c d : Char} (h : c < d) (x y : Bytes) :
    String.utf8EncodeChar c ++ x < String.utf8EncodeChar d ++ y := by
  have hlt : c.toNat < d.toNat := UInt32.lt_iff_toNat_lt.1 h
  have hmost : d.toNat < 8 * 64 * 64 * 64 := by
    rcases d.valid with hlow | hhigh
    · exact Nat.lt_trans hlow (by decide)
    · exact Nat.lt_trans hhigh.2 (by decide)
  rw [utf8EncodeChar_eq, utf8EncodeChar_eq]
  generalize c.toNat = m at hlt
  generalize d.toNat = n at hlt hmost
  -- as many octets rise with the code; fewer octets start with a smaller one
  split
  · split
    · exact cons_lt_cons_of_lt hlt (by omega) _ _
    · split
      · exact cons_lt_cons_of_lt (by omega) (by omega) _ _
      · split <;> exact cons_lt_cons_of_lt (by omega) (by omega) _ _
  rw [if_neg (by omega : ¬ n ≤ 0x7f)]
  split
  · split
    · exact (rises_lead (by decide)).continued m n hlt (by omega) x y
    · split <;> exact cons_lt_cons_of_lt (by omega) (by omega) _ _
  rw [if_neg (by omega : ¬ n ≤ 0x7ff)]
  split
  · split
    · exact (rises_lead (by decide)).continued.continued m n hlt (by omega) x y
    · exact cons_lt_cons_of_lt (by omega) (by omega) _ _
  rw [if_neg (by omega : ¬ n ≤ 0xffff)]
  exact (rises_lead (by decide)).continued.continued.continued m n hlt hmost x y

/-- The smaller text has the smaller octets. -/
theorem octets_lt_octets {cs ds : List Char} (h : cs < ds) : octets cs < octets ds := by
  induction cs generalizing ds with
  | nil =>
    cases ds with
    | nil => exact absurd h (List.lt_irrefl [])
    | cons d ds =>
      rw [octets_nil, octets_cons]
      obtain ⟨b, bs, hd⟩ := List.exists_cons_of_ne_nil (String.utf8EncodeChar_ne_nil (c := d))
      rw [hd]
      exact List.nil_lt_cons b _
  | cons c cs ih =>
    cases ds with
    | nil => exact absurd h (List.not_lt_nil _)
    | cons d ds =>
      rw [octets_cons, octets_cons]
      rcases List.cons_lt_cons_iff.1 h with hlt | ⟨rfl, hrest⟩
      · exact octets_lt_of_lt hlt _ _
      · exact List.append_left_lt (ih hrest)

/-- **The octets of texts stand in the order of the texts.** -/
theorem encode_lt_encode_iff {s t : String} : encode s < encode t ↔ s < t := by
  have hmono {s t : String} (h : s < t) : encode s < encode t := by
    rw [encode_eq_octets, encode_eq_octets]
    exact octets_lt_octets h
  refine ⟨?_, hmono⟩
  intro hlt
  by_cases hst : s < t
  · exact hst
  · by_cases heq : s = t
    · subst heq
      exact absurd hlt (List.lt_irrefl _)
    · have hts : t < s := Std.lt_of_le_of_ne (String.not_lt.1 hst) (Ne.symm heq)
      exact absurd hlt (List.lt_asymm (hmono hts))

end EvalProxy.Text
