/-
# What is read as an export

A reader takes exactly the renderings of a value, with whatever follows them. Octets that start with
no complete export give none, whatever lengths and counts they claim, and the bound on the number of
entries that are tried is never what ends a reading.

Main definition: `Takes`.
Main statements: `takes_readDict`, `Export.decode?_eq_some_iff`, `readEntries_eq_of_le`.
-/
import EvalProxy.Proofs.Cache.Codec
import EvalProxy.Proofs.Text.Octets
namespace EvalProxy.Cache

/-- What a reader takes from the front of octets renders the value that it gives. -/
def Takes {α : Type} (read : Reader α) (renders : α → Bytes → Prop) : Prop :=
  ∀ ⦃b a rest⦄, read b = some (a, rest) → ∃ octets, b = octets ++ rest ∧ renders a octets

/-! ## Numbers, octets and texts -/

/-- Octets that were taken stood in front, as many as were asked for. -/
theorem eq_of_takeBytes {n : Nat} {b octets rest : Bytes}
    (h : takeBytes n b = some (octets, rest)) : b = octets ++ rest ∧ octets.length = n := by
  unfold takeBytes at h
  split at h
  · rename_i hle
    cases h
    exact ⟨(List.take_append_drop n b).symm, List.length_take_of_le hle⟩
  · cases h

/-- A number that is read fits the width it was read from. -/
theorem ofLittleEndian_lt (octets : Bytes) : ofLittleEndian octets < 256 ^ octets.length := by
  induction octets with
  | nil => exact Nat.one_pos
  | cons b rest ih =>
    have hb := b.toNat_lt
    rw [ofLittleEndian, List.length_cons, Nat.pow_succ]
    omega

/-- Octets are those of the number that they spell. -/
theorem littleEndian_ofLittleEndian (octets : Bytes) :
    littleEndian octets.length (ofLittleEndian octets) = octets := by
  induction octets with
  | nil => rfl
  | cons b rest ih =>
    have hb : b.toNat < 256 := b.toNat_lt
    have hfirst : (b.toNat + 256 * ofLittleEndian rest) % 256 = b.toNat := by omega
    have hrest : (b.toNat + 256 * ofLittleEndian rest) / 256 = ofLittleEndian rest := by omega
    rw [List.length_cons, littleEndian, ofLittleEndian, hfirst, hrest, ih, UInt8.ofNat_toNat]

/-- A number that is read stood in front in its octets and fits its width. -/
theorem eq_of_readNumber {width n : Nat} {b rest : Bytes}
    (h : readNumber width b = some (n, rest)) :
    b = littleEndian width n ++ rest ∧ n < 256 ^ width := by
  obtain ⟨⟨octets, more⟩, htake, heq⟩ := Option.bind_eq_some_iff.1 h
  cases heq
  obtain ⟨hb, hlength⟩ := eq_of_takeBytes htake
  rw [← hlength, littleEndian_ofLittleEndian]
  exact ⟨hb, ofLittleEndian_lt octets⟩

/-- Only a rendering of some octets is read as them. -/
theorem takes_readBytes : Takes readBytes RendersBytes := by
  intro b octets rest h
  obtain ⟨⟨length, more⟩, hnumber, htake⟩ := Option.bind_eq_some_iff.1 h
  obtain ⟨hb, hlt⟩ := eq_of_readNumber hnumber
  obtain ⟨hmore, rfl⟩ := eq_of_takeBytes htake
  refine ⟨_, ?_, hlt, rfl⟩
  rw [hb, hmore, encodeBytes, encodeLength, List.append_assoc]

/-- Only a rendering of a text is read as it. -/
theorem takes_readText : Takes readText RendersText := by
  intro b s rest h
  obtain ⟨⟨octets, more⟩, hread, htext⟩ := Option.bind_eq_some_iff.1 h
  obtain ⟨s', hdecode, heq⟩ := Option.bind_eq_some_iff.1 htext
  cases heq
  obtain ⟨taken, hb, hshort, rfl⟩ := takes_readBytes hread
  obtain rfl := Text.encode_of_decode? hdecode
  exact ⟨_, hb, hshort, rfl⟩

/-! ## Maps -/

section

variable {α : Type} {read : Reader α} {renders : α → Bytes → Prop}

/-- Entries that are read stood in front in a rendering, as many as were asked for. -/
theorem takes_readEntries (htakes : Takes read renders) {fuel count : Nat} {b rest : Bytes}
    {entries : List (String × α)} (h : readEntries read fuel count b = some (entries, rest)) :
    ∃ octets, b = octets ++ rest ∧ RendersEntries renders entries octets ∧
      entries.length = count := by
  induction count generalizing fuel b entries with
  | zero =>
    have hnone : readEntries read fuel 0 b = some ([], b) := by
      cases fuel <;> rfl
    rw [hnone] at h
    cases h
    exact ⟨[], rfl, .nil, rfl⟩
  | succ count ih =>
    cases fuel with
    | zero => cases h
    | succ fuel =>
      obtain ⟨⟨key, b₁⟩, hkey, h⟩ := Option.bind_eq_some_iff.1 h
      obtain ⟨⟨a, b₂⟩, hvalue, h⟩ := Option.bind_eq_some_iff.1 h
      obtain ⟨⟨others, b₃⟩, hothers, h⟩ := Option.bind_eq_some_iff.1 h
      cases h
      obtain ⟨text, hb, hshort, rfl⟩ := takes_readText hkey
      obtain ⟨octets, hb₁, hrenders⟩ := htakes hvalue
      obtain ⟨more, hb₂, hentries, hlength⟩ := ih hothers
      refine ⟨_, ?_, .cons hshort hrenders hentries, congrArg (· + 1) hlength⟩
      rw [hb, hb₁, hb₂, List.append_assoc, List.append_assoc]

/-- **A map is read** from its renderings only. -/
theorem takes_readDict (htakes : Takes read renders) :
    Takes (readDict read) (RendersDict renders) := by
  intro b d rest h
  obtain ⟨⟨count, b₁⟩, hcount, h⟩ := Option.bind_eq_some_iff.1 h
  obtain ⟨⟨entries, b₂⟩, hread, h⟩ := Option.bind_eq_some_iff.1 h
  cases h
  obtain ⟨hb, hlt⟩ := eq_of_readNumber hcount
  obtain ⟨more, hb₁, hentries, rfl⟩ := takes_readEntries htakes hread
  refine ⟨_, ?_, entries, more, hlt, hentries, rfl, rfl⟩
  rw [hb, hb₁, encodeLength, List.append_assoc]

/-- **The fuel is never what ends a reading**: with a unit for each octet, no number of entries is
cut short, however large it is. -/
theorem readEntries_eq_of_le (htakes : Takes read renders)
    (hread : ∀ {a octets}, renders a octets → Reads read octets a) {b : Bytes} {fuel fuel' : Nat}
    (h : b.length ≤ fuel) (h' : b.length ≤ fuel') (count : Nat) :
    readEntries read fuel count b = readEntries read fuel' count b := by
  have hmore {fuel fuel' : Nat} (h' : b.length ≤ fuel') (found : List (String × α) × Bytes)
      (hfound : readEntries read fuel count b = some found) :
      readEntries read fuel' count b = some found := by
    obtain ⟨octets, hb, hentries, rfl⟩ := takes_readEntries htakes hfound
    have hfuel : octets.length ≤ fuel' := by
      rw [hb, List.length_append] at h'
      omega
    rw [hb]
    exact reads_readEntries hread hentries hfuel found.2
  exact Option.ext fun found => ⟨hmore h' found, hmore h found⟩

end

/-! ## Exports -/

/-- Only a rendering of an export is read as it. -/
theorem Export.takes : Takes readExport Export.Renders := by
  intro b e rest h
  obtain ⟨⟨version, b₁⟩, hversion, h⟩ := Option.bind_eq_some_iff.1 h
  obtain ⟨⟨requests, b₂⟩, hrequests, h⟩ := Option.bind_eq_some_iff.1 h
  obtain ⟨⟨responses, b₃⟩, hresponses, h⟩ := Option.bind_eq_some_iff.1 h
  obtain ⟨⟨headers, b₄⟩, hheaders, h⟩ := Option.bind_eq_some_iff.1 h
  cases h
  obtain ⟨hb, hlt⟩ := eq_of_readNumber hversion
  obtain ⟨octets₁, hb₁, hrequests⟩ := takes_readDict takes_readBytes hrequests
  obtain ⟨octets₂, hb₂, hresponses⟩ := takes_readDict takes_readBytes hresponses
  obtain ⟨octets₃, hb₃, hheaders⟩ := takes_readDict (takes_readDict takes_readText) hheaders
  refine ⟨_, ?_, octets₁, octets₂, octets₃, hlt, hrequests, hresponses, hheaders, rfl⟩
  rw [hb, hb₁, hb₂, hb₃]
  simp only [List.append_assoc]

/-- **Octets are read as an export exactly if they start with it.** -/
theorem Export.decode?_eq_some_iff {b : Bytes} {e : Export} :
    decode? b = some e ↔ ∃ octets rest, b = octets ++ rest ∧ e.Renders octets := by
  constructor
  · intro h
    obtain ⟨⟨e', rest⟩, hread, rfl⟩ := Option.map_eq_some_iff.1 h
    obtain ⟨octets, hb, hrenders⟩ := Export.takes hread
    exact ⟨octets, rest, hb, hrenders⟩
  · rintro ⟨octets, rest, rfl, hrenders⟩
    rw [decode?, Export.reads hrenders rest]
    rfl

end EvalProxy.Cache
