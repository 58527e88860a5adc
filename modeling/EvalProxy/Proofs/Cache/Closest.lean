/-
# The closest stored request is the closest

How alike two texts look is always a number, even if the comparison is given up, so that the scores
of the stored requests can be compared. Going through them in the order of their keys and keeping
the better one finds the first of those with the greatest score, whatever entries cannot be read. A
request that is missed in test mode is not compared with itself, even if it was saved just before.

Main definitions: `Readable`, `Shown`, `IsClosest`, `Finds`.
Main statements: `Diff.isNaN_similarityWithin`, `foldl_better_cases`, `finds_closest`,
`closest_is_first_greatest`.
-/
import EvalProxy.Proofs.Cache.Calls
import EvalProxy.Proofs.Cache.Listing
import EvalProxy.Proofs.Decimal.Order
import EvalProxy.Proofs.Decimal.Regular
import EvalProxy.Proofs.Dict
import EvalProxy.Proofs.Diff
namespace EvalProxy

/-! ## Scores are numbers -/

namespace Diff

open Decimal

theorem isNaN_widen {x : Float32} (h : x.isNaN = false) : (widen x).isNaN = false := by
  have hx : x.toModel.unpack.isNaN = false := h
  rw [widen]
  split
  · exact isNaN_unpack_pack .binary64 (isNaN_roundWithAccuracy ..)
  · exact isNaN_unpack_pack .binary64 hx

/-- A count above zero is neither zero nor infinite in single precision. -/
theorem isRegular_toSingle {n : Nat} (h : n ≠ 0) :
    isRegular (toSingle n).toModel.unpack = true := by
  refine isRegular_toFloat32 fun hzero => h ?_
  rw [UInt64.ofNatClamp] at hzero
  split at hzero
  · exact congrArg UInt64.toNat hzero
  · cases hzero

/-- A count rounded to single precision is a number. -/
theorem isNaN_toSingle (n : Nat) : (toSingle n).isNaN = false := by
  rcases eq_or_ne n 0 with rfl | h
  · rfl
  · exact isNaN_of_isRegular (isRegular_toSingle h)

/-- **How alike two texts look is a number**, however soon the comparison is given up. -/
theorem isNaN_similarityWithin (patience : Option Nat) (a b : String) :
    (similarityWithin patience a b).isNaN = false := by
  rw [similarityWithin]
  split
  · rfl
  · rename_i hsome
    have hall : a.toList.toArray.size + b.toList.toArray.size ≠ 0 := by
      intro hzero
      obtain ⟨rfl, rfl⟩ : a = "" ∧ b = "" := by simpa using hzero
      exact hsome rfl
    have htwice : isRegular (2.0 : Float32).toModel.unpack = true := rfl
    have hhundred : isRegular (100.0 : Float).toModel.unpack = true := rfl
    have hkept := isNaN_toSingle (keptLength (compare patience a.toList.toArray b.toList.toArray))
    have hdoubled := isNaN_unpack_pack .binary32
      (isNaN_mul .binary32 (isNaN_of_isRegular htwice) hkept (.inl htwice))
    have hratio := isNaN_unpack_pack .binary32
      (isNaN_div .binary32 hdoubled (isRegular_toSingle hall))
    exact isNaN_unpack_pack .binary64
      (isNaN_mul .binary64 (isNaN_widen hratio) (isNaN_of_isRegular hhundred) (.inr hhundred))

end Diff

namespace Cache

open Decimal (place lt_iff_place_lt le_iff_place_le)

/-! ## Keeping the better one -/

/-- What is better than all before it, and not worse than any behind it, is not worse than any. -/
theorem score_le_best {pre post : List Candidate} {b c : Candidate}
    (hnumber : ∀ x ∈ pre ++ b :: post, x.score.isNaN = false)
    (hpre : ∀ x ∈ pre, x.score < b.score) (hpost : ∀ x ∈ post, x.score ≤ b.score)
    (hc : c ∈ pre ++ b :: post) : c.score ≤ b.score := by
  have hb := hnumber b (by simp)
  have hc' := hnumber c hc
  rcases List.mem_append.1 hc with hc | hc
  · exact (le_iff_place_le hc' hb).2 ((lt_iff_place_lt hc' hb).1 (hpre c hc)).le
  rcases List.mem_cons.1 hc with rfl | hc
  · exact (le_iff_place_le hc' hb).2 le_rfl
  · exact hpost c hc

/-- What has a smaller key than the best stands before it. -/
theorem score_lt_best {pre post : List Candidate} {b c : Candidate}
    (hsorted : (pre ++ b :: post).Pairwise (·.key < ·.key))
    (hpre : ∀ x ∈ pre, x.score < b.score) (hc : c ∈ pre ++ b :: post) (hkey : c.key < b.key) :
    c.score < b.score := by
  obtain ⟨-, hbehind, -⟩ := List.pairwise_append.1 hsorted
  rcases List.mem_append.1 hc with hc | hc
  · exact hpre c hc
  exfalso
  rcases List.mem_cons.1 hc with rfl | hc
  · exact String.lt_irrefl _ hkey
  · exact String.lt_irrefl _ (String.lt_trans hkey ((List.pairwise_cons.1 hbehind).1 c hc))

/-- **The best of some candidates** is better than those before it, and those behind it are not
better. -/
theorem foldl_better_cases {cs : List Candidate} (hnumber : ∀ c ∈ cs, c.score.isNaN = false) :
    (cs = [] ∧ cs.foldl better none = none) ∨
    ∃ pre b post, cs = pre ++ b :: post ∧ cs.foldl better none = some b ∧
      (∀ c ∈ pre, c.score < b.score) ∧ ∀ c ∈ post, c.score ≤ b.score := by
  induction cs using List.reverseRecOn with
  | nil => exact .inl ⟨rfl, rfl⟩
  | append_singleton cs c ih =>
    right
    have hc := hnumber c (by simp)
    have hcs : ∀ x ∈ cs, x.score.isNaN = false := fun x hx => hnumber x (by simp [hx])
    rw [List.foldl_concat]
    obtain ⟨rfl, hbest⟩ | ⟨pre, b, post, rfl, hbest, hpre, hpost⟩ := ih hcs
    · exact ⟨[], c, [], rfl, rfl, by simp, by simp⟩
    have hb := hcs b (by simp)
    rw [hbest, better]
    by_cases hlt : b.score < c.score
    · rw [if_pos hlt]
      refine ⟨pre ++ b :: post, c, [], rfl, rfl, ?_, by simp⟩
      intro x hx
      have hx' := hcs x hx
      have hle := (le_iff_place_le hx' hb).1 (score_le_best hcs hpre hpost hx)
      rw [lt_iff_place_lt hx' hc]
      exact hle.trans_lt ((lt_iff_place_lt hb hc).1 hlt)
    · rw [if_neg hlt]
      refine ⟨pre, b, post ++ [c], by simp, rfl, hpre, ?_⟩
      intro x hx
      rcases List.mem_append.1 hx with hx | hx
      · exact hpost x hx
      · rw [List.mem_singleton.1 hx, le_iff_place_le hc hb]
        exact not_lt.1 fun h => hlt ((lt_iff_place_lt hb hc).2 h)

theorem mem_of_foldl_better {cs : List Candidate} {b : Candidate}
    (h : cs.foldl better none = some b) : b ∈ cs := by
  induction cs using List.reverseRecOn generalizing b with
  | nil => cases h
  | append_singleton cs c ih =>
    rw [List.foldl_concat] at h
    cases hbest : cs.foldl better none with
    | none =>
      rw [hbest] at h
      obtain rfl : c = b := Option.some.inj h
      simp
    | some b' =>
      rw [hbest, better] at h
      split at h
      · obtain rfl : c = b := Option.some.inj h
        simp
      · obtain rfl : b' = b := Option.some.inj h
        simp [ih hbest]

/-! ## Candidates -/

/-- A stored request can be read, and this is its text. -/
def Readable (s : Store) (key text : String) : Prop :=
  ∃ value, s.get .requests key = .ok (some value) ∧ text = Text.lossy value

/-- A readable request is among the keys of its table. -/
theorem Readable.mem_keys {s : Store} {key text : String} (h : Readable s key text) :
    key ∈ (s.table .requests).keys := by
  obtain ⟨value, hget, -⟩ := h
  rw [Store.get] at hget
  split at hget
  · cases hget
  · rw [Dict.mem_keys_iff]
    split at hget
    · rename_i hfound
      rw [hfound]
      rfl
    · cases hget
    · cases hget

/-- A key gives a candidate if its request can be read, with that text and its likeness. -/
theorem candidate?_eq_some_iff (s : Store) (incoming key : String) (c : Candidate) :
    candidate? s incoming key = some c ↔
      Readable s key c.text ∧ c.key = key ∧ c.score = likeness s incoming key c.text := by
  obtain ⟨key', text, score⟩ := c
  rw [candidate?]
  split
  · rename_i value hget
    simp only [Option.some_inj, Candidate.mk.injEq, Readable, hget, Except.ok.injEq]
    constructor
    · rintro ⟨rfl, rfl, rfl⟩
      exact ⟨⟨value, rfl, rfl⟩, rfl, rfl⟩
    · rintro ⟨⟨_, rfl, rfl⟩, rfl, rfl⟩
      exact ⟨rfl, rfl, rfl⟩
  · rename_i hnone
    constructor
    · nofun
    · rintro ⟨⟨value, hget, -⟩, -⟩
      exact absurd hget (hnone value)

/-- The candidates in the order of their keys. -/
def candidates (s : Store) (incoming excluded : String) : List Candidate :=
  ((s.table .requests).keys.filter (· != excluded)).filterMap (candidate? s incoming)

/-- The candidates are the readable requests under other keys, each with its likeness. -/
theorem mem_candidates_iff (s : Store) (incoming excluded : String) (c : Candidate) :
    c ∈ candidates s incoming excluded ↔
      Readable s c.key c.text ∧ c.key ≠ excluded ∧
        c.score = likeness s incoming c.key c.text := by
  simp only [candidates, List.mem_filterMap, List.mem_filter, bne_iff_ne,
    candidate?_eq_some_iff]
  constructor
  · rintro ⟨key, ⟨-, hother⟩, hread, rfl, hscore⟩
    exact ⟨hread, hother, hscore⟩
  · rintro ⟨hread, hother, hscore⟩
    exact ⟨c.key, ⟨hread.mem_keys, hother⟩, hread, rfl, hscore⟩

/-- Candidates come in the order of their keys. -/
theorem pairwise_candidates (s : Store) (incoming excluded : String) :
    (candidates s incoming excluded).Pairwise (·.key < ·.key) := by
  refine List.Pairwise.filterMap _ ?_ ((Store.pairwise_keys (s.table .requests)).filter _)
  intro key key' hlt c hc c' hc'
  obtain ⟨-, rfl, -⟩ := (candidate?_eq_some_iff ..).1 hc
  obtain ⟨-, rfl, -⟩ := (candidate?_eq_some_iff ..).1 hc'
  exact hlt

/-! ## The closest request -/

/-- What is shown of a text: its canonical form, indented, if it is JSON, and the text itself
otherwise. -/
inductive Shown (text : String) : String → Prop where
  | json {v : Json} (h : Json.parseText (Text.encode text) = .ok v) : Shown text (canonicalPretty v)
  | other {e : String} (h : Json.parseText (Text.encode text) = .error e) : Shown text text

/-- What is shown of a text is its indented form, or the text itself where it is no JSON. -/
theorem shown_prettyOrRaw (text : String) : Shown text (prettyOrRaw text) := by
  rw [prettyOrRaw]
  split
  · rename_i v h
    exact .json h
  · rename_i e h
    exact .other h

/-- **What a comparison has time for** decides how alike a stored request looks; with enough
patience it looks as alike as it is. -/
theorem exists_patience_likeness (incoming text : String) :
    ∃ cost, ∀ (s : Store) (key : String), (∀ n, s.faults.patience key = some n → cost ≤ n) →
      likeness s incoming key text = Diff.similarity text incoming := by
  obtain ⟨cost, hcost⟩ := Diff.exists_patience text incoming
  refine ⟨cost, fun s key hpatience => ?_⟩
  rw [likeness]
  cases h : s.faults.patience key with
  | none => rfl
  | some n => exact hcost n (hpatience n h)

/-- A stored request under another key than the excluded one is the first of those that look most
like a text, and it is told with its text, its score and its differences from the text. -/
structure IsClosest (s : Store) (incoming excluded : String) (found : Similar) : Prop where
  other : found.fingerprint ≠ excluded
  stored : Readable s found.fingerprint found.request
  score : found.score = likeness s incoming found.fingerprint found.request
  greatest : ∀ key text, Readable s key text → key ≠ excluded →
    likeness s incoming key text ≤ found.score
  first : ∀ key text, Readable s key text → key ≠ excluded → key < found.fingerprint →
    likeness s incoming key text < found.score
  differences : ∃ old new, Shown found.request old ∧ Shown incoming new ∧
    found.diff = Diff.unified old new

/-- What was found is the closest request; nothing was found only if there is none to compare. -/
structure Finds (s : Store) (incoming excluded : String) (found? : Option Similar) : Prop where
  none_iff : found? = none ↔ ∀ key text, Readable s key text → key = excluded
  isClosest : ∀ found ∈ found?, IsClosest s incoming excluded found

/-- How a candidate is told. -/
def Candidate.told (incoming : String) (c : Candidate) : Similar :=
  { fingerprint := c.key, request := c.text, score := c.score,
    diff := Diff.unified (prettyOrRaw c.text) (prettyOrRaw incoming) }

/-- Over a store that lists, the closest request is the best of the candidates. -/
theorem closest_eq {s : Store} (h : s.Lists) (incoming excluded : String) :
    closest s incoming excluded
      = .ok (((candidates s incoming excluded).foldl better none).map (·.told incoming)) := by
  rw [closest, Store.keys_eq h]
  rfl

/-- A readable request under another key is a candidate. -/
theorem mem_candidates {s : Store} (incoming : String) {excluded key text : String}
    (hread : Readable s key text) (hother : key ≠ excluded) :
    ⟨key, text, likeness s incoming key text⟩ ∈ candidates s incoming excluded :=
  (mem_candidates_iff ..).2 ⟨hread, hother, rfl⟩

/-- No candidate has a score that is not a number. -/
theorem isNaN_candidates (s : Store) (incoming excluded : String) :
    ∀ c ∈ candidates s incoming excluded, c.score.isNaN = false := by
  intro c hc
  rw [((mem_candidates_iff ..).1 hc).2.2]
  exact Diff.isNaN_similarityWithin ..

/-- The best of the candidates is the closest request. -/
theorem isClosest_of_split {s : Store} {incoming excluded : String} {pre post : List Candidate}
    {b : Candidate} (hsplit : candidates s incoming excluded = pre ++ b :: post)
    (hpre : ∀ c ∈ pre, c.score < b.score) (hpost : ∀ c ∈ post, c.score ≤ b.score) :
    IsClosest s incoming excluded (b.told incoming) := by
  obtain ⟨hread, hother, hscore⟩ := (mem_candidates_iff s incoming excluded b).1 (by simp [hsplit])
  have hnumber := isNaN_candidates s incoming excluded
  have hsorted := pairwise_candidates s incoming excluded
  rw [hsplit] at hnumber hsorted
  have hmem {key text : String} (hread : Readable s key text) (hother : key ≠ excluded) :=
    hsplit ▸ mem_candidates incoming hread hother
  refine ⟨hother, hread, hscore, ?_, ?_, prettyOrRaw b.text, prettyOrRaw incoming,
    shown_prettyOrRaw b.text, shown_prettyOrRaw incoming, by rw [Candidate.told]⟩
  · intro key text hread hother
    have hle := score_le_best hnumber hpre hpost (hmem hread hother)
    exact hle
  · intro key text hread hother hkey
    have hlt := score_lt_best hsorted hpre (hmem hread hother) hkey
    exact hlt

/-- **Looking for the closest request** finds it, in any store whose keys can be listed. -/
theorem finds_closest {s : Store} (h : s.Lists) (incoming excluded : String) :
    ∃ found?, closest s incoming excluded = .ok found? ∧ Finds s incoming excluded found? := by
  rw [closest_eq h]
  refine ⟨_, rfl, ?_⟩
  obtain ⟨hnil, hbest⟩ | ⟨pre, b, post, hsplit, hbest, hpre, hpost⟩ :=
    foldl_better_cases (isNaN_candidates s incoming excluded)
  · rw [hbest]
    refine ⟨⟨fun _ key text hread => ?_, fun _ => rfl⟩, nofun⟩
    by_contra hother
    have hmem := mem_candidates incoming hread hother
    rw [hnil] at hmem
    cases hmem
  · have hclosest := isClosest_of_split hsplit hpre hpost
    rw [hbest]
    refine ⟨⟨nofun, fun hnone => absurd (hnone _ _ hclosest.stored) hclosest.other⟩, ?_⟩
    rintro _ ⟨⟩
    exact hclosest

/-- What is found has another key than the excluded one, whether or not all keys can be listed. -/
theorem fingerprint_ne_of_closest {s : Store} {incoming excluded : String} {found : Similar}
    (h : closest s incoming excluded = .ok (some found)) : found.fingerprint ≠ excluded := by
  rw [closest] at h
  cases hkeys : s.keys .requests with
  | error e =>
    rw [hkeys] at h
    cases h
  | ok keys =>
    rw [hkeys] at h
    obtain ⟨b, hb, rfl⟩ := Option.map_eq_some_iff.1 (Except.ok.inj h)
    obtain ⟨key, hkey, hb⟩ := List.mem_filterMap.1 (mem_of_foldl_better hb)
    obtain ⟨-, rfl, -⟩ := (candidate?_eq_some_iff ..).1 hb
    exact bne_iff_ne.1 (List.mem_filter.1 hkey).2

/-- A diagnosis is about the request that was missed, and compares it with others only. -/
theorem diagnosis_of_cacheMiss {c c' : Cache} {r : Request} {d : Diagnosis}
    (h : c.onRequest r = (.error (.cacheMiss d), c')) :
    c'.store = (c.noted r).store ∧
      d = diagnose (c.noted r).store (fingerprint r.body) (canonicalText r.body) := by
  obtain ⟨-, heq⟩ | ⟨-, reply, -, heq⟩ | ⟨hreuse, hmiss, htest, -⟩ | ⟨-, -, -, heq⟩ :=
    c.onRequest_cases r
  · rw [h] at heq
    cases heq
  · rw [h] at heq
    cases heq
  · rw [Cache.onRequest_of_misses hreuse hmiss, if_pos htest] at h
    cases h
    exact ⟨rfl, rfl⟩
  · rw [h] at heq
    cases heq

/-- **The closest request is the first of those that look most like the text.** In any store whose
keys can be listed, whichever entries cannot be read and however soon each comparison is given up,
nothing is found exactly if no request that can be read has another key than the excluded one, and
otherwise the first of those with the greatest score. A request that is missed in test mode is never
compared with itself, even if it was saved first. A comparison that is not given up scores how alike
the two texts are. -/
theorem closest_is_first_greatest :
    (∀ (s : Store) (incoming excluded : String), s.Lists →
      ∃ found?, closest s incoming excluded = .ok found? ∧ Finds s incoming excluded found?) ∧
    (∀ (c c' : Cache) (r : Request) (d : Diagnosis), c.onRequest r = (.error (.cacheMiss d), c') →
      d.fingerprint = fingerprint r.body ∧ d.request = canonicalText r.body ∧
      (∀ found ∈ d.closest, found.fingerprint ≠ d.fingerprint) ∧
      (c'.store.Lists → Finds c'.store d.request d.fingerprint d.closest)) ∧
    ∀ incoming text : String, ∃ cost, ∀ (s : Store) (key : String),
      (∀ n, s.faults.patience key = some n → cost ≤ n) →
        likeness s incoming key text = Diff.similarity text incoming := by
  refine ⟨fun s incoming excluded h => finds_closest h incoming excluded, ?_,
    exists_patience_likeness⟩
  intro c c' r d hmissed
  obtain ⟨hstore, rfl⟩ := diagnosis_of_cacheMiss hmissed
  refine ⟨rfl, rfl, ?_, fun h => ?_⟩
  · intro found hfound
    rw [diagnose] at hfound
    dsimp only at hfound
    split at hfound
    · rename_i found? hclosest
      exact fingerprint_ne_of_closest (hclosest.trans (congrArg Except.ok hfound))
    · cases hfound
  · obtain ⟨found?, hclosest, hfinds⟩ := finds_closest h (canonicalText r.body)
      (fingerprint r.body)
    rw [hstore] at hclosest hfinds ⊢
    rw [diagnose, hclosest]
    exact hfinds

/-- Of two stored requests with one text, behind a damaged one, the first is told. -/
theorem closest_is_first_greatest_twins :
    let stored (text : String) : Cell := .sound (Text.encode text)
    let cells : Dict Cell := .ofList
      [("a", .damaged), ("b", stored "twin"), ("c", stored "twin"), ("self", stored "asked")]
    let s : Store := { Store.empty with requests := cells }
    s.Lists ∧ ∃ found, closest s "asked" "self" = .ok (some found) ∧ found.fingerprint = "b" := by
  intro stored cells s
  have hlists : s.Lists := ⟨rfl, fun _ => rfl⟩
  have hworks : s.Works := ⟨rfl, fun _ _ => rfl, fun _ _ => rfl⟩
  have hcell (key : String) : (s.table .requests).get? key =
      if "self" = key then some (stored "asked") else if "c" = key then some (stored "twin")
      else if "b" = key then some (stored "twin") else if "a" = key then some .damaged
      else none := by
    simp only [s, cells, Store.table, Dict.ofList, List.foldl_cons, List.foldl_nil,
      Dict.get?_insert, Dict.get?_empty]
  have hget : s.get .requests "b" = .ok (some (Text.encode "twin")) := by
    rw [Store.get_of_works hworks, hcell]
    rfl
  have htext : "twin" = Text.lossy (Text.encode "twin") := by decide +kernel
  have hb : Readable s "b" "twin" := ⟨_, hget, htext⟩
  obtain ⟨found?, hclosest, hfinds⟩ := closest_is_first_greatest.1 s "asked" "self" hlists
  refine ⟨hlists, ?_⟩
  cases found? with
  | none => exact absurd (hfinds.none_iff.1 rfl "b" "twin" hb) (by decide)
  | some found =>
    refine ⟨found, hclosest, ?_⟩
    obtain ⟨hother, ⟨value, hvalue, hrequest⟩, hscore, -, hfirst, -⟩ := hfinds.isClosest found rfl
    rw [Store.get_of_works hworks, hcell] at hvalue
    split_ifs at hvalue with hself hc hb'
    · exact absurd hself.symm hother
    -- the second of the twins is not better than the first
    · obtain rfl := Option.some.inj (Except.ok.inj hvalue)
      have hless := hfirst "b" "twin" hb (by decide) (hc ▸ by decide)
      rw [hscore, hrequest, ← htext] at hless
      have hnumber := Diff.isNaN_similarityWithin none "twin" "asked"
      exact absurd ((lt_iff_place_lt hnumber hnumber).1 hless) (lt_irrefl _)
    · exact hb'.symm
    · cases hvalue

end Cache

end EvalProxy
