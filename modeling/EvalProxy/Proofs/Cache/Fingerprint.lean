/-
# What a fingerprint identifies

The canonical text of a request is the same for two bodies exactly if they are equal up to the order
of object members. So their fingerprints are the same exactly if they are equal in that sense, or
if the canonical texts are a collision of the digest.

Main statement: `fingerprint_eq_iff`.
-/
import EvalProxy.Cache.Fingerprint
import EvalProxy.Proofs.Json.UniqueReading
namespace EvalProxy

/-! ## Hexadecimal writing -/

namespace Text

theorem hexDigit_inj : ∀ m < 16, ∀ n < 16, hexDigit m = hexDigit n → m = n := by
  decide

theorem hexOctet_inj {a b : UInt8} (h : hexOctet a = hexOctet b) : a = b := by
  have ha := a.toNat_lt
  have hb := b.toNat_lt
  obtain ⟨hhigh, hlow⟩ := List.cons.inj h
  have hhigh := hexDigit_inj _ (by omega) _ (by omega) hhigh
  have hlow := hexDigit_inj _ (by omega) _ (by omega) (List.cons.inj hlow).1
  exact UInt8.toNat_inj.1 (by omega)

/-- Different octets are shown as different hexadecimal texts. -/
theorem flatMap_hexOctet_inj {as bs : Bytes} (h : as.flatMap hexOctet = bs.flatMap hexOctet) :
    as = bs := by
  induction as generalizing bs with
  | nil =>
    cases bs with
    | nil => rfl
    | cons b bs => cases h
  | cons a as ih =>
    cases bs with
    | nil => cases h
    | cons b bs =>
      rw [List.flatMap_cons, List.flatMap_cons] at h
      -- every octet takes two digits
      obtain ⟨hhead, htail⟩ := List.append_inj h rfl
      rw [hexOctet_inj hhead, ih htail]

/-- Different octets are written differently. -/
theorem hex_inj {as bs : Bytes} (h : hex as = hex bs) : as = bs :=
  flatMap_hexOctet_inj (String.ofList_injective h)

end Text

namespace Digest

/-- A collision: two messages with the same digest. -/
def Collision (a b : Bytes) : Prop := a ≠ b ∧ sha256 a = sha256 b

/-- Two hexadecimal digests are equal for equal octets and for collisions only. -/
theorem sha256Hex_eq_iff (a b : Bytes) : sha256Hex a = sha256Hex b ↔ a = b ∨ Collision a b := by
  constructor
  · intro h
    by_cases heq : a = b
    · exact .inl heq
    · exact .inr ⟨heq, Text.hex_inj h⟩
  · rintro (rfl | ⟨-, hdigest⟩)
    · rfl
    · rw [sha256Hex, hdigest, sha256Hex]

end Digest

namespace Cache

/-! ## Requests -/

/-- The canonical text of a body is read in one way only, as its canonical form. -/
theorem canonicalText_eq_iff {u v : Json} (hu : u.Proper) (hv : v.Proper) :
    canonicalText u = canonicalText v ↔ u.canonical = v.canonical := by
  constructor
  · exact Json.compact_inj hu.canonical hv.canonical
  · intro h
    rw [canonicalText, h, canonicalText]

/-- **The canonical text identifies the request**: it is the same for two bodies exactly if they are
equal up to the order of object members at every depth, and so is the fingerprint, up to a collision
of the digest. Whole numbers and floats are distinct, and so are two floats with different bits: the
zero with a minus sign is not the other one. -/
theorem fingerprint_eq_iff {u v : Json} (hu : u.Proper) (hv : v.Proper) :
    (canonicalText u = canonicalText v ↔ u.Same v) ∧
      (fingerprint u = fingerprint v ↔ u.Same v ∨
        Digest.Collision (Text.encode (canonicalText u)) (Text.encode (canonicalText v))) := by
  have htext : canonicalText u = canonicalText v ↔ u.Same v :=
    (canonicalText_eq_iff hu hv).trans (Json.canonical_eq_iff hu hv)
  have hencode : Text.encode (canonicalText u) = Text.encode (canonicalText v) ↔ u.Same v :=
    Iff.trans ⟨Text.encode_injective, congrArg Text.encode⟩ htext
  refine ⟨htext, ?_⟩
  rw [fingerprint, fingerprint, Digest.sha256Hex_eq_iff, hencode]

/-- A body with its members in another order has the same fingerprint; a float in place of a whole
number gives another canonical text. -/
theorem fingerprint_swapped :
    fingerprint (.object [("n", .int 1), ("m", .array [.float 0.5, .text "x"])])
        = fingerprint (.object [("m", .array [.float 0.5, .text "x"]), ("n", .int 1)]) ∧
      canonicalText (.int 1) ≠ canonicalText (.float 1) := by
  have hitems : (Json.array [.float 0.5, .text "x"]).Proper := by
    refine .array ?_
    simp only [List.forall_mem_cons]
    exact ⟨.float rfl, .text _, nofun⟩
  have hbody {k l : String} {v w : Json} (hkeys : k ≠ l) (hv : v.Proper) (hw : w.Proper) :
      (Json.object [(k, v), (l, w)]).Proper := by
    refine .object (by simpa using hkeys) ?_
    simp only [List.forall_mem_cons]
    exact ⟨hv, hw, nofun⟩
  have hsame : (Json.array [.float 0.5, .text "x"]).Same (.array [.float 0.5, .text "x"]) :=
    .array (.cons (.float _) (.cons (.text _) .nil))
  constructor
  · refine (fingerprint_eq_iff (hbody (by decide) (.int 1) hitems)
      (hbody (by decide) hitems (.int 1))).2.2 (.inl ?_)
    exact .object (.swap _ _ _) rfl (.cons hsame (.cons (.int 1) .nil))
  · intro heq
    cases (fingerprint_eq_iff (.int 1) (.float rfl)).1.1 heq

end Cache

end EvalProxy
