/-
# The size of what is reported

The token counts of a response are counts of 64 bits, whether the response reports them or they are
added up.

Main statement: `Usage.fits_of_ofBody?`.
-/
import EvalProxy.Proofs.Json.Fields
import EvalProxy.Usage
namespace EvalProxy

open Json (maxU64)

namespace Usage

theorem cappedAdd_le (a b : Nat) : cappedAdd a b ≤ maxU64 := Nat.min_le_right _ _

/-- The token counts of a response fit into 64 bits. -/
structure Fits (u : Usage) : Prop where
  prompt : u.promptTokens ≤ maxU64
  completion : u.completionTokens ≤ maxU64
  total : u.totalTokens ≤ maxU64

/-- The fields of reported usage. -/
def usageFields : List Json.Field :=
  [Json.nullable "prompt_tokens" .u64, Json.nullable "completion_tokens" .u64,
   Json.nullable "total_tokens" .u64]

/-- A count that was read of reported usage. -/
theorem le_of_asNat?_field {name : String} {closed : Bool} {v : Json}
    (h : Json.ReadAs (.record name closed usageFields) v) {key : String} {n : Nat}
    (hn : Json.asNat? (Json.field v key) = some n) : n ≤ maxU64 := by
  rcases Json.obtained_field h key with hnull | ⟨f, hf, -, hobtained⟩
  · rw [hnull] at hn
    cases hn
  dsimp only at hobtained
  -- each of the fields is a count without a default
  have hfield : f.fallback = none ∧ f.shape = .u64 := by
    simp only [usageFields, List.mem_cons, List.not_mem_nil, or_false] at hf
    rcases hf with rfl | rfl | rfl <;> exact ⟨rfl, rfl⟩
  obtain ⟨hfallback, hshape⟩ := hfield
  rcases hobtained with hnull | hdefault | hread
  · rw [hnull] at hn
    cases hn
  · rw [hfallback] at hdefault
    cases hdefault
  · rw [hshape] at hread
    obtain ⟨k, hk, hv⟩ := Json.exists_nat_of_readAs hread
    rw [hv] at hn
    exact Option.some.inj hn ▸ hk

/-- The usage of a completion was read as a record of counts, if it is there. -/
theorem readAs_usage {v : Json} (h : Json.ReadAs shape v)
    (hsome : (Json.field v "usage").isNull = false) :
    Json.ReadAs (.record "WireUsage" false usageFields) (Json.field v "usage") := by
  rcases Json.obtained_field h "usage" with hnull | ⟨f, hf, hkey, hobtained⟩
  · rw [hnull] at hsome
    cases hsome
  dsimp only at hkey hobtained
  have hfield : f.fallback = none ∧ f.shape = .record "WireUsage" false usageFields := by
    simp only [List.mem_cons, List.not_mem_nil, or_false] at hf
    rcases hf with rfl | rfl
    · exact absurd (show "choices" = "usage" from hkey) (by decide)
    · exact ⟨rfl, rfl⟩
  obtain ⟨hfallback, hshape⟩ := hfield
  rcases hobtained with hnull | hdefault | hread
  · rw [hnull] at hsome
    cases hsome
  · rw [hfallback] at hdefault
    cases hdefault
  · rwa [hshape] at hread

/-- **What a response reports fits** into 64 bits. -/
theorem fits_of_ofBody? {body : Bytes} {u : Usage} (h : ofBody? body = some u) : u.Fits := by
  obtain ⟨v, hv, h⟩ := Option.bind_eq_some_iff.1 h
  have hread : Json.ReadAs shape v := by
    cases hparse : shape.parseText body with
    | error e =>
      rw [hparse] at hv
      cases hv
    | ok w =>
      rw [hparse] at hv
      obtain rfl := Option.some.inj hv
      exact Json.readAs_of_parseText hparse
  rw [ofCompletion?] at h
  dsimp only at h
  split at h
  · cases h
  rename_i hsome
  rw [Bool.not_eq_true] at hsome
  obtain rfl := Option.some.inj h
  have hle (key : String) : ∀ n ∈ Json.asNat? (Json.field (Json.field v "usage") key), n ≤ maxU64 :=
    fun n hn => le_of_asNat?_field (readAs_usage hread hsome) hn
  have hgetD {x : Option Nat} (hx : ∀ n ∈ x, n ≤ maxU64) {d : Nat} (hd : d ≤ maxU64) :
      x.getD d ≤ maxU64 := by
    cases x with
    | none => exact hd
    | some n => exact hx n rfl
  exact ⟨hgetD (hle _) (Nat.zero_le _), hgetD (hle _) (Nat.zero_le _),
    hgetD (hle _) (cappedAdd_le _ _)⟩

end Usage

end EvalProxy
