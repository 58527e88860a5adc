/-
# Cache misses explained

What is told about a request that the cache was expected to hold and does not: the stored request
most like it, how alike the two are, and their differences.

Main definitions: `Similar`, `Diagnosis`, `Diagnosis.message`.
-/
import EvalProxy.Decimal.Layout
namespace EvalProxy.Cache

/-- A stored request that is like a missed one. -/
structure Similar where
  fingerprint : String
  request : String
  score : Float
  diff : String

/-- A missed request, and the stored one most like it. -/
structure Diagnosis where
  fingerprint : String
  request : String
  closest : Option Similar

/-- The wording of a diagnosis. -/
def Diagnosis.message (d : Diagnosis) : String :=
  s!"Cache miss in test mode for request {d.fingerprint}: " ++
    match d.closest with
    | none => "no similar cached requests found (no candidates available)"
    | some s =>
      s!"closest cached request {s.fingerprint} has similarity {Decimal.fixedPlaces 1 s.score}/100\n"
        ++ s.diff

end EvalProxy.Cache
