/-
# The closest stored request

Among the stored requests the one that looks most like a given text. Entries that cannot be read are
passed over; of several that look equally alike the one with the smallest key is chosen. The time
for each comparison is limited.

Main definition: `closest`.
-/
import EvalProxy.Cache.Keys
import EvalProxy.Cache.Fingerprint
import EvalProxy.Diff.Unified
namespace EvalProxy.Cache

/-- A stored request, its key and how alike it is. -/
structure Candidate where
  key : String
  text : String
  score : Float

/-- A text in canonical form, indented; what is no JSON stays as it is. -/
def prettyOrRaw (text : String) : String :=
  match Json.parseText (Text.encode text) with
  | .ok v => canonicalPretty v
  | .error _ => text

/-- How alike a text and the stored request at a key look in the time for comparing them. -/
def likeness (s : Store) (incoming key text : String) : Float :=
  Diff.similarityWithin (s.faults.patience key) text incoming

/-- The stored request at a key as a candidate for a text, if it can be read. -/
def candidate? (s : Store) (incoming key : String) : Option Candidate :=
  match s.get .requests key with
  | .ok (some value) =>
    let text := Text.lossy value
    some ⟨key, text, likeness s incoming key text⟩
  | _ => none

/-- The better of two candidates: the first unless the second is more alike. -/
def better (best : Option Candidate) (c : Candidate) : Option Candidate :=
  match best with
  | some b => if b.score < c.score then some c else some b
  | none => some c

/-- The best of the candidates at some keys. -/
def best (s : Store) (incoming : String) (keys : List String) : Option Candidate :=
  (keys.filterMap (candidate? s incoming)).foldl better none

/-- The stored request most like a text, other than the one at the excluded key. -/
def closest (s : Store) (incoming excluded : String) : Except Failure (Option Similar) := do
  let keys ← s.keys .requests
  .ok ((best s incoming (keys.filter (· != excluded))).map fun c =>
    { fingerprint := c.key, request := c.text, score := c.score,
      diff := Diff.unified (prettyOrRaw c.text) (prettyOrRaw incoming) })

end EvalProxy.Cache
