/-
# The cache store

Three tables of entries under text keys: requests, responses and response headers. Reading and
writing may fail: an entry may be damaged, the faults of the store say which operations fail, and
on a store that lost its tables every operation fails until it is opened again.

Main statement: `get_put` (what a key answers after a write).
-/
import EvalProxy.Failure
import EvalProxy.Json.Typed
namespace EvalProxy.Cache

/-! ## Tables -/

/-- The tables of a store. -/
inductive Table where
  | requests
  | responses
  | headers
  deriving DecidableEq

/-- The value of an entry, unless it is damaged. -/
inductive Cell where
  | sound (value : Bytes)
  | damaged

/-- Which operations fail: reads and writes by table and key, and listing the keys of a table; and
how much patience there is for comparing a text with the request at a key. -/
structure Faults where
  reads : Table → String → Bool
  writes : Table → String → Bool
  scans : Table → Bool
  patience : String → Option Nat

/-- No operation fails, and every comparison has all the time it takes. -/
def Faults.none : Faults :=
  ⟨fun _ _ => false, fun _ _ => false, fun _ => false, fun _ => Option.none⟩

/-- The entries of three tables. -/
structure Store where
  requests : Dict Cell
  responses : Dict Cell
  headers : Dict Cell
  faults : Faults
  lost : Bool

namespace Store

/-- A store without entries in which everything works. -/
def empty : Store := ⟨.empty, .empty, .empty, .none, false⟩

instance : Inhabited Store := ⟨empty⟩

/-- The store as it is when it is opened: one that lost its tables starts anew. -/
def opened (s : Store) : Store := if s.lost then empty else s

/-- The entries of a table. -/
def table (s : Store) : Table → Dict Cell
  | .requests => s.requests
  | .responses => s.responses
  | .headers => s.headers

/-- The store with other entries in a table. -/
def withTable (s : Store) (t : Table) (entries : Dict Cell) : Store :=
  match t with
  | .requests => { s with requests := entries }
  | .responses => { s with responses := entries }
  | .headers => { s with headers := entries }

@[simp] theorem table_withTable (s : Store) (t u : Table) (entries : Dict Cell) :
    (s.withTable t entries).table u = if t = u then entries else s.table u := by
  cases t <;> cases u <;> rfl

@[simp] theorem faults_withTable (s : Store) (t : Table) (entries : Dict Cell) :
    (s.withTable t entries).faults = s.faults := by
  cases t <;> rfl

@[simp] theorem lost_withTable (s : Store) (t : Table) (entries : Dict Cell) :
    (s.withTable t entries).lost = s.lost := by
  cases t <;> rfl

/-! ## Operations -/

/-- The failure of an operation on a store. -/
def broken : Failure := .database "no such table: entries"

/-- The value at a key. -/
def get (s : Store) (t : Table) (key : String) : Except Failure (Option Bytes) :=
  if s.lost || s.faults.reads t key then .error broken
  else
    match (s.table t).get? key with
    | some (.sound value) => .ok (some value)
    | some .damaged => .error broken
    | none => .ok none

/-- The store with a value at a key. -/
def put (s : Store) (t : Table) (key : String) (value : Bytes) : Except Failure Store :=
  if s.lost || s.faults.writes t key then .error broken
  else .ok (s.withTable t ((s.table t).insert key (.sound value)))

/-- Whether a key has an entry. -/
def contains (s : Store) (t : Table) (key : String) : Except Failure Bool :=
  if s.lost || s.faults.reads t key then .error broken else .ok ((s.table t).contains key)

/-- The number of entries. -/
def size (s : Store) (t : Table) : Except Failure Nat :=
  if s.lost || s.faults.scans t then .error broken else .ok (s.table t).size

/-- Whether a table has no entries. -/
def isEmpty (s : Store) (t : Table) : Except Failure Bool := (s.size t).map (· == 0)

/-- What a key answers after a write that did not fail. -/
theorem get_put {s s' : Store} {t : Table} {key : String} {value : Bytes}
    (h : s.put t key value = .ok s') (u : Table) (key' : String) :
    s'.get u key' =
      if s.faults.reads u key' then .error broken
      else if t = u ∧ key = key' then .ok (some value) else s.get u key' := by
  unfold put at h
  split at h
  · simp at h
  · rename_i hw
    obtain rfl := Except.ok.inj h
    have hl : s.lost = false := by
      cases hs : s.lost <;> simp_all
    by_cases hr : s.faults.reads u key' = true
    · simp [get, hr]
    · by_cases htu : t = u
      · subst htu
        by_cases hk : key = key'
        · simp [get, hl, hr, hk, Dict.get?_insert]
        · simp [get, hl, hr, hk, Dict.get?_insert]
      · simp [get, hl, hr, htu]

/-! ## Headers -/

/-- The shape of a stored header map. -/
def headersShape : Json.Shape := .dict .text

/-- A header map as JSON. -/
def headersJson (map : Dict String) : Json :=
  .object (map.entries.map fun e => (e.1, .text e.2))

/-- The header map that an object holds. -/
def headersOf (v : Json) : Dict String :=
  Dict.ofList ((Json.asMembers v).map fun m => (m.1, Json.asText m.2))

/-- The store with a header map at a key. -/
def putHeaderMap (s : Store) (key : String) (map : Dict String) : Except Failure Store :=
  s.put .headers key (Text.encode (headersJson map).compact)

/-- The store with normalised header fields at a key. -/
def putHeaders (s : Store) (key : String) (h : Headers) : Except Failure Store :=
  s.putHeaderMap key h.normalize

/-- The header map that stored octets spell. -/
def decodeHeaders (value : Bytes) : Except Failure (Dict String) :=
  ((headersShape.parseText value).map headersOf).mapError Failure.json

/-- The header map at a key. -/
def getHeaders (s : Store) (key : String) : Except Failure (Option (Dict String)) := do
  match ← s.get .headers key with
  | some value => .ok (some (← decodeHeaders value))
  | none => .ok none

end Store

end EvalProxy.Cache
