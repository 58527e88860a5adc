/-
# Presets

A preset gives a name to a component with settings of its own. A manifest is a document that
declares one preset.

Main definitions: `Preset`, `Preset.ofDocument?`, `Preset.register`.
-/
import EvalProxy.Registry
import EvalProxy.Toml.Parse
namespace EvalProxy

/-- A name for another component of the same kind, with default settings. -/
structure Preset where
  name : String
  base : String
  kind : ComponentKind
  defaults : Json

namespace Preset

/-- The kind of component that a word names. -/
def kindOfName? (name : String) : Option ComponentKind :=
  if name = "interceptor" then some .interceptor
  else if name = "hook" then some .hook
  else none

/-- Whether a value is a table or an array with nothing in it. -/
def isEmptyValue : Toml → Bool
  | .table entries => entries.isEmpty
  | .array items => items.isEmpty
  | _ => false

/-- The kind that a manifest declares: a word, or a table with that word as its only key. Without a
declaration the component is an interceptor. -/
def kind? : Option Toml → Option ComponentKind
  | none => some .interceptor
  | some (.text name) => kindOfName? name
  | some (.table [(name, v)]) => if isEmptyValue v then kindOfName? name else none
  | some _ => none

/-- The settings that a manifest declares. -/
def defaults? : Option Toml → Option Json
  | none => some (.object [])
  | some (.table entries) => some (Toml.toJson (.table entries))
  | some (.moment m) => some (Toml.toJson (.moment m))
  | some _ => none

/-- The text at a key. -/
def text? (table : List (String × Toml)) (key : String) : Option String :=
  match Assoc.get? key table with
  | some (.text s) => some s
  | _ => none

/-- The keys of a manifest. -/
def keys : List String := ["name", "base", "kind", "defaults"]

/-- The preset that a table declares. It must have a name and a base, and no other keys than those
of a manifest. -/
def ofTable? (table : List (String × Toml)) : Option Preset := do
  let name ← text? table "name"
  let base ← text? table "base"
  let kind ← kind? (Assoc.get? "kind" table)
  let defaults ← defaults? (Assoc.get? "defaults" table)
  if table.all fun e => keys.contains e.1 then some ⟨name, base, kind, defaults⟩ else none

/-- The preset that a document declares. -/
def ofDocument? (text : String) : Option Preset := do
  let table ← Toml.document? text
  ofTable? table

/-- The preset that a manifest declares. -/
def ofFile (t : Files.Tree) (path : String) : Except Failure Preset :=
  match t.readText path with
  | .error e => .error (.settings s!"cannot read manifest {path}: {e.message}")
  | .ok text =>
    match ofDocument? text with
    | some p => .ok p
    | none => .error (.settings s!"invalid manifest {path}: TOML parse error")

/-- The registry with a preset. -/
def register {ι κ : Type} (p : Preset) (r : Registry ι κ) : Except Failure (Registry ι κ) :=
  r.addPreset p.kind p.name p.base p.defaults

end Preset

end EvalProxy
