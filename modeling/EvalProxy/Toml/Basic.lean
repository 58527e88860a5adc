/-
# Values of configuration files

The values that a TOML document holds, and tables while they grow. A table remembers how it came to
be, because that decides which later lines may still add to it: a table with a header of its own is
closed to dotted keys, one that only lies on the way to others may still get its header, and one
made by dotted keys takes further dotted keys but no header.

Main definitions: `Toml`, `Toml.Item`, `Toml.update?`, `Toml.addKey?`.
-/
import EvalProxy.Assoc
import EvalProxy.Json.Basic
import EvalProxy.Toml.Moment
namespace EvalProxy

/-- A value. -/
inductive Toml where
  | text (s : String)
  | int (n : Int)
  | float (x : Float)
  | flag (b : Bool)
  | moment (m : Moment)
  | array (items : List Toml)
  | table (entries : List (String × Toml))
  deriving Inhabited

namespace Toml

/-- The member under which a moment stands in JSON. -/
def momentKey : String := "$__toml_private_datetime"

/-- A float, or `null` for what no number stands for. -/
def floatJson (x : Float) : Json := if x.isNaN || x.isInf then .null else .float x

mutual

/-- A value as JSON; a moment becomes an object that holds its text. -/
def toJson : Toml → Json
  | text s => .text s
  | int n => .int n
  | float x => floatJson x
  | flag b => .bool b
  | moment m => .object [(momentKey, .text m.text)]
  | array items => .array (itemsJson items)
  | table entries => .object (entriesJson entries)

/-- The elements of an array as JSON. -/
def itemsJson : List Toml → List Json
  | [] => []
  | v :: rest => toJson v :: itemsJson rest

/-- The entries of a table as JSON. -/
def entriesJson : List (String × Toml) → List (String × Json)
  | [] => []
  | (k, v) :: rest => (k, toJson v) :: entriesJson rest

end

/-! ## Growing tables -/

/-- How a table came to be: by a header of its own, on the way to another table, or by dotted
keys. -/
inductive TableKind where
  | headed
  | implied
  | dotted
  deriving DecidableEq

/-- What stands at a key of a growing table: a finished value, a table, or a list of tables, the
latest first. -/
inductive Item where
  | value (v : Toml)
  | table (kind : TableKind) (entries : List (String × Item))
  | tables (latestFirst : List (List (String × Item)))

/-- The entries of a growing table. -/
abbrev Entries := List (String × Item)

/-- Changes the table at the end of a path. Tables that are missing on the way are made, dotted or
implied; in a list of tables the latest is meant. With dotted keys no table that has a header is
entered. The change is told how its table came to be. -/
def update? (dotted : Bool) (change : TableKind → Entries → Option Entries) :
    TableKind → List String → Entries → Option Entries
  | kind, [], entries => change kind entries
  | _, key :: path, entries =>
    match Assoc.get? key entries with
    | none => do
      let kind := if dotted then .dotted else .implied
      let inner ← update? dotted change kind path []
      some (Assoc.insert key (.table kind inner) entries)
    | some (.value _) => none
    | some (.tables []) => none
    | some (.tables (latest :: earlier)) => do
      let inner ← update? dotted change .headed path latest
      some (Assoc.insert key (.tables (inner :: earlier)) entries)
    | some (.table kind inner) =>
      if dotted && kind == .headed then none
      else do
        let inner ← update? dotted change kind path inner
        some (Assoc.insert key (.table kind inner) entries)

/-- Puts a value at a new key below a path of dotted keys. What a path leads to must have been made
by dotted keys. -/
def addKey? (path : List String) (key : String) (v : Toml) : Entries → Option Entries :=
  update? true
    (fun kind entries =>
      if (kind == .dotted) == path.isEmpty then none
      else
        match Assoc.get? key entries with
        | some _ => none
        | none => some (Assoc.insert key (.value v) entries))
    .headed path

/-- Gives a table its header. -/
def openTable? (path : List String) (key : String) : Entries → Option Entries :=
  update? false
    (fun _ entries =>
      match Assoc.get? key entries with
      | none => some (Assoc.insert key (.table .headed []) entries)
      | some (.table .implied inner) => some (Assoc.insert key (.table .headed inner) entries)
      | some _ => none)
    .headed path

/-- Adds a table to a list of tables. -/
def openElement? (path : List String) (key : String) : Entries → Option Entries :=
  update? false
    (fun _ entries =>
      match Assoc.get? key entries with
      | none => some (Assoc.insert key (.tables [[]]) entries)
      | some (.tables elements) => some (Assoc.insert key (.tables ([] :: elements)) entries)
      | some _ => none)
    .headed path

/-! ## Finished tables -/

mutual

/-- The value of an item. -/
def Item.finished : Item → Toml
  | .value v => v
  | .table _ entries => .table (finishedEntries entries)
  | .tables latestFirst => .array (finishedElements [] latestFirst)

/-- The values of entries. -/
def finishedEntries : List (String × Item) → List (String × Toml)
  | [] => []
  | (k, item) :: rest => (k, item.finished) :: finishedEntries rest

/-- The values of tables, the latest last, in front of those given. -/
def finishedElements (later : List Toml) : List (List (String × Item)) → List Toml
  | [] => later
  | entries :: earlier => finishedElements (.table (finishedEntries entries) :: later) earlier

end

end Toml

end EvalProxy
