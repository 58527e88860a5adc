/-
# Settings with their sources

A configuration is put together from several sources: defaults, a file and the environment. A
`Setting` is a configured value that remembers its source, so that a message can name it. A later
source is laid over an earlier one group by group; the keys of groups are in lower case, except
inside lists.

Main definitions: `Setting`, `Setting.lay`, `Setting.assign`.
-/
import EvalProxy.Text.Integer
import EvalProxy.Text.LowerCase
import EvalProxy.Toml.Basic
namespace EvalProxy

/-- A configured value and the name of its source, if it has one. -/
inductive Setting where
  | null (source : Option String)
  | flag (source : Option String) (b : Bool)
  | int (source : Option String) (n : Int)
  | float (source : Option String) (x : Float)
  | text (source : Option String) (s : String)
  | list (source : Option String) (items : List Setting)
  | group (source : Option String) (entries : List (String × Setting))
  deriving Inhabited

namespace Setting

/-- The source of a value. -/
def source : Setting → Option String
  | null o | flag o _ | int o _ | float o _ | text o _ | list o _ | group o _ => o

/-- The entries of a group; anything else has none. -/
def entries : Setting → List (String × Setting)
  | group _ es => es
  | _ => []

/-- The items of a list; anything else has none. -/
def items : Setting → List Setting
  | list _ vs => vs
  | _ => []

/-- A group of no source without entries. -/
def noGroup : Setting := group none []

/-- The value itself if it is a group, or else one without entries. -/
def asGroup (s : Setting) : Setting :=
  match s with
  | group _ _ => s
  | _ => noGroup

/-! ## Reading sources -/

mutual

/-- A value of a document. Dates and times are texts. -/
def ofToml (source : Option String) : Toml → Setting
  | .text s => text source s
  | .int n => int source n
  | .float x => float source x
  | .flag b => flag source b
  | .moment m => text source m.text
  | .array items => list source (ofTomlItems source items)
  | .table entries => group source (ofTomlEntries source entries)

/-- The elements of an array of a document. -/
def ofTomlItems (source : Option String) : List Toml → List Setting
  | [] => []
  | v :: rest => ofToml source v :: ofTomlItems source rest

/-- The entries of a table of a document. -/
def ofTomlEntries (source : Option String) : List (String × Toml) → List (String × Setting)
  | [] => []
  | (k, v) :: rest => (k, ofToml source v) :: ofTomlEntries source rest

end

/-- A whole number; one that takes more than 64 bits with its sign is a float. -/
def ofInt (source : Option String) (n : Int) : Setting :=
  if n ≤ Int64.maxValue.toInt then int source n
  else float source (UInt64.ofNat n.toNat).toFloat

mutual

/-- A JSON value. -/
def ofJson (source : Option String) : Json → Setting
  | .null => null source
  | .bool b => flag source b
  | .int n => ofInt source n
  | .float x => float source x
  | .text s => text source s
  | .array items => list source (ofJsonItems source items)
  | .object members => group source (ofJsonMembers source members)

/-- The elements of a JSON array. -/
def ofJsonItems (source : Option String) : List Json → List Setting
  | [] => []
  | v :: rest => ofJson source v :: ofJsonItems source rest

/-- The members of a JSON object. -/
def ofJsonMembers (source : Option String) : List (String × Json) → List (String × Setting)
  | [] => []
  | (k, v) :: rest => (k, ofJson source v) :: ofJsonMembers source rest

end

mutual

/-- A value as JSON. -/
def toJson : Setting → Json
  | null _ => .null
  | flag _ b => .bool b
  | int _ n => .int n
  | float _ x => Toml.floatJson x
  | text _ s => .text s
  | list _ items => .array (itemsJson items)
  | group _ entries => .object (entriesJson entries)

/-- The items of a list as JSON. -/
def itemsJson : List Setting → List Json
  | [] => []
  | v :: rest => toJson v :: itemsJson rest

/-- The entries of a group as JSON. -/
def entriesJson : List (String × Setting) → List (String × Json)
  | [] => []
  | (k, v) :: rest => (k, toJson v) :: entriesJson rest

end

/-! ## Laying one value over another -/

/-- A group with the value at a key changed. -/
def changeAt (key : String) (f : Option Setting → Setting) (s : Setting) : Setting :=
  match s.asGroup with
  | group o es => group o (Assoc.insert key (f (Assoc.get? key es)) es)
  | other => other

/-- A list with the item at an index changed; missing items are `null`. Negative indices count from
the end. -/
def changeItem (index : Int) (f : Setting → Setting) (s : Setting) : Setting :=
  let (o, vs) := match s with
    | list o vs => (o, vs)
    | _ => (none, [])
  let place := if index < 0 then (vs.length + index).toNat else index.toNat
  let filled := vs ++ List.replicate (place + 1 - vs.length) (null none)
  list o (filled.modify place f)

mutual

/-- The group `base` with a value laid over what it has at a key: a group is merged entry by entry,
anything else takes the place of what was there. -/
def layAt (key : String) : Setting → Setting → Setting
  | group _ es, base => changeAt (Text.lowered key) (fun s => layEntries es (s.getD noGroup)) base
  | null o, base => changeAt (Text.lowered key) (fun _ => null o) base
  | flag o b, base => changeAt (Text.lowered key) (fun _ => flag o b) base
  | int o n, base => changeAt (Text.lowered key) (fun _ => int o n) base
  | float o x, base => changeAt (Text.lowered key) (fun _ => float o x) base
  | text o s, base => changeAt (Text.lowered key) (fun _ => text o s) base
  | list o vs, base => changeAt (Text.lowered key) (fun _ => list o vs) base

/-- The value `base` with entries laid over it. -/
def layEntries : List (String × Setting) → Setting → Setting
  | [], base => base
  | (k, v) :: rest, base => layEntries rest (layAt k v base)

end

/-! ## Key paths -/

/-- A step from a value to a part of it. -/
inductive Step where
  | child (key : String)
  | index (n : Int)

/-- Whether a character may stand in a key of a path. -/
def isPathChar (c : Char) : Bool := c.isAlphanum || c == '_' || c == '-' || c == ' '

/-- The index that a text up to a closing bracket spells, and the characters after the bracket. -/
def readIndex? (cs : List Char) : Option (Int × List Char) :=
  let inner := cs.takeWhile (· != ']')
  let isBlank (c : Char) : Bool := c == ' ' || c == '\t'
  let number := (inner.dropWhile isBlank).reverse.dropWhile isBlank
  match cs.drop inner.length, number.getLast? with
  | ']' :: rest, some first =>
    if first = '+' then none
    else (Text.integer? (String.ofList number.reverse)).map fun n => (n, rest)
  | _, _ => none

/-- The steps that a text spells: keys behind points and indices in brackets. -/
def steps? : Nat → List Char → Option (List Step)
  | _, [] => some []
  | 0, _ => none
  | fuel + 1, '.' :: rest =>
    let key := rest.takeWhile isPathChar
    if key.isEmpty then none
    else do
      let more ← steps? fuel (rest.drop key.length)
      some (.child (String.ofList key) :: more)
  | fuel + 1, '[' :: rest => do
    let (n, rest) ← readIndex? rest
    let more ← steps? fuel rest
    some (.index n :: more)
  | _, _ => none

/-- The key and the steps behind it that a text spells, if it is a path. -/
def path? (s : String) : Option (String × List Step) :=
  let cs := s.toList
  let key := cs.takeWhile isPathChar
  if key.isEmpty then none
  else (steps? cs.length (cs.drop key.length)).map fun steps => (String.ofList key, steps)

/-- A value with a part of it assigned that is at least one step away; what is in the way gives
place. -/
def assignBelow (value : Setting) : List Step → Setting → Setting
  | [], _ => value
  | [.child key], s => layAt key value s.asGroup
  | .child key :: rest, s => changeAt key (fun t => assignBelow value rest (t.getD (null none))) s
  | .index n :: rest, s => changeItem n (assignBelow value rest) s

/-- The configuration with a value laid over what a key path leads to. A text that is no path is a
key. -/
def assign (key : String) (value root : Setting) : Setting :=
  match path? key with
  | some (first, []) => layAt first value root
  | some (first, steps) =>
    changeAt first (fun t => assignBelow value steps (t.getD (null none))) root
  | none => layAt key value root

/-- The configuration with all entries of a source laid over it. -/
def lay (root : Setting) (entries : List (String × Setting)) : Setting :=
  entries.foldl (fun root e => assign e.1 e.2 root) root

end Setting

end EvalProxy
